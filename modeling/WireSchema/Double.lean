/-!
Double precision numbers in exact arithmetic. A double is not-a-number, or a sign with a rank:
the position of its magnitude among all non-negative doubles, so that the rank of a finite
double and of infinity is the number its 63 lower bits spell. Magnitudes are counted in units
of the smallest positive double, which makes every finite one a natural number.
-/

namespace WireSchema

namespace Double

def infiniteRank : Nat := 2047 * Nat.pow 2 52

end Double

inductive Double where
  | nan
  | signed (negative : Bool) (rank : Fin (Double.infiniteRank + 1))
  deriving DecidableEq

namespace Double

/-- A magnitude by its rank, where ranks beyond infinity count as infinity. -/
def ofRank (negative : Bool) (rank : Nat) : Double :=
  .signed negative ⟨min rank infiniteRank, by omega⟩

def infinity : Double := ofRank false infiniteRank
def negativeInfinity : Double := ofRank true infiniteRank
def zero : Double := ofRank false 0

def greatest : Double := ofRank false (infiniteRank - 1)

instance : Inhabited Double := ⟨zero⟩

def isNan : Double → Bool
  | .nan => true
  | .signed _ _ => false

def isFinite : Double → Bool
  | .nan => false
  | .signed _ rank => rank.val < infiniteRank

def negate : Double → Double
  | .nan => .nan
  | .signed negative rank => .signed (!negative) rank

/-- Place in the order of all doubles: by value, with the two zeros in one place and
not-a-number in a place of its own after everything else. -/
def position : Double → Int
  | .nan => infiniteRank + 1
  | .signed false rank => rank.val
  | .signed true rank => -rank.val

def compare (a b : Double) : Ordering :=
  Ord.compare a.position b.position

def unitsOfRank (rank : Nat) : Nat :=
  let exponent := rank / Nat.pow 2 52
  let fraction := rank % Nat.pow 2 52
  -- Only magnitudes with an exponent of zero have no leading bit.
  if exponent = 0 then fraction else (Nat.pow 2 52 + fraction) * Nat.pow 2 (exponent - 1)

def unitsInOne : Nat := Nat.pow 2 1074

def toInt? : Double → Option Int
  | .nan => none
  | .signed negative rank =>
      let units := unitsOfRank rank
      if rank.val < infiniteRank && units % unitsInOne == 0 then
        let magnitude : Int := (units / unitsInOne : Nat)
        some (if negative then -magnitude else magnitude)
      else none

/-- The 64 bits of the interchange format; every not-a-number has the same ones. -/
def toBits : Double → Nat
  | .nan => infiniteRank + Nat.pow 2 51
  | .signed negative rank => (if negative then Nat.pow 2 63 else 0) + rank.val

def ofBits (bits : Nat) : Double :=
  let rank := bits % Nat.pow 2 63
  if infiniteRank < rank then .nan else ofRank (bits / Nat.pow 2 63 % 2 == 1) rank

end Double

end WireSchema
