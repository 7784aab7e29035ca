import WireSchema.Double

/-!
Rounding to the nearest double, ties to the even one: of a quotient of naturals, and from it
of integers, decimals, products and quotients.
-/

namespace WireSchema.Double

/-- The rank nearest to `num / den`. With `s` the binary places that do not fit into 53 bits,
the quotient in units of `2 ^ s` is `cell`; the remainder decides whether the next rank up is
nearer, and of two equally near ranks the even one wins. -/
def nearestRank (num den : Nat) : Nat :=
  let scaled := num * unitsInOne
  let s := (scaled / den).log2 - 52
  let unit := den * Nat.pow 2 s
  let cell := scaled / unit
  let doubled := 2 * (scaled % unit)
  let up := unit < doubled || (doubled == unit && cell % 2 == 1)
  s * Nat.pow 2 52 + cell + (if up then 1 else 0)

def nearest (negative : Bool) (num den : Nat) : Double :=
  ofRank negative (nearestRank num den)

def ofInt (n : Int) : Double :=
  nearest (n < 0) n.natAbs 1

/-- `digits * 10 ^ exponent`. Decimals whose leading digit stands beyond every finite double, or
below half of the smallest, are settled without computing the power. -/
def ofDecimal (negative : Bool) (digits : Nat) (exponent : Int) : Double :=
  let places : Int := (Nat.toDigits 10 digits).length
  if digits = 0 then ofRank negative 0
  else if 400 < places + exponent then ofRank negative infiniteRank
  else if places + exponent < -400 then ofRank negative 0
  else if exponent < 0 then nearest negative digits (Nat.pow 10 exponent.natAbs)
  else nearest negative (digits * Nat.pow 10 exponent.natAbs) 1

def mul : Double → Double → Double
  | .nan, _ => .nan
  | _, .nan => .nan
  | .signed na ra, .signed nb rb =>
      let negative := na != nb
      if ra.val = infiniteRank || rb.val = infiniteRank then
        if ra.val = 0 || rb.val = 0 then .nan else ofRank negative infiniteRank
      else nearest negative (unitsOfRank ra * unitsOfRank rb) (unitsInOne * unitsInOne)

def div : Double → Double → Double
  | .nan, _ => .nan
  | _, .nan => .nan
  | .signed na ra, .signed nb rb =>
      let negative := na != nb
      if ra.val = infiniteRank then
        if rb.val = infiniteRank then .nan else ofRank negative infiniteRank
      else if rb.val = infiniteRank then ofRank negative 0
      else if rb.val = 0 then
        if ra.val = 0 then .nan else ofRank negative infiniteRank
      else nearest negative (unitsOfRank ra) (unitsOfRank rb)

def greatestSingle : Double :=
  ofInt ((Nat.pow 2 24 - 1) * Nat.pow 2 104)

end WireSchema.Double
