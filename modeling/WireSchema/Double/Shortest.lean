import WireSchema.Double
import WireSchema.Text

/-!
The text of a double: the fewest decimal digits that read back as the same double, of those the
nearest to it, written with all places and never with an exponent.
-/

namespace WireSchema.Double

/-- Decimal digits `d₁d₂…` of a positive number together with the number of them that stand
before the point; a count of zero or less means leading zeros after the point. -/
structure Digits where
  digits : Nat
  before : Int

/-- Places of the integer part of a positive number of units: `10 ^ (p - 1) ≤ x < 10 ^ p`. The
smallest unit is above `10 ^ (-324)`, so scaling by `10 ^ 340` leaves the leading digit in place. -/
def placesOf (units : Nat) : Int :=
  ((Nat.toDigits 10 (units * Nat.pow 10 340 / unitsInOne)).length : Int) - 340

/-- The candidates of `count` digits around the number, kept if they lie among the reals that
round to this rank; the nearer one wins and a tie goes up. -/
def digitsOfLength (rank count : Nat) : Option Nat :=
  let units := unitsOfRank rank
  let low := unitsOfRank (rank - 1) + units
  let high := units + unitsOfRank (rank + 1)
  let shift := placesOf units - count
  -- one step of this grid, and the number itself, over a common denominator
  let step := (if shift < 0 then 1 else Nat.pow 10 shift.natAbs) * unitsInOne
  let scale := if shift < 0 then Nat.pow 10 shift.natAbs else 1
  let value := units * scale
  let below := value / step
  let inside (d : Nat) : Bool :=
    let twice := 2 * d * step
    if rank % 2 = 0 then low * scale ≤ twice && twice ≤ high * scale
    else low * scale < twice && twice < high * scale
  let rest := 2 * (value % step)
  match inside below, inside (below + 1) with
  | true, true => some (if rest < step then below else below + 1)
  | true, false => some below
  | false, true => some (below + 1)
  | false, false => none

def shortest (rank : Nat) : Digits :=
  let before := placesOf (unitsOfRank rank)
  let found := (List.range 17).findSome? fun i =>
    (digitsOfLength rank (i + 1)).map fun d =>
      if (Nat.toDigits 10 d).length = i + 1 then (⟨d, before⟩ : Digits) else ⟨d, before + 1⟩
  -- Seventeen digits always have a candidate.
  found.getD ⟨0, before⟩

def Digits.text (d : Digits) : String :=
  let ds := Text.dropEndWhile (· == '0') (Nat.toDigits 10 d.digits)
  let zeros (n : Nat) : List Char := List.replicate n '0'
  if d.before ≤ 0 then String.ofList ('0' :: '.' :: zeros d.before.natAbs ++ ds)
  else
    let before := d.before.natAbs
    if ds.length ≤ before then String.ofList (ds ++ zeros (before - ds.length))
    else String.ofList (ds.take before ++ '.' :: ds.drop before)

def text : Double → String
  | .nan => "NaN"
  | .signed negative rank =>
      let magnitude :=
        if rank.val = infiniteRank then "inf"
        else if rank.val = 0 then "0"
        else (shortest rank).text
      if negative then "-" ++ magnitude else magnitude

end WireSchema.Double
