import WireSchema.Double.Nearest
import WireSchema.Double.Shortest
import WireSchema.Literal

/-!
Bounds of valid values: integers, which remember whether they were signed or unsigned words, and
doubles. Two integers compare exactly, any other two as doubles.
-/

namespace WireSchema

inductive Number where
  | signed (value : Int)
  | unsigned (value : Nat)
  | real (value : Double)
  deriving DecidableEq

namespace Number

instance : Inhabited Number := ⟨.signed 0⟩

def toInt? : Number → Option Int
  | .signed n => some n
  | .unsigned n => some n
  | .real _ => none

def toDouble : Number → Double
  | .signed n => Double.ofInt n
  | .unsigned n => Double.ofInt n
  | .real x => x

def isSpecial : Number → Bool
  | .real x => !x.isFinite
  | _ => false

def compare (a b : Number) : Ordering :=
  match a.toInt?, b.toInt? with
  | some m, some n => Ord.compare m n
  | _, _ => Double.compare a.toDouble b.toDouble

def lt (a b : Number) : Bool := a.compare b == .lt
def le (a b : Number) : Bool := a.compare b != .gt

def same (a b : Number) : Bool := a.compare b == .eq

def min (a b : Number) : Number := if b.lt a then b else a
def max (a b : Number) : Number := if b.lt a then a else b

/-- An integer as a bound: a signed word where it fits, otherwise the nearest unsigned word. -/
def ofInt (n : Int) : Number :=
  if Literal.leastSigned ≤ n ∧ n ≤ Literal.greatestSigned then .signed n
  else .unsigned (Nat.min n.toNat Literal.greatestUnsigned)

def text : Number → String
  | .signed n => toString n
  | .unsigned n => toString n
  | .real x => x.text

end Number

end WireSchema
