import WireSchema.Number
import WireSchema.Window

/-!
Intervals of numbers, each in force during a version window. The bounds belong to the interval.
-/

namespace WireSchema

structure Interval where
  min : Number
  max : Number
  window : Window := Window.always
  deriving DecidableEq, Inhabited

namespace Interval

def point (n : Number) : Interval := ⟨n, n, Window.always⟩

def contains (i : Interval) (n : Number) : Bool :=
  i.min.le n && n.le i.max

def ordered (i : Interval) : Interval :=
  if i.max.lt i.min then { i with min := i.max, max := i.min } else i

def isFinite (i : Interval) : Bool :=
  !i.min.isSpecial && !i.max.isSpecial

/-- Equality up to the spelling of the bounds. -/
def same (a b : Interval) : Bool :=
  a.min.same b.min && a.max.same b.max && a.window == b.window

/-- More than a boundary point is shared. -/
def overlaps (a b : Interval) : Bool :=
  (a.min.min a.max).lt (b.min.max b.max) && (b.min.min b.max).lt (a.min.max a.max)

def anyOverlap : List Interval → Bool
  | [] => false
  | i :: rest =>
      (i.isFinite && rest.any fun j => j.isFinite && i.window == j.window && i.overlaps j) ||
        anyOverlap rest

end Interval

end WireSchema
