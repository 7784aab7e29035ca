import WireSchema.Interval
import WireSchema.Sorting

/-!
Merging intervals. Intervals of one window that touch are joined into one: integers touch when
no integer lies between them, doubles only when they overlap in finite bounds. The result is
sorted by value, so a lookup reads a front part of it.
-/

namespace WireSchema

inductive Joining where
  | integral
  | real
  deriving DecidableEq

/-- How to join, and whether windows count; if not, every interval is always in force. -/
structure MergePolicy where
  joining : Joining
  versioned : Bool
  deriving DecidableEq

namespace Interval

/-- `next`, which does not start before `i`, continues it. -/
def joins (joining : Joining) (i next : Interval) : Bool :=
  match joining with
  | .integral =>
      match i.max.toInt?, next.min.toInt? with
      | some high, some low => decide (low ≤ high + 1)
      | _, _ => next.min.le i.max
  | .real => !i.max.isSpecial && !next.min.isSpecial && next.min.le i.max

def coalesce (joining : Joining) (i : Interval) : List Interval → List Interval
  | [] => [i]
  | next :: rest =>
      if i.window == next.window && i.joins joining next then
        coalesce joining (if i.max.lt next.max then { i with max := next.max } else i) rest
      else i :: coalesce joining next rest

def coalesceAll (joining : Joining) : List Interval → List Interval
  | [] => []
  | i :: rest => coalesce joining i rest

def compareWindow (a b : Window) : Ordering :=
  (compare a.since b.since).then (compare a.deprecated b.deprecated)

def compareBounds (a b : Interval) : Ordering :=
  (a.min.compare b.min).then (a.max.compare b.max)

def byWindow (a b : Interval) : Bool :=
  -- Intervals that can be joined come to lie side by side.
  (compareWindow a.window b.window).then (compareBounds a b) == .lt

def byBounds (a b : Interval) : Bool :=
  -- Lookups go by the bounds alone.
  (compareBounds a b).then (compareWindow a.window b.window) == .lt

def normal (policy : MergePolicy) (i : Interval) : Interval :=
  (if policy.versioned then i else { i with window := Window.always }).ordered

def merge (policy : MergePolicy) (intervals : List Interval) : List Interval :=
  Sorting.stable byBounds
    (coalesceAll policy.joining
      (Sorting.stable byWindow (intervals.map (normal policy))))

/-- Whether a sorted list has an interval that holds `n`, at `version` if one is given. The
intervals that start after `n` are behind those that do not, and are left out. -/
def lookup (intervals : List Interval) (n : Number) (version : Option Nat) : Bool :=
  (Sorting.front (fun i => i.min.le n) intervals).any fun i =>
    n.le i.max && version.all i.window.activeAt

end Interval

end WireSchema
