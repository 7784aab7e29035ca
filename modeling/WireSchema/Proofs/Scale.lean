import Mathlib.Data.Int.Order.Basic
import Mathlib.Data.List.Lex
import WireSchema.Interval.Merge
import WireSchema.Proofs.Sorting

/-!
Numbers of one class compare as their ranks do. On such a class both orders of intervals are
consistent, so sorting by them sorts; across classes they need not be.
-/

namespace WireSchema

namespace Number

/-- A class of numbers, each with its place among the integers. -/
structure Scale where
  holds : Number → Prop
  rank : Number → Int
  compare_eq : ∀ a b, holds a → holds b → a.compare b = Ord.compare (rank a) (rank b)

def integers : Scale where
  holds n := n.toInt?.isSome = true
  rank n := n.toInt?.getD 0
  compare_eq a b left right := by
    obtain ⟨m, atM⟩ := Option.isSome_iff_exists.mp left
    obtain ⟨n, atN⟩ := Option.isSome_iff_exists.mp right
    simp [Number.compare, atM, atN]

theorem integers_holds {n : Number} {value : Int} (read : n.toInt? = some value) :
    integers.holds n := by
  simp [integers, read]

theorem integers_rank {n : Number} {value : Int} (read : n.toInt? = some value) :
    integers.rank n = value := by
  simp [integers, read]

namespace Scale

variable (scale : Scale) {a b : Number}

theorem le_iff (left : scale.holds a) (right : scale.holds b) :
    a.le b = true ↔ scale.rank a ≤ scale.rank b := by
  rw [Number.le, scale.compare_eq a b left right, bne_iff_ne, Ne, Int.compare_eq_gt]
  omega

theorem lt_iff (left : scale.holds a) (right : scale.holds b) :
    a.lt b = true ↔ scale.rank a < scale.rank b := by
  rw [Number.lt, scale.compare_eq a b left right, beq_iff_eq, Int.compare_eq_lt]

theorem compare_lt_iff (left : scale.holds a) (right : scale.holds b) :
    a.compare b = .lt ↔ scale.rank a < scale.rank b := by
  rw [scale.compare_eq a b left right, Int.compare_eq_lt]

theorem compare_same_iff (left : scale.holds a) (right : scale.holds b) :
    a.compare b = .eq ↔ scale.rank a = scale.rank b := by
  rw [scale.compare_eq a b left right, Int.compare_eq_eq]

end Scale

end Number

namespace Interval

open Number (Scale)

def On (scale : Scale) (i : Interval) : Prop := scale.holds i.min ∧ scale.holds i.max

variable (scale : Scale)

theorem contains_iff {i : Interval} {n : Number} (on : i.On scale) (value : scale.holds n) :
    i.contains n = true ↔
      scale.rank i.min ≤ scale.rank n ∧ scale.rank n ≤ scale.rank i.max := by
  rw [contains, Bool.and_eq_true, scale.le_iff on.1 value, scale.le_iff value on.2]

@[simp] theorem ordered_window (i : Interval) : i.ordered.window = i.window := by
  unfold ordered
  split <;> rfl

theorem ordered_on {i : Interval} (on : i.On scale) : i.ordered.On scale := by
  unfold ordered
  split
  · exact ⟨on.2, on.1⟩
  · exact on

theorem ordered_bounds {i : Interval} (on : i.On scale) :
    scale.rank i.ordered.min = Min.min (scale.rank i.min) (scale.rank i.max) ∧
      scale.rank i.ordered.max = Max.max (scale.rank i.min) (scale.rank i.max) := by
  unfold ordered
  split
  · rename_i reversed
    rw [scale.lt_iff on.2 on.1] at reversed
    constructor <;> simp only <;> omega
  · rename_i inOrder
    rw [scale.lt_iff on.2 on.1] at inOrder
    constructor <;> omega

theorem by_window_iff {a b : Interval} (left : a.On scale) (right : b.On scale) :
    byWindow a b = true ↔
      a.window.since < b.window.since ∨ a.window.since = b.window.since ∧
        (a.window.deprecated < b.window.deprecated ∨
          a.window.deprecated = b.window.deprecated ∧
            (scale.rank a.min < scale.rank b.min ∨ scale.rank a.min = scale.rank b.min ∧
              scale.rank a.max < scale.rank b.max)) := by
  simp only [byWindow, compareWindow, compareBounds, beq_iff_eq, Ordering.then_eq_lt,
    Ordering.then_eq_eq, Nat.compare_eq_lt, Nat.compare_eq_eq,
    scale.compare_lt_iff left.1 right.1, scale.compare_same_iff left.1 right.1,
    scale.compare_lt_iff left.2 right.2]
  omega

theorem by_bounds_iff {a b : Interval} (left : a.On scale) (right : b.On scale) :
    byBounds a b = true ↔
      scale.rank a.min < scale.rank b.min ∨ scale.rank a.min = scale.rank b.min ∧
        (scale.rank a.max < scale.rank b.max ∨ scale.rank a.max = scale.rank b.max ∧
          (a.window.since < b.window.since ∨ a.window.since = b.window.since ∧
            a.window.deprecated < b.window.deprecated)) := by
  simp only [byBounds, compareWindow, compareBounds, beq_iff_eq, Ordering.then_eq_lt,
    Ordering.then_eq_eq, Nat.compare_eq_lt, Nat.compare_eq_eq,
    scale.compare_lt_iff left.1 right.1, scale.compare_same_iff left.1 right.1,
    scale.compare_lt_iff left.2 right.2, scale.compare_same_iff left.2 right.2]
  omega

theorem by_window_ordered : Sorting.OrderedOn (On scale) byWindow :=
  Sorting.ordered_on_key
    (fun i => [(i.window.since : Int), i.window.deprecated, scale.rank i.min, scale.rank i.max])
    fun left right => by
      simpa [List.cons_lt_cons_iff, Int.natCast_inj] using by_window_iff scale left right

theorem by_bounds_ordered : Sorting.OrderedOn (On scale) byBounds :=
  Sorting.ordered_on_key
    (fun i => [scale.rank i.min, scale.rank i.max, (i.window.since : Int), i.window.deprecated])
    fun left right => by
      simpa [List.cons_lt_cons_iff, Int.natCast_inj] using by_bounds_iff scale left right

theorem stable_by_window (intervals : List Interval) (on : ∀ i ∈ intervals, i.On scale) :
    (Sorting.stable byWindow intervals).Pairwise fun a b =>
      a.window = b.window → scale.rank a.min ≤ scale.rank b.min := by
  have sorted := Sorting.stable_sorted (by_window_ordered scale) intervals on
  refine sorted.imp_of_mem fun {a b} first second notBelow same => ?_
  rw [Sorting.mem_stable] at first second
  rw [Bool.eq_false_iff, Ne, by_window_iff scale (on b second) (on a first), same] at notBelow
  omega

theorem stable_by_bounds (intervals : List Interval) (on : ∀ i ∈ intervals, i.On scale) :
    (Sorting.stable byBounds intervals).Pairwise fun a b =>
      scale.rank a.min ≤ scale.rank b.min := by
  have sorted := Sorting.stable_sorted (by_bounds_ordered scale) intervals on
  refine sorted.imp_of_mem fun {a b} first second notBelow => ?_
  rw [Sorting.mem_stable] at first second
  rw [Bool.eq_false_iff, Ne, by_bounds_iff scale (on b second) (on a first)] at notBelow
  omega

end Interval

end WireSchema
