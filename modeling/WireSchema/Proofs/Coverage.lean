import WireSchema.Proofs.Scale

/-!
The values that merged intervals of integers hold: those that the given intervals hold, at the
versions they hold them. Joining intervals of one window neither adds nor loses an integer, and
the look-up in the sorted result misses none.
-/

namespace WireSchema.Interval

open Number (Scale integers)

def Covers (intervals : List Interval) (n : Number) (version : Option Nat) : Prop :=
  ∃ i ∈ intervals, i.contains n = true ∧ version.all i.window.activeAt = true

def HoldsIn (inside : Window → Prop) (intervals : List Interval) (n : Number) : Prop :=
  ∃ i ∈ intervals, i.contains n = true ∧ inside i.window

theorem holds_in_cons (inside : Window → Prop) (i : Interval) (rest : List Interval) (n : Number) :
    HoldsIn inside (i :: rest) n ↔
      (i.contains n = true ∧ inside i.window) ∨ HoldsIn inside rest n := by
  simp [HoldsIn]

theorem holds_in_stable (inside : Window → Prop) (lt : Interval → Interval → Bool)
    (intervals : List Interval) (n : Number) :
    HoldsIn inside (Sorting.stable lt intervals) n ↔ HoldsIn inside intervals n := by
  simp [HoldsIn]

/-- In a list whose intervals start in order, the front part that the look-up reads is enough. -/
theorem lookup_iff_covers (scale : Scale) (intervals : List Interval) (n : Number)
    (version : Option Nat) (on : ∀ i ∈ intervals, i.On scale) (value : scale.holds n)
    (sorted : intervals.Pairwise fun a b => scale.rank a.min ≤ scale.rank b.min) :
    lookup intervals n version = true ↔ Covers intervals n version := by
  have front : intervals.Pairwise fun a b => b.min.le n = true → a.min.le n = true := by
    refine sorted.imp_of_mem fun {a b} first second start reached => ?_
    rw [scale.le_iff (on b second).1 value] at reached
    rw [scale.le_iff (on a first).1 value]
    omega
  rw [lookup, Sorting.front_eq_filter _ _ front, List.any_filter]
  simp [Covers, contains, and_assoc]

def extendTo (i next : Interval) : Interval :=
  if i.max.lt next.max then { i with max := next.max } else i

@[simp] theorem extend_to_window (i next : Interval) : (i.extendTo next).window = i.window := by
  unfold extendTo
  split <;> rfl

@[simp] theorem extend_to_min (i next : Interval) : (i.extendTo next).min = i.min := by
  unfold extendTo
  split <;> rfl

theorem extend_to_on {scale : Scale} {i next : Interval} (on : i.On scale)
    (nextOn : next.On scale) : (i.extendTo next).On scale := by
  unfold extendTo
  split
  · exact ⟨on.1, nextOn.2⟩
  · exact on

theorem extend_to_max {scale : Scale} {i next : Interval} (on : i.On scale)
    (nextOn : next.On scale) :
    scale.rank (i.extendTo next).max = Max.max (scale.rank i.max) (scale.rank next.max) := by
  unfold extendTo
  split
  · rename_i later
    rw [scale.lt_iff on.2 nextOn.2] at later
    simp only
    omega
  · rename_i notLater
    rw [scale.lt_iff on.2 nextOn.2] at notLater
    omega

theorem coalesce_cons (joining : Joining) (i next : Interval) (rest : List Interval) :
    coalesce joining i (next :: rest) =
      if i.window == next.window && i.joins joining next then
        coalesce joining (i.extendTo next) rest
      else i :: coalesce joining next rest := rfl

theorem coalesce_on (scale : Scale) (joining : Joining) (i : Interval) (rest : List Interval)
    (on : ∀ j ∈ i :: rest, j.On scale) : ∀ j ∈ coalesce joining i rest, j.On scale := by
  induction rest generalizing i with
  | nil => exact on
  | cons next rest ih =>
      have first : i.On scale := on i List.mem_cons_self
      have others : ∀ j ∈ next :: rest, j.On scale :=
        fun j member => on j (List.mem_cons_of_mem i member)
      rw [coalesce_cons]
      split
      · apply ih
        intro j member
        rcases List.mem_cons.mp member with same | later
        · subst j
          exact extend_to_on first (others next List.mem_cons_self)
        · exact others j (List.mem_cons_of_mem next later)
      · intro j member
        rcases List.mem_cons.mp member with same | later
        · exact same ▸ first
        · exact ih next others j later

theorem joins_integral_iff {i next : Interval} (on : i.On integers) (nextOn : next.On integers) :
    i.joins .integral next = true ↔ integers.rank next.min ≤ integers.rank i.max + 1 := by
  obtain ⟨high, atHigh⟩ := Option.isSome_iff_exists.mp on.2
  obtain ⟨low, atLow⟩ := Option.isSome_iff_exists.mp nextOn.1
  simp [joins, integers, atHigh, atLow]

/-- On a class of numbers, whether intervals are joined is a matter of ranks alone: of that where the
first one ends and that where the next one starts. They are not joined over a gap. -/
structure RankRule (joining : Joining) (scale : Scale) where
  rule : Int → Int → Bool
  decides : ∀ {i next : Interval}, i.On scale → next.On scale →
    i.joins joining next = rule (scale.rank i.max) (scale.rank next.min)
  touches : ∀ high low, rule high low = true → low ≤ high + 1

def integralRule : RankRule .integral integers where
  rule high low := decide (low ≤ high + 1)
  decides on nextOn := by
    rw [Bool.eq_iff_iff, joins_integral_iff on nextOn, decide_eq_true_eq]
  touches _ _ := of_decide_eq_true

section Joined

variable {scale : Scale} {joining : Joining} (inside : Window → Prop) {n : Number}

theorem extend_to_contains {i next : Interval} (on : i.On scale) (nextOn : next.On scale)
    (value : scale.holds n) (start : scale.rank i.min ≤ scale.rank next.min)
    (touching : scale.rank next.min ≤ scale.rank i.max + 1) :
    (i.extendTo next).contains n = true ↔ i.contains n = true ∨ next.contains n = true := by
  rw [contains_iff scale (extend_to_on on nextOn) value, contains_iff scale on value,
    contains_iff scale nextOn value, extend_to_min, extend_to_max on nextOn]
  -- No rank lies between two that touch.
  omega

theorem coalesce_holds (ranks : RankRule joining scale) (i : Interval) (rest : List Interval)
    (on : ∀ j ∈ i :: rest, j.On scale) (value : scale.holds n)
    (sorted : (i :: rest).Pairwise fun a b =>
      a.window = b.window → scale.rank a.min ≤ scale.rank b.min) :
    HoldsIn inside (coalesce joining i rest) n ↔ HoldsIn inside (i :: rest) n := by
  -- `i` is the interval grown so far. Growing it moves its end alone, so what was sorted stays so.
  induction rest generalizing i with
  | nil => exact Iff.rfl
  | cons next rest ih =>
      have first : i.On scale := on i List.mem_cons_self
      have second : next.On scale := on next (by simp)
      obtain ⟨start, sortedRest⟩ := List.pairwise_cons.mp sorted
      rw [coalesce_cons]
      split
      · rename_i joined
        rw [Bool.and_eq_true, beq_iff_eq, ranks.decides first second] at joined
        obtain ⟨sameWindow, touching⟩ := joined
        have startNext := start next List.mem_cons_self sameWindow
        have grown : ∀ j ∈ i.extendTo next :: rest, j.On scale := by
          intro j member
          rcases List.mem_cons.mp member with same | later
          · exact same ▸ extend_to_on first second
          · exact on j (by simp [later])
        have sortedGrown : (i.extendTo next :: rest).Pairwise fun a b =>
            a.window = b.window → scale.rank a.min ≤ scale.rank b.min := by
          refine List.pairwise_cons.mpr ⟨?_, (List.pairwise_cons.mp sortedRest).2⟩
          intro j member
          simpa using start j (List.mem_cons_of_mem next member)
        rw [ih (i.extendTo next) grown sortedGrown, holds_in_cons, holds_in_cons, holds_in_cons,
          extend_to_window,
          extend_to_contains first second value startNext (ranks.touches _ _ touching),
          ← sameWindow, or_and_right, or_assoc]
      · rw [holds_in_cons, holds_in_cons inside i,
          ih next (fun j member => on j (List.mem_cons_of_mem i member)) sortedRest]

theorem coalesce_all_holds (ranks : RankRule joining scale) (intervals : List Interval)
    (on : ∀ i ∈ intervals, i.On scale) (value : scale.holds n)
    (sorted : intervals.Pairwise fun a b =>
      a.window = b.window → scale.rank a.min ≤ scale.rank b.min) :
    HoldsIn inside (coalesceAll joining intervals) n ↔ HoldsIn inside intervals n := by
  cases intervals with
  | nil => exact Iff.rfl
  | cons i rest => exact coalesce_holds inside ranks i rest on value sorted

end Joined

theorem coalesce_all_on (scale : Scale) (joining : Joining) (intervals : List Interval)
    (on : ∀ i ∈ intervals, i.On scale) : ∀ i ∈ coalesceAll joining intervals, i.On scale := by
  cases intervals with
  | nil => exact on
  | cons i rest => exact coalesce_on scale joining i rest on

theorem normal_on (scale : Scale) (policy : MergePolicy) {i : Interval} (on : i.On scale) :
    (i.normal policy).On scale := by
  unfold normal
  split <;> exact ordered_on scale on

section Merged

variable {scale : Scale} {joining : Joining} {intervals : List Interval}

theorem map_normal_on (policy : MergePolicy) (on : ∀ i ∈ intervals, i.On scale) :
    ∀ i ∈ intervals.map (normal policy), i.On scale := by
  intro i member
  obtain ⟨source, given, rfl⟩ := List.mem_map.mp member
  exact normal_on scale policy (on source given)

def runs (policy : MergePolicy) (intervals : List Interval) : List Interval :=
  coalesceAll policy.joining (Sorting.stable byWindow (intervals.map (normal policy)))

theorem merge_eq (policy : MergePolicy) (intervals : List Interval) :
    merge policy intervals = Sorting.stable byBounds (runs policy intervals) := rfl

theorem runs_on (policy : MergePolicy) (on : ∀ i ∈ intervals, i.On scale) :
    ∀ i ∈ runs policy intervals, i.On scale :=
  coalesce_all_on scale policy.joining _ fun i member =>
    map_normal_on policy on i ((Sorting.mem_stable byWindow _ i).mp member)

theorem merge_on (policy : MergePolicy) (on : ∀ i ∈ intervals, i.On scale) :
    ∀ i ∈ merge policy intervals, i.On scale := by
  intro i member
  rw [merge_eq, Sorting.mem_stable] at member
  exact runs_on policy on i member

theorem merge_holds (ranks : RankRule joining scale) (inside : Window → Prop) (versioned : Bool)
    {n : Number} (on : ∀ i ∈ intervals, i.On scale) (value : scale.holds n) :
    HoldsIn inside (merge ⟨joining, versioned⟩ intervals) n ↔
      HoldsIn inside (intervals.map (normal ⟨joining, versioned⟩)) n := by
  have normalOn := map_normal_on ⟨joining, versioned⟩ on
  -- The two sorts hold what they sort, and joining needs the first of them.
  rw [merge, holds_in_stable, coalesce_all_holds inside ranks _
      (fun i member => normalOn i ((Sorting.mem_stable byWindow _ i).mp member)) value
      (stable_by_window scale _ normalOn),
    holds_in_stable]

theorem merge_lookup (ranks : RankRule joining scale) (versioned : Bool) {n : Number}
    (version : Option Nat) (on : ∀ i ∈ intervals, i.On scale) (value : scale.holds n) :
    lookup (merge ⟨joining, versioned⟩ intervals) n version = true ↔
      Covers (intervals.map (normal ⟨joining, versioned⟩)) n version := by
  have sorted := stable_by_bounds scale _ (runs_on ⟨joining, versioned⟩ on)
  rw [lookup_iff_covers scale _ n version (merge_on _ on) value sorted]
  exact merge_holds ranks (fun window => version.all window.activeAt = true) versioned on value

end Merged

theorem merge_covers (versioned : Bool) (intervals : List Interval) (n : Number)
    (version : Option Nat) (on : ∀ i ∈ intervals, i.On integers) (value : integers.holds n) :
    lookup (merge ⟨.integral, versioned⟩ intervals) n version = true ↔
      Covers (intervals.map (normal ⟨.integral, versioned⟩)) n version :=
  merge_lookup integralRule versioned version on value

def Spans (i : Interval) (k : Int) : Prop :=
  ∃ a b, i.min.toInt? = some a ∧ i.max.toInt? = some b ∧ Min.min a b ≤ k ∧ k ≤ Max.max a b

theorem normal_window (policy : MergePolicy) (i : Interval) :
    (i.normal policy).window = if policy.versioned then i.window else Window.always := by
  unfold normal
  split <;> simp

theorem normal_bounds (scale : Scale) (policy : MergePolicy) {i : Interval} (on : i.On scale) :
    scale.rank (i.normal policy).min = Min.min (scale.rank i.min) (scale.rank i.max) ∧
      scale.rank (i.normal policy).max = Max.max (scale.rank i.min) (scale.rank i.max) := by
  unfold normal
  split
  · exact ordered_bounds scale on
  · exact ordered_bounds scale (i := { i with window := Window.always }) on

theorem normal_contains (scale : Scale) (policy : MergePolicy) {i : Interval} {n : Number}
    (on : i.On scale) (value : scale.holds n) :
    (i.normal policy).contains n = true ↔
      Min.min (scale.rank i.min) (scale.rank i.max) ≤ scale.rank n ∧
        scale.rank n ≤ Max.max (scale.rank i.min) (scale.rank i.max) := by
  obtain ⟨least, greatest⟩ := normal_bounds scale policy on
  rw [contains_iff scale (normal_on scale policy on) value, least, greatest]

theorem normal_contains_iff (policy : MergePolicy) {i : Interval} {n : Number} {k : Int}
    (on : i.On integers) (read : n.toInt? = some k) :
    (i.normal policy).contains n = true ↔ i.Spans k := by
  obtain ⟨a, atA⟩ := Option.isSome_iff_exists.mp on.1
  obtain ⟨b, atB⟩ := Option.isSome_iff_exists.mp on.2
  rw [normal_contains integers policy on (Number.integers_holds read), Number.integers_rank read,
    Number.integers_rank atA, Number.integers_rank atB]
  simp [Spans, atA, atB]

/-- What intervals hold under a policy, told by the intervals as they are given. -/
theorem holds_in_normal {policy : MergePolicy} {intervals : List Interval} {n : Number}
    (inside : Window → Prop) {spanned : Interval → Prop}
    (holds : ∀ i ∈ intervals, (i.normal policy).contains n = true ↔ spanned i) :
    HoldsIn inside (intervals.map (normal policy)) n ↔
      ∃ i ∈ intervals, spanned i ∧
        inside (if policy.versioned then i.window else Window.always) := by
  constructor
  · rintro ⟨_, member, held, active⟩
    obtain ⟨i, given, rfl⟩ := List.mem_map.mp member
    rw [normal_window] at active
    exact ⟨i, given, (holds i given).mp held, active⟩
  · rintro ⟨i, given, spans, active⟩
    refine ⟨i.normal policy, List.mem_map_of_mem given, (holds i given).mpr spans, ?_⟩
    rw [normal_window]
    exact active

theorem covers_normal_iff (policy : MergePolicy) (intervals : List Interval) {n : Number} {k : Int}
    (version : Option Nat) (on : ∀ i ∈ intervals, i.On integers) (read : n.toInt? = some k) :
    Covers (intervals.map (normal policy)) n version ↔
      ∃ i ∈ intervals, i.Spans k ∧
        version.all (if policy.versioned then i.window else Window.always).activeAt = true :=
  holds_in_normal (fun window => version.all window.activeAt = true) fun i given =>
    normal_contains_iff policy (on i given) read

/-- Merged intervals of integers hold exactly the integers between the bounds of some given
interval: at the versions of its window if windows count, and else at every version. -/
theorem merge_exact_on_integers (intervals : List Interval)
    (integral : ∀ i ∈ intervals, i.min.toInt?.isSome = true ∧ i.max.toInt?.isSome = true)
    (n : Number) (k : Int) (read : n.toInt? = some k) :
    (∀ version, lookup (merge ⟨.integral, true⟩ intervals) n (some version) = true ↔
      ∃ i ∈ intervals, i.Spans k ∧ i.window.since ≤ version ∧ version < i.window.deprecated) ∧
    (lookup (merge ⟨.integral, true⟩ intervals) n none = true ↔ ∃ i ∈ intervals, i.Spans k) ∧
    (lookup (merge ⟨.integral, false⟩ intervals) n none = true ↔ ∃ i ∈ intervals, i.Spans k) ∧
    (∀ version < never, lookup (merge ⟨.integral, false⟩ intervals) n (some version) = true ↔
      ∃ i ∈ intervals, i.Spans k) := by
  have exact := fun versioned version =>
    (merge_covers versioned intervals n version integral (Number.integers_holds read)).trans
      (covers_normal_iff ⟨.integral, versioned⟩ intervals version integral read)
  refine ⟨fun version => ?_, ?_, ?_, fun version early => ?_⟩
  · rw [exact true (some version)]
    simp [Window.activeAt]
  · rw [exact true none]
    simp
  · rw [exact false none]
    simp
  · rw [exact false (some version)]
    simp [Window.activeAt, Window.always, early]

def wordBounds : List Interval :=
  [⟨.signed (-0x8000000000000000), .signed 0x7fffffffffffffff, ⟨0, 3⟩⟩,
    ⟨.unsigned 0xffffffffffffffff, .unsigned 0x8000000000000000, {}⟩,
    ⟨.signed 5, .signed 2, ⟨4, 6⟩⟩]

theorem merge_exact_on_word_bounds :
    lookup (merge ⟨.integral, true⟩ wordBounds) (.unsigned 0x8000000000000000) (some 7) = true ∧
    lookup (merge ⟨.integral, true⟩ wordBounds) (.signed (-0x8000000000000000)) (some 3) = false ∧
    lookup (merge ⟨.integral, false⟩ wordBounds) (.signed (-0x8000000000000000)) (some 3) =
      true := by
  have integral : ∀ i ∈ wordBounds, i.min.toInt?.isSome = true ∧ i.max.toInt?.isSome = true := by
    decide
  have high := merge_exact_on_integers wordBounds integral (.unsigned 0x8000000000000000)
    0x8000000000000000 rfl
  have low := merge_exact_on_integers wordBounds integral (.signed (-0x8000000000000000))
    (-0x8000000000000000) rfl
  refine ⟨?_, ?_, ?_⟩
  · rw [high.1 7]
    exact ⟨⟨.unsigned 0xffffffffffffffff, .unsigned 0x8000000000000000, {}⟩, by simp [wordBounds],
      ⟨0xffffffffffffffff, 0x8000000000000000, rfl, rfl, by decide, by decide⟩, by decide,
      by decide⟩
  · rw [Bool.eq_false_iff, Ne, low.1 3]
    rintro ⟨i, member, ⟨a, b, atA, atB, above, -⟩, -, ends⟩
    simp only [wordBounds, List.mem_cons, List.not_mem_nil, or_false] at member
    rcases member with rfl | rfl | rfl
    · exact absurd ends (by decide)
    · cases atA
      cases atB
      omega
    · cases atA
      cases atB
      omega
  · rw [low.2.2.2 3 (by decide)]
    exact ⟨⟨.signed (-0x8000000000000000), .signed 0x7fffffffffffffff, ⟨0, 3⟩⟩,
      by simp [wordBounds],
      ⟨-0x8000000000000000, 0x7fffffffffffffff, rfl, rfl, by decide, by decide⟩⟩

end WireSchema.Interval
