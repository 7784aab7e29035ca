import WireSchema.Proofs.Coverage

/-!
The runs that merging makes of intervals. A run starts where one of the given intervals starts, in
the same window, and ends no earlier. Runs are sorted by window as the intervals were, and no run is
continued by the next one, so merging what was merged changes nothing.
-/

namespace WireSchema.Interval

open Number (Scale)

theorem joins_of_start (joining : Joining) {i next run : Interval} (start : run.min = next.min) :
    i.joins joining run = i.joins joining next := by
  cases joining <;> simp only [joins, start]

/-- The first run starts as the first interval does, and joining runs leaves them as they are. -/
theorem coalesce_fixed (joining : Joining) (i : Interval) (rest : List Interval) :
    ∃ run others, coalesce joining i rest = run :: others ∧ run.min = i.min ∧
      run.window = i.window ∧ coalesce joining run others = run :: others := by
  induction rest generalizing i with
  | nil => exact ⟨i, [], rfl, rfl, rfl, rfl⟩
  | cons next rest ih =>
      rw [coalesce_cons]
      split
      · obtain ⟨run, others, made, start, window, fixed⟩ := ih (i.extendTo next)
        rw [extend_to_min] at start
        rw [extend_to_window] at window
        exact ⟨run, others, made, start, window, fixed⟩
      · rename_i apart
        obtain ⟨run, others, made, start, window, fixed⟩ := ih next
        refine ⟨i, run :: others, by rw [made], rfl, rfl, ?_⟩
        -- Whether `i` is continued is asked of the start and the window of what comes next.
        rw [coalesce_cons, joins_of_start joining start, window, if_neg apart, fixed]

theorem coalesce_all_fixed (joining : Joining) (intervals : List Interval) :
    coalesceAll joining (coalesceAll joining intervals) = coalesceAll joining intervals := by
  cases intervals with
  | nil => rfl
  | cons i rest =>
      obtain ⟨run, others, made, -, -, fixed⟩ := coalesce_fixed joining i rest
      rw [coalesceAll, made]
      exact fixed

structure Prolongs (scale : Scale) (run source : Interval) : Prop where
  start : run.min = source.min
  window : run.window = source.window
  ends : scale.rank source.max ≤ scale.rank run.max

def SortedByWindow (intervals : List Interval) : Prop :=
  intervals.Pairwise fun a b => byWindow b a = false

section Coalesced

variable {scale : Scale} (joining : Joining)

theorem extend_to_prolongs {i next : Interval} (on : i.On scale) (nextOn : next.On scale) :
    (i.extendTo next).Prolongs scale i := by
  refine ⟨extend_to_min i next, extend_to_window i next, ?_⟩
  rw [extend_to_max on nextOn]
  omega

theorem prolongs_trans {run middle source : Interval} (later : run.Prolongs scale middle)
    (sooner : middle.Prolongs scale source) : run.Prolongs scale source :=
  ⟨later.start.trans sooner.start, later.window.trans sooner.window,
    Int.le_trans sooner.ends later.ends⟩

theorem extend_to_all_on {i next : Interval} {rest : List Interval}
    (on : ∀ j ∈ i :: next :: rest, j.On scale) : ∀ j ∈ i.extendTo next :: rest, j.On scale := by
  obtain ⟨onI, onNext, onRest⟩ := by simpa only [List.forall_mem_cons] using on
  exact List.forall_mem_cons.mpr ⟨extend_to_on onI onNext, onRest⟩

theorem coalesce_prolongs (i : Interval) (rest : List Interval)
    (on : ∀ j ∈ i :: rest, j.On scale) :
    ∀ run ∈ coalesce joining i rest, ∃ source ∈ i :: rest, run.Prolongs scale source := by
  induction rest generalizing i with
  | nil =>
      intro run member
      exact ⟨run, member, rfl, rfl, Int.le_refl _⟩
  | cons next rest ih =>
      intro run member
      rw [coalesce_cons] at member
      split at member
      · obtain ⟨source, among, prolongs⟩ := ih (i.extendTo next) (extend_to_all_on on) run member
        rcases List.mem_cons.mp among with rfl | later
        · have grown := extend_to_prolongs (on i List.mem_cons_self) (on next (by simp))
          exact ⟨i, List.mem_cons_self, prolongs_trans prolongs grown⟩
        · exact ⟨source, by simp [later], prolongs⟩
      · rcases List.mem_cons.mp member with rfl | later
        · exact ⟨run, List.mem_cons_self, rfl, rfl, Int.le_refl _⟩
        · obtain ⟨source, among, prolongs⟩ := ih next (List.forall_mem_cons.mp on).2 run later
          exact ⟨source, List.mem_cons_of_mem i among, prolongs⟩

/-- What follows an interval in order still does so after it is prolonged. -/
theorem not_below_of_prolongs {run source i : Interval} (onRun : run.On scale)
    (onSource : source.On scale) (onI : i.On scale) (prolongs : run.Prolongs scale source)
    (after : byWindow source i = false) : byWindow run i = false := by
  rw [Bool.eq_false_iff, Ne, by_window_iff scale onSource onI] at after
  rw [Bool.eq_false_iff, Ne, by_window_iff scale onRun onI, prolongs.start, prolongs.window]
  have ends := prolongs.ends
  omega

/-- An interval that takes in the next one still stands before the rest: one that starts where it
starts comes after the next one, so it ends no earlier than both. -/
theorem extend_to_sorted {i next : Interval} {rest : List Interval}
    (on : ∀ j ∈ i :: next :: rest, j.On scale) (window : i.window = next.window)
    (sorted : SortedByWindow (i :: next :: rest)) : SortedByWindow (i.extendTo next :: rest) := by
  obtain ⟨onI, onNext, onRest⟩ := by simpa only [List.forall_mem_cons] using on
  obtain ⟨afterI, sortedNext⟩ := List.pairwise_cons.mp sorted
  obtain ⟨afterNext, sortedRest⟩ := List.pairwise_cons.mp sortedNext
  refine List.pairwise_cons.mpr ⟨?_, sortedRest⟩
  intro j member
  have first := afterI j (List.mem_cons_of_mem next member)
  have second := afterNext j member
  have third := afterI next List.mem_cons_self
  have onJ := onRest j member
  rw [Bool.eq_false_iff, Ne, by_window_iff scale onJ onI] at first
  rw [Bool.eq_false_iff, Ne, by_window_iff scale onJ onNext, ← window] at second
  rw [Bool.eq_false_iff, Ne, by_window_iff scale onNext onI, ← window] at third
  rw [Bool.eq_false_iff, Ne, by_window_iff scale onJ (extend_to_on onI onNext), extend_to_window,
    extend_to_min, extend_to_max onI onNext]
  omega

theorem coalesce_sorted (i : Interval) (rest : List Interval) (on : ∀ j ∈ i :: rest, j.On scale)
    (sorted : SortedByWindow (i :: rest)) : SortedByWindow (coalesce joining i rest) := by
  induction rest generalizing i with
  | nil => exact sorted
  | cons next rest ih =>
      have onRest : ∀ j ∈ next :: rest, j.On scale := (List.forall_mem_cons.mp on).2
      obtain ⟨after, sortedRest⟩ := List.pairwise_cons.mp sorted
      rw [coalesce_cons]
      split
      · rename_i joined
        have window : i.window = next.window := by
          rw [Bool.and_eq_true, beq_iff_eq] at joined
          exact joined.1
        exact ih _ (extend_to_all_on on) (extend_to_sorted on window sorted)
      · refine List.pairwise_cons.mpr ⟨?_, ih next onRest sortedRest⟩
        intro run member
        obtain ⟨source, among, prolongs⟩ := coalesce_prolongs joining next rest onRest run member
        exact not_below_of_prolongs (coalesce_on scale joining next rest onRest run member)
          (onRest source among) (on i List.mem_cons_self) prolongs (after source among)

end Coalesced

section Merged

variable {scale : Scale} (policy : MergePolicy) {intervals : List Interval}

theorem map_normal_sorted (on : ∀ i ∈ intervals, i.On scale) :
    SortedByWindow (Sorting.stable byWindow (intervals.map (normal policy))) :=
  Sorting.stable_sorted (by_window_ordered scale) _ (map_normal_on policy on)

theorem runs_sorted (on : ∀ i ∈ intervals, i.On scale) :
    SortedByWindow (runs policy intervals) := by
  have onSorted : ∀ i ∈ Sorting.stable byWindow (intervals.map (normal policy)), i.On scale :=
    fun i member => map_normal_on policy on i ((Sorting.mem_stable byWindow _ i).mp member)
  have sorted := map_normal_sorted policy on
  unfold runs coalesceAll
  split
  · exact List.Pairwise.nil
  · rename_i i rest split
    rw [split] at onSorted sorted
    exact coalesce_sorted policy.joining i rest onSorted sorted

theorem runs_prolong (on : ∀ i ∈ intervals, i.On scale) :
    ∀ run ∈ runs policy intervals, ∃ i ∈ intervals, run.Prolongs scale (i.normal policy) := by
  have among : ∀ i ∈ Sorting.stable byWindow (intervals.map (normal policy)),
      ∃ given ∈ intervals, given.normal policy = i :=
    fun i member => List.mem_map.mp ((Sorting.mem_stable byWindow _ i).mp member)
  unfold runs coalesceAll
  split
  · exact fun run member => absurd member List.not_mem_nil
  · rename_i i rest split
    rw [split] at among
    intro run member
    have onSorted : ∀ j ∈ i :: rest, j.On scale := by
      intro j inside
      obtain ⟨given, isGiven, rfl⟩ := among j inside
      exact normal_on scale policy (on given isGiven)
    obtain ⟨source, inside, prolongs⟩ := coalesce_prolongs policy.joining i rest onSorted run member
    obtain ⟨given, isGiven, rfl⟩ := among source inside
    exact ⟨given, isGiven, prolongs⟩

theorem normal_ordered {i : Interval} (on : i.On scale) :
    scale.rank (i.normal policy).min ≤ scale.rank (i.normal policy).max := by
  obtain ⟨least, greatest⟩ := normal_bounds scale policy on
  omega

/-- A run has its bounds in order, and no window of its own if windows do not count. -/
theorem run_normal (on : ∀ i ∈ intervals, i.On scale) {run : Interval}
    (member : run ∈ runs policy intervals) :
    scale.rank run.min ≤ scale.rank run.max ∧ run.normal policy = run := by
  obtain ⟨i, given, start, window, ends⟩ := runs_prolong policy on run member
  have onRun := runs_on policy on run member
  have inOrder : scale.rank run.min ≤ scale.rank run.max := by
    rw [start]
    exact Int.le_trans (normal_ordered policy (on i given)) ends
  have kept : run.ordered = run := by
    rw [ordered, if_neg]
    rw [scale.lt_iff onRun.2 onRun.1]
    omega
  refine ⟨inOrder, ?_⟩
  rw [normal]
  split
  · exact kept
  · rename_i unversioned
    rw [normal_window, if_neg unversioned] at window
    rw [← window]
    exact kept

theorem merge_ordered (on : ∀ i ∈ intervals, i.On scale) :
    ∀ i ∈ merge policy intervals, scale.rank i.min ≤ scale.rank i.max := by
  intro i member
  rw [merge_eq, Sorting.mem_stable] at member
  exact (run_normal policy on member).1

theorem merge_normal (on : ∀ i ∈ intervals, i.On scale) :
    (merge policy intervals).map (normal policy) = merge policy intervals := by
  have kept : ∀ i ∈ merge policy intervals, i.normal policy = id i := by
    intro i member
    rw [merge_eq, Sorting.mem_stable] at member
    exact (run_normal policy on member).2
  rw [List.map_congr_left kept, List.map_id]

theorem merge_sorted (on : ∀ i ∈ intervals, i.On scale) :
    (merge policy intervals).Pairwise fun a b => byBounds b a = false :=
  Sorting.stable_sorted (by_bounds_ordered scale) _ (runs_on policy on)

/-- The two orders of intervals tell the same ones apart. -/
theorem tied_by_bounds {a b : Interval} (left : a.On scale) (right : b.On scale)
    (tied : Sorting.tied byWindow a b = true) : byBounds a b = false := by
  rw [Sorting.tied_iff, Bool.eq_false_iff, Ne, by_window_iff scale left right, Bool.eq_false_iff,
    Ne, by_window_iff scale right left] at tied
  rw [Bool.eq_false_iff, Ne, by_bounds_iff scale left right]
  omega

/-- Sorting what was merged by window gives the runs back, and these are left as they are. -/
theorem merge_fixed (on : ∀ i ∈ intervals, i.On scale) :
    merge policy (merge policy intervals) = merge policy intervals := by
  have onRuns := runs_on policy on
  have back : Sorting.stable byWindow (merge policy intervals) = runs policy intervals := by
    apply Sorting.stable_back (by_window_ordered scale) byBounds onRuns (runs_sorted policy on)
    intro a first b second tied
    exact tied_by_bounds (onRuns a first) (onRuns b second) tied
  calc
    merge policy (merge policy intervals) =
        Sorting.stable byBounds (coalesceAll policy.joining (runs policy intervals)) := by
      rw [merge_eq policy (merge policy intervals), runs, merge_normal policy on, back]
    _ = Sorting.stable byBounds (runs policy intervals) := by
      rw [runs, coalesce_all_fixed]

end Merged

end WireSchema.Interval
