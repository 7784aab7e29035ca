import WireSchema.Proofs.Runs

/-!
Merged intervals of integers are a normal form. They stand in order, and between two of one window
lies an integer that neither holds, so they are the maximal runs of the integers that were given in
that window. Lists that cover the same integers in every window are merged into the same intervals,
and none of these lists is shorter than what it is merged into.
-/

namespace WireSchema

theorem Window.eq_of_ends {v w : Window} (since : v.since = w.since)
    (deprecated : v.deprecated = w.deprecated) : v = w := by
  cases v
  cases w
  cases since
  cases deprecated
  rfl

namespace Interval

open Number (Scale integers)

def alike : List Interval → List Interval → Bool
  | [], [] => true
  | a :: as, b :: bs => a.same b && alike as bs
  | _, _ => false

def key (scale : Scale) (i : Interval) : Int × Int × Window :=
  (scale.rank i.min, scale.rank i.max, i.window)

theorem same_iff (scale : Scale) {a b : Interval} (left : a.On scale) (right : b.On scale) :
    a.same b = true ↔ a.key scale = b.key scale := by
  simp only [same, Number.same, Bool.and_eq_true, beq_iff_eq,
    scale.compare_same_iff left.1 right.1, scale.compare_same_iff left.2 right.2, key,
    Prod.mk.injEq, and_assoc]

theorem alike_of_keys (scale : Scale) {as bs : List Interval} (left : ∀ a ∈ as, a.On scale)
    (right : ∀ b ∈ bs, b.On scale) (keys : as.map (key scale) = bs.map (key scale)) :
    alike as bs = true := by
  induction as generalizing bs with
  | nil =>
      cases bs with
      | nil => rfl
      | cons b bs => cases keys
  | cons a as ih =>
      cases bs with
      | nil => cases keys
      | cons b bs =>
          obtain ⟨onA, onAs⟩ := List.forall_mem_cons.mp left
          obtain ⟨onB, onBs⟩ := List.forall_mem_cons.mp right
          obtain ⟨first, others⟩ := List.cons.inj keys
          rw [alike, Bool.and_eq_true]
          exact ⟨(same_iff scale onA onB).mpr first, ih onAs onBs others⟩

def Precedes (a b : Int × Int × Window) : Prop :=
  a.1 < b.1 ∨ a.1 = b.1 ∧ (a.2.1 < b.2.1 ∨ a.2.1 = b.2.1 ∧
    (a.2.2.since < b.2.2.since ∨ a.2.2.since = b.2.2.since ∧ a.2.2.deprecated < b.2.2.deprecated))

theorem precedes_asymm {a b : Int × Int × Window} (before : Precedes a b) : ¬ Precedes b a := by
  unfold Precedes at before ⊢
  omega

/-- At least one integer lies between the two, if they have one window. -/
def Apart (a b : Interval) : Prop :=
  a.window = b.window →
    integers.rank a.max + 2 ≤ integers.rank b.min ∨ integers.rank b.max + 2 ≤ integers.rank a.min

theorem apart_symm {a b : Interval} (apart : a.Apart b) : b.Apart a :=
  fun window => (apart window.symm).symm

structure Canonical (intervals : List Interval) : Prop where
  integral : ∀ i ∈ intervals, i.On integers
  ordered : ∀ i ∈ intervals, integers.rank i.min ≤ integers.rank i.max
  sorted : (intervals.map (key integers)).Pairwise Precedes
  apart : intervals.Pairwise Apart

def CoversIn (intervals : List Interval) (window : Window) (k : Int) : Prop :=
  ∃ i ∈ intervals, i.Spans k ∧ i.window = window

section Merged

/-- Runs of one window lie apart: what comes after a run starts no earlier than the interval that
did not continue it. -/
theorem coalesce_apart (i : Interval) (rest : List Interval) (on : ∀ j ∈ i :: rest, j.On integers)
    (sorted : SortedByWindow (i :: rest)) : (coalesce .integral i rest).Pairwise Apart := by
  induction rest generalizing i with
  | nil => exact List.pairwise_singleton _ _
  | cons next rest ih =>
      have onI : i.On integers := on i List.mem_cons_self
      have onRest : ∀ j ∈ next :: rest, j.On integers := (List.forall_mem_cons.mp on).2
      have onNext : next.On integers := onRest next List.mem_cons_self
      obtain ⟨after, sortedRest⟩ := List.pairwise_cons.mp sorted
      rw [coalesce_cons]
      split
      · rename_i joined
        rw [Bool.and_eq_true, beq_iff_eq] at joined
        exact ih _ (extend_to_all_on on) (extend_to_sorted on joined.1 sorted)
      · rename_i stopped
        refine List.pairwise_cons.mpr ⟨?_, ih next onRest sortedRest⟩
        intro run member window
        obtain ⟨source, among, prolongs⟩ := coalesce_prolongs .integral next rest onRest run member
        have afterNext : source = next ∨ byWindow source next = false := by
          rcases List.mem_cons.mp among with same | later
          · exact Or.inl same
          · exact Or.inr ((List.pairwise_cons.mp sortedRest).1 source later)
        have between := after next List.mem_cons_self
        rw [Bool.eq_false_iff, Ne, by_window_iff integers onNext onI, window, prolongs.window]
          at between
        have facts : integers.rank next.min ≤ integers.rank source.min ∧
            next.window = source.window := by
          rcases afterNext with rfl | later
          · exact ⟨Int.le_refl _, rfl⟩
          · rw [Bool.eq_false_iff, Ne, by_window_iff integers (onRest source among) onNext] at later
            exact ⟨by omega, Window.eq_of_ends (by omega) (by omega)⟩
        have gap : ¬ i.joins .integral next = true := by
          intro joins
          apply stopped
          rw [Bool.and_eq_true, beq_iff_eq]
          exact ⟨(window.trans prolongs.window).trans facts.2.symm, joins⟩
        rw [joins_integral_iff onI onNext] at gap
        rw [prolongs.start]
        omega

variable {intervals : List Interval}

theorem runs_apart (versioned : Bool) (on : ∀ i ∈ intervals, i.On integers) :
    (runs ⟨.integral, versioned⟩ intervals).Pairwise Apart := by
  have onSorted := fun i member => map_normal_on ⟨.integral, versioned⟩ on i
    ((Sorting.mem_stable byWindow _ i).mp member)
  have sorted := map_normal_sorted ⟨.integral, versioned⟩ on
  unfold runs coalesceAll
  split
  · exact List.Pairwise.nil
  · rename_i i rest split
    rw [split] at onSorted sorted
    exact coalesce_apart i rest onSorted sorted

theorem merge_canonical (versioned : Bool) (on : ∀ i ∈ intervals, i.On integers) :
    Canonical (merge ⟨.integral, versioned⟩ intervals) := by
  have onMerged := merge_on ⟨.integral, versioned⟩ on
  have ordered := merge_ordered ⟨.integral, versioned⟩ on
  have apart : (merge ⟨.integral, versioned⟩ intervals).Pairwise Apart :=
    ((Sorting.stable_perm byBounds _).pairwise_iff apart_symm).mpr (runs_apart versioned on)
  refine ⟨onMerged, ordered, ?_, apart⟩
  rw [List.pairwise_map]
  refine ((merge_sorted ⟨.integral, versioned⟩ on).and apart).imp_of_mem ?_
  rintro a b first second ⟨notAfter, gap⟩
  rw [Bool.eq_false_iff, Ne, by_bounds_iff integers (onMerged b second) (onMerged a first)]
    at notAfter
  unfold Precedes key
  simp only
  by_cases window : a.window = b.window
  · -- They lie apart, so they do not start in one place.
    have inA := ordered a first
    have inB := ordered b second
    have gap := gap window
    omega
  · have ends : ¬ (a.window.since = b.window.since ∧ a.window.deprecated = b.window.deprecated) :=
      fun both => window (Window.eq_of_ends both.1 both.2)
    omega

theorem covers_in_normal (window : Window) (k : Int) (on : ∀ i ∈ intervals, i.On integers) :
    CoversIn intervals window k ↔
      HoldsIn (· = window) (intervals.map (normal ⟨.integral, true⟩)) (.signed k) := by
  have spans : ∀ i ∈ intervals,
      (i.normal ⟨.integral, true⟩).contains (.signed k) = true ↔ i.Spans k :=
    fun i given => normal_contains_iff _ (on i given) rfl
  exact (holds_in_normal (· = window) spans).symm

theorem merge_covers_in (window : Window) (k : Int) (on : ∀ i ∈ intervals, i.On integers) :
    CoversIn (merge ⟨.integral, true⟩ intervals) window k ↔ CoversIn intervals window k := by
  have value : integers.holds (.signed k) := Number.integers_holds rfl
  rw [covers_in_normal window k (merge_on _ on), merge_normal _ on,
    merge_holds integralRule (· = window) true on value, covers_in_normal window k on]

end Merged

namespace Canonical

variable {xs ys : List Interval}

theorem apart_of_mem (canonical : Canonical xs) {a b : Interval} (first : a ∈ xs) (second : b ∈ xs) :
    a = b ∨ a.Apart b := by
  obtain ⟨m, inM, rfl⟩ := List.getElem_of_mem first
  obtain ⟨n, inN, rfl⟩ := List.getElem_of_mem second
  have pairs := List.pairwise_iff_getElem.mp canonical.apart
  rcases Nat.lt_trichotomy m n with before | same | after
  · exact Or.inr (pairs m n inM inN before)
  · subst same
    exact Or.inl rfl
  · exact Or.inr (apart_symm (pairs n m inN inM after))

theorem spans_iff (canonical : Canonical xs) {a : Interval} (member : a ∈ xs) (k : Int) :
    a.Spans k ↔ integers.rank a.min ≤ k ∧ k ≤ integers.rank a.max := by
  obtain ⟨low, atLow⟩ := Option.isSome_iff_exists.mp (canonical.integral a member).1
  obtain ⟨high, atHigh⟩ := Option.isSome_iff_exists.mp (canonical.integral a member).2
  have inOrder := canonical.ordered a member
  rw [Number.integers_rank atLow, Number.integers_rank atHigh] at inOrder ⊢
  simp only [Spans, atLow, atHigh, Option.some.injEq, exists_and_left, exists_eq_left']
  omega

/-- The integers next to an interval are not covered in its window. -/
theorem gap (canonical : Canonical xs) {a : Interval} (member : a ∈ xs) {k : Int}
    (next : k = integers.rank a.min - 1 ∨ k = integers.rank a.max + 1) :
    ¬ CoversIn xs a.window k := by
  rintro ⟨b, inside, spans, window⟩
  rw [canonical.spans_iff inside] at spans
  have inOrder := canonical.ordered a member
  rcases canonical.apart_of_mem member inside with rfl | apart
  · omega
  · have := apart window.symm
    omega

/-- The intervals of a normal form can be told from the integers that it covers. -/
theorem key_mem (canonicalX : Canonical xs) (canonicalY : Canonical ys)
    (covers : ∀ window k, CoversIn xs window k ↔ CoversIn ys window k) {a : Interval}
    (member : a ∈ xs) : a.key integers ∈ ys.map (key integers) := by
  have inOrder := canonicalX.ordered a member
  have inA : ∀ k, integers.rank a.min ≤ k → k ≤ integers.rank a.max → CoversIn ys a.window k :=
    fun k above below => (covers a.window k).mp
      ⟨a, member, (canonicalX.spans_iff member k).mpr ⟨above, below⟩, rfl⟩
  -- `b` holds the start of `a`. Neither can go on where the other ends, because what is next to an
  -- interval is not covered.
  obtain ⟨b, inside, spans, window⟩ := inA (integers.rank a.min) (Int.le_refl _) inOrder
  have inB : ∀ k, integers.rank b.min ≤ k → k ≤ integers.rank b.max → CoversIn xs a.window k :=
    fun k above below => (covers a.window k).mpr
      ⟨b, inside, (canonicalY.spans_iff inside k).mpr ⟨above, below⟩, window⟩
  rw [canonicalY.spans_iff inside] at spans
  have start : integers.rank b.min = integers.rank a.min := by
    by_cases before : integers.rank b.min < integers.rank a.min
    · exact absurd (inB (integers.rank a.min - 1) (by omega) (by omega))
        (canonicalX.gap member (Or.inl rfl))
    · omega
  have notLonger : ¬ integers.rank a.max < integers.rank b.max := fun longer =>
    canonicalX.gap member (Or.inr rfl) (inB (integers.rank a.max + 1) (by omega) (by omega))
  have notShorter : ¬ integers.rank b.max < integers.rank a.max := fun shorter =>
    canonicalY.gap inside (Or.inr rfl)
      (window ▸ inA (integers.rank b.max + 1) (by omega) (by omega))
  refine List.mem_map.mpr ⟨b, inside, ?_⟩
  simp only [key, Prod.mk.injEq]
  exact ⟨start, by omega, window⟩

theorem alike_of_covers (canonicalX : Canonical xs) (canonicalY : Canonical ys)
    (covers : ∀ window k, CoversIn xs window k ↔ CoversIn ys window k) : alike xs ys = true := by
  apply alike_of_keys integers canonicalX.integral canonicalY.integral
  have members : ∀ place, place ∈ xs.map (key integers) ↔ place ∈ ys.map (key integers) := by
    intro place
    constructor
    · intro member
      obtain ⟨a, inside, rfl⟩ := List.mem_map.mp member
      exact key_mem canonicalX canonicalY covers inside
    · intro member
      obtain ⟨b, inside, rfl⟩ := List.mem_map.mp member
      exact key_mem canonicalY canonicalX (fun window k => (covers window k).symm) inside
  have distinct : ∀ {zs : List Interval}, Canonical zs → (zs.map (key integers)).Nodup := by
    intro zs canonical
    refine canonical.sorted.imp ?_
    rintro a _ before rfl
    exact precedes_asymm before before
  exact List.Perm.eq_of_pairwise
    (fun a b _ _ before after => absurd after (precedes_asymm before))
    canonicalX.sorted canonicalY.sorted
    ((List.perm_ext_iff_of_nodup (distinct canonicalX) (distinct canonicalY)).mpr members)

end Canonical

/-- If each of some elements has a partner, and no two of them have the same, there are as many
partners. -/
theorem length_le_of_partners {α β : Type} [BEq β] [LawfulBEq β] (partner : α → β → Prop)
    {xs : List α} {ys : List β} (each : ∀ x ∈ xs, ∃ y ∈ ys, partner x y)
    (single : xs.Pairwise fun a b => ∀ y ∈ ys, partner a y → ¬ partner b y) :
    xs.length ≤ ys.length := by
  induction xs generalizing ys with
  | nil => exact Nat.zero_le _
  | cons x rest ih =>
      obtain ⟨y, member, isPartner⟩ := each x List.mem_cons_self
      obtain ⟨notX, notRest⟩ := List.pairwise_cons.mp single
      have others : ∀ z ∈ rest, ∃ y' ∈ ys.erase y, partner z y' := by
        intro z inside
        obtain ⟨y', member', partner'⟩ := each z (List.mem_cons_of_mem x inside)
        refine ⟨y', ?_, partner'⟩
        apply (List.mem_erase_of_ne _).mpr member'
        rintro rfl
        exact notX z inside y' member' isPartner partner'
      have fewer := ih others (notRest.imp fun apart y' inside =>
        apart y' (List.mem_of_mem_erase inside))
      rw [List.length_erase_of_mem member] at fewer
      have some := List.length_pos_of_mem member
      rw [List.length_cons]
      omega

theorem spans_between {i : Interval} {j k l : Int} (low : i.Spans j) (high : i.Spans l)
    (above : j ≤ k) (below : k ≤ l) : i.Spans k := by
  obtain ⟨a, b, atA, atB, left, right⟩ := low
  obtain ⟨a', b', atA', atB', left', right'⟩ := high
  cases atA.symm.trans atA'
  cases atB.symm.trans atB'
  exact ⟨a, b, atA, atB, by omega, by omega⟩

/-- No list of intervals that covers the same integers is shorter than a normal form: an interval
that reached into two of its intervals would cover what lies between them. -/
theorem Canonical.length_le {xs ys : List Interval} (canonical : Canonical xs)
    (covers : ∀ window k, CoversIn ys window k ↔ CoversIn xs window k) :
    xs.length ≤ ys.length := by
  apply length_le_of_partners fun x y => y.window = x.window ∧ y.Spans (integers.rank x.min)
  · intro x member
    have inOrder := canonical.ordered x member
    have covered : CoversIn xs x.window (integers.rank x.min) :=
      ⟨x, member, (canonical.spans_iff member _).mpr ⟨Int.le_refl _, inOrder⟩, rfl⟩
    obtain ⟨y, inside, spans, window⟩ := (covers _ _).mpr covered
    exact ⟨y, inside, window, spans⟩
  · refine canonical.apart.imp_of_mem ?_
    rintro a b first second apart y inside ⟨windowA, spansA⟩ ⟨windowB, spansB⟩
    have orderA := canonical.ordered a first
    have orderB := canonical.ordered b second
    rcases apart (windowA.symm.trans windowB) with before | after
    · apply canonical.gap first (Or.inr rfl)
      rw [← covers]
      exact ⟨y, inside, spans_between spansA spansB (by omega) (by omega), windowA⟩
    · apply canonical.gap second (Or.inr rfl)
      rw [← covers]
      exact ⟨y, inside, spans_between spansB spansA (by omega) (by omega), windowB⟩

/-- Intervals of integers are merged into a normal form that covers the same integers in each
window. Merging it again changes nothing. Whatever covers the same integers is merged into the same
intervals, up to the spelling of their bounds, and is not shorter. -/
theorem integral_merge_normal_form (intervals : List Interval)
    (integral : ∀ i ∈ intervals, i.min.toInt?.isSome = true ∧ i.max.toInt?.isSome = true) :
    Canonical (merge ⟨.integral, true⟩ intervals) ∧
    (∀ window k, CoversIn (merge ⟨.integral, true⟩ intervals) window k ↔
      CoversIn intervals window k) ∧
    merge ⟨.integral, true⟩ (merge ⟨.integral, true⟩ intervals) =
      merge ⟨.integral, true⟩ intervals ∧
    (∀ others, (∀ window k, CoversIn others window k ↔ CoversIn intervals window k) →
      (merge ⟨.integral, true⟩ intervals).length ≤ others.length ∧
      ((∀ i ∈ others, i.min.toInt?.isSome = true ∧ i.max.toInt?.isSome = true) →
        alike (merge ⟨.integral, true⟩ others) (merge ⟨.integral, true⟩ intervals) = true)) := by
  have on : ∀ i ∈ intervals, i.On integers := integral
  have canonical := merge_canonical true on
  have covers := fun window k => merge_covers_in window k on
  refine ⟨canonical, covers, merge_fixed _ on, ?_⟩
  intro others same
  constructor
  · exact canonical.length_le fun window k => (same window k).trans (covers window k).symm
  · intro integralOthers
    apply (merge_canonical true integralOthers).alike_of_covers canonical
    intro window k
    rw [merge_covers_in window k integralOthers, same, covers]

def splitDigits : List Interval :=
  [⟨.signed 5, .signed 2, {}⟩, ⟨.unsigned 3, .unsigned 9, {}⟩, ⟨.signed 10, .signed 10, ⟨1, 4⟩⟩]

def shuffledDigits : List Interval :=
  [⟨.unsigned 10, .unsigned 10, ⟨1, 4⟩⟩, ⟨.signed 7, .signed 9, {}⟩, ⟨.unsigned 6, .signed 2, {}⟩,
    ⟨.unsigned 10, .signed 10, ⟨1, 4⟩⟩]

theorem shuffled_digits_merge_alike :
    alike (merge ⟨.integral, true⟩ shuffledDigits) (merge ⟨.integral, true⟩ splitDigits) = true ∧
    (merge ⟨.integral, true⟩ splitDigits).length ≤ shuffledDigits.length ∧
    CoversIn (merge ⟨.integral, true⟩ splitDigits) ⟨1, 4⟩ 10 := by
  have integral : ∀ i ∈ splitDigits, i.min.toInt?.isSome = true ∧ i.max.toInt?.isSome = true := by
    decide
  have integralOthers :
      ∀ i ∈ shuffledDigits, i.min.toInt?.isSome = true ∧ i.max.toInt?.isSome = true := by
    decide
  have covers : ∀ window k, CoversIn shuffledDigits window k ↔ CoversIn splitDigits window k := by
    intro window k
    simp only [CoversIn, shuffledDigits, splitDigits, List.mem_cons, List.not_mem_nil, or_false,
      exists_eq_or_imp, exists_eq_left, Spans, Number.toInt?, Option.some.injEq, exists_and_left,
      exists_eq_left']
    by_cases always : Window.mk 0 never = window
    · subst always
      simp only [Window.mk.injEq, Nat.succ_ne_self, false_and, and_false, Int.cast_ofNat_Int,
        and_true, or_false, false_or]
      omega
    · simp [always]
  obtain ⟨-, sameCover, -, others⟩ := integral_merge_normal_form splitDigits integral
  obtain ⟨shorter, merged⟩ := others shuffledDigits covers
  refine ⟨merged integralOthers, shorter, (sameCover _ _).mpr ?_⟩
  exact ⟨⟨.signed 10, .signed 10, ⟨1, 4⟩⟩, by simp [splitDigits],
    ⟨10, 10, rfl, rfl, by decide, by decide⟩, rfl⟩

end Interval

end WireSchema
