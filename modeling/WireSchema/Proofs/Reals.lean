import WireSchema.Proofs.Coverage
import WireSchema.Proofs.Growth
import WireSchema.Proofs.Values

/-!
Valid values of real numbers. Their intervals are sorted and joined as those of integers are, up to
the two zeros, which share a place. An interval of all finite numbers of a type may be declared any
number of times: it counts once.
-/

namespace WireSchema

namespace Number

def reals : Scale where
  holds n := ∃ x, n = .real x
  rank n := n.toDouble.position
  compare_eq a b left right := by
    obtain ⟨x, rfl⟩ := left
    obtain ⟨y, rfl⟩ := right
    rfl

/-- Only the two zeros share a place. -/
theorem reals_rank_injective {a b : Number} (left : reals.holds a) (right : reals.holds b)
    (place : reals.rank a = reals.rank b) (nonzero : reals.rank b ≠ 0) : a = b := by
  obtain ⟨x, rfl⟩ := left
  obtain ⟨y, rfl⟩ := right
  simp only [reals, toDouble] at place nonzero
  cases x with
  | nan =>
      cases y with
      | nan => rfl
      | signed negative rank =>
          cases negative <;> simp only [Double.position] at place <;> omega
  | signed negative rank =>
      cases y with
      | nan => cases negative <;> simp only [Double.position] at place <;> omega
      | signed negative' rank' =>
          have same : negative = negative' ∧ rank.val = rank'.val := by
            cases negative <;> cases negative' <;> simp only [Double.position] at place nonzero <;>
              simp <;> omega
          obtain ⟨rfl, value⟩ := same
          rw [Fin.ext value]

end Number

namespace Interval

open Number (Scale reals)

/-- A run that holds the finite interval `x` takes it in once more without a change. -/
theorem coalesce_again {i x : Interval} {rest : List Interval} (on : i.On reals) (onX : x.On reals)
    (window : i.window = x.window) (finite : i.max.isSpecial = false ∧ x.min.isSpecial = false)
    (starts : reals.rank x.min ≤ reals.rank i.max) (ends : reals.rank x.max ≤ reals.rank i.max) :
    coalesce .real i (x :: rest) = coalesce .real i rest := by
  have joined : (i.window == x.window && i.joins .real x) = true := by
    rw [window, beq_self_eq_true, joins, finite.1, finite.2, (reals.le_iff onX.1 on.2).mpr starts]
    rfl
  have same : i.extendTo x = i := by
    rw [extendTo, if_neg]
    rw [reals.lt_iff on.2 onX.2]
    omega
  rw [coalesce_cons, if_pos joined, same]

/-- A finite interval that comes twice in a row counts once: the run that reaches it either takes
it in and ends no earlier, or gives way to it. -/
theorem coalesce_repeated {x : Interval} (onX : x.On reals) (finite : x.isFinite = true)
    (ordered : reals.rank x.min ≤ reals.rank x.max) (below above : List Interval) (i : Interval)
    (on : ∀ j ∈ i :: below, j.On reals) :
    coalesce .real i (below ++ x :: x :: above) = coalesce .real i (below ++ x :: above) := by
  induction below generalizing i with
  | nil =>
      have onI : i.On reals := on i List.mem_cons_self
      simp only [isFinite, Bool.and_eq_true, Bool.not_eq_true'] at finite
      rw [List.nil_append, List.nil_append, coalesce_cons, coalesce_cons .real i x above]
      split
      · rename_i joined
        simp only [Bool.and_eq_true, beq_iff_eq, joins, Bool.not_eq_true'] at joined
        have special : (i.extendTo x).max.isSpecial = false := by
          unfold extendTo
          split
          · exact finite.2
          · exact joined.2.1.1
        have ends := extend_to_max onI onX
        exact coalesce_again (extend_to_on onI onX) onX (by rw [extend_to_window]; exact joined.1)
          ⟨special, finite.1⟩ (by omega) (by omega)
      · rw [coalesce_again onX onX rfl ⟨finite.2, finite.1⟩ ordered (Int.le_refl _)]
  | cons next rest ih =>
      rw [List.forall_mem_cons, List.forall_mem_cons] at on
      obtain ⟨onI, onNext, onRest⟩ := on
      rw [List.cons_append, List.cons_append, coalesce_cons, coalesce_cons,
        ih _ (List.forall_mem_cons.mpr ⟨extend_to_on onI onNext, onRest⟩),
        ih _ (List.forall_mem_cons.mpr ⟨onNext, onRest⟩)]

theorem coalesce_all_repeated {x : Interval} (onX : x.On reals) (finite : x.isFinite = true)
    (ordered : reals.rank x.min ≤ reals.rank x.max) (below above : List Interval)
    (on : ∀ i ∈ below, i.On reals) :
    coalesceAll .real (below ++ x :: x :: above) = coalesceAll .real (below ++ x :: above) := by
  cases below with
  | nil =>
      simp only [isFinite, Bool.and_eq_true, Bool.not_eq_true'] at finite
      exact coalesce_again onX onX rfl ⟨finite.2, finite.1⟩ ordered (Int.le_refl _)
  | cons first rest => exact coalesce_repeated onX finite ordered rest above first on

def full (type : FloatType) : Interval :=
  ⟨.real type.greatest.negate, .real type.greatest, Window.always⟩

theorem full_on (type : FloatType) : (full type).On reals := ⟨⟨_, rfl⟩, ⟨_, rfl⟩⟩

theorem full_finite (type : FloatType) : (full type).isFinite = true := by
  cases type <;> decide +kernel

theorem full_signs (type : FloatType) :
    reals.rank (full type).min < 0 ∧ 0 < reals.rank (full type).max := by
  cases type <;> decide +kernel

theorem normal_full (policy : MergePolicy) (type : FloatType) :
    (full type).normal policy = full type := by
  have signs := full_signs type
  have inOrder : (full type).ordered = full type := by
    rw [ordered, if_neg]
    rw [reals.lt_iff (full_on type).2 (full_on type).1]
    omega
  rw [normal]
  split <;> exact inOrder

/-- No other interval of real numbers is in its place. -/
theorem full_alone {type : FloatType} {i : Interval} (on : i.On reals)
    (notBelow : byWindow (full type) i = false) (notAbove : byWindow i (full type) = false) :
    i = full type := by
  have signs := full_signs type
  rw [Bool.eq_false_iff, Ne, by_window_iff reals (full_on type) on] at notBelow
  rw [Bool.eq_false_iff, Ne, by_window_iff reals on (full_on type)] at notAbove
  -- The windows are compared first, so the bounds have the same places; neither place is that of
  -- the zeros.
  have sameMin := Number.reals_rank_injective on.1 (full_on type).1 (by omega) (by omega)
  have sameMax := Number.reals_rank_injective on.2 (full_on type).2 (by omega) (by omega)
  have since : i.window.since = (full type).window.since := by omega
  have deprecated : i.window.deprecated = (full type).window.deprecated := by omega
  have sameWindow : i.window = (full type).window := by
    obtain ⟨_, _, ⟨_, _⟩⟩ := i
    cases since
    cases deprecated
    rfl
  cases i
  cases sameMin
  cases sameMax
  cases sameWindow
  rfl

theorem merge_full_again (versioned : Bool) {type : FloatType} {intervals : List Interval}
    (on : ∀ i ∈ intervals, i.On reals) (member : full type ∈ intervals) :
    merge ⟨.real, versioned⟩ (intervals ++ [full type]) = merge ⟨.real, versioned⟩ intervals := by
  have normalOn := map_normal_on ⟨.real, versioned⟩ on
  have normalMember : full type ∈ intervals.map (normal ⟨.real, versioned⟩) :=
    List.mem_map.mpr ⟨full type, member, normal_full _ type⟩
  -- One is in the list already and nothing else is in its place: sorting puts the second one next
  -- to it.
  obtain ⟨below, above, once, twice⟩ := Sorting.stable_again (by_window_ordered reals) normalOn
    normalMember (fun i inside => full_alone (normalOn i inside))
  have onBelow : ∀ i ∈ below, i.On reals := by
    intro i inside
    apply normalOn
    rw [← Sorting.mem_stable byWindow, once]
    exact List.mem_append_left _ inside
  have signs := full_signs type
  rw [merge, merge, List.map_append, List.map_singleton, normal_full, once, twice,
    coalesce_all_repeated (full_on type) (full_finite type) (by omega) below above onBelow]

end Interval

theorem Declaration.warn_if_outcome {α : Type} (d : Declaration) (w : Warning) (condition : Bool)
    (a : α) : (if condition = true then do
        d.warn w
        pure a
      else pure a : Build α).outcome = .ok a := by
  cases condition <;> rfl

namespace FloatSpec

/-- The valid values are merged from their declarations, and all finite numbers of the type are
among these if they are said to be valid. -/
structure Settled (type : FloatType) (spec : FloatSpec) : Prop where
  typed : spec.type = some type
  covered : spec.validFullRange = true → Interval.full type ∈ spec.declaredRanges
  merged : spec.validRanges = Interval.merge ⟨.real, spec.validCheckVersion⟩ spec.declaredRanges

theorem read_specials_keeps {d : Declaration} {profile : Profile} {spec later : FloatSpec}
    (done : readSpecials d profile spec = .ok later) :
    later.type = spec.type ∧ later.declaredRanges = spec.declaredRanges := by
  simp only [readSpecials, except_bind_ok, Except.ok.injEq] at done
  obtain ⟨_, -, rfl⟩ := done
  exact ⟨rfl, rfl⟩

theorem read_interval_on {d : Declaration} {spec : FloatSpec} {type : FloatType}
    {property raw : String} {i : Interval} (done : spec.readInterval d type property raw = .ok i) :
    i.On Number.reals := by
  simp only [readInterval, except_bind_ok, Except.ok.injEq] at done
  obtain ⟨bounds, -, rfl⟩ := done
  exact ⟨⟨_, rfl⟩, ⟨_, rfl⟩⟩

theorem read_valid_ranges_ok {d : Declaration} {profile : Profile} {spec later : FloatSpec}
    {type : FloatType} (done : (readValidRanges d profile spec type).outcome = .ok later)
    (typed : spec.type = some type) :
    later.Settled type ∧ ∃ own, later.declaredRanges = spec.declaredRanges ++ own ∧
      ∀ i ∈ own, i.On Number.reals := by
  simp only [readValidRanges, Build.bind_ok, Build.lift_outcome, Declaration.warn_if_outcome,
    Except.ok.injEq] at done
  obtain ⟨declared, ofDeclared, validFullRange, -, default?, -, rfl⟩ := done
  have onDeclared : ∀ i ∈ declared, i.On Number.reals := by
    intro i member
    obtain ⟨property, raw, own, read, sameMin, sameMax⟩ :=
      Declaration.declared_ranges_ok ofDeclared i member
    have onOwn := read_interval_on read
    rwa [Interval.On, ← sameMin, ← sameMax] at onOwn
  refine ⟨⟨typed, ?_, rfl⟩, ?_⟩
  · intro isFull
    simp only at isFull
    simp [isFull, Interval.full]
  · refine ⟨declared ++ (if validFullRange then [Interval.full type] else []) ++
      (default?.map fun value => Interval.point (.real value)).toList, by simp [Interval.full], ?_⟩
    intro i member
    rcases List.mem_append.mp member with front | last
    · rcases List.mem_append.mp front with inDeclared | isFull
      · exact onDeclared i inDeclared
      · split at isFull
        · cases List.mem_singleton.mp isFull
          exact Interval.full_on type
        · exact absurd isFull List.not_mem_nil
    · obtain ⟨value, -, rfl⟩ := Option.map_eq_some_iff.mp (Option.mem_toList.mp last)
      exact ⟨⟨value, rfl⟩, ⟨value, rfl⟩⟩

theorem read_ok {d : Declaration} {profile : Profile} {start spec : FloatSpec}
    (done : (read d profile start).outcome = .ok spec) :
    ∃ type own, readType d start.type = .ok type ∧ spec.Settled type ∧
      spec.declaredRanges = start.declaredRanges ++ own ∧ ∀ i ∈ own, i.On Number.reals := by
  simp only [read, Build.bind_ok, Build.lift_outcome, Build.pure_outcome, Except.ok.injEq] at done
  obtain ⟨type, ofType, _, -, _, -, named, ofNamed, _, -, _, -, ranged, ofRanges, _, -, _, -, _, -,
    _, -, rfl⟩ := done
  obtain ⟨typed, kept⟩ := read_specials_keeps ofNamed
  obtain ⟨⟨stillTyped, covered, merged⟩, own, declared, onOwn⟩ := read_valid_ranges_ok ofRanges typed
  exact ⟨type, own, ofType, ⟨stillTyped, covered, merged⟩,
    declared.trans (congrArg (· ++ own) kept), onOwn⟩

end FloatSpec

/-- Valid values of real numbers anywhere in a model are declared by real numbers. -/
theorem Payload.real_law :
    Payload.Law fun _ payload => ∀ spec, payload = .float spec →
      ∀ i ∈ spec.declaredRanges, i.On Number.reals where
  blank r kind := by
    intro spec isFloat
    cases kind with
    | float =>
        cases isFloat
        exact fun i member => absurd member List.not_mem_nil
    | _ => nomatch isFloat
  grown _ real := real
  read _ real read := by
    intro spec isFloat
    cases Declaration.read_payload_reads read with
    | float done =>
        cases isFloat
        obtain ⟨_, own, -, -, declared, onOwn⟩ := FloatSpec.read_ok done
        rw [declared, List.forall_mem_append]
        exact ⟨real _ rfl, onOwn⟩
    | _ => nomatch isFloat

end WireSchema
