import WireSchema.Proofs.Coverage
import WireSchema.Proofs.Growth
import WireSchema.Proofs.Values

/-!
Values that a field can represent. What an element declares is checked against the range of the
field. What came with a reused field is not, and as a bound of valid values a number that no word of
64 bits holds gives way to another one. These are the only ways in which an integer or enumeration
comes to hold a value outside of its range.
-/

namespace WireSchema

namespace Number

def isWithin (low high : Int) (n : Number) : Bool :=
  n.toInt?.any fun value => decide (low ≤ value ∧ value ≤ high)

theorem within_iff {low high : Int} {n : Number} (integral : integers.holds n) :
    n.isWithin low high = true ↔ low ≤ integers.rank n ∧ integers.rank n ≤ high := by
  obtain ⟨value, read⟩ := Option.isSome_iff_exists.mp integral
  simp [isWithin, integers, read]

/-- Numbers above the words give way to the greatest word, and those below them to zero. -/
theorem of_int_value (n : Int) :
    (ofInt n).toInt? =
      some (if Literal.leastSigned ≤ n then Min.min n Literal.greatestUnsigned else 0) := by
  unfold ofInt
  split
  · rename_i signed
    simp only [toInt?, Option.some.injEq]
    have large : Literal.greatestSigned ≤ Literal.greatestUnsigned := by decide
    split <;> omega
  · rename_i notSigned
    have small : Literal.leastSigned ≤ 0 := by decide
    have large : 0 ≤ Literal.greatestSigned := by decide
    simp only [toInt?, Option.some.injEq, Nat.min_def]
    split <;> split <;> omega

theorem of_int_integral (n : Int) : integers.holds (ofInt n) :=
  integers_holds (of_int_value n)

theorem of_int_within {low high n : Int} (words : Literal.leastSigned ≤ low ∨ 0 ≤ high)
    (starts : low ≤ Literal.greatestUnsigned) (above : low ≤ n) (below : n ≤ high) :
    (ofInt n).isWithin low high = true := by
  have small : Literal.leastSigned ≤ 0 := by decide
  rw [within_iff (of_int_integral n), integers_rank (of_int_value n)]
  split <;> omega

end Number

namespace Interval

open Number (integers)

def Inside (low high : Int) (i : Interval) : Prop :=
  i.min.isWithin low high = true ∧ i.max.isWithin low high = true

instance (low high : Int) (i : Interval) : Decidable (i.Inside low high) :=
  inferInstanceAs (Decidable (_ ∧ _))

variable {low high : Int}

theorem inside_iff {i : Interval} (on : i.On integers) :
    i.Inside low high ↔ (low ≤ integers.rank i.min ∧ integers.rank i.min ≤ high) ∧
      low ≤ integers.rank i.max ∧ integers.rank i.max ≤ high := by
  rw [Inside, Number.within_iff on.1, Number.within_iff on.2]

theorem normal_inside_iff (policy : MergePolicy) {i : Interval} (on : i.On integers) :
    (i.normal policy).Inside low high ↔ i.Inside low high := by
  obtain ⟨least, greatest⟩ := normal_bounds integers policy on
  rw [inside_iff (normal_on integers policy on), inside_iff on, least, greatest]
  omega

theorem extend_to_inside_iff {i next : Interval} (on : i.On integers) (nextOn : next.On integers)
    (ordered : integers.rank i.min ≤ integers.rank i.max)
    (nextOrdered : integers.rank next.min ≤ integers.rank next.max)
    (start : integers.rank i.min ≤ integers.rank next.min) :
    (i.extendTo next).Inside low high ↔ i.Inside low high ∧ next.Inside low high := by
  rw [inside_iff (extend_to_on on nextOn), inside_iff on, inside_iff nextOn, extend_to_min,
    extend_to_max on nextOn]
  omega

theorem coalesce_inside_iff (i : Interval) (rest : List Interval)
    (on : ∀ j ∈ i :: rest, j.On integers)
    (ordered : ∀ j ∈ i :: rest, integers.rank j.min ≤ integers.rank j.max)
    (sorted : (i :: rest).Pairwise fun a b =>
      a.window = b.window → integers.rank a.min ≤ integers.rank b.min) :
    (∀ j ∈ coalesce .integral i rest, j.Inside low high) ↔
      ∀ j ∈ i :: rest, j.Inside low high := by
  induction rest generalizing i with
  | nil => exact Iff.rfl
  | cons next rest ih =>
      rw [List.forall_mem_cons, List.forall_mem_cons] at on ordered
      obtain ⟨first, second, others⟩ := on
      obtain ⟨firstOrdered, secondOrdered, othersOrdered⟩ := ordered
      obtain ⟨start, sortedRest⟩ := List.pairwise_cons.mp sorted
      rw [coalesce_cons]
      split
      · rename_i joined
        rw [Bool.and_eq_true, beq_iff_eq] at joined
        have startNext := start next List.mem_cons_self joined.1
        have grownOrdered : integers.rank (i.extendTo next).min ≤
            integers.rank (i.extendTo next).max := by
          rw [extend_to_min, extend_to_max first second]
          omega
        have sortedGrown : (i.extendTo next :: rest).Pairwise fun a b =>
            a.window = b.window → integers.rank a.min ≤ integers.rank b.min := by
          refine List.pairwise_cons.mpr ⟨?_, (List.pairwise_cons.mp sortedRest).2⟩
          intro j member
          simpa using start j (List.mem_cons_of_mem next member)
        rw [ih (i.extendTo next)
            (List.forall_mem_cons.mpr ⟨extend_to_on first second, others⟩)
            (List.forall_mem_cons.mpr ⟨grownOrdered, othersOrdered⟩) sortedGrown,
          List.forall_mem_cons, List.forall_mem_cons, List.forall_mem_cons,
          extend_to_inside_iff first second firstOrdered secondOrdered startNext, and_assoc]
      · rw [List.forall_mem_cons, List.forall_mem_cons,
          ih next (List.forall_mem_cons.mpr ⟨second, others⟩)
            (List.forall_mem_cons.mpr ⟨secondOrdered, othersOrdered⟩) sortedRest]

/-- Merging intervals moves no bound out of a range, and none into it. -/
theorem merge_inside_iff (versioned : Bool) (intervals : List Interval)
    (on : ∀ i ∈ intervals, i.On integers) :
    (∀ i ∈ merge ⟨.integral, versioned⟩ intervals, i.Inside low high) ↔
      ∀ i ∈ intervals, i.Inside low high := by
  have normalOn := map_normal_on ⟨.integral, versioned⟩ on
  have normalOrdered : ∀ i ∈ intervals.map (normal ⟨.integral, versioned⟩),
      integers.rank i.min ≤ integers.rank i.max := by
    intro i member
    obtain ⟨source, given, rfl⟩ := List.mem_map.mp member
    obtain ⟨least, greatest⟩ := normal_bounds integers ⟨.integral, versioned⟩ (on source given)
    omega
  have sorted := stable_by_window integers _ normalOn
  have joined : (∀ i ∈ coalesceAll .integral (Sorting.stable byWindow
      (intervals.map (normal ⟨.integral, versioned⟩))), i.Inside low high) ↔
        ∀ i ∈ intervals.map (normal ⟨.integral, versioned⟩), i.Inside low high := by
    simp only [← Sorting.mem_stable byWindow (intervals.map (normal ⟨.integral, versioned⟩))]
      at normalOn normalOrdered ⊢
    cases same : Sorting.stable byWindow (intervals.map (normal ⟨.integral, versioned⟩)) with
    | nil => exact Iff.rfl
    | cons i rest =>
        rw [same] at sorted normalOn normalOrdered
        exact coalesce_inside_iff i rest normalOn normalOrdered sorted
  simp only [merge, Sorting.mem_stable]
  rw [joined, List.forall_mem_map]
  exact forall₂_congr fun i given => normal_inside_iff _ (on i given)

end Interval

namespace IntSpec

structure Fits (spec : IntSpec) : Prop where
  default : spec.least ≤ spec.defaultValue ∧ spec.defaultValue ≤ spec.greatest
  specials : ∀ s ∈ spec.specials, spec.least ≤ s.value ∧ s.value ≤ spec.greatest
  ranges : ∀ i ∈ spec.validRanges, i.Inside spec.least spec.greatest

instance (spec : IntSpec) : Decidable spec.Fits :=
  decidable_of_decidable_of_iff (p := (_ ∧ _) ∧ (∀ s ∈ spec.specials, _ ∧ _) ∧ ∀ i ∈ _, _)
    ⟨fun ⟨default, specials, ranges⟩ => ⟨default, specials, ranges⟩,
      fun fits => ⟨fits.default, fits.specials, fits.ranges⟩⟩

def InWords (spec : IntSpec) : Prop := Literal.leastSigned ≤ spec.least ∨ 0 ≤ spec.greatest

def Worded (spec : IntSpec) : Prop :=
  Literal.leastSigned ≤ spec.serOffset ∧ ∀ i ∈ spec.declaredRanges, i.On Number.integers

variable {type : IntType} {start spec : IntSpec} {specials : List (NamedValue Int)}
  {ranges : List Interval}

theorem worded_of_read (readOver : start.ReadOver specials ranges spec) (worded : start.Worded) :
    spec.Worded := by
  refine ⟨readOver.offset.elim (fun same => same ▸ worded.1) id, ?_⟩
  rw [readOver.declared]
  intro i member
  rcases List.mem_append.mp member with old | new
  · exact worded.2 i old
  · obtain ⟨low, high, atMin, atMax, -⟩ := readOver.bounded i new
    rw [Interval.On, atMin, atMax]
    exact ⟨Number.of_int_integral low, Number.of_int_integral high⟩

theorem least_le_word (settled : spec.Settled type) (worded : spec.Worded) :
    spec.least ≤ Literal.greatestUnsigned := by
  have zero := type.range_holds_zero spec.storage.length spec.storage.bitLength
  have offset := worded.1
  have large : -Literal.leastSigned ≤ Literal.greatestUnsigned := by decide
  rw [settled.least]
  omega

theorem whole_inside_iff (settled : spec.Settled type) (worded : spec.Worded) :
    spec.whole.Inside spec.least spec.greatest ↔ spec.InWords := by
  have ordered := settled_ordered settled
  have starts := least_le_word settled worded
  constructor
  · rintro ⟨inside, -⟩
    rw [whole, Number.within_iff (Number.of_int_integral _),
      Number.integers_rank (Number.of_int_value _)] at inside
    split at inside
    · rename_i word
      exact Or.inl word
    · exact Or.inr inside.2
  · intro words
    exact ⟨Number.of_int_within words starts (Int.le_refl _) ordered,
      Number.of_int_within words starts ordered (Int.le_refl _)⟩

theorem in_range_of_accepts {n : Int} (accepted : spec.Accepts n)
    (fits : ∀ s ∈ spec.specials, spec.least ≤ s.value ∧ s.value ≤ spec.greatest) :
    spec.least ≤ n ∧ n ≤ spec.greatest := by
  rcases accepted with holds | ⟨s, member, rfl⟩
  · exact holds_iff.mp holds
  · exact fits s member

theorem valid_ranges_inside_iff (settled : spec.Settled type) (worded : spec.Worded) :
    (∀ i ∈ spec.validRanges, i.Inside spec.least spec.greatest) ↔
      if spec.declaredRanges = [] then spec.InWords
      else ∀ i ∈ spec.declaredRanges, i.Inside spec.least spec.greatest := by
  rw [settled.merged]
  by_cases none : spec.declaredRanges = []
  · have onWhole : ∀ i ∈ [spec.whole], i.On Number.integers := by
      intro i member
      cases List.mem_singleton.mp member
      exact ⟨Number.of_int_integral _, Number.of_int_integral _⟩
    rw [if_pos none, none, List.isEmpty_nil, if_pos rfl, Interval.merge_inside_iff _ _ onWhole,
      List.forall_mem_singleton, whole_inside_iff settled worded]
  · rw [if_neg none, if_neg (by rwa [List.isEmpty_iff]), Interval.merge_inside_iff _ _ worded.2]

theorem fits_iff (settled : spec.Settled type) (readOver : start.ReadOver specials ranges spec)
    (worded : start.Worded) :
    spec.Fits ↔
      (∀ s ∈ start.specials, spec.least ≤ s.value ∧ s.value ≤ spec.greatest) ∧
      (∀ i ∈ start.declaredRanges, i.Inside spec.least spec.greatest) ∧
      (spec.InWords ∨
        spec.declaredRanges ≠ [] ∧ ∀ i ∈ ranges, i.Inside spec.least spec.greatest) := by
  have wordedSpec := worded_of_read readOver worded
  have starts := least_le_word settled wordedSpec
  have valid := valid_ranges_inside_iff settled wordedSpec
  constructor
  · intro fits
    have inside := valid.mp fits.ranges
    refine ⟨fun s member => fits.specials s ?_, ?_⟩
    · rw [readOver.named]
      exact List.mem_append_left specials member
    · by_cases none : spec.declaredRanges = []
      · rw [if_pos none] at inside
        rw [readOver.declared, List.append_eq_nil_iff] at none
        rw [none.1]
        exact ⟨fun i member => absurd member List.not_mem_nil, Or.inl inside⟩
      · rw [if_neg none, readOver.declared, List.forall_mem_append] at inside
        exact ⟨inside.1, Or.inr ⟨none, inside.2⟩⟩
  · rintro ⟨inherited, inheritedRanges, own⟩
    have fitting : ∀ s ∈ spec.specials, spec.least ≤ s.value ∧ s.value ≤ spec.greatest := by
      rw [readOver.named, List.forall_mem_append]
      exact ⟨inherited, fun s member => holds_iff.mp (readOver.fitting s member)⟩
    refine ⟨in_range_of_accepts readOver.default fitting, fitting, valid.mpr ?_⟩
    split
    · rename_i none
      exact own.elim id fun ⟨nonempty, _⟩ => absurd none nonempty
    · rw [readOver.declared, List.forall_mem_append]
      refine ⟨inheritedRanges, ?_⟩
      rcases own with words | ⟨-, inside⟩
      · intro i member
        obtain ⟨low, high, atMin, atMax, acceptsLow, acceptsHigh⟩ := readOver.bounded i member
        have inLow := in_range_of_accepts acceptsLow fitting
        have inHigh := in_range_of_accepts acceptsHigh fitting
        rw [Interval.Inside, atMin, atMax]
        exact ⟨Number.of_int_within words starts inLow.1 inLow.2,
          Number.of_int_within words starts inHigh.1 inHigh.2⟩
      · exact inside

end IntSpec

namespace EnumSpec

structure Fits (spec : EnumSpec) : Prop where
  default : spec.least ≤ spec.defaultValue ∧ spec.defaultValue ≤ spec.greatest
  values : ∀ v ∈ spec.values, spec.least ≤ v.value ∧ v.value ≤ spec.greatest

instance (spec : EnumSpec) : Decidable spec.Fits :=
  decidable_of_decidable_of_iff (p := (_ ∧ _) ∧ ∀ v ∈ spec.values, _ ∧ _)
    ⟨fun ⟨default, values⟩ => ⟨default, values⟩, fun fits => ⟨fits.default, fits.values⟩⟩

theorem fits_iff {start spec : EnumSpec} {values : List (NamedValue Int)}
    (readOver : start.ReadOver values spec) :
    spec.Fits ↔
      (∀ v ∈ start.values, spec.least ≤ v.value ∧ v.value ≤ spec.greatest) ∧
      (spec.defaultValue = start.defaultValue →
        spec.least ≤ start.defaultValue ∧ start.defaultValue ≤ spec.greatest) := by
  constructor
  · intro fits
    refine ⟨fun v member => fits.values v ?_, fun kept => kept ▸ fits.default⟩
    rw [readOver.named]
    exact List.mem_append_left values member
  · rintro ⟨inherited, kept⟩
    constructor
    · rcases readOver.default with same | holds
      · rw [same]
        exact kept same
      · exact holds_iff.mp holds
    · rw [readOver.named, List.forall_mem_append]
      exact ⟨inherited, fun v member => holds_iff.mp (readOver.fitting v member)⟩

end EnumSpec

/-- Integers anywhere in a model are made of words. -/
theorem Payload.worded_law :
    Payload.Law fun _ payload => ∀ spec, payload = .int spec → spec.Worded where
  blank r kind := by
    intro spec isInt
    cases kind with
    | int =>
        cases isInt
        exact ⟨by decide, fun i member => absurd member List.not_mem_nil⟩
    | _ => nomatch isInt
  grown _ worded := worded
  read _ worded read := by
    intro spec isInt
    cases Declaration.read_payload_reads read with
    | int done =>
        cases isInt
        obtain ⟨type, specials, ranges, -, readOver, -⟩ := IntSpec.read_ok done
        exact IntSpec.worded_of_read readOver (worded _ rfl)
    | _ => nomatch isInt

namespace Environment

/-- What the payload of a field was read over: that of the field it reuses, or a blank one. -/
def startOf (env : Environment) (f : Field) : Payload Field :=
  match f.profile.reusedFrom.bind env.find? with
  | some handle => handle.target.payload
  | none => .blank f.kind

theorem start_of_fresh {env : Environment} {f : Field} (fresh : f.profile.reusedFrom = none) :
    env.startOf f = .blank f.kind := by
  rw [startOf, fresh]
  rfl

/-- What blank payloads and those of registered fields have, the start of a field has. -/
theorem start_of_holds {env : Environment} {f : Field} {motive : Payload Field → Prop}
    (blank : motive (.blank f.kind))
    (found : ∀ ref handle, env.find? ref = some handle → motive handle.target.payload) :
    motive (env.startOf f) := by
  unfold startOf
  split
  · rename_i handle copied
    obtain ⟨ref, -, hit⟩ := Option.bind_eq_some_iff.mp copied
    exact found ref handle hit
  · exact blank

end Environment

theorem Declaration.makes_start_of {d : Declaration} {start f : Field} (makes : d.Makes start f) :
    d.env.startOf f = start.payload := by
  obtain ⟨reuse, -, -, started⟩ := makes.started
  obtain ⟨profile, profiled, read⟩ := makes.read
  have origin : f.profile.reusedFrom = start.profile.reusedFrom :=
    (read_payload_ok (makes_fresh makes) read).2.1.trans (read_profile_ok profiled).1
  rw [Environment.startOf, origin]
  rcases (start_ok started).2 with ⟨-, blank, none⟩ | ⟨ref, handle, -, copied, found, same⟩
  · rw [none, blank, Option.bind_none]
  · rw [copied, same, Option.bind_some, found]

namespace Field

/-- A field that was built is read over its start, which is blank unless the element reuses a field. -/
theorem create_from_start {env : Environment} {tag : String} {node : Markup.Node} {parent : Parent}
    {f : Field} (built : (create env tag node parent).outcome = .ok f) :
    ∃ (d : Declaration) (profile : Profile), d.parent = parent ∧
      d.ReadsAs profile (env.startOf f) f ∧ (d.reused = false → env.startOf f = .blank f.kind) := by
  obtain ⟨d, start, rfl, -, ofParent, makes⟩ := create_makes built
  obtain ⟨profile, -, reads⟩ := Declaration.makes_reads makes
  rw [Declaration.makes_start_of makes]
  exact ⟨d, profile, ofParent, reads, Declaration.makes_blank makes⟩

theorem create_over {env : Environment} {tag : String} {node : Markup.Node} {parent : Parent}
    {f : Field} (built : (create env tag node parent).outcome = .ok f) :
    ∃ (d : Declaration) (profile : Profile), d.parent = parent ∧
      d.ReadsAs profile (env.startOf f) f := by
  obtain ⟨d, profile, ofParent, reads, -⟩ := create_from_start built
  exact ⟨d, profile, ofParent, reads⟩

theorem start_worded {env : Environment} {f : Field} {start : IntSpec}
    (grown : env.registry.GrownIn fun _ => True) (isStart : env.startOf f = .int start) :
    start.Worded := by
  refine Environment.start_of_holds
    (motive := fun payload => ∀ spec, payload = .int spec → spec.Worded)
    (Payload.worded_law.blank env.registry f.kind) (fun ref handle hit => ?_) start isStart
  have everywhere := Registry.law_of_find (Payload.law_everywhere Payload.worded_law) grown hit
  exact (Field.everywhere_iff.mp everywhere).1

/-- An integer that was built holds no value outside of its range exactly if the named values and
intervals that it has from the reused field do not, and its own intervals stay in the range as
bounds. An enumeration does so exactly if the values and the default from the reused field do not. -/
theorem integral_values_fit_iff {env : Environment} {tag : String} {node : Markup.Node}
    {parent : Parent} {f : Field} (grown : env.registry.GrownIn fun _ => True)
    (built : (create env tag node parent).outcome = .ok f) :
    (∀ spec, f.payload = .int spec → ∃ start own, env.startOf f = .int start ∧
      spec.declaredRanges = start.declaredRanges ++ own ∧
      (spec.Fits ↔
        (∀ s ∈ start.specials, spec.least ≤ s.value ∧ s.value ≤ spec.greatest) ∧
        (∀ i ∈ start.declaredRanges, i.Inside spec.least spec.greatest) ∧
        (spec.InWords ∨
          spec.declaredRanges ≠ [] ∧ ∀ i ∈ own, i.Inside spec.least spec.greatest))) ∧
    (∀ spec, f.payload = .enum spec → ∃ start, env.startOf f = .enum start ∧
      (spec.Fits ↔
        (∀ v ∈ start.values, spec.least ≤ v.value ∧ v.value ≤ spec.greatest) ∧
        (spec.defaultValue = start.defaultValue →
          spec.least ≤ start.defaultValue ∧ start.defaultValue ≤ spec.greatest)) ∧
      (f.profile.reusedFrom = none → spec.Fits)) := by
  obtain ⟨d, profile, -, reads⟩ := create_over built
  generalize isStart : env.startOf f = payload at reads
  cases reads with
  | @int start spec done =>
      refine ⟨?_, fun _ isEnum => (nomatch isEnum)⟩
      intro spec isInt
      cases isInt
      obtain ⟨type, specials, own, settled, readOver, -⟩ := IntSpec.read_ok done
      exact ⟨start, own, rfl, readOver.declared,
        IntSpec.fits_iff settled readOver (start_worded grown isStart)⟩
  | @enum start spec done =>
      refine ⟨fun _ isInt => (nomatch isInt), ?_⟩
      intro spec isEnum
      cases isEnum
      obtain ⟨type, values, settled, readOver, -⟩ := EnumSpec.read_ok done
      have exactly := EnumSpec.fits_iff readOver
      refine ⟨start, rfl, exactly, ?_⟩
      intro fresh
      -- A blank enumeration has the default 0 and no values.
      have zero := EnumSpec.holds_iff.mp (EnumSpec.settled_holds_zero settled)
      rw [Environment.startOf, fresh] at isStart
      cases isStart
      exact exactly.mpr ⟨fun v member => absurd member List.not_mem_nil, fun _ => zero⟩
  | _ => exact ⟨fun _ isInt => (nomatch isInt), fun _ isEnum => (nomatch isEnum)⟩

def registryOf (nodes : List Markup.Node) : Registry :=
  (Registration.addAll { name := "S" } { registry := {} } (nodes.map (Placed.mk ""))).registry

theorem registry_of_grown (nodes : List Markup.Node) :
    (registryOf nodes).GrownIn Parent.IsNamespace :=
  Registration.add_all_grown _ (Registry.empty_grown _)

def schemaOf (nodes : List Markup.Node) : Environment := ⟨{ name := "S" }, registryOf nodes, []⟩

def wideInteger (special range : String) : Markup.Node :=
  ⟨"int", [("name", "A"), ("type", "uint16"), ("validRange", range)],
    [⟨"special", [("name", "s"), ("val", special)], [], "", 1⟩], "", 1⟩

def byteCopy : Markup.Node :=
  ⟨"int", [("name", "B"), ("reuse", "A"), ("length", "1")], [], "", 1⟩

theorem byte_copy_fits :
    ∃ f spec, (create (schemaOf [wideInteger "255" "[0, 200]"]) "int" byteCopy
        ⟨.ns, Window.always⟩).outcome = .ok f ∧
      f.payload = .int spec ∧ spec.greatest = 255 ∧ spec.specials.length = 1 ∧ spec.Fits := by
  obtain ⟨f, built, found⟩ := except_any (show
    ((create (schemaOf [wideInteger "255" "[0, 200]"]) "int" byteCopy
      ⟨.ns, Window.always⟩).outcome.toOption.any fun f => f.payload.int?.any fun ⟨spec, _⟩ =>
        ((schemaOf [wideInteger "255" "[0, 200]"]).startOf f).int?.any fun ⟨start, _⟩ =>
          decide (spec.greatest = 255 ∧ spec.specials.length = 1 ∧
            (∀ s ∈ start.specials, spec.least ≤ s.value ∧ s.value ≤ spec.greatest) ∧
            ∀ i ∈ start.declaredRanges, i.Inside spec.least spec.greatest)) = true by decide +kernel)
  simp only [Option.any_eq_true, Subtype.exists, decide_eq_true_eq] at found
  obtain ⟨spec, isInt, -, start, isStart, -, byte, one, specials, ranges⟩ := found
  have grown := Registry.grown_imp (fun _ _ => trivial)
    (registry_of_grown [wideInteger "255" "[0, 200]"])
  obtain ⟨start', own, sameStart, -, exactly⟩ :=
    (integral_values_fit_iff grown built).1 spec isInt
  cases isStart.symm.trans sameStart
  have words : spec.InWords := Or.inr (by rw [byte]; decide)
  exact ⟨f, spec, built, isInt, byte, one, exactly.mpr ⟨specials, ranges, Or.inl words⟩⟩

def narrowedFields : List Markup.Node :=
  [wideInteger "1000" "[0, 1000]", byteCopy,
    ⟨"int", [("name", "C"), ("type", "int8"), ("serOffset", "9223372036854775807")], [], "", 1⟩,
    ⟨"enum", [("name", "D"), ("type", "uint16"), ("defaultValue", "1000")],
      [⟨"validValue", [("name", "v"), ("val", "1000")], [], "", 1⟩], "", 1⟩,
    ⟨"enum", [("name", "E"), ("reuse", "D"), ("length", "1")], [], "", 1⟩]

def exceedRange : List Field → Bool
  | [_, ⟨_, .int narrowed⟩, ⟨fresh, .int moved⟩, _, ⟨_, .enum copied⟩] =>
      decide (narrowed.greatest = 255 ∧ (∃ s ∈ narrowed.specials, s.value = 1000) ∧
        ¬ narrowed.Fits ∧ fresh.reusedFrom = none ∧ moved.greatest < 0 ∧ ¬ moved.Fits ∧
        copied.greatest = 255 ∧ copied.defaultValue = 1000 ∧ ¬ copied.Fits)
  | _ => false

/-- The copies hold values above their greatest one, and the valid values of the third integer,
which reuses nothing, go beyond its range. -/
theorem narrowed_fields_exceed_range :
    ∃ first narrowed fresh moved fourth copied profile profile',
      (registryOf narrowedFields).entries.map Entry.field =
        [first, ⟨profile, .int narrowed⟩, ⟨fresh, .int moved⟩, fourth, ⟨profile', .enum copied⟩] ∧
      narrowed.greatest = 255 ∧ (∃ s ∈ narrowed.specials, s.value = 1000) ∧ ¬ narrowed.Fits ∧
      fresh.reusedFrom = none ∧ moved.greatest < 0 ∧ ¬ moved.Fits ∧
      copied.greatest = 255 ∧ copied.defaultValue = 1000 ∧ ¬ copied.Fits := by
  have found : exceedRange ((registryOf narrowedFields).entries.map Entry.field) = true := by
    decide +kernel
  unfold exceedRange at found
  split at found
  · rename_i same
    exact ⟨_, _, _, _, _, _, _, _, same, of_decide_eq_true found⟩
  · cases found

end Field

end WireSchema
