import WireSchema.Proofs.Bounds

/-!
Which numbers are values of an enumeration. All its values are words of 64 bits, and a word is valid
exactly if some value has it, at a version where that value is in force. A number beyond the words is
looked up as another one, and so it is valid whenever that one is.
-/

namespace WireSchema

namespace Number

def IsWord (n : Int) : Prop := Literal.leastSigned ≤ n ∧ n ≤ Literal.greatestUnsigned

instance (n : Int) : Decidable (IsWord n) := inferInstanceAs (Decidable (_ ∧ _))

/-- The word that a number is looked up by: the greatest one for those above the words, and zero for
those below them. -/
def standIn (n : Int) : Int :=
  if Literal.leastSigned ≤ n then Min.min n Literal.greatestUnsigned else 0

theorem stand_in_word {n : Int} (word : IsWord n) : standIn n = n := by
  rw [standIn, if_pos word.1]
  exact Int.min_eq_left word.2

theorem of_int_word {n : Int} (word : IsWord n) : (ofInt n).toInt? = some n := by
  rw [of_int_value, ← standIn, stand_in_word word]

end Number

open Number (IsWord standIn)

theorem Interval.spans_point_iff {n k : Int} {window : Window} (word : IsWord n) :
    Interval.Spans ⟨Number.ofInt n, Number.ofInt n, window⟩ k ↔ n = k := by
  simp only [Spans, Number.of_int_word word, Option.some.injEq]
  constructor
  · rintro ⟨_, _, rfl, rfl, above, below⟩
    omega
  · rintro rfl
    exact ⟨n, n, rfl, rfl, by omega⟩

/-- Storage holds at most 64 bits of a number. -/
theorem IntType.range_words {type : IntType} {length bitLength : Nat} {n : Int}
    (least : (type.range length bitLength).1 ≤ n) (greatest : n ≤ (type.range length bitLength).2) :
    IsWord n := by
  have power {bits most : Nat} (few : bits ≤ most) : Nat.pow 2 bits ≤ Nat.pow 2 most :=
    Nat.pow_le_pow_right (by decide) few
  simp only [range] at least greatest
  generalize isBits : max 1 (min (if bitLength ≠ 0 then bitLength
    else if type.isVariable = true then length * 7 else length * 8) 64) = bits at least greatest
  have few : bits ≤ 64 := by omega
  by_cases unsigned : type.isUnsigned = true
  · simp only [if_pos unsigned] at least greatest
    have size := power few
    have whole : Nat.pow 2 64 = Literal.greatestUnsigned + 1 := by decide
    have small : Literal.leastSigned ≤ 0 := by decide
    exact ⟨by omega, by omega⟩
  · simp only [if_neg unsigned] at least greatest
    have size := power (Nat.sub_le_sub_right few 1)
    have half : (Nat.pow 2 (64 - 1) : Int) = -Literal.leastSigned := by decide
    have large : -Literal.leastSigned ≤ Literal.greatestUnsigned := by decide
    exact ⟨by omega, by omega⟩

namespace EnumSpec

def Declares (spec : EnumSpec) (x : Int) (version : Option Nat) : Prop :=
  ∃ v ∈ spec.values, v.value = x ∧
    ∀ w ∈ version, spec.validCheckVersion = true → v.window.since ≤ w ∧ w < v.window.deprecated

instance (spec : EnumSpec) (x : Int) (version : Option Nat) :
    Decidable (spec.Declares x version) :=
  inferInstanceAs (Decidable (∃ v ∈ spec.values, v.value = x ∧
    ∀ w ∈ version, spec.validCheckVersion = true → v.window.since ≤ w ∧ w < v.window.deprecated))

def Worded (spec : EnumSpec) : Prop := ∀ v ∈ spec.values, IsWord v.value

variable {type : IntType} {start spec : EnumSpec} {values : List (NamedValue Int)}

theorem worded_of_read (settled : spec.Settled type) (readOver : start.ReadOver values spec)
    (worded : start.Worded) : spec.Worded := by
  rw [Worded, readOver.named, List.forall_mem_append]
  refine ⟨worded, fun v member => ?_⟩
  have holds := holds_iff.mp (readOver.fitting v member)
  rw [settled.least, settled.greatest] at holds
  exact IntType.range_words holds.1 holds.2

theorem points_integral : ∀ i ∈ spec.points, i.On Number.integers := by
  intro i member
  obtain ⟨v, -, rfl⟩ := List.mem_map.mp member
  exact ⟨Number.of_int_integral v.value, Number.of_int_integral v.value⟩

theorem declared_word {x : Int} {version : Option Nat} (worded : spec.Worded)
    (declared : spec.Declares x version) : IsWord x := by
  obtain ⟨v, member, rfl, -⟩ := declared
  exact worded v member

/-- A window counts only where versions are checked. -/
theorem in_force_iff (checked : Bool) (window : Window) (version : Option Nat) :
    (if checked then version else none).all
        (if checked then window else Window.always).activeAt = true ↔
      ∀ w ∈ version, checked = true → window.since ≤ w ∧ w < window.deprecated := by
  cases checked <;> cases version <;> simp [Window.activeAt]

/-- A number is valid exactly if the word that it is looked up by is a value. -/
theorem valid_iff_declares (settled : spec.Settled type) (worded : spec.Worded) (x : Int)
    (version : Option Nat) :
    spec.isValid x version = true ↔ spec.Declares (standIn x) version := by
  rw [isValid, settled.merged,
    Interval.merge_covers _ _ _ _ points_integral (Number.of_int_integral x),
    Interval.covers_normal_iff _ _ _ points_integral (Number.of_int_value x), ← standIn]
  constructor
  · rintro ⟨_, member, spans, inForce⟩
    obtain ⟨v, isValue, rfl⟩ := List.mem_map.mp member
    exact ⟨v, isValue, (Interval.spans_point_iff (worded v isValue)).mp spans,
      (in_force_iff _ _ _).mp inForce⟩
  · rintro ⟨v, isValue, same, inForce⟩
    exact ⟨_, List.mem_map_of_mem isValue, (Interval.spans_point_iff (worded v isValue)).mpr same,
      (in_force_iff _ _ _).mpr inForce⟩

end EnumSpec

/-- The values of enumerations anywhere in a model are words. -/
theorem Payload.worded_values_law :
    Payload.Law fun _ payload => ∀ spec, payload = .enum spec → spec.Worded where
  blank r kind := by
    intro spec isEnum
    cases kind with
    | enum =>
        cases isEnum
        exact fun v member => absurd member List.not_mem_nil
    | _ => nomatch isEnum
  grown _ worded := worded
  read _ worded read := by
    intro spec isEnum
    cases Declaration.read_payload_reads read with
    | enum done =>
        cases isEnum
        obtain ⟨type, values, settled, readOver, -⟩ := EnumSpec.read_ok done
        exact EnumSpec.worded_of_read settled readOver (worded _ rfl)
    | _ => nomatch isEnum

namespace Field

/-- A number is valid in an enumeration that was built exactly if the word that it is looked up by is
one of the values, in force where versions are checked. So validity is as declared for every word, and
for a number beyond the words unless its stand-in is declared. -/
theorem enum_validity_exact {env : Environment} {tag : String} {node : Markup.Node}
    {parent : Parent} {f : Field} {spec : EnumSpec} (grown : env.registry.GrownIn fun _ => True)
    (built : (create env tag node parent).outcome = .ok f) (isEnum : f.payload = .enum spec)
    (x : Int) (version : Option Nat) :
    (spec.isValid x version = true ↔ spec.Declares (standIn x) version) ∧
      ((spec.isValid x version = true ↔ spec.Declares x version) ↔
        IsWord x ∨ ¬spec.Declares (standIn x) version) := by
  have worded := Payload.law_created Payload.worded_values_law grown built spec isEnum
  obtain ⟨d, profile, -, reads⟩ := create_over built
  generalize env.startOf f = start at reads
  have exactly : spec.isValid x version = true ↔ spec.Declares (standIn x) version := by
    cases reads with
    | enum done =>
        cases isEnum
        obtain ⟨type, values, settled, -, -⟩ := EnumSpec.read_ok done
        exact EnumSpec.valid_iff_declares settled worded x version
    | _ => nomatch isEnum
  refine ⟨exactly, ?_⟩
  rw [exactly]
  by_cases word : IsWord x
  · rw [Number.stand_in_word word]
    exact iff_of_true Iff.rfl (Or.inl word)
  · have undeclared : ¬spec.Declares x version :=
      fun declared => word (EnumSpec.declared_word worded declared)
    rw [iff_false_right undeclared, or_iff_right word]

def extremeWords : Markup.Node :=
  ⟨"enum", [("name", "A"), ("type", "uint64")],
    [⟨"validValue", [("name", "a"), ("val", "0")], [], "", 1⟩,
      ⟨"validValue", [("name", "b"), ("val", "18446744073709551615")], [], "", 1⟩], "", 1⟩

def laterValue : Markup.Node :=
  ⟨"enum", [("name", "B"), ("reuse", "A"), ("validCheckVersion", "true")],
    [⟨"validValue", [("name", "c"), ("val", "7"), ("sinceVersion", "3")], [], "", 1⟩], "", 1⟩

def versionedSchema : Environment :=
  ⟨{ name := "S", version := 5 }, registryOf [extremeWords], []⟩

theorem later_value_declared :
    ∃ f spec, (create versionedSchema "enum" laterValue ⟨.ns, Window.always⟩).outcome = .ok f ∧
      f.payload = .enum spec ∧ spec.Declares 0xffffffffffffffff (some 2) ∧
      spec.Declares 7 (some 3) ∧ ¬spec.Declares 7 (some 2) := by
  obtain ⟨f, built, found⟩ := except_any (show
    ((create versionedSchema "enum" laterValue ⟨.ns, Window.always⟩).outcome.toOption.any fun f =>
      f.payload.enum?.any fun ⟨spec, _⟩ => spec.isValid 0xffffffffffffffff (some 2) &&
        spec.isValid 7 (some 3) && !spec.isValid 7 (some 2)) = true by decide +kernel)
  simp only [Option.any_eq_true, Subtype.exists, Bool.and_eq_true, Bool.not_eq_true'] at found
  obtain ⟨spec, isEnum, -, ⟨greatest, later⟩, early⟩ := found
  have grown := Registry.grown_imp (fun _ _ => trivial) (registry_of_grown [extremeWords])
  have exactly {x : Int} (word : IsWord x) (version : Option Nat) :=
    (enum_validity_exact grown built isEnum x version).2.mpr (Or.inl word)
  refine ⟨f, spec, built, isEnum, (exactly (by decide) _).mp greatest,
    (exactly (by decide) _).mp later, fun declared => ?_⟩
  rw [(exactly (by decide) _).mpr declared] at early
  cases early

/-- The numbers next to the words on either side are valid, though no value has them. -/
theorem numbers_beyond_words_valid :
    ∃ f spec, (create (schemaOf []) "enum" extremeWords ⟨.ns, Window.always⟩).outcome = .ok f ∧
      f.payload = .enum spec ∧
      (spec.isValid (-0x8000000000000001) none = true ∧
        ¬spec.Declares (-0x8000000000000001) none) ∧
      spec.isValid 0x10000000000000000 none = true ∧
        ¬spec.Declares 0x10000000000000000 none := by
  obtain ⟨f, built, found⟩ := except_any (show
    ((create (schemaOf []) "enum" extremeWords ⟨.ns, Window.always⟩).outcome.toOption.any fun f =>
      f.payload.enum?.any fun ⟨spec, _⟩ => decide (
        (spec.isValid (-0x8000000000000001) none = true ∧
          ¬spec.Declares (-0x8000000000000001) none) ∧
        spec.isValid 0x10000000000000000 none = true ∧
          ¬spec.Declares 0x10000000000000000 none)) = true by decide +kernel)
  simp only [Option.any_eq_true, Subtype.exists, decide_eq_true_eq] at found
  obtain ⟨spec, isEnum, -, beyond⟩ := found
  exact ⟨f, spec, built, isEnum, beyond⟩

end Field

end WireSchema
