import WireSchema.Proofs.Reals

/-!
What is read where an element says nothing. Properties that are not there leave the value that was
there before, so a payload that was read once is read again without a change. Two kinds re-derive
something: an integer moves a default that is out of its range, and a real number declares once more
that all finite numbers are valid.
-/

namespace WireSchema

open Markup (Node)

def IsIdentity (property : String) : Prop := property = "name" ∨ property = "reuse"

theorem identity_fails {property : String} (identity : IsIdentity property)
    (test : String → Bool) (fails : test "name" = false ∧ test "reuse" = false) :
    ¬ test property = true := by
  rw [Bool.not_eq_true]
  rcases identity with rfl | rfl
  · exact fails.1
  · exact fails.2

namespace Declaration

/-- The element is that of a global field and says nothing but its name and what it reuses. -/
structure Silent (d : Declaration) : Prop where
  reused : d.reused = true
  outside : d.parent.IsNamespace
  props : ∀ entry ∈ d.props.entries, IsIdentity entry.1
  attributes : ∀ entry ∈ d.node.attributes, IsIdentity entry.1
  children : ∀ child ∈ d.node.children, IsIdentity child.name

variable {α : Type} {d : Declaration} {p : String}

theorem not_versioned (silent : d.Silent) : d.parent.isVersioned = false := by
  rw [silent.outside]
  rfl

theorem not_in_bitfield (silent : d.Silent) : d.parent.isBitfield = false := by
  rw [silent.outside]
  rfl

section Properties

variable (silent : d.Silent) (notName : p ≠ "name") (notReuse : p ≠ "reuse")
include silent notName notReuse

theorem has_other : d.has p = false := by
  rw [has, Properties.contains, List.any_eq_false]
  intro entry member hit
  rw [beq_iff_eq] at hit
  rcases silent.props entry member with isName | isReuse
  · exact notName (hit.symm.trans isName)
  · exact notReuse (hit.symm.trans isReuse)

theorem prop_other : d.prop p = .ok none :=
  prop_absent (has_other silent notName notReuse)

theorem prop_as_other (read : String → Option α) : d.propAs p read = .ok none := by
  rw [propAs, prop_other silent notName notReuse]
  rfl

theorem flag_other (current : Bool) : d.flag p current = .ok current := by
  rw [flag, boolProp, prop_as_other silent notName notReuse]
  rfl

theorem text_other (current : String) : d.text p current = .ok current := by
  rw [text, prop_other silent notName notReuse]
  rfl

theorem gated_other : d.gated p = pure false := by
  rw [gated, has_other silent notName notReuse]
  rfl

theorem gated_flag_other (current : Bool) : d.gatedFlag p current = pure current := by
  rw [gatedFlag, gated_other silent notName notReuse]
  rfl

theorem warn_deprecated_other : d.warnDeprecated p = pure () := by
  rw [warnDeprecated, has_other silent notName notReuse]
  rfl

theorem read_override_other (current : OverridePolicy) :
    d.readOverride p current = pure current := by
  rw [readOverride, gated_other silent notName notReuse]
  rfl

theorem children_named_other : d.node.childrenNamed p = [] := by
  rw [Node.childrenNamed, List.filter_eq_nil_iff]
  intro child member hit
  rw [beq_iff_eq] at hit
  rcases silent.children child member with isName | isReuse
  · exact notName (hit.symm.trans isName)
  · exact notReuse (hit.symm.trans isReuse)

theorem child_other : d.node.child? p = none := by
  rw [Node.child?, List.find?_eq_none]
  exact List.filter_eq_nil_iff.mp (children_named_other silent notName notReuse)

theorem wrappers_other : d.wrappers p = [] := by
  rw [wrappers, children_named_other silent notName notReuse]
  rfl

theorem read_slot_other (parent : Parent) : d.readSlot p parent = pure none := by
  rw [readSlot, prop_other silent notName notReuse, wrappers_other silent notName notReuse]
  rfl

theorem read_prefix_other (parent : Parent) : d.readPrefix p parent = pure none := by
  rw [readPrefix, prop_other silent notName notReuse, read_slot_other silent notName notReuse]
  rfl

end Properties

theorem direct_fields_silent (silent : d.Silent) : d.directFields = [] := by
  rw [directFields, List.filter_eq_nil_iff]
  intro child member
  exact identity_fails (silent.children child member) (fun tag => (Kind.ofTag? tag).isSome)
    (by decide)

theorem read_wrapped_other (silent : d.Silent) (notName : p ≠ "name") (notReuse : p ≠ "reuse")
    (parent : Parent) : d.readWrapped p parent = pure none := by
  rw [readWrapped, read_slot_other silent notName notReuse, direct_fields_silent silent]
  rfl

theorem read_condition_other (silent : d.Silent) (notName : p ≠ "name") (notReuse : p ≠ "reuse")
    (lists : Bool) : d.readCondition p lists = .ok none := by
  have noLists : d.node.children.filter (fun c => c.name == "and" || c.name == "or") = [] := by
    rw [List.filter_eq_nil_iff]
    intro child member
    exact identity_fails (silent.children child member) (fun tag => tag == "and" || tag == "or")
      (by decide)
  rw [readCondition, prop_other silent notName notReuse, wrappers_other silent notName notReuse,
    noLists]
  cases lists <;> rfl

theorem read_members_silent (silent : d.Silent) (kind : Kind) (profile : Profile) :
    d.readMembers kind profile = pure [] := by
  have nodes : d.memberNodes = .ok [] := by
    rw [memberNodes, children_named_other silent (by decide) (by decide),
      direct_fields_silent silent]
  rw [readMembers, nodes]
  rfl

theorem replace_members_silent (silent : d.Silent) (kind : Kind) (profile : Profile)
    (members : List Field) : d.replaceMembers kind profile members = pure members := by
  rw [replaceMembers, readReplacements, children_named_other silent (by decide) (by decide)]
  rfl

theorem read_valid_condition_silent (silent : d.Silent) (members : List Field)
    (current : Option Condition) : d.readValidCondition members current = pure current := by
  rw [readValidCondition, has_other silent (by decide) (by decide),
    has_other silent (by decide) (by decide), child_other silent (by decide) (by decide)]
  rfl

theorem attribute_ranges_silent (silent : d.Silent)
    (read : String → String → Except Error Interval) :
    attributeRanges read d.node.attributes = .ok [] := by
  have none : d.node.attributes.filter (fun entry => validProperties.contains entry.1) = [] :=
    List.filter_eq_nil_iff.mpr fun entry member =>
      identity_fails (silent.attributes entry member) validProperties.contains (by decide)
  rw [attributeRanges, none]
  rfl

theorem element_ranges_silent (silent : d.Silent) (profile : Profile)
    (read : String → String → Except Error Interval) :
    d.elementRanges profile read d.node.children = .ok [] := by
  have none : d.node.children.filter (fun elem => validProperties.contains elem.name) = [] :=
    List.filter_eq_nil_iff.mpr fun child member =>
      identity_fails (silent.children child member) validProperties.contains (by decide)
  rw [elementRanges, none]
  rfl

theorem declared_ranges_silent (silent : d.Silent) (profile : Profile)
    (read : String → String → Except Error Interval) :
    d.declaredRanges profile read = .ok [] := by
  rw [declaredRanges, attribute_ranges_silent silent, element_ranges_silent silent]
  rfl

theorem read_default_silent (silent : d.Silent) (read : String → String → Except Error α)
    (current : α) : d.readDefault read current = .ok current := by
  rw [Declaration.readDefault, prop_other silent (by decide) (by decide)]
  rfl

theorem read_default_valid_silent (silent : d.Silent)
    (read : String → String → Except Error α) : d.readDefaultValid read = pure none := by
  rw [readDefaultValid, gated_other silent (by decide) (by decide)]
  rfl

theorem read_non_unique_silent (silent : d.Silent) (current : Bool) :
    d.readNonUniqueSpecials current = pure current := by
  rw [readNonUniqueSpecials, boolProp, prop_as_other silent (by decide) (by decide)]
  rfl

theorem read_endian_silent (silent : d.Silent) (current : Endian) :
    d.readEndian current = .ok current := by
  rw [readEndian, prop_as_other silent (by decide) (by decide), silent.reused]
  rfl

theorem read_bit_length_silent (silent : d.Silent) (isVariable : Bool) (length current : Nat) :
    d.readBitLength isVariable length current = pure 0 := by
  rw [readBitLength, not_in_bitfield silent, has_other silent (by decide) (by decide)]
  rfl

theorem read_int_type_silent (silent : d.Silent) (type : IntType) (allowed : IntType → Bool) :
    d.readIntType (some type) allowed = .ok type := by
  rw [readIntType, prop_other silent (by decide) (by decide)]
  rfl

theorem read_length_silent (silent : d.Silent) (type : IntType) {current : Nat}
    (sized : current ≠ 0) : d.readLength type current = .ok current := by
  have kept : (d.reused && current != 0) = true := by
    rw [silent.reused, Bool.true_and, bne_iff_ne]
    exact sized
  rw [readLength, natProp, prop_as_other silent (by decide) (by decide), kept]
  rfl

theorem read_storage_silent (silent : d.Silent) {s : Storage} {type : IntType}
    (typed : s.type = some type) (sized : s.length ≠ 0) (whole : s.bitLength = 0) :
    (d.readStorage s).outcome = .ok (type, s) := by
  obtain ⟨_, endian, length, _⟩ := s
  simp only at typed sized whole
  subst typed whole
  simp only [readStorage, Build.bind_ok, Build.lift_outcome, Build.pure_outcome, if_true,
    read_int_type_silent silent, read_endian_silent silent, read_length_silent silent type sized,
    read_bit_length_silent silent, Except.ok.injEq, exists_eq_left']

theorem read_profile_silent (silent : d.Silent) {name : String} {c profile : Profile}
    (named : d.prop "name" = .ok (some name))
    (read : (d.readProfile c).outcome = .ok profile) : profile = { c with name } := by
  have called : d.text "name" c.name = .ok name := by
    rw [text, named]
    rfl
  simp only [readProfile, readOverrides, readCodeSource, readCopySource, readWindow, readRemoved,
    natProp, called, text_other silent, flag_other silent, prop_as_other silent,
    gated_flag_other silent, warn_deprecated_other silent, read_override_other silent,
    gated_other silent, not_versioned silent, Build.bind_ok, Build.lift_outcome,
    Build.pure_outcome, Except.ok.injEq, exists_eq_left', Bool.not_false, Bool.false_eq_true,
    if_true, if_false, Option.getD_none, Option.none_or, ne_eq, String.reduceEq,
    not_false_eq_true] at read
  obtain ⟨window, ⟨_, -, rfl⟩, _, -, _, -, rfl⟩ := read
  rfl

end Declaration

open Declaration

namespace IntSpec

def refit (spec : IntSpec) : IntSpec :=
  { spec with
    defaultValue :=
      if spec.holds spec.defaultValue then spec.defaultValue
      else min (max spec.least 0) spec.greatest }

theorem with_range_settled {type : IntType} {spec : IntSpec} (settled : spec.Settled type) :
    withRange spec type = spec.refit := by
  have notBelow : (spec.defaultValue < spec.least ∨ spec.greatest < spec.defaultValue) ↔
      ¬ spec.holds spec.defaultValue = true := by
    rw [holds_iff]
    omega
  simp only [withRange, refit, ← settled.least, ← settled.greatest, notBelow, ite_not]

theorem read_silent {d : Declaration} (silent : d.Silent) {profile : Profile} {type : IntType}
    {spec later : IntSpec} (settled : spec.Settled type) (whole : spec.storage.bitLength = 0)
    (done : (read d profile spec).outcome = .ok later) : later = spec.refit := by
  have stored := read_storage_silent silent settled.typed settled.sized whole
  have ranged : withRange { spec with
      storage := spec.storage, scaling := spec.scaling, serOffset := spec.serOffset } type =
      spec.refit := with_range_settled settled
  have merged : spec.refit.validRanges = Interval.merge ⟨.integral, spec.refit.validCheckVersion⟩
      (if spec.refit.declaredRanges.isEmpty then [spec.refit.whole]
        else spec.refit.declaredRanges) := settled.merged
  have scaled : readScaling d spec.scaling = .ok spec.scaling := by
    rw [readScaling, prop_other silent (by decide) (by decide)]
    rfl
  have named (profile : Profile) (start : IntSpec) : readSpecials d profile start = .ok start := by
    rw [readSpecials, readNamedValues, children_named_other silent (by decide) (by decide)]
    rfl
  simp only [read, readValidRanges, natProp, stored, scaled, named, ranged, prop_as_other silent,
    flag_other silent, read_non_unique_silent silent, read_default_silent silent,
    declared_ranges_silent silent, read_default_valid_silent silent, gated_flag_other silent,
    warn_deprecated_other silent, Build.bind_ok, Build.lift_outcome, Build.pure_outcome,
    Except.ok.injEq, exists_eq_left', exists_const, Option.getD_none, Option.map_none,
    Option.toList_none, List.append_nil, ne_eq, String.reduceEq, not_false_eq_true] at done
  obtain ⟨-, rfl⟩ := done
  rw [IntSpec.whole] at merged
  rw [← merged]

end IntSpec

namespace EnumSpec

theorem read_silent {d : Declaration} (silent : d.Silent) {profile : Profile} {type : IntType}
    {spec later : EnumSpec} (settled : spec.Settled type) (whole : spec.storage.bitLength = 0)
    (done : (read d profile spec).outcome = .ok later) : later = spec := by
  have stored := read_storage_silent silent settled.typed settled.sized whole
  have named (profile : Profile) (start : EnumSpec) : readValues d profile start = .ok start := by
    rw [readValues, readNamedValues, children_named_other silent (by decide) (by decide)]
    rfl
  have assigned (current : Bool) : readHexAssign d type current = .ok current := by
    rw [readHexAssign, boolProp, prop_as_other silent (by decide) (by decide)]
    rfl
  simp only [read, stored, named, assigned, flag_other silent, read_default_silent silent,
    gated_flag_other silent, Build.bind_ok, Build.lift_outcome, Except.ok.injEq, exists_eq_left',
    ne_eq, String.reduceEq, not_false_eq_true] at done
  split at done
  · cases done
  · simp only [Build.bind_ok, Build.lift_outcome, Build.pure_outcome, Except.ok.injEq,
      exists_eq_left'] at done
    rw [← done, ← settled.least, ← settled.greatest, ← settled.merged]

end EnumSpec

theorem SetSpec.read_silent {d : Declaration} (silent : d.Silent) {profile : Profile}
    {spec later : SetSpec} (whole : spec.storage.bitLength = 0)
    (done : (read d profile spec).outcome = .ok later) : later = spec := by
  have named (profile : Profile) (start : SetSpec) : readBits d profile start = .ok start := by
    rw [readBits, children_named_other silent (by decide) (by decide)]
    rfl
  simp only [read, readTypeLength, readUntypedLength, natProp, named, has_other silent,
    prop_as_other silent, not_in_bitfield silent, read_bit_length_silent silent,
    read_endian_silent silent, flag_other silent, gated_flag_other silent, Build.bind_ok,
    except_bind_ok, Build.lift_outcome, Build.pure_outcome, Except.ok.injEq, exists_eq_left',
    ne_eq, String.reduceEq, not_false_eq_true, Bool.false_eq_true, if_false] at done
  obtain ⟨_, ⟨length, sized, rfl⟩, rfl⟩ := done
  split at sized
  · cases sized
    rw [← whole]
  · cases sized

namespace FloatSpec

theorem read_silent {d : Declaration} (silent : d.Silent) {profile : Profile} {type : FloatType}
    {spec later : FloatSpec} (typed : spec.type = some type)
    (done : (read d profile spec).outcome = .ok later) :
    later = { spec with
      declaredRanges := spec.declaredRanges ++
        if spec.validFullRange then [Interval.full type] else []
      validRanges := Interval.merge ⟨.real, spec.validCheckVersion⟩ (spec.declaredRanges ++
        if spec.validFullRange then [Interval.full type] else []) } := by
  have named (profile : Profile) (start : FloatSpec) : readSpecials d profile start = .ok start := by
    rw [readSpecials, readNamedValues, children_named_other silent (by decide) (by decide)]
    rfl
  have kept : readType d spec.type = .ok type := by
    rw [readType, prop_as_other silent (by decide) (by decide), typed]
    simp [bind, Except.bind]
  simp only [read, readValidRanges, natProp, named, kept, warn_if_outcome, read_endian_silent silent,
    prop_as_other silent, flag_other silent, read_non_unique_silent silent,
    read_default_silent silent, declared_ranges_silent silent, read_default_valid_silent silent,
    warn_deprecated_other silent, Build.bind_ok, Build.lift_outcome, Build.pure_outcome,
    Except.ok.injEq, exists_eq_left', exists_const, Option.getD_none, Option.map_none,
    Option.toList_none, List.append_nil, ne_eq, String.reduceEq, not_false_eq_true] at done
  obtain ⟨-, rfl⟩ := done
  rw [typed]
  rfl

end FloatSpec

namespace Declaration

theorem read_valid_values_silent {α : Type} {d : Declaration} (silent : d.Silent)
    (profile : Profile) (kind : Kind) (read : String → String → Except Error α)
    (lt : α → α → Bool) (defaultValue : α) (current : List (Versioned α)) :
    d.readValidValues profile kind read lt defaultValue current = pure (defaultValue, current) := by
  have none : d.node.attributes.filter (fun entry => entry.1 == "validValue") = [] := by
    rw [List.filter_eq_nil_iff]
    intro entry member
    exact identity_fails (silent.attributes entry member) (· == "validValue") (by decide)
  have texts : d.validTexts profile = .ok [] := by
    rw [validTexts, none, children_named_other silent (by decide) (by decide)]
    rfl
  rw [readValidValues, texts, has_other silent (by decide) (by decide)]
  rfl

theorem read_contents_silent {α : Type} {d : Declaration} (silent : d.Silent)
    (profile : Profile) (kind : Kind) (read : String → String → Except Error α)
    (lt : α → α → Bool) (defaultValue : α) (current : List (Versioned α)) :
    d.readContents profile kind read lt defaultValue current = pure (defaultValue, current) := by
  rw [readContents, read_default_silent silent]
  exact read_valid_values_silent silent profile kind read lt defaultValue current

theorem read_fixed_length_silent {d : Declaration} (silent : d.Silent) :
    d.readFixedLength = .ok none := by
  rw [readFixedLength, readPositive, natProp, prop_as_other silent (by decide) (by decide)]
  rfl

end Declaration

theorem StringSpec.read_silent {d : Declaration} (silent : d.Silent) (profile : Profile)
    (spec : StringSpec Field) : (read d profile spec).outcome = .ok spec := by
  simp only [read, readDelimiter, boolProp, read_fixed_length_silent silent, prop_other silent,
    prop_as_other silent, read_prefix_other silent, read_contents_silent silent,
    Build.bind_ok, Build.lift_outcome, Build.pure_outcome, Except.ok.injEq, exists_eq_left',
    Option.getD_none, ne_eq, String.reduceEq, not_false_eq_true]

theorem DataSpec.read_silent {d : Declaration} (silent : d.Silent) (profile : Profile)
    (spec : DataSpec Field) : (read d profile spec).outcome = .ok spec := by
  simp only [read, readDelimiter, read_fixed_length_silent silent, read_prefix_other silent,
    read_contents_silent silent, Build.bind_ok, Build.lift_outcome, Build.pure_outcome,
    Except.ok.injEq, exists_eq_left', ne_eq, String.reduceEq, not_false_eq_true]

namespace ListSpec

theorem read_repetition_silent {d : Declaration} (silent : d.Silent) (parent : Parent)
    (current : Repetition Field) : (readRepetition d parent current).outcome = .ok current := by
  have counted : readCount d = .ok none := by
    rw [readCount, readPositive, natProp, prop_as_other silent (by decide) (by decide)]
    rfl
  have ended : readTerminator d parent = pure none := by
    rw [readTerminator, has_other silent (by decide) (by decide),
      child_other silent (by decide) (by decide)]
    rfl
  simp only [readRepetition, counted, ended, read_prefix_other silent, Build.bind_ok,
    Build.lift_outcome, Build.pure_outcome, Except.ok.injEq, exists_eq_left', ne_eq,
    String.reduceEq, not_false_eq_true]

theorem read_silent {d : Declaration} (silent : d.Silent) {profile : Profile}
    {spec later : ListSpec Field} (done : (read d profile spec).outcome = .ok later) :
    later = spec := by
  simp only [read, read_wrapped_other silent, Build.bind_ok, Build.pure_outcome,
    Except.ok.injEq, exists_eq_left', Option.none_or, ne_eq, String.reduceEq,
    not_false_eq_true] at done
  split at done
  · nomatch done
  · rename_i element held
    simp only [read_repetition_silent silent, flag_other silent, read_prefix_other silent,
      Build.bind_ok, Build.lift_outcome, Build.pure_outcome, Except.ok.injEq, exists_eq_left',
      Option.none_or, ne_eq, String.reduceEq, not_false_eq_true] at done
    obtain ⟨_, -, _, -, rfl⟩ := done
    rw [← held]

end ListSpec

theorem OptionalSpec.read_silent {d : Declaration} (silent : d.Silent) {profile : Profile}
    {spec later : OptionalSpec Field} (done : (read d profile spec).outcome = .ok later) :
    later = spec := by
  simp only [read, prop_as_other silent, warn_deprecated_other silent, gated_flag_other silent,
    read_wrapped_other silent, Build.bind_ok, Build.lift_outcome, Build.pure_outcome,
    Except.ok.injEq, exists_eq_left', Option.none_or, Option.getD_none, ne_eq, String.reduceEq,
    not_false_eq_true] at done
  obtain ⟨_, -, rest⟩ := done
  split at rest
  · nomatch rest
  · rename_i inner held
    simp only [readExistence, read_condition_other silent, Build.bind_ok, Build.lift_outcome,
      Build.pure_outcome, Except.ok.injEq, exists_eq_left', ne_eq, String.reduceEq,
      not_false_eq_true] at rest
    rw [← rest, ← held]

theorem RefSpec.read_silent {d : Declaration} (silent : d.Silent) {profile profile' : Profile}
    {spec later : RefSpec Field} (whole : spec.bitLength = 0)
    (done : (read d profile spec).outcome = .ok (profile', later)) :
    later = spec ∧
      ∃ handle, spec.target = some handle ∧ profile' = inherit profile handle.target := by
  simp only [read, readTarget, prop_other silent, read_bit_length_silent silent, Build.bind_ok,
    Build.lift_outcome, Build.pure_outcome, except_bind_ok, Except.ok.injEq, exists_eq_left',
    ne_eq, String.reduceEq, not_false_eq_true, Prod.mk.injEq] at done
  obtain ⟨handle, ofTarget, rfl, rfl⟩ := done
  split at ofTarget
  · rename_i held
    cases ofTarget
    exact ⟨by rw [← held, ← whole], handle, held, rfl⟩
  · cases ofTarget

/-- Members that have the window of the bitfield keep it. -/
theorem BitfieldSpec.read_silent {d : Declaration} (silent : d.Silent) {profile : Profile}
    {spec later : BitfieldSpec Field} (windows : ∀ m ∈ spec.members, m.window = profile.window)
    (done : (read d profile spec).outcome = .ok later) : later = spec := by
  have kept : spec.members.map (fun m => m.withWindow profile.window) = spec.members := by
    rw [List.map_congr_left (g := id), List.map_id]
    intro m member
    rw [← windows m member]
    cases m
    rfl
  simp only [read, BitfieldSpec.readMembers, takeMembers, silent.reused, kept,
    read_endian_silent silent, read_members_silent silent, replace_members_silent silent,
    read_valid_condition_silent silent, Build.bind_ok, Build.lift_outcome, Build.pure_outcome,
    Except.ok.injEq, exists_eq_left', if_true] at done
  obtain ⟨_, ⟨_, -, rfl⟩, _, -, _, -, _, -, rfl⟩ := done
  rfl

theorem BundleSpec.read_silent {d : Declaration} (silent : d.Silent) {profile : Profile}
    {spec later : BundleSpec Field}
    (kept : Field.adopt profile.window.since spec.members = spec.members)
    (done : (read d profile spec).outcome = .ok later) : later = spec := by
  have aliased (members : List Field) (aliases : List Alias) :
      readAliases d members aliases = .ok aliases := by
    rw [readAliases, children_named_other silent (by decide) (by decide)]
    rfl
  simp only [read, BundleSpec.readMembers, takeMembers, boolProp, silent.reused, kept, aliased,
    prop_as_other silent, read_members_silent silent, replace_members_silent silent,
    read_valid_condition_silent silent, Build.bind_ok, Build.lift_outcome, Build.pure_outcome,
    Except.ok.injEq, exists_eq_left', if_true, ne_eq, String.reduceEq, not_false_eq_true,
    Option.getD_none] at done
  obtain ⟨_, ⟨_, -, rfl⟩, _, -, _, -, _, -, _, -, rfl⟩ := done
  rfl

theorem VariantSpec.read_silent {d : Declaration} (silent : d.Silent) {profile : Profile}
    {spec later : VariantSpec Field}
    (kept : Field.adopt profile.window.since spec.members = spec.members)
    (done : (read d profile spec).outcome = .ok later) : later = spec := by
  have chosen (members : List Field) (current : Option Nat) :
      readDefaultMember d members current = .ok current := by
    rw [readDefaultMember, prop_other silent (by decide) (by decide)]
    rfl
  simp only [read, silent.reused, kept, chosen, has_other silent, read_members_silent silent,
    replace_members_silent silent, Build.bind_ok, Build.lift_outcome, Build.pure_outcome,
    Except.ok.injEq, exists_eq_left', if_true, if_false, List.append_nil, ne_eq,
    String.reduceEq, not_false_eq_true, Bool.false_eq_true] at done
  obtain ⟨_, -, _, -, rfl⟩ := done
  rfl

end WireSchema
