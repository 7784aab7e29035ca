import WireSchema.Proofs.Inheritance
import WireSchema.Proofs.Removal

/-!
What a field that reuses another one cannot change: its kind, its type, what says where it ends, and
the names of its members. A setting of the end can be declared again with another value, but not
another setting, and there is never more than one.
-/

namespace WireSchema

open Markup (Node)

def Delimiter.settings {α : Type} : Delimiter α → List String
  | .unbounded => []
  | .fixed _ => ["length"]
  | .prefixed _ => ["lengthPrefix"]
  | .zeroTerminated => ["zeroTermSuffix"]

def Repetition.settings {α : Type} : Repetition α → List String
  | .unbounded => []
  | .count _ => ["count"]
  | .countPrefix _ => ["countPrefix"]
  | .lengthPrefix _ => ["lengthPrefix"]
  | .termSuffix _ => ["termSuffix"]

namespace Payload

def settings : Payload Field → List String
  | .string spec => spec.delimiter.settings
  | .data spec => spec.delimiter.settings
  | .list spec => spec.repetition.settings
  | _ => []

theorem blank_settings (kind : Kind) : (blank kind : Payload Field).settings = [] := by
  cases kind <;> rfl

/-- Stored as the source is, by a field that starts with the version `since`: with the same type,
the same setting of the end, or members of the same names. -/
def StoredAs (since : Nat) : Payload Field → Payload Field → Prop
  | .int source, .int spec => spec.storage.type = source.storage.type
  | .float source, .float spec => spec.type = source.type
  | .enum source, .enum spec => spec.storage.type = source.storage.type
  | .set source, .set spec =>
      source.storage.type ≠ none → spec.storage.type = source.storage.type
  | .bitfield source, .bitfield spec =>
      spec.members.map Field.name = source.members.map Field.name
  | .bundle source, .bundle spec =>
      let stays (m : Field) : Bool := !(m.profile.removed && m.window.deprecated ≤ since)
      spec.members.map Field.name = (source.members.filter stays).map Field.name
  | .string source, .string spec => spec.delimiter.settings = source.delimiter.settings
  | .data source, .data spec => spec.delimiter.settings = source.delimiter.settings
  | .list source, .list spec => spec.repetition.settings = source.repetition.settings
  | .ref _, .ref _ => True
  | .optional _, .optional _ => True
  | .variant _, .variant _ => True
  | _, _ => False

end Payload

namespace Properties

def declares (props : Properties) (node : Node) (name : String) : Bool :=
  props.contains name || (node.childrenNamed name).any fun child => !child.children.isEmpty

def sets (props : Properties) (name : String) : Bool :=
  (props.get? name).bind Literal.boolean? == some true

end Properties

namespace Kind

def propertiesOf (kind : Kind) (node : Node) : Properties :=
  (Properties.ofNode node kind.allProperties).toOption.getD {}

def declaredSettings (kind : Kind) (ctx : Context) (node : Node) : List String :=
  let props := kind.propertiesOf node
  match kind with
  | .string =>
      ["length"].filter props.contains ++ ["lengthPrefix"].filter (props.declares node) ++
        ["zeroTermSuffix"].filter props.sets
  | .data =>
      ["length"].filter props.contains ++ ["lengthPrefix"].filter (props.declares node)
  | .list =>
      ["count"].filter props.contains ++
        ["countPrefix", "lengthPrefix"].filter (props.declares node) ++
        ["termSuffix"].filter fun name => props.declares node name && ctx.supportsProperty name
  | _ => []

def reusedSettings (kind : Kind) (env : Environment) (node : Node) : List String :=
  (((kind.propertiesOf node).get? "reuse").bind env.find?).elim [] fun handle =>
    handle.target.payload.settings

end Kind

namespace Declaration

variable {d : Declaration}

theorem prop_given {name : String} {value : Option String} (read : d.prop name = .ok value) :
    d.has name = value.isSome := by
  rw [has_eq, Properties.single_ok read]

theorem prop_as_given {α : Type} {name : String} {reader : String → Option α} {value : Option α}
    (read : d.propAs name reader = .ok value) :
    d.has name = value.isSome ∧ (d.props.get? name).bind reader = value := by
  simp only [propAs, except_bind_ok] at read
  obtain ⟨raw, ofRaw, rest⟩ := read
  rw [prop_given ofRaw, ← Properties.single_ok ofRaw]
  cases raw with
  | none =>
      cases rest
      exact ⟨rfl, rfl⟩
  | some raw =>
      obtain ⟨result, accepted, rfl⟩ := except_map_ok.mp rest
      exact ⟨rfl, accept_ok accepted⟩

theorem declares_eq (d : Declaration) (name : String) :
    d.props.declares d.node name = (d.has name || !(d.wrappers name).isEmpty) := by
  rw [Properties.declares, has, wrappers, Bool.eq_iff_iff]
  simp

theorem read_slot_given {name : String} {parent : Parent} {slot : Option (Slot Field)}
    (read : (d.readSlot name parent).outcome = .ok slot) :
    d.props.declares d.node name = slot.isSome := by
  simp only [readSlot, Build.bind_ok, Build.lift_outcome] at read
  obtain ⟨ref, ofRef, rest⟩ := read
  rw [declares_eq, prop_given ofRef]
  -- Neither a reference nor a wrapper, a reference alone, one wrapper, or too many.
  split at rest
  · rename_i none
    cases rest
    rw [none]
    rfl
  · simp only [Build.bind_ok, Build.pure_outcome, Except.ok.injEq] at rest
    obtain ⟨_, -, rfl⟩ := rest
    rfl
  · rename_i one
    rw [one]
    split at rest
    · simp only [Build.bind_ok, Build.pure_outcome, Except.ok.injEq] at rest
      obtain ⟨_, -, rfl⟩ := rest
      rfl
    · cases rest
  · cases rest

theorem read_prefix_given {name : String} {parent : Parent} {lead : Option (Prefix Field)}
    (read : (d.readPrefix name parent).outcome = .ok lead) :
    d.props.declares d.node name = lead.isSome := by
  simp only [readPrefix, Build.bind_ok, Build.lift_outcome] at read
  obtain ⟨ref, ofRef, rest⟩ := read
  split at rest
  · rename_i sibling marked
    obtain ⟨raw, rfl, -⟩ := Option.bind_eq_some_iff.mp marked
    simp only [Build.bind_ok, Build.pure_outcome, Except.ok.injEq] at rest
    obtain ⟨_, -, rfl⟩ := rest
    rw [declares_eq, prop_given ofRef]
    rfl
  · simp only [Build.bind_ok] at rest
    obtain ⟨slot, ofSlot, rest⟩ := rest
    rw [read_slot_given ofSlot]
    split at rest
    · cases rest
      rfl
    · split at rest
      · cases rest
        rfl
      · cases rest

theorem read_fixed_length_given {length : Option Nat} (read : d.readFixedLength = .ok length) :
    d.has "length" = length.isSome :=
  (prop_as_given (read_positive_ok read).1).1

end Declaration

namespace ListSpec

variable {d : Declaration}

theorem read_count_given {count : Option Nat} (read : readCount d = .ok count) :
    d.has "count" = count.isSome :=
  (Declaration.prop_as_given (Declaration.read_positive_ok read).1).1

theorem read_terminator_given {parent : Parent} {tail : Option (Prefix Field)}
    (read : (readTerminator d parent).outcome = .ok tail) :
    (d.props.declares d.node "termSuffix" && d.context.supportsProperty "termSuffix") =
      tail.isSome := by
  unfold readTerminator at read
  split at read
  · -- No wrapper at all is more than no wrapper with a field in it.
    rename_i absent
    simp only [Bool.and_eq_true, Bool.not_eq_true'] at absent
    obtain ⟨unsaid, childless⟩ := absent
    have none : d.wrappers "termSuffix" = [] := by
      rw [Option.isNone_iff_eq_none, Node.child?, List.find?_eq_none] at childless
      rw [Declaration.wrappers, Node.childrenNamed, List.filter_eq_nil_iff.mpr childless]
      rfl
    cases read
    rw [Declaration.declares_eq, unsaid, none]
    rfl
  · split at read
    · rename_i unsupported
      simp only [Build.bind_ok, Build.pure_outcome, Except.ok.injEq] at read
      obtain ⟨_, -, rfl⟩ := read
      rw [Bool.not_eq_true'] at unsupported
      rw [unsupported, Bool.and_false]
      rfl
    · rename_i supported
      rw [Bool.not_eq_true', Bool.not_eq_false] at supported
      rw [supported, Bool.and_true]
      simp only [Build.bind_ok, Build.lift_outcome] at read
      obtain ⟨ref, ofRef, rest⟩ := read
      split at rest
      · rename_i sibling marked
        obtain ⟨raw, rfl, -⟩ := Option.bind_eq_some_iff.mp marked
        simp only [Build.bind_ok, Build.pure_outcome, Except.ok.injEq] at rest
        obtain ⟨_, -, rfl⟩ := rest
        rw [Declaration.declares_eq, Declaration.prop_given ofRef]
        rfl
      · simp only [Build.bind_ok, Build.pure_outcome, Except.ok.injEq] at rest
        obtain ⟨slot, ofSlot, rfl⟩ := rest
        rw [Declaration.read_slot_given ofSlot, Option.isSome_map]

end ListSpec

/-- At most one setting is declared, and it is the active one; where none is, those of the start
are. -/
structure OneOrKept (declared start active : List String) : Prop where
  once : declared.length ≤ 1
  active : active = if declared = [] then start else declared

theorem OneOrKept.active_le_one {declared start active : List String}
    (chosen : OneOrKept declared start active) (before : start.length ≤ 1) :
    active.length ≤ 1 := by
  rw [chosen.active]
  split
  · exact before
  · exact chosen.once

section Settings

variable {d : Declaration}

theorem Declaration.delimits_settings {current later : Delimiter Field} {length : Option Nat}
    {lead : Option (Prefix Field)} {zero : Bool} (ends : d.Delimits current length lead zero later)
    {isNumber isPart isSet : String → Bool} (number : isNumber "length" = length.isSome)
    (part : isPart "lengthPrefix" = lead.isSome) (flag : isSet "zeroTermSuffix" = zero) :
    OneOrKept (["length"].filter isNumber ++ ["lengthPrefix"].filter isPart ++
      ["zeroTermSuffix"].filter isSet) current.settings later.settings := by
  cases ends <;> constructor <;> simp [number, part, flag, Delimiter.settings]

theorem ListSpec.repeats_settings {current later : Repetition Field} {count : Option Nat}
    {countPrefix lengthPrefix termSuffix : Option (Prefix Field)}
    (ends : Repeats d current count countPrefix lengthPrefix termSuffix later)
    {isNumber isPart isTail : String → Bool} (number : isNumber "count" = count.isSome)
    (counts : isPart "countPrefix" = countPrefix.isSome)
    (lengths : isPart "lengthPrefix" = lengthPrefix.isSome)
    (tail : isTail "termSuffix" = termSuffix.isSome) :
    OneOrKept (["count"].filter isNumber ++ ["countPrefix", "lengthPrefix"].filter isPart ++
      ["termSuffix"].filter isTail) current.settings later.settings := by
  cases ends <;> constructor <;>
    simp [number, counts, lengths, tail, Repetition.settings]

theorem Payload.read_settings {profile : Profile} {start : Payload Field} {f : Field}
    (reads : d.ReadsAs profile start f)
    (properties : Properties.ofNode d.node f.kind.allProperties = .ok d.props) :
    OneOrKept (f.kind.declaredSettings d.context d.node) start.settings f.payload.settings := by
  have props : f.kind.propertiesOf d.node = d.props := by
    rw [Kind.propertiesOf, properties]
    rfl
  unfold Kind.declaredSettings
  simp only [props]
  cases reads with
  | string done =>
      obtain ⟨_, _, zero, ofLength, ofLead, ofZero, ends⟩ :=
        StringSpec.read_delimiter_ok (StringSpec.read_ok done).1
      have flag : d.props.sets "zeroTermSuffix" = zero.getD false := by
        rw [Properties.sets, (Declaration.prop_as_given ofZero).2]
        cases zero <;> simp
      exact Declaration.delimits_settings ends (Declaration.read_fixed_length_given ofLength)
        (Declaration.read_prefix_given ofLead) flag
  | data done =>
      obtain ⟨_, _, ofLength, ofLead, ends⟩ :=
        DataSpec.read_delimiter_ok (DataSpec.read_ok done).1
      -- Data ends as a text does that has no closing zero.
      have chosen : OneOrKept (["length"].filter d.props.contains ++
          ["lengthPrefix"].filter (d.props.declares d.node) ++
          ["zeroTermSuffix"].filter fun _ => false) _ _ :=
        Declaration.delimits_settings ends (Declaration.read_fixed_length_given ofLength)
          (Declaration.read_prefix_given ofLead) rfl
      have none : ["zeroTermSuffix"].filter (fun _ => false) = [] := rfl
      rw [none, List.append_nil] at chosen
      exact chosen
  | list done =>
      have ofRepetition := ListSpec.read_ends done
      obtain ⟨_, _, _, _, ofCount, ofCounts, ofLengths, ofTail, ends⟩ :=
        ListSpec.read_repetition_ok ofRepetition
      exact ListSpec.repeats_settings ends (ListSpec.read_count_given ofCount)
        (Declaration.read_prefix_given ofCounts) (Declaration.read_prefix_given ofLengths)
        (ListSpec.read_terminator_given ofTail)
  | _ => exact ⟨Nat.zero_le 1, rfl⟩

/-- Whatever is declared over a start with at most one setting leaves at most one. -/
theorem Payload.settings_law : Field.Law fun _ f => f.payload.settings.length ≤ 1 where
  grown _ once := once
  lifted _ once := once
  packed _ _ _ _ once := once
  made makes _ found := by
    obtain ⟨profile, -, reads⟩ := Declaration.makes_reads makes
    apply (Payload.read_settings reads makes.properties).active_le_one
    rcases Declaration.makes_source makes with ⟨-, blank⟩ | ⟨-, ref, handle, hit, copied⟩
    · rw [blank, Payload.blank_settings]
      exact Nat.zero_le 1
    · rw [copied]
      exact found ref handle hit

end Settings

section Kept

variable {d : Declaration}

theorem Declaration.read_int_type_kept {type before : IntType} {allowed : IntType → Bool}
    (read : d.readIntType (some before) allowed = .ok type) (reused : d.reused = true) :
    type = before := by
  simp only [readIntType, except_bind_ok] at read
  obtain ⟨declared, -, rest⟩ := read
  cases declared with
  | none =>
      cases rest
      rfl
  | some raw =>
      simp only [except_bind_ok] at rest
      obtain ⟨own, -, rest⟩ := rest
      obtain ⟨rfl, same⟩ := unchanged_ok rest
      exact (same reused).symm

theorem Declaration.read_storage_kept {s later : Storage} {type before : IntType}
    (read : (d.readStorage s).outcome = .ok (type, later)) (typed : s.type = some before)
    (reused : d.reused = true) : later.type = s.type := by
  simp only [readStorage, Build.bind_ok, Build.lift_outcome, Build.pure_outcome, Except.ok.injEq,
    Prod.mk.injEq] at read
  obtain ⟨own, ofType, _, -, _, -, _, -, rfl, rfl⟩ := read
  rw [typed] at ofType ⊢
  exact congrArg some (read_int_type_kept ofType reused)

theorem SetSpec.read_type_kept {s : Storage} {type : Option IntType} {length : Nat}
    {before : IntType} (read : readTypeLength d s = .ok (type, length))
    (typed : s.type = some before) (reused : d.reused = true) : type = s.type := by
  cases read_type_length_sizes read with
  | typed _ ofType =>
      rw [typed] at ofType ⊢
      exact congrArg some (Declaration.read_int_type_kept ofType reused)
  | declared | kept | counted => rfl

theorem FloatSpec.read_type_kept {type before : FloatType}
    (read : readType d (some before) = .ok type) (reused : d.reused = true) : type = before := by
  simp only [readType, except_bind_ok] at read
  obtain ⟨declared, -, rest⟩ := read
  cases declared <;>
    · simp only [except_bind_ok, Except.ok.injEq] at rest
      obtain ⟨_, rfl, rest⟩ := rest
      obtain ⟨rfl, same⟩ := Declaration.unchanged_ok rest
      exact (same reused).symm

def Payload.Typed : Payload Field → Prop
  | .int spec => ∃ type, spec.storage.type = some type
  | .float spec => ∃ type, spec.type = some type
  | .enum spec => ∃ type, spec.storage.type = some type
  | _ => True

theorem Payload.typed_law : Field.Law fun _ f => f.payload.Typed where
  grown _ typed := typed
  lifted _ typed := typed
  packed _ _ _ _ typed := typed
  made makes _ _ := by
    obtain ⟨profile, -, reads⟩ := Declaration.makes_reads makes
    generalize Field.payload _ = payload at reads
    cases reads with
    | int done =>
        obtain ⟨type, _, _, settled, -⟩ := IntSpec.read_ok done
        exact ⟨type, settled.typed⟩
    | float done =>
        obtain ⟨type, _, -, settled, -⟩ := FloatSpec.read_ok done
        exact ⟨type, settled.typed⟩
    | enum done =>
        obtain ⟨type, _, settled, -⟩ := EnumSpec.read_ok done
        exact ⟨type, settled.typed⟩
    | _ => trivial

theorem Delimiter.settings_of_label {a b : Delimiter Field} (same : a.label = b.label) :
    a.settings = b.settings := by
  cases a <;> cases b <;> simp_all [label, settings]

theorem Repetition.settings_of_label {a b : Repetition Field} (same : a.label = b.label) :
    a.settings = b.settings := by
  cases a <;> cases b <;> simp_all [label, settings]

theorem Declaration.delimits_kept {current later : Delimiter Field} {length : Option Nat}
    {lead : Option (Prefix Field)} {zero : Bool} (ends : d.Delimits current length lead zero later)
    (reused : d.reused = true) : later.settings = current.settings := by
  cases ends with
  | kept => rfl
  | fixed same | prefixed same | zeroTerminated same =>
      exact (Delimiter.settings_of_label (same reused)).symm

theorem ListSpec.repeats_kept {current later : Repetition Field} {count : Option Nat}
    {countPrefix lengthPrefix termSuffix : Option (Prefix Field)}
    (ends : Repeats d current count countPrefix lengthPrefix termSuffix later)
    (reused : d.reused = true) : later.settings = current.settings := by
  cases ends with
  | kept => rfl
  | count same | countPrefix same | lengthPrefix same | termSuffix same =>
      exact (Repetition.settings_of_label (same reused)).symm

/-- Who is removed has an end, so that being gone needs no more than the version of the end. -/
theorem Field.stays_names {since : Nat} {members : List Field}
    (ends : ∀ m ∈ members, m.EndsIfRemoved) :
    (adopt since members).map name = (members.filter fun m =>
      !(m.profile.removed && decide (m.window.deprecated ≤ since))).map name := by
  rw [adopt_names]
  congr 1
  apply List.filter_congr
  intro m member
  rw [isGoneBy, Profile.isDeprecatedRemoved]
  cases removed : m.profile.removed with
  | false => rfl
  | true =>
      have isDeprecated : m.profile.window.isDeprecated = true := ends m member removed
      rw [isDeprecated, Bool.and_true]

/-- One case for each kind: reading over a copy keeps how it is stored. -/
theorem Payload.read_stored {profile : Profile} {start : Payload Field} {f : Field}
    (reads : d.ReadsAs profile start f) (reused : d.reused = true) (typed : start.Typed)
    (ends : ∀ m ∈ start.members, m.EndsIfRemoved) :
    start.StoredAs profile.window.since f.payload := by
  cases reads with
  | int done =>
      obtain ⟨type, isTyped⟩ := typed
      obtain ⟨_, _, _, -, -, stored⟩ := IntSpec.read_ok done
      exact Declaration.read_storage_kept stored isTyped reused
  | float done =>
      obtain ⟨type, isTyped⟩ := typed
      obtain ⟨own, _, ofType, settled, -⟩ := FloatSpec.read_ok done
      rw [isTyped] at ofType
      rw [StoredAs, settled.typed, isTyped, FloatSpec.read_type_kept ofType reused]
  | enum done =>
      obtain ⟨type, isTyped⟩ := typed
      obtain ⟨_, _, -, -, stored⟩ := EnumSpec.read_ok done
      exact Declaration.read_storage_kept stored isTyped reused
  | set done =>
      -- A set without a type may still be given one.
      intro given
      obtain ⟨type, isTyped⟩ := Option.ne_none_iff_exists'.mp given
      exact SetSpec.read_type_kept (SetSpec.read_ok done).1 isTyped reused
  | bitfield done =>
      obtain ⟨_, _, taken, -, replaced, -⟩ := BitfieldSpec.read_parts done
      rw [StoredAs, Field.replace_members_names replaced,
        Declaration.take_members_reused taken reused, List.map_map]
      rfl
  | bundle done =>
      obtain ⟨_, _, _, taken, -, replaced, -⟩ := BundleSpec.read_parts done
      rw [StoredAs, Field.replace_members_names replaced,
        Declaration.take_members_reused taken reused]
      exact Field.stays_names ends
  | string done =>
      obtain ⟨_, _, _, -, -, -, ends⟩ := StringSpec.read_delimiter_ok (StringSpec.read_ok done).1
      exact Declaration.delimits_kept ends reused
  | data done =>
      obtain ⟨_, _, -, -, ends⟩ := DataSpec.read_delimiter_ok (DataSpec.read_ok done).1
      exact Declaration.delimits_kept ends reused
  | list done =>
      have ofRepetition := ListSpec.read_ends done
      obtain ⟨_, _, _, _, -, -, -, -, ends⟩ := ListSpec.read_repetition_ok ofRepetition
      exact ListSpec.repeats_kept ends reused
  | ref | optional | variant => trivial

end Kept

namespace Field

section Found

variable {env : Environment} (grown : env.registry.GrownIn Parent.IsNamespace) {ref : String}
  {handle : Handle Field} (found : env.find? ref = some handle)

include grown found

/-- What every built field has, one that is found has throughout. -/
theorem found_throughout {holds : Registry → Field → Prop} (law : Law holds) :
    handle.target.Throughout (holds env.registry) :=
  Registry.law_of_find (law_throughout law) (Registry.grown_imp (fun _ _ => trivial) grown) found

theorem found_typed : handle.target.payload.Typed :=
  found_throughout grown found Payload.typed_law _ (.refl _)

theorem found_settings : handle.target.payload.settings.length ≤ 1 :=
  found_throughout grown found Payload.settings_law _ (.refl _)

theorem found_members_end : ∀ m ∈ handle.target.members, m.EndsIfRemoved := by
  intro m member
  exact found_throughout grown found ends_if_removed_law m (leads_member member) grown

end Found

/-- A field that reuses a registered one is stored as that one is, whatever else its element says.
With or without reuse, at most one setting of the end is declared and active. -/
theorem reuse_keeps_storage {env : Environment} {tag : String} {node : Node} {parent : Parent}
    {f : Field} (grown : env.registry.GrownIn Parent.IsNamespace)
    (built : (create env tag node parent).outcome = .ok f) :
    (∀ ref, (f.kind.propertiesOf node).get? "reuse" = some ref →
      ∃ handle, env.find? ref = some handle ∧ f.kind = handle.target.kind ∧
        handle.target.payload.StoredAs f.window.since f.payload) ∧
    f.payload.settings.length ≤ 1 ∧
    OneOrKept (f.kind.declaredSettings env.context node) (f.kind.reusedSettings env node)
      f.payload.settings := by
  obtain ⟨d, start, rfl, rfl, -, makes⟩ := create_makes built
  obtain ⟨profile, -, reads⟩ := Declaration.makes_reads makes
  obtain ⟨reuse, ofReuse, reused, started⟩ := makes.started
  have given : (f.kind.propertiesOf d.node).get? "reuse" = reuse := by
    rw [Kind.propertiesOf, makes.properties]
    exact (Properties.single_ok ofReuse).symm
  have chosen := Payload.read_settings reads makes.properties
  rw [Kind.reusedSettings, given]
  rcases (Declaration.start_ok started).2 with
    ⟨rfl, blank, -⟩ | ⟨ref, handle, rfl, -, found, copied⟩
  · rw [blank, Payload.blank_settings] at chosen
    refine ⟨fun ref isRef => ?_, chosen.active_le_one (Nat.zero_le 1), chosen⟩
    cases isRef
  · rw [copied] at chosen
    refine ⟨?_, chosen.active_le_one (found_settings grown found), ?_⟩
    · intro ref' isRef
      cases isRef
      have kept := Declaration.reads_kind reads
      rw [copied] at reads kept
      rw [(Declaration.reads_profile reads).2.1]
      -- The source was built by the same rules, so it has a type, and its removed members an end.
      exact ⟨handle, found, kept, Payload.read_stored reads reused (found_typed grown found)
        (found_members_end grown found)⟩
    · rw [Option.bind_some, found]
      exact chosen

def shrinkingFields : List Node :=
  [⟨"bundle", [("name", "B")],
    [⟨"int", [("name", "a"), ("type", "uint8")], [], "", 1⟩,
      ⟨"int", [("name", "b"), ("type", "uint8"), ("deprecated", "2"), ("removed", "true")], [], "",
        1⟩,
      ⟨"int", [("name", "c"), ("type", "uint8")], [], "", 1⟩], "", 1⟩,
    ⟨"string", [("name", "T"), ("length", "4")], [], "", 1⟩]

def shrinkingSchema : Environment :=
  ⟨{ name := "S", version := 5 }, (Registration.addAll { name := "S", version := 5 }
    { registry := {} } (shrinkingFields.map (Placed.mk ""))).registry, []⟩

def laterBundle : Node :=
  ⟨"bundle", [("name", "n"), ("reuse", "B"), ("sinceVersion", "3")], [], "", 1⟩

def longerText : Node := ⟨"string", [("name", "t"), ("reuse", "T"), ("length", "7")], [], "", 1⟩

theorem later_bundle_keeps_storage :
    (∃ f handle, (create shrinkingSchema "bundle" laterBundle ⟨.message, Window.always⟩).outcome =
        .ok f ∧ shrinkingSchema.find? "B" = some handle ∧ f.members.map name = ["a", "c"] ∧
      handle.target.payload.StoredAs f.window.since f.payload) ∧
    ∃ f handle, (create shrinkingSchema "string" longerText ⟨.message, Window.always⟩).outcome =
        .ok f ∧ shrinkingSchema.find? "T" = some handle ∧ f.maxLength = 7 ∧
      handle.target.payload.StoredAs f.window.since f.payload ∧
      OneOrKept (f.kind.declaredSettings shrinkingSchema.context longerText)
        (f.kind.reusedSettings shrinkingSchema longerText) f.payload.settings := by
  have grown : shrinkingSchema.registry.GrownIn Parent.IsNamespace :=
    Registration.add_all_grown _ (Registry.empty_grown _)
  constructor
  · obtain ⟨f, built, found⟩ := except_any (show
      ((create shrinkingSchema "bundle" laterBundle
        ⟨.message, Window.always⟩).outcome.toOption.any fun f =>
          f.kind = .bundle && f.members.map name = ["a", "c"]) = true by decide +kernel)
    simp only [Bool.and_eq_true, decide_eq_true_eq] at found
    obtain ⟨isBundle, names⟩ := found
    obtain ⟨handle, hit, -, stored⟩ := (reuse_keeps_storage grown built).1 "B" (by
      rw [isBundle]
      decide +kernel)
    exact ⟨f, handle, built, hit, names, stored⟩
  · obtain ⟨f, built, found⟩ := except_any (show
      ((create shrinkingSchema "string" longerText
        ⟨.message, Window.always⟩).outcome.toOption.any fun f =>
          f.kind = .string && f.maxLength = 7) = true by decide +kernel)
    simp only [Bool.and_eq_true, decide_eq_true_eq] at found
    obtain ⟨isString, longer⟩ := found
    obtain ⟨kept, -, chosen⟩ := reuse_keeps_storage grown built
    obtain ⟨handle, hit, -, stored⟩ := kept "T" (by
      rw [isString]
      decide +kernel)
    exact ⟨f, handle, built, hit, longer, stored, chosen⟩

end Field

end WireSchema
