import WireSchema.Proofs.Addressing
import WireSchema.Proofs.Aliases
import WireSchema.Proofs.Reals

/-!
The scopes of names. Whatever is declared under a name is checked against the names that are there
already, those of a copy among them; members that are left out take names away, and replacements keep
them. So in every state that loading leads to, the names in each scope are identifiers and differ:
those of schemas, of the fields of a message or interface, and of all that a field lists by name.
-/

namespace WireSchema

open Markup (Node Event)

section Entries

/-- Reading elements one after another, each under a name that is new among those before it, keeps
the scope. -/
theorem fold_scope {σ : Type} {step : σ → Node → Except Error σ} (names : σ → List String)
    (once : ∀ s node later, step s node = .ok later →
      ∃ name, names later = names s ++ [name] ∧ Name.IsNew (names s) name)
    {nodes : List Node} {start later : σ} (done : nodes.foldlM step start = .ok later)
    (known : Name.Scope (names start)) : Name.Scope (names later) := by
  refine fold_keeps (fun s => Name.Scope (names s)) ?_ known done
  intro s node next scope read
  obtain ⟨name, appended, new⟩ := once s node next read
  rw [appended]
  exact Name.scope_push scope new

variable {d : Declaration} {profile : Profile}

theorem Declaration.read_named_values_scope {α : Type} {entry tag : String}
    {read : List (NamedValue α) → String → Option α}
    {check : List (NamedValue α) → String → α → Except Error Unit}
    {start later : List (NamedValue α)}
    (done : d.readNamedValues profile entry tag read check start = .ok later)
    (known : Name.Scope (start.map NamedValue.name)) :
    Name.Scope (later.map NamedValue.name) := by
  refine fold_scope (fun known => known.map NamedValue.name) ?_ done known
  intro known elem later ofElement
  simp only [except_bind_ok, Except.ok.injEq] at ofElement
  obtain ⟨v, named, rfl⟩ := ofElement
  exact ⟨v.name, List.map_append, (read_named_ok named).2⟩

theorem IntSpec.read_scope {start spec : IntSpec}
    (done : (IntSpec.read d profile start).outcome = .ok spec)
    (known : Name.Scope (start.specials.map NamedValue.name)) :
    Name.Scope (spec.specials.map NamedValue.name) := by
  simp only [IntSpec.read, IntSpec.readSpecials, IntSpec.readValidRanges, Build.bind_ok,
    Build.lift_outcome, Build.pure_outcome, except_bind_ok, Except.ok.injEq] at done
  obtain ⟨_, -, _, -, _, -, _, -, _, ⟨specials, ofSpecials, rfl⟩, _, -, _, -, _, ⟨_, -, _, -, rfl⟩,
    _, -, _, -, _, -, _, -, _, -, _, -, _, -, rfl⟩ := done
  exact Declaration.read_named_values_scope ofSpecials known

theorem FloatSpec.read_scope {start spec : FloatSpec}
    (done : (FloatSpec.read d profile start).outcome = .ok spec)
    (known : Name.Scope (start.specials.map NamedValue.name)) :
    Name.Scope (spec.specials.map NamedValue.name) := by
  simp only [FloatSpec.read, FloatSpec.readSpecials, FloatSpec.readValidRanges, Build.bind_ok,
    Build.lift_outcome, Declaration.warn_if_outcome, Build.pure_outcome, except_bind_ok,
    Except.ok.injEq] at done
  obtain ⟨_, -, _, -, _, -, _, ⟨specials, ofSpecials, rfl⟩, _, -, _, -, _, ⟨_, -, _, -, _, -, rfl⟩,
    _, -, _, -, _, -, _, -, rfl⟩ := done
  exact Declaration.read_named_values_scope ofSpecials known

theorem EnumSpec.read_scope {start spec : EnumSpec}
    (done : (EnumSpec.read d profile start).outcome = .ok spec)
    (known : Name.Scope (start.values.map NamedValue.name)) :
    Name.Scope (spec.values.map NamedValue.name) := by
  simp only [EnumSpec.read, EnumSpec.readValues, Build.bind_ok, Build.lift_outcome,
    except_bind_ok, Except.ok.injEq] at done
  obtain ⟨_, -, _, -, _, -, _, ⟨values, ofValues, rfl⟩, rest⟩ := done
  split at rest
  · cases rest
  · simp only [Build.bind_ok, Build.lift_outcome, Build.pure_outcome, Except.ok.injEq] at rest
    obtain ⟨_, -, _, -, _, -, rfl⟩ := rest
    exact Declaration.read_named_values_scope ofValues known

theorem SetSpec.read_scope {start spec : SetSpec}
    (done : (SetSpec.read d profile start).outcome = .ok spec)
    (known : Name.Scope (start.bits.map SetBit.name)) :
    Name.Scope (spec.bits.map SetBit.name) := by
  obtain ⟨-, -, base, ofBits, kept⟩ := SetSpec.read_ok done
  rw [← kept] at known
  refine fold_scope (fun spec : SetSpec => spec.bits.map SetBit.name) ?_ ofBits known
  intro spec elem later read
  obtain ⟨bit, rfl, new, -⟩ := SetSpec.read_bit_ok read
  exact ⟨bit.name, List.map_append, new⟩

end Entries

namespace Payload

def entries : Payload Field → List String
  | .int spec => spec.specials.map NamedValue.name
  | .float spec => spec.specials.map NamedValue.name
  | .enum spec => spec.values.map NamedValue.name
  | .set spec => spec.bits.map SetBit.name
  | .bundle spec => spec.aliases.map Alias.name
  | _ => []

def names (payload : Payload Field) : List String :=
  payload.members.map Field.name ++ payload.entries

structure WellNamed (payload : Payload Field) : Prop where
  distinct : payload.names.Nodup
  valid : ∀ name ∈ payload.entries, Name.isIdentifier name = true

theorem blank_entries (kind : Kind) : (blank kind : Payload Field).entries = [] := by
  cases kind <;> rfl

theorem entries_scope {payload : Payload Field} (named : payload.WellNamed) :
    Name.Scope payload.entries :=
  ⟨named.valid, (List.nodup_append.mp named.distinct).2.1⟩

theorem well_named_of_entries {payload : Payload Field} (alone : payload.members = [])
    (scope : Name.Scope payload.entries) : payload.WellNamed := by
  refine ⟨?_, scope.valid⟩
  rw [names, alone]
  exact scope.distinct

theorem well_named_of_members {payload : Payload Field} (alone : payload.entries = [])
    (distinct : (payload.members.map Field.name).Nodup) : payload.WellNamed := by
  constructor
  · rw [names, alone, List.append_nil]
    exact distinct
  · rw [alone]
    exact fun name member => absurd member List.not_mem_nil

end Payload

namespace BundleSpec

variable {d : Declaration} {profile : Profile}

/-- The names of the bundle's own aliases are new among its members and the aliases taken over. -/
theorem read_aliases_named {condition : Option Condition} {members : List Field}
    {aliases later : List Alias} (read : readAliases d members aliases = .ok later)
    (named : (Payload.bundle ⟨members, aliases, condition⟩).WellNamed) :
    (Payload.bundle ⟨members, later, condition⟩).WellNamed := by
  refine fold_keeps (fun aliases => (Payload.bundle ⟨members, aliases, condition⟩).WellNamed) ?_
    named read
  intro aliases elem next held ofElement
  obtain ⟨a, rfl, -, identifier, new⟩ := read_alias_ok ofElement
  constructor
  · have pushed := nodup_push held.distinct new
    rwa [Payload.names, Payload.entries, List.append_assoc, ← List.map_singleton,
      ← List.map_append] at pushed
  · rw [Payload.entries, List.map_append, List.forall_mem_append]
    exact ⟨held.valid, List.forall_mem_singleton.mpr identifier⟩

/-- Members that are left out or replaced bring no name that the aliases could clash with. -/
theorem read_named {start spec : BundleSpec Field}
    (done : (BundleSpec.read d profile start).outcome = .ok spec)
    (fresh : d.reused = false → start.aliases = [])
    (named : (Payload.bundle start).WellNamed) : (Payload.bundle spec).WellNamed := by
  obtain ⟨base, _, keeps, based, -, replaced, checked, -, aliased, -⟩ := read_parts done
  refine read_aliases_named aliased ?_
  have without : (Payload.bundle ⟨spec.members, [], spec.validCondition⟩).WellNamed :=
    Payload.well_named_of_members rfl (Declaration.check_members_ok checked).2
  split
  · by_cases reused : d.reused = true
    · -- The names of the members are some of those at the source, in front of the same aliases.
      cases Declaration.take_members_reused based reused
      refine ⟨?_, named.valid⟩
      have sub : (spec.members.map Field.name).Sublist (start.members.map Field.name) := by
        rw [Field.replace_members_names replaced, Field.adopt_names]
        exact List.filter_sublist.map Field.name
      exact (sub.append_right _).nodup named.distinct
    · -- Without a source there are no aliases to take over.
      rw [fresh (Bool.eq_false_iff.mpr reused)]
      exact without
  · exact without

end BundleSpec

/-- Reading a declaration over a copy of a field, or over nothing, keeps names apart. -/
theorem Payload.read_well_named {d : Declaration} {profile : Profile} {payload : Payload Field}
    {f : Field} (reads : d.ReadsAs profile payload f)
    (fresh : d.reused = false → payload.entries = []) (named : payload.WellNamed) :
    f.payload.WellNamed := by
  have distinct := read_members_distinct reads
  cases reads with
  | int done =>
      exact well_named_of_entries rfl (IntSpec.read_scope done (entries_scope named))
  | float done =>
      exact well_named_of_entries rfl (FloatSpec.read_scope done (entries_scope named))
  | enum done =>
      exact well_named_of_entries rfl (EnumSpec.read_scope done (entries_scope named))
  | set done =>
      exact well_named_of_entries rfl (SetSpec.read_scope done (entries_scope named))
  | bundle done =>
      exact BundleSpec.read_named done (fun new => List.map_eq_nil_iff.mp (fresh new)) named
  | _ => exact well_named_of_members rfl distinct

namespace Field

theorem identifier_law : Field.Law fun _ f => Name.isIdentifier f.name = true where
  grown _ named := named
  lifted _ named := named
  packed _ _ _ _ named := named
  made _ named _ := named

theorem well_named_law : Field.Law fun _ f => f.payload.WellNamed where
  grown _ named := named
  lifted _ named := named
  packed _ _ _ _ named := named
  made := by
    intro d start f makes _ found
    obtain ⟨profile, -, reads⟩ := Declaration.makes_reads makes
    refine Payload.read_well_named reads ?_ ?_
    · intro fresh
      rw [Declaration.makes_blank makes fresh]
      exact Payload.blank_entries f.kind
    · rcases Declaration.makes_source makes with ⟨-, blank⟩ | ⟨-, ref, handle, hit, copied⟩
      · rw [blank]
        refine Payload.well_named_of_members (Payload.blank_entries f.kind) ?_
        rw [Payload.blank_members]
        exact List.nodup_nil
      · rw [copied]
        exact found ref handle hit

end Field

theorem Field.read_group_distinct {env : Environment} {node : Node} {parent : Parent}
    {inherited fields : List Field}
    (read : (readGroup env node parent inherited).outcome = .ok fields) :
    (fields.map Field.name).Nodup := by
  simp only [readGroup, Build.bind_ok, Build.lift_outcome, Build.pure_outcome,
    Except.ok.injEq] at read
  obtain ⟨_, -, _, -, _, checked, _, -, rfl⟩ := read
  exact (check_distinct_go_ok checked).1

namespace Interface

structure Distinct (interfaces : List Interface) : Prop where
  names : (interfaces.map Interface.qualifiedName).Nodup
  fields : ∀ i ∈ interfaces, (i.fields.map Field.name).Nodup

theorem read_distinct {dir : Directory} {placed : Placed} {i : Interface}
    (read : (Interface.read dir placed).outcome = .ok i) :
    i.qualifiedName ∉ dir.interfaces.map Interface.qualifiedName ∧
      (i.fields.map Field.name).Nodup := by
  obtain ⟨_, _, grouped⟩ := read_grouped read
  refine ⟨?_, Field.read_group_distinct grouped⟩
  simp only [Interface.read, Build.bind_ok, Build.lift_outcome, Build.pure_outcome,
    Except.ok.injEq] at read
  obtain ⟨_, -, _, -, _, -, _, -, _, -, name, -, _, checked, _, -, _, -, _, -, _, -, rfl⟩ := read
  unfold checkName at checked
  split at checked
  · cases checked
  · split at checked
    · cases checked
    · rename_i new
      simpa using new

theorem read_all_distinct {dir : Directory} {nodes : List Placed} {interfaces : List Interface}
    (read : (readAll dir nodes).outcome = .ok interfaces) (start : Distinct dir.interfaces) :
    Distinct interfaces := by
  refine Build.gather_keeps Distinct ?_ start read
  intro known placed i ofElement distinct
  obtain ⟨new, ofFields⟩ := read_distinct ofElement
  constructor
  · rw [List.map_append]
    exact nodup_push distinct.names new
  · rw [List.forall_mem_append]
    exact ⟨distinct.fields, List.forall_mem_singleton.mpr ofFields⟩

end Interface

namespace Message

structure Distinct (shared : Bool) (messages : List Message) : Prop where
  names : (messages.map Message.qualifiedName).Nodup
  ids : shared = false → (messages.map Message.id).Nodup
  fields : ∀ m ∈ messages, (m.fields.map Field.name).Nodup

theorem read_distinct {dir : Directory} {placed : Placed} {m : Message}
    (read : (Message.read dir placed).outcome = .ok m) : (m.fields.map Field.name).Nodup := by
  obtain ⟨_, _, grouped⟩ := read_grouped read
  exact Field.read_group_distinct grouped

theorem check_new_ok {dir : Directory} {line : Nat} {m : Message}
    (checked : checkNew dir line m = .ok ()) :
    m.qualifiedName ∉ dir.messages.map Message.qualifiedName ∧
      (dir.context.nonUniqueMessageIds = false → m.id ∉ dir.messages.map Message.id) := by
  unfold checkNew at checked
  split at checked
  · cases checked
  · rename_i new
    refine ⟨by simpa using new, ?_⟩
    intro unique
    rw [unique] at checked
    simp only [Bool.false_eq_true, if_false] at checked
    split at checked
    · cases checked
    · rename_i none
      simpa using none

theorem read_each_distinct {dir : Directory} {nodes : List Placed} {messages : List Message}
    (read : (readEach dir nodes).outcome = .ok messages)
    (start : Distinct dir.context.nonUniqueMessageIds dir.messages) :
    Distinct dir.context.nonUniqueMessageIds messages := by
  refine Build.gather_keeps (Distinct dir.context.nonUniqueMessageIds) ?_ start read
  intro known placed m done distinct
  obtain ⟨ofElement, checked⟩ := read_new_ok done
  obtain ⟨newName, newId⟩ := check_new_ok checked
  refine ⟨?_, ?_, ?_⟩
  · rw [List.map_append]
    exact nodup_push distinct.names newName
  · intro unique
    rw [List.map_append]
    exact nodup_push (distinct.ids unique) (newId unique)
  · rw [List.forall_mem_append]
    exact ⟨distinct.fields, List.forall_mem_singleton.mpr (read_distinct ofElement)⟩

/-- The order of the messages makes no difference. -/
theorem distinct_of_perm {shared : Bool} {messages sorted : List Message}
    (perm : sorted.Perm messages) (distinct : Distinct shared messages) :
    Distinct shared sorted where
  names := (perm.map Message.qualifiedName).nodup_iff.mpr distinct.names
  ids unique := (perm.map Message.id).nodup_iff.mpr (distinct.ids unique)
  fields m member := distinct.fields m (perm.mem_iff.mp member)

theorem sorted_by_id (messages : List Message) :
    (Sorting.stable (fun a b => decide (a.id < b.id)) messages).Pairwise
      fun a b => a.id ≤ b.id := by
  have order : Sorting.OrderedOn (fun _ => True) fun a b : Message => decide (a.id < b.id) :=
    Sorting.ordered_on_key Message.id fun _ _ => decide_eq_true_iff
  refine (Sorting.stable_sorted order messages fun _ _ => trivial).imp ?_
  intro a b inOrder
  simpa using inOrder

end Message

theorem Layout.namespaces_kept : Layout.Kept fun l => l.namespaces.Nodup where
  fields _ _ distinct := distinct
  interfaces _ distinct := distinct
  messages _ distinct := distinct
  namespaces ns distinct := by
    unfold addNamespace
    split
    · exact distinct
    · rename_i new
      exact nodup_push distinct (by simpa using new)

structure Schema.Distinct (s : Schema) : Prop where
  interfaces : Interface.Distinct s.interfaces
  messages : Message.Distinct s.context.nonUniqueMessageIds s.messages
  ordered : s.messages.Pairwise fun a b => a.id ≤ b.id
  namespaces : s.namespaces.Nodup

namespace Protocol

theorem outline_new {p : Protocol} {source : String} {ctx : Context} {layout : Layout}
    (outlined : (p.outline source).outcome = .ok (ctx, layout)) :
    Name.IsNew (p.schemas.map Schema.name) ctx.name ∧ layout.namespaces.Nodup := by
  have identifier := (outline_named outlined).1
  simp only [outline, outlineOf, Build.bind_ok, Build.lift_outcome, Build.pure_outcome,
    Except.ok.injEq, Prod.mk.injEq] at outlined
  obtain ⟨_, -, _, -, _, checked, _, placed, rfl, rfl⟩ := outlined
  refine ⟨⟨identifier, ?_⟩, Layout.of_root_kept Layout.namespaces_kept List.nodup_nil placed⟩
  unfold checkNew at checked
  split at checked
  · cases checked
  · split at checked
    · cases checked
    · rename_i new
      simpa [schema?] using new

theorem load_schema_names (p : Protocol) (source : String)
    (scope : Name.Scope (p.schemas.map Schema.name)) :
    Name.Scope ((p.load source).1.schemas.map Schema.name) := by
  rcases load_schemas_cases p source with ⟨same, -⟩ | ⟨layout, s, adds⟩
  · rw [same]
    exact scope
  · rw [adds.added, List.map_append]
    exact Name.scope_push scope (outline_new adds.outlined).1

theorem after_schema_names (sources : List String) :
    Name.Scope ((after sources).schemas.map Schema.name) :=
  load_all_induction (fun p => Name.Scope (p.schemas.map Schema.name)) load_schema_names {}
    Name.scope_nil sources

theorem adds_distinct {p : Protocol} {source : String} {layout : Layout} {s : Schema}
    (adds : p.Adds source layout s) : s.Distinct := by
  have namespaces := (outline_new adds.outlined).2
  have completed := adds.completed
  simp only [complete, Build.bind_ok, Build.pure_outcome, Except.ok.injEq, Message.readAll]
    at completed
  obtain ⟨interfaces, ofInterfaces, messages, ⟨each, ofEach, rfl⟩, _, -, same⟩ := completed
  have none {α : Type} {here : α → Prop} : ∀ a ∈ ([] : List α), here a :=
    fun a member => absurd member List.not_mem_nil
  have distinct := Message.read_each_distinct ofEach ⟨List.nodup_nil, fun _ => List.nodup_nil, none⟩
  rw [← same]
  exact {
    interfaces := Interface.read_all_distinct ofInterfaces ⟨List.nodup_nil, none⟩
    messages := Message.distinct_of_perm (Sorting.stable_perm _ _) distinct
    ordered := Message.sorted_by_id each
    namespaces := namespaces }

/-- Names are identifiers and differ, in every scope and after any documents: those of schemas; in
a schema those of interfaces, messages and namespaces, each with their path; in an interface or
message those of its fields; and in a field at any depth those of its members, of the named values or
bits it lists, and of its aliases, which stand in one scope with the members. Messages stand in the
order of their ids, which differ unless the schema lets them be shared. -/
theorem names_valid_and_distinct (sources : List String) :
    Name.Scope ((after sources).schemas.map Schema.name) ∧
    (∀ s ∈ (after sources).schemas,
      (s.interfaces.map Interface.qualifiedName).Nodup ∧
      (s.messages.map Message.qualifiedName).Nodup ∧ s.namespaces.Nodup ∧
      (s.context.nonUniqueMessageIds = false → (s.messages.map Message.id).Nodup) ∧
      (s.messages.Pairwise fun a b => a.id ≤ b.id) ∧
      (∀ i ∈ s.interfaces, Name.Scope (i.fields.map Field.name)) ∧
      ∀ m ∈ s.messages, Name.Scope (m.fields.map Field.name)) ∧
    ∀ f g, (after sources).Has f → f.LeadsTo g →
      Name.isIdentifier g.name = true ∧ Name.Scope g.payload.names := by
  have identifier := (after_throughout Field.identifier_law sources).1
  have wellNamed := (after_throughout Field.well_named_law sources).1
  have ofHeld {fields : List Field} (held : ∀ f ∈ fields, (after sources).Has f) :
      ∀ name ∈ fields.map Field.name, Name.isIdentifier name = true := by
    intro name member
    obtain ⟨f, inside, rfl⟩ := List.mem_map.mp member
    exact identifier f (held f inside) f (.refl f)
  refine ⟨after_schema_names sources, ?_, ?_⟩
  · intro s loaded
    obtain ⟨_, _, _, _, -, adds⟩ := after_adds loaded
    have distinct := adds_distinct adds
    refine ⟨distinct.interfaces.names, distinct.messages.names, distinct.namespaces,
      distinct.messages.ids, distinct.ordered, ?_, ?_⟩
    · intro i inSchema
      exact ⟨ofHeld fun f member => .ofInterface loaded inSchema member,
        distinct.interfaces.fields i inSchema⟩
    · intro m inSchema
      exact ⟨ofHeld fun f member => .ofMessage loaded inSchema member,
        distinct.messages.fields m inSchema⟩
  · intro f g has leads
    refine ⟨identifier f has g leads, ?_, (wellNamed f has g leads).distinct⟩
    rw [Payload.names, List.forall_mem_append]
    refine ⟨?_, (wellNamed f has g leads).valid⟩
    intro name member
    obtain ⟨m, inside, rfl⟩ := List.mem_map.mp member
    exact identifier f has m (Field.leads_trans leads (Field.leads_member inside))

def freedName : String := r#"<schema name="S" version="5">
  <fields>
    <enum name="E" type="uint8">
      <validValue name="a" val="0"/>
    </enum>
    <enum name="F" reuse="E">
      <validValue name="b" val="1"/>
    </enum>
    <bundle name="B">
      <int name="x" type="uint8"/>
      <int name="z" type="uint8" deprecated="2" removed="true"/>
      <alias name="al" field="$x"/>
    </bundle>
  </fields>
  <message name="M" id="2" sinceVersion="3">
    <bundle name="b" reuse="B">
      <alias name="z" field="$x"/>
    </bundle>
  </message>
  <message name="L" id="1"/>
</schema>"#

set_option maxRecDepth 6000 in
/-- A copied list of values goes on with a new name, and a copied bundle has an alias under the name
of a member that is gone. -/
theorem freed_name_valid_and_distinct :
    ∃ f ∈ (after [freedName]).registry.get? 1, ∃ s ∈ (after [freedName]).schemas,
      ∃ m ∈ s.messages, ∃ g ∈ m.fields,
        f.payload.names = ["a", "b"] ∧ Name.Scope f.payload.names ∧
        s.messages.map Message.id = [1, 2] ∧ (s.messages.map Message.qualifiedName).Nodup ∧
        g.payload.names = ["x", "al", "z"] ∧ Name.Scope g.payload.names := by
  have found :
      ((after [freedName]).registry.get? 1).any (fun f => (after [freedName]).schemas.any fun s =>
        s.messages.any fun m => m.fields.any fun g =>
          f.payload.names = ["a", "b"] && s.messages.map Message.id = [1, 2] &&
            g.payload.names = ["x", "al", "z"]) = true := by
    rw [after_spelled freedName String.toList_ofList]
    decide +kernel
  simp only [List.any_eq_true, Option.any_eq_true, Bool.and_eq_true, decide_eq_true_eq] at found
  obtain ⟨f, registered, s, loaded, m, inSchema, g, member, ⟨ofF, ids⟩, ofG⟩ := found
  obtain ⟨-, inSchemas, anywhere⟩ := names_valid_and_distinct [freedName]
  exact ⟨f, registered, s, loaded, m, inSchema, g, member, ofF,
    (anywhere f f (.registered registered) (.refl f)).2, ids, (inSchemas s loaded).2.1, ofG,
    (anywhere g g (.ofMessage loaded inSchema member) (.refl g)).2⟩

end Protocol

end WireSchema
