import WireSchema.Proofs.Construction
import WireSchema.Proofs.Loading

/-!
Every registered field can be addressed. The names of schemas and fields are identifiers and those
of namespaces are paths, so the key of a field is read back from its external name, in every state
from its registration on.
-/

namespace WireSchema

open Markup (Node)

namespace Context

theorem read_root_name {root : Node} {ctx : Context} (read : readRoot root = .ok ctx) :
    Name.isIdentifier ctx.name = true := by
  unfold readRoot at read
  split at read
  · nomatch read
  · simp only [except_bind_ok] at read
    obtain ⟨props, -, name, -, rest⟩ := read
    split at rest
    · nomatch rest
    · rename_i identifier
      simp only [except_bind_ok, Except.ok.injEq] at rest
      obtain ⟨_, -, _, -, _, -, _, -, rfl⟩ := rest
      simpa using identifier

theorem of_root_name {root : Node} {ctx : Context} (read : (ofRoot root).outcome = .ok ctx) :
    Name.isIdentifier ctx.name = true := by
  simp only [ofRoot, Build.bind_ok, Build.lift_outcome, Build.pure_outcome,
    Except.ok.injEq] at read
  obtain ⟨_, settings, _, -, rfl⟩ := read
  exact read_root_name settings

end Context

namespace Layout

theorem read_namespace_ok {ns inner : String} {node : Node} (inside : Name.IsNamespace ns)
    (read : readNamespace ns node = .ok inner) : Name.IsNamespace inner := by
  simp only [readNamespace, except_bind_ok] at read
  obtain ⟨_, -, name, -, rest⟩ := read
  split at rest
  · rename_i identifier
    rw [Except.ok.injEq] at rest
    subst rest
    exact Or.inr (Name.qualify_path inside identifier)
  · nomatch rest

structure Kept (holds : Layout → Prop) : Prop where
  fields : ∀ {l : Layout} {ns : String} (nodes : List Node), Name.IsNamespace ns → holds l →
    holds (l.addFields ns nodes)
  interfaces : ∀ {l : Layout} {ns : String} (nodes : List Node), holds l →
    holds (l.addInterfaces ns nodes)
  messages : ∀ {l : Layout} {ns : String} (nodes : List Node), holds l →
    holds (l.addMessages ns nodes)
  namespaces : ∀ {l : Layout} (ns : String), holds l → holds (l.addNamespace ns)

mutual
theorem add_kept {holds : Layout → Prop} (kept : Kept holds) {ns : String}
    (inside : Name.IsNamespace ns) {l : Layout} (held : holds l) : (node : Node) →
    {later : Layout} → (add ns l node).outcome = .ok later → holds later
  | ⟨name, attributes, children, text, line⟩, later, added => by
      unfold add at added
      simp only at added
      split at added
      case h_1 =>
          cases added
          exact kept.fields children inside held
      case h_2 | h_3 =>
          cases added
          exact kept.interfaces _ held
      case h_4 | h_5 =>
          cases added
          exact kept.messages _ held
      case h_6 =>
          -- Only `<ns>` leads into another namespace.
          simp only [Build.bind_ok, Build.lift_outcome] at added
          obtain ⟨inner, read, rest⟩ := added
          exact add_all_kept kept (read_namespace_ok inside read) (kept.namespaces inner held)
            children rest
      all_goals
          cases added
          exact held

theorem add_all_kept {holds : Layout → Prop} (kept : Kept holds) {ns : String}
    (inside : Name.IsNamespace ns) {l : Layout} (held : holds l) : (nodes : List Node) →
    {later : Layout} → (addAll ns l nodes).outcome = .ok later → holds later
  | [], later, added => by
      simp only [addAll, Build.pure_outcome, Except.ok.injEq] at added
      exact added ▸ held
  | node :: rest, later, added => by
      simp only [addAll, Build.bind_ok] at added
      obtain ⟨first, ofNode, ofRest⟩ := added
      exact add_all_kept kept inside (add_kept kept inside held node ofNode) rest ofRest
end

theorem of_root_kept {holds : Layout → Prop} (kept : Kept holds) (empty : holds {}) {root : Node}
    {l : Layout} (read : (ofRoot root).outcome = .ok l) : holds l :=
  add_all_kept kept (Or.inl rfl) empty root.children read

def InNamespaces (l : Layout) : Prop := ∀ placed ∈ l.fields, Name.IsNamespace placed.ns

theorem in_namespaces_kept : Kept InNamespaces where
  fields nodes inside placed := by
    intro p member
    rcases List.mem_append.mp member with old | new
    · exact placed p old
    · obtain ⟨node, -, rfl⟩ := List.mem_map.mp new
      exact inside
  interfaces _ placed := placed
  messages _ placed := placed
  namespaces ns placed := by
    unfold addNamespace
    split
    · exact placed
    · exact placed

theorem of_root_in_namespaces {root : Node} {l : Layout} (read : (ofRoot root).outcome = .ok l) :
    l.InNamespaces :=
  of_root_kept in_namespaces_kept (fun _ member => absurd member List.not_mem_nil) read

end Layout

namespace Registration

theorem add_wellformed {ctx : Context} (named : Name.isIdentifier ctx.name = true)
    {r : Registration} (valid : r.registry.WellFormed) {placed : Placed}
    (inside : Name.IsNamespace placed.ns) : (add ctx r placed).registry.WellFormed := by
  rcases add_cases ctx r placed with ⟨field, built, inserted⟩ | ⟨-, same⟩
  · have path := Name.qualify_path inside (Field.of_node_name built)
    exact Registry.insert_wellformed valid named path inserted
  · rw [same]
    exact valid

theorem add_all_wellformed {ctx : Context} (named : Name.isIdentifier ctx.name = true)
    {r : Registration} (valid : r.registry.WellFormed) {nodes : List Placed}
    (inside : ∀ placed ∈ nodes, Name.IsNamespace placed.ns) :
    (addAll ctx r nodes).registry.WellFormed := by
  induction nodes generalizing r with
  | nil => exact valid
  | cons placed rest ih =>
      have first := add_wellformed named valid (inside placed List.mem_cons_self)
      exact ih first fun p member => inside p (List.mem_cons_of_mem placed member)

end Registration

namespace Protocol

theorem outline_named {p : Protocol} {source : String} {ctx : Context} {layout : Layout}
    (outlined : (p.outline source).outcome = .ok (ctx, layout)) :
    Name.isIdentifier ctx.name = true ∧ layout.InNamespaces := by
  simp only [outline, outlineOf, Build.bind_ok, Build.lift_outcome, Build.pure_outcome,
    Except.ok.injEq, Prod.mk.injEq] at outlined
  obtain ⟨root, -, settings, read, _, -, elements, placed, rfl, rfl⟩ := outlined
  exact ⟨Context.of_root_name read, Layout.of_root_in_namespaces placed⟩

theorem load_wellformed (p : Protocol) (source : String) (valid : p.registry.WellFormed) :
    (p.load source).1.registry.WellFormed := by
  rcases load_registry_cases p source with ⟨-, same⟩ | ⟨ctx, layout, outlined, grown⟩
  · rw [same]
    exact valid
  · obtain ⟨named, inside⟩ := outline_named outlined
    rw [grown]
    exact Registration.add_all_wellformed named valid inside

theorem after_wellformed (sources : List String) : (after sources).registry.WellFormed :=
  load_all_induction (fun p => p.registry.WellFormed) load_wellformed {}
    Registry.empty_wellformed sources

/-- After any documents, accepted or refused: ids count the registered fields from zero on and
each belongs to one key; the fields of a schema are listed by id under the names of their keys; and
the field of a key can be had by its id, by its name and by its full name, from then on and
unchanged whatever is loaded next. -/
theorem registered_fields_addressable (sources : List String) :
    (∀ id, ((after sources).registry.get? id).isSome = true ↔
      id < (after sources).registry.size) ∧
    (∀ id, id < (after sources).registry.size ↔
      ∃ schema name, (after sources).registry.id? schema name = some id) ∧
    (∀ schema name schema' name' id,
      (after sources).registry.id? schema name = some id →
      (after sources).registry.id? schema' name' = some id → schema = schema' ∧ name = name') ∧
    (∀ schema, ∃ ids : List Nat, ids.Pairwise (· < ·) ∧
      (∀ id, id ∈ ids ↔ ∃ name, (after sources).registry.id? schema name = some id) ∧
      ((after sources).registry.fieldsOf schema).map
        (fun named => (after sources).registry.id? schema named.1) = ids.map some ∧
      ((after sources).registry.fieldsOf schema).map (fun named => some named.2) =
        ids.map (after sources).registry.get?) ∧
    (∀ schema name id, (after sources).registry.id? schema name = some id →
      ∃ field, ∀ more,
        (after (sources ++ more)).registry.get? id = some field ∧
        (after (sources ++ more)).registry.find? schema name = some ⟨id, name, field⟩ ∧
        ∀ current,
          (after (sources ++ more)).registry.find? current ("@" ++ schema ++ "." ++ name) =
            some ⟨id, "@" ++ schema ++ "." ++ name, field⟩) := by
  have valid := after_wellformed sources
  refine ⟨Registry.get_is_some_iff _, ?_, ?_, Registry.fields_of_by_id valid, ?_⟩
  · intro id
    exact Registry.id_lt_size_iff valid id
  · intro schema name schema' name' id found found'
    exact Registry.key_of_id found found'
  · intro schema name id found
    obtain ⟨field, held⟩ := Registry.field_of_id found
    refine ⟨field, fun more => ?_⟩
    have grown : (after sources).registry.Extends (after (sources ++ more)).registry := by
      rw [after_append]
      exact load_all_registry_extends _ more
    have heldLater := Registry.get_of_extends grown held
    exact ⟨heldLater, Registry.find_registered (after_wellformed _)
      (Registry.id_of_extends grown found) heldLater⟩

def nestedField : String :=
  "<schema name=\"S\"><ns name=\"a\"><ns name=\"b\"><fields>" ++
    "<int name=\"F\" type=\"uint8\"/></fields></ns></ns></schema>"

theorem nested_field_addressable :
    (after [faultySecondField, nestedField]).registry.id? "S" "a.b.F" = some 1 ∧
      ∃ field, ∀ more current,
        (after ([faultySecondField, nestedField] ++ more)).registry.get? 1 = some field ∧
        (after ([faultySecondField, nestedField] ++ more)).registry.find? "S" "a.b.F" =
          some ⟨1, "a.b.F", field⟩ ∧
        (after ([faultySecondField, nestedField] ++ more)).registry.find? current "@S.a.b.F" =
          some ⟨1, "@S.a.b.F", field⟩ := by
  have found : (after [faultySecondField, nestedField]).registry.id? "S" "a.b.F" = some 1 := by
    decide +kernel
  obtain ⟨-, -, -, -, addressed⟩ :=
    registered_fields_addressable [faultySecondField, nestedField]
  obtain ⟨field, always⟩ := addressed "S" "a.b.F" 1 found
  refine ⟨found, field, fun more current => ?_⟩
  obtain ⟨held, named, full⟩ := always more
  exact ⟨held, named, full current⟩

end Protocol

end WireSchema
