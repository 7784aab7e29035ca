import WireSchema.Registry
import WireSchema.Proofs.Names

/-!
The registry as a table: an entry's position is its id and its key leads back to it. Later
registries have the entries of earlier ones in front, so ids and keys keep their meaning.
-/

namespace WireSchema

theorem Entry.has_key_iff (e : Entry) (schema name : String) :
    e.hasKey schema name = true ↔ e.schema = schema ∧ e.name = name := by
  simp [Entry.hasKey]

namespace Registry

structure WellFormed (r : Registry) : Prop where
  distinct : r.entries.Pairwise fun a b => ¬ (a.schema = b.schema ∧ a.name = b.name)
  named : ∀ e ∈ r.entries, Name.isIdentifier e.schema = true ∧ Name.isPath e.name = true

def Extends (earlier later : Registry) : Prop := earlier.entries <+: later.entries

theorem extends_refl (r : Registry) : r.Extends r := List.prefix_refl _

theorem extends_trans {a b c : Registry} (first : a.Extends b) (second : b.Extends c) :
    a.Extends c :=
  List.IsPrefix.trans first second

theorem get_some_iff (r : Registry) (id : Nat) (field : Field) :
    r.get? id = some field ↔ ∃ e, r.entries[id]? = some e ∧ e.field = field := by
  simp [get?]

theorem get_is_some_iff (r : Registry) (id : Nat) : (r.get? id).isSome = true ↔ id < r.size := by
  simp [get?, size]

theorem entry_of_id {r : Registry} {schema name : String} {id : Nat}
    (found : r.id? schema name = some id) :
    ∃ e, r.entries[id]? = some e ∧ e.schema = schema ∧ e.name = name := by
  obtain ⟨bound, hit, -⟩ := List.findIdx?_eq_some_iff_getElem.mp found
  exact ⟨r.entries[id], List.getElem?_eq_getElem bound, (Entry.has_key_iff _ _ _).mp hit⟩

theorem id_of_entry {r : Registry} (valid : r.WellFormed) {id : Nat} {e : Entry}
    (entry : r.entries[id]? = some e) : r.id? e.schema e.name = some id := by
  obtain ⟨bound, atId⟩ := List.getElem?_eq_some_iff.mp entry
  refine List.findIdx?_eq_some_iff_getElem.mpr ⟨bound, ?_, ?_⟩
  · rw [atId, Entry.has_key_iff]
    exact ⟨rfl, rfl⟩
  · -- The search stops no earlier, since keys differ.
    intro earlier before hit
    rw [Entry.has_key_iff] at hit
    have different := List.pairwise_iff_getElem.mp valid.distinct earlier id
      (Nat.lt_trans before bound) bound before
    rw [atId] at different
    exact different hit

theorem field_of_id {r : Registry} {schema name : String} {id : Nat}
    (found : r.id? schema name = some id) : ∃ field, r.get? id = some field := by
  obtain ⟨e, entry, -, -⟩ := entry_of_id found
  exact ⟨e.field, (get_some_iff r id e.field).mpr ⟨e, entry, rfl⟩⟩

theorem key_of_id {r : Registry} {schema name schema' name' : String} {id : Nat}
    (found : r.id? schema name = some id) (found' : r.id? schema' name' = some id) :
    schema = schema' ∧ name = name' := by
  obtain ⟨e, entry, rfl, rfl⟩ := entry_of_id found
  obtain ⟨e', entry', rfl, rfl⟩ := entry_of_id found'
  rw [entry, Option.some.injEq] at entry'
  subst entry'
  exact ⟨rfl, rfl⟩

theorem id_lt_size_iff {r : Registry} (valid : r.WellFormed) (id : Nat) :
    id < r.size ↔ ∃ schema name, r.id? schema name = some id := by
  constructor
  · intro bound
    exact ⟨_, _, id_of_entry valid (List.getElem?_eq_getElem bound)⟩
  · rintro ⟨schema, name, found⟩
    obtain ⟨e, entry, -, -⟩ := entry_of_id found
    exact (List.getElem?_eq_some_iff.mp entry).1

theorem id_none_iff (r : Registry) (schema name : String) :
    r.id? schema name = none ↔ ∀ e ∈ r.entries, ¬ (e.schema = schema ∧ e.name = name) := by
  simp [id?, Entry.has_key_iff, ← Bool.not_eq_true]

theorem id_of_extends {earlier later : Registry} (grown : earlier.Extends later)
    {schema name : String} {id : Nat} (found : earlier.id? schema name = some id) :
    later.id? schema name = some id := by
  obtain ⟨added, whole⟩ := grown
  simp only [id?] at found ⊢
  rw [← whole, List.findIdx?_append, found]
  rfl

theorem get_of_extends {earlier later : Registry} (grown : earlier.Extends later) {id : Nat}
    {field : Field} (held : earlier.get? id = some field) : later.get? id = some field := by
  obtain ⟨e, entry, rfl⟩ := (get_some_iff earlier id field).mp held
  obtain ⟨added, whole⟩ := grown
  refine (get_some_iff later id e.field).mpr ⟨e, ?_, rfl⟩
  obtain ⟨bound, -⟩ := List.getElem?_eq_some_iff.mp entry
  rw [← whole, List.getElem?_append_left bound]
  exact entry

theorem wellformed_of_extends {earlier later : Registry} (extended : earlier.Extends later)
    (valid : later.WellFormed) : earlier.WellFormed :=
  ⟨valid.distinct.sublist extended.sublist,
    fun e member => valid.named e (extended.subset member)⟩

theorem insert_ok_iff (r later : Registry) (schema name : String) (field : Field) :
    r.insert schema name field = .ok later ↔
      r.id? schema name = none ∧ later = ⟨r.entries ++ [⟨schema, name, field⟩]⟩ := by
  unfold insert
  split
  · rename_i id taken
    simp [taken]
  · rename_i free
    simp [free, eq_comm]

theorem insert_wellformed {r later : Registry} {schema name : String} {field : Field}
    (valid : r.WellFormed) (schemaNamed : Name.isIdentifier schema = true)
    (fieldNamed : Name.isPath name = true)
    (inserted : r.insert schema name field = .ok later) : later.WellFormed := by
  obtain ⟨free, rfl⟩ := (insert_ok_iff _ _ _ _ _).mp inserted
  rw [id_none_iff] at free
  constructor
  · refine List.pairwise_append.mpr ⟨valid.distinct, List.pairwise_singleton _ _, ?_⟩
    intro old member new isNew
    rw [List.mem_singleton] at isNew
    subst isNew
    exact free old member
  · intro e member
    rcases List.mem_append.mp member with old | new
    · exact valid.named e old
    · rw [List.mem_singleton] at new
      subst new
      exact ⟨schemaNamed, fieldNamed⟩

theorem empty_wellformed : WellFormed {} :=
  ⟨List.Pairwise.nil, fun _ member => absurd member List.not_mem_nil⟩

theorem handle_of_id {r : Registry} {schema name : String} {id : Nat} {field : Field}
    (found : r.id? schema name = some id) (held : r.get? id = some field) (ref : String) :
    r.handle? schema name ref = some ⟨id, ref, field⟩ := by
  simp [handle?, found, held]

/-- A registered field is found under its name in its schema, and under its full name from any
schema. -/
theorem find_registered {r : Registry} (valid : r.WellFormed) {schema name : String} {id : Nat}
    {field : Field} (found : r.id? schema name = some id) (held : r.get? id = some field) :
    r.find? schema name = some ⟨id, name, field⟩ ∧
      ∀ current, r.find? current ("@" ++ schema ++ "." ++ name) =
        some ⟨id, "@" ++ schema ++ "." ++ name, field⟩ := by
  obtain ⟨e, entry, rfl, rfl⟩ := entry_of_id found
  obtain ⟨identifier, path⟩ := valid.named e (List.mem_of_getElem? entry)
  constructor
  · simp only [find?, ExternalName.read_path path]
    exact handle_of_id found held _
  · intro current
    simp only [find?, ExternalName.read_addressed identifier path]
    exact handle_of_id found held _

/-- The fields of a schema are listed by id: each under the name that leads to its id. -/
theorem fields_of_by_id {r : Registry} (valid : r.WellFormed) (schema : String) :
    ∃ ids : List Nat, ids.Pairwise (· < ·) ∧
      (∀ id, id ∈ ids ↔ ∃ name, r.id? schema name = some id) ∧
      (r.fieldsOf schema).map (fun named => r.id? schema named.1) = ids.map some ∧
      (r.fieldsOf schema).map (fun named => some named.2) = ids.map r.get? := by
  -- Entries are numbered before those of the schema are picked, so ids stay in order.
  let own : Entry × Nat → Bool := fun numbered => numbered.1.schema == schema
  let listed := r.entries.zipIdx.filter own
  have placed : ∀ numbered ∈ listed,
      r.entries[numbered.2]? = some numbered.1 ∧ numbered.1.schema = schema := by
    intro numbered member
    obtain ⟨inside, hit⟩ := List.mem_filter.mp member
    exact ⟨List.mem_zipIdx_iff_getElem?.mp inside, beq_iff_eq.mp hit⟩
  have entries : listed.map Prod.fst = r.entries.filter fun e => e.schema == schema := by
    have mapped := List.filter_map (f := Prod.fst) (l := r.entries.zipIdx)
      (p := fun e : Entry => e.schema == schema)
    rw [List.zipIdx_map_fst] at mapped
    exact mapped.symm
  have fields : r.fieldsOf schema = listed.map fun numbered =>
      (numbered.1.name, numbered.1.field) := by
    rw [fieldsOf, ← entries, List.map_map]
    rfl
  refine ⟨listed.map Prod.snd, ?_, ?_, ?_, ?_⟩
  · have numbers : (r.entries.zipIdx.map Prod.snd).Pairwise (· < ·) := by
      rw [List.zipIdx_map_snd]
      exact List.pairwise_lt_range'
    exact numbers.sublist (List.Sublist.map Prod.snd List.filter_sublist)
  · intro id
    constructor
    · intro member
      obtain ⟨numbered, inListed, rfl⟩ := List.mem_map.mp member
      obtain ⟨entry, here⟩ := placed numbered inListed
      exact ⟨numbered.1.name, here ▸ id_of_entry valid entry⟩
    · rintro ⟨name, found⟩
      obtain ⟨e, entry, here, -⟩ := entry_of_id found
      refine List.mem_map.mpr ⟨(e, id), List.mem_filter.mpr ⟨?_, beq_iff_eq.mpr here⟩, rfl⟩
      exact List.mem_zipIdx_iff_getElem?.mpr entry
  · rw [fields, List.map_map, List.map_map]
    refine List.map_congr_left fun numbered member => ?_
    obtain ⟨entry, here⟩ := placed numbered member
    exact here ▸ id_of_entry valid entry
  · rw [fields, List.map_map, List.map_map]
    refine List.map_congr_left fun numbered member => ?_
    exact ((get_some_iff r _ _).mpr ⟨numbered.1, (placed numbered member).1, rfl⟩).symm

end Registry

end WireSchema
