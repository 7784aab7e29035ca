import WireSchema.Proofs.ExternalNames
import WireSchema.Proofs.Tokens

/-!
The registry as an arena. Here the fields stand in one table by id, the ids in another by key, and
the keys in a third in the order of registration, and a reference to a value is split at byte
offsets, from its end on. The list of entries answers every question in the same way: both are
filled step by step, and each step keeps the three tables in line with the entries.
-/

namespace WireSchema

open Text

structure Arena where
  fields : List Field := []
  names : Std.HashMap (String × String) Nat := {}
  order : List (String × String) := []

abbrev Arrival := String × String × Field

namespace Text

def takeBytes : Nat → List Char → List Char
  | _, [] => []
  | n, c :: rest => if c.utf8Size ≤ n then c :: takeBytes (n - c.utf8Size) rest else []

def dropBytes : Nat → List Char → List Char
  | _, [] => []
  | n, c :: rest => if c.utf8Size ≤ n then dropBytes (n - c.utf8Size) rest else c :: rest

def lastDot? : List Char → Option Nat
  | [] => none
  | c :: rest =>
      match lastDot? rest with
      | some n => some (c.utf8Size + n)
      | none => if c = '.' then some 0 else none

theorem byte_count_cons (c : Char) (rest : List Char) :
    byteCount (c :: rest) = c.utf8Size + byteCount rest := by
  rw [← List.singleton_append, byte_count_append]
  simp [byteCount]

theorem byte_count_take_le (n : Nat) (cs : List Char) : byteCount (takeBytes n cs) ≤ n := by
  fun_induction takeBytes n cs with
  | case1 => exact Nat.zero_le _
  | case2 n c rest fits ih =>
      rw [byte_count_cons]
      omega
  | case3 => exact Nat.zero_le _

theorem last_dot_lt {cs : List Char} {n : Nat} (last : lastDot? cs = some n) :
    n < byteCount cs := by
  induction cs generalizing n with
  | nil => cases last
  | cons c rest ih =>
      have positive := c.utf8Size_pos
      rw [lastDot?] at last
      rw [byte_count_cons]
      split at last
      · rename_i later found
        cases last
        have := ih found
        omega
      · split at last
        · cases last
          omega
        · cases last

end Text

namespace Arena

def insert (a : Arena) (schema name : String) (field : Field) : Except Error (Arena × Nat) :=
  if a.names.contains (schema, name) then
    .error ((Fault.naming (.alreadyDefined "field" name)).atLine field.line)
  else
    let id := a.fields.length
    .ok (⟨a.fields ++ [field], a.names.insert (schema, name) id, a.order ++ [(schema, name)]⟩, id)

def size (a : Arena) : Nat := a.fields.length

def get? (a : Arena) (id : Nat) : Option Field := a.fields[id]?

def fieldsOf (a : Arena) (schema : String) : List (String × Field) :=
  ((a.order.zip a.fields).filter fun e => e.1.1 == schema).map fun e => (e.1.2, e.2)

def handle? (a : Arena) (schema name ref : String) : Option (Handle Field) :=
  match a.names[(schema, name)]? with
  | some id => (a.get? id).map fun field => ⟨id, ref, field⟩
  | none => none

def find? (a : Arena) (current ref : String) : Option (Handle Field) :=
  match ExternalName.read? ref with
  | some name => a.handle? (name.schema.getD current) name.path ref
  | none => none

/-- Look for the field of the first `cut` bytes of the path, and if there is none go back to the
last dot in them. What is left over is read off the end of the whole text. -/
def splitFrom (a : Arena) (schema : String) (whole path : List Char) (cut : Nat) :
    Option (Handle Field × String) :=
  let candidate := takeBytes cut path
  match a.handle? schema (String.ofList candidate) (String.ofList candidate) with
  | some handle =>
      let rest := dropBytes (byteCount whole - (byteCount path - cut)) whole
      some (handle, String.ofList (rest.dropWhile (· = '.')))
  | none =>
      match _ : lastDot? candidate with
      | some shorter => splitFrom a schema whole path shorter
      | none => none
termination_by cut
decreasing_by
  have before : shorter < byteCount (takeBytes cut path) := last_dot_lt ‹_›
  have within := byte_count_take_le cut path
  omega

def splitValue? (a : Arena) (current ref : String) : Option (Handle Field × String) :=
  match ExternalName.read? ref with
  | some name =>
      a.splitFrom (name.schema.getD current) ref.toList name.path.toList
        (byteCount name.path.toList)
  | none => none

end Arena

/-! ### The three tables -/

structure Arena.Holds (a : Arena) (r : Registry) : Prop where
  fields : a.fields = r.entries.map Entry.field
  order : a.order = r.entries.map fun e => (e.schema, e.name)
  names : ∀ schema name, a.names[(schema, name)]? = r.id? schema name

def Arena.insertAll : Arena → List Arrival → Arena
  | a, [] => a
  | a, (schema, name, field) :: rest =>
      match a.insert schema name field with
      | .ok (later, _) => insertAll later rest
      | .error _ => insertAll a rest

def Registry.insertAll : Registry → List Arrival → Registry
  | r, [] => r
  | r, (schema, name, field) :: rest =>
      match r.insert schema name field with
      | .ok later => insertAll later rest
      | .error _ => insertAll r rest

theorem Registry.id_append (r : Registry) (e : Entry) (schema name : String) :
    Registry.id? ⟨r.entries ++ [e]⟩ schema name =
      (r.id? schema name).or (if e.schema = schema ∧ e.name = name then some r.size else none) := by
  rw [id?, List.findIdx?_append]
  congr 1
  by_cases key : e.schema = schema ∧ e.name = name
  · rw [if_pos key, List.findIdx?_cons, if_pos ((Entry.has_key_iff e _ _).mpr key)]
    exact congrArg some (Nat.zero_add _)
  · rw [if_neg key, List.findIdx?_cons, if_neg (key ∘ (Entry.has_key_iff e _ _).mp)]
    rfl

namespace Arena

section Holding

variable {a : Arena} {r : Registry} (holds : a.Holds r)

include holds

theorem holds_size : a.size = r.size := by
  rw [size, holds.fields, List.length_map]
  rfl

theorem holds_get (id : Nat) : a.get? id = r.get? id := by
  rw [get?, holds.fields, List.getElem?_map]
  rfl

theorem holds_fields_of (schema : String) : a.fieldsOf schema = r.fieldsOf schema := by
  rw [fieldsOf, Registry.fieldsOf, holds.fields, holds.order, List.zip_map', List.filter_map,
    List.map_map]
  rfl

theorem holds_handle (schema name ref : String) :
    a.handle? schema name ref = r.handle? schema name ref := by
  rw [handle?, Registry.handle?, holds.names]
  cases r.id? schema name with
  | none => rfl
  | some id => exact congrArg (Option.map _) (holds_get holds id)

theorem holds_find (current ref : String) : a.find? current ref = r.find? current ref := by
  rw [find?, Registry.find?]
  cases ExternalName.read? ref with
  | none => rfl
  | some name => exact holds_handle holds _ _ _

/-- Both refuse a field with the same error, or both take it in under the same id. -/
theorem insert_holds (schema name : String) (field : Field) :
    (∃ e, a.insert schema name field = .error e ∧ r.insert schema name field = .error e) ∨
    ∃ later after, a.insert schema name field = .ok (later, r.size) ∧
      r.insert schema name field = .ok after ∧ later.Holds after := by
  have known : a.names.contains (schema, name) = (r.id? schema name).isSome := by
    rw [← holds.names, Std.HashMap.contains_eq_isSome_getElem?]
  cases found : r.id? schema name with
  | some id =>
      refine .inl ⟨_, ?_, by rw [Registry.insert, found]⟩
      rw [insert, if_pos (by rw [known, found]; rfl)]
  | none =>
      have taken : a.insert schema name field = .ok (⟨a.fields ++ [field],
          a.names.insert (schema, name) r.size, a.order ++ [(schema, name)]⟩, r.size) := by
        rw [insert, if_neg (by simp [known, found]), ← holds_size holds]
        rfl
      refine .inr ⟨_, _, taken, by rw [Registry.insert, found], ?_, ?_, ?_⟩
      · simp [holds.fields]
      · simp [holds.order]
      · intro schema' name'
        rw [Registry.id_append, Std.HashMap.getElem?_insert, holds.names]
        by_cases same : schema = schema' ∧ name = name'
        · obtain ⟨rfl, rfl⟩ := same
          rw [if_pos (beq_self_eq_true _), found, if_pos ⟨rfl, rfl⟩, Option.none_or]
        · rw [if_neg (by simpa using same), if_neg same, Option.or_none]

end Holding

theorem insert_all_holds {a : Arena} {r : Registry} (holds : a.Holds r) (arrivals : List Arrival) :
    (a.insertAll arrivals).Holds (r.insertAll arrivals) := by
  induction arrivals generalizing a r with
  | nil => exact holds
  | cons arrival rest ih =>
      obtain ⟨schema, name, field⟩ := arrival
      rw [insertAll, Registry.insertAll]
      rcases insert_holds holds schema name field with
        ⟨e, refused, refused'⟩ | ⟨later, after, taken, taken', kept⟩
      · rw [refused, refused']
        exact ih holds
      · rw [taken, taken']
        exact ih kept

theorem empty_holds : Holds {} {} :=
  ⟨rfl, rfl, fun _ _ => Std.HashMap.getElem?_empty⟩

end Arena

/-! ### Splitting at byte offsets -/

namespace Text

theorem split_bytes (front back : List Char) :
    takeBytes (byteCount front) (front ++ back) = front ∧
      dropBytes (byteCount front) (front ++ back) = back := by
  induction front with
  | nil =>
      cases back with
      | nil => exact ⟨rfl, rfl⟩
      | cons c rest =>
          have positive := Nat.not_le_of_lt c.utf8Size_pos
          exact ⟨if_neg positive, if_neg positive⟩
  | cons c rest ih =>
      rw [byte_count_cons, List.cons_append, takeBytes, dropBytes, if_pos (Nat.le_add_right _ _),
        if_pos (Nat.le_add_right _ _), Nat.add_sub_cancel_left]
      exact ⟨congrArg (c :: ·) ih.1, ih.2⟩

theorem last_dot_absent {cs : List Char} (absent : '.' ∉ cs) : lastDot? cs = none := by
  induction cs with
  | nil => rfl
  | cons c rest ih =>
      rw [List.mem_cons, not_or] at absent
      rw [lastDot?, ih absent.2]
      exact if_neg (Ne.symm absent.1)

theorem last_dot_append (front : List Char) {back : List Char} (absent : '.' ∉ back) :
    lastDot? (front ++ '.' :: back) = some (byteCount front) := by
  induction front with
  | nil =>
      rw [List.nil_append, lastDot?, last_dot_absent absent]
      rfl
  | cons c rest ih => rw [List.cons_append, lastDot?, ih, byte_count_cons]

end Text

namespace Name

theorem joined_append {front back : List String} (nonempty : front ≠ []) (more : back ≠ []) :
    joined (front ++ back) = joined front ++ "." ++ joined back := by
  induction front with
  | nil => exact absurd rfl nonempty
  | cons first rest ih =>
      cases rest with
      | nil =>
          obtain ⟨second, others, rfl⟩ := List.exists_cons_of_ne_nil more
          rw [List.singleton_append, joined_cons, joined_single]
      | cons second rest =>
          rw [List.cons_append, List.cons_append, joined_cons, joined_cons, ← List.cons_append,
            ih (List.cons_ne_nil _ _)]
          simp only [String.append_assoc]

def tail (names : List String) : List Char :=
  match names with
  | [] => []
  | first :: rest => '.' :: (joined (first :: rest)).toList

theorem joined_tail {front : List String} (nonempty : front ≠ []) (back : List String) :
    (joined (front ++ back)).toList = (joined front).toList ++ tail back := by
  cases back with
  | nil => simp [tail]
  | cons first rest =>
      rw [joined_append nonempty (List.cons_ne_nil _ _)]
      simp [tail]

theorem tail_undotted {names : List String}
    (identifiers : ∀ name ∈ names, isIdentifier name = true) :
    String.ofList ((tail names).dropWhile (· = '.')) = joined names := by
  cases names with
  | nil => rfl
  | cons first rest =>
      obtain ⟨c, others, spelled, isFirst⟩ :=
        path_head (joined_path (List.cons_ne_nil first rest) identifiers)
      have noDot : c ≠ '.' := (first_ne isFirst).1
      rw [tail, spelled, List.dropWhile_cons_of_pos (by decide),
        List.dropWhile_cons_of_neg (by simpa using noDot), ← spelled, String.ofList_toList]

end Name

namespace Arena

/-- One round of the search, at an offset that the path is known to be divided at. -/
theorem split_from_append (a : Arena) (schema : String) (lead front tail : List Char) :
    a.splitFrom schema (lead ++ (front ++ tail)) (front ++ tail) (byteCount front) =
      match a.handle? schema (String.ofList front) (String.ofList front) with
      | some handle => some (handle, String.ofList (tail.dropWhile (· = '.')))
      | none => (lastDot? front).bind
          (a.splitFrom schema (lead ++ (front ++ tail)) (front ++ tail)) := by
  have start : byteCount (lead ++ (front ++ tail)) - (byteCount (front ++ tail) - byteCount front) =
      byteCount (lead ++ front) := by
    simp only [byte_count_append]
    omega
  have rest : dropBytes (byteCount (lead ++ front)) (lead ++ (front ++ tail)) = tail := by
    rw [← List.append_assoc]
    exact (split_bytes _ _).2
  rw [splitFrom, start, rest, (split_bytes front tail).1]
  simp only
  split
  · rfl
  · split <;> simp_all

/-- From any number of leading names on, going back by bytes is going back by names. The leading
names come last one first. -/
theorem split_from_names {a : Arena} {r : Registry} (holds : a.Holds r) (schema : String)
    (lead : List Char) (front back : List String) (nonempty : front ≠ [])
    (identifiers : ∀ name ∈ front.reverse ++ back, Name.isIdentifier name = true) :
    (a.splitFrom schema (lead ++ (Name.joined (front.reverse ++ back)).toList)
        (Name.joined (front.reverse ++ back)).toList
        (byteCount (Name.joined front.reverse).toList)).map
      (fun found => (found.1.target, found.2)) = r.splitAt? schema front back := by
  induction front generalizing back with
  | nil => exact absurd rfl nonempty
  | cons last front ih =>
      have divided := Name.joined_tail (mt List.reverse_eq_nil_iff.mp nonempty) back
      have behind := Name.tail_undotted fun name member =>
        identifiers name (List.mem_append_right _ member)
      rw [divided, split_from_append, Registry.split_at_cons, String.ofList_toList,
        holds_handle holds, behind]
      cases r.handle? schema (Name.joined (last :: front).reverse)
          (Name.joined (last :: front).reverse) with
      | some handle => rfl
      | none =>
          have undotted : '.' ∉ last.toList :=
            Name.dot_not_in_identifier (identifiers last (by simp))
          rw [← divided, List.reverse_cons]
          cases front with
          | nil =>
              have alone : Name.joined ([].reverse ++ [last]) = last := Name.joined_single last
              rw [alone, last_dot_absent undotted]
              rfl
          | cons second front =>
              have parted : (Name.joined ((second :: front).reverse ++ [last])).toList =
                  (Name.joined (second :: front).reverse).toList ++ '.' :: last.toList := by
                rw [Name.joined_tail (by simp)]
                rfl
              rw [parted, last_dot_append _ undotted, Option.bind_some, List.append_assoc]
              refine ih _ (List.cons_ne_nil _ _) fun name member => identifiers name ?_
              simpa [or_assoc] using member

/-- A reference to a value starts at the same field in both, and goes on inside it by the same
path. -/
theorem split_value_agrees {a : Arena} {r : Registry} (holds : a.Holds r) (current ref : String) :
    (a.splitValue? current ref).map (fun found => (found.1.target, found.2)) =
      r.valueHolder? current ref := by
  unfold splitValue? Registry.valueHolder?
  cases read : ExternalName.read? ref with
  | none => rfl
  | some name =>
      have spells := ExternalName.spells_of_read read
      have path := Name.joined_segments name.path
      obtain ⟨lead, whole⟩ : ∃ lead, ref.toList = lead ++ name.path.toList := by
        rw [spells.text]
        cases name.schema with
        | none => exact ⟨[], congrArg String.toList path⟩
        | some schema =>
            refine ⟨("@" ++ schema ++ ".").toList, ?_⟩
            rw [ExternalName.written, path, String.toList_append]
      have nonempty : (Name.segments name.path).reverse ≠ [] :=
        mt List.reverse_eq_nil_iff.mp spells.named
      have split := split_from_names holds (name.schema.getD current) lead _ [] nonempty
        (by simpa using spells.identifiers)
      rw [List.append_nil, List.reverse_reverse, path, ← whole] at split
      exact split

/-- Whatever is registered, the arena and the registry hold the same fields and find them under the
same names. -/
theorem arena_agrees (arrivals : List Arrival) :
    let a := insertAll {} arrivals
    let r := Registry.insertAll {} arrivals
    a.size = r.size ∧ (∀ id, a.get? id = r.get? id) ∧
      (∀ schema, a.fieldsOf schema = r.fieldsOf schema) ∧
      (∀ current ref, a.find? current ref = r.find? current ref) ∧
      ∀ current ref, (a.splitValue? current ref).map (fun found => (found.1.target, found.2)) =
        r.valueHolder? current ref := by
  have holds := insert_all_holds empty_holds arrivals
  exact ⟨holds_size holds, holds_get holds, holds_fields_of holds, holds_find holds,
    split_value_agrees holds⟩

end Arena

end WireSchema
