import WireSchema.Name

/-!
Names that fit together: a qualified name is a path, a path is read back as a name in the schema
at hand, and with a schema in front of it as a name there. Names of one scope are identifiers, and
no two are the same.
-/

namespace WireSchema

theorem nodup_push {α : Type} {known : List α} {a : α} (distinct : known.Nodup) (new : a ∉ known) :
    (known ++ [a]).Nodup := by
  rw [List.nodup_append]
  refine ⟨distinct, List.pairwise_singleton _ _, ?_⟩
  rintro old isOld _ isLast rfl
  cases List.mem_singleton.mp isLast
  exact new isOld

namespace Text

theorem cut_at_append (mark : Char) (front back : List Char) (absent : mark ∉ front) :
    cutAt mark (front ++ mark :: back) = some (front, back) := by
  induction front with
  | nil => simp [cutAt]
  | cons c rest ih =>
      have different : c ≠ mark := fun same => absent (by simp [same])
      have inRest : mark ∉ rest := fun member => absent (List.mem_cons_of_mem c member)
      simp [cutAt, different, ih inRest]

theorem pieces_of_absent (mark : Char) (cs : List Char) (absent : mark ∉ cs) :
    pieces mark cs = [cs] := by
  induction cs with
  | nil => rfl
  | cons c rest ih =>
      have different : c ≠ mark := fun same => absent (by simp [same])
      have inRest : mark ∉ rest := fun member => absent (List.mem_cons_of_mem c member)
      simp [pieces, different, ih inRest]

theorem pieces_ne_nil (mark : Char) (cs : List Char) : pieces mark cs ≠ [] := by
  cases cs with
  | nil => simp [pieces]
  | cons c rest =>
      simp only [pieces]
      split
      · simp
      · split <;> simp

theorem pieces_append (mark : Char) (front back : List Char) :
    pieces mark (front ++ mark :: back) = pieces mark front ++ pieces mark back := by
  induction front with
  | nil => simp [pieces]
  | cons c rest ih =>
      by_cases same : c = mark
      · simp [pieces, same, ih]
      · obtain ⟨first, others, cut⟩ := List.exists_cons_of_ne_nil (pieces_ne_nil mark rest)
        simp [pieces, same, ih, cut]

end Text

namespace Name

theorem first_ne {c : Char} (first : isFirst c = true) : c ≠ '.' ∧ c ≠ '@' := by
  constructor <;> rintro rfl <;> exact absurd first (by decide)

theorem later_ne_dot {c : Char} (later : isLater c = true) : c ≠ '.' := by
  rintro rfl
  exact absurd later (by decide)

theorem dot_not_in_identifier {cs : List Char} (identifier : isIdentifierList cs = true) :
    '.' ∉ cs := by
  cases cs with
  | nil => simp
  | cons c rest =>
      rw [isIdentifierList, Bool.and_eq_true, List.all_eq_true] at identifier
      intro member
      rcases List.mem_cons.mp member with same | inRest
      · exact (first_ne identifier.1).1 same.symm
      · exact later_ne_dot (identifier.2 '.' inRest) rfl

theorem path_of_identifier {cs : List Char} (identifier : isIdentifierList cs = true) :
    isPathList cs = true := by
  rw [isPathList, Text.pieces_of_absent '.' cs (dot_not_in_identifier identifier)]
  simp [identifier]

theorem path_append (front back : List Char) :
    isPathList (front ++ '.' :: back) = (isPathList front && isPathList back) := by
  simp [isPathList, Text.pieces_append]

theorem path_head {cs : List Char} (path : isPathList cs = true) :
    ∃ c rest, cs = c :: rest ∧ isFirst c = true := by
  cases cs with
  | nil => exact absurd path (by decide)
  | cons c rest =>
      refine ⟨c, rest, rfl, ?_⟩
      by_cases dot : c = '.'
      · -- A dot in front leaves an empty first piece.
        simp [isPathList, Text.pieces, dot, isIdentifierList] at path
      · simp only [isPathList, Text.pieces, dot, ↓reduceIte] at path
        cases found : Text.pieces '.' rest with
        | nil =>
            simp only [found, List.all_cons, isIdentifierList, Bool.and_eq_true] at path
            exact path.1.1
        | cons first others =>
            simp only [found, List.all_cons, isIdentifierList, Bool.and_eq_true] at path
            exact path.1.1

def IsNamespace (ns : String) : Prop := ns = "" ∨ isPath ns = true

theorem qualify_path {ns name : String} (inside : IsNamespace ns)
    (identifier : isIdentifier name = true) : isPath (qualify ns name) = true := by
  have own : isPathList name.toList = true := path_of_identifier identifier
  unfold qualify
  split
  · exact own
  · rename_i nested
    have outer : isPathList ns.toList = true := inside.resolve_left nested
    have joined : (ns ++ "." ++ name).toList = ns.toList ++ '.' :: name.toList := by simp
    rw [isPath, joined, path_append, outer, own]
    rfl

structure Scope (names : List String) : Prop where
  valid : ∀ name ∈ names, isIdentifier name = true
  distinct : names.Nodup

def IsNew (known : List String) (name : String) : Prop :=
  isIdentifier name = true ∧ name ∉ known

theorem scope_nil : Scope [] :=
  ⟨fun _ member => absurd member List.not_mem_nil, List.nodup_nil⟩

theorem scope_push {known : List String} {name : String} (scope : Scope known)
    (new : IsNew known name) : Scope (known ++ [name]) := by
  refine ⟨?_, nodup_push scope.distinct new.2⟩
  rw [List.forall_mem_append]
  exact ⟨scope.valid, List.forall_mem_singleton.mpr new.1⟩

end Name

namespace ExternalName

theorem read_path {path : String} (isPath : Name.isPath path = true) :
    read? path = some ⟨none, path⟩ := by
  obtain ⟨c, rest, spelled, first⟩ := Name.path_head isPath
  have notAddressed : c ≠ '@' := (Name.first_ne first).2
  have whole : Name.isPathList (c :: rest) = true := spelled ▸ isPath
  unfold read?
  rw [spelled]
  split
  · rename_i same
    exact absurd (List.cons.inj same).1 notAddressed
  · rw [whole]
    rfl

theorem read_addressed {schema path : String} (identifier : Name.isIdentifier schema = true)
    (isPath : Name.isPath path = true) :
    read? ("@" ++ schema ++ "." ++ path) = some ⟨some schema, path⟩ := by
  have spelled : ("@" ++ schema ++ "." ++ path).toList =
      '@' :: (schema.toList ++ '.' :: path.toList) := by simp
  have own : Name.isIdentifierList schema.toList = true := identifier
  have inside : Name.isPathList path.toList = true := isPath
  simp [read?, spelled, Text.cut_at_append '.' _ _ (Name.dot_not_in_identifier own), own, inside]

end ExternalName

end WireSchema
