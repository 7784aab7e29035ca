import WireSchema.Proofs.References

/-!
External names as they are written: identifiers joined by dots, with the schema they are addressed to
in front. A text is read as an external name exactly if it is one. A reference to a value is looked for
in the schema that it addresses: the more of its leading names a field is registered under, the sooner
it is found, and the names behind those go on inside the field.
-/

namespace WireSchema

namespace Text

theorem cut_at_some {mark : Char} {cs front back : List Char}
    (cut : cutAt mark cs = some (front, back)) : cs = front ++ mark :: back := by
  induction cs generalizing front with
  | nil => cases cut
  | cons c rest ih =>
      rw [cutAt] at cut
      split at cut
      · rename_i isMark
        cases cut
        rw [isMark, List.nil_append]
      · obtain ⟨⟨before, after⟩, found, same⟩ := Option.map_eq_some_iff.mp cut
        cases same
        rw [ih found, List.cons_append]

end Text

namespace Name

/-- A path is its segments, joined. -/
theorem joined_segments (path : String) : joined (segments path) = path := by
  have spelled (cs : List Char) :
      joined ((Text.pieces '.' cs).map String.ofList) = String.ofList cs := by
    induction cs with
    | nil => exact joined_single _
    | cons c rest ih =>
        obtain ⟨first, others, cut⟩ := List.exists_cons_of_ne_nil (Text.pieces_ne_nil '.' rest)
        rw [cut, List.map_cons] at ih
        -- A dot puts an empty piece in front; another character goes to the first piece.
        by_cases dot : c = '.'
        · have split : Text.pieces '.' (c :: rest) = [] :: first :: others := by
            simp [Text.pieces, dot, cut]
          rw [split, List.map_cons, List.map_cons, joined_cons, ih, dot, ← List.singleton_append,
            String.ofList_append]
          rfl
        · have split : Text.pieces '.' (c :: rest) = (c :: first) :: others := by
            simp [Text.pieces, dot, cut]
          rw [split, List.map_cons, ← List.singleton_append (x := c) (l := rest),
            String.ofList_append, ← ih]
          cases others with
          | nil => simp only [List.map_nil, joined_single, ← String.ofList_append,
              List.singleton_append]
          | cons second others =>
              simp only [List.map_cons, joined_cons, ← String.append_assoc, ← String.ofList_append,
                List.singleton_append]
  rw [segments, spelled, String.ofList_toList]

/-- Identifiers are the segments of the path they are joined to. -/
theorem segments_joined {names : List String} (some : names ≠ [])
    (identifiers : ∀ name ∈ names, isIdentifier name = true) : segments (joined names) = names := by
  induction names with
  | nil => exact absurd rfl some
  | cons first rest ih =>
      rw [List.forall_mem_cons] at identifiers
      have alone : Text.pieces '.' first.toList = [first.toList] :=
        Text.pieces_of_absent '.' _ (dot_not_in_identifier identifiers.1)
      cases rest with
      | nil => rw [joined_single, segments, alone, List.map_singleton, String.ofList_toList]
      | cons second rest =>
          have later := ih (List.cons_ne_nil _ _) identifiers.2
          have spelled : (joined (first :: second :: rest)).toList =
              first.toList ++ '.' :: (joined (second :: rest)).toList := by
            simp [joined_cons]
          rw [segments] at later ⊢
          rw [spelled, Text.pieces_append, alone, List.singleton_append, List.map_cons, later,
            String.ofList_toList]

theorem segments_identifiers {path : String} (isPath : Name.isPath path = true) :
    ∀ name ∈ segments path, isIdentifier name = true := by
  intro name member
  obtain ⟨piece, inside, rfl⟩ := List.mem_map.mp member
  rw [isIdentifier, String.toList_ofList]
  exact List.all_eq_true.mp isPath piece inside

theorem segments_ne_nil (path : String) : segments path ≠ [] := by
  rw [segments, Ne, List.map_eq_nil_iff]
  exact Text.pieces_ne_nil '.' _

end Name

namespace ExternalName

def written (schema : Option String) (names : List String) : String :=
  match schema with
  | none => Name.joined names
  | some schema => "@" ++ schema ++ "." ++ Name.joined names

structure Spells (ref : String) (schema : Option String) (names : List String) : Prop where
  named : names ≠ []
  identifiers : ∀ name ∈ names, Name.isIdentifier name = true
  addressed : ∀ name ∈ schema, Name.isIdentifier name = true
  text : ref = written schema names

theorem read_spelled {ref : String} {schema : Option String} {names : List String}
    (spells : Spells ref schema names) : read? ref = some ⟨schema, Name.joined names⟩ := by
  have path := Name.joined_path spells.named spells.identifiers
  rw [spells.text]
  cases schema with
  | none => exact read_path path
  | some schema => exact read_addressed (spells.addressed schema rfl) path

theorem spells_of_read {ref : String} {name : ExternalName} (read : read? ref = some name) :
    Spells ref name.schema (Name.segments name.path) := by
  have spelled (schema : Option String) (path : String) (isPath : Name.isPath path = true)
      (addressed : ∀ name ∈ schema, Name.isIdentifier name = true)
      (text : ref = written schema (Name.segments path)) :
      Spells ref schema (Name.segments path) :=
    ⟨Name.segments_ne_nil path, Name.segments_identifiers isPath, addressed, text⟩
  unfold read? at read
  split at read
  · rename_i rest behind
    split at read
    · rename_i schema path cut
      split at read
      · rename_i isName
        rw [Bool.and_eq_true] at isName
        cases read
        refine spelled _ _ ?_ ?_ ?_
        · rw [Name.isPath, String.toList_ofList]
          exact isName.2
        · rintro _ ⟨⟩
          rw [Name.isIdentifier, String.toList_ofList]
          exact isName.1
        · rw [written, Name.joined_segments, ← String.toList_inj, behind, Text.cut_at_some cut]
          simp
      · cases read
    · cases read
  · split at read
    · rename_i isPath
      cases read
      exact spelled none ref isPath (fun _ member => by cases member)
        (Name.joined_segments ref).symm
    · cases read

end ExternalName

namespace Registry

/-- In the schema, the field stands under the first names, and none stands under more of them. -/
structure StandsUnder (r : Registry) (schema : String) (names : List String) (count : Nat)
    (f : Field) : Prop where
  positive : 0 < count
  inside : count ≤ names.length
  held : r.Holds schema (Name.joined (names.take count)) f
  longest : ∀ more, count < more → more ≤ names.length →
    r.id? schema (Name.joined (names.take more)) = none

structure ReadsNothing (r : Registry) (current ref : String) : Prop where
  numeric : r.numeric? current ref = none
  real : r.real? current ref = none
  bool : r.bool? current ref = none
  text : r.text? current ref = none
  data : r.data? current ref = none

section Spelled

variable {r : Registry} {current ref : String} {schema : Option String} {names : List String}

theorem reads_nothing_of_holder (none : r.valueHolder? current ref = none) :
    r.ReadsNothing current ref := by
  constructor
  · rw [numeric?, none, Option.bind_none]
  · rw [real?, none, Option.bind_none]
  · rw [bool?, none, Option.bind_none]
  · rw [text?, none, Option.bind_none]
  · rw [data?, none, Option.bind_none]

/-- The field that a written name starts at stands under as many of its names as any does. -/
theorem holder_spelled_iff (spells : ExternalName.Spells ref schema names) (f : Field)
    (rest : String) :
    r.valueHolder? current ref = some (f, rest) ↔
      ∃ count, r.StandsUnder (schema.getD current) names count f ∧
        rest = Name.joined (names.drop count) := by
  have segments := Name.segments_joined spells.named spells.identifiers
  simp only [value_holder_some_iff, ExternalName.read_spelled spells, Option.some.injEq]
  constructor
  · rintro ⟨_, count, rfl, ⟨positive, inside, held, longest⟩, isRest⟩
    simp only [Name.leading, Name.behind, segments] at inside held longest isRest
    exact ⟨count, ⟨positive, inside, held, longest⟩, isRest⟩
  · rintro ⟨count, ⟨positive, inside, held, longest⟩, isRest⟩
    refine ⟨_, count, rfl, ⟨positive, ?_, ?_, ?_⟩, ?_⟩
    all_goals simp only [Name.leading, Name.behind, segments]
    all_goals assumption

end Spelled

/-- A text that is no external name has no value in any registry. One that is has the value that the
field registered under most of its leading names has at the path of the names behind them, in the
schema that it addresses or else the current one, and none if no field is registered under any. -/
theorem values_read_under_most_names (r : Registry) (current ref : String) :
    ((¬∃ schema names, ExternalName.Spells ref schema names) → r.ReadsNothing current ref) ∧
    ∀ schema names, ExternalName.Spells ref schema names →
      (∀ count f, r.StandsUnder (schema.getD current) names count f →
        r.ReadsIn current ref f (Name.joined (names.drop count))) ∧
      ((∀ count, 0 < count → count ≤ names.length →
          r.id? (schema.getD current) (Name.joined (names.take count)) = none) →
        r.ReadsNothing current ref) := by
  constructor
  · intro malformed
    apply reads_nothing_of_holder
    cases read : ExternalName.read? ref with
    | none => rw [valueHolder?, read]
    | some name => exact absurd ⟨_, _, ExternalName.spells_of_read read⟩ malformed
  · intro schema names spells
    constructor
    · intro count f stands
      exact reads_in_of_holder ((holder_spelled_iff spells f _).mpr ⟨count, stands, rfl⟩)
    · intro unregistered
      apply reads_nothing_of_holder
      cases held : r.valueHolder? current ref with
      | none => rfl
      | some start =>
          obtain ⟨count, stands, -⟩ := (holder_spelled_iff spells start.1 start.2).mp held
          obtain ⟨id, found, -⟩ := stands.held
          cases (unregistered count stands.positive stands.inside).symm.trans found

/-- The enumeration `A` has a value `B`. Addressed from another schema, `A.B` is that value until the
field `B` of the namespace `A` is registered, and then it is that field. -/
theorem shared_name_read_under_most_names :
    (∃ f, (shared 1).ReadsIn "T" "@S.A.B" f "B") ∧ (shared 1).numeric? "T" "@S.A.B" = some 1 ∧
      (∃ f, (shared 3).ReadsIn "T" "@S.A.B" f "") ∧ (shared 3).numeric? "T" "@S.A.B" = some 5 ∧
      (shared 3).ReadsNothing "T" "A.B" ∧ (shared 3).ReadsNothing "S" "A..B" := by
  obtain ⟨first, above, single, last, double, noneOne, noneTwo⟩ :
      (shared 1).id? "S" "A" = some 0 ∧ (shared 1).id? "S" "A.B" = none ∧
        (shared 1).numeric? "T" "@S.A.B" = some 1 ∧ (shared 3).id? "S" "A.B" = some 2 ∧
        (shared 3).numeric? "T" "@S.A.B" = some 5 ∧ (shared 3).id? "T" "A" = none ∧
        (shared 3).id? "T" "A.B" = none := by
    decide +kernel
  have one : Name.joined (["A", "B"].take 1) = "A" := by decide +kernel
  have two : Name.joined (["A", "B"].take 2) = "A.B" := by decide +kernel
  have addressed : ExternalName.Spells "@S.A.B" (some "S") ["A", "B"] :=
    ⟨by decide, by decide, by decide, by decide +kernel⟩
  have unaddressed : ExternalName.Spells "A.B" none ["A", "B"] :=
    ⟨by decide, by decide, by decide, by decide +kernel⟩
  have malformed : ¬∃ schema names, ExternalName.Spells "A..B" schema names := by
    rintro ⟨schema, names, spells⟩
    have read : ExternalName.read? "A..B" = none := by decide +kernel
    cases read.symm.trans (ExternalName.read_spelled spells)
  have counts {count : Nat} (positive : 0 < count) (inside : count ≤ ["A", "B"].length) :
      count = 1 ∨ count = 2 := by
    rw [List.length_cons, List.length_singleton] at inside
    omega
  refine ⟨?_, single, ?_, double, ?_, (values_read_under_most_names _ _ _).1 malformed⟩
  · obtain ⟨f, held⟩ := field_of_id first
    refine ⟨f, ((values_read_under_most_names _ _ _).2 _ _ addressed).1 1 f
      ⟨by decide, by decide, one ▸ ⟨0, first, held⟩, ?_⟩⟩
    intro more longer inside
    rcases counts (Nat.lt_trans Nat.zero_lt_one longer) inside with rfl | rfl
    · exact absurd longer (by decide)
    · exact two ▸ above
  · obtain ⟨f, held⟩ := field_of_id last
    refine ⟨f, ((values_read_under_most_names _ _ _).2 _ _ addressed).1 2 f
      ⟨by decide, by decide, two ▸ ⟨2, last, held⟩, ?_⟩⟩
    intro more longer inside
    exact absurd (Nat.lt_of_lt_of_le longer inside) (by decide)
  · apply ((values_read_under_most_names _ _ _).2 _ _ unaddressed).2
    intro count positive inside
    rcases counts positive inside with rfl | rfl
    · exact one ▸ noneOne
    · exact two ▸ noneTwo

end Registry

end WireSchema
