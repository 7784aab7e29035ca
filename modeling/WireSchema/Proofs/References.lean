import WireSchema.Proofs.Addressing
import WireSchema.Proofs.Paths

/-!
References to values. A reference is read in the field registered under the longest leading part of
its path. A registry that grows keeps that field, so the reference keeps its value until a field is
registered under a longer part; from then on it is read there.
-/

namespace WireSchema

namespace Name

def leading (path : String) (count : Nat) : String := joined ((segments path).take count)

def behind (path : String) (count : Nat) : String := joined ((segments path).drop count)

end Name

namespace Registry

inductive GrowsTo : Registry → Registry → Prop where
  | refl (r : Registry) : GrowsTo r r
  | insert {r next later : Registry} {schema name : String} {field : Field}
      (inserted : r.insert schema name field = .ok next) (grows : GrowsTo next later) :
      GrowsTo r later

theorem extends_of_grows {r later : Registry} (grows : r.GrowsTo later) : r.Extends later := by
  induction grows with
  | refl r => exact extends_refl r
  | insert inserted _ ih =>
      obtain ⟨-, rfl⟩ := (insert_ok_iff _ _ _ _ _).mp inserted
      exact extends_trans (List.prefix_append _ _) ih

end Registry

theorem Registration.add_all_grows (ctx : Context) (r : Registration) (nodes : List Placed) :
    r.registry.GrowsTo (addAll ctx r nodes).registry := by
  induction nodes generalizing r with
  | nil => exact .refl _
  | cons placed rest ih =>
      have later := ih (add ctx r placed)
      rcases add_cases ctx r placed with ⟨_, _, inserted⟩ | ⟨-, same⟩
      · exact .insert inserted later
      · rw [same] at later
        exact later

namespace Registry

def Holds (r : Registry) (schema name : String) (f : Field) : Prop :=
  ∃ id, r.id? schema name = some id ∧ r.get? id = some f

structure ReadsAt (r : Registry) (schema path : String) (count : Nat) (f : Field) : Prop where
  positive : 0 < count
  inside : count ≤ (Name.segments path).length
  held : r.Holds schema (Name.leading path count) f
  longest : ∀ more, count < more → more ≤ (Name.segments path).length →
    r.id? schema (Name.leading path more) = none

structure ReadsIn (r : Registry) (current ref : String) (f : Field) (path : String) : Prop where
  numeric : r.numeric? current ref = f.numeric? path
  real : r.real? current ref = f.real? path
  bool : r.bool? current ref = f.bool? path
  text : r.text? current ref = f.text? path
  data : r.data? current ref = f.data? path

section Reading

variable {r later : Registry} {schema path current ref : String} {f : Field}

theorem handle_cases (r : Registry) (schema name ref : String) :
    r.id? schema name = none ∧ r.handle? schema name ref = none ∨
      ∃ id f, r.id? schema name = some id ∧ r.get? id = some f ∧
        r.handle? schema name ref = some ⟨id, ref, f⟩ := by
  cases found : r.id? schema name with
  | none => exact Or.inl ⟨rfl, by rw [handle?, found]⟩
  | some id =>
      obtain ⟨f, held⟩ := field_of_id found
      exact Or.inr ⟨id, f, rfl, held, handle_of_id found held ref⟩

theorem split_at_cons (r : Registry) (schema last : String) (front rest : List String) :
    r.splitAt? schema (last :: front) rest =
      match r.handle? schema (Name.joined (last :: front).reverse)
          (Name.joined (last :: front).reverse) with
      | some handle => some (handle.target, Name.joined rest)
      | none => r.splitAt? schema front (last :: rest) := by
  rw [splitAt?]
  rfl

/-- One step of the search: the field under these segments, or on with one segment less. -/
theorem split_at_succ (r : Registry) (schema : String) {segments : List String} {k : Nat}
    (inside : k < segments.length) :
    r.splitAt? schema (segments.take (k + 1)).reverse (segments.drop (k + 1)) =
      match r.handle? schema (Name.joined (segments.take (k + 1)))
          (Name.joined (segments.take (k + 1))) with
      | some handle => some (handle.target, Name.joined (segments.drop (k + 1)))
      | none => r.splitAt? schema (segments.take k).reverse (segments.drop k) := by
  have taken : (segments.take (k + 1)).reverse = segments[k] :: (segments.take k).reverse := by
    rw [List.take_succ_eq_append_getElem inside, List.reverse_append]
    rfl
  rw [taken, split_at_cons, ← taken, List.reverse_reverse, List.drop_eq_getElem_cons inside]

/-- The search goes from the whole of the segments down, and stops at the longest part that a field
stands under. -/
theorem split_at_some_iff (r : Registry) (schema : String) {segments : List String} {k : Nat}
    (within : k ≤ segments.length) (f : Field) (rest : String) :
    r.splitAt? schema (segments.take k).reverse (segments.drop k) = some (f, rest) ↔
      ∃ count, 0 < count ∧ count ≤ k ∧ r.Holds schema (Name.joined (segments.take count)) f ∧
        (∀ more, count < more → more ≤ k →
          r.id? schema (Name.joined (segments.take more)) = none) ∧
        rest = Name.joined (segments.drop count) := by
  induction k with
  | zero =>
      constructor
      · intro split
        rw [List.take_zero, List.reverse_nil, splitAt?] at split
        cases split
      · rintro ⟨count, positive, atMost, -⟩
        omega
  | succ k ih =>
      rw [split_at_succ r schema within]
      rcases handle_cases r schema (Name.joined (segments.take (k + 1)))
          (Name.joined (segments.take (k + 1))) with ⟨free, nothing⟩ | ⟨id, g, found, held, handle⟩
      · rw [nothing, ih (by omega)]
        constructor
        · rintro ⟨count, positive, atMost, holds, longest, isRest⟩
          refine ⟨count, positive, by omega, holds, ?_, isRest⟩
          intro more above atMost
          by_cases last : more = k + 1
          · rw [last, free]
          · exact longest more above (by omega)
        · rintro ⟨count, positive, atMost, holds, longest, isRest⟩
          have before : count ≠ k + 1 := by
            rintro rfl
            obtain ⟨id, found, -⟩ := holds
            rw [free] at found
            cases found
          exact ⟨count, positive, by omega, holds,
            fun more above atMost => longest more above (by omega), isRest⟩
      · rw [handle]
        simp only [Option.some.injEq, Prod.mk.injEq]
        constructor
        · rintro ⟨rfl, rfl⟩
          exact ⟨k + 1, by omega, by omega, ⟨id, found, held⟩, by omega, rfl⟩
        · rintro ⟨count, positive, atMost, ⟨id', found', held'⟩, longest, isRest⟩
          have last : count = k + 1 := by
            by_cases before : count < k + 1
            · rw [longest (k + 1) before (Nat.le_refl _)] at found
              cases found
            · omega
          subst last
          rw [found, Option.some.injEq] at found'
          subst found'
          rw [held, Option.some.injEq] at held'
          exact ⟨held', isRest.symm⟩

/-- A reference starts at the field under the longest leading part of its path, and the rest of the
path goes on inside it. -/
theorem value_holder_some_iff (r : Registry) (current ref : String) (f : Field) (rest : String) :
    r.valueHolder? current ref = some (f, rest) ↔
      ∃ name count, ExternalName.read? ref = some name ∧
        r.ReadsAt (name.schema.getD current) name.path count f ∧
        rest = Name.behind name.path count := by
  unfold valueHolder?
  cases ExternalName.read? ref with
  | none => simp
  | some name =>
      have whole := split_at_some_iff r (name.schema.getD current)
        (Nat.le_refl (Name.segments name.path).length) f rest
      rw [List.take_length, List.drop_length] at whole
      simp only [whole]
      constructor
      · rintro ⟨count, positive, inside, holds, longest, isRest⟩
        exact ⟨name, count, rfl, ⟨positive, inside, holds, longest⟩, isRest⟩
      · rintro ⟨_, count, ⟨⟩, reads, isRest⟩
        exact ⟨count, reads.positive, reads.inside, reads.held, reads.longest, isRest⟩

theorem reads_in_of_holder (held : r.valueHolder? current ref = some (f, path)) :
    r.ReadsIn current ref f path := by
  constructor
  · rw [numeric?, held, Option.bind_some]
  · rw [real?, held, Option.bind_some]
  · rw [bool?, held, Option.bind_some]
  · rw [text?, held, Option.bind_some]
  · rw [data?, held, Option.bind_some]

theorem holds_of_extends (extended : r.Extends later) {name : String}
    (holds : r.Holds schema name f) : later.Holds schema name f := by
  obtain ⟨id, found, held⟩ := holds
  exact ⟨id, id_of_extends extended found, get_of_extends extended held⟩

/-- Where a field stands under a leading part of the path, one stands under the longest. -/
theorem reads_at_of_registered {count : Nat} (positive : 0 < count)
    (inside : count ≤ (Name.segments path).length)
    (registered : r.id? schema (Name.leading path count) ≠ none) :
    ∃ longest f, count ≤ longest ∧ r.ReadsAt schema path longest f := by
  by_cases last : ∀ more, count < more → more ≤ (Name.segments path).length →
      r.id? schema (Name.leading path more) = none
  · obtain ⟨id, found⟩ := Option.ne_none_iff_exists'.mp registered
    obtain ⟨f, held⟩ := field_of_id found
    exact ⟨count, f, Nat.le_refl _, ⟨positive, inside, ⟨id, found, held⟩, last⟩⟩
  · simp only [Classical.not_forall] at last
    obtain ⟨more, above, within, known⟩ := last
    obtain ⟨longest, f, atLeast, reads⟩ := reads_at_of_registered (by omega) within known
    exact ⟨longest, f, by omega, reads⟩
termination_by (Name.segments path).length - count

/-- A field came under a longer leading part of the path than the one that the reference was read
through. -/
def Overtaken (r later : Registry) (current ref : String) : Prop :=
  ∃ name count f more, ExternalName.read? ref = some name ∧
    r.ReadsAt (name.schema.getD current) name.path count f ∧
    count < more ∧ more ≤ (Name.segments name.path).length ∧
    later.id? (name.schema.getD current) (Name.leading name.path more) ≠ none

structure Keeps (r later : Registry) (current ref : String) : Prop where
  numeric : ∀ value, r.numeric? current ref = some value →
    later.numeric? current ref = some value
  real : ∀ value, r.real? current ref = some value → later.real? current ref = some value
  bool : ∀ value, r.bool? current ref = some value → later.bool? current ref = some value
  text : ∀ value, r.text? current ref = some value → later.text? current ref = some value
  data : ∀ value, r.data? current ref = some value → later.data? current ref = some value

theorem keeps_of_holder
    (same : ∀ start, r.valueHolder? current ref = some start →
      later.valueHolder? current ref = some start) : r.Keeps later current ref := by
  have kept {α : Type} (read : Field × String → Option α) (value : α)
      (found : (r.valueHolder? current ref).bind read = some value) :
      (later.valueHolder? current ref).bind read = some value := by
    obtain ⟨start, held, reads⟩ := Option.bind_eq_some_iff.mp found
    exact Option.bind_eq_some_iff.mpr ⟨start, same start held, reads⟩
  exact ⟨kept _, kept _, kept _, kept _, kept _⟩

theorem reads_at_kept (extended : r.Extends later) {count : Nat}
    (reads : r.ReadsAt schema path count f)
    (longest : ∀ more, count < more → more ≤ (Name.segments path).length →
      later.id? schema (Name.leading path more) = none) :
    later.ReadsAt schema path count f :=
  ⟨reads.positive, reads.inside, holds_of_extends extended reads.held, longest⟩

end Reading

/-- However a registry grows, a reference keeps each value that is read from it, unless a field is
registered, in the schema that the reference addresses, under a longer leading part of its path than
the one it is read through. From then on it is read in such a field. -/
theorem references_kept_unless_overtaken {r later : Registry} (grows : r.GrowsTo later)
    (current ref : String) :
    (¬r.Overtaken later current ref → r.Keeps later current ref) ∧
      (r.Overtaken later current ref → ∃ name count f, ExternalName.read? ref = some name ∧
        r.id? (name.schema.getD current) (Name.leading name.path count) = none ∧
        later.ReadsAt (name.schema.getD current) name.path count f ∧
        later.ReadsIn current ref f (Name.behind name.path count)) := by
  have extended := extends_of_grows grows
  constructor
  · intro alone
    apply keeps_of_holder
    rintro ⟨f, rest⟩ held
    rw [value_holder_some_iff] at held ⊢
    obtain ⟨name, count, isName, reads, isRest⟩ := held
    refine ⟨name, count, isName, reads_at_kept extended reads ?_, isRest⟩
    intro more above within
    by_cases free : later.id? (name.schema.getD current) (Name.leading name.path more) = none
    · exact free
    · exact absurd ⟨name, count, f, more, isName, reads, above, within, free⟩ alone
  · rintro ⟨name, count, f, more, isName, reads, above, within, taken⟩
    obtain ⟨longest, g, atLeast, readsLater⟩ := reads_at_of_registered (by omega) within taken
    refine ⟨name, longest, g, isName,
      reads.longest longest (by omega) readsLater.inside, readsLater, ?_⟩
    exact reads_in_of_holder ((value_holder_some_iff _ _ _ _ _).mpr
      ⟨name, longest, isName, readsLater, rfl⟩)

def sharedNames : List Placed :=
  [⟨"", ⟨"enum", [("name", "A"), ("type", "uint8")],
      [⟨"validValue", [("name", "B"), ("val", "1")], [], "", 1⟩], "", 1⟩⟩,
    ⟨"", ⟨"int", [("name", "X"), ("type", "uint8"), ("defaultValue", "A.B")], [], "", 1⟩⟩,
    ⟨"A", ⟨"int", [("name", "B"), ("type", "uint8"), ("defaultValue", "5")], [], "", 1⟩⟩,
    ⟨"", ⟨"int", [("name", "Y"), ("type", "uint8"), ("defaultValue", "A.B")], [], "", 1⟩⟩]

def shared (count : Nat) : Registry :=
  (Registration.addAll { name := "S" } { registry := {} } (sharedNames.take count)).registry

theorem shared_grows {count more : Nat} (atLeast : count ≤ more) :
    (shared count).GrowsTo (shared more) := by
  have taken : sharedNames.take more =
      sharedNames.take count ++ (sharedNames.take more).drop count := by
    rw [← Nat.min_eq_left atLeast, ← List.take_take, Nat.min_eq_left atLeast,
      List.take_append_drop]
  rw [shared, shared, taken, Registration.addAll, Registration.addAll, List.foldl_append]
  exact Registration.add_all_grows _ _ _

/-- The integer after the enumeration leaves the reference alone, and the field of the namespace
takes it over. -/
theorem shared_name_kept_then_overtaken :
    (shared 1).Keeps (shared 2) "S" "A.B" ∧ (shared 2).numeric? "S" "A.B" = some 1 ∧
      (shared 2).Overtaken (shared 3) "S" "A.B" ∧
      ∃ f, (shared 3).ReadsAt "S" "A.B" 2 f ∧ (shared 3).ReadsIn "S" "A.B" f "" := by
  have name : ExternalName.read? "A.B" = some ⟨none, "A.B"⟩ := by decide +kernel
  have two : (Name.segments "A.B").length ≤ 2 := by decide +kernel
  obtain ⟨first, free, last, taken⟩ :
      (shared 1).numeric? "S" "A.B" = some 1 ∧
        (shared 2).id? "S" (Name.leading "A.B" 2) = none ∧
        (shared 3).numeric? "S" "A.B" = some 5 ∧
        (shared 2).id? "S" (Name.leading "A.B" 1) = some 0 := by
    decide +kernel
  have alone : ¬(shared 1).Overtaken (shared 2) "S" "A.B" := by
    rintro ⟨name', count, f, more, isName, reads, above, within, came⟩
    cases name.symm.trans isName
    have positive := reads.positive
    have atMost := Nat.le_trans within two
    have whole : more = 2 := by omega
    rw [whole] at came
    exact came free
  have kept := (references_kept_unless_overtaken (shared_grows (by decide)) "S" "A.B").1 alone
  have second := kept.numeric 1 first
  obtain ⟨keptOr, overtakes⟩ := references_kept_unless_overtaken
    (shared_grows (show 2 ≤ 3 by decide)) "S" "A.B"
  have overtaken : (shared 2).Overtaken (shared 3) "S" "A.B" := by
    by_cases overtaken : (shared 2).Overtaken (shared 3) "S" "A.B"
    · exact overtaken
    · cases last.symm.trans ((keptOr overtaken).numeric 1 second)
  obtain ⟨name', count, f, isName, new, reads, readsIn⟩ := overtakes overtaken
  cases name.symm.trans isName
  have positive := reads.positive
  have atMost := Nat.le_trans reads.inside two
  have whole : count = 2 := by
    by_cases single : count = 1
    · rw [single] at new
      cases taken.symm.trans new
    · omega
  rw [whole] at reads readsIn
  exact ⟨kept, second, overtaken, f, reads, readsIn⟩

/-- Between two integers with the same default a field of the namespace is registered: the first one
has the value of the enumeration and the second one that of the field. -/
theorem later_field_takes_reference :
    GrowsTo {} (shared 2) ∧ (shared 2).numeric? "S" "A.B" = some 1 ∧
      (shared 2).GrowsTo (shared 4) ∧ (shared 4).numeric? "S" "A.B" = some 5 ∧
      (shared 4).numeric? "S" "X" = some 1 ∧ (shared 4).numeric? "S" "Y" = some 5 := by
  obtain ⟨before, after, x, y⟩ :
      (shared 2).numeric? "S" "A.B" = some 1 ∧ (shared 4).numeric? "S" "A.B" = some 5 ∧
        (shared 4).numeric? "S" "X" = some 1 ∧ (shared 4).numeric? "S" "Y" = some 5 := by
    decide +kernel
  exact ⟨shared_grows (Nat.zero_le 2), before, shared_grows (by decide), after, x, y⟩

end Registry

end WireSchema
