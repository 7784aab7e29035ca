import WireSchema.Proofs.Paths

/-!
Replacing members by name. Each replacement is checked against the members as the ones before it
left them, but a replacement that passes has the name and the window of the member whose place it
takes. So the checks can as well be made against the members as they were at first, and what stands
in a place at the end is the last replacement of its name.
-/

namespace WireSchema

namespace Field

variable {place : Place} {members replacements changed : List Field}

def windowAt? (members : List Field) (name : String) : Option Window :=
  (named? members name).map Field.window

theorem replace_member_ok_iff {replacement : Field} :
    replaceMember place members replacement = .ok changed ↔
      windowAt? members replacement.name = some replacement.window ∧
        changed = replaceFirst replacement members := by
  constructor
  · intro replaced
    obtain ⟨old, found, same, rfl⟩ := replace_member_ok replaced
    exact ⟨by rw [windowAt?, found, Option.map_some, same], rfl⟩
  · rintro ⟨held, rfl⟩
    obtain ⟨old, found, same⟩ := Option.map_eq_some_iff.mp held
    simp only [replaceMember, found, if_pos same]

/-- A replacement with the window of its member leaves all windows as they are. -/
theorem window_at_replace_first {replacement : Field}
    (held : windowAt? members replacement.name = some replacement.window) (name : String) :
    windowAt? (replaceFirst replacement members) name = windowAt? members name := by
  rw [windowAt?, named_replace_first]
  by_cases same : replacement.name = name
  · subst same
    rw [if_pos rfl, held]
    obtain ⟨old, found, -⟩ := Option.map_eq_some_iff.mp held
    rw [found]
    rfl
  · rw [if_neg same, windowAt?]

/-- All replacements are made exactly if each has the window that stood under its name at first. -/
theorem replace_members_ok_iff :
    (∃ changed, replaceMembers place members replacements = .ok changed) ↔
      ∀ r ∈ replacements, windowAt? members r.name = some r.window := by
  induction replacements generalizing members with
  | nil => simp [replaceMembers]
  | cons replacement rest ih =>
      rw [List.forall_mem_cons]
      simp only [replaceMembers, except_bind_ok, replace_member_ok_iff]
      constructor
      · rintro ⟨changed, first, ⟨held, rfl⟩, ofRest⟩
        refine ⟨held, fun r member => ?_⟩
        rw [← window_at_replace_first held]
        exact ih.mp ⟨changed, ofRest⟩ r member
      · rintro ⟨held, others⟩
        have later : ∀ r ∈ rest,
            windowAt? (replaceFirst replacement members) r.name = some r.window := by
          intro r member
          rw [window_at_replace_first held]
          exact others r member
        obtain ⟨changed, ofRest⟩ := ih.mpr later
        exact ⟨changed, _, ⟨held, rfl⟩, ofRest⟩

theorem replace_members_window_at
    (replaced : replaceMembers place members replacements = .ok changed) (name : String) :
    windowAt? changed name = windowAt? members name := by
  induction replacements generalizing members with
  | nil =>
      cases replaced
      rfl
  | cons replacement rest ih =>
      simp only [replaceMembers, except_bind_ok, replace_member_ok_iff] at replaced
      obtain ⟨first, ⟨held, rfl⟩, ofRest⟩ := replaced
      rw [ih ofRest, window_at_replace_first held]

def Suits (members : List Field) (replacement : Field) : Prop :=
  ∃ m ∈ members, m.name = replacement.name ∧
    m.window.since = replacement.window.since ∧
    m.window.deprecated = replacement.window.deprecated

theorem suits_iff (distinct : (members.map Field.name).Nodup) (replacement : Field) :
    Suits members replacement ↔
      windowAt? members replacement.name = some replacement.window := by
  constructor
  · rintro ⟨m, member, named, since, deprecated⟩
    have same : m.window = replacement.window := by
      rw [Window.mk.injEq]
      exact ⟨since, deprecated⟩
    rw [windowAt?, ← named, named_of_mem distinct member, Option.map_some, same]
  · intro held
    obtain ⟨m, found, same⟩ := Option.map_eq_some_iff.mp held
    have named := List.find?_some found
    exact ⟨m, List.mem_of_find?_eq_some found, beq_iff_eq.mp named, by rw [same], by rw [same]⟩

def IsLastNamed (fields : List Field) (name : String) (f : Field) : Prop :=
  ∃ before after, fields = before ++ f :: after ∧ f.name = name ∧ ∀ g ∈ after, g.name ≠ name

theorem named_reverse_none {fields : List Field} {name : String}
    (others : ∀ f ∈ fields, f.name ≠ name) : named? fields.reverse name = none := by
  rw [named?, List.find?_eq_none]
  intro f member hit
  exact others f (List.mem_reverse.mp member) (beq_iff_eq.mp hit)

theorem named_reverse_last {fields : List Field} {name : String} {f : Field}
    (last : IsLastNamed fields name f) : named? fields.reverse name = some f := by
  obtain ⟨before, after, rfl, isName, others⟩ := last
  have behind := named_reverse_none others
  rw [named?] at behind
  rw [List.reverse_append, List.reverse_cons, List.append_assoc, named?, List.find?_append, behind,
    Option.none_or]
  exact (named_cons f before.reverse name).trans (if_pos isName)

/-- A place keeps its name, so what is found under that name is what stands there. -/
theorem replaced_at (distinct : (members.map Field.name).Nodup)
    (replaced : replaceMembers place members replacements = .ok changed) {i : Nat} {m : Field}
    (here : members[i]? = some m) :
    changed[i]? = named? changed m.name := by
  have names := replace_members_names replaced
  have name : (changed[i]?).map Field.name = some m.name := by
    rw [← List.getElem?_map, names, List.getElem?_map, here, Option.map_some]
  obtain ⟨c, there, same⟩ := Option.map_eq_some_iff.mp name
  rw [there, ← same, named_of_mem (names ▸ distinct) (List.mem_of_getElem? there)]

/-- Members with different names are replaced exactly if each replacement names one of them and has
its window. Then the places keep their names and windows, and all that changes is that the places
named by replacements hold the last replacement of their name. -/
theorem members_replaced_exactly (place : Place) (members replacements : List Field)
    (distinct : (members.map Field.name).Nodup) :
    ((∃ changed, replaceMembers place members replacements = .ok changed) ↔
      ∀ r ∈ replacements, Suits members r) ∧
    ∀ changed, replaceMembers place members replacements = .ok changed →
      changed.length = members.length ∧
      changed.map Field.name = members.map Field.name ∧
      changed.map Field.window = members.map Field.window ∧
      ∀ (i : Nat) (m : Field), members[i]? = some m →
        (∀ r, IsLastNamed replacements m.name r → changed[i]? = some r) ∧
        ((∀ r ∈ replacements, r.name ≠ m.name) → changed[i]? = some m) := by
  refine ⟨?_, fun changed replaced => ?_⟩
  · rw [replace_members_ok_iff]
    exact forall₂_congr fun r _ => (suits_iff distinct r).symm
  · have names := replace_members_names replaced
    have length : changed.length = members.length := by
      simpa using congrArg List.length names
    refine ⟨length, names, ?_, fun i m here => ?_⟩
    · apply List.ext_getElem?
      intro i
      rw [List.getElem?_map, List.getElem?_map]
      cases here : members[i]? with
      | none =>
          rw [List.getElem?_eq_none_iff, ← length, ← List.getElem?_eq_none_iff] at here
          rw [here]
      | some m =>
          have found := named_of_mem distinct (List.mem_of_getElem? here)
          rw [replaced_at distinct replaced here, ← windowAt?, replace_members_window_at replaced,
            windowAt?, found]
    · have found := named_of_mem distinct (List.mem_of_getElem? here)
      rw [replaced_at distinct replaced here, replace_members_named replaced, found]
      constructor
      · intro r last
        rw [named_reverse_last last, Option.some_or]
      · intro others
        rw [named_reverse_none others, Option.none_or]

def plainMembers : List Field :=
  [⟨{ name := "a", line := 1 }, .blank .int⟩,
    ⟨{ name := "b", line := 2, window := ⟨2, never⟩ }, .blank .int⟩,
    ⟨{ name := "c", line := 3 }, .blank .set⟩]

def repeatedReplacements : List Field :=
  [⟨{ name := "b", line := 5, window := ⟨2, never⟩ }, .blank .string⟩,
    ⟨{ name := "a", line := 6 }, .blank .float⟩,
    ⟨{ name := "b", line := 7, window := ⟨2, never⟩ }, .blank .data⟩]

theorem later_replacement_stays :
    (plainMembers.map Field.name).Nodup ∧
    ∃ changed, replaceMembers (.line 4) plainMembers repeatedReplacements = .ok changed ∧
      changed.map Field.window = plainMembers.map Field.window ∧
      changed[1]? = repeatedReplacements[2]? ∧ changed[2]? = plainMembers[2]? := by
  have distinct : (plainMembers.map Field.name).Nodup := by decide
  obtain ⟨succeeds, exactly⟩ :=
    members_replaced_exactly (.line 4) plainMembers repeatedReplacements distinct
  have suit : ∀ r ∈ repeatedReplacements, Suits plainMembers r := by
    simp [repeatedReplacements, plainMembers, Suits, Field.name, Field.window, Window.always]
  obtain ⟨changed, replaced⟩ := succeeds.mpr suit
  obtain ⟨-, -, windows, places⟩ := exactly changed replaced
  refine ⟨distinct, changed, replaced, windows, ?_, ?_⟩
  · exact (places 1 _ rfl).1 _ ⟨repeatedReplacements.take 2, [], rfl, rfl, by simp⟩
  · exact (places 2 _ rfl).2 (by simp [repeatedReplacements, Field.name])

end Field

end WireSchema
