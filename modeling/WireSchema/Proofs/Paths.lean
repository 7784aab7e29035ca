import WireSchema.Proofs.Answers
import WireSchema.Proofs.Handles
import WireSchema.Proofs.Inheritance

/-!
Paths through fields. Behind references, a path goes on from a field to its members or to the field
of an optional, and each of these steps takes one segment of it. Where the names of every level are
identifiers that differ, the names on the way down to a field lead to that field and to no other one,
and the field at the end alone decides whether its size or its existence can be asked for.
-/

namespace WireSchema

namespace Text

theorem cut_at_absent {mark : Char} {cs : List Char} (absent : mark ∉ cs) :
    cutAt mark cs = none := by
  induction cs with
  | nil => rfl
  | cons c rest ih =>
      rw [List.mem_cons, not_or] at absent
      simp [cutAt, Ne.symm absent.1, ih absent.2]

/-- What stands in a text stands in a piece of it, the marks apart. -/
theorem mem_pieces (mark : Char) {c : Char} {cs : List Char} (member : c ∈ cs) :
    c = mark ∨ ∃ piece ∈ pieces mark cs, c ∈ piece := by
  induction cs with
  | nil => exact absurd member List.not_mem_nil
  | cons first rest ih =>
      by_cases cut : first = mark
      · rcases List.mem_cons.mp member with same | later
        · exact Or.inl (same.trans cut)
        · rcases ih later with isMark | ⟨piece, inside, found⟩
          · exact Or.inl isMark
          · exact Or.inr ⟨piece, by simp [pieces, cut, inside], found⟩
      · obtain ⟨head, others, split⟩ := List.exists_cons_of_ne_nil (pieces_ne_nil mark rest)
        have grown : pieces mark (first :: rest) = (first :: head) :: others := by
          simp [pieces, cut, split]
        rw [grown]
        rcases List.mem_cons.mp member with same | later
        · exact Or.inr ⟨first :: head, List.mem_cons_self, by simp [same]⟩
        · rcases ih later with isMark | ⟨piece, inside, found⟩
          · exact Or.inl isMark
          · rw [split, List.mem_cons] at inside
            rcases inside with isHead | behind
            · exact Or.inr ⟨first :: head, List.mem_cons_self, by simp [← isHead, found]⟩
            · exact Or.inr ⟨piece, List.mem_cons_of_mem _ behind, found⟩

end Text

namespace Name

def joined (names : List String) : String := ".".intercalate names

theorem joined_single (name : String) : joined [name] = name := String.intercalate_singleton

theorem joined_cons {first second : String} {rest : List String} :
    joined (first :: second :: rest) = first ++ "." ++ joined (second :: rest) :=
  String.intercalate_cons_cons

theorem joined_path {names : List String} (some : names ≠ [])
    (identifiers : ∀ name ∈ names, isIdentifier name = true) : isPath (joined names) = true := by
  induction names with
  | nil => exact absurd rfl some
  | cons first rest ih =>
      rw [List.forall_mem_cons] at identifiers
      have head : isPathList first.toList = true := path_of_identifier identifiers.1
      cases rest with
      | nil =>
          rw [joined_single]
          exact head
      | cons second rest =>
          have tail : isPathList (joined (second :: rest)).toList = true :=
            ih (List.cons_ne_nil _ _) identifiers.2
          have spelled : (first ++ "." ++ joined (second :: rest)).toList =
              first.toList ++ '.' :: (joined (second :: rest)).toList := by simp
          rw [joined_cons, isPath, spelled, path_append, head, tail]
          rfl

theorem path_ne_empty {path : String} (isPath : Name.isPath path = true) : path ≠ "" := by
  rintro rfl
  exact absurd isPath (by decide)

/-- A path is made of dots and of what identifiers are made of. -/
theorem path_characters {cs : List Char} (path : isPathList cs = true) {c : Char} (member : c ∈ cs) :
    c = '.' ∨ isLater c = true := by
  rcases Text.mem_pieces '.' member with dot | ⟨piece, inside, found⟩
  · exact Or.inl dot
  · refine Or.inr ?_
    have identifier := List.all_eq_true.mp path piece inside
    cases piece with
    | nil => exact absurd found List.not_mem_nil
    | cons first rest =>
        rw [isIdentifierList, Bool.and_eq_true, List.all_eq_true] at identifier
        rcases List.mem_cons.mp found with rfl | later
        · have first := identifier.1
          rw [isFirst, Bool.or_eq_true] at first
          rw [isLater, Char.isAlphanum, Bool.or_eq_true, Bool.or_eq_true]
          exact first.imp_left Or.inl
        · exact identifier.2 c later

/-- No character of a path is a mark. -/
theorem path_unmarked {cs : List Char} (path : isPathList cs = true) {c : Char} (member : c ∈ cs) :
    Query.ofMark? c = none := by
  have marks : c ≠ '#' ∧ c ≠ '?' := by
    rcases path_characters path member with dot | later
    · rw [dot]
      decide
    · constructor
      all_goals
        rintro rfl
        exact absurd later (by decide)
  unfold Query.ofMark?
  split
  · exact absurd rfl marks.1
  · exact absurd rfl marks.2
  · rfl

end Name

namespace Text

theorem first_segment_joined {first second : String} {rest : List String}
    (identifier : Name.isIdentifier first = true) :
    firstSegment (Name.joined (first :: second :: rest)) =
      (first, Name.joined (second :: rest)) := by
  have spelled : (first ++ "." ++ Name.joined (second :: rest)).toList =
      first.toList ++ '.' :: (Name.joined (second :: rest)).toList := by simp
  rw [firstSegment, Name.joined_cons, spelled,
    cut_at_append '.' _ _ (Name.dot_not_in_identifier identifier)]
  simp only [String.ofList_toList]

theorem first_segment_name {name : String} (identifier : Name.isIdentifier name = true) :
    firstSegment name = (name, "") := by
  rw [firstSegment, cut_at_absent (Name.dot_not_in_identifier identifier)]

end Text

namespace MarkedPath

theorem leading_unmarked {cs : List Char} (unmarked : ∀ c ∈ cs, Query.ofMark? c = none) :
    leading cs = (none, cs) := by
  cases cs with
  | nil => rfl
  | cons c rest => rw [leading, unmarked c List.mem_cons_self]

theorem trailing_unmarked {cs : List Char} (unmarked : ∀ c ∈ cs, Query.ofMark? c = none) :
    trailing cs = (none, cs) := by
  have reversed : leading cs.reverse = (none, cs.reverse) :=
    leading_unmarked fun c member => unmarked c (List.mem_reverse.mp member)
  rw [trailing, reversed]
  simp only [List.reverse_reverse]

theorem trailing_mark {c : Char} {query : Query} (isMark : Query.ofMark? c = some query)
    (cs : List Char) : trailing (cs ++ [c]) = (some query, cs) := by
  rw [trailing, List.reverse_append, List.reverse_singleton, List.singleton_append, leading, isMark]
  simp only [List.reverse_reverse]

variable {path : String}

theorem read_path (isPath : Name.isPath path = true) : read path = .ok ⟨.value, path⟩ := by
  have unmarked := fun c => Name.path_unmarked (c := c) isPath
  have whole : Name.isPathList path.toList = true := isPath
  rw [read, readList, leading_unmarked unmarked]
  simp only [trailing_unmarked unmarked, whole, if_true, String.ofList_toList]

/-- A mark asks for the same in front of a path and behind it. -/
theorem read_marked (isPath : Name.isPath path = true) {query : Query} {c : Char}
    (isMark : Query.ofMark? c = some query) :
    read (String.ofList [c] ++ path) = .ok ⟨query, path⟩ ∧
      read (path ++ String.ofList [c]) = .ok ⟨query, path⟩ := by
  have unmarked := fun c => Name.path_unmarked (c := c) isPath
  have whole : Name.isPathList path.toList = true := isPath
  constructor
  · rw [read, readList, String.toList_append, String.toList_ofList, List.singleton_append, leading,
      isMark]
    simp only [trailing_unmarked unmarked, whole, if_true, String.ofList_toList]
  · obtain ⟨first, rest, spelled, isFirst⟩ := Name.path_head isPath
    have front : leading (path.toList ++ [c]) = (none, path.toList ++ [c]) := by
      rw [spelled, List.cons_append, leading,
        unmarked first (by rw [spelled]; exact List.mem_cons_self)]
    rw [read, readList, String.toList_append, String.toList_ofList, front]
    simp only [trailing_mark isMark, whole, if_true, String.ofList_toList]

end MarkedPath

def Payload.onward : Payload Field → List Field
  | .optional spec => spec.inner.toList.map Slot.part
  | payload => payload.members

namespace Field

def onward (f : Field) : List Field := f.dereferenced.payload.onward

def trail : Field → List Field
  | ⟨profile, .ref ⟨some ⟨id, ref, target⟩, bitLength⟩⟩ =>
      ⟨profile, .ref ⟨some ⟨id, ref, target⟩, bitLength⟩⟩ :: trail target
  | f => [f]

section References

variable {f : Field}

theorem dereferenced_of_other
    (other : ∀ profile id ref target bitLength,
      f = ⟨profile, .ref ⟨some ⟨id, ref, target⟩, bitLength⟩⟩ → False) : f.dereferenced = f := by
  unfold dereferenced
  split
  · exact (other _ _ _ _ _ rfl).elim
  · rfl

theorem trail_of_other
    (other : ∀ profile id ref target bitLength,
      f = ⟨profile, .ref ⟨some ⟨id, ref, target⟩, bitLength⟩⟩ → False) : f.trail = [f] := by
  unfold trail
  split
  · exact (other _ _ _ _ _ rfl).elim
  · rfl

theorem inner_nothing (f : Field) : f.inner "" = .field f := by
  obtain ⟨profile, payload⟩ := f
  cases payload with
  | ref spec =>
      obtain ⟨_ | handle, bitLength⟩ := spec <;> simp only [inner, if_true]
  | optional spec =>
      obtain ⟨_ | _ | _, _, _, _, _⟩ := spec <;> simp only [inner, if_true]
  | _ => simp only [inner, if_true]

/-- Going on from a reference is going on from its target. -/
theorem onward_reference (profile : Profile) (id : Nat) (ref : String) (target : Field)
    (bitLength : Nat) :
    onward ⟨profile, .ref ⟨some ⟨id, ref, target⟩, bitLength⟩⟩ = target.onward := by
  simp only [onward, dereferenced]

/-- A path that is not at its end is taken on by the fields inside, for the field it designates as
for the value it leads to; or the field behind the references has no fields inside, and the rest of
the path is the name of a value in it, or of none. -/
theorem inner_steps (f : Field) {path : String} (more : path ≠ "") :
    (f.inner path =
        innerMember f.onward (Text.firstSegment path).1 (Text.firstSegment path).2 ∧
      f.holder? path =
        memberHolder? f.onward (Text.firstSegment path).1 (Text.firstSegment path).2) ∨
    (f.onward = [] ∧
      f.inner path = (if f.dereferenced.hasValue path then .innerValue f.dereferenced path
        else .invalid) ∧
      f.holder? path = some (f.dereferenced, path)) := by
  induction f using dereferenced.induct with
  | case1 profile id ref target bitLength ih =>
      rw [onward_reference, inner, if_neg more, holder?, dereferenced]
      exact ih
  | case2 f other =>
      rw [onward, dereferenced_of_other other]
      obtain ⟨profile, payload⟩ := f
      cases payload with
      | bitfield | bundle | variant =>
          refine Or.inl ⟨?_, ?_⟩
          · rw [inner, if_neg more]
            rfl
          · rw [holder?, if_pos more]
            rfl
      | ref spec =>
          obtain ⟨_ | handle, bitLength⟩ := spec
          · refine Or.inl ⟨?_, ?_⟩
            · simp only [inner, if_neg more, hasValue, Payload.onward, Payload.members, innerMember]
              rfl
            · simp only [holder?, Payload.onward, Payload.members, memberHolder?]
          · exact (other _ _ _ _ _ rfl).elim
      | optional spec =>
          obtain ⟨_ | _ | _, _, _, _, _⟩ := spec
          · refine Or.inl ⟨?_, ?_⟩
            · simp only [inner, if_neg more, hasValue]
              rfl
            · simp only [holder?]
              rfl
          all_goals
            refine Or.inl ⟨?_, ?_⟩
            · rw [inner, if_neg more, BEq.comm]
              simp only [Payload.onward, Option.toList_some, List.map_cons, List.map_nil, Slot.part,
                innerMember]
            · rw [holder?, BEq.comm, decide_eq_true more, Bool.true_and]
              simp only [Payload.onward, Option.toList_some, List.map_cons, List.map_nil, Slot.part,
                memberHolder?]
      | _ => exact Or.inr ⟨rfl, by simp only [inner, if_neg more], by simp only [holder?]⟩

theorem size_onward {f g : Field} (next : g ∈ f.onward) : sizeOf g < sizeOf f := by
  induction f using dereferenced.induct with
  | case1 profile id ref target bitLength ih =>
      have held : Slot.external ⟨id, ref, target⟩ ∈
          slots ⟨profile, .ref ⟨some ⟨id, ref, target⟩, bitLength⟩⟩ := List.mem_singleton_self _
      have smaller : sizeOf target < _ := size_slot held
      rw [onward_reference] at next
      exact Nat.lt_trans (ih next) smaller
  | case2 f other =>
      rw [onward, dereferenced_of_other other] at next
      obtain ⟨profile, payload⟩ := f
      cases payload with
      | optional spec =>
          obtain ⟨slot, held, rfl⟩ := List.mem_map.mp next
          exact size_slot held
      | _ => exact size_slot (inline_member next)

/-- A property that a field has once the fields a path goes on to have it is one of all fields. -/
theorem onward_induction {holds : Field → Prop}
    (step : ∀ f : Field, (∀ g ∈ f.onward, holds g) → holds f) (f : Field) : holds f := by
  induction size : sizeOf f using Nat.strongRecOn generalizing f with
  | ind bound ih =>
      apply step
      intro g next
      exact ih _ (size ▸ size_onward next) g rfl

/-- Among fields with different names each one is found under its own. -/
theorem named_of_mem {fields : List Field} {f : Field} (distinct : (fields.map Field.name).Nodup)
    (member : f ∈ fields) : named? fields f.name = some f := by
  induction fields with
  | nil => exact absurd member List.not_mem_nil
  | cons first rest ih =>
      rw [List.map_cons, List.nodup_cons] at distinct
      rw [named_cons]
      rcases List.mem_cons.mp member with rfl | later
      · exact if_pos rfl
      · have other : first.name ≠ f.name := fun same =>
          distinct.1 (same ▸ List.mem_map_of_mem later)
        rw [if_neg other, ih distinct.2 later]

end References

section Marks

def hasSize (f : Field) : Bool := [Kind.string, .data, .list].contains f.dereferenced.kind

/-- The field, or a target on the way from it, came or went with some version, or it is an optional
behind references. -/
def canBeAbsent (f : Field) : Bool :=
  f.trail.any (fun g => 0 < g.window.since || g.window.isDeprecated) ||
    f.dereferenced.kind == .optional

theorem admits_size (f : Field) : f.admits .size = f.hasSize := by
  induction f using dereferenced.induct with
  | case1 profile id ref target bitLength ih =>
      rw [hasSize, dereferenced, ← hasSize, ← ih]
      simp only [admits]
      rfl
  | case2 f other =>
      rw [hasSize, dereferenced_of_other other]
      obtain ⟨profile, payload⟩ := f
      cases payload with
      | ref spec =>
          obtain ⟨_ | handle, bitLength⟩ := spec
          · rfl
          · exact (other _ _ _ _ _ rfl).elim
      | _ => rfl

theorem admits_existence (f : Field) : f.admits .existence = f.canBeAbsent := by
  induction f using dereferenced.induct with
  | case1 profile id ref target bitLength ih =>
      rw [canBeAbsent, dereferenced, trail, List.any_cons, Bool.or_assoc, ← canBeAbsent, ← ih]
      simp only [admits, beq_self_eq_true, Bool.true_and, Bool.if_true_left, Bool.decide_eq_true]
      rfl
  | case2 f other =>
      rw [canBeAbsent, dereferenced_of_other other, trail_of_other other, List.any_cons,
        List.any_nil, Bool.or_false]
      obtain ⟨profile, payload⟩ := f
      cases payload with
      | ref spec =>
          obtain ⟨_ | handle, bitLength⟩ := spec
          · simp only [admits, beq_self_eq_true, Bool.true_and, Bool.if_true_left,
              Bool.decide_eq_true]
            rfl
          · exact (other _ _ _ _ _ rfl).elim
      | _ =>
          simp only [admits, beq_self_eq_true, Bool.true_and, Bool.if_true_left,
            Bool.decide_eq_true]
          rfl

end Marks

/-- The names of the fields are identifiers that differ, and so are those of each further level that
a path goes on to. -/
inductive Scoped : List Field → Prop where
  | intro {level : List Field} (names : Name.Scope (level.map Field.name))
      (inside : ∀ f ∈ level, Scoped f.onward) : Scoped level

inductive Descent : List Field → List String → Field → Prop where
  | here {level : List Field} {f : Field} (member : f ∈ level) : Descent level [f.name] f
  | step {level : List Field} {f g : Field} {names : List String} (member : f ∈ level)
      (rest : Descent f.onward names g) : Descent level (f.name :: names) g

section Descent

variable {level : List Field} {names : List String} {f : Field}

theorem descent_cons (descent : Descent level names f) : ∃ first rest, names = first :: rest := by
  cases descent with
  | here => exact ⟨_, _, rfl⟩
  | step => exact ⟨_, _, rfl⟩

theorem descent_path (descent : Descent level names f) (named : Scoped level) :
    Name.isPath (Name.joined names) = true := by
  obtain ⟨_, _, isCons⟩ := descent_cons descent
  refine Name.joined_path (by rw [isCons]; exact List.cons_ne_nil _ _) ?_
  clear isCons
  induction descent with
  | here member =>
      obtain ⟨scope, -⟩ := named
      exact List.forall_mem_singleton.mpr (scope.valid _ (List.mem_map_of_mem member))
  | step member _ ih =>
      obtain ⟨scope, inside⟩ := named
      exact List.forall_mem_cons.mpr
        ⟨scope.valid _ (List.mem_map_of_mem member), ih (inside _ member)⟩

/-- The names on a way down lead to its end. -/
theorem inner_member_descent (descent : Descent level names f) (named : Scoped level) :
    innerMember level (Text.firstSegment (Name.joined names)).1
      (Text.firstSegment (Name.joined names)).2 = .field f := by
  induction descent with
  | @here level f member =>
      obtain ⟨scope, -⟩ := named
      have identifier := scope.valid _ (List.mem_map_of_mem member)
      rw [Name.joined_single, Text.first_segment_name identifier, inner_member_named,
        named_of_mem scope.distinct member]
      exact inner_nothing f
  | @step level f g names member rest ih =>
      obtain ⟨scope, inside⟩ := named
      have identifier := scope.valid _ (List.mem_map_of_mem member)
      have more := Name.path_ne_empty (descent_path rest (inside f member))
      have reached := ih (inside f member)
      obtain ⟨second, others, rfl⟩ := descent_cons rest
      rw [Text.first_segment_joined identifier, inner_member_named,
        named_of_mem scope.distinct member]
      rcases inner_steps f more with ⟨taken, -⟩ | ⟨none, -, -⟩
      · exact taken.trans reached
      · -- Where nothing is inside, no way goes on.
        rw [none] at rest
        cases rest with
        | here absent => exact absurd absent List.not_mem_nil
        | step absent => exact absurd absent List.not_mem_nil

end Descent

/-- Where the names of every level are identifiers that differ, the names on the way down to a field,
joined by dots, designate that field. With a mark in front or behind they designate its size exactly
if it is a text, data or a list behind references, and its existence exactly if it, or a target on the
way from it, came or went with some version or it is an optional behind references. -/
theorem descents_designate_fields {top : List Field} {names : List String} {f : Field}
    (named : Scoped top) (descent : Descent top names f) :
    resolve top (Name.joined names) = .field f ∧
    (∀ text ∈ ["#" ++ Name.joined names, Name.joined names ++ "#"],
      resolve top text = if f.hasSize then .size f else .invalid) ∧
    (∀ text ∈ ["?" ++ Name.joined names, Name.joined names ++ "?"],
      resolve top text = if f.canBeAbsent then .existence f else .invalid) := by
  have path := descent_path descent named
  have leads := inner_member_descent descent named
  have marked {query : Query} {c : Char} (isMark : Query.ofMark? c = some query) :
      ∀ text ∈ [String.ofList [c] ++ Name.joined names, Name.joined names ++ String.ofList [c]],
        resolve top text = (Target.field f).ask query := by
    obtain ⟨front, back⟩ := MarkedPath.read_marked path isMark
    rw [List.forall_mem_cons, List.forall_mem_singleton, resolve, resolve, front, back]
    simp only [resolveMarked, leads, and_self]
  refine ⟨?_, ?_, ?_⟩
  · rw [resolve, MarkedPath.read_path path]
    simp only [resolveMarked, leads, Target.ask]
  · have sized := marked (show Query.ofMark? '#' = some .size from rfl)
    simp only [Target.ask, admits_size] at sized
    exact sized
  · have absent := marked (show Query.ofMark? '?' = some .existence from rfl)
    simp only [Target.ask, admits_existence] at absent
    exact absent

def nestedText : Field :=
  ⟨{ name := "s" },
    .ref { target := some ⟨1, "U", ⟨{ name := "U", window := ⟨2, never⟩ }, .string {}⟩⟩ }⟩

def nestedFields : List Field :=
  [⟨{ name := "n" }, .int {}⟩,
    ⟨{ name := "b" }, .bundle { members :=
      [⟨{ name := "o" }, .optional { inner := some (.inline
        ⟨{ name := "r" }, .ref { target := some ⟨0, "V",
          ⟨{ name := "V" },
            .variant { members := [⟨{ name := "n" }, .int {}⟩, nestedText] }⟩⟩ }⟩) }⟩] }⟩]

theorem nested_text_designated :
    resolve nestedFields "b.o.r.s" = .field nestedText ∧
      resolve nestedFields "#b.o.r.s" = .size nestedText ∧
      resolve nestedFields "b.o.r.s?" = .existence nestedText := by
  have leaf {f : Field} (nothing : f.onward = []) : Scoped f.onward := by
    rw [nothing]
    exact ⟨Name.scope_nil, fun _ member => absurd member List.not_mem_nil⟩
  have inVariant : Scoped [⟨{ name := "n" }, .int {}⟩, nestedText] := by
    refine ⟨⟨by decide, by decide⟩, ?_⟩
    rw [List.forall_mem_cons, List.forall_mem_singleton]
    exact ⟨leaf rfl, leaf rfl⟩
  have single {f : Field} (identifier : Name.isIdentifier f.name = true)
      (inside : Scoped f.onward) : Scoped [f] :=
    ⟨⟨List.forall_mem_singleton.mpr identifier, List.pairwise_singleton _ _⟩,
      List.forall_mem_singleton.mpr inside⟩
  have named : Scoped nestedFields := by
    refine ⟨⟨by decide, by decide⟩, ?_⟩
    rw [nestedFields, List.forall_mem_cons, List.forall_mem_singleton]
    exact ⟨leaf rfl, single (by decide) (single (by decide) inVariant)⟩
  have descent : Descent nestedFields ["b", "o", "r", "s"] nestedText :=
    .step (.tail _ (.head _)) (.step (.head _) (.step (.head _) (.here (.tail _ (.head _)))))
  obtain ⟨field, size, existence⟩ := descents_designate_fields named descent
  have path : Name.joined ["b", "o", "r", "s"] = "b.o.r.s" := by decide +kernel
  rw [path] at field size existence
  exact ⟨field, size _ (.head _), existence _ (.tail _ (.head _))⟩

end Field

end WireSchema
