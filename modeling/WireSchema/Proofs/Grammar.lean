import WireSchema.Proofs.Names

/-!
Grammars that are matched from the left and never go back on what has matched: of two patterns the
first that matches counts, and an option or a repetition takes all it can. The identifiers and dotted
paths of such a grammar are the ones that names are checked for, and a path is taken whole wherever
nothing behind it could belong to it.
-/

namespace WireSchema

namespace Grammar

inductive Rule where
  | identifier
  | path
  | size
  | existence
  | sibling
  | interface
  | schema
  | finish
  deriving DecidableEq

structure Part where
  rule : Rule
  text : List Char
  inside : List Part

inductive Pattern where
  | range (low high : Char)
  | seq (first second : Pattern)
  | either (first second : Pattern)
  | maybe (inner : Pattern)
  | many (inner : Pattern)
  | finish
  | part (rule : Rule) (inner : Pattern)
  /-- A part that shows none of the parts inside. -/
  | whole (rule : Rule) (inner : Pattern)

structure Found where
  text : List Char
  parts : List Part
  rest : List Char

namespace Found

def nothing (cs : List Char) : Found := ⟨[], [], cs⟩

def andThen (first second : Found) : Found :=
  ⟨first.text ++ second.text, first.parts ++ second.parts, second.rest⟩

end Found

def repeated (once : List Char → Option Found) : Nat → List Char → Found
  | 0, cs => .nothing cs
  | most + 1, cs =>
      match once cs with
      | none => .nothing cs
      | some found => found.andThen (repeated once most found.rest)

def Pattern.take? : Pattern → List Char → Option Found
  | .range _ _, [] => none
  | .range low high, c :: rest => if low ≤ c ∧ c ≤ high then some ⟨[c], [], rest⟩ else none
  | .seq first second, cs =>
      (first.take? cs).bind fun found => (second.take? found.rest).map found.andThen
  | .either first second, cs => (first.take? cs).or (second.take? cs)
  | .maybe inner, cs => some ((inner.take? cs).getD (.nothing cs))
  -- A repetition takes at least a character each time.
  | .many inner, cs => some (repeated inner.take? cs.length cs)
  | .finish, cs => if cs.isEmpty then some ⟨[], [⟨.finish, [], []⟩], []⟩ else none
  | .part rule inner, cs =>
      (inner.take? cs).map fun found => { found with parts := [⟨rule, found.text, found.parts⟩] }
  | .whole rule inner, cs =>
      (inner.take? cs).map fun found => { found with parts := [⟨rule, found.text, []⟩] }

def char (c : Char) : Pattern := .range c c

def letter : Pattern := .either (.range 'a' 'z') (.range 'A' 'Z')

def first : Pattern := .either letter (char '_')

def later : Pattern := .either (.either letter (.range '0' '9')) (char '_')

def identifier : Pattern := .whole .identifier (.seq first (.many later))

def path : Pattern := .whole .path (.seq identifier (.many (.seq (char '.') identifier)))

namespace Pattern

def parts? (pattern : Pattern) (cs : List Char) : Option (List Part) :=
  (pattern.take? cs).map Found.parts

theorem seq_parts (first second : Pattern) (cs : List Char) :
    (seq first second).parts? cs =
      (first.take? cs).bind fun found => (second.parts? found.rest).map (found.parts ++ ·) := by
  rw [parts?, take?]
  cases first.take? cs with
  | none => rfl
  | some found =>
      rw [Option.bind_some, Option.bind_some, parts?, Option.map_map, Option.map_map]
      rfl

theorem finish_parts (cs : List Char) :
    finish.parts? cs = if cs = [] then some [⟨.finish, [], []⟩] else none := by
  cases cs <;> rfl

structure Takes (pattern : Pattern) (accepts : Char → Bool) : Prop where
  nil : pattern.take? [] = none
  cons : ∀ c rest, pattern.take? (c :: rest) =
    if accepts c = true then some ⟨[c], [], rest⟩ else none

theorem Takes.congr {pattern : Pattern} {accepts other : Char → Bool} (takes : Takes pattern accepts)
    (same : ∀ c, accepts c = other c) : Takes pattern other where
  nil := takes.nil
  cons c rest := by rw [takes.cons, same]

theorem range_takes (low high : Char) :
    Takes (range low high) fun c => decide (low ≤ c) && decide (c ≤ high) where
  nil := rfl
  cons c rest := by simp [take?]

theorem either_takes {first second : Pattern} {a b : Char → Bool} (left : Takes first a)
    (right : Takes second b) : Takes (either first second) fun c => a c || b c where
  nil := by rw [take?, left.nil, right.nil]; rfl
  cons c rest := by
    rw [take?, left.cons, right.cons]
    cases a c <;> cases b c <;> rfl

/-- A repeated class takes all the characters of it in front. -/
theorem many_takes {pattern : Pattern} {accepts : Char → Bool} (takes : Takes pattern accepts)
    (cs : List Char) :
    (many pattern).take? cs = some ⟨cs.takeWhile accepts, [], cs.dropWhile accepts⟩ := by
  rw [take?]
  induction cs with
  | nil => rfl
  | cons c rest ih =>
      rw [List.length_cons, repeated, takes.cons]
      by_cases accepted : accepts c = true
      · rw [if_pos accepted, List.takeWhile_cons_of_pos accepted, List.dropWhile_cons_of_pos accepted]
        dsimp only
        rw [Option.some.inj ih]
        rfl
      · rw [if_neg accepted, List.takeWhile_cons_of_neg accepted, List.dropWhile_cons_of_neg accepted]
        rfl

end Pattern

open Pattern

theorem letter_takes : Takes letter Char.isAlpha := by
  refine (either_takes (range_takes 'a' 'z') (range_takes 'A' 'Z')).congr fun c => ?_
  have upper : c.isUpper = (decide ('A' ≤ c) && decide (c ≤ 'Z')) := Bool.decide_and _ _
  change _ = (c.isUpper || c.isLower)
  rw [upper, Bool.or_comm]
  rfl

theorem char_takes (c : Char) : Takes (char c) (· == c) := by
  refine (range_takes c c).congr fun d => ?_
  rw [Bool.eq_iff_iff, beq_iff_eq, Bool.and_eq_true, decide_eq_true_eq, decide_eq_true_eq]
  constructor
  · rintro ⟨below, above⟩
    exact Char.le_antisymm above below
  · rintro rfl
    exact ⟨Char.le_refl _, Char.le_refl _⟩

theorem char_sound {c : Char} {cs : List Char} {found : Found}
    (taken : (char c).take? cs = some found) :
    found = ⟨[c], [], found.rest⟩ ∧ cs = c :: found.rest := by
  cases cs with
  | nil =>
      rw [(char_takes c).nil] at taken
      cases taken
  | cons d rest =>
      rw [(char_takes c).cons] at taken
      by_cases same : d = c
      · rw [if_pos (beq_iff_eq.mpr same)] at taken
        cases taken
        rw [same]
        exact ⟨rfl, rfl⟩
      · rw [if_neg (by rwa [beq_iff_eq])] at taken
        cases taken

theorem first_takes : Takes first Name.isFirst :=
  either_takes letter_takes (char_takes '_')

theorem later_takes : Takes later Name.isLater :=
  either_takes (either_takes letter_takes (range_takes '0' '9')) (char_takes '_')

def Stops (cs : List Char) : Prop := ∀ c ∈ cs.head?, Name.isLater c = false

theorem identifier_complete {name tail : List Char} (isName : Name.isIdentifierList name = true)
    (stops : Stops tail) :
    identifier.take? (name ++ tail) = some ⟨name, [⟨.identifier, name, []⟩], tail⟩ := by
  cases name with
  | nil => cases isName
  | cons c rest =>
      rw [Name.isIdentifierList, Bool.and_eq_true, List.all_eq_true] at isName
      have ends : tail.takeWhile Name.isLater = [] ∧ tail.dropWhile Name.isLater = tail := by
        cases tail with
        | nil => exact ⟨rfl, rfl⟩
        | cons d more =>
            have passed : ¬Name.isLater d = true := by simp [stops d rfl]
            exact ⟨List.takeWhile_cons_of_neg passed, List.dropWhile_cons_of_neg passed⟩
      rw [identifier, take?, take?, List.cons_append, first_takes.cons, if_pos isName.1,
        Option.bind_some, many_takes later_takes, List.takeWhile_append_of_pos isName.2,
        List.dropWhile_append_of_pos isName.2, ends.1, ends.2, List.append_nil]
      rfl

theorem identifier_sound {cs : List Char} {found : Found} (taken : identifier.take? cs = some found) :
    cs = found.text ++ found.rest ∧ Name.isIdentifierList found.text = true := by
  cases cs with
  | nil =>
      rw [identifier, take?, take?, first_takes.nil] at taken
      cases taken
  | cons c rest =>
      rw [identifier, take?, take?, first_takes.cons] at taken
      by_cases isFirst : Name.isFirst c = true
      · rw [if_pos isFirst, Option.bind_some, many_takes later_takes] at taken
        cases taken
        have all : (rest.takeWhile Name.isLater).all Name.isLater = true := List.all_takeWhile
        refine ⟨?_, ?_⟩
        · exact congrArg (c :: ·) List.takeWhile_append_dropWhile.symm
        · exact Bool.and_eq_true_iff.mpr ⟨isFirst, all⟩
      · rw [if_neg isFirst] at taken
        cases taken

def dotted (names : List (List Char)) : List Char := names.flatMap ('.' :: ·)

theorem dotted_cons (name : List Char) (names : List (List Char)) :
    dotted (name :: names) = '.' :: (name ++ dotted names) := by
  rw [dotted, List.flatMap_cons, List.cons_append]
  rfl

theorem length_le_dotted (names : List (List Char)) : names.length ≤ (dotted names).length := by
  induction names with
  | nil => exact Nat.le_refl _
  | cons name names ih =>
      rw [dotted_cons, List.length_cons, List.length_cons, List.length_append]
      omega

theorem dotted_pieces (cs : List Char) :
    ∃ name names, Text.pieces '.' cs = name :: names ∧ cs = name ++ dotted names := by
  induction cs with
  | nil => exact ⟨[], [], rfl, rfl⟩
  | cons c rest ih =>
      obtain ⟨name, names, split, spelled⟩ := ih
      by_cases dot : c = '.'
      · refine ⟨[], name :: names, by simp [Text.pieces, dot, split], ?_⟩
        rw [dotted_cons, ← spelled, dot, List.nil_append]
      · refine ⟨c :: name, names, by simp [Text.pieces, dot, split], ?_⟩
        rw [List.cons_append, ← spelled]

/-- A path is a name and the names behind it. -/
theorem path_names {cs : List Char} (isPath : Name.isPathList cs = true) :
    ∃ name names, cs = name ++ dotted names ∧ Name.isIdentifierList name = true ∧
      ∀ other ∈ names, Name.isIdentifierList other = true := by
  obtain ⟨name, names, split, spelled⟩ := dotted_pieces cs
  rw [Name.isPathList, split, List.all_cons, Bool.and_eq_true, List.all_eq_true] at isPath
  exact ⟨name, names, spelled, isPath⟩

structure Ends (cs : List Char) : Prop where
  stops : Stops cs
  dot : (char '.').take? cs = none

theorem stops_dotted {tail : List Char} (ends : Ends tail) (names : List (List Char)) :
    Stops (dotted names ++ tail) := by
  cases names with
  | nil => exact ends.stops
  | cons name names =>
      rw [dotted_cons]
      rintro c ⟨⟩
      decide

theorem dot_take (rest : List Char) : (char '.').take? ('.' :: rest) = some ⟨['.'], [], rest⟩ := rfl

theorem repeated_complete {names : List (List Char)}
    (identifiers : ∀ name ∈ names, Name.isIdentifierList name = true) {tail : List Char}
    (ends : Ends tail) {most : Nat} (enough : names.length ≤ most) :
    ∃ parts, repeated (seq (char '.') identifier).take? most (dotted names ++ tail) =
      ⟨dotted names, parts, tail⟩ := by
  induction names generalizing most with
  | nil =>
      refine ⟨[], ?_⟩
      cases most with
      | zero => rfl
      | succ most =>
          have refused : (seq (char '.') identifier).take? tail = none := by
            rw [take?, ends.dot]
            rfl
          rw [repeated, show dotted [] ++ tail = tail from rfl, refused]
          rfl
  | cons name names ih =>
      rw [List.forall_mem_cons] at identifiers
      cases most with
      | zero => cases enough
      | succ most =>
          obtain ⟨parts, taken⟩ := ih identifiers.2 (Nat.le_of_succ_le_succ enough)
          have here := identifier_complete identifiers.1 (stops_dotted ends names)
          have once : (seq (char '.') identifier).take? (dotted (name :: names) ++ tail) =
              some ⟨'.' :: name, [⟨.identifier, name, []⟩], dotted names ++ tail⟩ := by
            rw [dotted_cons, List.cons_append, List.append_assoc, take?, dot_take, Option.bind_some,
              here]
            rfl
          refine ⟨⟨.identifier, name, []⟩ :: parts, ?_⟩
          rw [repeated, once]
          dsimp only
          rw [taken, dotted_cons]
          rfl

theorem dotted_sound {cs : List Char} {found : Found}
    (taken : (seq (char '.') identifier).take? cs = some found) :
    ∃ name, found.text = '.' :: name ∧ Name.isIdentifierList name = true ∧
      cs = found.text ++ found.rest := by
  rw [take?, Option.bind_eq_some_iff] at taken
  obtain ⟨dot, dotTaken, behind⟩ := taken
  obtain ⟨name, named, rfl⟩ := Option.map_eq_some_iff.mp behind
  obtain ⟨isDot, spelled⟩ := char_sound dotTaken
  obtain ⟨following, isName⟩ := identifier_sound named
  have text : (dot.andThen name).text = '.' :: name.text := by
    rw [isDot]
    rfl
  refine ⟨name.text, text, isName, ?_⟩
  rw [text, spelled, following]
  rfl

theorem repeated_sound {front : List Char} (isPath : Name.isPathList front = true) (most : Nat)
    (cs : List Char) :
    ∃ more parts rest, repeated (seq (char '.') identifier).take? most cs = ⟨more, parts, rest⟩ ∧
      cs = more ++ rest ∧ Name.isPathList (front ++ more) = true := by
  induction most generalizing front cs with
  | zero => exact ⟨[], [], cs, rfl, rfl, by rwa [List.append_nil]⟩
  | succ most ih =>
      rw [repeated]
      cases taken : (seq (char '.') identifier).take? cs with
      | none => exact ⟨[], [], cs, rfl, rfl, by rwa [List.append_nil]⟩
      | some found =>
          obtain ⟨name, text, isName, spelled⟩ := dotted_sound taken
          -- The invariant is that what was taken so far is a path: one more name keeps it one.
          have longer : Name.isPathList (front ++ found.text) = true := by
            rw [text, Name.path_append, isPath, Name.path_of_identifier isName]
            rfl
          obtain ⟨more, parts, rest, run, behind, whole⟩ := ih longer found.rest
          refine ⟨found.text ++ more, found.parts ++ parts, rest, by simp only [run]; rfl, ?_, ?_⟩
          · rw [List.append_assoc, ← behind, ← spelled]
          · rwa [← List.append_assoc]

theorem path_complete {cs tail : List Char} (isPath : Name.isPathList cs = true) (ends : Ends tail) :
    path.take? (cs ++ tail) = some ⟨cs, [⟨.path, cs, []⟩], tail⟩ := by
  obtain ⟨name, names, rfl, isName, identifiers⟩ := path_names isPath
  have enough : names.length ≤ (dotted names ++ tail).length := by
    have dots := length_le_dotted names
    rw [List.length_append]
    omega
  obtain ⟨parts, run⟩ := repeated_complete identifiers ends enough
  rw [path, take?, take?, List.append_assoc, identifier_complete isName (stops_dotted ends names),
    Option.bind_some, take?, run]
  rfl

theorem path_sound {cs : List Char} {found : Found} (taken : path.take? cs = some found) :
    cs = found.text ++ found.rest ∧ Name.isPathList found.text = true ∧
      found.parts = [⟨.path, found.text, []⟩] := by
  rw [path, take?, Option.map_eq_some_iff] at taken
  obtain ⟨inner, matched, rfl⟩ := taken
  rw [take?, Option.bind_eq_some_iff] at matched
  obtain ⟨name, named, behind⟩ := matched
  obtain ⟨spelled, isName⟩ := identifier_sound named
  obtain ⟨more, parts, rest, run, following, whole⟩ :=
    repeated_sound (Name.path_of_identifier isName) name.rest.length name.rest
  rw [take?, run] at behind
  cases behind
  refine ⟨?_, whole, rfl⟩
  rw [spelled, following]
  exact (List.append_assoc _ _ _).symm

/-- The identifiers of the grammar are those that names are checked for. -/
theorem identifier_whole_iff {cs : List Char} :
    Name.isIdentifierList cs = true ↔
      ∃ found, identifier.take? cs = some found ∧ found.rest = [] := by
  constructor
  · intro isName
    have stops : Stops [] := fun c absent => by cases absent
    have whole := identifier_complete isName stops
    rw [List.append_nil] at whole
    exact ⟨_, whole, rfl⟩
  · rintro ⟨found, taken, nothing⟩
    obtain ⟨spelled, isName⟩ := identifier_sound taken
    rw [nothing, List.append_nil] at spelled
    rwa [spelled]

end Grammar

end WireSchema
