import WireSchema.Proofs.Aliases
import WireSchema.Proofs.Escapes
import WireSchema.Proofs.ExternalNames
import WireSchema.Proofs.Grammar

/-!
References as they are written: operands, marked paths and external names. Each has a grammar, and is
read as the grammar tells its parts. This is exactly if it is spelled from identifiers, dots and at
most one mark, so what is written from a reference is read back as it.
-/

namespace WireSchema

namespace MarkedPath

def marks (query : Option Query) : List Char := (query.getD .value).mark

theorem mark_of_query {c : Char} {query : Query} (isMark : Query.ofMark? c = some query) :
    marks (some query) = [c] := by
  unfold Query.ofMark? at isMark
  split at isMark <;> cases isMark <;> rfl

theorem leading_spelled (cs : List Char) : cs = marks (leading cs).1 ++ (leading cs).2 := by
  cases cs with
  | nil => rfl
  | cons c rest =>
      rw [leading]
      cases isMark : Query.ofMark? c with
      | none => rfl
      | some query => rw [mark_of_query isMark, List.singleton_append]

theorem trailing_spelled (cs : List Char) : cs = (trailing cs).2 ++ marks (trailing cs).1 := by
  have palindrome (query : Option Query) : (marks query).reverse = marks query := by
    obtain _ | _ | _ | _ := query <;> rfl
  have spelled := congrArg List.reverse (leading_spelled cs.reverse)
  rw [List.reverse_reverse, List.reverse_append, palindrome] at spelled
  exact spelled

/-- The mark behind a path is told from it. -/
theorem trailing_behind {cs : List Char} (isPath : Name.isPathList cs = true)
    (query : Option Query) : (trailing (cs ++ marks query)).2 = cs := by
  have unmarked : trailing (cs ++ []) = (none, cs) := by
    rw [List.append_nil]
    exact MarkedPath.trailing_unmarked fun c => Name.path_unmarked isPath
  obtain _ | _ | _ | _ := query
  · exact congrArg Prod.snd unmarked
  · exact congrArg Prod.snd unmarked
  · exact congrArg Prod.snd (MarkedPath.trailing_mark rfl cs)
  · exact congrArg Prod.snd (MarkedPath.trailing_mark rfl cs)

theorem leading_query (cs : List Char) : (leading cs).1 ≠ some .value := by
  rcases leading_cases cs with plain | ⟨query, rest, marked, notValue⟩
  · rw [plain]
    exact nofun
  · rw [marked]
    exact fun isValue => notValue (Option.some.inj isValue)

theorem trailing_query (cs : List Char) : (trailing cs).1 ≠ some .value :=
  leading_query cs.reverse

def single : List Query → Except OperandFault Query
  | [] => .ok .value
  | [query] => .ok query
  | _ => .error .twoMarks

def core (cs : List Char) : List Char := (trailing (leading cs).2).2

def asked (cs : List Char) : List Query :=
  (leading cs).1.toList ++ (trailing (leading cs).2).1.toList

theorem read_list_eq (cs : List Char) :
    readList cs =
      if Name.isPathList (core cs) = true then
        (single (asked cs)).map fun query => ⟨query, String.ofList (core cs)⟩
      else .error .malformed := by
  rw [readList, core, asked]
  obtain ⟨before, rest⟩ := leading cs
  dsimp only
  obtain ⟨after, path⟩ := trailing rest
  cases before <;> cases after <;> rfl

end MarkedPath

namespace Grammar

open Pattern
open MarkedPath (leading trailing marks single core asked)

def mark : Pattern := .either (.part .size (char '#')) (.part .existence (char '?'))

def scope : Pattern := .either (.part .sibling (char '$')) (.part .interface (char '%'))

def markedPath : Pattern := .seq (.maybe mark) (.seq path (.seq (.maybe mark) .finish))

def operand : Pattern := .seq scope markedPath

def address : Pattern := .part .schema (.seq (char '@') (.seq identifier (char '.')))

def externalName : Pattern := .seq (.maybe address) (.seq path .finish)

structure Said where
  scope : Option Scope
  queries : List Query
  schema : Option (List Char)
  path : List Char

/-- All marks are kept, of the rest what was said last. -/
def Said.hear (said : Said) (part : Part) : Said :=
  match part.rule with
  | .sibling => { said with scope := some .sibling }
  | .interface => { said with scope := some .interface }
  | .size => { said with queries := said.queries ++ [.size] }
  | .existence => { said with queries := said.queries ++ [.existence] }
  | .schema => { said with schema := part.inside.head?.map Part.text }
  | .path => { said with path := part.text }
  | _ => said

def said (parts : List Part) : Said := parts.foldl Said.hear ⟨none, [], none, []⟩

def Said.markedPath (said : Said) : Except OperandFault MarkedPath :=
  (single said.queries).map fun query => ⟨query, String.ofList said.path⟩

def Said.operand (said : Said) : Except OperandFault Operand :=
  match said.scope with
  | none => .error .malformed
  | some scope => (single said.queries).map fun query => ⟨scope, query, String.ofList said.path⟩

def Said.externalName (said : Said) : ExternalName :=
  ⟨said.schema.map String.ofList, String.ofList said.path⟩

def readMarkedPath (cs : List Char) : Except OperandFault MarkedPath :=
  ((markedPath.parts? cs).map said).elim (.error .malformed) Said.markedPath

def readOperand (cs : List Char) : Except OperandFault Operand :=
  ((operand.parts? cs).map said).elim (.error .malformed) Said.operand

def readExternalName? (cs : List Char) : Option ExternalName :=
  ((externalName.parts? cs).map said).map Said.externalName

def markParts : Option Query → List Part
  | some .size => [⟨.size, ['#'], []⟩]
  | some .existence => [⟨.existence, ['?'], []⟩]
  | _ => []

theorem ends_marks (query : Option Query) : Ends (marks query) := by
  constructor
  · rintro c found
    obtain _ | _ | _ | _ := query <;> cases found <;> rfl
  · obtain _ | _ | _ | _ := query <;> rfl

theorem leading_marks (query : Option Query) :
    (leading (marks query)).2 = [] ∧ markParts (leading (marks query)).1 = markParts query := by
  obtain _ | _ | _ | _ := query <;> exact ⟨rfl, rfl⟩

theorem part_char_refuses (rule : Rule) {c d : Char} (other : d ≠ c) (rest : List Char) :
    (part rule (char c)).take? (d :: rest) = none := by
  rw [take?, (char_takes c).cons, if_neg (by rwa [beq_iff_eq])]
  rfl

theorem maybe_mark (cs : List Char) :
    ∃ text, (maybe mark).take? cs = some ⟨text, markParts (leading cs).1, (leading cs).2⟩ := by
  cases cs with
  | nil => exact ⟨[], rfl⟩
  | cons c rest =>
      by_cases size : c = '#'
      · rw [size]
        exact ⟨['#'], rfl⟩
      · by_cases existence : c = '?'
        · rw [existence]
          exact ⟨['?'], rfl⟩
        · have unmarked : Query.ofMark? c = none := by
            unfold Query.ofMark?
            split
            · exact absurd rfl size
            · exact absurd rfl existence
            · rfl
          refine ⟨[], ?_⟩
          rw [take?, mark, take?, part_char_refuses _ size, part_char_refuses _ existence, leading,
            unmarked]
          rfl

theorem marked_end (tail : List Char) :
    (seq (maybe mark) .finish).parts? tail =
      if (leading tail).2 = [] then some (markParts (leading tail).1 ++ [⟨.finish, [], []⟩])
      else none := by
  obtain ⟨text, taken⟩ := maybe_mark tail
  rw [seq_parts, taken, Option.bind_some, finish_parts]
  dsimp only
  split <;> rfl

def markedParts (before : Option Query) (path : List Char) (after : Option Query) : List Part :=
  markParts before ++ (⟨.path, path, []⟩ :: (markParts after ++ [⟨.finish, [], []⟩]))

theorem marked_path_parts (cs : List Char) :
    markedPath.parts? cs =
      if Name.isPathList (core cs) = true then
        some (markedParts (leading cs).1 (core cs) (trailing (leading cs).2).1)
      else none := by
  obtain ⟨text, taken⟩ := maybe_mark cs
  rw [markedPath, seq_parts, taken, Option.bind_some, seq_parts, core]
  dsimp only
  generalize (leading cs).2 = rest
  split
  · rename_i isPath
    have whole := path_complete isPath (ends_marks (trailing rest).1)
    rw [← MarkedPath.trailing_spelled rest] at whole
    obtain ⟨nothing, same⟩ := leading_marks (trailing rest).1
    rw [whole, Option.bind_some, marked_end, if_pos nothing, same]
    rfl
  · rename_i notPath
    cases found : path.take? rest with
    | none => rfl
    | some front =>
        obtain ⟨spelled, isPath, _⟩ := path_sound found
        rw [Option.bind_some, marked_end, if_neg]
        · rfl
        · -- What is left behind the path is a mark, so the path is the text without its marks.
          intro only
          have behind := MarkedPath.leading_spelled front.rest
          rw [only, List.append_nil] at behind
          rw [spelled, behind, MarkedPath.trailing_behind isPath] at notPath
          exact notPath isPath

theorem hear_mark {query : Option Query} (isMark : query ≠ some .value) (said : Said) :
    (markParts query).foldl Said.hear said =
      { said with queries := said.queries ++ query.toList } := by
  cases query with
  | none => exact congrArg (Said.mk _ · _ _) (List.append_nil _).symm
  | some query =>
      cases query with
      | value => exact absurd rfl isMark
      | size => rfl
      | existence => rfl

theorem marked_path_said (cs : List Char) (start : Said) :
    (markedPath.parts? cs).map (List.foldl Said.hear start) =
      if Name.isPathList (core cs) = true then
        some { start with queries := start.queries ++ asked cs, path := core cs }
      else none := by
  rw [marked_path_parts]
  split
  · rw [Option.map_some, markedParts, List.foldl_append, hear_mark (MarkedPath.leading_query cs),
      List.foldl_cons, List.foldl_append, hear_mark (MarkedPath.trailing_query _), asked,
      ← List.append_assoc]
    rfl
  · rfl

theorem read_marked_path_eq (cs : List Char) : MarkedPath.readList cs = readMarkedPath cs := by
  rw [MarkedPath.read_list_eq, readMarkedPath]
  unfold said
  rw [marked_path_said]
  split <;> rfl

theorem operand_said (scope : Scope) (rest : List Char) :
    (operand.parts? (scope.mark :: rest)).map said =
      (markedPath.parts? rest).map (List.foldl Said.hear ⟨some scope, [], none, []⟩) := by
  have taken : ∃ part, Grammar.scope.take? (scope.mark :: rest) = some ⟨[scope.mark], [part], rest⟩ ∧
      Said.hear ⟨none, [], none, []⟩ part = ⟨some scope, [], none, []⟩ := by
    cases scope with
    | sibling => exact ⟨⟨.sibling, ['$'], []⟩, rfl, rfl⟩
    | interface => exact ⟨⟨.interface, ['%'], []⟩, rfl, rfl⟩
  obtain ⟨part, taken, heard⟩ := taken
  rw [operand, seq_parts, taken, Option.bind_some, Option.map_map, ← heard]
  rfl

theorem read_scoped_eq (scope : Scope) (rest : List Char) :
    readOperand (scope.mark :: rest) =
      (MarkedPath.readList rest).map fun p => ⟨scope, p.query, p.path⟩ := by
  rw [readOperand, operand_said, marked_path_said, MarkedPath.read_list_eq]
  by_cases isPath : Name.isPathList (core rest) = true
  · rw [if_pos isPath, if_pos isPath, Option.elim_some, Said.operand]
    dsimp only
    rw [List.nil_append]
    cases single (asked rest) <;> rfl
  · rw [if_neg isPath, if_neg isPath]
    rfl

theorem read_unscoped_eq {cs : List Char} (unscoped : ∀ scope rest, cs ≠ Scope.mark scope :: rest) :
    readOperand cs = .error .malformed := by
  have refused : scope.take? cs = none := by
    cases cs with
    | nil => rfl
    | cons c rest =>
        have notSibling : c ≠ '$' := by
          rintro rfl
          exact unscoped .sibling rest rfl
        have notInterface : c ≠ '%' := by
          rintro rfl
          exact unscoped .interface rest rfl
        rw [scope, take?, part_char_refuses _ notSibling, part_char_refuses _ notInterface]
        rfl
  rw [readOperand, operand, seq_parts, refused]
  rfl

theorem read_operand_eq (s : String) : Operand.read s = readOperand s.toList := by
  rw [Operand.read]
  split
  · rename_i rest spelled
    rw [spelled]
    exact (read_scoped_eq .sibling rest).symm
  · rename_i rest spelled
    rw [spelled]
    exact (read_scoped_eq .interface rest).symm
  · rename_i notSibling notInterface
    refine (read_unscoped_eq fun scope rest => ?_).symm
    cases scope with
    | sibling => exact notSibling rest
    | interface => exact notInterface rest

theorem plain_parts (cs : List Char) :
    (seq path .finish).parts? cs =
      if Name.isPathList cs = true then some [⟨.path, cs, []⟩, ⟨.finish, [], []⟩] else none := by
  have ends : Ends [] := ends_marks none
  rw [seq_parts]
  by_cases isPath : Name.isPathList cs = true
  · have whole := path_complete isPath ends
    rw [List.append_nil] at whole
    rw [whole, if_pos isPath]
    rfl
  · rw [if_neg isPath]
    cases found : path.take? cs with
    | none => rfl
    | some front =>
        obtain ⟨spelled, frontPath, _⟩ := path_sound found
        rw [Option.bind_some, finish_parts, if_neg]
        · rfl
        · intro nothing
          rw [nothing, List.append_nil] at spelled
          exact isPath (spelled ▸ frontPath)

theorem address_complete {schema : List Char} (isName : Name.isIdentifierList schema = true)
    (rest : List Char) :
    ∃ text, address.take? ('@' :: (schema ++ '.' :: rest)) =
      some ⟨text, [⟨.schema, text, [⟨.identifier, schema, []⟩]⟩], rest⟩ := by
  have stops : Stops ('.' :: rest) := by
    rintro c ⟨⟩
    decide
  have sign : (char '@').take? ('@' :: (schema ++ '.' :: rest)) =
      some ⟨['@'], [], schema ++ '.' :: rest⟩ := rfl
  refine ⟨'@' :: (schema ++ ['.']), ?_⟩
  rw [address, take?, take?, sign, Option.bind_some, take?, identifier_complete isName stops,
    Option.bind_some, dot_take]
  rfl

theorem address_sound {cs : List Char} {found : Found} (taken : address.take? cs = some found) :
    ∃ schema rest, cs = '@' :: (schema ++ '.' :: rest) ∧ Name.isIdentifierList schema = true := by
  rw [address, take?, Option.map_eq_some_iff] at taken
  obtain ⟨inner, taken, _⟩ := taken
  rw [take?, Option.bind_eq_some_iff] at taken
  obtain ⟨front, frontTaken, behind⟩ := taken
  obtain ⟨named, taken, _⟩ := Option.map_eq_some_iff.mp behind
  rw [take?, Option.bind_eq_some_iff] at taken
  obtain ⟨name, nameTaken, behind⟩ := taken
  obtain ⟨dot, dotTaken, _⟩ := Option.map_eq_some_iff.mp behind
  obtain ⟨spelled, isName⟩ := identifier_sound nameTaken
  refine ⟨name.text, dot.rest, ?_, isName⟩
  rw [(char_sound frontTaken).2, spelled, (char_sound dotTaken).2]

theorem read_addressed_eq {schema : List Char} (isName : Name.isIdentifierList schema = true)
    (rest : List Char) :
    readExternalName? ('@' :: (schema ++ '.' :: rest)) =
      if Name.isPathList rest = true then some ⟨some (String.ofList schema), String.ofList rest⟩
      else none := by
  obtain ⟨text, taken⟩ := address_complete isName rest
  rw [readExternalName?, externalName, seq_parts, take?, taken, Option.getD_some, Option.bind_some,
    plain_parts]
  split <;> rfl

theorem read_unaddressed_eq {cs : List Char} (refused : address.take? cs = none) :
    readExternalName? cs =
      if Name.isPathList cs = true then some ⟨none, String.ofList cs⟩ else none := by
  rw [readExternalName?, externalName, seq_parts, take?, refused, Option.getD_none, Option.bind_some,
    Found.nothing, plain_parts]
  split <;> rfl

theorem at_sign_not_path (rest : List Char) : ¬Name.isPathList ('@' :: rest) = true := by
  intro isPath
  obtain ⟨c, _, spelled, isFirst⟩ := Name.path_head isPath
  cases spelled
  cases isFirst

theorem read_external_name_eq (s : String) : ExternalName.read? s = readExternalName? s.toList := by
  rw [ExternalName.read?]
  split
  · rename_i rest spelled
    rw [spelled]
    cases taken : address.take? ('@' :: rest) with
    | some found =>
        -- No identifier has a dot in it, so the text is cut where the identifier ends.
        obtain ⟨schema, behind, same, isName⟩ := address_sound taken
        cases same
        rw [Text.cut_at_append '.' _ _ (Name.dot_not_in_identifier isName), read_addressed_eq isName]
        dsimp only
        rw [isName, Bool.true_and]
    | none =>
        rw [read_unaddressed_eq taken, if_neg (at_sign_not_path rest)]
        cases cut : Text.cutAt '.' rest with
        | none => rfl
        | some parts =>
            obtain ⟨schema, behind⟩ := parts
            dsimp only
            rw [if_neg]
            rw [Bool.and_eq_true]
            rintro ⟨isName, _⟩
            obtain ⟨text, complete⟩ := address_complete isName behind
            rw [← Text.cut_at_some cut, taken] at complete
            cases complete
  · rename_i unaddressed
    have refused : address.take? s.toList = none := by
      cases taken : address.take? s.toList with
      | none => rfl
      | some found =>
          obtain ⟨schema, rest, spelled, _⟩ := address_sound taken
          exact absurd spelled (unaddressed _)
    rw [read_unaddressed_eq refused, String.ofList_toList]

end Grammar

namespace Name

def IsDotted (path : String) : Prop :=
  ∃ names, names ≠ [] ∧ (∀ name ∈ names, isIdentifier name = true) ∧ path = joined names

theorem is_path_iff {path : String} : isPath path = true ↔ IsDotted path := by
  constructor
  · intro isPath
    exact ⟨segments path, segments_ne_nil path, segments_identifiers isPath,
      (joined_segments path).symm⟩
  · rintro ⟨names, some, identifiers, rfl⟩
    exact joined_path some identifiers

end Name

namespace MarkedPath

structure Spelled (cs : List Char) (p : MarkedPath) : Prop where
  path : Name.IsDotted p.path
  text : cs = p.query.mark ++ p.path.toList ∨ cs = p.path.toList ++ p.query.mark

theorem single_ok {before after : Option Query} {query : Query}
    (only : single (before.toList ++ after.toList) = .ok query) :
    marks before = [] ∧ marks after = query.mark ∨ marks before = query.mark ∧ marks after = [] := by
  cases before <;> cases after <;> cases only
  · exact Or.inl ⟨rfl, rfl⟩
  · exact Or.inl ⟨rfl, rfl⟩
  · exact Or.inr ⟨rfl, rfl⟩

theorem spelled_of_read {cs : List Char} {p : MarkedPath} (read : readList cs = .ok p) :
    Spelled cs p := by
  have spelled := leading_spelled cs
  rw [trailing_spelled (leading cs).2] at spelled
  rw [read_list_eq] at read
  split at read
  · rename_i isPath
    obtain ⟨query, only, rfl⟩ := except_map_ok.mp read
    constructor
    · rw [← Name.is_path_iff, Name.isPath, String.toList_ofList]
      exact isPath
    · rw [String.toList_ofList]
      obtain ⟨front, back⟩ | ⟨front, back⟩ := single_ok only
      · rw [front, back, List.nil_append] at spelled
        exact Or.inr spelled
      · rw [front, back, List.append_nil] at spelled
        exact Or.inl spelled
  · cases read

theorem read_of_spelled {cs : List Char} {p : MarkedPath} (spelled : Spelled cs p) :
    readList cs = .ok p := by
  obtain ⟨query, path⟩ := p
  obtain ⟨dotted, text⟩ := spelled
  have isPath := Name.is_path_iff.mpr dotted
  have marked {c : Char} (isMark : Query.ofMark? c = some query) (mark : query.mark = [c]) :
      readList cs = .ok ⟨query, path⟩ := by
    obtain ⟨front, back⟩ := read_marked isPath isMark
    rw [read, String.toList_append, String.toList_ofList, ← mark] at front back
    obtain rfl | rfl := text
    · exact front
    · exact back
  cases query with
  | value =>
      obtain rfl | rfl := text
      · exact read_path isPath
      · rw [Query.mark, List.append_nil]
        exact read_path isPath
  | size => exact marked rfl rfl
  | existence => exact marked rfl rfl

theorem read_ok_iff {s : String} {p : MarkedPath} : read s = .ok p ↔ Spelled s.toList p :=
  ⟨spelled_of_read, read_of_spelled⟩

end MarkedPath

namespace Operand

def Spelled (s : String) (o : Operand) : Prop :=
  ∃ rest, s.toList = o.scope.mark :: rest ∧ MarkedPath.Spelled rest o.marked

theorem spelled_of_behind {s : String} {o : Operand} (scope : Scope) {rest : List Char}
    (text : s.toList = scope.mark :: rest)
    (behind : (MarkedPath.readList rest).map (fun p => ⟨scope, p.query, p.path⟩) = .ok o) :
    Spelled s o := by
  obtain ⟨p, done, rfl⟩ := except_map_ok.mp behind
  exact ⟨rest, text, MarkedPath.spelled_of_read done⟩

theorem read_ok_iff {s : String} {o : Operand} : read s = .ok o ↔ Spelled s o := by
  constructor
  · intro done
    unfold read at done
    split at done
    · rename_i rest text
      exact spelled_of_behind .sibling text done
    · rename_i rest text
      exact spelled_of_behind .interface text done
    · cases done
  · rintro ⟨rest, text, marked⟩
    rw [Grammar.read_operand_eq, text, Grammar.read_scoped_eq, MarkedPath.read_of_spelled marked]
    rfl

end Operand

theorem ExternalName.read_some_iff {s : String} {name : ExternalName} :
    read? s = some name ↔ ∃ names, Spells s name.schema names ∧ name.path = Name.joined names := by
  constructor
  · intro read
    exact ⟨Name.segments name.path, spells_of_read read, (Name.joined_segments name.path).symm⟩
  · rintro ⟨names, spells, path⟩
    rw [read_spelled spells, ← path]

/-- A text is read as an operand, a marked path or an external name exactly if it is spelled as one,
and what is read is what it spells. An operand of a dotted path is read back from its text, and so is
what is behind its scope. All of them are read as the grammar tells their parts, and names are checked
for what it takes as identifiers. -/
theorem references_read_exactly (s : String) :
    (∀ o, Operand.read s = .ok o ↔ Operand.Spelled s o) ∧
    (∀ p, MarkedPath.read s = .ok p ↔ MarkedPath.Spelled s.toList p) ∧
    (∀ name, ExternalName.read? s = some name ↔
      ∃ names, ExternalName.Spells s name.schema names ∧ name.path = Name.joined names) ∧
    (∀ o : Operand, Name.IsDotted o.path →
      Operand.read o.text = .ok o ∧ MarkedPath.read o.marked.text = .ok o.marked) ∧
    Operand.read s = Grammar.readOperand s.toList ∧
    MarkedPath.read s = Grammar.readMarkedPath s.toList ∧
    ExternalName.read? s = Grammar.readExternalName? s.toList ∧
    (Name.isIdentifier s = true ↔
      ∃ found, Grammar.identifier.take? s.toList = some found ∧ found.rest = []) := by
  refine ⟨fun o => Operand.read_ok_iff, fun p => MarkedPath.read_ok_iff,
    fun name => ExternalName.read_some_iff, fun o dotted => ?_, Grammar.read_operand_eq s,
    Grammar.read_marked_path_eq s.toList, Grammar.read_external_name_eq s,
    Grammar.identifier_whole_iff⟩
  have isPath := Name.is_path_iff.mpr dotted
  exact ⟨Operand.read_text isPath, MarkedPath.read_text isPath⟩

/-- One mark on either side of the path is read, and two are not. -/
theorem marked_operands_read :
    Name.IsDotted "_a1.B" ∧
      Operand.read "%_a1.B?" = .ok ⟨.interface, .existence, "_a1.B"⟩ ∧
      Operand.read "%?_a1.B" = .ok ⟨.interface, .existence, "_a1.B"⟩ ∧
      ¬∃ o, Operand.Spelled "%?_a1.B?" o := by
  have dotted : Name.IsDotted "_a1.B" := ⟨["_a1", "B"], by decide, by decide, by decide⟩
  refine ⟨dotted, ?_, ?_, ?_⟩
  · exact ((references_read_exactly "").2.2.2.1 ⟨.interface, .existence, "_a1.B"⟩ dotted).1
  · exact ((references_read_exactly "%?_a1.B").1 _).mpr
      ⟨"?_a1.B".toList, by decide, dotted, Or.inl (by decide)⟩
  · rintro ⟨o, spelled⟩
    have done := ((references_read_exactly "%?_a1.B?").1 o).mpr spelled
    have twice : Operand.read "%?_a1.B?" = .error .twoMarks := rfl
    rw [twice] at done
    cases done

end WireSchema
