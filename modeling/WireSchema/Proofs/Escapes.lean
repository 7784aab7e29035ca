import WireSchema.Proofs.Expressions
import WireSchema.Proofs.Paths

/-!
Literals in conditions. A value is written with backslashes in front of the characters that mean
something in an expression. No operator stands unescaped in such a text, so the search for operators,
which goes through the whole expression once for each of them, cuts it at the operator that was meant;
and what is read from the right side is the value again.
-/

namespace WireSchema

namespace Text

structure Bare (cs : List Char) : Prop where
  first : ∃ c, cs.head? = some c ∧ isBlank c = false
  last : ∃ c, cs.getLast? = some c ∧ isBlank c = false

theorem bare_of_forall {cs : List Char} (some : cs ≠ []) (all : ∀ c ∈ cs, isBlank c = false) :
    Bare cs :=
  ⟨⟨cs.head some, List.head?_eq_some_head some, all _ (List.head_mem some)⟩,
    ⟨cs.getLast some, List.getLast?_eq_some_getLast some, all _ (List.getLast_mem some)⟩⟩

theorem bare_around {front back : List Char} (bareFront : Bare front) (middle : List Char)
    (bareBack : Bare back) : Bare (front ++ middle ++ back) := by
  obtain ⟨first, isFirst, notBlank⟩ := bareFront.first
  obtain ⟨last, isLast, notBlankEither⟩ := bareBack.last
  refine ⟨⟨first, ?_, notBlank⟩, ⟨last, ?_, notBlankEither⟩⟩
  · rw [List.append_assoc, List.head?_append, isFirst, Option.some_or]
  · rw [List.getLast?_append, isLast, Option.some_or]

theorem drop_blanks {p : Char → Bool} {front cs : List Char} {c : Char}
    (blank : ∀ c ∈ front, p c = true) (first : cs.head? = some c) (kept : p c = false) :
    (front ++ cs).dropWhile p = cs := by
  obtain ⟨rest, rfl⟩ := List.head?_eq_some_iff.mp first
  rw [List.dropWhile_append_of_pos blank, List.dropWhile_cons_of_neg (by rw [kept]; decide)]

/-- Trimming takes away the blanks around a text. -/
theorem trim_padded {lead cs trail : List Char} (blankLead : ∀ c ∈ lead, isBlank c = true)
    (bare : Bare cs) (blankTrail : ∀ c ∈ trail, isBlank c = true) :
    trimList (lead ++ cs ++ trail) = cs := by
  obtain ⟨first, isFirst, notBlank⟩ := bare.first
  obtain ⟨last, isLast, notBlankEither⟩ := bare.last
  have headed : (cs ++ trail).head? = some first := by
    rw [List.head?_append, isFirst, Option.some_or]
  have front : (lead ++ cs ++ trail).dropWhile isBlank = cs ++ trail := by
    rw [List.append_assoc]
    exact drop_blanks blankLead headed notBlank
  have back : (trail.reverse ++ cs.reverse).dropWhile isBlank = cs.reverse :=
    drop_blanks (fun c member => blankTrail c (List.mem_reverse.mp member))
      (by rw [List.head?_reverse, isLast]) notBlankEither
  rw [trimList, front, dropEndWhile, List.reverse_append, back, List.reverse_reverse]

theorem trim_behind {cs trail : List Char} (bare : Bare cs)
    (blankTrail : ∀ c ∈ trail, isBlank c = true) : trimList (cs ++ trail) = cs :=
  trim_padded (List.forall_mem_nil _) bare blankTrail

theorem trim_before {lead cs : List Char} (blankLead : ∀ c ∈ lead, isBlank c = true)
    (bare : Bare cs) : trimList (lead ++ cs) = cs := by
  have padded := trim_padded blankLead bare (List.forall_mem_nil _)
  rwa [List.append_nil] at padded

theorem bare_ne_nil {cs : List Char} (bare : Bare cs) : cs ≠ [] := by
  rintro rfl
  obtain ⟨c, none, -⟩ := bare.first
  cases none

end Text

namespace Name

theorem later_not_blank {c : Char} (later : isLater c = true) : Text.isBlank c = false := by
  have ranges : ((65 ≤ c.toNat ∧ c.toNat ≤ 90 ∨ 97 ≤ c.toNat ∧ c.toNat ≤ 122) ∨
      48 ≤ c.toNat ∧ c.toNat ≤ 57) ∨ c.toNat = 95 := by
    delta isLater Char.isAlphanum Char.isAlpha Char.isUpper Char.isLower Char.isDigit at later
    simp only [Bool.or_eq_true, Bool.and_eq_true, decide_eq_true_eq, beq_iff_eq, ge_iff_le,
      UInt32.le_iff_toNat_le] at later
    exact later.imp_right (congrArg Char.toNat)
  simp only [Text.isBlank, Bool.or_eq_false_iff, Bool.and_eq_false_iff, decide_eq_false_iff_not,
    beq_eq_false_iff_ne]
  omega

end Name

theorem MarkedPath.read_text {p : MarkedPath} (path : Name.isPath p.path = true) :
    read p.text = .ok p := by
  obtain ⟨query, way⟩ := p
  cases query with
  | value =>
      have spelled : text ⟨.value, way⟩ = way := String.append_empty
      rw [spelled]
      exact read_path path
  | size => exact (read_marked path (show Query.ofMark? '#' = some .size from rfl)).2
  | existence => exact (read_marked path (show Query.ofMark? '?' = some .existence from rfl)).2

namespace Operand

theorem text_characters (o : Operand) :
    o.text.toList = o.scope.mark :: (o.path.toList ++ o.query.mark) := by
  rw [text, marked, MarkedPath.text, String.toList_append, String.toList_append,
    String.toList_ofList, String.toList_ofList, List.singleton_append]

theorem mem_text {o : Operand} (path : Name.isPath o.path = true) {c : Char}
    (member : c ∈ o.text.toList) : c ∈ ['$', '%', '#', '?', '.'] ∨ Name.isLater c = true := by
  rw [text_characters, List.mem_cons, List.mem_append] at member
  rcases member with rfl | inPath | isMark
  · exact Or.inl (by cases o.scope <;> decide)
  · rcases Name.path_characters path inPath with rfl | later
    · exact Or.inl (by decide)
    · exact Or.inr later
  · refine Or.inl ?_
    cases asked : o.query with
    | value =>
        rw [asked] at isMark
        exact absurd isMark List.not_mem_nil
    | size | existence =>
        rw [asked] at isMark
        rw [List.mem_singleton.mp isMark]
        decide

theorem bare_text {o : Operand} (path : Name.isPath o.path = true) : Text.Bare o.text.toList := by
  apply Text.bare_of_forall
  · rw [text_characters]
    exact List.cons_ne_nil _ _
  · intro c member
    rcases mem_text path member with isMark | later
    · simp only [List.mem_cons, List.not_mem_nil, or_false] at isMark
      rcases isMark with rfl | rfl | rfl | rfl | rfl <;> decide
    · exact Name.later_not_blank later

/-- An operand is read back from its text. -/
theorem read_text {o : Operand} (path : Name.isPath o.path = true) : read o.text = .ok o := by
  have inner : MarkedPath.readList (o.path.toList ++ o.query.mark) = .ok o.marked := by
    have whole : MarkedPath.read o.marked.text = .ok o.marked := MarkedPath.read_text path
    rwa [MarkedPath.read, MarkedPath.text, String.toList_append, String.toList_ofList] at whole
  obtain ⟨scope, query, way⟩ := o
  rw [read, text_characters]
  cases scope with
  | sibling =>
      simp only [Scope.mark, inner]
      rfl
  | interface =>
      simp only [Scope.mark, inner]
      rfl

end Operand

namespace Expression

open Text (trimList)

/-- The text is the value with backslashes in front of characters of it: in front of each backslash
and each character of an operator, and of any others. -/
inductive Escapes : List Char → List Char → Prop where
  | nil : Escapes [] []
  | plain {c : Char} {value text : List Char} (free : c ∉ ['\\', '=', '<', '>'])
      (rest : Escapes value text) : Escapes (c :: value) (c :: text)
  | escaped {c : Char} {value text : List Char} (rest : Escapes value text) :
      Escapes (c :: value) ('\\' :: c :: text)

structure Writes (value text : List Char) : Prop where
  escapes : Escapes value text
  marked : ∀ c ∈ value.head?, c ∈ ['$', '%'] → text.head? = some '\\'

/-- Every character of an operator stands right behind a backslash; before the first character one
stands or does not. -/
def Guarded : Bool → List Char → Prop
  | _, [] => True
  | escaped, c :: rest => (c ∈ ['=', '<', '>'] → escaped = true) ∧ Guarded (c == '\\') rest

section Written

variable {value text : List Char}

theorem unescape_escaped (escapes : Escapes value text) : unescape text = value := by
  induction escapes with
  | nil => rfl
  | @plain c value text free _ ih =>
      have notEscape : c ≠ '\\' := fun same => free (by simp [same])
      rw [unescape, ih]
      · exact fun same => absurd same notEscape
      · exact fun _ _ same => absurd same notEscape
  | escaped _ ih => rw [unescape, ih]

theorem guarded_escaped (escapes : Escapes value text) (before : Bool) : Guarded before text := by
  -- A written text never starts with a character of an operator, so what stands before it is free.
  induction escapes generalizing before with
  | nil => trivial
  | plain free _ ih =>
      refine ⟨fun operator => absurd (List.mem_cons_of_mem _ operator) free, ih _⟩
  | escaped _ ih => exact ⟨fun operator => absurd operator (by decide), fun _ => rfl, ih _⟩

theorem last_escaped (escapes : Escapes value text) : text.getLast? = value.getLast? := by
  induction escapes with
  | nil => rfl
  | plain _ _ ih => rw [List.getLast?_cons, List.getLast?_cons, ih]
  | escaped _ ih =>
      rw [List.getLast?_cons, List.getLast?_cons, List.getLast?_cons, ih, Option.getD_some]

/-- A text starts as the value does, or with a backslash. -/
theorem head_escaped (escapes : Escapes value text) :
    text.head? = value.head? ∨ text.head? = some '\\' := by
  cases escapes with
  | nil | plain => exact Or.inl rfl
  | escaped => exact Or.inr rfl

theorem bare_escaped (escapes : Escapes value text) (bare : Text.Bare value) : Text.Bare text := by
  refine ⟨?_, last_escaped escapes ▸ bare.last⟩
  rcases head_escaped escapes with same | backslash
  · exact same ▸ bare.first
  · exact ⟨'\\', backslash, by decide⟩

theorem unscoped_written (writes : Writes value text) : isScoped text = false := by
  have unscoped {c : Char} (led : text.head? = some c) (other : c ∉ ['$', '%']) :
      isScoped text = false := by
    rw [List.mem_cons, List.mem_singleton, not_or] at other
    simp [isScoped, led, other]
  rcases head_escaped writes.escapes with same | backslash
  · cases first : value.head? with
    | none =>
        rw [isScoped, same, first]
        rfl
    | some c =>
        by_cases isMark : c ∈ ['$', '%']
        · exact unscoped (writes.marked c first isMark) (by decide)
        · exact unscoped (same.trans first) isMark
  · exact unscoped backslash (by decide)

end Written

end Expression

/-- An operator starts with a character that is one by itself, but for the one that is written with an
exclamation mark. -/
theorem Comparison.symbol_characters (op : Comparison) :
    op.symbol.toList = ['!', '='] ∨ ∃ c more, op.symbol.toList = c :: more ∧ c ∈ ['=', '<', '>'] := by
  cases op <;> simp [symbol]

namespace Expression

open Text (trimList)

section Search

variable {op other : Comparison} {left rest : List Char}

/-- An operator at the start of a guarded text is escaped. -/
theorem escaped_of_operator (op : Comparison) {before : Bool} (guarded : Guarded before rest)
    (starts : op.symbol.toList.isPrefixOf rest = true) : before = true := by
  obtain ⟨behind, rfl⟩ := List.isPrefixOf_iff_prefix.mp starts
  rcases op.symbol_characters with two | ⟨c, more, spelled, operator⟩
  · rw [two] at guarded
    exact absurd (guarded.2.1 (by decide)) (by decide)
  · rw [spelled] at guarded
    exact guarded.1 operator

theorem cut_guarded {before : Bool} (op : Comparison) (guarded : Guarded before rest) :
    cutUnescaped op.symbol.toList before rest = none := by
  induction rest generalizing before with
  | nil => rw [cutUnescaped]
  | cons c rest ih =>
      have passed : (op.symbol.toList.isPrefixOf (c :: rest) && !before) = false := by
        cases starts : op.symbol.toList.isPrefixOf (c :: rest) with
        | false => rfl
        | true =>
            rw [escaped_of_operator op guarded starts]
            rfl
      rw [cutUnescaped, passed, ih guarded.2]
      rfl

def Clear (cs : List Char) : Prop := ∀ c ∈ cs, c ∉ ['!', '=', '<', '>', '\\']

theorem cut_behind (op : Comparison) (clear : Clear left) (rest : List Char) :
    cutUnescaped op.symbol.toList false (left ++ rest) =
      (cutUnescaped op.symbol.toList false rest).map fun parts => (left ++ parts.1, parts.2) := by
  induction left with
  | nil => simp
  | cons c left ih =>
      obtain ⟨first, clear⟩ := List.forall_mem_cons.mp clear
      have passed : op.symbol.toList.isPrefixOf (c :: (left ++ rest)) = false := by
        rw [← Bool.not_eq_true, List.isPrefixOf_iff_prefix]
        rcases op.symbol_characters with two | ⟨d, more, spelled, operator⟩
        · rw [two, List.cons_prefix_cons]
          rintro ⟨rfl, -⟩
          exact first (by decide)
        · rw [spelled, List.cons_prefix_cons]
          rintro ⟨rfl, -⟩
          exact first (List.mem_cons_of_mem _ (List.mem_append_left ['\\'] operator))
      have unescaping : (c == '\\') = false := by
        rw [beq_eq_false_iff_ne]
        rintro rfl
        exact first (by decide)
      rw [List.cons_append, cutUnescaped, passed, unescaping, ih clear]
      cases cutUnescaped op.symbol.toList false rest <;> rfl

theorem cut_here (op : Comparison) (rest : List Char) :
    cutUnescaped op.symbol.toList false (op.symbol.toList ++ rest) = some ([], rest) := by
  cases op <;> simp [cutUnescaped, Comparison.symbol]

/-- No operator that is looked for earlier is found where this one stands. -/
theorem cut_earlier (earlier : other ∈ Comparison.order.takeWhile (· != op))
    (guarded : Guarded false rest) :
    cutUnescaped other.symbol.toList false (op.symbol.toList ++ rest) = none := by
  have nothing := cut_guarded other guarded
  -- A single `<` or `>` is not the start of a longer operator.
  have notLonger : ¬['='] <+: rest := fun starts =>
    absurd (escaped_of_operator .eq guarded (List.isPrefixOf_iff_prefix.mpr starts)) (by decide)
  cases op <;> cases other <;> first
    | exact absurd earlier (by decide)
    | simp_all [cutUnescaped, Comparison.symbol]

/-- An expression is cut at its operator if nothing before it belongs to one and all that does behind
it is escaped. -/
theorem split_at_operator (op : Comparison) (clear : Clear left) (guarded : Guarded false rest) :
    split (left ++ op.symbol.toList ++ rest) = some (op, left, rest) := by
  -- This operator cuts where it stands, and those that are tried before it find nothing.
  rw [split_some_iff]
  constructor
  · rw [List.append_assoc, cut_behind op clear, cut_here]
    simp
  · intro other earlier
    rw [List.append_assoc, cut_behind other clear, cut_earlier earlier guarded]
    rfl

end Search

theorem clear_operand {o : Operand} (path : Name.isPath o.path = true) : Clear o.text.toList := by
  intro c member operator
  have other : c ∉ ['$', '%', '#', '?', '.'] ∧ Name.isLater c = false := by
    simp only [List.mem_cons, List.not_mem_nil, or_false] at operator
    rcases operator with rfl | rfl | rfl | rfl | rfl <;> decide
  rcases Operand.mem_text path member with isMark | later
  · exact other.1 isMark
  · cases other.2.symm.trans later

theorem clear_blanks {gap : List Char} (blank : ∀ c ∈ gap, Text.isBlank c = true) : Clear gap := by
  intro c member operator
  have visible : Text.isBlank c = false := by
    simp only [List.mem_cons, List.not_mem_nil, or_false] at operator
    rcases operator with rfl | rfl | rfl | rfl | rfl <;> decide
  cases visible.symm.trans (blank c member)

/-- Clear characters guard themselves. -/
theorem guarded_behind {gap rest : List Char} (clear : Clear gap)
    (guarded : ∀ before, Guarded before rest) (before : Bool) : Guarded before (gap ++ rest) := by
  induction gap generalizing before with
  | nil => exact guarded before
  | cons c gap ih =>
      obtain ⟨first, clear⟩ := List.forall_mem_cons.mp clear
      refine ⟨fun operator => absurd ?_ first, ih clear _⟩
      exact List.mem_cons_of_mem _ (List.mem_append_left ['\\'] operator)

/-- What is read from an expression with an operator and a literal on its right side. -/
theorem read_of_split {source : String} {place : Place} {op : Comparison} {o : Operand}
    {before after : List Char} (cut : split (trimList source.toList) = some (op, before, after))
    (path : Name.isPath o.path = true) (isLeft : trimList before = o.text.toList)
    (some : trimList after ≠ []) (unscoped : isScoped (trimList after) = false) :
    read source place =
      .ok (.compare o op (.literal (String.ofList (unescape (trimList after))))) := by
  have operand : Operand.read (String.ofList (trimList before)) = .ok o := by
    rw [isLeft, String.ofList_toList, Operand.read_text path]
  exact read_of_reading (.literal cut operand some unscoped)

/-- Any value that neither starts nor ends with a blank can be written in a condition. However it is
escaped, and whatever blanks stand around the expression and its operator, the comparison that is read
is the one that was meant. -/
theorem literal_read_as_written {o : Operand} {op : Comparison} {value text : String}
    {lead before after trail : String} (path : Name.isPath o.path = true)
    (bare : Text.Bare value.toList) (writes : Writes value.toList text.toList)
    (blank : ∀ gap ∈ [lead, before, after, trail], ∀ c ∈ gap.toList, Text.isBlank c = true)
    (place : Place) :
    read (lead ++ o.text ++ before ++ op.symbol ++ after ++ text ++ trail) place =
      .ok (.compare o op (.literal value)) := by
  simp only [List.forall_mem_cons] at blank
  obtain ⟨blankLead, blankBefore, blankAfter, blankTrail, -⟩ := blank
  have bareLeft := Operand.bare_text path
  have bareRight := bare_escaped writes.escapes bare
  have trimmed :
      trimList (lead ++ o.text ++ before ++ op.symbol ++ after ++ text ++ trail).toList =
        (o.text.toList ++ before.toList) ++ op.symbol.toList ++ (after.toList ++ text.toList) := by
    have whole := Text.bare_around bareLeft
      (before.toList ++ op.symbol.toList ++ after.toList) bareRight
    simpa using Text.trim_padded blankLead whole blankTrail
  have clear : Clear (o.text.toList ++ before.toList) :=
    List.forall_mem_append.mpr ⟨clear_operand path, clear_blanks blankBefore⟩
  have guarded : Guarded false (after.toList ++ text.toList) :=
    guarded_behind (clear_blanks blankAfter) (guarded_escaped writes.escapes) false
  have cut := split_at_operator op clear guarded
  have right := Text.trim_before blankAfter bareRight
  rw [← trimmed] at cut
  rw [read_of_split cut path (Text.trim_behind bareLeft blankBefore), right,
    unescape_escaped writes.escapes, String.ofList_toList]
  · rw [right]
    exact Text.bare_ne_nil bareRight
  · rw [right]
    exact unscoped_written writes

/-- A value with much to escape and one character escaped for no reason, behind a size that no blank
divides from the operator. -/
theorem operators_read_as_written :
    read ("\n" ++ Operand.text ⟨.sibling, .size, "a.b"⟩ ++ "" ++ Comparison.symbol .gt ++ " " ++
        "\\%\\\\\\=\\< \\x!\\=$" ++ "  ") .unknown =
      .ok (.compare ⟨.sibling, .size, "a.b"⟩ .gt (.literal "%\\=< x!=$")) := by
  have value : "%\\=< x!=$".toList = ['%', '\\', '=', '<', ' ', 'x', '!', '=', '$'] :=
    String.toList_ofList
  have text : "\\%\\\\\\=\\< \\x!\\=$".toList =
      ['\\', '%', '\\', '\\', '\\', '=', '\\', '<', ' ', '\\', 'x', '!', '\\', '=', '$'] :=
    String.toList_ofList
  apply literal_read_as_written (by decide)
  · rw [value]
    exact ⟨⟨'%', rfl, by decide⟩, ⟨'$', rfl, by decide⟩⟩
  · rw [value, text]
    refine ⟨?_, fun _ _ _ => rfl⟩
    exact .escaped (.escaped (.escaped (.escaped (.plain (by decide) (.escaped (.plain (by decide)
      (.escaped (.plain (by decide) .nil))))))))
  · have blank : ∀ gap ∈ ["\n", "", " ", "  "], gap.toList.all Text.isBlank = true := by decide
    exact fun gap member => List.all_eq_true.mp (blank gap member)

end Expression

end WireSchema
