import WireSchema.Proofs.Escapes

/-!
Expressions as they are printed. An operand is printed as it can be read, and the operator with a
blank on both sides. A literal is printed as it is, without the backslashes that it was read with. So
the literals that cannot do without a backslash are read back as something else or not at all, and all
other expressions are read back as they were.
-/

namespace WireSchema

namespace Text

theorem blanks_in_front (cs : List Char) : ∃ lead rest, cs = lead ++ rest ∧
    (∀ c ∈ lead, isBlank c = true) ∧ ∀ c ∈ rest.head?, isBlank c = false := by
  induction cs with
  | nil => exact ⟨[], [], rfl, List.forall_mem_nil _, nofun⟩
  | cons c cs ih =>
      cases blank : isBlank c with
      | true =>
          obtain ⟨lead, rest, rfl, blanks, first⟩ := ih
          exact ⟨c :: lead, rest, rfl, List.forall_mem_cons.mpr ⟨blank, blanks⟩, first⟩
      | false => exact ⟨[], c :: cs, rfl, List.forall_mem_nil _, by simpa using blank⟩

/-- A text is made of blanks, of what trimming leaves, and of blanks. -/
theorem trim_cases (cs : List Char) : ∃ lead core trail, cs = lead ++ core ++ trail ∧
    (∀ c ∈ lead, isBlank c = true) ∧ (∀ c ∈ trail, isBlank c = true) ∧ (core = [] ∨ Bare core) := by
  obtain ⟨lead, rest, rfl, blankLead, first⟩ := blanks_in_front cs
  obtain ⟨trail, core, reversed, blankTrail, last⟩ := blanks_in_front rest.reverse
  have whole : rest = core.reverse ++ trail.reverse := by
    rw [← List.reverse_append, ← reversed, List.reverse_reverse]
  refine ⟨lead, core.reverse, trail.reverse, by rw [whole, List.append_assoc], blankLead,
    fun c member => blankTrail c (List.mem_reverse.mp member), ?_⟩
  cases core with
  | nil => exact Or.inl rfl
  | cons c core =>
      refine Or.inr ⟨?_, c, by simp, last c rfl⟩
      have some : (c :: core).reverse ≠ [] := by simp
      refine ⟨(c :: core).reverse.head some, List.head?_eq_some_head some, first _ ?_⟩
      rw [whole, List.head?_append, List.head?_eq_some_head some]
      rfl

theorem trim_bare {cs : List Char} (bare : Bare cs) : trimList cs = cs :=
  trim_before (List.forall_mem_nil _) bare

theorem trim_blanks {cs : List Char} (blank : ∀ c ∈ cs, isBlank c = true) : trimList cs = [] := by
  rw [trimList, ← List.append_nil cs, List.dropWhile_append_of_pos blank]
  rfl

/-- A text is what trimming leaves with blanks around it, and no blank is at the ends of what is left. -/
theorem trim_around (cs : List Char) : ∃ lead trail, cs = lead ++ trimList cs ++ trail ∧
    (∀ c ∈ lead, isBlank c = true) ∧ (∀ c ∈ trail, isBlank c = true) ∧
    (trimList cs = [] ∨ Bare (trimList cs)) := by
  obtain ⟨lead, core, trail, rfl, blankLead, blankTrail, empty | bare⟩ := trim_cases cs
  · have blank : ∀ c ∈ lead ++ core ++ trail, isBlank c = true := by
      rw [empty, List.append_nil]
      exact List.forall_mem_append.mpr ⟨blankLead, blankTrail⟩
    exact ⟨lead, trail, by rw [trim_blanks blank, empty], blankLead, blankTrail,
      Or.inl (trim_blanks blank)⟩
  · refine ⟨lead, trail, ?_, blankLead, blankTrail, Or.inr ?_⟩
    all_goals rw [trim_padded blankLead bare blankTrail]
    exact bare

/-- Trimming leaves a part of the text, which no blank is at the ends of. -/
theorem trim_part (cs : List Char) :
    trimList cs <:+: cs ∧ (trimList cs = [] ∨ Bare (trimList cs)) := by
  obtain ⟨lead, trail, text, -, -, core⟩ := trim_around cs
  exact ⟨⟨lead, trail, text.symm⟩, core⟩

end Text

namespace Expression

open Text (trimList)

section Unescaped

variable {cs : List Char}

theorem unescape_plain (plain : '\\' ∉ cs) : unescape cs = cs := by
  induction cs with
  | nil => rfl
  | cons c rest ih =>
      rw [List.mem_cons, not_or] at plain
      rw [unescape, ih plain.2]
      · exact fun same => absurd same.symm plain.1
      · exact fun _ _ same => absurd same.symm plain.1

/-- Every backslash makes what is read shorter. -/
theorem unescape_length (cs : List Char) :
    (unescape cs).length ≤ cs.length ∧ ('\\' ∈ cs → (unescape cs).length < cs.length) := by
  induction cs using unescape.induct with
  | case1 => simp [unescape]
  | case2 => simp [unescape]
  | case3 c rest ih =>
      rw [unescape]
      simp only [List.length_cons]
      omega
  | case4 c rest notLast notEscape ih =>
      have other : '\\' ≠ c := by
        rintro rfl
        cases rest with
        | nil => exact notLast rfl rfl
        | cons next rest => exact notEscape next rest rfl rfl
      rw [unescape]
      · simp only [List.length_cons, List.mem_cons, other, false_or]
        exact ⟨Nat.succ_le_succ ih.1, fun later => Nat.succ_lt_succ (ih.2 later)⟩
      · exact notLast
      · exact notEscape

/-- In a text without backslashes every operator that stands there is found. -/
theorem cut_plain_iff {symbol : List Char} (some : symbol ≠ []) (plain : '\\' ∉ cs) :
    cutUnescaped symbol false cs = none ↔ ¬symbol <:+: cs := by
  induction cs with
  | nil => simp [cutUnescaped, some]
  | cons c rest ih =>
      rw [List.mem_cons, not_or] at plain
      have unescaping : (c == '\\') = false := beq_eq_false_iff_ne.mpr (Ne.symm plain.1)
      rw [cutUnescaped, unescaping, List.infix_cons_iff, not_or, ← ih plain.2,
        ← List.isPrefixOf_iff_prefix]
      cases symbol.isPrefixOf (c :: rest) <;> simp

end Unescaped

theorem compare_characters (left : Operand) (op : Comparison) (right : Comparand) :
    (compare left op right).text.toList =
      left.text.toList ++ [' '] ++ op.symbol.toList ++ ' ' :: right.text.toList := by
  simp [text]

/-- The literal needs no backslash behind the operator: it is not empty, has no blank at its ends and
no mark of a scope in front, no backslash stands in it, and no operator that is looked for before this
one. -/
structure Plain (op : Comparison) (value : List Char) : Prop where
  bare : Text.Bare value
  unscoped : isScoped value = false
  unescaped : '\\' ∉ value
  alone : ∀ other ∈ Comparison.order.takeWhile (· != op), ¬other.symbol.toList <:+: value

section Printed

variable {op other : Comparison} {left value rest : List Char}

theorem symbol_bare (op : Comparison) : Text.Bare op.symbol.toList := by
  apply Text.bare_of_forall
  · cases op <;> simp [Comparison.symbol]
  · cases op <;> simp [Comparison.symbol] <;> decide

theorem infix_behind_operator (earlier : other ∈ Comparison.order.takeWhile (· != op)) :
    other.symbol.toList <:+: op.symbol.toList ++ ' ' :: value ↔ other.symbol.toList <:+: value := by
  cases op <;> cases other <;> first
    | exact absurd earlier (by decide)
    | simp [Comparison.symbol, List.infix_cons_iff]

theorem cut_at_printed (op : Comparison) (clear : Clear left) (rest : List Char) :
    cutUnescaped op.symbol.toList false (left ++ op.symbol.toList ++ rest) = some (left, rest) := by
  rw [List.append_assoc, cut_behind op clear, cut_here]
  simp

/-- A printed operator is found again if no earlier one stands in the literal behind it. -/
theorem split_printed_iff (clear : Clear left) (plain : '\\' ∉ value) :
    split (left ++ op.symbol.toList ++ ' ' :: value) = some (op, left, ' ' :: value) ↔
      ∀ other ∈ Comparison.order.takeWhile (· != op), ¬other.symbol.toList <:+: value := by
  rw [split_some_iff, cut_at_printed op clear, eq_self, true_and]
  refine forall₂_congr fun other earlier => ?_
  have some := Text.bare_ne_nil (symbol_bare other)
  have plainBehind : '\\' ∉ op.symbol.toList ++ ' ' :: value := by
    cases op <;> simp [Comparison.symbol, plain]
  rw [List.append_assoc, cut_behind other clear, Option.map_eq_none_iff,
    cut_plain_iff some plainBehind, infix_behind_operator earlier]

theorem reading_literal {cs : List Char} {o : Operand} {v : String}
    (reading : Reading cs (.compare o op (.literal v))) :
    ∃ before after, split cs = some (op, before, after) ∧ trimList after ≠ [] ∧
      isScoped (trimList after) = false ∧ v.toList = unescape (trimList after) := by
  cases reading with
  | literal cut _ some unscoped => exact ⟨_, _, cut, some, unscoped, String.toList_ofList⟩

/-- A literal that is read back from its print is what trimming leaves of it, without the
backslashes. -/
theorem read_back_literal {o : Operand} {v : String} (clear : Clear left)
    (reading : Reading (left ++ op.symbol.toList ++ rest) (.compare o op (.literal v))) :
    split (left ++ op.symbol.toList ++ rest) = some (op, left, rest) ∧ trimList rest ≠ [] ∧
      isScoped (trimList rest) = false ∧ v.toList = unescape (trimList rest) := by
  obtain ⟨before, after, cut, parts⟩ := reading_literal reading
  have found := (split_some_iff.mp cut).1
  rw [cut_at_printed op clear] at found
  cases found
  exact ⟨cut, parts⟩

theorem blank_space : ∀ c ∈ [' '], Text.isBlank c = true :=
  List.forall_mem_singleton.mpr (by decide)

theorem clear_left {o : Operand} (path : Name.isPath o.path = true) :
    Clear (o.text.toList ++ [' ']) :=
  List.forall_mem_append.mpr ⟨clear_operand path, clear_blanks blank_space⟩

/-- Nothing is lost of a printed comparison between bare texts. -/
theorem trim_printed {o : Operand} (op : Comparison) (right : Comparand)
    (path : Name.isPath o.path = true) (bare : Text.Bare right.text.toList) :
    trimList (compare o op right).text.toList =
      o.text.toList ++ [' '] ++ op.symbol.toList ++ ' ' :: right.text.toList := by
  have around := Text.bare_around (Operand.bare_text path) ([' '] ++ op.symbol.toList ++ [' ']) bare
  rw [compare_characters]
  simpa using Text.trim_bare around

theorem plain_of_read_back {o : Operand} {v : String} (path : Name.isPath o.path = true)
    (reading : Reading (trimList (compare o op (.literal v)).text.toList)
      (.compare o op (.literal v))) : Plain op v.toList := by
  have clear := clear_left path
  have bareLeft := Operand.bare_text path
  rw [compare_characters, Comparand.text] at reading
  obtain ⟨lead, core, trail, whole, blankLead, blankTrail, empty | bare⟩ :=
    Text.trim_cases v.toList
  · -- Nothing but blanks is printed behind the operator.
    have blank : ∀ c ∈ ' ' :: v.toList, Text.isBlank c = true := by
      rw [whole, empty, List.append_nil, List.forall_mem_cons]
      exact ⟨by decide, List.forall_mem_append.mpr ⟨blankLead, blankTrail⟩⟩
    rw [Text.trim_behind (Text.bare_around bareLeft [' '] (symbol_bare op)) blank,
      ← List.append_nil (o.text.toList ++ [' '] ++ op.symbol.toList)] at reading
    exact absurd rfl (read_back_literal clear reading).2.1
  · have trimmed : trimList (o.text.toList ++ [' '] ++ op.symbol.toList ++ ' ' :: v.toList) =
        o.text.toList ++ [' '] ++ op.symbol.toList ++ ' ' :: (lead ++ core) := by
      have around := Text.bare_around bareLeft ([' '] ++ op.symbol.toList ++ ' ' :: lead) bare
      simpa [whole] using Text.trim_behind around blankTrail
    have blankFront : ∀ c ∈ ' ' :: lead, Text.isBlank c = true :=
      List.forall_mem_cons.mpr ⟨by decide, blankLead⟩
    have inner := Text.trim_before blankFront bare
    rw [List.cons_append] at inner
    rw [trimmed] at reading
    obtain ⟨cut, -, unscoped, same⟩ := read_back_literal clear reading
    rw [inner] at unscoped same
    -- What is read is not longer than the middle part, so that this is all of the literal.
    obtain ⟨shorter, strictly⟩ := unescape_length core
    have lengths := congrArg List.length whole
    rw [same, List.length_append, List.length_append] at lengths
    have noLead : lead = [] := List.eq_nil_of_length_eq_zero (by omega)
    have noTrail : trail = [] := List.eq_nil_of_length_eq_zero (by omega)
    have plain : '\\' ∉ core := fun member => by
      have := strictly member
      omega
    rw [noLead, noTrail, List.append_nil, List.nil_append] at whole
    rw [noLead, List.nil_append] at cut
    rw [whole]
    exact ⟨bare, unscoped, plain, (split_printed_iff clear plain).mp cut⟩

theorem read_back_of_plain {o : Operand} {v : String} (path : Name.isPath o.path = true)
    (plain : Plain op v.toList) (place : Place) :
    read (compare o op (.literal v)).text place = .ok (.compare o op (.literal v)) := by
  have cut := (split_printed_iff (clear_left path) plain.unescaped).mpr plain.alone
  have trimmed := trim_printed op (.literal v) path plain.bare
  rw [Comparand.text] at trimmed
  rw [← trimmed] at cut
  have right := Text.trim_before blank_space plain.bare
  rw [List.singleton_append] at right
  rw [read_of_split cut path (Text.trim_behind (Operand.bare_text path) blank_space), right,
    unescape_plain plain.unescaped, String.ofList_toList]
  · rw [right]
    exact Text.bare_ne_nil plain.bare
  · rw [right]
    exact plain.unscoped

theorem guarded_clear {cs : List Char} (clear : Clear cs) (before : Bool) : Guarded before cs := by
  have empty : ∀ escaped, Guarded escaped [] := fun _ => trivial
  have guarded := guarded_behind clear empty before
  rwa [List.append_nil] at guarded

theorem split_guarded {cs : List Char} (guarded : Guarded false cs) : split cs = none := by
  rw [split, List.findSome?_eq_none_iff]
  intro op _
  rw [cut_guarded op guarded]
  rfl

theorem operands_read_back {l r : Operand} (leftPath : Name.isPath l.path = true)
    (rightPath : Name.isPath r.path = true) (place : Place) :
    read (compare l op (.operand r)).text place = .ok (.compare l op (.operand r)) := by
  have bareLeft := Operand.bare_text leftPath
  have bareRight := Operand.bare_text rightPath
  have clearRight : Clear ([' '] ++ r.text.toList) :=
    List.forall_mem_append.mpr ⟨clear_blanks blank_space, clear_operand rightPath⟩
  have cut := split_at_operator op (clear_left leftPath) (guarded_clear clearRight false)
  have trimmed := trim_printed op (.operand r) leftPath bareRight
  rw [Comparand.text] at trimmed
  rw [List.singleton_append, ← trimmed] at cut
  apply read_ok_iff.mpr
  refine .operands cut ?_ ?_
  · rw [Text.trim_behind bareLeft blank_space, String.ofList_toList, Operand.read_text leftPath]
  · rw [← List.singleton_append, Text.trim_before blank_space bareRight, String.ofList_toList,
      Operand.read_text rightPath]

theorem check_read_back {o : Operand} (path : Name.isPath o.path = true) (negated : Bool)
    (place : Place) : read (check negated o).text place = .ok (.check negated o) := by
  have bare := Operand.bare_text path
  have guarded := guarded_clear (clear_operand path)
  apply read_ok_iff.mpr
  cases negated with
  | false =>
      have spelled : (check false o).text.toList = o.text.toList := by simp [text]
      rw [spelled, Text.trim_bare bare]
      refine .check (split_guarded (guarded false)) ?_
      rw [String.ofList_toList, Operand.read_text path]
  | true =>
      have spelled : (check true o).text.toList = ['!'] ++ [] ++ o.text.toList := by simp [text]
      have bareMark : Text.Bare ['!'] := ⟨⟨'!', rfl, by decide⟩, ⟨'!', rfl, by decide⟩⟩
      rw [spelled, Text.trim_bare (Text.bare_around bareMark [] bare)]
      refine .negated rfl (split_guarded ⟨fun operator => absurd operator (by decide), guarded _⟩) ?_
      show Operand.read (String.ofList (trimList o.text.toList)) = .ok o
      rw [Text.trim_bare bare, String.ofList_toList, Operand.read_text path]

end Printed

def IsPlain : Expression → Prop
  | .compare _ op (.literal value) => Plain op value.toList
  | .compare _ _ (.operand _) => True
  | .check _ _ => True

/-- A text without backslashes is read as an expression that needs none. -/
theorem plain_of_plain_source {cs : List Char} {e : Expression} (reading : Reading cs e)
    (plain : '\\' ∉ cs) : e.IsPlain := by
  cases reading with
  | check | negated | operands => trivial
  | @literal op before after left cut isLeft some unscoped =>
      obtain ⟨here, none⟩ := split_some_iff.mp cut
      obtain ⟨part, core⟩ := Text.trim_part after
      have inside : trimList after <:+: cs := by
        rw [cut_some here]
        exact part.trans (List.suffix_append _ _).isInfix
      have plainValue : '\\' ∉ trimList after := fun member => plain (inside.subset member)
      rw [IsPlain, String.toList_ofList, unescape_plain plainValue]
      refine ⟨core.resolve_left some, unscoped, plainValue, fun other earlier found => ?_⟩
      have isSome := Text.bare_ne_nil (symbol_bare other)
      exact (cut_plain_iff isSome plain).mp (none other earlier) (found.trans inside)

/-- An expression that was read is read back from its print exactly if it has no literal that needs a
backslash. So it is for all expressions that were read from a text without backslashes. -/
theorem printed_read_back_iff {source : String} {place : Place} {e : Expression}
    (parsed : read source place = .ok e) (elsewhere : Place) :
    (read e.text elsewhere = .ok e ↔ e.IsPlain) ∧
      ('\\' ∉ source.toList → read e.text elsewhere = .ok e) := by
  have reading := read_ok_iff.mp parsed
  have exactly : read e.text elsewhere = .ok e ↔ e.IsPlain := by
    cases reading with
    | check _ isOperand =>
        exact iff_of_true (check_read_back (Operand.read_path isOperand).1 false elsewhere) trivial
    | negated _ _ isOperand =>
        exact iff_of_true (check_read_back (Operand.read_path isOperand).1 true elsewhere) trivial
    | operands _ isLeft isRight =>
        exact iff_of_true (operands_read_back (Operand.read_path isLeft).1
          (Operand.read_path isRight).1 elsewhere) trivial
    | literal _ isLeft =>
        have path := (Operand.read_path isLeft).1
        exact ⟨fun again => plain_of_read_back path (read_ok_iff.mp again),
          fun plain => read_back_of_plain path plain elsewhere⟩
  refine ⟨exactly, fun plain => exactly.mpr (plain_of_plain_source reading ?_)⟩
  exact fun member => plain ((Text.trim_part source.toList).1.subset member)

/-- An escaped equals sign behind an operator that is looked for earlier is read back without the
backslash. -/
theorem escaped_equals_read_back :
    read "$a >= x\\=y" .unknown = .ok (.compare ⟨.sibling, .value, "a"⟩ .ge (.literal "x=y")) ∧
      read (text (.compare ⟨.sibling, .value, "a"⟩ .ge (.literal "x=y"))) (.line 3) =
        .ok (.compare ⟨.sibling, .value, "a"⟩ .ge (.literal "x=y")) := by
  have parsed : read "$a >= x\\=y" .unknown =
      .ok (.compare ⟨.sibling, .value, "a"⟩ .ge (.literal "x=y")) :=
    except_of_to_option (by decide +kernel)
  refine ⟨parsed, (printed_read_back_iff parsed (.line 3)).1.mpr ?_⟩
  have value : "x=y".toList = ['x', '=', 'y'] := String.toList_ofList
  rw [IsPlain, value]
  exact ⟨⟨⟨'x', rfl, by decide⟩, ⟨'y', rfl, by decide⟩⟩, rfl, by decide, by decide⟩

/-- The backslash is lost in print: an operator that stood behind it is found where none was, and a
text that began with it is taken for a path. -/
theorem escaped_literals_not_read_back :
    (read "$s > a\\=b" .unknown = .ok (.compare ⟨.sibling, .value, "s"⟩ .gt (.literal "a=b")) ∧
      (read (text (.compare ⟨.sibling, .value, "s"⟩ .gt (.literal "a=b"))) .unknown).toOption =
        none) ∧
      read "$s = \\$x" .unknown = .ok (.compare ⟨.sibling, .value, "s"⟩ .eq (.literal "$x")) ∧
        read (text (.compare ⟨.sibling, .value, "s"⟩ .eq (.literal "$x"))) .unknown =
          .ok (.compare ⟨.sibling, .value, "s"⟩ .eq (.operand ⟨.sibling, .value, "x"⟩)) := by
  refine ⟨⟨?_, ?_⟩, ?_, ?_⟩
  · exact except_of_to_option (by decide +kernel)
  · decide +kernel
  · exact except_of_to_option (by decide +kernel)
  · exact except_of_to_option (by decide +kernel)

end Expression

end WireSchema
