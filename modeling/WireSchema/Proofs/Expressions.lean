import WireSchema.Condition
import WireSchema.Proofs.Build

/-!
What the text of an expression is read as. The operator is the first one in order that stands in the
text without a backslash before it, and the texts to both sides of it, trimmed, are the operands. Where
no operator is found, the text is a check. The relation `Reading` says this with one constructor for
each form of an expression.
-/

namespace WireSchema

theorem MarkedPath.read_list_path {cs : List Char} {p : MarkedPath} (done : readList cs = .ok p) :
    Name.isPath p.path = true := by
  unfold readList at done
  simp only at done
  split at done
  · rename_i path
    have same : p.path.toList = (trailing (leading cs).2).2 := by
      split at done <;> cases done <;> exact String.toList_ofList
    rw [Name.isPath, same]
    exact path
  · cases done

theorem Operand.read_path {s : String} {o : Operand} (done : read s = .ok o) :
    Name.isPath o.path = true ∧ s.toList.head? = some o.scope.mark := by
  unfold read at done
  split at done
  · rename_i rest spelled
    cases ofRest : MarkedPath.readList rest with
    | error =>
        rw [ofRest] at done
        cases done
    | ok p =>
        rw [ofRest] at done
        cases done
        exact ⟨MarkedPath.read_list_path ofRest, by rw [spelled]; rfl⟩
  · rename_i rest spelled
    cases ofRest : MarkedPath.readList rest with
    | error =>
        rw [ofRest] at done
        cases done
    | ok p =>
        rw [ofRest] at done
        cases done
        exact ⟨MarkedPath.read_list_path ofRest, by rw [spelled]; rfl⟩
  · cases done

namespace Expression

open Text (trimList)

/-- A text is cut into what stands before the operator, the operator, and what stands behind it. -/
theorem cut_some {symbol cs before after : List Char} {escaped : Bool}
    (cut : cutUnescaped symbol escaped cs = some (before, after)) :
    cs = before ++ symbol ++ after := by
  induction cs generalizing escaped before with
  | nil => cases cut
  | cons c rest ih =>
      rw [cutUnescaped] at cut
      split at cut
      · rename_i here
        rw [Bool.and_eq_true, List.isPrefixOf_iff_prefix] at here
        obtain ⟨⟨behind, whole⟩, -⟩ := here
        cases cut
        rw [← whole, List.drop_left, List.nil_append]
      · obtain ⟨⟨front, back⟩, later, same⟩ := Option.map_eq_some_iff.mp cut
        cases same
        rw [ih later, List.cons_append, List.cons_append]

/-- The operator that is found is the first one in order that stands in the text. -/
theorem split_some_iff {cs before after : List Char} {op : Comparison} :
    split cs = some (op, before, after) ↔
      cutUnescaped op.symbol.toList false cs = some (before, after) ∧
        ∀ other ∈ Comparison.order.takeWhile (· != op),
          cutUnescaped other.symbol.toList false cs = none := by
  rw [split, List.findSome?_eq_some_iff]
  constructor
  · rintro ⟨earlier, found, later, order, cut, none⟩
    obtain ⟨parts, ofFound, same⟩ := Option.map_eq_some_iff.mp cut
    cases same
    refine ⟨ofFound, fun other member => ?_⟩
    -- What is tried before the operator stands in front of it in the order.
    have before : other ∈ earlier := by
      rw [order, List.takeWhile_append, List.takeWhile_cons_of_neg (by simp)] at member
      split at member
      · simpa using member
      · exact (List.takeWhile_prefix _).subset member
    exact Option.map_eq_none_iff.mp (none other before)
  · rintro ⟨cut, none⟩
    have order : Comparison.order = Comparison.order.takeWhile (· != op) ++
        op :: (Comparison.order.dropWhile (· != op)).tail := by
      cases op <;> rfl
    refine ⟨_, op, _, order, by rw [cut]; rfl, fun other member => ?_⟩
    rw [none other member]
    rfl

inductive Reading (cs : List Char) : Expression → Prop where
  | check {o : Operand} (uncut : split cs = none)
      (isOperand : Operand.read (String.ofList cs) = .ok o) : Reading cs (.check false o)
  | negated {rest : List Char} {o : Operand} (starts : cs = '!' :: rest) (uncut : split cs = none)
      (isOperand : Operand.read (String.ofList (trimList rest)) = .ok o) :
      Reading cs (.check true o)
  | operands {op : Comparison} {before after : List Char} {left right : Operand}
      (cut : split cs = some (op, before, after))
      (isLeft : Operand.read (String.ofList (trimList before)) = .ok left)
      (isRight : Operand.read (String.ofList (trimList after)) = .ok right) :
      Reading cs (.compare left op (.operand right))
  | literal {op : Comparison} {before after : List Char} {left : Operand}
      (cut : split cs = some (op, before, after))
      (isLeft : Operand.read (String.ofList (trimList before)) = .ok left)
      (some : trimList after ≠ []) (unscoped : isScoped (trimList after) = false) :
      Reading cs (.compare left op (.literal (String.ofList (unescape (trimList after)))))

theorem scoped_of_operand {cs : List Char} {o : Operand}
    (isOperand : Operand.read (String.ofList cs) = .ok o) : isScoped cs = true := by
  have first := (Operand.read_path isOperand).2
  rw [String.toList_ofList] at first
  rw [isScoped, first]
  cases o.scope <;> rfl

theorem some_of_scoped {cs : List Char} (marked : isScoped (trimList cs) = true) :
    (trimList cs).isEmpty = false ∧ cs.isEmpty = false := by
  constructor
  · cases same : trimList cs with
    | nil =>
        rw [same] at marked
        cases marked
    | cons => rfl
  · cases cs with
    | nil => cases marked
    | cons => rfl

theorem reading_of_read {source : String} {place : Place} {e : Expression}
    (done : read source place = .ok e) : Reading (trimList source.toList) e := by
  unfold read at done
  generalize trimList source.toList = cs at done ⊢
  simp only at done
  -- No text, a check with and without the mark in front, and a comparison.
  split at done
  · cases done
  · rename_i uncut
    simp only [except_bind_ok, Except.ok.injEq] at done
    obtain ⟨o, isOperand, rfl⟩ := done
    split at isOperand
    · rename_i ofRest
      cases isOperand
      exact .negated rfl uncut ofRest
    · cases isOperand
  · rename_i uncut
    simp only [except_bind_ok, Except.ok.injEq] at done
    obtain ⟨o, isOperand, rfl⟩ := done
    split at isOperand
    · rename_i ofText
      cases isOperand
      exact .check uncut ofText
    · cases isOperand
  · rename_i cut
    split at done
    · cases done
    · split at done
      · cases done
      · rename_i bothSides
        rw [Bool.or_eq_true, not_or, Bool.not_eq_true, Bool.not_eq_true,
          List.isEmpty_eq_false_iff, List.isEmpty_eq_false_iff] at bothSides
        split at done
        · cases done
        · simp only [except_bind_ok] at done
          obtain ⟨left, isLeft, done⟩ := done
          split at isLeft
          · rename_i ofLeft
            cases isLeft
            split at done
            · simp only [except_bind_ok, Except.ok.injEq] at done
              obtain ⟨right, isRight, rfl⟩ := done
              split at isRight
              · rename_i ofRight
                cases isRight
                exact .operands cut ofLeft ofRight
              · cases isRight
            · rename_i unscoped
              cases done
              exact .literal cut ofLeft bothSides.2 (by simpa using unscoped)
          · cases isLeft

theorem read_of_reading {source : String} {place : Place} {e : Expression}
    (reading : Reading (trimList source.toList) e) : read source place = .ok e := by
  unfold read
  generalize trimList source.toList = cs at reading ⊢
  cases reading with
  | check uncut isOperand =>
      have marked := scoped_of_operand isOperand
      simp only [uncut]
      split
      · cases marked
      · cases marked
      · simp only [isOperand]
        rfl
      · rename_i cut
        cases cut
  | negated starts uncut isOperand =>
      subst starts
      simp only [uncut, isOperand]
      rfl
  | operands cut isLeft isRight =>
      have marked := scoped_of_operand isLeft
      have markedRight := scoped_of_operand isRight
      obtain ⟨someLeft, someBefore⟩ := some_of_scoped marked
      cases cs with
      | nil => cases cut
      | cons =>
          simp only [cut, someBefore, someLeft, (some_of_scoped markedRight).1, marked, markedRight,
            isLeft, isRight]
          rfl
  | literal cut isLeft some unscoped =>
      have marked := scoped_of_operand isLeft
      obtain ⟨someLeft, someBefore⟩ := some_of_scoped marked
      have someRight := List.isEmpty_eq_false_iff.mpr some
      cases cs with
      | nil => cases cut
      | cons =>
          simp only [cut, someBefore, someLeft, someRight, marked, unscoped, isLeft]
          rfl

theorem read_ok_iff {source : String} {place : Place} {e : Expression} :
    read source place = .ok e ↔ Reading (trimList source.toList) e :=
  ⟨reading_of_read, read_of_reading⟩

end Expression

end WireSchema
