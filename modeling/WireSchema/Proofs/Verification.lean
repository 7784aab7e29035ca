import WireSchema.Condition.Verify
import WireSchema.Proofs.Build

/-!
What it takes to verify a condition: every list in it joins two members at least, and every expression
in it has scopes that the DSL version knows and fits. An expression fits by something that its operands
designate, each in the lists of fields that its scope has it looked for in.
-/

namespace WireSchema

namespace Condition

mutual
def expressions : Condition → List Expression
  | .expression e => [e]
  | .list _ members => expressionsAll members

def expressionsAll : List Condition → List Expression
  | [] => []
  | member :: rest => expressions member ++ expressionsAll rest
end

mutual
def Joined : Condition → Prop
  | .expression _ => True
  | .list _ members => 2 ≤ members.length ∧ JoinedAll members

def JoinedAll : List Condition → Prop
  | [] => True
  | member :: rest => Joined member ∧ JoinedAll rest
end

section

variable {siblings : List Field} {env : Environment} {place : Place}

mutual
theorem verify_iff (c : Condition) :
    c.verify siblings env place = .ok () ↔
      c.Joined ∧ ∀ e ∈ c.expressions, e.verify siblings env place = .ok () := by
  cases c with
  | expression e => simp [verify, Joined, expressions]
  | list connective members =>
      rw [verify, Joined, expressions, and_assoc]
      by_cases short : members.length < 2
      · rw [if_pos short]
        constructor
        · intro verified
          cases verified
        · intro ⟨long, _⟩
          omega
      · rw [if_neg short, and_iff_right (Nat.le_of_not_lt short)]
        exact verify_all_iff members

theorem verify_all_iff (members : List Condition) :
    verifyAll siblings env place members = .ok () ↔
      JoinedAll members ∧ ∀ e ∈ expressionsAll members, e.verify siblings env place = .ok () := by
  cases members with
  | nil => simp [verifyAll, JoinedAll, expressionsAll]
  | cons member rest =>
      rw [verifyAll, except_bind_ok, JoinedAll, expressionsAll, List.forall_mem_append]
      constructor
      · rintro ⟨_, ofMember, ofRest⟩
        obtain ⟨joined, fits⟩ := (verify_iff member).mp ofMember
        obtain ⟨joinedRest, fitRest⟩ := (verify_all_iff rest).mp ofRest
        exact ⟨⟨joined, joinedRest⟩, fits, fitRest⟩
      · rintro ⟨⟨joined, joinedRest⟩, fits, fitRest⟩
        exact ⟨(), (verify_iff member).mpr ⟨joined, fits⟩,
          (verify_all_iff rest).mpr ⟨joinedRest, fitRest⟩⟩
end

end

mutual
/-- The operands of a condition are those of its expressions. -/
theorem operands_eq (c : Condition) : c.operands = c.expressions.flatMap Expression.operands := by
  cases c with
  | expression e => rw [operands, expressions, List.flatMap_singleton]
  | list connective members =>
      rw [operands, expressions]
      exact operands_all_eq members

theorem operands_all_eq (members : List Condition) :
    operandsAll members = (expressionsAll members).flatMap Expression.operands := by
  cases members with
  | nil => rw [operandsAll, expressionsAll, List.flatMap_nil]
  | cons member rest =>
      rw [operandsAll, expressionsAll, List.flatMap_append, operands_eq member,
        operands_all_eq rest]
end

end Condition

namespace Operand

def levels (o : Operand) (siblings : List Field) (interfaces : List Interface) :
    List (List Field) :=
  match o.scope with
  | .sibling => [siblings]
  | .interface => interfaces.map Interface.fields

theorem targets_eq (o : Operand) (siblings : List Field) (interfaces : List Interface) :
    o.targets siblings interfaces =
      ((o.levels siblings interfaces).map fun fields =>
        Field.resolve fields o.marked.text).filter Target.isValid := by
  unfold targets levels
  cases o.scope with
  | sibling => rfl
  | interface => rw [Interface.resolve, List.map_map]; rfl

theorem mem_targets_iff {o : Operand} {siblings : List Field} {interfaces : List Interface}
    {t : Target} :
    t ∈ o.targets siblings interfaces ↔
      (∃ fields ∈ o.levels siblings interfaces, Field.resolve fields o.marked.text = t) ∧
        t.isValid = true := by
  rw [targets_eq, List.mem_filter, List.mem_map]

theorem demand_ok_iff {o : Operand} {siblings : List Field} {env : Environment} {place : Place}
    {condition : String} {targets : List Target} :
    o.demand siblings env place condition = .ok targets ↔
      o.targets siblings env.interfaces ≠ [] ∧ o.targets siblings env.interfaces = targets := by
  unfold demand
  cases o.targets siblings env.interfaces with
  | nil => simp
  | cons first rest => simp

end Operand

theorem Target.plain_some_iff {t : Target} {f : Field} : t.plain? = some f ↔ t = .field f := by
  cases t <;> simp [plain?]

def Comparand.Accepts (right : Comparand) (siblings : List Field) (env : Environment) (f : Field) :
    Prop :=
  match right with
  | .literal value => f.comparesToText value env = true
  | .operand o => ∃ g, .field g ∈ o.targets siblings env.interfaces ∧ f.comparesTo g = true

namespace Expression

def Supported (e : Expression) (env : Environment) : Prop :=
  ∀ o ∈ e.operands, o.scope = .interface → env.supports .interfaceRef = true

/-- The operands designate something that can be checked, sized or compared as the expression
says. -/
inductive Fits (siblings : List Field) (env : Environment) : Expression → Prop where
  | check {negated : Bool} {o : Operand} {t : Target}
      (gate : o.query = .existence → env.supports .existsCheckInCond = true)
      (found : t ∈ o.targets siblings env.interfaces)
      (checkable : t.kind = .innerValue ∨ t.kind = .existence) :
      Fits siblings env (.check negated o)
  | size {left : Operand} {op : Comparison} {value : String} {n : Int} {t : Target}
      (asked : left.query = .size) (gate : env.supports .sizeCompInCond = true)
      (found : t ∈ left.targets siblings env.interfaces)
      (integer : Literal.integer? value = some n) :
      Fits siblings env (.compare left op (.literal value))
  | value {left : Operand} {op : Comparison} {right : Comparand} {f : Field}
      (asked : left.query = .value) (found : .field f ∈ left.targets siblings env.interfaces)
      (comparable : right.Accepts siblings env f) :
      Fits siblings env (.compare left op right)

variable {siblings : List Field} {env : Environment} {place : Place} {condition : String}

theorem verify_scopes_ok_iff {e : Expression} :
    e.verifyScopes env place = .ok () ↔ e.Supported env := by
  unfold verifyScopes Supported
  split
  · rename_i refused
    simp only [Bool.and_eq_true, List.any_eq_true, beq_iff_eq, Bool.not_eq_true'] at refused
    obtain ⟨⟨o, member, scope⟩, unsupported⟩ := refused
    constructor
    · intro verified
      cases verified
    · intro supported
      cases unsupported.symm.trans (supported o member scope)
  · rename_i accepted
    simp only [Bool.and_eq_true, List.any_eq_true, beq_iff_eq, Bool.not_eq_true', not_and,
      Bool.not_eq_false, forall_exists_index, and_imp] at accepted
    exact ⟨fun _ => accepted, fun _ => rfl⟩

theorem verify_check_ok_iff {o : Operand} :
    verifyCheck o condition siblings env place = .ok () ↔
      (o.query = .existence → env.supports .existsCheckInCond = true) ∧
        ∃ t ∈ o.targets siblings env.interfaces, t.kind = .innerValue ∨ t.kind = .existence := by
  unfold verifyCheck
  split
  · rename_i refused
    simp only [Bool.and_eq_true, beq_iff_eq, Bool.not_eq_true'] at refused
    simp [refused]
  · rename_i accepted
    simp only [Bool.and_eq_true, beq_iff_eq, Bool.not_eq_true', not_and, Bool.not_eq_false]
      at accepted
    rw [and_iff_right accepted]
    simp only [except_bind_ok, Operand.demand_ok_iff]
    constructor
    · rintro ⟨_, ⟨-, rfl⟩, checked⟩
      split at checked
      · rename_i checkable
        simpa using checkable
      · cases checked
    · rintro ⟨t, found, checkable⟩
      refine ⟨_, ⟨List.ne_nil_of_mem found, rfl⟩, if_pos ?_⟩
      rw [List.any_eq_true]
      exact ⟨t, found, by simpa using checkable⟩

theorem verify_size_ok_iff {left : Operand} {right : Comparand} :
    verifySize left right condition siblings env place = .ok () ↔
      env.supports .sizeCompInCond = true ∧ (∃ t, t ∈ left.targets siblings env.interfaces) ∧
        ∃ value n, right = .literal value ∧ Literal.integer? value = some n := by
  unfold verifySize
  split
  · rename_i refused
    rw [Bool.not_eq_true'] at refused
    simp [refused]
  · rename_i accepted
    rw [Bool.not_eq_true', Bool.not_eq_false] at accepted
    rw [and_iff_right accepted]
    cases right with
    | operand o => simp [except_bind_ok]
    | literal value =>
        simp only [except_bind_ok, Operand.demand_ok_iff]
        constructor
        · rintro ⟨_, ⟨some, rfl⟩, sized⟩
          split at sized
          · rename_i isInteger
            obtain ⟨n, integer⟩ := Option.isSome_iff_exists.mp isInteger
            exact ⟨List.exists_mem_of_ne_nil _ some, value, n, rfl, integer⟩
          · cases sized
        · rintro ⟨⟨t, found⟩, _, n, ⟨⟩, integer⟩
          exact ⟨_, ⟨List.ne_nil_of_mem found, rfl⟩, if_pos (by rw [integer]; rfl)⟩

theorem mem_plain_iff {found : List Target} {f : Field} :
    f ∈ found.filterMap Target.plain? ↔ .field f ∈ found := by
  simp only [List.mem_filterMap, Target.plain_some_iff, exists_eq_right]

/-- The two sides are found comparable exactly if a field on the left compares with the right. -/
theorem comparable_iff {lefts : List Field} {right : Comparand} :
    comparable lefts right condition siblings env place = .ok true ↔
      ∃ f ∈ lefts, right.Accepts siblings env f := by
  cases right with
  | literal value => simp [comparable, Comparand.Accepts]
  | operand o =>
      simp only [comparable, except_bind_ok, Operand.demand_ok_iff, Comparand.Accepts]
      constructor
      · rintro ⟨_, ⟨-, rfl⟩, compared⟩
        obtain ⟨f, member, compares⟩ := List.any_eq_true.mp (Except.ok.inj compared)
        obtain ⟨g, found, compares⟩ := List.any_eq_true.mp compares
        exact ⟨f, member, g, mem_plain_iff.mp found, compares⟩
      · rintro ⟨f, member, g, found, compares⟩
        refine ⟨_, ⟨List.ne_nil_of_mem found, rfl⟩, congrArg Except.ok ?_⟩
        rw [List.any_eq_true]
        refine ⟨f, member, ?_⟩
        rw [List.any_eq_true]
        exact ⟨g, mem_plain_iff.mpr found, compares⟩

theorem verify_value_ok_iff {left : Operand} {right : Comparand} :
    verifyValue left right condition siblings env place = .ok () ↔
      ∃ f, .field f ∈ left.targets siblings env.interfaces ∧ right.Accepts siblings env f := by
  simp only [verifyValue, except_bind_ok, Operand.demand_ok_iff]
  constructor
  · rintro ⟨_, ⟨-, rfl⟩, compared⟩
    split at compared
    · cases compared
    · obtain ⟨answer, isComparable, accepted⟩ := except_bind_ok.mp compared
      cases answer with
      | false => cases accepted
      | true =>
          obtain ⟨f, member, accepts⟩ := comparable_iff.mp isComparable
          exact ⟨f, mem_plain_iff.mp member, accepts⟩
  · rintro ⟨f, found, accepts⟩
    have member := mem_plain_iff.mpr found
    -- The field that compares is also why something is left on the left side.
    refine ⟨_, ⟨List.ne_nil_of_mem found, rfl⟩, ?_⟩
    rw [if_neg (by simpa using List.ne_nil_of_mem member),
      comparable_iff.mpr ⟨f, member, accepts⟩]
    rfl

/-- An expression is verified exactly if the DSL version has its scopes and it fits. -/
theorem verify_ok_iff (e : Expression) :
    e.verify siblings env place = .ok () ↔ e.Supported env ∧ e.Fits siblings env := by
  unfold verify
  rw [except_bind_ok]
  constructor
  · rintro ⟨_, scopes, rest⟩
    refine ⟨verify_scopes_ok_iff.mp scopes, ?_⟩
    cases e with
    | check negated o =>
        obtain ⟨gate, t, found, checkable⟩ := verify_check_ok_iff.mp rest
        exact .check gate found checkable
    | compare left op right =>
        cases asked : left.query with
        | size =>
            simp only [asked] at rest
            obtain ⟨gate, ⟨t, found⟩, value, n, rfl, integer⟩ := verify_size_ok_iff.mp rest
            exact .size asked gate found integer
        | existence =>
            simp only [asked] at rest
            cases rest
        | value =>
            simp only [asked] at rest
            obtain ⟨f, found, accepts⟩ := verify_value_ok_iff.mp rest
            exact .value asked found accepts
  · rintro ⟨supported, fits⟩
    refine ⟨(), verify_scopes_ok_iff.mpr supported, ?_⟩
    cases fits with
    | check gate found checkable => exact verify_check_ok_iff.mpr ⟨gate, _, found, checkable⟩
    | size asked gate found integer =>
        simp only [asked]
        exact verify_size_ok_iff.mpr ⟨gate, ⟨_, found⟩, _, _, rfl, integer⟩
    | value asked found accepts =>
        simp only [asked]
        exact verify_value_ok_iff.mpr ⟨_, found, accepts⟩

end Expression

end WireSchema
