import WireSchema.Operand
import WireSchema.Properties

/-!
Conditions on fields: comparisons and checks, joined by lists of which all or one must hold. A
comparison is read at the first operator that no backslash escapes, trying the operators in a
fixed order; a backslash in the right operand stands for the character after it.
-/

namespace WireSchema

open Markup (Node)

inductive Comparison where
  | ne
  | ge
  | le
  | eq
  | gt
  | lt
  deriving DecidableEq

namespace Comparison

def symbol : Comparison → String
  | .ne => "!="
  | .ge => ">="
  | .le => "<="
  | .eq => "="
  | .gt => ">"
  | .lt => "<"

def order : List Comparison := [.ne, .ge, .le, .eq, .gt, .lt]

end Comparison

inductive Comparand where
  | literal (value : String)
  | operand (operand : Operand)
  deriving DecidableEq

def Comparand.text : Comparand → String
  | .literal value => value
  | .operand o => o.text

inductive Expression where
  | compare (left : Operand) (op : Comparison) (right : Comparand)
  | check (negated : Bool) (operand : Operand)
  deriving DecidableEq

inductive Connective where
  | all
  | any
  deriving DecidableEq

inductive Condition where
  | expression (e : Expression)
  | list (connective : Connective) (members : List Condition)

namespace Expression

open Text

def text : Expression → String
  | .compare left op right => left.text ++ " " ++ op.symbol ++ " " ++ right.text
  | .check negated operand => (if negated then "!" else "") ++ operand.text

/-- Cut at the first occurrence of `symbol` that no backslash precedes. -/
def cutUnescaped (symbol : List Char) : Bool → List Char → Option (List Char × List Char)
  | _, [] => none
  | escaped, c :: rest =>
      if symbol.isPrefixOf (c :: rest) && !escaped then
        some ([], (c :: rest).drop symbol.length)
      else (cutUnescaped symbol (c == '\\') rest).map fun parts => (c :: parts.1, parts.2)

def split (cs : List Char) : Option (Comparison × List Char × List Char) :=
  Comparison.order.findSome? fun op =>
    (cutUnescaped op.symbol.toList false cs).map fun parts => (op, parts.1, parts.2)

/-- Each backslash gives way to the character after it. -/
def unescape : List Char → List Char
  | [] => []
  | ['\\'] => []
  | '\\' :: c :: rest => c :: unescape rest
  | c :: rest => c :: unescape rest

def isScoped (cs : List Char) : Bool :=
  cs.head? == some '$' || cs.head? == some '%'

def read (source : String) (place : Place) : Except Error Expression :=
  let cs := trimList source.toList
  let refuse {α : Type} (reason : ConditionReason) : Except Error α :=
    .error ⟨place, .condition (.refused (String.ofList cs) reason)⟩
  let operand (t : List Char) : Except Error Operand :=
    match Operand.read (String.ofList t) with
    | .ok o => .ok o
    | .error _ => refuse .expectedOperand
  match cs, split cs with
  | [], _ => refuse .empty
  | '!' :: rest, none => do .ok (.check true (← operand (trimList rest)))
  | _, none => do .ok (.check false (← operand cs))
  | _, some (op, before, after) =>
      let left := trimList before
      let right := trimList after
      if before.isEmpty then refuse .missingLeft
      else if left.isEmpty || right.isEmpty then refuse .missingOperand
      else if !isScoped left then refuse .leftNotOperand
      else do
        let l ← operand left
        if isScoped right then .ok (.compare l op (.operand (← operand right)))
        else .ok (.compare l op (.literal (String.ofList (unescape right))))

def operands : Expression → List Operand
  | .compare left _ (.operand right) => [left, right]
  | .compare left _ (.literal _) => [left]
  | .check _ operand => [operand]

end Expression

namespace Condition

def read (source : String) (place : Place) : Except Error Condition :=
  (Expression.read source place).map .expression

mutual
def ofNode : Node → Except Error Condition
  | ⟨name, attributes, children, text, line⟩ =>
      let refuse : ConditionReason → Except Error Condition := fun reason =>
        .error ((Fault.condition (.refused name reason)).atLine line)
      let join (connective : Connective) (members : List Condition) : Except Error Condition :=
        if members.length < 2 then refuse .tooFew else .ok (.list connective members)
      match name with
      | "cond" => do read (← Node.value ⟨name, attributes, children, text, line⟩) (.line line)
      | "and" => do join .all (← ofNodes children)
      | "or" => do join .any (← ofNodes children)
      | _ => refuse .unexpectedElement

def ofNodes : List Node → Except Error (List Condition)
  | [] => .ok []
  | node :: rest => do
      let first ← ofNode node
      let others ← ofNodes rest
      .ok (first :: others)
end

mutual
def operands : Condition → List Operand
  | .expression e => e.operands
  | .list _ members => operandsAll members

def operandsAll : List Condition → List Operand
  | [] => []
  | member :: rest => operands member ++ operandsAll rest
end

def mentionsInterfaces (c : Condition) : Bool :=
  c.operands.any fun o => o.scope == .interface

end Condition

end WireSchema
