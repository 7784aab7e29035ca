import WireSchema.Environment
import WireSchema.Field.Compare
import WireSchema.Field.Resolve

/-!
Checking conditions: every operand must lead somewhere, the two sides of a comparison must be
comparable, and the DSL version must have what is used.
-/

namespace WireSchema

namespace Operand

def demand (o : Operand) (siblings : List Field) (env : Environment) (place : Place)
    (condition : String) : Except Error (List Target) :=
  match o.targets siblings env.interfaces with
  | [] => .error ⟨place, .reference (.operandUnknown condition o.text)⟩
  | targets => .ok targets

end Operand

namespace Target

def plain? : Target → Option Field
  | .field f => some f
  | _ => none

end Target

namespace Field

/-- A text compares with a field as a literal, or as the name of a registered value of its kind. -/
def comparesToText (f : Field) (value : String) (env : Environment) : Bool :=
  f.comparesToValue value ||
    match Text.after? '^' value with
    | some ref =>
        match f.dereferenced.kind with
        | .string => (env.registry.text? env.context.name ref).isSome
        | .data => (env.registry.data? env.context.name ref).isSome
        | _ => false
    | none =>
        match f.dereferenced.kind with
        | .int | .enum => (env.numeric? value).isSome
        | .float => (env.real? value).isSome
        | .set => (env.bool? value).isSome
        | _ => false

end Field

namespace Expression

def verifyScopes (e : Expression) (env : Environment) (place : Place) : Except Error Unit :=
  if e.operands.any (fun o => o.scope == .interface) && !env.supports .interfaceRef then
    .error ⟨place, .feature (.interfaceOperand e.text env.dsl)⟩
  else .ok ()

def verifyCheck (o : Operand) (condition : String) (siblings : List Field) (env : Environment)
    (place : Place) : Except Error Unit :=
  if o.query == .existence && !env.supports .existsCheckInCond then
    .error ⟨place, .feature (.existenceCheck condition env.dsl)⟩
  else do
    let targets ← o.demand siblings env place condition
    if targets.any fun t => t.kind == .innerValue || t.kind == .existence then .ok ()
    else .error ⟨place, .condition (.refused condition .uncheckable)⟩

def verifySize (left : Operand) (right : Comparand) (condition : String) (siblings : List Field)
    (env : Environment) (place : Place) : Except Error Unit :=
  if !env.supports .sizeCompInCond then
    .error ⟨place, .feature (.sizeComparison condition env.dsl)⟩
  else do
    let _ ← left.demand siblings env place condition
    let fits := match right with
      | .literal value => (Literal.integer? value).isSome
      | .operand _ => false
    if fits then .ok () else .error ⟨place, .condition (.refused condition .sizeNotInteger)⟩

def comparable (lefts : List Field) (right : Comparand) (condition : String)
    (siblings : List Field) (env : Environment) (place : Place) : Except Error Bool :=
  match right with
  | .literal value => .ok (lefts.any fun l => l.comparesToText value env)
  | .operand o => do
      let rights := (← o.demand siblings env place condition).filterMap Target.plain?
      .ok (lefts.any fun l => rights.any fun r => l.comparesTo r)

def verifyValue (left : Operand) (right : Comparand) (condition : String) (siblings : List Field)
    (env : Environment) (place : Place) : Except Error Unit := do
  let lefts := (← left.demand siblings env place condition).filterMap Target.plain?
  if lefts.isEmpty then .error ⟨place, .condition (.refused condition .leftNotField)⟩
  else if ← comparable lefts right condition siblings env place then .ok ()
  else .error ⟨place, .condition (.refused condition .incomparable)⟩

def verify (e : Expression) (siblings : List Field) (env : Environment) (place : Place) :
    Except Error Unit := do
  e.verifyScopes env place
  match e with
  | .check _ o => verifyCheck o e.text siblings env place
  | .compare left _ right =>
      match left.query with
      | .size => verifySize left right e.text siblings env place
      | .existence => .error ⟨place, .condition (.refused e.text .existenceCompared)⟩
      | .value => verifyValue left right e.text siblings env place

end Expression

namespace Condition

mutual
def verify (siblings : List Field) (env : Environment) (place : Place) :
    Condition → Except Error Unit
  | .expression e => e.verify siblings env place
  | .list _ members =>
      if members.length < 2 then .error ⟨place, .condition .shortList⟩
      else verifyAll siblings env place members

def verifyAll (siblings : List Field) (env : Environment) (place : Place) :
    List Condition → Except Error Unit
  | [] => .ok ()
  | member :: rest => do
      verify siblings env place member
      verifyAll siblings env place rest
end

end Condition

end WireSchema
