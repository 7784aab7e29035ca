import WireSchema.Build
import WireSchema.Environment

/-!
A field being built: its element, the element's properties and the surroundings. Properties are
read as texts, flags and numbers; those that the DSL version does not have are reported and
passed over.
-/

namespace WireSchema

open Markup (Node)

structure Declaration where
  node : Node
  env : Environment
  parent : Parent
  props : Properties
  /-- The field started as a copy of another one. -/
  reused : Bool
  /-- Builds a field that stands inside this element. -/
  build : Node → Parent → Build Field

namespace Declaration

variable {α : Type}

def line (d : Declaration) : Nat := d.node.line

def context (d : Declaration) : Context := d.env.context

def fail (d : Declaration) (fault : Fault) : Except Error α :=
  .error (fault.atLine d.line)

def abort (d : Declaration) (fault : Fault) : Build α :=
  Build.fail (fault.atLine d.line)

def unexpected (d : Declaration) (name value : String) : Except Error α :=
  d.fail (.property (.unexpected name value))

def accept (d : Declaration) (name value : String) : Option α → Except Error α
  | some a => .ok a
  | none => d.unexpected name value

def prop (d : Declaration) (name : String) : Except Error (Option String) :=
  d.props.single d.node name

def required (d : Declaration) (name : String) : Except Error String :=
  d.props.required d.node name

def has (d : Declaration) (name : String) : Bool := d.props.contains name

def propAs (d : Declaration) (name : String) (read : String → Option α) :
    Except Error (Option α) := do
  match ← d.prop name with
  | none => .ok none
  | some v => (d.accept name v (read v)).map some

def boolProp (d : Declaration) (name : String) : Except Error (Option Bool) :=
  d.propAs name Literal.boolean?

def natProp (d : Declaration) (name : String) : Except Error (Option Nat) :=
  d.propAs name Literal.unsigned?

def flag (d : Declaration) (name : String) (current : Bool) : Except Error Bool := do
  .ok ((← d.boolProp name).getD current)

def warn (d : Declaration) (w : Warning) : Build Unit := Build.warn d.line w

def gated (d : Declaration) (name : String) : Build Bool := do
  if !d.has name then return false
  if d.context.supportsProperty name then return true
  d.warn (.unsupportedProperty name d.env.dsl)
  return false

/-- A flag of a later DSL version; where it is given, nothing said means false. -/
def gatedFlag (d : Declaration) (name : String) (current : Bool) : Build Bool := do
  if ← d.gated name then d.flag name false else return current

def warnDeprecated (d : Declaration) (name : String) : Build Unit :=
  if d.has name && d.context.deprecatesProperty name then d.warn (.deprecatedProperty name)
  else pure ()

def innerWindow (d : Declaration) (elem : Node) (profile : Profile) : Except Error Window :=
  d.context.readWindow elem (Properties.ofAttributes elem) profile.window

def innerName (d : Declaration) (elem : Node) : Except Error String := do
  let name ← (Properties.ofAttributes elem).required elem "name"
  if Name.isIdentifier name then .ok name else d.unexpected "name" name

end Declaration

end WireSchema
