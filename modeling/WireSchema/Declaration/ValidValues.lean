import WireSchema.Declaration
import WireSchema.Interval

/-!
What number fields and enumerations declare in the same way: named values, intervals of valid
values, and defaults that are valid as well.
-/

namespace WireSchema

open Markup (Node)

def validProperties : List String := ["validRange", "validValue", "validMin", "validMax"]

namespace Declaration

variable {α : Type}

def readNonUniqueSpecials (d : Declaration) (current : Bool) : Build Bool := do
  match ← d.boolProp "nonUniqueSpecialsAllowed" with
  | none => return current
  | some allowed =>
      if d.env.supports .nonUniqueSpecials then return allowed
      d.warn (.unsupportedHere "nonUniqueSpecialsAllowed")
      return current

/-- The value that an inner element names. The name is new among `known`, `read` gives the value of
a text, and `check` refuses a value under its name. -/
def readNamed (d : Declaration) (profile : Profile) (entry : String) (known : List (NamedValue α))
    (read : String → Option α) (check : String → α → Except Error Unit) (elem : Node) :
    Except Error (NamedValue α) := do
  let props := Properties.ofAttributes elem
  let name ← d.innerName elem
  if known.any fun v => v.name == name then
    .error ((Fault.naming (.entryTwice entry name)).atLine elem.line)
  else
    let raw ← props.required elem "val"
    let value ← d.accept "val" raw (read raw)
    check name value
    let window ← d.innerWindow elem profile
    .ok { name, value, window
          description := (props.get? "description").getD ""
          displayName := (props.get? "displayName").getD "" }

def readNamedValues (d : Declaration) (profile : Profile) (entry tag : String)
    (read : List (NamedValue α) → String → Option α)
    (check : List (NamedValue α) → String → α → Except Error Unit)
    (start : List (NamedValue α)) : Except Error (List (NamedValue α)) :=
  (d.node.childrenNamed tag).foldlM (fun known elem => do
    let named ← d.readNamed profile entry known (read known) (check known) elem
    .ok (known ++ [named])) start

def refuseOther (d : Declaration) (fault : String → PropertyFault) :
    Option (NamedValue α) → Except Error Unit
  | some other => d.fail (.property (fault other.name))
  | none => .ok ()

/-- The bounds in a declaration of valid values, each read by `bound`. An open end is that of
`whole`. -/
def readBounds (d : Declaration) (whole : α × α) (bound : String → Except Error α)
    (property raw : String) : Except Error (α × α) :=
  match property with
  | "validRange" => do
      let (low, high) ← d.accept property raw (Literal.bounds? raw)
      let least ← bound low
      let greatest ← bound high
      .ok (least, greatest)
  | "validValue" => do
      let value ← bound raw
      .ok (value, value)
  | "validMin" => do .ok (← bound raw, whole.2)
  | _ => do .ok (whole.1, ← bound raw)

def attributeRanges (read : String → String → Except Error Interval)
    (attributes : List (String × String)) : Except Error (List Interval) :=
  (attributes.filter fun entry => validProperties.contains entry.1).mapM fun entry =>
    read entry.1 entry.2

def elementRanges (d : Declaration) (profile : Profile)
    (read : String → String → Except Error Interval) (children : List Node) :
    Except Error (List Interval) :=
  (children.filter fun elem => validProperties.contains elem.name).mapM fun elem => do
    let raw ← elem.value
    let window ← d.innerWindow elem profile
    let first ← read elem.name raw
    .ok { first with window }

def declaredRanges (d : Declaration) (profile : Profile)
    (read : String → String → Except Error Interval) : Except Error (List Interval) := do
  let attributes ← attributeRanges read d.node.attributes
  let elements ← d.elementRanges profile read d.node.children
  .ok (attributes ++ elements)

def readDefaultValid (d : Declaration) (read : String → String → Except Error α) :
    Build (Option α) := do
  if ← d.gated "defaultValidValue" then
    let raw ← d.required "defaultValidValue"
    return some (← read "defaultValidValue" raw)
  else return none

def readDefault (d : Declaration) (read : String → String → Except Error α) (current : α) :
    Except Error α := do
  match ← d.prop "defaultValue" with
  | some v => read "defaultValue" v
  | none => .ok current

end Declaration

end WireSchema
