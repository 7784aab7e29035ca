import WireSchema.Fault
import WireSchema.Markup.Node

/-!
Properties of an element: its attributes together with those child elements that stand for one.
-/

namespace WireSchema

open Markup (Node)

namespace Markup.Node

def value (node : Node) : Except Error String :=
  match node.attribute? "value" with
  | some v =>
      if node.text = "" then .ok v
      else .error ((Fault.structural (.valueAndText node.name)).atLine node.line)
  | none => .ok node.text

end Markup.Node

/-- Names with values, in order; a name may occur more than once. -/
structure Properties where
  entries : List (String × String) := []

namespace Properties

def get? (p : Properties) (name : String) : Option String :=
  (p.entries.find? fun entry => entry.1 == name).map (·.2)

def contains (p : Properties) (name : String) : Bool :=
  p.entries.any fun entry => entry.1 == name

def count (p : Properties) (name : String) : Nat :=
  p.entries.countP fun entry => entry.1 == name

def insert (p : Properties) (name value : String) : Properties :=
  ⟨p.entries ++ [(name, value)]⟩

def single (p : Properties) (node : Node) (name : String) : Except Error (Option String) :=
  if 1 < p.count name then
    .error ((Fault.repeated (.property name node.name)).atLine node.line)
  else .ok (p.get? name)

def required (p : Properties) (node : Node) (name : String) : Except Error String := do
  match ← p.single node name with
  | some v => .ok v
  | none => .error ((Fault.missing (.property name node.name)).atLine node.line)

/-- The entries of the children named in `names`; those with children of their own and those
without a value stand for no property. -/
def ofChildren (names : List String) : List Node → Except Error (List (String × String))
  | [] => .ok []
  | child :: rest =>
      if names.contains child.name && child.children.isEmpty then do
        let v ← child.value
        let others ← ofChildren names rest
        .ok (if v = "" then others else (child.name, v) :: others)
      else ofChildren names rest

def ofAttributes (node : Node) : Properties := ⟨node.attributes⟩

def ofNode (node : Node) (names : List String) : Except Error Properties := do
  let children ← ofChildren names node.children
  .ok ⟨node.attributes ++ children⟩

end Properties

end WireSchema
