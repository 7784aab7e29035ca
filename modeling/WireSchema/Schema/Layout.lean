import WireSchema.Build
import WireSchema.Context
import WireSchema.Name

/-!
The outline of a schema document: its settings, and its fields, interfaces and messages, each
with the namespace it stands in.
-/

namespace WireSchema

open Markup (Node)

namespace Context

def rootAttributes : List String :=
  ["name", "id", "dslVersion", "version", "endian", "nonUniqueMsgIdAllowed", "description"]

def readEndian (root : Node) (props : Properties) (current : Endian) : Except Error Endian := do
  match ← props.single root "endian" with
  | none => .ok current
  | some v =>
      match Endian.ofText? v with
      | some endian => .ok endian
      | none => .error ((Fault.property (.unknownEndian v)).atLine root.line)

def readFlag (node : Node) (props : Properties) (property : String) (current : Bool) :
    Except Error Bool := do
  match ← props.single node property with
  | none => .ok current
  | some v =>
      match Literal.boolean? v with
      | some b => .ok b
      | none => .error ((Fault.property (.unexpected property v)).atLine node.line)

def readRoot (root : Node) : Except Error Context := do
  if root.name ≠ "schema" then
    .error ((Fault.structural (.root root.name)).atLine root.line)
  else
    let props ← Properties.ofNode root ["description"]
    let name ← props.required root "name"
    if !Name.isIdentifier name then
      .error ((Fault.property (.invalidName "schema" name)).atLine root.line)
    else
      let dslVersion ← readVersion root props "dslVersion" 0
      let version ← readVersion root props "version" 0
      let endian ← readEndian root props .little
      let nonUniqueMessageIds ← readFlag root props "nonUniqueMsgIdAllowed" false
      let description := (props.get? "description").getD ""
      .ok { name, dslVersion, version, endian, nonUniqueMessageIds, description }

def ofRoot (root : Node) : Build Context := do
  let ctx ← readRoot root
  Build.warnEach root.line
    ((root.unknownAttributes rootAttributes).map fun name => .unknownAttribute name "schema")
  return ctx

end Context

structure Placed where
  ns : String
  node : Node

structure Layout where
  fields : List Placed := []
  interfaces : List Placed := []
  messages : List Placed := []
  namespaces : List String := []

namespace Layout

def addFields (l : Layout) (ns : String) (nodes : List Node) : Layout :=
  { l with fields := l.fields ++ nodes.map (Placed.mk ns) }

def addInterfaces (l : Layout) (ns : String) (nodes : List Node) : Layout :=
  { l with interfaces := l.interfaces ++ nodes.map (Placed.mk ns) }

def addMessages (l : Layout) (ns : String) (nodes : List Node) : Layout :=
  { l with messages := l.messages ++ nodes.map (Placed.mk ns) }

def addNamespace (l : Layout) (ns : String) : Layout :=
  if l.namespaces.contains ns then l else { l with namespaces := l.namespaces ++ [ns] }

def readNamespace (ns : String) (node : Node) : Except Error String := do
  let props ← Properties.ofNode node ["description"]
  let name ← props.required node "name"
  if Name.isIdentifier name then .ok (Name.qualify ns name)
  else .error ((Fault.property (.invalidName "namespace" name)).atLine node.line)

mutual
def add (ns : String) (l : Layout) : Node → Build Layout
  | ⟨name, attributes, children, text, line⟩ =>
      let node : Node := ⟨name, attributes, children, text, line⟩
      match name with
      | "fields" => return l.addFields ns children
      | "interface" => return l.addInterfaces ns [node]
      | "interfaces" => return l.addInterfaces ns (node.childrenNamed "interface")
      | "message" => return l.addMessages ns [node]
      | "messages" => return l.addMessages ns (node.childrenNamed "message")
      | "ns" => do
          let inner ← readNamespace ns node
          addAll inner (l.addNamespace inner) children
      | "description" | "name" => return l
      | "frame" | "frames" | "platform" | "platforms" => do
          Build.record ⟨some line, .elementSkipped name⟩
          return l
      | _ => do
          Build.warn line (.unknownElement name)
          return l

def addAll (ns : String) (l : Layout) : List Node → Build Layout
  | [] => return l
  | node :: rest => do
      let l ← add ns l node
      addAll ns l rest
end

def ofRoot (root : Node) : Build Layout := addAll "" {} root.children

end Layout

end WireSchema
