import WireSchema.Declaration.Field
import WireSchema.Schema.Layout
import WireSchema.Schema

/-!
What can be found by name while a schema is built: its own interfaces and messages so far, those
of the schemas before it, and registered fields.
-/

namespace WireSchema

open Markup (Node)

structure Directory where
  earlier : List Schema
  env : Environment
  interfaces : List Interface := []
  messages : List Message := []

namespace Directory

def context (dir : Directory) : Context := dir.env.context

def locate {α : Type} (dir : Directory) (ref : String) (there : Schema → String → Option α)
    (here : String → Option α) : Option α :=
  match ExternalName.read? ref with
  | none => none
  | some ⟨none, path⟩ => here path
  | some ⟨some schema, path⟩ =>
      -- The schema at hand is not among the earlier ones, and can be named as well.
      if schema = dir.context.name then here path
      else (dir.earlier.find? fun e => e.name == schema).bind fun e => there e path

def message? (dir : Directory) (ref : String) : Option Message :=
  dir.locate ref Schema.message? fun path => dir.messages.find? fun m => m.qualifiedName == path

def interface? (dir : Directory) (ref : String) : Option Interface :=
  dir.locate ref Schema.interface? fun path =>
    dir.interfaces.find? fun i => i.qualifiedName == path

def fieldsOf (dir : Directory) (ref : String) (line : Nat) : Except Error (List Field) :=
  match dir.message? ref with
  | some m => .ok m.fields
  | none =>
      match dir.interface? ref with
      | some i => .ok i.fields
      | none =>
          match dir.env.find? ref with
          | none => .error ((Fault.reference (.copyUnknown ref)).atLine line)
          | some handle =>
              match handle.target.payload with
              | .bundle spec => .ok spec.members
              | _ => .error ((Fault.reference (.notBundle ref)).atLine line)

end Directory

namespace Field

def elementsIn (node : Node) : Except Error (List Node) :=
  let direct := node.children.filter Declaration.isField
  match node.childrenNamed "fields" with
  | [] => .ok direct
  | [group] =>
      if direct.isEmpty then .ok group.children
      else .error ((Fault.structural (.fieldGroups node.name)).atLine node.line)
  | _ => .error ((Fault.structural (.fieldGroups node.name)).atLine node.line)

def ofNodes (env : Environment) (parent : Parent) (nodes : List Node) : Build (List Field) :=
  Build.each (fun node => ofNode env node parent) nodes

def readGroup (env : Environment) (node : Node) (parent : Parent) (inherited : List Field) :
    Build (List Field) := do
  let nodes ← elementsIn node
  let declared ← ofNodes env parent nodes
  let fields := inherited ++ declared
  checkDistinct node.line (fun f => .fieldTwice f.name node.name) fields
  verifyAll fields env fields
  return fields

end Field

end WireSchema
