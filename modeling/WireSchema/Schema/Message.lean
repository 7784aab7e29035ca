import WireSchema.Schema.Directory
import WireSchema.Sorting

/-!
Building the messages of a schema.
-/

namespace WireSchema

open Markup (Node)

namespace Message

def knownAttributes : List String :=
  ["name", "id", "displayName", "description", "sinceVersion", "deprecated", "removed", "reuse",
    "reuseCode", "copyFieldsFrom", "validateMinLength"]

def unexpected {α : Type} (node : Node) (property value : String) : Except Error α :=
  .error ((Fault.property (.unexpected property value)).atLine node.line)

def reuse (dir : Directory) (node : Node) (props : Properties) (ref : String) :
    Except Error Message := do
  match dir.message? ref with
  | none => .error ((Fault.reference (.notRecorded "message" ref)).atLine node.line)
  | some source =>
      let copiesCode ← Context.readFlag node props "reuseCode" false
      .ok { source with
        name := ""
        qualifiedName := ""
        line := node.line
        reusedFrom := some ref
        copyCodeFrom := if copiesCode then some ref else none }

/-- What a message starts from. Older DSL versions have no reuse of messages. -/
def start (dir : Directory) (node : Node) (props : Properties) : Build Message := do
  match ← props.single node "reuse" with
  | none => return { line := node.line }
  | some ref =>
      if dir.env.supports .messageReuse then reuse dir node props ref
      else do
        Build.warn node.line (.messageReuseUnsupported dir.env.dsl)
        return { line := node.line }

def readName (node : Node) (props : Properties) : Except Error String := do
  let name ← props.required node "name"
  if Name.isIdentifier name then .ok name else unexpected node "name" name

def readId (dir : Directory) (node : Node) (props : Properties) : Except Error Int := do
  let raw ← props.required node "id"
  match (Literal.integer? raw).or (dir.env.registry.numeric? dir.context.name raw) with
  | some id => .ok id
  | none => unexpected node "id" raw

def readRemoved (node : Node) (props : Properties) (window : Window) (current : Bool) :
    Build Bool := do
  match ← props.single node "removed" with
  | none => return current
  | some _ => do
      let removed ← Context.readFlag node props "removed" current
      if removed && !window.isDeprecated then do
        Build.warn node.line (.removedWithoutDeprecation "message")
        return current
      else return removed

def copyFields (dir : Directory) (node : Node) (props : Properties) (m : Message) :
    Except Error (List Field) := do
  match ← props.single node "copyFieldsFrom" with
  | none => .ok m.fields
  | some ref =>
      -- A copy has the fields of its source already.
      if m.reusedFrom.isSome then
        .error ((Fault.structural .severalSources).atLine node.line)
      else dir.fieldsOf ref node.line

def replaceFields (dir : Directory) (line : Nat) (parent : Parent) :
    List Field → List Node → Build (List Field)
  | fields, [] => return fields
  | fields, group :: rest => do
      if dir.env.supports .memberReplace then
        let replacements ← Field.ofNodes dir.env parent group.children
        let changed ← Field.replaceMembers (.line line) fields replacements
        replaceFields dir line parent changed rest
      else
        Build.warn group.line .messageReplaceUnsupported
        replaceFields dir line parent fields rest

def checkMinLength (dir : Directory) (node : Node) (props : Properties) (m : Message) :
    Build Unit := do
  match ← props.single node "validateMinLength" with
  | none => return ()
  | some v =>
      if !dir.context.supportsProperty "validateMinLength" then
        Build.warn node.line (.unsupportedHere "validateMinLength")
      else match Literal.unsigned? v with
        | none => unexpected node "validateMinLength" v
        | some expected =>
            let fault := Fault.property (.messageMinLength m.name expected m.minLength)
            if expected = m.minLength then return () else Build.fail (fault.atLine node.line)

def read (dir : Directory) (placed : Placed) : Build Message := do
  let node := placed.node
  let props ← Properties.ofNode node ["description", "displayName"]
  let m ← start dir node props
  let name ← readName node props
  let displayName := (← props.single node "displayName").getD m.displayName
  let description := (← props.single node "description").getD m.description
  let id ← readId dir node props
  let window ← dir.context.readWindow node props Window.always
  let removed ← readRemoved node props window m.removed
  let inherited ← copyFields dir node props m
  let parent : Parent := ⟨.message, window⟩
  let inherited ← replaceFields dir node.line parent (Field.adopt window.since inherited)
    (node.childrenNamed "replace")
  let fields ← Field.readGroup dir.env node parent inherited
  let m := { m with
    name, displayName, description, id, window, removed, fields
    qualifiedName := Name.qualify placed.ns name }
  checkMinLength dir node props m
  Build.warnEach node.line
    ((node.unknownAttributes knownAttributes).map fun extra => .unknownAttribute extra "message")
  Build.record ⟨some node.line, .messageBuilt m.qualifiedName id⟩
  return m

/-- Qualified names differ, and ids too unless the schema allows them to be shared. -/
def checkNew (dir : Directory) (line : Nat) (m : Message) : Except Error Unit :=
  if dir.messages.any fun other => other.qualifiedName == m.qualifiedName then
    .error ((Fault.naming (.alreadyDefined "message" m.qualifiedName)).atLine line)
  else if dir.context.nonUniqueMessageIds then .ok ()
  else match dir.messages.find? fun other => other.id == m.id with
    | some other =>
        .error ((Fault.property (.messageId m.id other.qualifiedName)).atLine line)
    | none => .ok ()

def readNew (dir : Directory) (placed : Placed) : Build Message := do
  let m ← read dir placed
  checkNew dir placed.node.line m
  return m

def readEach (dir : Directory) (nodes : List Placed) : Build (List Message) :=
  Build.gather (fun known => readNew { dir with messages := known }) dir.messages nodes

def readAll (dir : Directory) (nodes : List Placed) : Build (List Message) := do
  let messages ← readEach dir nodes
  return Sorting.stable (fun a b => decide (a.id < b.id)) messages

end Message

end WireSchema
