import WireSchema.Schema.Directory

/-!
Building the interfaces of a schema.
-/

namespace WireSchema

namespace Interface

def knownAttributes : List String := ["name", "description", "reuse", "copyFieldsFrom"]

def start (dir : Directory) (line : Nat) : Option String → Except Error Interface
  | none => .ok { line }
  | some ref =>
      match dir.interface? ref with
      | none => .error ((Fault.reference (.notRecorded "interface" ref)).atLine line)
      | some source =>
          .ok { line, fields := source.fields, description := source.description,
                reusedFrom := some ref }

def copyFields (dir : Directory) (i : Interface) : Option String → Except Error (List Field)
  | none => .ok i.fields
  | some ref =>
      if i.fields.isEmpty then dir.fieldsOf ref i.line
      else .error ((Fault.structural .severalSources).atLine i.line)

def checkName (dir : Directory) (name qualifiedName : String) (line : Nat) : Except Error Unit :=
  if !Name.isIdentifier name then
    .error ((Fault.property (.invalidName "interface" name)).atLine line)
  else if dir.interfaces.any fun i => i.qualifiedName == qualifiedName then
    .error ((Fault.naming (.alreadyDefined "interface" qualifiedName)).atLine line)
  else .ok ()

def read (dir : Directory) (placed : Placed) : Build Interface := do
  let node := placed.node
  let props ← Properties.ofNode node ["description"]
  let source ← props.single node "reuse"
  let i ← start dir node.line source
  let copied ← props.single node "copyFieldsFrom"
  let inherited ← copyFields dir i copied
  let name ← props.required node "name"
  let qualifiedName := Name.qualify placed.ns name
  checkName dir name qualifiedName node.line
  let description := (← props.single node "description").getD i.description
  let fields ← Field.readGroup dir.env node ⟨.interface, Window.always⟩ inherited
  Build.warnEach node.line
    ((node.unknownAttributes knownAttributes).map fun extra =>
      .unknownAttribute extra "interface")
  Build.record ⟨some node.line, .interfaceBuilt qualifiedName⟩
  return { i with name, qualifiedName, description, fields }

def readAll (dir : Directory) (nodes : List Placed) : Build (List Interface) :=
  Build.gather (fun known => read { dir with interfaces := known }) dir.interfaces nodes

end Interface

end WireSchema
