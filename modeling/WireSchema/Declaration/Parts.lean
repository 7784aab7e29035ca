import WireSchema.Declaration
import WireSchema.Field.Resolve

/-!
Fields and conditions inside a field: members, replacements, parts that may also be registered
fields, prefixes that may also be siblings.
-/

namespace WireSchema

open Markup (Node)

namespace Declaration

def isField (node : Node) : Bool := (Kind.ofTag? node.name).isSome

def directFields (d : Declaration) : List Node := d.node.children.filter isField

def memberParent (kind : Kind) (profile : Profile) : Parent := ⟨.field kind, profile.window⟩

def buildAll (d : Declaration) (parent : Parent) (nodes : List Node) : Build (List Field) :=
  Build.each (fun node => d.build node parent) nodes

def memberNodes (d : Declaration) : Except Error (List Node) :=
  match d.node.childrenNamed "members" with
  | [] => .ok d.directFields
  | [group] =>
      if d.directFields.isEmpty then .ok group.children else d.fail (.structural .membersTwice)
  | _ => d.fail (.structural (.severalGroups "members"))

def readMembers (d : Declaration) (kind : Kind) (profile : Profile) : Build (List Field) := do
  let nodes ← d.memberNodes
  d.buildAll (memberParent kind profile) nodes

def readReplacements (d : Declaration) (kind : Kind) (profile : Profile) : Build (List Field) :=
  match d.node.childrenNamed "replace" with
  | [] => return []
  | [group] =>
      if d.env.supports .memberReplace then d.buildAll (memberParent kind profile) group.children
      else do
        Build.warn group.line (.replaceUnsupported d.env.dsl)
        return []
  | _ => d.abort (.structural (.severalGroups "replace"))

def external (d : Declaration) (property ref : String) : Except Error (Slot Field) :=
  match d.env.find? ref with
  | some handle => .ok (.external handle)
  | none => d.fail (.reference (.propertyUnknown ref property))

def wrappers (d : Declaration) (name : String) : List Node :=
  (d.node.childrenNamed name).filter fun child => !child.children.isEmpty

/-- A part: a registered field named by the property, or the one field inside an element of that
name. -/
def readSlot (d : Declaration) (name : String) (parent : Parent) :
    Build (Option (Slot Field)) := do
  match ← d.prop name, d.wrappers name with
  | none, [] => return none
  | some ref, [] => return some (← d.external name ref)
  | none, [wrapper] =>
      match wrapper.children with
      | [node] => return some (.inline (← d.build node parent))
      | _ => Build.fail ((Fault.structural (.notOneField name)).atLine wrapper.line)
  | _, _ => d.abort (.repeated (.definition name))

def readWrapped (d : Declaration) (name : String) (parent : Parent) :
    Build (Option (Slot Field)) := do
  let slot ← d.readSlot name parent
  match slot, d.directFields with
  | slot, [] => return slot
  | none, [node] =>
      -- A field without an element around it has to be the only child.
      if d.node.children.length = 1 then return some (.inline (← d.build node parent))
      else d.abort (.structural (.unwrapped name))
  | _, _ => d.abort (.structural (.severalDefinitions name))

def readDetached (d : Declaration) (name sibling : String) : Except Error (Prefix Field) :=
  if !d.parent.isBundleOrMessage then d.fail (.structural (.detachedOutside name))
  else match MarkedPath.read sibling with
    | .ok _ => .ok (.detached sibling)
    | .error _ => d.unexpected name sibling

def announces (f : Field) : Bool :=
  f.dereferenced.kind == .int || f.semanticType == .length

def readPrefix (d : Declaration) (name : String) (parent : Parent) :
    Build (Option (Prefix Field)) := do
  match (← d.prop name).bind (Text.after? '$') with
  | some sibling => return some (← d.readDetached name sibling)
  | none =>
      match ← d.readSlot name parent with
      | none => return none
      | some slot =>
          if announces slot.part then return some (.part slot)
          else d.abort (.property (.prefixKind name))

def wrappedConditions (name : String) : List Node → Except Error (List Condition)
  | [] => .ok []
  | wrapper :: rest =>
      match wrapper.children with
      | [node] => do
          let first ← Condition.ofNode node
          let others ← wrappedConditions name rest
          .ok (first :: others)
      | _ => .error ((Fault.condition (.notSingle name)).atLine wrapper.line)

/-- At most one condition: as text, inside an element named for the property, or with `lists` as an
`<and>` or `<or>` among the children. -/
def readCondition (d : Declaration) (name : String) (lists : Bool) :
    Except Error (Option Condition) := do
  let text ← match ← d.prop name with
    | some v => (Condition.read v (.line d.line)).map fun c => [c]
    | none => .ok []
  let wrapped ← wrappedConditions name (d.wrappers name)
  let direct ←
    if lists then
      Condition.ofNodes (d.node.children.filter fun c => c.name == "and" || c.name == "or")
    else .ok []
  match text ++ wrapped ++ direct with
  | [] => .ok none
  | [c] => .ok (some c)
  | _ => d.fail (.condition .several)

end Declaration

namespace Field

def checkDistinct (line : Nat) (fault : Field → NameFault) (fields : List Field) :
    Except Error Unit :=
  go [] fields
where
  go (earlier : List String) : List Field → Except Error Unit
    | [] => .ok ()
    | f :: rest =>
        if earlier.contains f.name then .error ((Fault.naming (fault f)).atLine line)
        else go (f.name :: earlier) rest

def verifyDetached (siblings : List Field) (line : Nat) : Option (Prefix Field) → Except Error Unit
  | some (.detached sibling) =>
      match resolve siblings sibling with
      | .field f =>
          if Declaration.announces f then .ok ()
          else .error ((Fault.reference (.prefixKind sibling)).atLine line)
      | _ => .error ((Fault.reference (.prefixUnknown sibling)).atLine line)
  | _ => .ok ()

def verifyTerminator (siblings : List Field) (line : Nat) : Prefix Field → Except Error Unit
  | .detached sibling =>
      match resolve siblings sibling with
      | .field _ => .ok ()
      | _ => .error ((Fault.reference (.terminatorUnknown sibling)).atLine line)
  | .part _ => .ok ()

end Field

end WireSchema
