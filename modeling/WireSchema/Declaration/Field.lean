import WireSchema.Declaration.Profile
import WireSchema.Declaration.Composite
import WireSchema.Declaration.Flags
import WireSchema.Declaration.Enumeration
import WireSchema.Declaration.Integer
import WireSchema.Declaration.Real
import WireSchema.Declaration.Sequence
import WireSchema.Declaration.Wrapper

/-!
Building a field from its element: a blank field or a copy of the reused one, then its
profile, the payload of the kind, and checks of the whole. Fields inside are built first.
-/

namespace WireSchema

open Markup (Node)

def profileProperties : List String :=
  ["name", "displayName", "description", "sinceVersion", "deprecated", "removed", "semanticType",
    "reuse", "reuseCode", "pseudo", "fixedValue", "customizable", "failOnInvalid", "forceGen",
    "displayReadOnly", "displayHidden", "copyCodeFrom", "validateMinLength", "valueOverride",
    "readOverride", "writeOverride", "refreshOverride", "lengthOverride", "validOverride",
    "nameOverride"]

namespace Kind

def properties : Kind → List String
  | .int =>
      ["type", "endian", "length", "bitLength", "scaling", "serOffset", "defaultValue",
        "defaultValidValue", "validRange", "validValue", "validMin", "validMax",
        "validCheckVersion", "units", "displayDecimals", "displayOffset", "signExt",
        "displaySpecials", "availableLengthLimit", "nonUniqueSpecialsAllowed"]
  | .float =>
      ["type", "endian", "defaultValue", "defaultValidValue", "validRange", "validValue",
        "validMin", "validMax", "validFullRange", "validCheckVersion", "units",
        "displayDecimals", "displaySpecials", "nonUniqueSpecialsAllowed"]
  | .enum =>
      ["type", "endian", "length", "bitLength", "nonUniqueAllowed", "validCheckVersion",
        "defaultValue", "hexAssign", "availableLengthLimit"]
  | .set =>
      ["type", "endian", "length", "bitLength", "nonUniqueAllowed", "defaultValue",
        "reservedValue", "validCheckVersion", "availableLengthLimit"]
  | .bitfield => ["endian", "validCond", "copyValidCondFrom"]
  | .bundle => ["validCond", "copyValidCondFrom", "reuseAliases"]
  | .string =>
      ["encoding", "length", "lengthPrefix", "zeroTermSuffix", "defaultValue", "validValue",
        "defaultValidValue"]
  | .data => ["length", "lengthPrefix", "defaultValue", "validValue", "defaultValidValue"]
  | .list =>
      ["element", "count", "countPrefix", "lengthPrefix", "elemLengthPrefix", "elemFixedLength",
        "termSuffix"]
  | .ref => ["field", "bitLength"]
  | .optional =>
      ["defaultMode", "displayExtModeCtrl", "missingOnReadFail", "missingOnInvalid", "field",
        "cond"]
  | .variant => ["defaultMember", "displayIdxReadOnlyHidden"]

def children : Kind → List String
  | .int | .float => ["special"]
  | .enum => ["validValue"]
  | .set => ["bit"]
  | .bitfield | .variant => ["members", "replace"]
  | .bundle => ["members", "replace", "alias"]
  | .optional => ["and", "or"]
  | .string | .data | .list | .ref => []

def acceptsFields : Kind → Bool
  | .bitfield | .bundle | .variant | .optional | .list => true
  | _ => false

def allProperties (kind : Kind) : List String := profileProperties ++ kind.properties

end Kind

namespace Declaration

/-- The payload by kind, starting from one of that kind. A reference may also fill in the
profile. -/
def readPayload (d : Declaration) (profile : Profile) : Payload Field → Build Field
  | .int spec => return ⟨profile, .int (← spec.read d profile)⟩
  | .float spec => return ⟨profile, .float (← spec.read d profile)⟩
  | .enum spec => return ⟨profile, .enum (← spec.read d profile)⟩
  | .set spec => return ⟨profile, .set (← spec.read d profile)⟩
  | .bitfield spec => return ⟨profile, .bitfield (← spec.read d profile)⟩
  | .bundle spec => return ⟨profile, .bundle (← spec.read d profile)⟩
  | .string spec => return ⟨profile, .string (← spec.read d profile)⟩
  | .data spec => return ⟨profile, .data (← spec.read d profile)⟩
  | .list spec => return ⟨profile, .list (← spec.read d profile)⟩
  | .ref spec => do
      let (profile, spec) ← spec.read d profile
      return ⟨profile, .ref spec⟩
  | .optional spec => return ⟨profile, .optional (← spec.read d profile)⟩
  | .variant spec => return ⟨profile, .variant (← spec.read d profile)⟩

def checkSemanticType (d : Declaration) (f : Field) : Except Error Unit :=
  if Field.allowsSemanticType d.context f.semanticType f then .ok ()
  else d.fail (.property (.semanticType f.semanticType f.kind))

def checkName (d : Declaration) (f : Field) : Except Error Unit :=
  if f.name = "" then d.fail (.missing (.property "name" d.node.name))
  else if Name.isIdentifier f.name then .ok ()
  else d.unexpected "name" f.name

def checkMinLength (d : Declaration) (f : Field) : Except Error Unit :=
  match f.profile.validateMinLength with
  | none => .ok ()
  | some expected =>
      if expected = f.minLength then .ok ()
      else d.fail (.property (.minLength expected f.minLength))

def warnUnknown (d : Declaration) (kind : Kind) : Build Unit := do
  let known := kind.allProperties
  Build.warnEach d.line
    ((d.node.unknownAttributes known).map fun name => .unknownAttribute name d.node.name)
  (d.node.unknownChildren (known ++ kind.children)).foldlM (fun _ child =>
    if kind.acceptsFields && isField child then pure ()
    else Build.warn child.line (.unknownChild child.name d.node.name)) ()

def start (env : Environment) (kind : Kind) (node : Node) (reuse : Option String) :
    Except Error Field :=
  match reuse with
  | none => .ok (Field.blank kind node.line)
  | some ref =>
      match env.find? ref with
      | none => .error ((Fault.reference (.reuseUnknown ref)).atLine node.line)
      | some handle => do
          let copy ← (Field.blank kind node.line).reuse handle.target
          .ok { copy with profile := { copy.profile with reusedFrom := some ref } }

end Declaration

namespace Field

def buildKind (inside : Node → Parent → Build Field) (env : Environment) (kind : Kind)
    (node : Node) (parent : Parent) : Build Field := do
  let props ← Properties.ofNode node kind.allProperties
  let reuse ← props.single node "reuse"
  let start ← Declaration.start env kind node reuse
  let d : Declaration := { node, env, parent, props, reused := reuse.isSome, build := inside }
  let profile ← d.readProfile start.profile
  let f ← d.readPayload profile start.payload
  d.checkSemanticType f
  d.checkName f
  d.checkMinLength f
  d.warnUnknown kind
  Build.record ⟨some node.line, .fieldBuilt kind f.name⟩
  return f

def buildWithin (env : Environment) : Nat → String → Node → Parent → Build Field
  | 0, tag, node, _ => Build.fail ((Fault.unknownKind tag).atLine node.line)
  | depth + 1, tag, node, parent =>
      match Kind.ofTag? tag with
      | none => Build.fail ((Fault.unknownKind tag).atLine node.line)
      | some kind =>
          buildKind (fun inner around => buildWithin env depth inner.name inner around)
            env kind node parent

def create (env : Environment) (tag : String) (node : Node) (parent : Parent) : Build Field :=
  -- Every level of elements takes one step, so the height is enough.
  buildWithin env node.height tag node parent

def ofNode (env : Environment) (node : Node) (parent : Parent) : Build Field :=
  create env node.name node parent

end Field

end WireSchema
