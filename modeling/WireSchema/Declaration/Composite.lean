import WireSchema.Declaration.Siblings
import WireSchema.Declaration.Storage
import WireSchema.Field.Footprint
import WireSchema.Reuse

/-!
Fields with members: bitfields, bundles and variants.
-/

namespace WireSchema

open Markup (Node)

namespace Declaration

def copiedCondition (d : Declaration) (source : String) : Except Error Condition :=
  match d.env.find? source with
  | none => d.fail (.reference (.propertyUnknown source "copyValidCondFrom"))
  | some handle =>
      let condition := match handle.target.payload with
        | .bitfield spec => spec.validCondition
        | .bundle spec => spec.validCondition
        | _ => none
      match condition with
      | some c => .ok c
      | none => d.fail (.reference (.noCondition source))

def declaredValidCondition (d : Declaration) : Except Error (Option Condition) := do
  let own ← d.readCondition "validCond" false
  match ← d.prop "copyValidCondFrom" with
  | none => .ok own
  | some source =>
      if own.isSome then d.fail (.property (.exclusive "validCond" "copyValidCondFrom"))
      else (d.copiedCondition source).map some

/-- The validity condition of a composite, checked among its members. Older DSL versions have
none. -/
def readValidCondition (d : Declaration) (members : List Field) (current : Option Condition) :
    Build (Option Condition) := do
  let isDeclared := d.has "validCond" || d.has "copyValidCondFrom" ||
    (d.node.child? "validCond").isSome
  if !isDeclared then return current
  else if !d.env.supports .validCondInComposite then do
    d.warn (.validConditionUnsupported d.env.dsl)
    return current
  else match ← d.declaredValidCondition with
    | none => return current
    | some condition => do
        condition.verify members d.env (.line d.line)
        return some condition

def replaceMembers (d : Declaration) (kind : Kind) (profile : Profile) (members : List Field) :
    Build (List Field) := do
  let replacements ← d.readReplacements kind profile
  Field.replaceMembers (.line d.line) members replacements

/-- The members: declared, or where a field is reused those taken over from it. -/
def takeMembers (d : Declaration) (kind : Kind) (profile : Profile) (taken : List Field) :
    Build (List Field) := do
  let declared ← d.readMembers kind profile
  if d.reused then
    kind.checkNoNewMembers declared.length (.line d.line)
    return taken
  else return declared

def checkMembers (d : Declaration) (kind : Kind) (profile : Profile) (members : List Field) :
    Except Error Unit := do
  if members.isEmpty then d.fail (.structural (.noMembers kind profile.name))
  else Field.checkDistinct d.line (fun m => .memberTwice m.name m.line) members

def checkInitialMember (d : Declaration) (kind : Kind) (profile : Profile) (members : List Field) :
    Except Error Unit :=
  if members.any fun m => m.window.since == profile.window.since then .ok ()
  else d.fail (.version (.noInitialMember kind profile.window.since))

end Declaration

namespace BitfieldSpec

def checkMember (profile : Profile) (m : Field) : Except Error Unit :=
  let kind := m.dereferenced.kind
  if !(kind == .int || kind == .enum || kind == .set) then
    .error ((Fault.structural (.notInBitfield m.kind)).atLine m.line)
  else if m.window ≠ profile.window then
    .error ((Fault.version (.bitfieldMember m.name)).atLine m.line)
  else .ok ()

def checkEach (profile : Profile) : List Field → Except Error Unit
  | [] => .ok ()
  | m :: rest => do
      checkMember profile m
      checkEach profile rest

def maxBits : Nat := 64

def checkBits (d : Declaration) (members : List Field) : Except Error Unit :=
  let bits := Length.sumWords (members.map Field.bitLength)
  -- The total is taken in words, so it can wrap around to a permitted one.
  if bits = 0 ∨ maxBits < bits ∨ bits % 8 ≠ 0 then d.fail (.bits (.memberTotal bits maxBits))
  else .ok ()

def readMembers (d : Declaration) (profile : Profile) (inherited : List Field) :
    Build (List Field) :=
  d.takeMembers .bitfield profile (inherited.map fun m => m.withWindow profile.window)

def read (d : Declaration) (profile : Profile) (spec : BitfieldSpec Field) :
    Build (BitfieldSpec Field) := do
  let endian ← d.readEndian spec.endian
  let members ← readMembers d profile spec.members
  let members ← d.replaceMembers .bitfield profile members
  d.checkMembers .bitfield profile members
  checkEach profile members
  checkBits d members
  let validCondition ← d.readValidCondition members spec.validCondition
  return { endian, members, validCondition }

end BitfieldSpec

namespace BundleSpec

def readAlias (d : Declaration) (members : List Field) (aliases : List Alias) (elem : Node) :
    Except Error (List Alias) := do
  if !d.env.supports .alias then
    .error ((Fault.feature (.aliases d.env.dsl)).atLine elem.line)
  else
    let props ← Properties.ofNode elem ["description"]
    let name ← props.required elem "name"
    if !Name.isIdentifier name then d.unexpected "name" name
    else if (members.any fun m => m.name == name) || aliases.any fun a => a.name == name then
      .error ((Fault.naming (.aliasClash name)).atLine elem.line)
    else
      let target ← props.required elem "field"
      let path ← d.accept "field" target (Text.after? '$' target)
      match Field.resolve members path with
      | .field _ =>
          .ok (aliases ++ [{ name, path, description := (props.get? "description").getD "" }])
      | _ => .error ((Fault.reference (.aliasUnknown name target)).atLine elem.line)

def readAliases (d : Declaration) (members : List Field) (aliases : List Alias) :
    Except Error (List Alias) :=
  (d.node.childrenNamed "alias").foldlM (readAlias d members) aliases

def readMembers (d : Declaration) (profile : Profile) (inherited : List Field) :
    Build (List Field) :=
  d.takeMembers .bundle profile (Field.adopt profile.window.since inherited)

def checkLengths (d : Declaration) (members : List Field) : Except Error Unit :=
  if 1 < members.countP (fun m => m.semanticType == .length) then
    d.fail (.property .severalLengths)
  else .ok ()

def read (d : Declaration) (profile : Profile) (spec : BundleSpec Field) :
    Build (BundleSpec Field) := do
  let members ← readMembers d profile spec.members
  let members ← d.replaceMembers .bundle profile members
  d.checkMembers .bundle profile members
  d.checkInitialMember .bundle profile members
  checkLengths d members
  Field.verifyAll members d.env members
  let keepAliases := (← d.boolProp "reuseAliases").getD true
  let aliases ← readAliases d members (if keepAliases then spec.aliases else [])
  let validCondition ← d.readValidCondition members spec.validCondition
  return { members, aliases, validCondition }

end BundleSpec

namespace VariantSpec

/-- The member selected by default: by name, by index, or by a reference to an index. A negative
index selects none. -/
def readDefaultMember (d : Declaration) (members : List Field) (current : Option Nat) :
    Except Error (Option Nat) := do
  match ← d.prop "defaultMember" with
  | none | some "" => .ok current
  | some raw =>
      if Name.isIdentifier raw then
        (d.accept "defaultMember" raw (members.findIdx? fun m => m.name == raw)).map some
      else
        let value ← d.accept "defaultMember" raw
          (if ExternalName.isWritten raw then d.env.registry.numeric? d.context.name raw
           else Literal.integer? raw)
        if value < 0 then .ok none
        else if value.toNat < members.length then .ok (some value.toNat)
        else d.unexpected "defaultMember" raw

def read (d : Declaration) (profile : Profile) (spec : VariantSpec Field) :
    Build (VariantSpec Field) := do
  let inherited :=
    if d.reused then Field.adopt profile.window.since spec.members else spec.members
  let declared ← d.readMembers .variant profile
  let members ← d.replaceMembers .variant profile (inherited ++ declared)
  d.checkMembers .variant profile members
  d.checkInitialMember .variant profile members
  let defaultMember ← readDefaultMember d members spec.defaultMember
  if d.has "displayIdxReadOnlyHidden" then
    d.warn (.deprecatedProperty "displayIdxReadOnlyHidden")
  return { members, defaultMember }

end VariantSpec

end WireSchema
