import WireSchema.Declaration.Parts
import WireSchema.Declaration.Storage
import WireSchema.Field.Footprint

/-!
Fields around one other field: references and optionals.
-/

namespace WireSchema

namespace RefSpec

def readTarget (d : Declaration) (current : Option (Handle Field)) :
    Except Error (Handle Field) := do
  match ← d.prop "field" with
  | some ref =>
      match d.env.find? ref with
      | some handle => .ok handle
      | none => d.fail (.reference (.linkUnknown ref))
  | none =>
      match current with
      | some handle => .ok handle
      | none => d.fail (.missing (.property "field" d.node.name))

/-- Names and meaning that a reference leaves open are those of its target; only that of a message
id does not pass on. -/
def inherit (profile : Profile) (target : Field) : Profile :=
  { profile with
    name := if profile.name = "" then target.name else profile.name
    displayName :=
      if profile.displayName = "" then target.profile.displayName else profile.displayName
    semanticType :=
      if profile.semanticType = .none ∧ target.semanticType ≠ .messageId then target.semanticType
      else profile.semanticType }

def read (d : Declaration) (profile : Profile) (spec : RefSpec Field) :
    Build (Profile × RefSpec Field) := do
  let handle ← readTarget d spec.target
  let length := handle.target.maxLength
  let bitLength ← d.readBitLength (handle.target.minLength != length) length spec.bitLength
  return (inherit profile handle.target, { target := some handle, bitLength })

end RefSpec

namespace OptionalSpec

def readExistence (d : Declaration) (current : Option Condition) : Build (Option Condition) := do
  match ← d.readCondition "cond" true with
  | none => return current
  | some condition => do
      if !d.parent.isBundleOrMessage then d.warn .conditionOutside
      return some condition

def read (d : Declaration) (profile : Profile) (spec : OptionalSpec Field) :
    Build (OptionalSpec Field) := do
  let mode := (← d.propAs "defaultMode" OptionalMode.ofText?).getD spec.mode
  d.warnDeprecated "displayExtModeCtrl"
  let missingOnReadFail ← d.gatedFlag "missingOnReadFail" spec.missingOnReadFail
  let missingOnInvalid ← d.gatedFlag "missingOnInvalid" spec.missingOnInvalid
  let declared ← d.readWrapped "field" (Declaration.memberParent .optional profile)
  match declared.or spec.inner with
  | none => d.abort (.missing .optionalField)
  | some inner => do
      let condition ← readExistence d spec.condition
      return { inner := some inner, mode, condition, missingOnReadFail, missingOnInvalid }

end OptionalSpec

end WireSchema
