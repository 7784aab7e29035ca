import WireSchema.Declaration.Storage
import WireSchema.Declaration.ValidValues
import WireSchema.Field.Compare
import WireSchema.Interval.Merge

/-!
Enumerations: named values that fit their storage, and which of them are valid.
-/

namespace WireSchema

open Markup (Node)

namespace EnumSpec

def holds (spec : EnumSpec) (n : Int) : Bool :=
  spec.least ≤ n && n ≤ spec.greatest

def valueOf? (spec : EnumSpec) (env : Environment) (s : String) : Option Int :=
  (spec.read? s).or (env.numeric? s)

def checkValue (d : Declaration) (spec : EnumSpec) (name : String) (value : Int) :
    Except Error Unit :=
  if !spec.holds value then d.fail (.property (.valueRange name value))
  else d.refuseOther (.valueClash name)
    (spec.values.find? fun v => !spec.nonUnique && v.value == value)

def readValues (d : Declaration) (profile : Profile) (spec : EnumSpec) :
    Except Error EnumSpec := do
  let values ← d.readNamedValues profile "value" "validValue"
    (fun known => valueOf? { spec with values := known } d.env)
    (fun known => checkValue d { spec with values := known }) spec.values
  .ok { spec with values }

def readDefault (d : Declaration) (spec : EnumSpec) (property v : String) : Except Error Int := do
  let value ← d.accept property v (spec.valueOf? d.env v)
  if spec.holds value then .ok value else d.fail (.property (.defaultRange value))

def readHexAssign (d : Declaration) (type : IntType) (current : Bool) : Except Error Bool := do
  match ← d.boolProp "hexAssign" with
  | none => .ok current
  | some hex =>
      if hex && !type.isUnsigned then d.fail (.property .hexAssign) else .ok hex

def points (spec : EnumSpec) : List Interval :=
  spec.values.map fun v => { Interval.point (Number.ofInt v.value) with window := v.window }

def read (d : Declaration) (profile : Profile) (spec : EnumSpec) : Build EnumSpec := do
  let (type, storage) ← d.readStorage spec.storage
  let nonUnique ← d.flag "nonUniqueAllowed" spec.nonUnique
  let validCheckVersion ← d.flag "validCheckVersion" spec.validCheckVersion
  let (least, greatest) := type.range storage.length storage.bitLength
  let spec ← readValues d profile
    { spec with storage, nonUnique, validCheckVersion, least, greatest }
  if spec.values.isEmpty then d.abort (.structural (.noValues profile.name))
  else
    let defaultValue ← d.readDefault (spec.readDefault d) spec.defaultValue
    let hexAssign ← readHexAssign d type spec.hexAssign
    let availableLengthLimit ← d.gatedFlag "availableLengthLimit" spec.availableLengthLimit
    return { spec with
      defaultValue, hexAssign, availableLengthLimit
      validRanges := Interval.merge ⟨.integral, spec.validCheckVersion⟩ spec.points }

def isValid (spec : EnumSpec) (value : Int) (version : Option Nat) : Bool :=
  Interval.lookup spec.validRanges (Number.ofInt value)
    (if spec.validCheckVersion then version else none)

end EnumSpec

end WireSchema
