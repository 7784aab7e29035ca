import WireSchema.Declaration.Storage
import WireSchema.Declaration.ValidValues
import WireSchema.Field.Compare
import WireSchema.Interval.Merge

/-!
Integers: the values that the storage can hold, and which of them are named or valid.
-/

namespace WireSchema

open Markup (Node)

namespace IntSpec

def holds (spec : IntSpec) (n : Int) : Bool :=
  spec.least ≤ n && n ≤ spec.greatest

def valueOf? (spec : IntSpec) (env : Environment) (s : String) : Option Int :=
  (spec.read? s).or (env.numeric? s)

def readScaling (d : Declaration) (current : Int × Int) : Except Error (Int × Int) := do
  match ← d.prop "scaling" with
  | none => .ok current
  | some v =>
      let (num, den) := match Text.cutAt '/' v.toList with
        | some (num, den) => (String.ofList num, String.ofList den)
        | none => (v, "1")
      match Literal.signed? num, Literal.signed? den with
      | some n, some m => if n ≠ 0 ∧ m ≠ 0 then .ok (n, m) else d.unexpected "scaling" v
      | _, _ => d.unexpected "scaling" v

def checkSpecial (d : Declaration) (spec : IntSpec) (name : String) (value : Int) :
    Except Error Unit :=
  if !spec.holds value then d.fail (.property (.specialRange name value))
  else d.refuseOther (.specialValue name)
    (spec.specials.find? fun s => !spec.nonUniqueSpecials && s.value == value)

def readSpecials (d : Declaration) (profile : Profile) (spec : IntSpec) :
    Except Error IntSpec := do
  let specials ← d.readNamedValues profile "special" "special"
    (fun known => valueOf? { spec with specials := known } d.env)
    (fun known => checkSpecial d { spec with specials := known }) spec.specials
  .ok { spec with specials }

/-- A default, which must fit unless a special has this name. -/
def readDefault (d : Declaration) (spec : IntSpec) (property v : String) : Except Error Int := do
  let value ← d.accept property v (spec.valueOf? d.env v)
  if (spec.special? v).isNone && !spec.holds value then
    d.fail (.property (.outOfRange property value spec.least spec.greatest))
  else .ok value

def readBound (d : Declaration) (spec : IntSpec) (property whole s : String) :
    Except Error Int := do
  let value ← d.accept property whole (spec.valueOf? d.env s)
  if spec.holds value then .ok value
  else d.fail (.property (.boundOutOfRange property value spec.least spec.greatest))

def readInterval (d : Declaration) (spec : IntSpec) (property raw : String) :
    Except Error Interval := do
  let (low, high) ←
    d.readBounds (spec.least, spec.greatest) (spec.readBound d property raw) property raw
  .ok ⟨Number.ofInt low, Number.ofInt high, Window.always⟩

def readValidRanges (d : Declaration) (profile : Profile) (spec : IntSpec) : Build IntSpec := do
  let declared ← d.declaredRanges profile (spec.readInterval d)
  let default? ← d.readDefaultValid (spec.readDefault d)
  let ranges := spec.declaredRanges ++ declared
    ++ (default?.map fun value => Interval.point (Number.ofInt value)).toList
  let whole : Interval := ⟨Number.ofInt spec.least, Number.ofInt spec.greatest, Window.always⟩
  return { spec with
    defaultValue := default?.getD spec.defaultValue
    declaredRanges := ranges
    validRanges := Interval.merge ⟨.integral, spec.validCheckVersion⟩
      (if ranges.isEmpty then [whole] else ranges) }

def withRange (spec : IntSpec) (type : IntType) : IntSpec :=
  let (low, high) := type.range spec.storage.length spec.storage.bitLength
  let least := low - spec.serOffset
  let greatest := high - spec.serOffset
  let defaultValue :=
    -- A default outside of the range gives way to the number next to zero.
    if spec.defaultValue < least ∨ greatest < spec.defaultValue then min (max least 0) greatest
    else spec.defaultValue
  { spec with least, greatest, defaultValue }

def read (d : Declaration) (profile : Profile) (spec : IntSpec) : Build IntSpec := do
  let (type, storage) ← d.readStorage spec.storage
  let scaling ← readScaling d spec.scaling
  let serOffset := (← d.propAs "serOffset" Literal.signed?).getD spec.serOffset
  let spec := withRange { spec with storage, scaling, serOffset } type
  let nonUniqueSpecials ← d.readNonUniqueSpecials spec.nonUniqueSpecials
  let spec ← readSpecials d profile { spec with nonUniqueSpecials }
  let defaultValue ← d.readDefault (spec.readDefault d) spec.defaultValue
  let validCheckVersion ← d.flag "validCheckVersion" spec.validCheckVersion
  let spec ← readValidRanges d profile { spec with defaultValue, validCheckVersion }
  let units := (← d.propAs "units" Units.ofText?).getD spec.units
  let displayDecimals := (← d.natProp "displayDecimals").getD spec.displayDecimals
  let displayOffset := (← d.propAs "displayOffset" Literal.real?).getD spec.displayOffset
  let signExt ← d.flag "signExt" spec.signExt
  d.warnDeprecated "displaySpecials"
  let displaySpecials ← d.flag "displaySpecials" spec.displaySpecials
  let availableLengthLimit ← d.gatedFlag "availableLengthLimit" spec.availableLengthLimit
  return { spec with
    units, displayDecimals, displayOffset, signExt, displaySpecials, availableLengthLimit }

end IntSpec

end WireSchema
