import WireSchema.Declaration.Storage
import WireSchema.Declaration.ValidValues
import WireSchema.Field.Compare
import WireSchema.Interval.Merge

/-!
Real numbers: their type, and which values are named or valid.
-/

namespace WireSchema

open Markup (Node)

def FloatType.greatest : FloatType → Double
  | .single => Double.greatestSingle
  | .double => Double.greatest

namespace FloatSpec

def valueOf? (spec : FloatSpec) (env : Environment) (s : String) : Option Double :=
  (spec.read? s).or (env.real? s)

def readType (d : Declaration) (current : Option FloatType) : Except Error FloatType := do
  let type ← match ← d.propAs "type" FloatType.ofText?, current with
    | some type, _ => .ok type
    | none, some type => .ok type
    | none, none => d.fail (.missing (.property "type" d.node.name))
  match current with
  | some before =>
      if d.reused && before != type then d.fail (.reuse (.typeChanged before.label type.label))
      else .ok type
  | none => .ok type

def checkSpecial (d : Declaration) (spec : FloatSpec) (name : String) (value : Double) :
    Except Error Unit :=
  let same (s : NamedValue Double) : Bool :=
    !spec.nonUniqueSpecials && s.value.compare value == .eq
  d.refuseOther (.specialValue name) (spec.specials.find? same)

def readSpecials (d : Declaration) (profile : Profile) (spec : FloatSpec) :
    Except Error FloatSpec := do
  let specials ← d.readNamedValues profile "special" "special"
    (fun known => valueOf? { spec with specials := known } d.env)
    (fun known => checkSpecial d { spec with specials := known }) spec.specials
  .ok { spec with specials }

def readDefault (d : Declaration) (spec : FloatSpec) (property v : String) : Except Error Double :=
  d.accept property v (spec.valueOf? d.env v)

def readInterval (d : Declaration) (spec : FloatSpec) (type : FloatType) (property raw : String) :
    Except Error Interval := do
  let bound (s : String) : Except Error Double := d.accept property raw (spec.valueOf? d.env s)
  let (low, high) ← d.readBounds (type.greatest.negate, type.greatest) bound property raw
  .ok ⟨.real low, .real high, Window.always⟩

def readValidRanges (d : Declaration) (profile : Profile) (spec : FloatSpec) (type : FloatType) :
    Build FloatSpec := do
  let declared ← d.declaredRanges profile (spec.readInterval d type)
  let validFullRange ← d.flag "validFullRange" spec.validFullRange
  let full : List Interval :=
    if validFullRange then [⟨.real type.greatest.negate, .real type.greatest, Window.always⟩]
    else []
  let default? ← d.readDefaultValid (spec.readDefault d)
  let ranges := spec.declaredRanges ++ declared ++ full
    ++ (default?.map fun value => Interval.point (.real value)).toList
  if Interval.anyOverlap ranges then d.warn (.overlappingRanges profile.name)
  return { spec with
    validFullRange
    defaultValue := default?.getD spec.defaultValue
    declaredRanges := ranges
    validRanges := Interval.merge ⟨.real, spec.validCheckVersion⟩ ranges }

def read (d : Declaration) (profile : Profile) (spec : FloatSpec) : Build FloatSpec := do
  let type ← readType d spec.type
  let endian ← d.readEndian spec.endian
  let nonUniqueSpecials ← d.readNonUniqueSpecials spec.nonUniqueSpecials
  let spec ← readSpecials d profile { spec with type := some type, endian, nonUniqueSpecials }
  let defaultValue ← d.readDefault (spec.readDefault d) spec.defaultValue
  let validCheckVersion ← d.flag "validCheckVersion" spec.validCheckVersion
  let spec ← readValidRanges d profile { spec with defaultValue, validCheckVersion } type
  let units := (← d.propAs "units" Units.ofText?).getD spec.units
  let displayDecimals := (← d.natProp "displayDecimals").getD spec.displayDecimals
  d.warnDeprecated "displaySpecials"
  let displaySpecials ← d.flag "displaySpecials" spec.displaySpecials
  return { spec with units, displayDecimals, displaySpecials }

end FloatSpec

end WireSchema
