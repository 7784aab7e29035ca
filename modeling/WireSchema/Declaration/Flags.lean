import WireSchema.Declaration.Storage

/-!
Sets: named bits of an unsigned integer.
-/

namespace WireSchema

open Markup (Node)

namespace SetSpec

/-- The length of a set without a type: declared, kept, or as many bytes as the bits take. -/
def readUntypedLength (d : Declaration) (current : Nat) : Except Error Nat := do
  match ← d.natProp "length" with
  | some length =>
      if 1 ≤ length ∧ length ≤ 8 then .ok length else d.unexpected "length" (toString length)
  | none =>
      if current ≠ 0 then .ok current
      else if d.parent.isBitfield then
        match ← d.natProp "bitLength" with
        | some bits => .ok (max 1 ((bits + 7) / 8))
        | none => d.fail (.missing .setStorage)
      else d.fail (.missing .setStorage)

def readTypeLength (d : Declaration) (s : Storage) : Except Error (Option IntType × Nat) :=
  if d.has "type" then do
    let type ← d.readIntType s.type fun type => type.isUnsigned && !type.isVariable
    -- The length of the source counts only together with its type.
    let length ← d.readLength type (if s.type = some type then s.length else 0)
    .ok (some type, length)
  else do .ok (s.type, ← readUntypedLength d s.length)

def capacity (spec : SetSpec) : Nat :=
  if spec.storage.bitLength ≠ 0 then spec.storage.bitLength else spec.storage.length * 8

def bitFlag (d : Declaration) (elem : Node) (property : String) (current : Bool) :
    Except Error Bool := do
  match ← (Properties.ofAttributes elem).single elem property with
  | none => .ok current
  | some v => d.accept property v (Literal.boolean? v)

def readBit (d : Declaration) (profile : Profile) (spec : SetSpec) (elem : Node) :
    Except Error SetSpec := do
  let props := Properties.ofAttributes elem
  let name ← d.innerName elem
  if (spec.bit? name).isSome then
    .error ((Fault.naming (.entryTwice "bit" name)).atLine elem.line)
  else
    let raw ← props.required elem "idx"
    let index ← d.accept "idx" raw (Literal.unsigned? raw)
    if spec.capacity ≤ index then d.fail (.property (.bitIndex name index spec.capacity))
    else match spec.bits.find? fun b => !spec.nonUnique && b.index == index with
      | some other => d.fail (.property (.bitClash name other.name))
      | none =>
          let window ← d.innerWindow elem profile
          let defaultValue ← bitFlag d elem "defaultValue" spec.defaultValue
          let reservedValue ← bitFlag d elem "reservedValue" spec.reservedValue
          let reserved ← bitFlag d elem "reserved" false
          .ok { spec with
            bits := spec.bits ++ [{
              name, index, defaultValue, reservedValue, reserved, window
              description := (props.get? "description").getD ""
              displayName := (props.get? "displayName").getD "" }] }

def readBits (d : Declaration) (profile : Profile) (spec : SetSpec) : Except Error SetSpec :=
  (d.node.childrenNamed "bit").foldlM (readBit d profile) spec

def read (d : Declaration) (profile : Profile) (spec : SetSpec) : Build SetSpec := do
  let (type, length) ← readTypeLength d spec.storage
  let bitLength ← d.readBitLength false length spec.storage.bitLength
  let endian ← d.readEndian spec.storage.endian
  let nonUnique ← d.flag "nonUniqueAllowed" spec.nonUnique
  let defaultValue ← d.flag "defaultValue" spec.defaultValue
  let reservedValue ← d.flag "reservedValue" spec.reservedValue
  let validCheckVersion ← d.flag "validCheckVersion" spec.validCheckVersion
  let availableLengthLimit ← d.gatedFlag "availableLengthLimit" spec.availableLengthLimit
  readBits d profile
    { spec with
      storage := { type, endian, length, bitLength }
      nonUnique, defaultValue, reservedValue, validCheckVersion, availableLengthLimit }

end SetSpec

end WireSchema
