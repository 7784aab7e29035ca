import WireSchema.Declaration
import WireSchema.Length

/-!
How a field of integers is stored: its type, byte order, length in bytes and, inside a bitfield,
length in bits.
-/

namespace WireSchema

def IntType.range (type : IntType) (length bitLength : Nat) : Int × Int :=
  let wanted :=
    if bitLength ≠ 0 then bitLength
    else if type.isVariable then length * 7
    else length * 8
  let bits := max 1 (min wanted 64)
  if type.isUnsigned then (0, Nat.pow 2 bits - 1)
  else (-Nat.pow 2 (bits - 1), Nat.pow 2 (bits - 1) - 1)

namespace Declaration

def readIntType (d : Declaration) (current : Option IntType) (allowed : IntType → Bool) :
    Except Error IntType := do
  match ← d.prop "type" with
  | none =>
      match current with
      | some type => .ok type
      | none => d.fail (.missing (.property "type" d.node.name))
  | some v =>
      let type ← d.accept "type" v ((IntType.ofText? v).filter allowed)
      match current with
      | some before =>
          if d.reused && before != type then
            d.fail (.reuse (.typeChanged before.label type.label))
          else .ok type
      | none => .ok type

def readEndian (d : Declaration) (current : Endian) : Except Error Endian := do
  match ← d.propAs "endian" Endian.ofText? with
  | some endian => .ok endian
  | none => .ok (if d.reused then current else d.context.endian)

/-- The length in bytes: declared, kept, or that of the type. -/
def readLength (d : Declaration) (type : IntType) (current : Nat) : Except Error Nat := do
  match ← d.natProp "length" with
  | none => .ok (if d.reused && current != 0 then current else type.maxLength)
  | some length =>
      if length = 0 ∨ type.maxLength < length then
        d.fail (.property (.lengthOfType length type))
      else .ok length

def readBitLength (d : Declaration) (isVariable : Bool) (length current : Nat) : Build Nat := do
  let maxBits := Length.mulWords length 8
  if !d.parent.isBitfield then
    if d.has "bitLength" then d.warn .bitLengthOutside
    return 0
  else if isVariable then d.abort (.property .variableBits)
  else match ← d.natProp "bitLength" with
    -- A reused field keeps the bits of its source, also where they no longer fit.
    | none => return if current != 0 then current else maxBits
    | some bits =>
        if bits = 0 then d.abort (.property (.unexpected "bitLength" "0"))
        else if maxBits < bits then d.abort (.bits (.exceedsType bits maxBits))
        else return bits

def readStorage (d : Declaration) (s : Storage) : Build (IntType × Storage) := do
  let type ← d.readIntType s.type fun _ => true
  let endian ← d.readEndian s.endian
  let length ← d.readLength type (if s.type = some type then s.length else 0)
  let bitLength ← d.readBitLength type.isVariable length s.bitLength
  return (type, { type := some type, endian, length, bitLength })

end Declaration

end WireSchema
