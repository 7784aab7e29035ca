import WireSchema.Field
import WireSchema.Length

/-!
How much room fields take on the wire: the least and the greatest length in bytes, and the width
in bits. A length without bound is the largest word.
-/

namespace WireSchema

structure Footprint where
  least : Nat
  greatest : Nat
  bits : Nat
  deriving DecidableEq

namespace Footprint

/-- Lengths with a declared width in bits; if that is zero, the greatest length in bits. -/
def ofLengths (least greatest declaredBits : Nat) : Footprint :=
  ⟨least, greatest, if declaredBits ≠ 0 then declaredBits else Length.mul greatest 8⟩

def nothing : Footprint := ofLengths 0 0 0

def packed (members : List Footprint) : Footprint :=
  let bits := Length.sumWords (members.map Footprint.bits)
  ofLengths (bits / 8) (bits / 8) bits

/-- Members back to back. If one of them carries the length of the whole, there is no bound. -/
def sequence (carriesLength : Bool) (members : List Footprint) : Footprint :=
  let greatest :=
    if carriesLength then Length.unbounded else Length.sum (members.map Footprint.greatest)
  ofLengths (Length.sum (members.map Footprint.least)) greatest 0

def choice (members : List Footprint) : Footprint :=
  ofLengths 0 ((members.map Footprint.greatest).foldl max 0) 0

def prefixed (lead : Footprint) (announced : Option Nat) : Footprint :=
  let greatest := match announced with
    | some n => Length.add lead.greatest n
    | none => Length.unbounded
  ofLengths lead.least greatest 0

/-- The length of `n` elements, each with a prefix, or all of them with one if the elements have
a fixed length. -/
def repeated (fixedLength : Bool) (n element lead : Nat) : Nat :=
  let leads := if fixedLength then lead else Length.mul lead n
  Length.add (Length.mul element n) leads

def counted (fixedLength : Bool) (lead : Footprint) (announced : Option Nat)
    (element elementLead : Footprint) : Footprint :=
  let greatest := match announced with
    | some n =>
        let leads := if fixedLength then elementLead.greatest else Length.mul elementLead.greatest n
        Length.add (Length.add (Length.mul element.greatest n) lead.greatest) leads
    | none => Length.unbounded
  ofLengths lead.least greatest 0

end Footprint

def Prefix.announces? (lead : Prefix Field) : Option Nat :=
  match lead.part?.bind Field.integer? with
  | some spec =>
      let n := spec.greatest.toNat
      if n ≤ Literal.greatestUnsigned then some n else none
  | none => none

namespace Storage

/-- One byte is enough for a variable length. -/
def leastLength (s : Storage) : Nat :=
  match s.type with
  | some type => if type.isVariable then 1 else s.length
  | none => s.length

def footprint (s : Storage) : Footprint :=
  .ofLengths s.leastLength s.length s.bitLength

end Storage

namespace Field

mutual
def footprint : Field → Footprint
  | ⟨_, .int spec⟩ => spec.storage.footprint
  | ⟨_, .float spec⟩ =>
      let length := (spec.type.map FloatType.length).getD 0
      .ofLengths length length 0
  | ⟨_, .enum spec⟩ => spec.storage.footprint
  | ⟨_, .set spec⟩ => .ofLengths spec.storage.length spec.storage.length spec.storage.bitLength
  | ⟨_, .bitfield ⟨_, members, _⟩⟩ => .packed (footprints members)
  | ⟨_, .bundle ⟨members, _, _⟩⟩ =>
      .sequence (members.any fun m => m.semanticType == .length) (footprints members)
  | ⟨_, .string ⟨_, _, delimiter, _⟩⟩ => delimiterFootprint delimiter
  | ⟨_, .data ⟨_, delimiter, _⟩⟩ => delimiterFootprint delimiter
  | ⟨_, .list ⟨element, repetition, elementPrefix, fixedLength⟩⟩ =>
      repetitionFootprint fixedLength (optionalSlotFootprint element)
        (optionalPrefixFootprint elementPrefix) repetition
  | ⟨_, .ref ⟨target, bitLength⟩⟩ =>
      let room := optionalHandleFootprint target
      .ofLengths room.least room.greatest (if bitLength ≠ 0 then bitLength else room.bits)
  | ⟨_, .optional ⟨inner, _, _, _, _⟩⟩ =>
      .ofLengths 0 (optionalSlotFootprint inner).greatest 0
  | ⟨_, .variant ⟨members, _⟩⟩ => .choice (footprints members)

def footprints : List Field → List Footprint
  | [] => []
  | f :: rest => footprint f :: footprints rest

def delimiterFootprint : Delimiter Field → Footprint
  | .unbounded => .ofLengths 0 Length.unbounded 0
  | .fixed length => .ofLengths length length 0
  | .prefixed lead => .prefixed (prefixFootprint lead) lead.announces?
  | .zeroTerminated => .ofLengths 1 Length.unbounded 0

def repetitionFootprint (fixedLength : Bool) (element elementLead : Footprint) :
    Repetition Field → Footprint
  | .unbounded => .ofLengths 0 Length.unbounded 0
  | .count n =>
      .ofLengths (Footprint.repeated fixedLength n element.least elementLead.least)
        (Footprint.repeated fixedLength n element.greatest elementLead.greatest) 0
  | .countPrefix lead =>
      .counted fixedLength (prefixFootprint lead) lead.announces? element elementLead
  | .lengthPrefix lead => .prefixed (prefixFootprint lead) lead.announces?
  | .termSuffix tail => .ofLengths (prefixFootprint tail).least Length.unbounded 0

def prefixFootprint : Prefix Field → Footprint
  | .part (.inline f) => footprint f
  | .part (.external ⟨_, _, f⟩) => footprint f
  | .detached _ => .nothing

def optionalPrefixFootprint : Option (Prefix Field) → Footprint
  | some lead => prefixFootprint lead
  | none => .nothing

def optionalSlotFootprint : Option (Slot Field) → Footprint
  | some (.inline f) => footprint f
  | some (.external ⟨_, _, f⟩) => footprint f
  | none => .nothing

def optionalHandleFootprint : Option (Handle Field) → Footprint
  | some ⟨_, _, f⟩ => footprint f
  | none => .nothing
end

def minLength (f : Field) : Nat := f.footprint.least
def maxLength (f : Field) : Nat := f.footprint.greatest
def bitLength (f : Field) : Nat := f.footprint.bits

end Field

end WireSchema
