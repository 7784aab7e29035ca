import WireSchema.Declaration.Parts
import WireSchema.Declaration.ValidValues
import WireSchema.Field.Footprint
import WireSchema.Sorting

/-!
Texts, raw data and lists: what says where they end, and the values texts and data may have.
-/

namespace WireSchema

open Markup (Node)

namespace Declaration

def readPositive (d : Declaration) (name : String) : Except Error (Option Nat) := do
  match ← d.natProp name with
  | some 0 => d.unexpected name "0"
  | other => .ok other

def readFixedLength (d : Declaration) : Except Error (Option Nat) := d.readPositive "length"

def keepLabel {α : Type} (d : Declaration) (ending : String) (label : α → String)
    (before after : α) : Except Error α :=
  if d.reused && label before != label after then
    d.fail (.reuse (.strategyChanged ending (label before) (label after)))
  else .ok after

def keepDelimiter (d : Declaration) (before after : Delimiter Field) :
    Except Error (Delimiter Field) :=
  d.keepLabel "field" Delimiter.label before after

def validTexts (d : Declaration) (profile : Profile) : Except Error (List (Versioned String)) := do
  let attributes := d.node.attributes.filter fun entry => entry.1 == "validValue"
  let elements ← (d.node.childrenNamed "validValue").mapM fun elem => do
    let window ← d.innerWindow elem profile
    let value ← elem.value
    .ok ⟨value, window⟩
  .ok (attributes.map (fun entry => ⟨entry.2, profile.window⟩) ++ elements)

def readTexts {α : Type} (read : String → String → Except Error α)
    (texts : List (Versioned String)) : Except Error (List (Versioned α)) :=
  texts.mapM fun text => do
    let value ← read "validValue" text.value
    .ok ⟨value, text.window⟩

def readValidValues {α : Type} (d : Declaration) (profile : Profile) (kind : Kind)
    (read : String → String → Except Error α) (lt : α → α → Bool) (defaultValue : α)
    (current : List (Versioned α)) : Build (α × List (Versioned α)) := do
  let texts ← d.validTexts profile
  if texts.isEmpty && !d.has "defaultValidValue" then return (defaultValue, current)
  else if !d.env.supports .validValueInStringData then do
    d.warn (.validValuesUnsupported kind d.env.dsl)
    return (defaultValue, current)
  else do
    let values ← readTexts read texts
    let chosen ← match ← d.prop "defaultValidValue" with
      | some raw => (read "defaultValidValue" raw).map some
      | none => pure none
    let added := match chosen with
      | some value => [⟨value, profile.window⟩]
      | none => []
    return (chosen.getD defaultValue,
      Sorting.stable (fun a b => lt a.value b.value) (current ++ values ++ added))

/-- What is written, or with `^` in front the default of another field; it must fit a fixed
length. -/
def readBounded {α : Type} (d : Declaration) (delimiter : Delimiter Field) (kind : String)
    (other? : String → Option α) (own : Except Error α) (size : α → Nat)
    (long : α → Nat → PropertyFault) (raw : String) : Except Error α := do
  let value ← (match Text.after? '^' raw with
    | some ref =>
        match other? ref with
        | some value => .ok value
        | none => d.fail (.reference (.valueUnknown kind ref))
    | none => own)
  match delimiter with
  | .fixed length =>
      if length < size value then d.fail (.property (long value length)) else .ok value
  | _ => .ok value

def readContents {α : Type} (d : Declaration) (profile : Profile) (kind : Kind)
    (read : String → String → Except Error α) (lt : α → α → Bool) (defaultValue : α)
    (current : List (Versioned α)) : Build (α × List (Versioned α)) := do
  let defaultValue ← d.readDefault read defaultValue
  d.readValidValues profile kind read lt defaultValue current

end Declaration

namespace StringSpec

def readDelimiter (d : Declaration) (profile : Profile) (current : Delimiter Field) :
    Build (Delimiter Field) := do
  let length ← d.readFixedLength
  let lead ← d.readPrefix "lengthPrefix" (Declaration.memberParent .string profile)
  let zero := (← d.boolProp "zeroTermSuffix").getD false
  match length, lead, zero with
  | none, none, false => return current
  | some n, none, false => d.keepDelimiter current (.fixed n)
  | none, some lead, false => d.keepDelimiter current (.prefixed lead)
  | none, none, true => d.keepDelimiter current .zeroTerminated
  | _, _, _ => d.abort (.conflictingLengths ["length", "lengthPrefix", "zeroTermSuffix"])

def readValue (d : Declaration) (delimiter : Delimiter Field) (raw : String) :
    Except Error String :=
  d.readBounded delimiter "string" (d.env.registry.text? d.context.name) (.ok raw)
    String.utf8ByteSize .longText raw

def read (d : Declaration) (profile : Profile) (spec : StringSpec Field) :
    Build (StringSpec Field) := do
  let encoding := (← d.prop "encoding").getD spec.encoding
  let delimiter ← readDelimiter d profile spec.delimiter
  let (defaultValue, validValues) ← d.readContents profile .string
    (fun _ raw => readValue d delimiter raw) (fun a b => decide (a < b))
    spec.defaultValue spec.validValues
  return { encoding, defaultValue, delimiter, validValues }

end StringSpec

namespace DataSpec

def readDelimiter (d : Declaration) (profile : Profile) (current : Delimiter Field) :
    Build (Delimiter Field) := do
  let length ← d.readFixedLength
  let lead ← d.readPrefix "lengthPrefix" (Declaration.memberParent .data profile)
  match length, lead with
  | none, none => return current
  | some n, none => d.keepDelimiter current (.fixed n)
  | none, some lead => d.keepDelimiter current (.prefixed lead)
  | some _, some _ => d.abort (.conflictingLengths ["length", "lengthPrefix"])

def readValue (d : Declaration) (delimiter : Delimiter Field) (property raw : String) :
    Except Error (List UInt8) :=
  d.readBounded delimiter "data" (d.env.registry.data? d.context.name)
    (d.accept property raw (Literal.bytes? raw)) List.length (fun _ => .longData property) raw

def read (d : Declaration) (profile : Profile) (spec : DataSpec Field) :
    Build (DataSpec Field) := do
  let delimiter ← readDelimiter d profile spec.delimiter
  let (defaultValue, validValues) ← d.readContents profile .data (readValue d delimiter)
    (fun a b => decide (a < b)) spec.defaultValue spec.validValues
  return { defaultValue, delimiter, validValues }

end DataSpec

namespace ListSpec

/-- What ends the list, of any kind. Older DSL versions have no such field. -/
def readTerminator (d : Declaration) (parent : Parent) : Build (Option (Prefix Field)) := do
  if !d.has "termSuffix" && (d.node.child? "termSuffix").isNone then return none
  else if !d.context.supportsProperty "termSuffix" then do
    d.warn (.unsupportedProperty "termSuffix" d.env.dsl)
    return none
  else match (← d.prop "termSuffix").bind (Text.after? '$') with
    | some sibling => return some (← d.readDetached "termSuffix" sibling)
    | none => return (← d.readSlot "termSuffix" parent).map Prefix.part

def readCount (d : Declaration) : Except Error (Option Nat) := d.readPositive "count"

def keepRepetition (d : Declaration) (before after : Repetition Field) :
    Except Error (Repetition Field) :=
  d.keepLabel "list" Repetition.label before after

def readRepetition (d : Declaration) (parent : Parent) (current : Repetition Field) :
    Build (Repetition Field) := do
  let count ← readCount d
  let countPrefix ← d.readPrefix "countPrefix" parent
  let lengthPrefix ← d.readPrefix "lengthPrefix" parent
  let termSuffix ← readTerminator d parent
  match count, countPrefix, lengthPrefix, termSuffix with
  | none, none, none, none => return current
  | some n, none, none, none => keepRepetition d current (.count n)
  | none, some lead, none, none => keepRepetition d current (.countPrefix lead)
  | none, none, some lead, none => keepRepetition d current (.lengthPrefix lead)
  | none, none, none, some tail => keepRepetition d current (.termSuffix tail)
  | _, _, _, _ =>
      d.abort (.conflictingLengths ["count", "countPrefix", "lengthPrefix", "termSuffix"])

def checkElement (d : Declaration) (fixedLength : Bool) (element : Slot Field) :
    Except Error Unit :=
  if fixedLength && element.part.minLength != element.part.maxLength then
    d.fail (.property .elementLength)
  else .ok ()

def checkElementPrefix (d : Declaration) (fixedLength : Bool) :
    Option (Prefix Field) → Except Error Unit
  -- A sibling can announce the length of the elements only if they all have the same.
  | some (.detached _) => if fixedLength then .ok () else d.fail (.property .elementPrefix)
  | _ => .ok ()

def read (d : Declaration) (profile : Profile) (spec : ListSpec Field) :
    Build (ListSpec Field) := do
  let parent := Declaration.memberParent .list profile
  let declared ← d.readWrapped "element" parent
  match declared.or spec.element with
  | none => d.abort (.missing .listElement)
  | some element => do
      let repetition ← readRepetition d parent spec.repetition
      let elementFixedLength ← d.flag "elemFixedLength" spec.elementFixedLength
      checkElement d elementFixedLength element
      let elementPrefix := (← d.readPrefix "elemLengthPrefix" parent).or spec.elementPrefix
      checkElementPrefix d elementFixedLength elementPrefix
      return { element := some element, repetition, elementPrefix, elementFixedLength }

end ListSpec

end WireSchema
