import WireSchema.Condition
import WireSchema.Interval
import WireSchema.Keyword
import WireSchema.Units

/-!
Fields: the attributes every kind has, and a payload by kind. The payloads of composite kinds
are written over the type of their parts, and `Field` closes the circle.
-/

namespace WireSchema

structure NamedValue (α : Type) where
  name : String
  value : α
  window : Window
  description : String := ""
  displayName : String := ""

structure Versioned (α : Type) where
  value : α
  window : Window

structure Overrides where
  value : OverridePolicy := .any
  read : OverridePolicy := .any
  write : OverridePolicy := .any
  refresh : OverridePolicy := .any
  length : OverridePolicy := .any
  valid : OverridePolicy := .any
  name : OverridePolicy := .any

structure Profile where
  name : String := ""
  displayName : String := ""
  description : String := ""
  semanticType : SemanticType := .none
  window : Window := Window.always
  removed : Bool := false
  pseudo : Bool := false
  fixedValue : Bool := false
  customizable : Bool := false
  failOnInvalid : Bool := false
  forceGen : Bool := false
  displayReadOnly : Bool := false
  displayHidden : Bool := false
  overrides : Overrides := {}
  copyCodeFrom : Option String := none
  reusedFrom : Option String := none
  validateMinLength : Option Nat := none
  line : Nat := 0

def Profile.isDeprecatedRemoved (c : Profile) : Bool :=
  c.removed && c.window.isDeprecated

/-- How integers, enumerations and sets are stored. A bit length of zero means whole bytes. -/
structure Storage where
  type : Option IntType := none
  endian : Endian := .little
  length : Nat := 0
  bitLength : Nat := 0

structure IntSpec where
  storage : Storage := {}
  scaling : Int × Int := (1, 1)
  serOffset : Int := 0
  /-- The least and greatest values that can be stored. -/
  least : Int := 0
  greatest : Int := 0
  defaultValue : Int := 0
  specials : List (NamedValue Int) := []
  nonUniqueSpecials : Bool := false
  validCheckVersion : Bool := false
  validRanges : List Interval := []
  /-- The declarations that `validRanges` is merged from. -/
  declaredRanges : List Interval := []
  units : Units := .unknown
  displayDecimals : Nat := 0
  displayOffset : Double := Double.zero
  signExt : Bool := true
  displaySpecials : Bool := true
  availableLengthLimit : Bool := false

structure FloatSpec where
  type : Option FloatType := none
  endian : Endian := .little
  defaultValue : Double := Double.zero
  specials : List (NamedValue Double) := []
  nonUniqueSpecials : Bool := false
  validCheckVersion : Bool := false
  validFullRange : Bool := false
  validRanges : List Interval := []
  declaredRanges : List Interval := []
  units : Units := .unknown
  displayDecimals : Nat := 0
  displaySpecials : Bool := true

structure EnumSpec where
  storage : Storage := {}
  nonUnique : Bool := false
  validCheckVersion : Bool := false
  hexAssign : Bool := false
  availableLengthLimit : Bool := false
  least : Int := 0
  greatest : Int := 0
  values : List (NamedValue Int) := []
  defaultValue : Int := 0
  validRanges : List Interval := []

structure SetBit where
  name : String
  index : Nat
  defaultValue : Bool
  reservedValue : Bool
  reserved : Bool
  window : Window
  description : String := ""
  displayName : String := ""

structure SetSpec where
  storage : Storage := {}
  nonUnique : Bool := false
  defaultValue : Bool := false
  reservedValue : Bool := false
  validCheckVersion : Bool := false
  availableLengthLimit : Bool := false
  bits : List SetBit := []

/-- A registered field: its place in the registry, the name it was asked for by, and itself. -/
structure Handle (α : Type) where
  id : Nat
  ref : String
  target : α

inductive Slot (α : Type) where
  | inline (part : α)
  | external (handle : Handle α)

/-- A field in front of, or behind, a sequence: a part of its own, or a sibling by name. -/
inductive Prefix (α : Type) where
  | part (slot : Slot α)
  | detached (sibling : String)

inductive Delimiter (α : Type) where
  | unbounded
  | fixed (length : Nat)
  | prefixed (lead : Prefix α)
  | zeroTerminated

inductive Repetition (α : Type) where
  | unbounded
  | count (n : Nat)
  | countPrefix (lead : Prefix α)
  | lengthPrefix (lead : Prefix α)
  | termSuffix (tail : Prefix α)

structure BitfieldSpec (α : Type) where
  endian : Endian := .little
  members : List α := []
  validCondition : Option Condition := none

structure Alias where
  name : String
  path : String
  description : String := ""

structure BundleSpec (α : Type) where
  members : List α := []
  aliases : List Alias := []
  validCondition : Option Condition := none

structure StringSpec (α : Type) where
  encoding : String := ""
  defaultValue : String := ""
  delimiter : Delimiter α := .unbounded
  validValues : List (Versioned String) := []

structure DataSpec (α : Type) where
  defaultValue : List UInt8 := []
  delimiter : Delimiter α := .unbounded
  validValues : List (Versioned (List UInt8)) := []

structure ListSpec (α : Type) where
  element : Option (Slot α) := none
  repetition : Repetition α := .unbounded
  elementPrefix : Option (Prefix α) := none
  elementFixedLength : Bool := false

/-- A bit length of zero means that of the target. -/
structure RefSpec (α : Type) where
  target : Option (Handle α) := none
  bitLength : Nat := 0

structure OptionalSpec (α : Type) where
  inner : Option (Slot α) := none
  mode : OptionalMode := .tentative
  condition : Option Condition := none
  missingOnReadFail : Bool := false
  missingOnInvalid : Bool := false

structure VariantSpec (α : Type) where
  members : List α := []
  defaultMember : Option Nat := none

inductive Payload (α : Type) where
  | int (spec : IntSpec)
  | float (spec : FloatSpec)
  | enum (spec : EnumSpec)
  | set (spec : SetSpec)
  | bitfield (spec : BitfieldSpec α)
  | bundle (spec : BundleSpec α)
  | string (spec : StringSpec α)
  | data (spec : DataSpec α)
  | list (spec : ListSpec α)
  | ref (spec : RefSpec α)
  | optional (spec : OptionalSpec α)
  | variant (spec : VariantSpec α)

structure Field where
  profile : Profile
  payload : Payload Field

namespace Payload

variable {α : Type}

def kind : Payload α → Kind
  | .int _ => .int
  | .float _ => .float
  | .enum _ => .enum
  | .set _ => .set
  | .bitfield _ => .bitfield
  | .bundle _ => .bundle
  | .string _ => .string
  | .data _ => .data
  | .list _ => .list
  | .ref _ => .ref
  | .optional _ => .optional
  | .variant _ => .variant

def blank : Kind → Payload α
  | .int => .int {}
  | .float => .float {}
  | .enum => .enum {}
  | .set => .set {}
  | .bitfield => .bitfield {}
  | .bundle => .bundle {}
  | .string => .string {}
  | .data => .data {}
  | .list => .list {}
  | .ref => .ref {}
  | .optional => .optional {}
  | .variant => .variant {}

def members : Payload α → List α
  | .bitfield spec => spec.members
  | .bundle spec => spec.members
  | .variant spec => spec.members
  | _ => []

end Payload

def Slot.part {α : Type} : Slot α → α
  | .inline part => part
  | .external handle => handle.target

def Prefix.part? {α : Type} : Prefix α → Option α
  | .part slot => some slot.part
  | .detached _ => none

def Prefix.sibling? {α : Type} : Prefix α → Option String
  | .part _ => none
  | .detached sibling => some sibling

namespace Delimiter

variable {α : Type}

def label : Delimiter α → String
  | .unbounded => "Unbounded"
  | .fixed _ => "Fixed"
  | .prefixed _ => "Prefix"
  | .zeroTerminated => "ZeroTerm"

def fixedLength? : Delimiter α → Option Nat
  | .fixed length => some length
  | _ => none

def lead? : Delimiter α → Option (Prefix α)
  | .prefixed lead => some lead
  | _ => none

end Delimiter

namespace Repetition

variable {α : Type}

def label : Repetition α → String
  | .unbounded => "Unbounded"
  | .count _ => "Count"
  | .countPrefix _ => "CountPrefix"
  | .lengthPrefix _ => "LengthPrefix"
  | .termSuffix _ => "TermSuffix"

end Repetition

def IntSpec.special? (spec : IntSpec) (name : String) : Option (NamedValue Int) :=
  spec.specials.find? fun s => s.name == name

def FloatSpec.special? (spec : FloatSpec) (name : String) : Option (NamedValue Double) :=
  spec.specials.find? fun s => s.name == name

def EnumSpec.value? (spec : EnumSpec) (name : String) : Option (NamedValue Int) :=
  spec.values.find? fun v => v.name == name

def SetSpec.bit? (spec : SetSpec) (name : String) : Option SetBit :=
  spec.bits.find? fun b => b.name == name

namespace Field

instance : Inhabited Field := ⟨⟨{}, .int {}⟩⟩

def kind (f : Field) : Kind := f.payload.kind
def name (f : Field) : String := f.profile.name
def line (f : Field) : Nat := f.profile.line
def window (f : Field) : Window := f.profile.window
def semanticType (f : Field) : SemanticType := f.profile.semanticType
def members (f : Field) : List Field := f.payload.members

def blank (kind : Kind) (line : Nat) : Field := ⟨{ line }, .blank kind⟩

def withWindow (f : Field) (window : Window) : Field :=
  { f with profile := { f.profile with window } }

def integer? : Field → Option IntSpec
  | ⟨_, .int spec⟩ => some spec
  | ⟨_, .ref ⟨some ⟨_, _, target⟩, _⟩⟩ => integer? target
  | _ => none

/-- The first field of a chain of references that is not one itself. -/
def dereferenced : Field → Field
  | ⟨_, .ref ⟨some ⟨_, _, target⟩, _⟩⟩ => dereferenced target
  | f => f

def validRanges? : Field → Option (List Interval)
  | ⟨_, .int spec⟩ => some spec.validRanges
  | ⟨_, .float spec⟩ => some spec.validRanges
  | ⟨_, .enum spec⟩ => some spec.validRanges
  | ⟨_, .ref ⟨some ⟨_, _, target⟩, _⟩⟩ => validRanges? target
  | _ => none

def named? (fields : List Field) (name : String) : Option Field :=
  fields.find? fun f => f.name == name

end Field

structure Interface where
  name : String := ""
  qualifiedName : String := ""
  description : String := ""
  fields : List Field := []
  reusedFrom : Option String := none
  line : Nat := 0

end WireSchema
