import WireSchema.Text

/-!
The keywords of the schema language that stand for a choice: byte order, meaning of a field,
override policy, initial mode of an optional, storage types and the twelve kinds of field. Each
choice has a reader `ofText?`; those that messages mention have a `label`.
-/

namespace WireSchema

open Text

inductive Endian where
  | little
  | big
  deriving DecidableEq, Inhabited

def Endian.ofText? (s : String) : Option Endian :=
  match lower (trim s) with
  | "little" => some .little
  | "big" => some .big
  | _ => none

inductive SemanticType where
  | none
  | version
  | messageId
  | length
  deriving DecidableEq, Inhabited

namespace SemanticType

def ofText? (s : String) : Option SemanticType :=
  match trim s with
  | "" | "none" => some .none
  | "version" => some .version
  | "messageId" => some .messageId
  | "length" => some .length
  | _ => Option.none

def label : SemanticType → String
  | .none => "None"
  | .version => "Version"
  | .messageId => "MessageId"
  | .length => "Length"

end SemanticType

inductive OverridePolicy where
  | any
  | replace
  | extend
  | none
  deriving DecidableEq, Inhabited

def OverridePolicy.ofText? (s : String) : Option OverridePolicy :=
  match trim s with
  | "" | "any" => some .any
  | "replace" => some .replace
  | "extend" => some .extend
  | "none" => some .none
  | _ => Option.none

inductive OptionalMode where
  | tentative
  | missing
  | existing
  deriving DecidableEq, Inhabited

def OptionalMode.ofText? (s : String) : Option OptionalMode :=
  match lower (trim s) with
  | "tent" | "tentative" | "t" => some .tentative
  | "miss" | "missing" | "m" => some .missing
  | "exists" | "exist" | "e" => some .existing
  | _ => none

inductive IntType where
  | int8
  | uint8
  | int16
  | uint16
  | int32
  | uint32
  | int64
  | uint64
  | intvar
  | uintvar
  deriving DecidableEq, Inhabited

namespace IntType

def ofText? (s : String) : Option IntType :=
  match trim s with
  | "int8" => some .int8
  | "uint8" => some .uint8
  | "int16" => some .int16
  | "uint16" => some .uint16
  | "int32" => some .int32
  | "uint32" => some .uint32
  | "int64" => some .int64
  | "uint64" => some .uint64
  | "intvar" => some .intvar
  | "uintvar" => some .uintvar
  | _ => none

def label : IntType → String
  | .int8 => "Int8"
  | .uint8 => "Uint8"
  | .int16 => "Int16"
  | .uint16 => "Uint16"
  | .int32 => "Int32"
  | .uint32 => "Uint32"
  | .int64 => "Int64"
  | .uint64 => "Uint64"
  | .intvar => "Intvar"
  | .uintvar => "Uintvar"

def maxLength : IntType → Nat
  | .int8 | .uint8 => 1
  | .int16 | .uint16 => 2
  | .int32 | .uint32 => 4
  | .int64 | .uint64 => 8
  | .intvar | .uintvar => 10

def isUnsigned : IntType → Bool
  | .uint8 | .uint16 | .uint32 | .uint64 | .uintvar => true
  | _ => false

/-- Types with values above the largest signed word. -/
def isBigUnsigned : IntType → Bool
  | .uint64 | .uintvar => true
  | _ => false

def isVariable : IntType → Bool
  | .intvar | .uintvar => true
  | _ => false

end IntType

inductive FloatType where
  | single
  | double
  deriving DecidableEq, Inhabited

namespace FloatType

def ofText? (s : String) : Option FloatType :=
  match trim s with
  | "float" => some .single
  | "double" => some .double
  | _ => none

def label : FloatType → String
  | .single => "Float"
  | .double => "Double"

def length : FloatType → Nat
  | .single => 4
  | .double => 8

end FloatType

inductive Kind where
  | int
  | float
  | enum
  | set
  | bitfield
  | bundle
  | string
  | data
  | list
  | ref
  | optional
  | variant
  deriving DecidableEq, Inhabited

namespace Kind

def tag : Kind → String
  | .int => "int"
  | .float => "float"
  | .enum => "enum"
  | .set => "set"
  | .bitfield => "bitfield"
  | .bundle => "bundle"
  | .string => "string"
  | .data => "data"
  | .list => "list"
  | .ref => "ref"
  | .optional => "optional"
  | .variant => "variant"

def all : List Kind :=
  [.int, .float, .enum, .set, .bitfield, .bundle, .string, .data, .list, .ref, .optional, .variant]

def ofTag? (tag : String) : Option Kind :=
  all.find? fun kind => kind.tag == tag

end Kind

end WireSchema
