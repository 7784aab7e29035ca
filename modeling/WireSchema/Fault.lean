import WireSchema.Keyword
import WireSchema.Markup.Fault

/-!
What can be wrong with a schema. A fault is a cause, with what it concerns; its category and its
wording are functions of it. An error is a fault at a place.
-/

namespace WireSchema

open Text (quoted)

inductive Category where
  | unknownFieldKind
  | duplicateMemberName
  | conflictingLengthSpec
  | bitLengthExceeded
  | invalidReference
  | invalidCondition
  | unsupportedFeature
  | reuseKindMismatch
  | reuseInvariantViolation
  | invalidProperty
  | missingProperty
  | duplicateProperty
  | invalidStructure
  | invalidVersion
  | markup
  | unreadable
  deriving DecidableEq

def Category.title : Category → String
  | .unknownFieldKind => "Unknown field kind"
  | .duplicateMemberName => "Duplicate member name"
  | .conflictingLengthSpec => "Conflicting length specification"
  | .bitLengthExceeded => "Bit length exceeded"
  | .invalidReference => "Invalid reference"
  | .invalidCondition => "Invalid condition"
  | .unsupportedFeature => "Unsupported feature"
  | .reuseKindMismatch => "Reuse kind mismatch"
  | .reuseInvariantViolation => "Reuse invariant violation"
  | .invalidProperty => "Invalid property"
  | .missingProperty => "Missing property"
  | .duplicateProperty => "Duplicate property"
  | .invalidStructure => "Invalid structure"
  | .invalidVersion => "Invalid version"
  | .markup => "XML"
  | .unreadable => "IO"

inductive NameFault where
  | memberTwice (name : String) (line : Nat)
  | entryTwice (noun name : String)
  | aliasClash (name : String)
  | alreadyDefined (noun name : String)
  | fieldTwice (name element : String)

def NameFault.text : NameFault → String
  | .memberTwice name line => s!"member {quoted name} defined more than once (line {line})"
  | .entryTwice noun name => s!"{noun} {quoted name} defined more than once"
  | .aliasClash name => s!"alias {quoted name} clashes with another member or alias"
  | .alreadyDefined noun name => s!"{noun} {quoted name} has already been defined"
  | .fieldTwice name element => s!"field {quoted name} defined more than once in <{element}>"

inductive BitFault where
  | exceedsType (bits available : Nat)
  | memberTotal (bits limit : Nat)

def BitFault.text : BitFault → String
  | .exceedsType bits available =>
      s!"bitLength {bits} exceeds the {available} bits available to the type"
  | .memberTotal bits limit =>
      s!"total bit length of members ({bits}) must be a non-zero multiple of 8 not exceeding {limit}"

inductive ReferenceFault where
  | reuseUnknown (name : String)
  | propertyUnknown (name property : String)
  | linkUnknown (name : String)
  | prefixKind (sibling : String)
  | prefixUnknown (sibling : String)
  | terminatorUnknown (sibling : String)
  | noCondition (name : String)
  | aliasUnknown (name path : String)
  | valueUnknown (noun name : String)
  | operandUnknown (condition operand : String)
  | notRecorded (noun name : String)
  | notBundle (name : String)
  | copyUnknown (name : String)

def ReferenceFault.text : ReferenceFault → String
  | .reuseUnknown name => s!"the field {quoted name} to reuse hasn't been recorded yet"
  | .propertyUnknown name property =>
      s!"field {quoted name} referenced by {quoted property} is not defined"
  | .linkUnknown name => s!"field {quoted name} referenced by <ref> is not defined"
  | .prefixKind sibling =>
      s!"detached prefix \"${sibling}\" must be an <int> field or have semanticType=\"length\""
  | .prefixUnknown sibling => s!"detached prefix \"${sibling}\" does not name a sibling field"
  | .terminatorUnknown sibling =>
      s!"detached terminator \"${sibling}\" does not name a sibling field"
  | .noCondition name => s!"field {quoted name} has no validity condition to copy"
  | .aliasUnknown name path => s!"alias {quoted name} refers to unknown member {quoted path}"
  | .valueUnknown noun name => s!"referenced {noun} {quoted name} is not defined"
  | .operandUnknown condition operand => s!"{quoted condition}: cannot resolve {quoted operand}"
  | .notRecorded noun name => s!"the {noun} {quoted name} hasn't been recorded yet"
  | .notBundle name => s!"{quoted name} is not a <bundle>"
  | .copyUnknown name =>
      s!"invalid reference to other message, interface or bundle {quoted name}"

inductive ConditionReason where
  | empty
  | expectedOperand
  | missingLeft
  | missingOperand
  | leftNotOperand
  | uncheckable
  | sizeNotInteger
  | existenceCompared
  | leftNotField
  | incomparable
  | tooFew
  | unexpectedElement

def ConditionReason.text : ConditionReason → String
  | .empty => "empty condition"
  | .expectedOperand => "expected a $ or % dereference"
  | .missingLeft => "missing left operand"
  | .missingOperand => "both operands are required"
  | .leftNotOperand => "left operand must be a dereference"
  | .uncheckable => "a check must reference an inner value or use the ? modifier"
  | .sizeNotInteger => "size must be compared to an integer"
  | .existenceCompared => "existence check cannot be compared"
  | .leftNotField => "left operand must reference a field"
  | .incomparable => "operands are not comparable"
  | .tooFew => "at least two conditions are required"
  | .unexpectedElement => "unexpected condition element"

inductive ConditionFault where
  | refused (condition : String) (reason : ConditionReason)
  | shortList
  | notSingle (element : String)
  | several

def ConditionFault.text : ConditionFault → String
  | .refused condition reason => s!"{quoted condition}: {reason.text}"
  | .shortList => "condition list needs at least two members"
  | .notSingle element => s!"<{element}> must contain a single condition"
  | .several => "only a single condition is allowed"

inductive FeatureFault where
  | interfaceOperand (condition : String) (dsl : Nat)
  | existenceCheck (condition : String) (dsl : Nat)
  | sizeComparison (condition : String) (dsl : Nat)
  | aliases (dsl : Nat)
  | severalSchemas (dsl : Nat)

def FeatureFault.text : FeatureFault → String
  | .interfaceOperand condition dsl =>
      s!"{quoted condition}: interface references are not supported by DSL version {dsl}"
  | .existenceCheck condition dsl =>
      s!"{quoted condition}: existence checks are not supported by DSL version {dsl}"
  | .sizeComparison condition dsl =>
      s!"{quoted condition}: size comparison is not supported by DSL version {dsl}"
  | .aliases dsl => s!"<alias> is not supported for DSL version {dsl}"
  | .severalSchemas dsl => s!"multiple schemas are not supported for DSL version {dsl}"

inductive ReuseFault where
  | typeChanged (before after : String)
  | strategyChanged (noun before after : String)
  | membersAdded (count : Nat) (kind : Kind)
  | replacesNothing (name : String) (line : Nat)
  | windowChanged (name : String) (since deprecated newSince newDeprecated line : Nat)

def ReuseFault.text : ReuseFault → String
  | .typeChanged before after =>
      s!"type of a reused field cannot be changed ({before} -> {after})"
  | .strategyChanged noun before after =>
      s!"length determination of a reused {noun} cannot change ({before} -> {after})"
  | .membersAdded count kind =>
      s!"cannot add {count} member(s) to a reused <{kind.tag}>, use <replace> to override existing ones"
  | .replacesNothing name line =>
      s!"cannot find reused member {quoted name} to replace (line {line})"
  | .windowChanged name since deprecated newSince newDeprecated line =>
      s!"replacing member {quoted name} cannot change its version window ([{since}, {deprecated}) -> [{newSince}, {newDeprecated})) (line {line})"

inductive PropertyFault where
  | unexpected (property value : String)
  | exclusive (first second : String)
  | semanticType (type : SemanticType) (kind : Kind)
  | minLength (expected actual : Nat)
  | messageMinLength (name : String) (expected actual : Nat)
  | prefixKind (property : String)
  | lengthOfType (length : Nat) (type : IntType)
  | variableBits
  | specialRange (name : String) (value : Int)
  | specialValue (name other : String)
  | outOfRange (property : String) (value least greatest : Int)
  | boundOutOfRange (property : String) (value least greatest : Int)
  | defaultRange (value : Int)
  | hexAssign
  | valueRange (name : String) (value : Int)
  | valueClash (name other : String)
  | bitIndex (name : String) (index available : Nat)
  | bitClash (name other : String)
  | severalLengths
  | longText (value : String) (length : Nat)
  | longData (property : String) (length : Nat)
  | elementLength
  | elementPrefix
  | invalidName (noun name : String)
  | unknownEndian (value : String)
  | messageId (id : Int) (other : String)

def PropertyFault.text : PropertyFault → String
  | .unexpected property value => s!"property {quoted property} has unexpected value ({value})"
  | .exclusive first second =>
      s!"properties {quoted first} and {quoted second} cannot be used together"
  | .semanticType type kind =>
      s!"semantic type {type.label} is not applicable to <{kind.tag}> field"
  | .minLength expected actual => s!"invalid minimal length, expected {expected}, actual {actual}"
  | .messageMinLength name expected actual =>
      s!"invalid minimal length of message {quoted name}, expected {expected}, actual {actual}"
  | .prefixKind property =>
      s!"{quoted property} must be an <int> field or have semanticType=\"length\""
  | .lengthOfType length type =>
      s!"length {length} is not applicable to type {type.label} (max {type.maxLength})"
  | .variableBits => "bitfield member cannot have variable length type"
  | .specialRange name value => s!"special {quoted name} value ({value}) is out of the type range"
  | .specialValue name other => s!"special {quoted name} has the same value as {quoted other}"
  | .outOfRange property value least greatest =>
      s!"{property} ({value}) is out of the range [{least}, {greatest}]"
  | .boundOutOfRange property value least greatest =>
      s!"{property} bound ({value}) is out of the range [{least}, {greatest}]"
  | .defaultRange value => s!"defaultValue ({value}) is out of the type range"
  | .hexAssign => "property \"hexAssign\" is applicable only to unsigned types"
  | .valueRange name value => s!"value {quoted name} ({value}) is out of the type range"
  | .valueClash name other =>
      s!"value {quoted name} has the same numeric value as {quoted other} (nonUniqueAllowed is not set)"
  | .bitIndex name index available =>
      s!"bit {quoted name} index {index} exceeds the {available} available bits"
  | .bitClash name other =>
      s!"bit {quoted name} uses the same index as {quoted other} (nonUniqueAllowed is not set)"
  | .severalLengths => "only one member may have semanticType=\"length\""
  | .longText value length => s!"value {quoted value} is longer than the fixed length {length}"
  | .longData property length => s!"{property} is longer than the fixed length {length}"
  | .elementLength =>
      "\"elemFixedLength\" cannot be true when the list element has variable length"
  | .elementPrefix =>
      "a detached element length prefix requires \"elemFixedLength\" to be set"
  | .invalidName noun name => s!"invalid {noun} name {quoted name}"
  | .unknownEndian value => s!"unknown endian {quoted value}"
  | .messageId id other => s!"message id {id} is already used by {quoted other}"

inductive MissingFault where
  | property (name element : String)
  | setStorage
  | listElement
  | optionalField

def MissingFault.text : MissingFault → String
  | .property name element =>
      s!"missing value for mandatory property {quoted name} for {quoted element} element"
  | .setStorage => "<set> requires either \"type\" or \"length\" property"
  | .listElement => "list element hasn't been provided"
  | .optionalField => "the optional field itself hasn't been provided"

inductive RepeatFault where
  | property (name element : String)
  | definition (name : String)

def RepeatFault.text : RepeatFault → String
  | .property name element =>
      s!"too many values of {quoted name} property for {quoted element} element"
  | .definition name => s!"too many definitions of {quoted name}"

inductive StructureFault where
  | valueAndText (element : String)
  | membersTwice
  | severalGroups (element : String)
  | notOneField (element : String)
  | unwrapped (element : String)
  | severalDefinitions (element : String)
  | detachedOutside (property : String)
  | noValues (name : String)
  | noMembers (kind : Kind) (name : String)
  | notInBitfield (kind : Kind)
  | root (element : String)
  | fieldGroups (element : String)
  | severalSources
  | schemaLoaded (name : String)

def StructureFault.text : StructureFault → String
  | .valueAndText element => s!"element <{element}> has both \"value\" attribute and text"
  | .membersTwice => "members must be listed either inside <members> or directly, not both"
  | .severalGroups element => s!"only one <{element}> element is allowed"
  | .notOneField element => s!"<{element}> must contain exactly one field"
  | .unwrapped element =>
      s!"the field must be wrapped in <{element}> when other property elements are present"
  | .severalDefinitions element => s!"only a single <{element}> definition is allowed"
  | .detachedOutside property =>
      s!"detached {quoted property} is only allowed for members of a <bundle> or <message>"
  | .noValues name => s!"<enum> {quoted name} must define at least one <validValue>"
  | .noMembers kind name =>
      if kind = .variant then s!"<variant> {quoted name} must contain member fields"
      else s!"<{kind.tag}> {quoted name} must have members"
  | .notInBitfield kind => s!"<{kind.tag}> cannot be a member of <bitfield>"
  | .root element => s!"root element must be <schema>, found <{element}>"
  | .fieldGroups element =>
      s!"fields of <{element}> must be listed either inside a single <fields> or directly"
  | .severalSources => "copying fields from multiple sources is not supported"
  | .schemaLoaded name => s!"schema {quoted name} has already been loaded"

inductive VersionFault where
  | sinceAboveSchema (since version : Nat)
  | sinceTooLow (since limit : Nat)
  | sinceTooHigh (since limit : Nat)
  | deprecatedTooHigh (deprecated limit : Nat)
  | emptyWindow (deprecated since : Nat)
  | deprecatedAboveSchema (deprecated version : Nat)
  | bitfieldMember (name : String)
  | noInitialMember (kind : Kind) (since : Nat)

def VersionFault.text : VersionFault → String
  | .sinceAboveSchema since version =>
      s!"sinceVersion ({since}) cannot be greater than schema version ({version})"
  | .sinceTooLow since limit => s!"sinceVersion ({since}) cannot be less than {limit}"
  | .sinceTooHigh since limit => s!"sinceVersion ({since}) must be less than {limit}"
  | .deprecatedTooHigh deprecated limit =>
      s!"deprecated ({deprecated}) cannot be greater than {limit}"
  | .emptyWindow deprecated since =>
      s!"deprecated ({deprecated}) must be greater than sinceVersion ({since})"
  | .deprecatedAboveSchema deprecated version =>
      s!"deprecated ({deprecated}) cannot be greater than schema version ({version})"
  | .bitfieldMember name =>
      s!"bitfield member {quoted name} cannot change sinceVersion or deprecated"
  | .noInitialMember kind since =>
      s!"at least one member must have the same sinceVersion ({since}) as the {kind.tag}"

inductive Fault where
  | unknownKind (tag : String)
  | naming (fault : NameFault)
  | conflictingLengths (properties : List String)
  | bits (fault : BitFault)
  | reference (fault : ReferenceFault)
  | condition (fault : ConditionFault)
  | feature (fault : FeatureFault)
  | reuseKind (source : Kind) (name : String) (target : Kind)
  | reuse (fault : ReuseFault)
  | property (fault : PropertyFault)
  | missing (fault : MissingFault)
  | repeated (fault : RepeatFault)
  | structural (fault : StructureFault)
  | version (fault : VersionFault)
  | markup (fault : Markup.Fault)
  | unreadable

def Fault.category : Fault → Category
  | .unknownKind _ => .unknownFieldKind
  | .naming _ => .duplicateMemberName
  | .conflictingLengths _ => .conflictingLengthSpec
  | .bits _ => .bitLengthExceeded
  | .reference _ => .invalidReference
  | .condition _ => .invalidCondition
  | .feature _ => .unsupportedFeature
  | .reuseKind _ _ _ => .reuseKindMismatch
  | .reuse _ => .reuseInvariantViolation
  | .property _ => .invalidProperty
  | .missing _ => .missingProperty
  | .repeated _ => .duplicateProperty
  | .structural _ => .invalidStructure
  | .version _ => .invalidVersion
  | .markup _ => .markup
  | .unreadable => .unreadable

def Fault.text : Fault → String
  | .unknownKind tag => s!"unknown field kind {quoted tag}"
  | .naming fault => fault.text
  | .conflictingLengths properties =>
      "only one of " ++ ", ".intercalate (properties.map quoted) ++ " may be specified"
  | .bits fault => fault.text
  | .reference fault => fault.text
  | .condition fault => fault.text
  | .feature fault => fault.text
  | .reuseKind source name target =>
      s!"cannot reuse <{source.tag}> {quoted name} as <{target.tag}>"
  | .reuse fault => fault.text
  | .property fault => fault.text
  | .missing fault => fault.text
  | .repeated fault => fault.text
  | .structural fault => fault.text
  | .version fault => fault.text
  | .markup fault => fault.message
  | .unreadable => "the file cannot be read"

/-- Where a fault was found: a line of the document, a place the caller named, or nowhere known. -/
inductive Place where
  | line (number : Nat)
  | named (label : String)
  | unknown
  deriving DecidableEq

structure Error where
  place : Place
  fault : Fault

def Fault.atLine (fault : Fault) (line : Nat) : Error := ⟨.line line, fault⟩

namespace Error

def ofDocument (f : Markup.DocumentFault) : Error :=
  ⟨(f.line.map Place.line).getD .unknown, .markup f.fault⟩

def category (e : Error) : Category := e.fault.category

def message (e : Error) : String :=
  let located := match e.place with
    | .line number => s!"line {number}: " ++ e.fault.text
    | .named label => label ++ ": " ++ e.fault.text
    | .unknown => e.fault.text
  e.category.title ++ ": " ++ located

end Error

end WireSchema
