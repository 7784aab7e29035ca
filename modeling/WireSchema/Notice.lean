import WireSchema.Fault

/-!
What is recorded while schemas are loaded: progress, warnings about what is ignored, and errors.
-/

namespace WireSchema

open Text (quoted)

inductive Level where
  | debug
  | info
  | warning
  | error
  deriving DecidableEq

inductive Warning where
  | unsupportedProperty (name : String) (dsl : Nat)
  | unsupportedHere (name : String)
  | deprecatedProperty (name : String)
  | globalProperty (name : String)
  | removedWithoutDeprecation (noun : String)
  | codeWithoutReuse
  | unknownAttribute (name element : String)
  | unknownChild (name element : String)
  | unknownElement (name : String)
  | replaceUnsupported (dsl : Nat)
  | messageReplaceUnsupported
  | messageReuseUnsupported (dsl : Nat)
  | bitLengthOutside
  | overlappingRanges (name : String)
  | validValuesUnsupported (kind : Kind) (dsl : Nat)
  | validConditionUnsupported (dsl : Nat)
  | conditionOutside

def Warning.message : Warning → String
  | .unsupportedProperty name dsl =>
      s!"Property {quoted name} is not supported for DSL version {dsl}, ignored."
  | .unsupportedHere name =>
      s!"Property {quoted name} is not supported for this DSL version, ignored."
  | .deprecatedProperty name => s!"Property {quoted name} is deprecated."
  | .globalProperty name =>
      s!"Property {quoted name} is not applicable to a global field, ignored."
  | .removedWithoutDeprecation noun =>
      s!"Property \"removed\" is ignored for a {noun} that is not deprecated."
  | .codeWithoutReuse => "Property \"reuseCode\" is ignored without \"reuse\"."
  | .unknownAttribute name element => s!"Unknown attribute {quoted name} of <{element}>."
  | .unknownChild name element => s!"Unknown element <{name}> inside <{element}>."
  | .unknownElement name => s!"Unknown element <{name}>, ignored."
  | .replaceUnsupported dsl => s!"<replace> is not supported for DSL version {dsl}, ignored."
  | .messageReplaceUnsupported => "<replace> is not supported for this DSL version, ignored."
  | .messageReuseUnsupported dsl =>
      s!"Property \"reuse\" is not supported for <message> in DSL version {dsl}, ignored."
  | .bitLengthOutside =>
      "Property \"bitLength\" is only applicable to <bitfield> members, ignored."
  | .overlappingRanges name => s!"Some valid values ranges of {quoted name} are intersecting."
  | .validValuesUnsupported kind dsl =>
      s!"Valid values of <{kind.tag}> are not supported for DSL version {dsl}, ignored."
  | .validConditionUnsupported dsl =>
      s!"Validity conditions of composite fields are not supported for DSL version {dsl}, ignored."
  | .conditionOutside => "Existence conditions only apply to members of <bundle> and <message>."

inductive Notice where
  | fieldBuilt (kind : Kind) (name : String)
  | interfaceBuilt (name : String)
  | messageBuilt (name : String) (id : Int)
  | elementSkipped (name : String)
  | schemaLoaded (name : String) (fields interfaces messages : Nat)
  | warning (warning : Warning)
  | failure (error : Error)

namespace Notice

def level : Notice → Level
  | .fieldBuilt _ _ | .interfaceBuilt _ | .messageBuilt _ _ | .elementSkipped _ => .debug
  | .schemaLoaded _ _ _ _ => .info
  | .warning _ => .warning
  | .failure _ => .error

def message : Notice → String
  | .fieldBuilt kind name => s!"{kind.tag} {quoted name} built"
  | .interfaceBuilt name => s!"interface {quoted name} built"
  | .messageBuilt name id => s!"message {quoted name} ({id}) built"
  | .elementSkipped name => s!"<{name}> is not processed"
  | .schemaLoaded name fields interfaces messages =>
      s!"schema {quoted name}: {fields} fields, {interfaces} interfaces, {messages} messages"
  | .warning w => w.message
  | .failure e => e.message

end Notice

structure Diagnostic where
  line : Option Nat
  notice : Notice

namespace Diagnostic

def level (d : Diagnostic) : Level := d.notice.level
def message (d : Diagnostic) : String := d.notice.message

def warning (line : Nat) (w : Warning) : Diagnostic := ⟨some line, .warning w⟩

def isError (d : Diagnostic) : Bool := d.level == .error

end Diagnostic

end WireSchema
