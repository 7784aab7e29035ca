import WireSchema.Context
import WireSchema.Field.Footprint

/-!
Messages and schemas, the outermost parts of a protocol.
-/

namespace WireSchema

structure Message where
  name : String := ""
  qualifiedName : String := ""
  displayName : String := ""
  description : String := ""
  id : Int := 0
  window : Window := Window.always
  removed : Bool := false
  fields : List Field := []
  reusedFrom : Option String := none
  copyCodeFrom : Option String := none
  line : Nat := 0

namespace Message

def field? (m : Message) (name : String) : Option Field := Field.named? m.fields name

def minLength (m : Message) : Nat := Length.sum (m.fields.map Field.minLength)

def maxLength (m : Message) : Nat := Length.sum (m.fields.map Field.maxLength)

end Message

structure Schema where
  context : Context
  interfaces : List Interface := []
  messages : List Message := []
  /-- Qualified names, in the order they appear. -/
  namespaces : List String := []

namespace Schema

def name (s : Schema) : String := s.context.name

def message? (s : Schema) (qualifiedName : String) : Option Message :=
  s.messages.find? fun m => m.qualifiedName == qualifiedName

def interface? (s : Schema) (qualifiedName : String) : Option Interface :=
  s.interfaces.find? fun i => i.qualifiedName == qualifiedName

end Schema

end WireSchema
