import WireSchema.Field.Value

/-!
The registry of top-level fields. It only grows: an entry's position is its id, and its schema
and qualified name are its key.
-/

namespace WireSchema

structure Entry where
  schema : String
  name : String
  field : Field

def Entry.hasKey (e : Entry) (schema name : String) : Bool :=
  e.schema == schema && e.name == name

structure Registry where
  entries : List Entry := []

namespace Registry

def size (r : Registry) : Nat := r.entries.length

def get? (r : Registry) (id : Nat) : Option Field :=
  (r.entries[id]?).map (·.field)

def id? (r : Registry) (schema name : String) : Option Nat :=
  r.entries.findIdx? fun e => e.hasKey schema name

def insert (r : Registry) (schema name : String) (field : Field) : Except Error Registry :=
  match r.id? schema name with
  | some _ => .error ((Fault.naming (.alreadyDefined "field" name)).atLine field.line)
  | none => .ok ⟨r.entries ++ [⟨schema, name, field⟩]⟩

def fieldsOf (r : Registry) (schema : String) : List (String × Field) :=
  (r.entries.filter fun e => e.schema == schema).map fun e => (e.name, e.field)

def handle? (r : Registry) (schema name ref : String) : Option (Handle Field) :=
  match r.id? schema name with
  | some id => (r.get? id).map fun field => ⟨id, ref, field⟩
  | none => none

/-- The field of an external name; without a schema of its own it is one of `current`. -/
def find? (r : Registry) (current ref : String) : Option (Handle Field) :=
  match ExternalName.read? ref with
  | some name => r.handle? (name.schema.getD current) name.path ref
  | none => none

/-- The registered field with the longest name made of leading segments, and the path left over.
The leading segments come last one first. -/
def splitAt? (r : Registry) (schema : String) : List String → List String → Option (Field × String)
  | [], _ => none
  | last :: front, rest =>
      let name := ".".intercalate (last :: front).reverse
      match r.handle? schema name name with
      | some handle => some (handle.target, ".".intercalate rest)
      | none => splitAt? r schema front (last :: rest)

def valueHolder? (r : Registry) (current ref : String) : Option (Field × String) :=
  match ExternalName.read? ref with
  | some name =>
      r.splitAt? (name.schema.getD current) (Name.segments name.path).reverse []
  | none => none

def numeric? (r : Registry) (current ref : String) : Option Int :=
  (r.valueHolder? current ref).bind fun (f, path) => f.numeric? path

def real? (r : Registry) (current ref : String) : Option Double :=
  (r.valueHolder? current ref).bind fun (f, path) => f.real? path

def bool? (r : Registry) (current ref : String) : Option Bool :=
  (r.valueHolder? current ref).bind fun (f, path) => f.bool? path

def text? (r : Registry) (current ref : String) : Option String :=
  (r.valueHolder? current ref).bind fun (f, path) => f.text? path

def data? (r : Registry) (current ref : String) : Option (List UInt8) :=
  (r.valueHolder? current ref).bind fun (f, path) => f.data? path

end Registry

end WireSchema
