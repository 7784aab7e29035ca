import WireSchema.Field

/-!
Fields by path. A path names a field among siblings, then members inside it; references and
optionals on the way are stepped through. It may end at a named value of the field it reached. A
mark on the path asks for the size or the existence of the field instead.
-/

namespace WireSchema

inductive TargetKind where
  | field
  | innerValue
  | size
  | existence
  | invalid
  deriving DecidableEq

inductive Target where
  | field (f : Field)
  | innerValue (f : Field) (name : String)
  | size (f : Field)
  | existence (f : Field)
  | invalid

namespace Target

def kind : Target → TargetKind
  | .field _ => .field
  | .innerValue _ _ => .innerValue
  | .size _ => .size
  | .existence _ => .existence
  | .invalid => .invalid

def field? : Target → Option Field
  | .field f | .innerValue f _ | .size f | .existence f => some f
  | .invalid => none

def valueName? : Target → Option String
  | .innerValue _ name => some name
  | _ => none

def isValid (t : Target) : Bool := t.field?.isSome

end Target

namespace Field

def hasValue (f : Field) (name : String) : Bool :=
  match f.payload with
  | .int spec => (spec.special? name).isSome
  | .float spec => (spec.special? name).isSome
  | .enum spec => (spec.value? name).isSome
  | .set spec => (spec.bit? name).isSome
  | _ => false

mutual
/-- What the rest of a path designates once `f` has been reached. -/
def inner : Field → String → Target
  | ⟨profile, .bitfield ⟨endian, members, condition⟩⟩, path =>
      if path = "" then .field ⟨profile, .bitfield ⟨endian, members, condition⟩⟩
      else innerMember members (Text.firstSegment path).1 (Text.firstSegment path).2
  | ⟨profile, .bundle ⟨members, aliases, condition⟩⟩, path =>
      if path = "" then .field ⟨profile, .bundle ⟨members, aliases, condition⟩⟩
      else innerMember members (Text.firstSegment path).1 (Text.firstSegment path).2
  | ⟨profile, .variant ⟨members, chosen⟩⟩, path =>
      if path = "" then .field ⟨profile, .variant ⟨members, chosen⟩⟩
      else innerMember members (Text.firstSegment path).1 (Text.firstSegment path).2
  | ⟨profile, .ref ⟨some ⟨id, ref, target⟩, bitLength⟩⟩, path =>
      if path = "" then .field ⟨profile, .ref ⟨some ⟨id, ref, target⟩, bitLength⟩⟩
      else inner target path
  | ⟨profile, .optional ⟨some (.inline field), mode, condition, onRead, onInvalid⟩⟩, path =>
      if path = "" then
        .field ⟨profile, .optional ⟨some (.inline field), mode, condition, onRead, onInvalid⟩⟩
      else if (Text.firstSegment path).1 == field.name then
        inner field (Text.firstSegment path).2
      else .invalid
  | ⟨profile, .optional ⟨some (.external ⟨id, ref, field⟩), mode, condition, onRead, onInvalid⟩⟩,
      path =>
      if path = "" then
        .field ⟨profile,
          .optional ⟨some (.external ⟨id, ref, field⟩), mode, condition, onRead, onInvalid⟩⟩
      else if (Text.firstSegment path).1 == field.name then
        inner field (Text.firstSegment path).2
      else .invalid
  | f, path =>
      if path = "" then .field f
      else if f.hasValue path then .innerValue f path
      else .invalid

def innerMember : List Field → String → String → Target
  | [], _, _ => .invalid
  | member :: others, first, rest =>
      if member.name == first then inner member rest else innerMember others first rest
end

/-- The field may be the end of a path that asks for this. Existence can be asked of what came
with or went in some version, and of optionals. -/
def admits (asked : TargetKind) : Field → Bool
  | ⟨profile, payload⟩ =>
      match asked with
      | .invalid => false
      | .field => true
      | _ =>
          if asked == .existence && (0 < profile.window.since || profile.window.isDeprecated) then true
          else match payload with
            | .int _ | .float _ | .enum _ | .set _ => asked == .innerValue
            | .string _ | .data _ | .list _ => asked == .size
            | .optional _ => asked == .existence
            | .ref ⟨some ⟨_, _, target⟩, _⟩ => admits asked target
            | _ => false

end Field

namespace Target

def ask (t : Target) : Query → Target
  | .value => t
  | .size => match t with
    | .field f => if f.admits .size then .size f else .invalid
    | _ => .invalid
  | .existence => match t with
    | .field f => if f.admits .existence then .existence f else .invalid
    | _ => .invalid

end Target

namespace Field

def resolveMarked (siblings : List Field) (p : MarkedPath) : Target :=
  (innerMember siblings (Text.firstSegment p.path).1 (Text.firstSegment p.path).2).ask p.query

def resolve (siblings : List Field) (source : String) : Target :=
  match MarkedPath.read source with
  | .ok p => resolveMarked siblings p
  | .error _ => .invalid

end Field

namespace Interface

def resolve (interfaces : List Interface) (source : String) : List Target :=
  (interfaces.map fun i => Field.resolve i.fields source).filter Target.isValid

end Interface

/-- All that an operand designates: at most one thing among siblings, one in each interface. -/
def Operand.targets (o : Operand) (siblings : List Field) (interfaces : List Interface) :
    List Target :=
  match o.scope with
  | .sibling => [Field.resolve siblings o.marked.text].filter Target.isValid
  | .interface => Interface.resolve interfaces o.marked.text

end WireSchema
