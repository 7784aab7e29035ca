import WireSchema.Field

/-!
Values by path. A path leads through members, the fields behind references and those inside
optionals to a field that holds values; what is left of the path names one of them, and nothing
left asks for the default.
-/

namespace WireSchema

def IntSpec.valueAt? (spec : IntSpec) (path : String) : Option Int :=
  if path = "" then some spec.defaultValue else (spec.special? path).map (·.value)

def EnumSpec.valueAt? (spec : EnumSpec) (path : String) : Option Int :=
  if path = "" then some spec.defaultValue else (spec.value? path).map (·.value)

def SetSpec.valueAt? (spec : SetSpec) (path : String) : Option Bool :=
  if path = "" then some spec.defaultValue else (spec.bit? path).map (·.defaultValue)

def FloatSpec.valueAt? (spec : FloatSpec) (path : String) : Option Double :=
  if path = "" then some spec.defaultValue else (spec.special? path).map (·.value)

def IntSpec.scale (spec : IntSpec) (n : Int) : Double :=
  ((Double.ofInt n).mul (Double.ofInt spec.scaling.1)).div (Double.ofInt spec.scaling.2)

namespace Field

mutual
def holder? : Field → String → Option (Field × String)
  | ⟨profile, .bitfield ⟨endian, members, condition⟩⟩, path =>
      if path ≠ "" then
        memberHolder? members (Text.firstSegment path).1 (Text.firstSegment path).2
      else some (⟨profile, .bitfield ⟨endian, members, condition⟩⟩, path)
  | ⟨profile, .bundle ⟨members, aliases, condition⟩⟩, path =>
      if path ≠ "" then
        memberHolder? members (Text.firstSegment path).1 (Text.firstSegment path).2
      else some (⟨profile, .bundle ⟨members, aliases, condition⟩⟩, path)
  | ⟨profile, .variant ⟨members, chosen⟩⟩, path =>
      if path ≠ "" then
        memberHolder? members (Text.firstSegment path).1 (Text.firstSegment path).2
      else some (⟨profile, .variant ⟨members, chosen⟩⟩, path)
  | ⟨_, .ref ⟨some ⟨_, _, target⟩, _⟩⟩, path => holder? target path
  | ⟨_, .ref ⟨none, _⟩⟩, _ => none
  | ⟨_, .optional ⟨some (.inline inner), _, _, _, _⟩⟩, path =>
      if path ≠ "" && (Text.firstSegment path).1 == inner.name then
        holder? inner (Text.firstSegment path).2
      else none
  | ⟨_, .optional ⟨some (.external ⟨_, _, inner⟩), _, _, _, _⟩⟩, path =>
      if path ≠ "" && (Text.firstSegment path).1 == inner.name then
        holder? inner (Text.firstSegment path).2
      else none
  | ⟨_, .optional ⟨none, _, _, _, _⟩⟩, _ => none
  | f, path => some (f, path)

def memberHolder? : List Field → String → String → Option (Field × String)
  | [], _, _ => none
  | member :: others, first, rest =>
      if member.name == first then holder? member rest else memberHolder? others first rest
end

/-- The integer a field itself holds under a name. A set bit counts as one, and a real number only
if it is whole, kept within 128 bits. -/
def ownNumeric? (f : Field) (path : String) : Option Int :=
  match f.payload with
  | .int spec => spec.valueAt? path
  | .enum spec => spec.valueAt? path
  | .set spec => (spec.valueAt? path).map fun b => if b then 1 else 0
  | .float spec =>
      (spec.valueAt? path).bind fun x =>
        x.toInt?.map fun n => max (-Nat.pow 2 127) (min n (Nat.pow 2 127 - 1))
  | _ => none

def ownReal? (f : Field) (path : String) : Option Double :=
  match f.payload with
  | .float spec => spec.valueAt? path
  | .int spec => (spec.valueAt? path).map spec.scale
  | .enum spec => (spec.valueAt? path).map Double.ofInt
  | _ => none

def ownBool? (f : Field) (path : String) : Option Bool :=
  match f.payload with
  | .set spec => spec.valueAt? path
  | .int spec => (spec.valueAt? path).map (· != 0)
  | .enum spec => (spec.valueAt? path).map (· != 0)
  | _ => none

def ownText? (f : Field) (path : String) : Option String :=
  match f.payload with
  | .string spec => if path = "" then some spec.defaultValue else none
  | _ => none

def ownData? (f : Field) (path : String) : Option (List UInt8) :=
  match f.payload with
  | .data spec => if path = "" then some spec.defaultValue else none
  | _ => none

def numeric? (f : Field) (path : String) : Option Int :=
  (f.holder? path).bind fun (g, rest) => g.ownNumeric? rest

def real? (f : Field) (path : String) : Option Double :=
  (f.holder? path).bind fun (g, rest) => g.ownReal? rest

def bool? (f : Field) (path : String) : Option Bool :=
  (f.holder? path).bind fun (g, rest) => g.ownBool? rest

def text? (f : Field) (path : String) : Option String :=
  (f.holder? path).bind fun (g, rest) => g.ownText? rest

def data? (f : Field) (path : String) : Option (List UInt8) :=
  (f.holder? path).bind fun (g, rest) => g.ownData? rest

end Field

end WireSchema
