import WireSchema.Context
import WireSchema.Field.Value

/-!
Which values and fields can stand on the two sides of a comparison. References and optionals
compare as the fields behind them.
-/

namespace WireSchema

/-- The literal, as a value of this storage: only the largest unsigned types go beyond the signed
words. -/
def IntType.literal? (type : Option IntType) (s : String) : Option Int :=
  let bounded := !(type.getD .int64).isBigUnsigned
  (Literal.integer? s).filter fun n => !(bounded && decide (Literal.greatestSigned < n))

def IntSpec.read? (spec : IntSpec) (s : String) : Option Int :=
  match spec.special? s with
  | some special => some special.value
  | none => IntType.literal? spec.storage.type s

def FloatSpec.read? (spec : FloatSpec) (s : String) : Option Double :=
  match spec.special? s with
  | some special => some special.value
  | none => Literal.real? s

def EnumSpec.read? (spec : EnumSpec) (s : String) : Option Int :=
  match spec.value? s with
  | some value => some value.value
  | none => IntType.literal? spec.storage.type s

namespace Field

/-- A version or a length compares only with numbers and names of them. -/
def refusesText (f : Field) (value : String) : Bool :=
  (f.semanticType == .version || f.semanticType == .length) &&
    (Literal.integer? value).isNone && (f.numeric? value).isNone

def comparesToValue (value : String) : Field → Bool
  | ⟨profile, payload⟩ =>
      !refusesText ⟨profile, payload⟩ value &&
        match payload with
        | .int spec => (spec.read? value).isSome
        | .float spec => (spec.read? value).isSome
        | .enum spec => (spec.read? value).isSome
        | .set _ => (Literal.integer? value).any fun n => decide (0 ≤ n)
        | .string _ => !Text.startsWith '^' value
        | .data _ => !Text.startsWith '^' value && (Literal.bytes? value).isSome
        | .ref ⟨some ⟨_, _, target⟩, _⟩ => comparesToValue value target
        | .optional ⟨some (.inline inner), _, _, _, _⟩ => comparesToValue value inner
        | .optional ⟨some (.external ⟨_, _, inner⟩), _, _, _, _⟩ => comparesToValue value inner
        | _ => false

end Field

/-- Kinds whose values compare: a scalar with its own kind, integers with enumerations, and real
numbers with both on the right. -/
def Kind.comparesTo (a b : Kind) : Bool :=
  if a = b then
    match a with
    | .bundle | .bitfield | .list | .variant => false
    | _ => true
  else match a, b with
    | .int, .enum | .enum, .int => true
    | .float, .int | .float, .enum => true
    | _, _ => false

namespace Field

/-- Step through references and optionals and test the kind behind them. An empty optional passes no
test. -/
def kindPasses (test : Kind → Bool) : Field → Bool
  | ⟨_, .ref ⟨some ⟨_, _, target⟩, _⟩⟩ => kindPasses test target
  | ⟨_, .optional ⟨some (.inline inner), _, _, _, _⟩⟩ => kindPasses test inner
  | ⟨_, .optional ⟨some (.external ⟨_, _, inner⟩), _, _, _, _⟩⟩ => kindPasses test inner
  | ⟨_, .optional ⟨none, _, _, _, _⟩⟩ => false
  | f => test f.kind

def comparesTo (a b : Field) : Bool :=
  a.kindPasses fun kind => b.kindPasses kind.comparesTo

def allowsSemanticType (ctx : Context) (type : SemanticType) : Field → Bool
  | ⟨_, payload⟩ =>
      match type, payload with
      | .none, _ => true
      | .version, .int _ => true
      | .length, .int _ => ctx.supports .semanticTypeLength
      | .messageId, .enum _ => true
      | _, .ref ⟨some ⟨_, _, target⟩, _⟩ => allowsSemanticType ctx type target
      | .length, .bundle _ | .length, .variant _ | .length, .optional _ =>
          ctx.supports .nonIntSemanticLength
      | _, _ => false

end Field

end WireSchema
