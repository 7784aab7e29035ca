import WireSchema.Condition.Verify
import WireSchema.Declaration.Parts

/-!
What a field asks of the fields next to it: detached prefixes and conditions must lead to them.
-/

namespace WireSchema

namespace Repetition

def lead? : Repetition Field → Option (Prefix Field)
  | .countPrefix lead => some lead
  | .lengthPrefix lead => some lead
  | _ => none

def verify (siblings : List Field) (line : Nat) (repetition : Repetition Field)
    (elementPrefix : Option (Prefix Field)) : Except Error Unit := do
  Field.verifyDetached siblings line repetition.lead?
  Field.verifyDetached siblings line elementPrefix
  match repetition with
  | .termSuffix tail => Field.verifyTerminator siblings line tail
  | _ => .ok ()

end Repetition

namespace Field

def verifySiblings (siblings : List Field) (env : Environment) (f : Field) : Except Error Unit :=
  match f.payload with
  | .string spec => verifyDetached siblings f.line spec.delimiter.lead?
  | .data spec => verifyDetached siblings f.line spec.delimiter.lead?
  | .list spec => spec.repetition.verify siblings f.line spec.elementPrefix
  | .optional spec =>
      match spec.condition with
      | some condition => condition.verify siblings env (.line f.line)
      | none => .ok ()
  | _ => .ok ()

def verifyAll (siblings : List Field) (env : Environment) : List Field → Except Error Unit
  | [] => .ok ()
  | f :: rest => do
      f.verifySiblings siblings env
      verifyAll siblings env rest

end Field

end WireSchema
