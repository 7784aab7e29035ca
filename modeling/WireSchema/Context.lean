import WireSchema.Literal
import WireSchema.Properties
import WireSchema.Window

/-!
The settings of a schema document: what its DSL version has, and which version windows fit.
-/

namespace WireSchema

open Markup (Node)

inductive Feature where
  | valueReference
  | semanticTypeLength
  | nonUniqueSpecials
  | alias
  | overriding
  | nonIntSemanticLength
  | memberReplace
  | multiSchema
  | interfaceRef
  | sizeCompInCond
  | existsCheckInCond
  | validValueInStringData
  | validCondInComposite
  | messageReuse
  deriving DecidableEq

def Feature.minDslVersion : Feature → Nat
  | .valueReference | .semanticTypeLength | .nonUniqueSpecials => 2
  | .alias => 3
  | .overriding => 4
  | .nonIntSemanticLength | .memberReplace | .multiSchema => 5
  | .interfaceRef | .sizeCompInCond | .existsCheckInCond => 6
  | .validValueInStringData | .validCondInComposite | .messageReuse => 7

structure Context where
  name : String := ""
  /-- Zero stands for the newest one. -/
  dslVersion : Nat := 0
  version : Nat := 0
  endian : Endian := .little
  nonUniqueMessageIds : Bool := false
  description : String := ""

namespace Context

def reaches (ctx : Context) (dsl : Nat) : Bool :=
  ctx.dslVersion == 0 || dsl ≤ ctx.dslVersion

def supports (ctx : Context) (feature : Feature) : Bool :=
  ctx.reaches feature.minDslVersion

def propertySince (property : String) : Nat :=
  match property with
  | "validateMinLength" | "defaultValidValue" | "availableLengthLimit" => 4
  | "valueOverride" | "readOverride" | "writeOverride" | "refreshOverride"
  | "lengthOverride" | "validOverride" | "nameOverride" => 4
  | "copyCodeFrom" | "termSuffix" | "missingOnReadFail" | "missingOnInvalid" | "reuseCode" => 5
  | "validCond" | "copyValidCondFrom" => 6
  | "fixedValue" => 7
  | _ => 0

def supportsProperty (ctx : Context) (property : String) : Bool :=
  ctx.reaches (propertySince property)

def deprecatesProperty (ctx : Context) (property : String) : Bool :=
  match property with
  | "displayReadOnly" | "displayHidden" | "displaySpecials" => ctx.reaches 7
  | _ => false

/-- What a window inside `outer` has to satisfy; the first condition that fails is reported. -/
def checkWindow (ctx : Context) (line : Nat) (w outer : Window) : Except Error Unit :=
  let fail (fault : VersionFault) : Except Error Unit := .error ((Fault.version fault).atLine line)
  if ctx.version < w.since then fail (.sinceAboveSchema w.since ctx.version)
  else if w.since < outer.since then fail (.sinceTooLow w.since outer.since)
  else if outer.deprecated ≤ w.since then fail (.sinceTooHigh w.since outer.deprecated)
  else if outer.deprecated < w.deprecated then
    fail (.deprecatedTooHigh w.deprecated outer.deprecated)
  else if w.deprecated ≤ w.since then fail (.emptyWindow w.deprecated w.since)
  else if w.deprecated < never ∧ ctx.version < w.deprecated then
    fail (.deprecatedAboveSchema w.deprecated ctx.version)
  else .ok ()

def readVersion (node : Node) (props : Properties) (property : String) (default : Nat) :
    Except Error Nat := do
  match ← props.single node property with
  | none => .ok default
  | some v =>
      match Literal.version? v with
      | some n => .ok n
      | none => .error ((Fault.property (.unexpected property v)).atLine node.line)

/-- The window an element declares; what it leaves out is taken from `outer`. -/
def readWindow (ctx : Context) (node : Node) (props : Properties) (outer : Window) :
    Except Error Window := do
  let since ← readVersion node props "sinceVersion" outer.since
  let deprecated ← readVersion node props "deprecated" outer.deprecated
  ctx.checkWindow node.line ⟨since, deprecated⟩ outer
  .ok ⟨since, deprecated⟩

end Context

end WireSchema
