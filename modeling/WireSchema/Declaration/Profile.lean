import WireSchema.Declaration

/-!
The attributes that every kind of field has.
-/

namespace WireSchema

namespace Declaration

def text (d : Declaration) (name current : String) : Except Error String := do
  .ok ((← d.prop name).getD current)

def readWindow (d : Declaration) (current : Window) : Build Window :=
  if d.parent.isVersioned then
    d.context.readWindow d.node d.props d.parent.window
  else do
    -- A global field has no window of its own.
    Build.warnEach d.line
      ((["sinceVersion", "deprecated", "removed"].filter d.has).map Warning.globalProperty)
    return current

def readRemoved (d : Declaration) (window : Window) (current : Bool) : Build Bool := do
  if !d.parent.isVersioned then return current
  match ← d.boolProp "removed" with
  | none => return current
  | some removed =>
      if removed && !window.isDeprecated then
        d.warn (.removedWithoutDeprecation "field")
        return current
      else return removed

def readOverride (d : Declaration) (name : String) (current : OverridePolicy) :
    Build OverridePolicy := do
  if ← d.gated name then
    let v ← d.required name
    d.accept name v (OverridePolicy.ofText? v)
  else return current

def readOverrides (d : Declaration) (o : Overrides) : Build Overrides := do
  let value ← d.readOverride "valueOverride" o.value
  let read ← d.readOverride "readOverride" o.read
  let write ← d.readOverride "writeOverride" o.write
  let refresh ← d.readOverride "refreshOverride" o.refresh
  let length ← d.readOverride "lengthOverride" o.length
  let valid ← d.readOverride "validOverride" o.valid
  let name ← d.readOverride "nameOverride" o.name
  return { value, read, write, refresh, length, valid, name }

def readCopySource (d : Declaration) : Build (Option String) := do
  if ← d.gated "copyCodeFrom" then
    let v ← d.required "copyCodeFrom"
    match d.env.find? v with
    | some _ => return some v
    | none => d.abort (.reference (.propertyUnknown v "copyCodeFrom"))
  else return none

/-- Code is copied from the named field, or with `reuseCode` from the reused one. -/
def readCodeSource (d : Declaration) (c : Profile) : Build (Option String) := do
  let source ← d.readCopySource
  if ← d.gatedFlag "reuseCode" false then
    if source.isSome then
      d.abort (.property (.exclusive "reuseCode" "copyCodeFrom"))
    match c.reusedFrom with
    | some reused => return some reused
    | none =>
        d.warn .codeWithoutReuse
        return c.copyCodeFrom
  else return source.or c.copyCodeFrom

def readProfile (d : Declaration) (c : Profile) : Build Profile := do
  let name ← d.text "name" c.name
  let displayName ← d.text "displayName" c.displayName
  let description ← d.text "description" c.description
  let window ← d.readWindow c.window
  let removed ← d.readRemoved window c.removed
  let semanticType := (← d.propAs "semanticType" SemanticType.ofText?).getD c.semanticType
  let pseudo ← d.flag "pseudo" c.pseudo
  let customizable ← d.flag "customizable" c.customizable
  let failOnInvalid ← d.flag "failOnInvalid" c.failOnInvalid
  let forceGen ← d.flag "forceGen" c.forceGen
  let fixedValue ← d.gatedFlag "fixedValue" c.fixedValue
  d.warnDeprecated "displayReadOnly"
  let displayReadOnly ← d.flag "displayReadOnly" c.displayReadOnly
  d.warnDeprecated "displayHidden"
  let displayHidden ← d.flag "displayHidden" c.displayHidden
  let overrides ← d.readOverrides c.overrides
  let copyCodeFrom ← d.readCodeSource c
  let validateMinLength ←
    if ← d.gated "validateMinLength" then d.natProp "validateMinLength"
    else pure c.validateMinLength
  return { c with
    name, displayName, description, semanticType, window, removed, pseudo, fixedValue,
    customizable, failOnInvalid, forceGen, displayReadOnly, displayHidden, overrides,
    copyCodeFrom, validateMinLength }

end Declaration

end WireSchema
