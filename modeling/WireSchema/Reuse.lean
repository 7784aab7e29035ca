import WireSchema.Field

/-!
Reuse: a field starts as a copy of a registered one of its kind, and members of the copy can be
replaced by name.
-/

namespace WireSchema

namespace Field

/-- A copy of `source` in place of `target`. It keeps its own line, and its name, window and origin
are open again. -/
def reuse (target source : Field) : Except Error Field :=
  if target.kind = source.kind then
    .ok { source with
      profile := { source.profile with
        name := ""
        line := target.line
        window := Window.always
        removed := false
        copyCodeFrom := none
        reusedFrom := none } }
  else .error ((Fault.reuseKind source.kind source.name target.kind).atLine target.line)

def reuseCode (f : Field) (ref : String) : Field :=
  { f with profile := { f.profile with copyCodeFrom := some ref } }

def isGoneBy (since : Nat) (f : Field) : Bool :=
  f.profile.isDeprecatedRemoved && f.window.deprecated ≤ since

def liftTo (since : Nat) (f : Field) : Field :=
  f.withWindow { f.window with since := max f.window.since since }

/-- Inherited members: those that are gone by `since` are left out, the others start no earlier. -/
def adopt (since : Nat) (members : List Field) : List Field :=
  (members.filter fun m => !m.isGoneBy since).map (liftTo since)

def replaceFirst (replacement : Field) : List Field → List Field
  | [] => []
  | m :: rest =>
      if m.name == replacement.name then replacement :: rest
      else m :: replaceFirst replacement rest

def replaceMember (place : Place) (members : List Field) (replacement : Field) :
    Except Error (List Field) :=
  match named? members replacement.name with
  | none => .error ⟨place, .reuse (.replacesNothing replacement.name replacement.line)⟩
  | some old =>
      -- A replacement may change everything but the window.
      if old.window = replacement.window then .ok (replaceFirst replacement members)
      else .error ⟨place, .reuse (.windowChanged replacement.name
        old.window.since old.window.deprecated
        replacement.window.since replacement.window.deprecated replacement.line)⟩

def replaceMembers (place : Place) : List Field → List Field → Except Error (List Field)
  | members, [] => .ok members
  | members, replacement :: rest => do
      let changed ← replaceMember place members replacement
      replaceMembers place changed rest

end Field

def Kind.checkNoNewMembers (kind : Kind) (added : Nat) (place : Place) : Except Error Unit :=
  if added = 0 then .ok () else .error ⟨place, .reuse (.membersAdded added kind)⟩

end WireSchema
