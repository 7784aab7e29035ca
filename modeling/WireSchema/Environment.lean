import WireSchema.Context
import WireSchema.Registry

/-!
What surrounds a field while it is built: the settings of the schema, the registered fields and
the interfaces, and the construct directly around it.
-/

namespace WireSchema

structure Environment where
  context : Context
  registry : Registry
  interfaces : List Interface := []

namespace Environment

def find? (env : Environment) (ref : String) : Option (Handle Field) :=
  env.registry.find? env.context.name ref

def supports (env : Environment) (feature : Feature) : Bool :=
  env.context.supports feature

def dsl (env : Environment) : Nat := env.context.dslVersion

def readsReferences (env : Environment) (ref : String) : Bool :=
  env.supports .valueReference && ExternalName.isWritten ref

def numeric? (env : Environment) (ref : String) : Option Int :=
  if env.readsReferences ref then env.registry.numeric? env.context.name ref else none

def real? (env : Environment) (ref : String) : Option Double :=
  if env.readsReferences ref then env.registry.real? env.context.name ref else none

def bool? (env : Environment) (ref : String) : Option Bool :=
  if env.readsReferences ref then env.registry.bool? env.context.name ref else none

end Environment

inductive ParentKind where
  | ns
  | interface
  | message
  | field (kind : Kind)
  deriving DecidableEq

structure Parent where
  kind : ParentKind
  window : Window := Window.always

namespace Parent

def isVersioned (p : Parent) : Bool :=
  match p.kind with
  | .field _ | .message => true
  | _ => false

def isBitfield (p : Parent) : Bool := p.kind == .field .bitfield

def isBundleOrMessage (p : Parent) : Bool :=
  p.kind == .message || p.kind == .field .bundle

end Parent

end WireSchema
