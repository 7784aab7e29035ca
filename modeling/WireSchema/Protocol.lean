import WireSchema.Markup.Document
import WireSchema.Schema.Interface
import WireSchema.Schema.Message

/-!
A protocol: schemas loaded one after another over one registry of fields, and the diagnostics of
all loads. Each document is taken in three passes, its fields, its interfaces and its messages,
so messages may refer to any field and interface wherever they stand.
-/

namespace WireSchema

open Markup (Node)

structure Protocol where
  schemas : List Schema := []
  registry : Registry := {}
  log : List Diagnostic := []

/-- The state of the first pass: what is registered, what was recorded, and the first failure. -/
structure Registration where
  registry : Registry
  log : List Diagnostic := []
  failure : Option Error := none

namespace Registration

def fail (r : Registration) (e : Error) : Registration :=
  match r.failure with
  | none => { r with failure := some e }
  -- The first failure is withheld until all fields had their turn.
  | some _ => { r with log := r.log ++ [⟨none, .failure e⟩] }

/-- Build and register one field. A field that fails does not keep the others from their turn. -/
def add (ctx : Context) (r : Registration) (placed : Placed) : Registration :=
  let built := Field.ofNode { context := ctx, registry := r.registry } placed.node
    ⟨.ns, Window.always⟩
  let r := { r with log := r.log ++ built.log }
  match built.outcome with
  | .error e => r.fail e
  | .ok field =>
      match r.registry.insert ctx.name (Name.qualify placed.ns field.name) field with
      | .error e => r.fail e
      | .ok registry => { r with registry }

def addAll (ctx : Context) (r : Registration) (nodes : List Placed) : Registration :=
  nodes.foldl (add ctx) r

end Registration

namespace Protocol

def schema? (p : Protocol) (name : String) : Option Schema :=
  p.schemas.find? fun s => s.name == name

def current? (p : Protocol) : Option Schema := p.schemas.getLast?

def find? (p : Protocol) (ref : String) : Option (Handle Field) :=
  p.current?.bind fun s => p.registry.find? s.name ref

def field? (p : Protocol) (ref : String) : Option Field :=
  (p.find? ref).bind fun handle => p.registry.get? handle.id

def numeric? (p : Protocol) (ref : String) : Option Int :=
  p.current?.bind fun s => p.registry.numeric? s.name ref

def hasErrors (p : Protocol) : Bool := p.log.any Diagnostic.isError

def messagesAt (p : Protocol) (level : Level) : List String :=
  (p.log.filter fun d => d.level == level).map Diagnostic.message

def checkNew (p : Protocol) (ctx : Context) (line : Nat) : Except Error Unit :=
  if !p.schemas.isEmpty && !ctx.supports .multiSchema then
    .error ((Fault.feature (.severalSchemas ctx.dslVersion)).atLine line)
  else if (p.schema? ctx.name).isSome then
    .error ((Fault.structural (.schemaLoaded ctx.name)).atLine line)
  else .ok ()

def outlineOf (p : Protocol) (root : Except Markup.DocumentFault Node) :
    Build (Context × Layout) := do
  let root ← root.mapError Error.ofDocument
  let ctx ← Context.ofRoot root
  p.checkNew ctx root.line
  let layout ← Layout.ofRoot root
  return (ctx, layout)

def outline (p : Protocol) (source : String) : Build (Context × Layout) :=
  p.outlineOf (Node.ofDocument source)

def complete (p : Protocol) (ctx : Context) (layout : Layout) (registry : Registry) :
    Build Schema := do
  let dir : Directory := { earlier := p.schemas, env := { context := ctx, registry } }
  let interfaces ← Interface.readAll dir layout.interfaces
  let env := { dir.env with interfaces }
  let messages ← Message.readAll { dir with env, interfaces } layout.messages
  Build.record ⟨none, .schemaLoaded ctx.name (registry.fieldsOf ctx.name).length
    interfaces.length messages.length⟩
  return { context := ctx, interfaces, messages, namespaces := layout.namespaces }

def refuse (p : Protocol) (log : List Diagnostic) (e : Error) : Protocol × Except Error Unit :=
  ({ p with log := p.log ++ log ++ [⟨none, .failure e⟩] }, .error e)

/-- Take one more outlined document in. Fields registered before an error stay registered. -/
def takeIn (p : Protocol) (outlined : Build (Context × Layout)) : Protocol × Except Error Unit :=
  match outlined.outcome with
  | .error e => p.refuse outlined.log e
  | .ok (ctx, layout) =>
      let fields := Registration.addAll ctx { registry := p.registry } layout.fields
      let p := { p with registry := fields.registry }
      let log := outlined.log ++ fields.log
      match fields.failure with
      | some e => p.refuse log e
      | none =>
          let built := p.complete ctx layout fields.registry
          let log := log ++ built.log
          match built.outcome with
          | .error e => p.refuse log e
          | .ok schema => ({ p with schemas := p.schemas ++ [schema], log := p.log ++ log }, .ok ())

def load (p : Protocol) (source : String) : Protocol × Except Error Unit :=
  p.takeIn (p.outline source)

def loadFile (p : Protocol) : Option String → Protocol × Except Error Unit
  | some source => p.load source
  | none => (p, .error ⟨.unknown, .unreadable⟩)

def ofFile (text : Option String) : Except Error Protocol :=
  match loadFile {} text with
  | (p, .ok _) => .ok p
  | (_, .error e) => .error e

end Protocol

end WireSchema
