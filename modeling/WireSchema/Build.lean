import WireSchema.Notice

/-!
Building: a computation that records diagnostics and ends with a value or an error. What was
recorded before an error is kept.
-/

namespace WireSchema

structure Build (α : Type) where
  log : List Diagnostic
  outcome : Except Error α

namespace Build

variable {α β : Type}

protected def pure (a : α) : Build α := ⟨[], .ok a⟩

protected def bind (x : Build α) (f : α → Build β) : Build β :=
  match x.outcome with
  | .ok a =>
      let y := f a
      ⟨x.log ++ y.log, y.outcome⟩
  | .error e => ⟨x.log, .error e⟩

instance : Monad Build where
  pure := Build.pure
  bind := Build.bind

def ofExcept (x : Except Error α) : Build α := ⟨[], x⟩

instance : MonadLift (Except Error) Build := ⟨ofExcept⟩

def fail (e : Error) : Build α := ⟨[], .error e⟩

def record (d : Diagnostic) : Build Unit := ⟨[d], .ok ()⟩

def warn (line : Nat) (w : Warning) : Build Unit := record (Diagnostic.warning line w)

def warnEach (line : Nat) (ws : List Warning) : Build Unit :=
  ⟨ws.map (Diagnostic.warning line), .ok ()⟩

def each (f : α → Build β) : List α → Build (List β)
  | [] => return []
  | a :: rest => do
      let first ← f a
      let others ← each f rest
      return first :: others

/-- Build one after another, each from what was built before it. -/
def gather (f : List β → α → Build β) (known : List β) : List α → Build (List β)
  | [] => return known
  | a :: rest => do
      let next ← f known a
      gather f (known ++ [next]) rest

end Build

end WireSchema
