import WireSchema.Protocol

/-!
The checker: load documents into one protocol and report what was recorded, as much of it as
was asked for.
-/

namespace WireSchema

namespace Checker

inductive Verbosity where
  | quiet
  | normal
  | verbose
  deriving DecidableEq

def Verbosity.shows : Verbosity → Level → Bool
  | .quiet, level => level == .error
  | .normal, level => level == .warning || level == .error
  | .verbose, _ => true

structure Options where
  verbosity : Verbosity := .normal
  summary : Bool := false
  /-- The files to load, in order; without any, the standard input. -/
  paths : List String := []
  deriving DecidableEq

/-- The first occurrence of a flag, in its long or short form, is taken out. -/
def takeFlag (long short : String) : List String → Option (List String)
  | [] => none
  | a :: rest =>
      if a = long ∨ a = short then some rest
      else (takeFlag long short rest).map (a :: ·)

def readVerbosity (arguments : List String) : Verbosity × List String :=
  match takeFlag "--verbose" "-v" arguments with
  | some rest => (.verbose, rest)
  | none =>
      match takeFlag "--quiet" "-q" arguments with
      | some rest => (.quiet, rest)
      | none => (.normal, arguments)

def Options.ofArguments (arguments : List String) : Options :=
  let (verbosity, arguments) := readVerbosity arguments
  match takeFlag "--summary" "-s" arguments with
  | some paths => { verbosity, summary := true, paths }
  | none => { verbosity, paths := arguments }

structure Source where
  path : String
  text : String

def standardInput : String := "<stdin>"

def gather {m : Type → Type} [Monad m] (read : String → m (Option String)) :
    List String → m (Except String (List Source))
  | [] => pure (.ok [])
  | path :: rest => do
      match ← read path with
      | none => pure (.error path)
      | some text => do
          let others ← gather read rest
          pure (others.map (⟨path, text⟩ :: ·))

def levelWord : Level → String
  | .debug => "debug"
  | .info => "info"
  | .warning => "warning"
  | .error => "error"

def diagnosticLine (path : String) (d : Diagnostic) : String :=
  match d.line with
  | some line => s!"{path}:{line}: {levelWord d.level}: {d.message}"
  | none => s!"{path}: {levelWord d.level}: {d.message}"

def boundText (length : Nat) : String :=
  if length = Length.unbounded then "unbounded" else toString length

def messageLine (m : Message) : String :=
  s!"  {m.qualifiedName} id={m.id} fields={m.fields.length} min={m.minLength} max=" ++
    boundText m.maxLength

def schemaLines (s : Schema) : List String :=
  s!"schema {s.name} (version {s.context.version})" :: s.messages.map messageLine

structure Report where
  /-- Lines for the standard output. -/
  lines : List String := []
  errors : Nat := 0
  warnings : Nat := 0
  failed : Bool := false

namespace Report

def record (r : Report) (verbosity : Verbosity) (path : String) (added : List Diagnostic) :
    Report :=
  { r with
    lines := r.lines ++ (added.filter fun d => verbosity.shows d.level).map (diagnosticLine path)
    errors := r.errors + added.countP fun d => d.level == .error
    warnings := r.warnings + added.countP fun d => d.level == .warning }

def totals? (r : Report) : Option String :=
  if 0 < r.errors ∨ 0 < r.warnings then
    some s!"check: {r.errors} error(s), {r.warnings} warning(s)"
  else none

def exitCode (r : Report) : UInt32 := if r.failed then 1 else 0

end Report

def loadAll (verbosity : Verbosity) : Protocol → Report → List Source → Protocol × Report
  | p, r, [] => (p, r)
  | p, r, source :: rest =>
      let (loaded, outcome) := p.load source.text
      let r := r.record verbosity source.path (loaded.log.drop p.log.length)
      match outcome with
      | .ok _ => loadAll verbosity loaded r rest
      | .error _ => (loaded, { r with failed := true })

def check (options : Options) (sources : List Source) : Report :=
  let (p, r) := loadAll options.verbosity {} {} sources
  if options.summary && !r.failed then { r with lines := r.lines ++ p.schemas.flatMap schemaLines }
  else r

end Checker

end WireSchema
