import WireSchema.Name

/-!
Operands of conditions: a scope, a path, and a mark that asks for the size or the existence of
what the path names. The mark is read before or after the path and written after it.
-/

namespace WireSchema

inductive Scope where
  | sibling
  | interface
  deriving DecidableEq

def Scope.mark : Scope → Char
  | .sibling => '$'
  | .interface => '%'

inductive Query where
  | value
  | size
  | existence
  deriving DecidableEq

namespace Query

def ofMark? : Char → Option Query
  | '#' => some .size
  | '?' => some .existence
  | _ => none

def mark : Query → List Char
  | .value => []
  | .size => ['#']
  | .existence => ['?']

end Query

inductive OperandFault where
  | malformed
  | twoMarks
  deriving DecidableEq

structure MarkedPath where
  query : Query
  path : String
  deriving DecidableEq

namespace MarkedPath

def leading : List Char → Option Query × List Char
  | [] => (none, [])
  | c :: rest => match Query.ofMark? c with
    | some query => (some query, rest)
    | none => (none, c :: rest)

def trailing (cs : List Char) : Option Query × List Char :=
  let (query, reversed) := leading cs.reverse
  (query, reversed.reverse)

def readList (cs : List Char) : Except OperandFault MarkedPath :=
  let (before, rest) := leading cs
  let (after, path) := trailing rest
  if Name.isPathList path then
    match before, after with
    | some _, some _ => .error .twoMarks
    | some query, none => .ok ⟨query, String.ofList path⟩
    | none, some query => .ok ⟨query, String.ofList path⟩
    | none, none => .ok ⟨.value, String.ofList path⟩
  else .error .malformed

def read (s : String) : Except OperandFault MarkedPath :=
  readList s.toList

def text (p : MarkedPath) : String :=
  p.path ++ String.ofList p.query.mark

end MarkedPath

/-- A marked path in a scope, such as `$a.b#`. -/
structure Operand where
  scope : Scope
  query : Query
  path : String
  deriving DecidableEq

namespace Operand

def read (s : String) : Except OperandFault Operand :=
  match s.toList with
  | '$' :: rest => (MarkedPath.readList rest).map fun p => ⟨.sibling, p.query, p.path⟩
  | '%' :: rest => (MarkedPath.readList rest).map fun p => ⟨.interface, p.query, p.path⟩
  | _ => .error .malformed

def marked (o : Operand) : MarkedPath :=
  ⟨o.query, o.path⟩

def text (o : Operand) : String :=
  String.ofList [o.scope.mark] ++ o.marked.text

end Operand

end WireSchema
