import WireSchema.Text

/-!
Names: identifiers, dotted paths of them, and external names, which are paths that may be
addressed to another schema with `@Schema.` in front.
-/

namespace WireSchema

namespace Name

def isFirst (c : Char) : Bool :=
  c.isAlpha || c == '_'

def isLater (c : Char) : Bool :=
  c.isAlphanum || c == '_'

def isIdentifierList : List Char → Bool
  | [] => false
  | c :: rest => isFirst c && rest.all isLater

def isPathList (cs : List Char) : Bool :=
  (Text.pieces '.' cs).all isIdentifierList

def isIdentifier (s : String) : Bool :=
  isIdentifierList s.toList

def isPath (s : String) : Bool :=
  isPathList s.toList

def segments (path : String) : List String :=
  (Text.pieces '.' path.toList).map String.ofList

/-- A name inside the namespace `ns`; the outermost namespace has the empty name. -/
def qualify (ns name : String) : String :=
  if ns = "" then name else ns ++ "." ++ name

end Name

structure ExternalName where
  schema : Option String
  path : String
  deriving DecidableEq

namespace ExternalName

def read? (s : String) : Option ExternalName :=
  match s.toList with
  | '@' :: rest =>
      match Text.cutAt '.' rest with
      | some (schema, path) =>
          if Name.isIdentifierList schema && Name.isPathList path then
            some ⟨some (String.ofList schema), String.ofList path⟩
          else none
      | none => none
  | cs => if Name.isPathList cs then some ⟨none, s⟩ else none

def isWritten (s : String) : Bool :=
  (read? s).isSome

end ExternalName

end WireSchema
