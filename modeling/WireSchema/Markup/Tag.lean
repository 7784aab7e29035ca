import WireSchema.Markup.Escape

/-!
The inside of a start tag: a name up to the first blank, then attributes. A key ends at `=` or
at blanks before it, and a value stands between two equal quotation marks.
-/

namespace WireSchema.Markup

structure Tag where
  name : String
  attributes : List (String × String)
  deriving DecidableEq

namespace Tag

open Text

structure Cursor where
  rest : List Char
  offset : Nat

namespace Cursor

def dropWhile (c : Cursor) (p : Char → Bool) : Cursor :=
  ⟨c.rest.dropWhile p, c.offset + byteCount (c.rest.takeWhile p)⟩

end Cursor

/-- The key at the cursor, which is not at a blank: its first character whatever it is, and all up
to a blank or `=`. The cursor behind it is at the `=`. -/
def key (total : Nat) (c : Cursor) : Except AttributeFault (String × Cursor) :=
  match c.rest with
  | [] => .error (.expectedEquals total)
  | first :: more =>
      let body := more.takeWhile fun x => !(x == '=' || isSpace x)
      let keyText := String.ofList (first :: body)
      let behind : Cursor :=
        ⟨more.drop body.length, c.offset + byteCount (first :: body)⟩
      let equals := behind.dropWhile isSpace
      match equals.rest with
      | '=' :: _ => .ok (keyText, equals)
      | [] => .error (.expectedEquals total)
      | _ => .error (.expectedEquals equals.offset)

def value (total : Nat) (c : Cursor) : Except AttributeFault (List Char × Cursor) :=
  let opening := (⟨c.rest.drop 1, c.offset + 1⟩ : Cursor).dropWhile isSpace
  match opening.rest with
  | [] => .error (.expectedValue total)
  | quote :: more =>
      if quote = '"' ∨ quote = '\'' then
        match cutAt quote more with
        | some (raw, behind) =>
            .ok (raw, ⟨behind, opening.offset + byteCount raw + 2⟩)
        | none => .error (.unclosedQuote total quote)
      else .error (.unquotedValue opening.offset)

/-- The attributes from the cursor on. `seen` has the keys so far with their offsets; `fuel` is
more than the number of characters left. -/
def attributesFrom (total : Nat) :
    Nat → Cursor → List (String × Nat) → Except AttributeFault (List (String × String))
  | 0, _, _ => .ok []
  | fuel + 1, c, seen =>
      let start := c.dropWhile isSpace
      match start.rest with
      | [] => .ok []
      | _ :: _ => do
          let (name, equals) ← key total start
          match seen.find? fun entry => entry.1 == name with
          | some (_, earlier) => .error (.duplicate start.offset earlier)
          | none => do
              let (raw, behind) ← value total equals
              let decoded ← match Escape.decode raw with
                | .ok cs => .ok cs
                | .error fault => .error (.escape fault)
              let others ← attributesFrom total fuel behind (seen ++ [(name, start.offset)])
              .ok ((name, String.ofList decoded) :: others)

def ofContent (content : List Char) : Except AttributeFault Tag :=
  let name := content.takeWhile fun c => !isSpace c
  let rest := content.dropWhile fun c => !isSpace c
  (attributesFrom (byteCount content) (rest.length + 1) ⟨rest, byteCount name⟩ []).map fun attributes =>
    ⟨String.ofList name, attributes⟩

end Tag

end WireSchema.Markup
