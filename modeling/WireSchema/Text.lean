/-!
Text as the schema language sees it: blanks, trimming, cutting at a character, and sizes in
bytes. Everything works on lists of characters; the `String` forms wrap them.
-/

namespace WireSchema.Text

/-- Characters with the Unicode property White_Space. -/
def isBlank (c : Char) : Bool :=
  let n := c.toNat
  (9 ≤ n && n ≤ 13) || n == 0x20 || n == 0x85 || n == 0xA0 || n == 0x1680 ||
    (0x2000 ≤ n && n ≤ 0x200A) || n == 0x2028 || n == 0x2029 || n == 0x202F || n == 0x205F ||
    n == 0x3000

/-- The four blanks of markup: space, tab, carriage return, line feed. -/
def isSpace (c : Char) : Bool :=
  c == ' ' || c == '\t' || c == '\r' || c == '\n'

def dropEndWhile (p : Char → Bool) (cs : List Char) : List Char :=
  (cs.reverse.dropWhile p).reverse

def trimList (cs : List Char) : List Char :=
  dropEndWhile isBlank (cs.dropWhile isBlank)

def trim (s : String) : String :=
  String.ofList (trimList s.toList)

def lower (s : String) : String :=
  String.ofList (s.toList.map Char.toLower)

def byteCount (cs : List Char) : Nat :=
  cs.foldl (fun n c => n + c.utf8Size) 0

/-- The first byte of a character in UTF-8, as the character of that number. -/
def leadByte (c : Char) : Char :=
  match (String.singleton c).toUTF8.toList with
  | byte :: _ => Char.ofNat byte.toNat
  | [] => c

def cutAt (mark : Char) : List Char → Option (List Char × List Char)
  | [] => none
  | c :: rest =>
      if c = mark then some ([], rest)
      else (cutAt mark rest).map fun parts => (c :: parts.1, parts.2)

def pieces (mark : Char) : List Char → List (List Char)
  | [] => [[]]
  | c :: rest =>
      if c = mark then [] :: pieces mark rest
      else match pieces mark rest with
        -- There always is a piece, so this is never reached.
        | [] => [[c]]
        | first :: others => (c :: first) :: others

def startsWith (mark : Char) (s : String) : Bool :=
  s.toList.head? == some mark

def after? (mark : Char) (s : String) : Option String :=
  match s.toList with
  | c :: rest => if c = mark then some (String.ofList rest) else none
  | [] => none

def firstSegment (path : String) : String × String :=
  match cutAt '.' path.toList with
  | some (first, rest) => (String.ofList first, String.ofList rest)
  | none => (path, "")

def quoted (s : String) : String :=
  "\"" ++ s ++ "\""

end WireSchema.Text
