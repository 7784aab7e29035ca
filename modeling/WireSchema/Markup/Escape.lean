import WireSchema.Literal
import WireSchema.Markup.Fault

/-!
Character references in text and attribute values: five names, and code points in decimal or
hexadecimal.
-/

namespace WireSchema.Markup.Escape

open Text

def named? : String → Option Char
  | "lt" => some '<'
  | "gt" => some '>'
  | "amp" => some '&'
  | "apos" => some '\''
  | "quot" => some '"'
  | _ => none

def code (radix : Nat) (refuse : Char → EscapeFault) (digits : List Char) :
    Except EscapeFault Nat :=
  digits.foldlM
    (fun n c => match Literal.digit? radix c with
      | some d => .ok (n * radix + d)
      | none => .error (refuse (leadByte c))) 0

def codePoint : List Char → Except EscapeFault Nat
  | 'x' :: digits =>
      if 6 < byteCount digits then .error .longHexadecimal
      else code 16 .notHexadecimal digits
  | digits =>
      if 7 < byteCount digits then .error .longDecimal
      else code 10 .notDecimal digits

def character (start stop : Nat) : List Char → Except EscapeFault Char
  | '#' :: digits => do
      let n ← codePoint digits
      if n = 0 then .error (.nullCharacter start stop)
      else if n.isValidChar then .ok (Char.ofNat n)
      else .error (.notScalar n)
  | name =>
      match named? (String.ofList name) with
      | some c => .ok c
      | none => .error (.unknownEntity (start + 1) stop (String.ofList name))

/-- Decode from `offset` on, in a text of `total` bytes. An open reference is carried as the
offset of its `&` and its characters so far, last one first. -/
def decodeFrom (total : Nat) :
    List Char → Nat → Option (Nat × List Char) → Except EscapeFault (List Char)
  | [], _, none => .ok []
  | [], _, some (start, _) => .error (.unterminated start total)
  | c :: rest, offset, none =>
      if c = '&' then decodeFrom total rest (offset + 1) (some (offset, []))
      else (decodeFrom total rest (offset + c.utf8Size) none).map (c :: ·)
  | c :: rest, offset, some (start, reversed) =>
      if c = '&' then .error (.unterminated start total)
      else if c = ';' then do
        let decoded ← character start offset reversed.reverse
        let others ← decodeFrom total rest (offset + 1) none
        .ok (decoded :: others)
      else decodeFrom total rest (offset + c.utf8Size) (some (start, c :: reversed))

def decode (raw : List Char) : Except EscapeFault (List Char) :=
  decodeFrom (byteCount raw) raw 0 none

end WireSchema.Markup.Escape
