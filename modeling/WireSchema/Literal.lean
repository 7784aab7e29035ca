import WireSchema.Double.Nearest
import WireSchema.Text

/-!
Literals of the schema language: integers in three bases, booleans, real numbers, bytes in
hexadecimal and the two bounds of a range. A reader returns `none` for a text it refuses.
-/

namespace WireSchema.Literal

open Text

def digit? (radix : Nat) (c : Char) : Option Nat :=
  let value :=
    if '0' ≤ c ∧ c ≤ '9' then c.toNat - '0'.toNat
    else if 'a' ≤ c ∧ c ≤ 'z' then c.toNat - 'a'.toNat + 10
    else if 'A' ≤ c ∧ c ≤ 'Z' then c.toNat - 'A'.toNat + 10
    else radix
  if value < radix then some value else none

def natural? (radix : Nat) : List Char → Option Nat
  | [] => none
  | cs => cs.foldlM (fun n c => (digit? radix c).map (n * radix + ·)) 0

/-- The base of a numeral and the digits after its mark: `0x` for sixteen, a leading `0` before
further digits for eight. -/
def splitRadix : List Char → Nat × List Char
  | '0' :: 'x' :: digits => (16, digits)
  | '0' :: 'X' :: digits => (16, digits)
  | '0' :: c :: digits => (8, c :: digits)
  | digits => (10, digits)

def splitSign : List Char → Bool × List Char
  | '-' :: rest => (true, rest)
  | '+' :: rest => (false, rest)
  | rest => (false, rest)

def greatestUnsigned : Nat := 0xffffffffffffffff
def greatestSigned : Int := 0x7fffffffffffffff
def leastSigned : Int := -0x8000000000000000

/-- An integer literal: any value of a signed or an unsigned word of 64 bits. -/
def integer? (s : String) : Option Int :=
  let (negative, numeral) := splitSign (trimList s.toList)
  let (radix, digits) := splitRadix numeral
  match natural? radix digits with
  | none => none
  | some magnitude =>
      if greatestUnsigned < magnitude then none
      else if negative then
        if -(magnitude : Int) < leastSigned then none else some (-(magnitude : Int))
      else some magnitude

def within (low high : Int) (value : Option Int) : Option Int :=
  value.filter fun n => decide (low ≤ n ∧ n ≤ high)

def signed? (s : String) : Option Int :=
  within leastSigned greatestSigned (integer? s)

def unsigned? (s : String) : Option Nat :=
  (within 0 greatestUnsigned (integer? s)).map Int.toNat

def version? (s : String) : Option Nat :=
  (within 0 0xffffffff (integer? s)).map Int.toNat

def boolean? (s : String) : Option Bool :=
  match lower (trim s) with
  | "true" | "1" => some true
  | "false" | "0" => some false
  | _ => none

def exponent? : List Char → Option Int
  | [] => some 0
  | c :: rest =>
      if c = 'e' ∨ c = 'E' then
        let (negative, digits) := splitSign rest
        (natural? 10 digits).map fun n => if negative then -(n : Int) else n
      else none

def decimal? (s : String) : Option Double :=
  let (negative, rest) := splitSign s.toList
  let whole := rest.takeWhile Char.isDigit
  let tail := rest.dropWhile Char.isDigit
  let (fraction, tail) := match tail with
    | '.' :: more => (more.takeWhile Char.isDigit, more.dropWhile Char.isDigit)
    | other => ([], other)
  match natural? 10 (whole ++ fraction), exponent? tail with
  | some digits, some exponent =>
      some (Double.ofDecimal negative digits (exponent - fraction.length))
  | _, _ => none

def real? (s : String) : Option Double :=
  let t := trim s
  match lower t with
  | "nan" => some .nan
  | "inf" | "+inf" => some Double.infinity
  | "-inf" => some Double.negativeInfinity
  | _ =>
      match integer? t with
      | some n => some (Double.ofInt n)
      | none => decimal? t

/-- Blanks between the digits of a byte string: the five of ASCII without the vertical tab. -/
def isByteBlank (c : Char) : Bool :=
  isSpace c || c == '\x0c'

/-- A byte is two digits, or a plus sign and one digit. -/
def byte? (high low : Char) : Option UInt8 :=
  match if high = '+' then some 0 else digit? 16 high, digit? 16 low with
  | some h, some l => some (UInt8.ofNat (16 * h + l))
  | _, _ => none

def bytesOfDigits? : List Char → Option (List UInt8)
  | [] => some []
  | [_] => none
  | high :: low :: rest =>
      match byte? high low, bytesOfDigits? rest with
      | some byte, some bytes => some (byte :: bytes)
      | _, _ => none

def bytes? (s : String) : Option (List UInt8) :=
  -- Blanks may stand anywhere, also between the two digits of a byte.
  bytesOfDigits? (s.toList.filter fun c => !isByteBlank c)

def isBoundChar (c : Char) : Bool :=
  !(c == ',' || c == ']' || c == '[' || isSpace c)

def bound? (cs : List Char) : Option (String × List Char) :=
  let body := cs.dropWhile isSpace
  match body.takeWhile isBoundChar with
  | [] => none
  | bound => some (String.ofList bound, (body.dropWhile isBoundChar).dropWhile isSpace)

def bounds? (s : String) : Option (String × String) :=
  match s.toList.dropWhile isSpace with
  | '[' :: rest =>
      match bound? rest with
      | some (least, ',' :: rest) =>
          match bound? rest with
          | some (greatest, ']' :: rest) =>
              if rest.all isSpace then some (least, greatest) else none
          | _ => none
      | _ => none
  | _ => none

end WireSchema.Literal
