import WireSchema.Text.Hidden

/-!
What can be wrong with a markup document, and how it is said. Offsets and positions count bytes.
-/

namespace WireSchema.Markup

inductive EscapeFault where
  | unterminated (start stop : Nat)
  | unknownEntity (start stop : Nat) (name : String)
  | nullCharacter (start stop : Nat)
  | notHexadecimal (symbol : Char)
  | notDecimal (symbol : Char)
  | longHexadecimal
  | longDecimal
  | notScalar (code : Nat)
  deriving DecidableEq

inductive AttributeFault where
  | expectedEquals (position : Nat)
  | duplicate (position earlier : Nat)
  | expectedValue (position : Nat)
  | unquotedValue (position : Nat)
  | unclosedQuote (position : Nat) (quote : Char)
  | escape (fault : EscapeFault)
  deriving DecidableEq

inductive Construct where
  | bang
  | cdata
  | comment
  | doctype
  | declaration
  deriving DecidableEq

def Construct.label : Construct → String
  | .bang => "Bang"
  | .cdata => "CData"
  | .comment => "Comment"
  | .doctype => "DOCTYPE"
  | .declaration => "XmlDecl"

inductive Fault where
  | unfinished (construct : Construct)
  | unexpectedBang (symbol : Char)
  | emptyDoctype
  | mismatchedEnd (expected found : String)
  | attribute (fault : AttributeFault)
  | escape (fault : EscapeFault)
  | secondRoot
  | unclosedElement (name : String)
  | noRoot
  deriving DecidableEq

/-- Text between quotation marks, with quotation marks, backslashes and hidden characters shown as
escapes. -/
def shown (s : String) : String :=
  Text.quoted (String.ofList (s.toList.flatMap showChar))
where
  showChar (c : Char) : List Char :=
    if c = '"' then ['\\', '"']
    else if c = '\\' then ['\\', '\\']
    else if c = '\t' then ['\\', 't']
    else if c = '\r' then ['\\', 'r']
    else if c = '\n' then ['\\', 'n']
    else if c.toNat = 0 then ['\\', '0']
    else if Text.isHidden c then
      '\\' :: 'u' :: '\x7b' :: Nat.toDigits 16 c.toNat ++ ['\x7d']
    else [c]

def EscapeFault.message : EscapeFault → String
  | .unterminated start stop =>
      s!"Error while escaping character at range {start}..{stop}: Cannot find ';' after '&'"
  | .unknownEntity start stop name =>
      s!"Error while escaping character at range {start}..{stop}: Unrecognized escape symbol: "
        ++ shown name
  | .nullCharacter start stop =>
      s!"Error while escaping character at range {start}..{stop}: Null character entity not allowed"
  | .notHexadecimal symbol => s!"'{symbol}' is not a valid hexadecimal character"
  | .notDecimal symbol => s!"'{symbol}' is not a valid decimal character"
  | .longHexadecimal => "Cannot convert hexadecimal to utf8"
  | .longDecimal => "Cannot convert decimal to utf8"
  | .notScalar code => s!"'{code}' is not a valid codepoint"

def AttributeFault.message : AttributeFault → String
  | .expectedEquals position =>
      s!"position {position}: attribute key must be directly followed by `=` or space"
  | .duplicate position earlier =>
      s!"position {position}: duplicated attribute, previous declaration at position {earlier}"
  | .expectedValue position =>
      s!"position {position}: `=` must be followed by an attribute value"
  | .unquotedValue position =>
      s!"position {position}: attribute value must be enclosed in `\"` or `'`"
  | .unclosedQuote position quote =>
      s!"position {position}: missing closing quote `{quote}` in attribute value"
  | .escape fault => fault.message

def Fault.message : Fault → String
  | .unfinished construct => s!"Unexpected EOF during reading " ++ construct.label
  | .unexpectedBang symbol =>
      s!"Only Comment (`--`), CDATA (`[CDATA[`) and DOCTYPE (`DOCTYPE`) nodes can start with a '!', but symbol `{symbol}` found"
  | .emptyDoctype => "DOCTYPE declaration must not be empty"
  | .mismatchedEnd expected found => s!"Expecting </{expected}> found </{found}>"
  | .attribute fault => fault.message
  | .escape fault => fault.message
  | .secondRoot => "multiple root elements"
  | .unclosedElement name => s!"element <{name}> is not closed"
  | .noRoot => "document has no root element"

structure DocumentFault where
  line : Option Nat
  fault : Fault
  deriving DecidableEq

end WireSchema.Markup
