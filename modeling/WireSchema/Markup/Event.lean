import WireSchema.Markup.Fault

/-!
A document as a sequence of events: tags, text, character data and what carries no content. The
sequence ends with the input or with a fault.
-/

namespace WireSchema.Markup

/-- Start and end events have a line; that of an end event is where a wrong name is reported. -/
inductive Event where
  | start (content : List Char) (line : Nat)
  | empty (content : List Char) (line : Nat)
  | finish (content : List Char) (line : Nat)
  | text (raw : List Char)
  | cdata (raw : List Char)
  | aside
  | fault (fault : Fault) (line : Nat)

namespace Event

open Text

/-- Lines by byte position: the line of the byte before `position`, in a text with line feeds at
the byte offsets `breaks`. -/
def lineAt (breaks : List Nat) (position : Nat) : Nat :=
  1 + (breaks.takeWhile fun offset => decide (offset < position - 1)).length

def lineBreaks : List Char → Nat → List Nat
  | [], _ => []
  | c :: rest, offset =>
      let others := lineBreaks rest (offset + c.utf8Size)
      if c = '\n' then offset :: others else others

/-- Cut before the first `>` that ends a construct, as `ends` decides from the characters read so
far, last one first. -/
def cutBefore (ends : List Char → Bool) : List Char → List Char → Option (List Char × List Char)
  | [], _ => none
  | c :: rest, reversed =>
      if c = '>' && ends reversed then some (reversed.reverse, rest)
      else cutBefore ends rest (c :: reversed)

/-- Two hyphens, not those right after the opening ones. -/
def endsComment (reversed : List Char) : Bool :=
  4 ≤ reversed.length && reversed.take 2 == ['-', '-']

def endsCdata (reversed : List Char) : Bool :=
  reversed.take 2 == [']', ']']

def endsDoctype (reversed : List Char) : Bool :=
  reversed.count '<' == reversed.count '>'

def tagContent : Option Char → List Char → List Char × Option (List Char)
  | _, [] => ([], none)
  | quote, c :: rest =>
      if quote.isNone && c = '>' then ([], some rest)
      else
        -- A `>` inside a quotation does not end the tag.
        let next := match quote with
          | some q => if c = q then none else some q
          | none => if c = '"' ∨ c = '\'' then some c else none
        let (content, behind) := tagContent next rest
        (c :: content, behind)

structure Bang where
  construct : Construct
  ends : List Char → Bool
  opening : String

def bang? : Char → Option Bang
  | '[' => some ⟨.cdata, endsCdata, "[cdata["⟩
  | '-' => some ⟨.comment, endsComment, "--"⟩
  | 'D' | 'd' => some ⟨.doctype, endsDoctype, "doctype"⟩
  | _ => none

def ofBang (bang : Bang) (content : List Char) (line : Nat) : Event :=
  let size := bang.opening.length
  if (content.take size).map Char.toLower == bang.opening.toList then
    match bang.construct with
    | .cdata => .cdata ((content.drop size).dropLast.dropLast)
    | .doctype => if (content.drop size).all isSpace then .fault .emptyDoctype line else .aside
    | _ => .aside
  else .fault (.unfinished bang.construct) line

structure Step where
  event : Event
  next : Option (List Char × Nat)

def afterOpening (line : Nat → Nat) (cs : List Char) (position : Nat) : Option Step :=
  match cs with
  | [] => none
  | '!' :: rest =>
      match rest with
      | [] => some ⟨.fault (.unfinished .bang) (line position), none⟩
      | c :: _ =>
          match bang? c with
          | none => some ⟨.fault (.unexpectedBang (leadByte c)) (line position), none⟩
          | some bang =>
              match cutBefore bang.ends rest [] with
              | none => some ⟨.fault (.unfinished bang.construct) (line position), none⟩
              | some (content, behind) =>
                  let after := position + byteCount content + 2
                  some ⟨ofBang bang content (line after), some (behind, after)⟩
  | '/' :: rest =>
      let content := rest.takeWhile (· != '>')
      let behind := rest.drop (content.length + 1)
      let closed := content.length < rest.length
      let size := byteCount content + 1
      -- a wrong name is reported as many bytes back as the content has
      let reported := if closed then position + 1 else position
      some ⟨.finish content (line reported),
        some (behind, position + size + (if closed then 1 else 0))⟩
  | '?' :: rest =>
      let content := rest.takeWhile (· != '>')
      let behind := rest.drop (content.length + 1)
      let closed := content.length < rest.length
      let size := byteCount content + 1
      if 2 < size && content.getLast? == some '?' then
        some ⟨.aside, some (behind, position + size + (if closed then 1 else 0))⟩
      else
        let reported := if closed then position + 1 else position
        some ⟨.fault (.unfinished .declaration) (line reported), none⟩
  | _ =>
      let (content, behind) := tagContent none cs
      let after := match behind with
        | some _ => position + byteCount content + 1
        | none => position
      let event :=
        if content.getLast? == some '/' then Event.empty content.dropLast (line after)
        else Event.start content (line after)
      some ⟨event, some (behind.getD [], after)⟩

/-- All events from byte `position` on. Every round consumes a character, so `fuel` above their
number suffices. -/
def scan (line : Nat → Nat) : Nat → List Char → Nat → List Event
  | 0, _, _ => []
  | fuel + 1, cs, position =>
      let blanks := cs.takeWhile isSpace
      let start := position + byteCount blanks
      match cs.dropWhile isSpace with
      | [] => []
      | c :: rest =>
          let (leading, tagStart, tagPosition) :=
            if c = '<' then (([] : List Event), rest, start + 1)
            else
              let raw := (c :: rest).takeWhile (· != '<')
              let behind := (c :: rest).drop raw.length
              ([Event.text (dropEndWhile isSpace raw)], behind.drop 1,
                start + byteCount raw + min behind.length 1)
          leading ++ match afterOpening line tagStart tagPosition with
            | none => []
            | some ⟨event, none⟩ => [event]
            | some ⟨event, some (behind, after)⟩ => event :: scan line fuel behind after

/-- The events of a whole document. A byte order mark in front is no content and counts in the
lines but not in the positions. -/
def ofChars (cs : List Char) : List Event :=
  let body := match cs with
    | c :: rest => if c.toNat = 0xFEFF then rest else cs
    | [] => []
  scan (lineAt (lineBreaks cs 0)) (body.length + 1) body 0

def ofDocument (source : String) : List Event := ofChars source.toList

end Event

end WireSchema.Markup
