import WireSchema.Markup.Event
import WireSchema.Markup.Node
import WireSchema.Markup.Tag

/-!
From the events of a document to its tree. Open elements wait on a stack; a finished one goes to
the element around it, or becomes the root.
-/

namespace WireSchema.Markup

structure OpenElement where
  tag : Tag
  line : Nat
  children : List Node := []
  text : String := ""

def OpenElement.close (e : OpenElement) : Node :=
  { name := e.tag.name, attributes := e.tag.attributes, children := e.children.reverse,
    text := e.text, line := e.line }

/-- What has been read: open elements, innermost first, and the root once it is complete. -/
structure Progress where
  stack : List OpenElement := []
  root : Option Node := none

namespace Progress

open Text

def attach (p : Progress) (node : Node) : Except DocumentFault Progress :=
  match p.stack with
  | parent :: outer =>
      .ok { p with stack := { parent with children := node :: parent.children } :: outer }
  | [] =>
      match p.root with
      | some _ => .error ⟨some node.line, .secondRoot⟩
      | none => .ok { p with root := some node }

def append (p : Progress) (content : List Char) : Progress :=
  match p.stack with
  | top :: outer =>
      { p with stack := { top with text := top.text ++ String.ofList (trimList content) } :: outer }
  | [] => p

def readTag (content : List Char) (line : Nat) : Except DocumentFault Tag :=
  match Tag.ofContent content with
  | .ok tag => .ok tag
  | .error fault => .error ⟨some line, .attribute fault⟩

def endName (content : List Char) : List Char :=
  match dropEndWhile isSpace content with
  -- Nothing but blanks is kept as it is.
  | [] => content
  | name => name

def step (p : Progress) : Event → Except DocumentFault Progress
  | .start content line => do
      let tag ← readTag content line
      .ok { p with stack := { tag, line } :: p.stack }
  | .empty content line => do
      let tag ← readTag content line
      p.attach (OpenElement.close { tag, line })
  | .finish content line =>
      match p.stack with
      | [] => .error ⟨some line, .mismatchedEnd "" (String.ofList content)⟩
      | top :: outer =>
          let found := String.ofList (endName content)
          if found = top.tag.name then ({ p with stack := outer } : Progress).attach top.close
          else .error ⟨some line, .mismatchedEnd top.tag.name found⟩
  | .text raw =>
      match Escape.decode raw with
      | .ok content => .ok (p.append content)
      | .error fault => .error ⟨none, .escape fault⟩
  | .cdata raw => .ok (p.append raw)
  | .aside => .ok p
  | .fault fault line => .error ⟨some line, fault⟩

def finish (p : Progress) : Except DocumentFault Node :=
  match p.stack, p.root with
  | top :: _, _ => .error ⟨some top.line, .unclosedElement top.tag.name⟩
  | [], some root => .ok root
  | [], none => .error ⟨none, .noRoot⟩

end Progress

def Node.ofEvents (events : List Event) : Except DocumentFault Node := do
  let progress ← events.foldlM Progress.step {}
  progress.finish

def Node.ofDocument (source : String) : Except DocumentFault Node :=
  ofEvents (Event.ofDocument source)

end WireSchema.Markup
