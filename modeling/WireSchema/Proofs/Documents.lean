import WireSchema.Fault
import WireSchema.Proofs.Tokens
import WireSchema.Proofs.Values

/-!
Documents and their trees. The tokens of a list of elements attach these elements one after another
to whatever is open around them, so the tokens of one tree, read from the start, leave that tree as
the root. The tags of the open elements come and go as on a stack; a document that has no element,
one outside of the first, or one that is not closed under its name is refused.
-/

namespace WireSchema.Markup

open Text

namespace Node

def tag (node : Node) : Tag := ⟨node.name, node.attributes⟩

mutual
def withoutLines : Node → Node
  | ⟨name, attributes, children, text, _⟩ => ⟨name, attributes, allWithoutLines children, text, 0⟩

def allWithoutLines : List Node → List Node
  | [] => []
  | node :: rest => withoutLines node :: allWithoutLines rest
end

end Node

/-- The tokens of elements and of the text between them: the text comes in pieces, asides stand
anywhere, and an element that holds nothing has one tag or two. -/
inductive Forest : List Node → List Char → List Token → Prop where
  | nil : Forest [] [] []
  | aside {nodes : List Node} {text : List Char} {tokens : List Token}
      (rest : Forest nodes text tokens) : Forest nodes text (.aside :: tokens)
  | text {nodes : List Node} {piece text : List Char} {tokens : List Token} (bare : Bare piece)
      (rest : Forest nodes text tokens) : Forest nodes (piece ++ text) (.text piece :: tokens)
  | empty {node : Node} {nodes : List Node} {text : List Char} {tokens : List Token}
      (childless : node.children = []) (textless : node.text = "")
      (rest : Forest nodes text tokens) :
      Forest (node :: nodes) text (.empty node.tag :: tokens)
  | element {node : Node} {nodes : List Node} {text : List Char} {inner tokens : List Token}
      (inside : Forest node.children node.text.toList inner) (rest : Forest nodes text tokens) :
      Forest (node :: nodes) text (.start node.tag :: (inner ++ .finish node.name :: tokens))

def Node.Written (tree : Node) (text : String) : Prop :=
  ∃ tokens, Forest [tree] [] tokens ∧ Spelled tokens text.toList

inductive Node.WellFormed : Node → Prop where
  | mk {node : Node} (tag : node.tag.WellFormed)
      (text : node.text = "" ∨ Bare node.text.toList)
      (children : ∀ child ∈ node.children, WellFormed child) : WellFormed node

section Writing

def Writable (nodes : List Node) : Prop :=
  ∀ {behind : List Token} {w : List Char}, Spelled behind w →
    ∃ tokens out, Spelled (tokens ++ behind) out ∧
      ∀ {others : List Node} {text : List Char} {rest : List Token},
        Forest others text rest → Forest (nodes ++ others) text (tokens ++ rest)

theorem writable_all {nodes : List Node} (each : ∀ node ∈ nodes, Writable [node]) :
    Writable nodes := by
  induction nodes with
  | nil => exact fun spelled => ⟨[], _, spelled, id⟩
  | cons node nodes ih =>
      intro behind w spelled
      obtain ⟨ofNode, ofNodes⟩ := List.forall_mem_cons.mp each
      obtain ⟨later, w', spelledLater, forestLater⟩ := ih ofNodes spelled
      obtain ⟨tokens, out, spelledAll, forest⟩ := ofNode spelledLater
      refine ⟨tokens ++ later, out, ?_, ?_⟩
      · rwa [List.append_assoc]
      · intro others text rest behindAll
        rw [List.append_assoc]
        exact forest (forestLater behindAll)

theorem spelled_first {t : Token} {w : List Char} (spells : t.Spells w) {tokens : List Token}
    {text : List Char} (spelled : Spelled tokens text) : Spelled (t :: tokens) (w ++ text) :=
  .markup (List.forall_mem_nil _) spells spelled

theorem forest_text {content : List Char} (bare : Bare content) :
    Forest [] content [.text content] := by
  have forest := Forest.text bare .nil
  rwa [List.append_nil] at forest

/-- The text of an element can stand in front of its end. -/
theorem text_writable {content : List Char} (text : content = [] ∨ Bare content) {t : Token}
    {w : List Char} (spells : t.Spells w) {behind : List Token} {rest : List Char}
    (spelled : Spelled behind rest) :
    ∃ tokens out, Spelled (tokens ++ t :: behind) out ∧ Forest [] content tokens := by
  obtain rfl | bare := text
  · exact ⟨[], _, spelled_first spells spelled, .nil⟩
  · have known : ("lt", '<') ∈ Escape.predefined := by decide
    have none : IsSpaces [] := List.forall_mem_nil _
    obtain ⟨raw, written⟩ := Escape.exists_written ⟨"lt", known⟩ content
    exact ⟨_, _, .text none written bare none spells spelled, forest_text bare⟩

theorem writable_of_well_formed {node : Node} (wellFormed : node.WellFormed) : Writable [node] := by
  induction wellFormed with
  | @mk node tag text _ ih =>
      intro behind w spelled
      obtain ⟨content, written⟩ := Tag.exists_writes tag
      have ending : Token.Spells (.finish node.name) _ := .finish tag.name (List.forall_mem_nil _)
      have content : node.text.toList = [] ∨ Bare node.text.toList :=
        text.imp_left String.toList_eq_nil_iff.mpr
      -- From the back: the end tag, in front of it the text, then the children, then the start tag.
      obtain ⟨piece, w', spelledPiece, forestPiece⟩ := text_writable content ending spelled
      obtain ⟨inner, w'', spelledInner, forestInner⟩ := writable_all ih spelledPiece
      have whole (rest : List Token) :
          .start node.tag :: (inner ++ piece ++ [.finish node.name]) ++ rest =
            .start node.tag :: (inner ++ (piece ++ .finish node.name :: rest)) := by
        simp only [List.cons_append, List.append_assoc, List.nil_append]
      have spelledAll := spelled_first (.start written) spelledInner
      have inside := forestInner forestPiece
      rw [List.append_nil] at inside
      refine ⟨.start node.tag :: (inner ++ piece ++ [.finish node.name]), _,
        whole behind ▸ spelledAll, ?_⟩
      intro others text rest forest
      rw [whole, ← List.append_assoc]
      exact .element inside forest

theorem exists_written_tree {tree : Node} (wellFormed : tree.WellFormed) :
    ∃ text, tree.Written text := by
  obtain ⟨tokens, out, spelled, forest⟩ :=
    writable_of_well_formed wellFormed (.nil (List.forall_mem_nil _))
  refine ⟨String.ofList out, tokens ++ [], forest .nil, ?_⟩
  rwa [String.toList_ofList]

end Writing

namespace Progress

def addText (p : Progress) (text : List Char) : Progress :=
  match p.stack with
  | top :: outer =>
      { p with stack := { top with text := top.text ++ String.ofList text } :: outer }
  | [] => p

theorem append_bare (p : Progress) {content : List Char} (bare : Bare content) :
    p.append content = p.addText content := by
  rw [append, trim_bare bare]
  rfl

theorem add_text_nil (p : Progress) : p.addText [] = p := by
  obtain ⟨_ | ⟨top, outer⟩, root⟩ := p
  · rfl
  · simp [addText]

theorem add_text_append (p : Progress) (front back : List Char) :
    (p.addText front).addText back = p.addText (front ++ back) := by
  obtain ⟨_ | ⟨top, outer⟩, root⟩ := p
  · rfl
  · simp [addText, String.ofList_append, String.append_assoc]

/-- Text does not get in the way of elements. -/
theorem attach_add_text (p : Progress) (text : List Char) (node : Node) :
    (p.addText text).attach node = (p.attach node).map (·.addText text) := by
  obtain ⟨_ | ⟨top, outer⟩, _ | root⟩ := p <;> rfl

theorem attach_all_add_text (p : Progress) (text : List Char) (nodes : List Node) :
    nodes.foldlM attach (p.addText text) = (nodes.foldlM attach p).map (·.addText text) := by
  induction nodes generalizing p with
  | nil => rfl
  | cons node nodes ih =>
      rw [List.foldlM_cons, List.foldlM_cons, attach_add_text]
      cases p.attach node with
      | error fault => rfl
      | ok q => exact ih q

theorem attach_all_inside (top : OpenElement) (outer : List OpenElement) (root : Option Node)
    (nodes : List Node) :
    nodes.foldlM attach ⟨top :: outer, root⟩ =
      .ok ⟨{ top with children := nodes.reverse ++ top.children } :: outer, root⟩ := by
  induction nodes generalizing top with
  | nil => rfl
  | cons node nodes ih =>
      rw [List.foldlM_cons, List.reverse_cons, List.append_assoc]
      exact ih { top with children := node :: top.children }

theorem run_cons {p q : Progress} {event : Event} (stepped : p.step event = .ok q)
    (events : List Event) : (event :: events).foldlM step p = events.foldlM step q := by
  rw [List.foldlM_cons, stepped]
  rfl

theorem run_append {p q : Progress} {front : List Event} (done : front.foldlM step p = .ok q)
    (back : List Event) : (front ++ back).foldlM step p = back.foldlM step q := by
  rw [List.foldlM_append, done]
  rfl

/-! ### Steps by token -/

variable {event : Event} {tag : Tag} {name : String} {content : List Char}

theorem step_start (reads : event.Reads (.start tag)) :
    ∃ line, ∀ p : Progress, p.step event = .ok ⟨⟨tag, line, [], ""⟩ :: p.stack, p.root⟩ := by
  cases reads with
  | @start content line _ read =>
      refine ⟨line, fun p => ?_⟩
      rw [step, readTag, read]
      rfl

theorem step_empty (reads : event.Reads (.empty tag)) :
    ∃ line, ∀ p : Progress, p.step event = p.attach (OpenElement.close ⟨tag, line, [], ""⟩) := by
  cases reads with
  | @empty content line _ read =>
      refine ⟨line, fun p => ?_⟩
      rw [step, readTag, read]
      rfl

theorem step_finish (reads : event.Reads (.finish name)) {top : OpenElement}
    (named : top.tag.name = name) (outer : List OpenElement) (root : Option Node) :
    step ⟨top :: outer, root⟩ event = attach ⟨outer, root⟩ top.close := by
  cases reads with
  | finish read => simp only [step, if_pos (read.trans named.symm)]

theorem step_text (reads : event.Reads (.text content)) (bare : Bare content) (p : Progress) :
    p.step event = .ok (p.addText content) := by
  cases reads with
  | text decoded => rw [step, decoded, ← p.append_bare bare]

theorem step_aside (reads : event.Reads .aside) (p : Progress) : p.step event = .ok p := by
  cases reads
  rfl

theorem attach_then (p : Progress) (node : Node) (nodes : List Node) (text : List Char) :
    (p.attach node >>= fun q => (nodes.foldlM attach q).map (·.addText text)) =
      ((node :: nodes).foldlM attach p).map (·.addText text) := by
  rw [List.foldlM_cons]
  cases p.attach node <;> rfl

end Progress

theorem without_lines_close {node : Node} {read : List Node}
    (same : Node.allWithoutLines read = Node.allWithoutLines node.children) (line : Nat) :
    (OpenElement.close ⟨node.tag, line, read.reverse, node.text⟩).withoutLines =
      node.withoutLines := by
  rw [OpenElement.close, List.reverse_reverse]
  cases node
  exact congrArg (Node.mk _ _ · _ _) same

theorem reads_append {events : List Event} {front back : List Token}
    (reads : List.Forall₂ Event.Reads events (front ++ back)) :
    ∃ first second, events = first ++ second ∧
      List.Forall₂ Event.Reads first front ∧ List.Forall₂ Event.Reads second back :=
  ⟨_, _, (List.take_append_drop front.length events).symm, List.forall₂_take_append _ _ _ reads,
    List.forall₂_drop_append _ _ _ reads⟩

/-- Reading the tokens of elements attaches the elements, whatever is open around them. -/
theorem run_forest {nodes : List Node} {text : List Char} {tokens : List Token}
    (forest : Forest nodes text tokens) {events : List Event}
    (reads : List.Forall₂ Event.Reads events tokens) :
    ∃ read, Node.allWithoutLines read = Node.allWithoutLines nodes ∧
      ∀ p : Progress, events.foldlM Progress.step p =
        (read.foldlM Progress.attach p).map (·.addText text) := by
  induction forest generalizing events with
  | nil =>
      cases reads
      exact ⟨[], rfl, fun p => congrArg Except.ok p.add_text_nil.symm⟩
  | aside _ ih =>
      obtain _ | ⟨isAside, others⟩ := reads
      obtain ⟨read, same, run⟩ := ih others
      refine ⟨read, same, fun p => ?_⟩
      rw [Progress.run_cons (Progress.step_aside isAside p), run]
  | @text nodes piece text tokens bare _ ih =>
      obtain _ | ⟨isText, others⟩ := reads
      obtain ⟨read, same, run⟩ := ih others
      refine ⟨read, same, fun p => ?_⟩
      rw [Progress.run_cons (Progress.step_text isText bare p), run, Progress.attach_all_add_text]
      cases read.foldlM Progress.attach p with
      | error fault => rfl
      | ok q => exact congrArg Except.ok (q.add_text_append piece text)
  | @empty node nodes text tokens childless textless _ ih =>
      obtain _ | ⟨isTag, others⟩ := reads
      obtain ⟨read, same, run⟩ := ih others
      obtain ⟨line, step⟩ := Progress.step_empty isTag
      have childrenRead : Node.allWithoutLines [] = Node.allWithoutLines node.children := by
        rw [childless]
      refine ⟨OpenElement.close ⟨node.tag, line, [], ""⟩ :: read, ?_, fun p => ?_⟩
      · rw [Node.allWithoutLines, Node.allWithoutLines, same, ← textless]
        exact congrArg (· :: _) (without_lines_close childrenRead line)
      · rw [List.foldlM_cons, step, ← p.attach_then]
        exact congrArg (Except.bind _) (funext run)
  | @element node nodes text inner tokens _ _ ihInside ih =>
      -- The elements inside are attached to this one, and at its end tag it is attached itself.
      obtain _ | ⟨isTag, others⟩ := reads
      obtain ⟨first, second, rfl, inside, outside⟩ := reads_append others
      obtain _ | ⟨isEnd, behind⟩ := outside
      obtain ⟨children, sameInside, runInside⟩ := ihInside inside
      obtain ⟨read, same, run⟩ := ih behind
      obtain ⟨line, step⟩ := Progress.step_start isTag
      refine ⟨OpenElement.close ⟨node.tag, line, children.reverse, node.text⟩ :: read, ?_,
        fun p => ?_⟩
      · rw [Node.allWithoutLines, Node.allWithoutLines, same]
        exact congrArg (· :: _) (without_lines_close sameInside line)
      · have filled : first.foldlM Progress.step ⟨⟨node.tag, line, [], ""⟩ :: p.stack, p.root⟩ =
            .ok ⟨⟨node.tag, line, children.reverse, node.text⟩ :: p.stack, p.root⟩ := by
          rw [runInside, Progress.attach_all_inside]
          simp [Except.map, Progress.addText]
        rw [Progress.run_cons (step p), Progress.run_append filled, List.foldlM_cons,
          Progress.step_finish isEnd rfl, ← p.attach_then]
        exact congrArg (Except.bind _) (funext run)

theorem spaces_head {blanks rest : List Char} (spaces : IsSpaces blanks)
    (head : rest.head? ≠ some '\uFEFF') : (blanks ++ rest).head? ≠ some '\uFEFF' := by
  cases blanks with
  | nil => exact head
  | cons c blanks =>
      rintro ⟨⟩
      exact absurd (spaces _ List.mem_cons_self) (by decide)

/-- Where no text is, none comes first. -/
theorem forest_textless {nodes : List Node} {text content : List Char} {tokens : List Token}
    (forest : Forest nodes text (.text content :: tokens)) : text ≠ [] := by
  cases forest with
  | text bare _ =>
      obtain ⟨c, first, -⟩ := bare.first
      obtain ⟨more, rfl⟩ := List.head?_eq_some_iff.mp first
      exact List.cons_ne_nil _ _

/-- A writing starts with a blank or a bracket, not with a byte order mark. -/
theorem written_head {nodes : List Node} {tokens : List Token} (forest : Forest nodes [] tokens)
    {text : List Char} (spelled : Spelled tokens text) : text.head? ≠ some '\uFEFF' := by
  cases spelled with
  | nil spaces =>
      rw [← List.append_nil text]
      exact spaces_head spaces nofun
  | markup spaces spells _ =>
      obtain ⟨tail, rfl⟩ := spells_opening spells
      rw [List.append_assoc]
      exact spaces_head spaces nofun
  | text => exact absurd rfl (forest_textless forest)

theorem of_events_forest {tree : Node} {tokens : List Token} {events : List Event}
    (forest : Forest [tree] [] tokens) (reads : List.Forall₂ Event.Reads events tokens) :
    (Node.ofEvents events).map Node.withoutLines = .ok tree.withoutLines := by
  obtain ⟨read, same, run⟩ := run_forest forest reads
  obtain _ | ⟨root, _ | ⟨second, more⟩⟩ := read
  · cases same
  · have sameTree : root.withoutLines = tree.withoutLines := (List.cons.inj same).1
    rw [Node.ofEvents, run, ← sameTree]
    rfl
  · cases (List.cons.inj same).2

theorem Event.of_document_spelled {tokens : List Token} {text : String}
    (spelled : Spelled tokens text.toList) (noMark : text.toList.head? ≠ some '\uFEFF') :
    List.Forall₂ Event.Reads (Event.ofDocument text) tokens := by
  rw [Event.of_document_stream noMark]
  exact Event.stream_spelled _ spelled 0

/-! ### Refusals -/

def elementName (content : List Char) : String :=
  String.ofList (content.takeWhile fun c => !isSpace c)

theorem of_content_name {content : List Char} {tag : Tag} (read : Tag.ofContent content = .ok tag) :
    tag.name = elementName content := by
  obtain ⟨attributes, -, rfl⟩ := except_map_ok.mp read
  rfl

namespace Event

def begins : Event → Bool
  | .start _ _ | .empty _ _ => true
  | _ => false

def opens : Event → Bool
  | .start _ _ => true
  | _ => false

def closes : Event → Bool
  | .finish _ _ => true
  | _ => false

def openings (events : List Event) : Nat := events.countP opens

def closings (events : List Event) : Nat := events.countP closes

theorem openings_append (front back : List Event) :
    openings (front ++ back) = openings front + openings back := List.countP_append

theorem closings_append (front back : List Event) :
    closings (front ++ back) = closings front + closings back := List.countP_append

/-- The events close the element of this name, inside of which `depth` elements are open. -/
inductive Closes (name : String) : Nat → List Event → Prop where
  | here {content : List Char} {line : Nat} {rest : List Event}
      (named : String.ofList (Progress.endName content) = name) :
      Closes name 0 (.finish content line :: rest)
  | opened {depth line : Nat} {content : List Char} {rest : List Event}
      (later : Closes name (depth + 1) rest) : Closes name depth (.start content line :: rest)
  | closed {depth line : Nat} {content : List Char} {rest : List Event}
      (later : Closes name depth rest) : Closes name (depth + 1) (.finish content line :: rest)
  | other {depth : Nat} {event : Event} {rest : List Event} (opens : event.opens = false)
      (closes : event.closes = false) (later : Closes name depth rest) :
      Closes name depth (event :: rest)

def Rootless (events : List Event) : Prop := ∀ event ∈ events, event.begins = false

def HasSecondRoot (events : List Event) : Prop :=
  ∃ before event after, events = before ++ event :: after ∧ event.begins ∧
    (∃ first ∈ before, first.begins) ∧ openings before ≤ closings before

def LeavesOpen (events : List Event) : Prop :=
  ∃ before content line after, events = before ++ .start content line :: after ∧
    ¬ Closes (elementName content) 0 after

end Event

namespace Progress

open Event

variable {p q : Progress} {event : Event} {events : List Event}

def tags (p : Progress) : List Tag := p.stack.map OpenElement.tag

theorem nonempty_of_tags (same : q.tags = p.tags) (nonempty : p.stack ≠ []) : q.stack ≠ [] := by
  intro isEmpty
  rw [tags, isEmpty] at same
  exact nonempty (List.map_eq_nil_iff.mp same.symm)

theorem attach_ok {node : Node} (attached : p.attach node = .ok q) :
    q.tags = p.tags ∧
      (p.stack = [] ∧ p.root = none ∧ q.root.isSome ∨ p.stack ≠ [] ∧ q.root = p.root) := by
  obtain ⟨_ | ⟨top, outer⟩, _ | root⟩ := p <;> cases attached
  · exact ⟨rfl, .inl ⟨rfl, rfl, rfl⟩⟩
  · exact ⟨rfl, .inr ⟨List.cons_ne_nil _ _, rfl⟩⟩
  · exact ⟨rfl, .inr ⟨List.cons_ne_nil _ _, rfl⟩⟩

theorem append_frame (p : Progress) (content : List Char) :
    (p.append content).tags = p.tags ∧ (p.append content).root = p.root := by
  obtain ⟨_ | ⟨top, outer⟩, root⟩ := p <;> exact ⟨rfl, rfl⟩

inductive Moves (p : Progress) : Event → Progress → Prop where
  | start {content : List Char} {line : Nat} {tag : Tag} (read : Tag.ofContent content = .ok tag) :
      Moves p (.start content line) ⟨⟨tag, line, [], ""⟩ :: p.stack, p.root⟩
  | empty {content : List Char} {line : Nat} {node : Node} {q : Progress}
      (attached : p.attach node = .ok q) : Moves p (.empty content line) q
  | finish {content : List Char} {line : Nat} {top : OpenElement} {outer : List OpenElement}
      {node : Node} {q : Progress} (stack : p.stack = top :: outer)
      (named : String.ofList (endName content) = top.tag.name)
      (attached : attach ⟨outer, p.root⟩ node = .ok q) : Moves p (.finish content line) q
  | other {event : Event} {q : Progress} (begins : event.begins = false)
      (opens : event.opens = false) (closes : event.closes = false) (tags : q.tags = p.tags)
      (root : q.root = p.root) : Moves p event q

theorem step_moves (done : p.step event = .ok q) : p.Moves event q := by
  cases event with
  | start content line =>
      rw [step, readTag] at done
      split at done
      · rename_i tag read
        cases done
        exact .start read
      · cases done
  | empty content line =>
      rw [step, except_bind_ok] at done
      obtain ⟨tag, -, attached⟩ := done
      exact .empty attached
  | finish content line =>
      rw [step] at done
      split at done
      · cases done
      · rename_i top outer stack
        simp only at done
        split at done
        · rename_i named
          exact .finish stack named done
        · cases done
  | text raw =>
      rw [step] at done
      split at done
      · cases done
        exact .other rfl rfl rfl (p.append_frame _).1 (p.append_frame _).2
      · cases done
  | cdata raw =>
      cases done
      exact .other rfl rfl rfl (p.append_frame _).1 (p.append_frame _).2
  | aside =>
      cases done
      exact .other rfl rfl rfl rfl rfl
  | fault => cases done

/-- Each tag that opens an element adds one to the open ones, and each that closes one takes it. -/
theorem step_depth (done : p.step event = .ok q) :
    q.tags.length + closings [event] = p.tags.length + openings [event] := by
  cases step_moves done with
  | start => rfl
  | empty attached => exact congrArg List.length (attach_ok attached).1
  | finish stack _ attached =>
      rw [(attach_ok attached).1, tags, tags, stack]
      rfl
  | other _ opens closes same => simp [closings, openings, closes, opens, same]

theorem run_depth (done : events.foldlM step p = .ok q) :
    q.tags.length + closings events = p.tags.length + openings events := by
  induction events generalizing p with
  | nil =>
      cases done
      rfl
  | cons event events ih =>
      rw [List.foldlM_cons, except_bind_ok] at done
      obtain ⟨middle, first, others⟩ := done
      have once := step_depth first
      have later := ih others
      have closed : closings (event :: events) = closings [event] + closings events :=
        closings_append [event] events
      have opened : openings (event :: events) = openings [event] + openings events :=
        openings_append [event] events
      omega

/-- A run closes each open element under its name that is not open any more at the end. -/
theorem run_closes {above outer : List Tag} {tag : Tag} (isOpen : p.tags = above ++ tag :: outer)
    (done : events.foldlM step p = .ok q) (noMore : q.tags.length ≤ outer.length) :
    Closes tag.name above.length events := by
  -- The tags above the element are those opened inside of it; they come and go one at a time.
  induction events generalizing p above with
  | nil =>
      cases done
      rw [isOpen, List.length_append, List.length_cons] at noMore
      omega
  | cons event events ih =>
      rw [List.foldlM_cons, except_bind_ok] at done
      obtain ⟨middle, first, others⟩ := done
      cases step_moves first with
      | @start content line inner read =>
          have deeper : Progress.tags ⟨⟨inner, line, [], ""⟩ :: p.stack, p.root⟩ =
              inner :: above ++ tag :: outer := congrArg (inner :: ·) isOpen
          exact .opened (ih deeper others)
      | empty attached => exact .other rfl rfl (ih ((attach_ok attached).1.trans isOpen) others)
      | @finish content line top below node _ stack named attached =>
          have popped : top.tag :: middle.tags = above ++ tag :: outer := by
            rw [← isOpen, (attach_ok attached).1, tags, tags, stack]
            rfl
          cases above with
          | nil =>
              cases popped
              exact .here named
          | cons inner above => exact .closed (ih (List.cons.inj popped).2 others)
      | other _ opens closes same => exact .other opens closes (ih (same.trans isOpen) others)

def Begun (p : Progress) : Prop := p.stack ≠ [] ∨ p.root.isSome

theorem attach_begun {node : Node} (attached : p.attach node = .ok q) : q.Begun := by
  obtain ⟨same, ⟨-, -, isSome⟩ | ⟨nonempty, -⟩⟩ := attach_ok attached
  · exact .inr isSome
  · exact .inl (nonempty_of_tags same nonempty)

theorem step_begun (done : p.step event = .ok q) : q.Begun ↔ p.Begun ∨ event.begins := by
  cases step_moves done with
  | start => exact iff_of_true (.inl (List.cons_ne_nil _ _)) (.inr rfl)
  | empty attached => exact iff_of_true (attach_begun attached) (.inr rfl)
  | finish stack _ attached =>
      refine iff_of_true (attach_begun attached) (.inl (.inl ?_))
      rw [stack]
      exact List.cons_ne_nil _ _
  | other begins _ _ same root =>
      have stack : q.stack = [] ↔ p.stack = [] := by
        rw [← List.map_eq_nil_iff, ← tags, same, tags, List.map_eq_nil_iff]
      simp [Begun, begins, root, stack]

theorem run_begun (done : events.foldlM step p = .ok q) :
    q.Begun ↔ p.Begun ∨ ∃ event ∈ events, event.begins := by
  induction events generalizing p with
  | nil =>
      cases done
      simp
  | cons event events ih =>
      rw [List.foldlM_cons, except_bind_ok] at done
      obtain ⟨middle, first, others⟩ := done
      rw [ih others, step_begun first, or_assoc, List.exists_mem_cons_iff]

/-- The root is complete, and yet an element is open. No step leads out of this. -/
def Crowded (p : Progress) : Prop := p.stack ≠ [] ∧ p.root.isSome

theorem attach_crowded {node : Node} (attached : p.attach node = .ok q) (root : p.root.isSome) :
    q.Crowded := by
  obtain ⟨same, ⟨-, isNone, -⟩ | ⟨nonempty, sameRoot⟩⟩ := attach_ok attached
  · rw [isNone] at root
    cases root
  · exact ⟨nonempty_of_tags same nonempty, sameRoot ▸ root⟩

theorem step_crowded (done : p.step event = .ok q) (root : p.root.isSome)
    (further : p.stack ≠ [] ∨ event.begins) : q.Crowded := by
  cases step_moves done with
  | start => exact ⟨List.cons_ne_nil _ _, root⟩
  | empty attached => exact attach_crowded attached root
  | finish _ _ attached => exact attach_crowded attached root
  | other begins _ _ same sameRoot =>
      rw [begins] at further
      have nonempty : p.stack ≠ [] := further.resolve_right Bool.false_ne_true
      exact ⟨nonempty_of_tags same nonempty, sameRoot ▸ root⟩

theorem finish_ok {node : Node} (done : p.finish = .ok node) :
    p.stack = [] ∧ p.root.isSome := by
  obtain ⟨_ | ⟨top, outer⟩, _ | root⟩ := p <;> cases done
  exact ⟨rfl, rfl⟩

theorem run_rootless (rootless : Rootless events) (done : events.foldlM step {} = .ok q) :
    ¬ q.root.isSome := by
  intro root
  rcases (run_begun done).mp (.inr root) with (nonempty | isSome) | ⟨event, member, begins⟩
  · exact nonempty rfl
  · cases isSome
  · rw [rootless event member] at begins
    cases begins

theorem run_split {before after : List Event}
    (done : (before ++ event :: after).foldlM step p = .ok q) :
    ∃ reached next, before.foldlM step p = .ok reached ∧ reached.step event = .ok next ∧
      after.foldlM step next = .ok q := by
  rw [List.foldlM_append, except_bind_ok] at done
  obtain ⟨reached, first, others⟩ := done
  rw [List.foldlM_cons, except_bind_ok] at others
  obtain ⟨next, stepped, later⟩ := others
  exact ⟨reached, next, first, stepped, later⟩

theorem run_second_root (second : HasSecondRoot events) (done : events.foldlM step {} = .ok q) :
    q.stack ≠ [] := by
  obtain ⟨before, event, after, rfl, begins, earlier, closed⟩ := second
  obtain ⟨reached, next, first, stepped, later⟩ := run_split done
  have depth : reached.tags.length + closings before = 0 + openings before := run_depth first
  have noneOpen : reached.stack = [] := by
    rw [tags, List.length_map] at depth
    exact List.length_eq_zero_iff.mp (by omega)
  have begun : reached.Begun := (run_begun first).mpr (.inr earlier)
  have root : reached.root.isSome := begun.resolve_left (absurd noneOpen)
  have crowded : next.Crowded := step_crowded stepped root (.inr begins)
  have kept : q.Crowded := fold_keeps Crowded
    (fun _ _ _ crowded stepped => step_crowded stepped crowded.2 (.inl crowded.1)) crowded later
  exact kept.1

theorem run_left_open (leaves : LeavesOpen events) (done : events.foldlM step {} = .ok q) :
    q.stack ≠ [] := by
  obtain ⟨before, content, line, after, rfl, unclosed⟩ := leaves
  obtain ⟨reached, next, -, stepped, later⟩ := run_split done
  intro isEmpty
  apply unclosed
  cases step_moves stepped with
  | @start _ _ tag read =>
      have opened : Progress.tags ⟨⟨tag, line, [], ""⟩ :: reached.stack, reached.root⟩ =
          [] ++ tag :: reached.tags := rfl
      rw [← of_content_name read]
      refine run_closes opened later ?_
      rw [tags, isEmpty]
      exact Nat.zero_le _
  | other _ opens => cases opens

end Progress

theorem of_events_broken {events : List Event} (broken : Event.Rootless events ∨
    Event.HasSecondRoot events ∨ Event.LeavesOpen events) :
    ∃ fault, Node.ofEvents events = .error fault := by
  cases read : Node.ofEvents events with
  | error fault => exact ⟨fault, rfl⟩
  | ok node =>
      rw [Node.ofEvents, except_bind_ok] at read
      obtain ⟨q, done, finished⟩ := read
      obtain ⟨noneOpen, root⟩ := Progress.finish_ok finished
      obtain rootless | second | leaves := broken
      · exact absurd root (Progress.run_rootless rootless done)
      · exact absurd noneOpen (Progress.run_second_root second done)
      · exact absurd noneOpen (Progress.run_left_open leaves done)

section Listing

def listing : Node :=
  { name := "list", attributes := [("kind", "a < b")], children := [{ name := "item" }],
    text := "x & y" }

def listingText : String := "<!--two--><list kind='a &lt; b'>\n <item/>x &amp; y</list>"

def listingTokens : List Token :=
  [.aside, .start ⟨"list", [("kind", "a < b")]⟩, .empty ⟨"item", []⟩, .text "x & y".toList,
    .finish "list"]

theorem item_tag_well_formed : Tag.WellFormed ⟨"item", []⟩ :=
  ⟨⟨by decide, by simp [IsNameChar, isSpace]⟩, List.forall_mem_nil _, .nil⟩

theorem listing_tag_well_formed : Tag.WellFormed ⟨"list", [("kind", "a < b")]⟩ := by
  refine ⟨⟨by decide, by simp [IsNameChar, isSpace]⟩, ?_, by simp⟩
  intro entry member
  cases List.mem_singleton.mp member
  exact ⟨by decide, by simp [IsNameChar, isSpace]⟩

theorem listing_text_bare : Bare "x & y".toList := ⟨⟨'x', rfl, rfl⟩, ⟨'y', rfl, rfl⟩⟩

theorem listing_well_formed : listing.WellFormed := by
  refine .mk listing_tag_well_formed (.inr listing_text_bare) ?_
  intro child member
  cases List.mem_singleton.mp member
  exact .mk item_tag_well_formed (.inl rfl) (List.forall_mem_nil _)

theorem listing_forest : Forest [listing] [] listingTokens := by
  have inside : Forest listing.children listing.text.toList
      [.empty ⟨"item", []⟩, .text "x & y".toList] :=
    .empty rfl rfl (forest_text listing_text_bare)
  exact .aside (.element inside .nil)

theorem listing_spelled : Spelled listingTokens listingText.toList := by
  have none : IsSpaces [] := List.forall_mem_nil _
  have blank : IsSpaces [' '] := by simp [IsSpaces, isSpace]
  have indent : IsSpaces ['\n', ' '] := by simp [IsSpaces, isSpace]
  have value : Escape.Writes '\'' ['a', ' ', '&', 'l', 't', ';', ' ', 'b'] "a < b".toList :=
    .plain (by decide) (.plain (by decide) (.named (by decide : ("lt", '<') ∈ _)
      (.plain (by decide) (.plain (by decide) .nil))))
  have content : Escape.Writes '<' ['x', ' ', '&', 'a', 'm', 'p', ';', ' ', 'y'] "x & y".toList :=
    .plain (by decide) (.plain (by decide) (.named (by decide : ("amp", '&') ∈ _)
      (.plain (by decide) (.plain (by decide) .nil))))
  have attributes : Tag.WritesAttributes [("kind", "a < b")] _ :=
    .cons (List.cons_ne_nil _ _) blank none none (.inr rfl) value .nil
  have opening : Tag.Writes ⟨"list", [("kind", "a < b")]⟩ _ :=
    ⟨listing_tag_well_formed, _, [], attributes, none, rfl⟩
  have item : Tag.Writes ⟨"item", []⟩ _ := ⟨item_tag_well_formed, _, [], .nil, none, rfl⟩
  have comment : IsComment ['t', 'w', 'o'] := by
    unfold IsComment
    decide
  have ending : Spelled [.text "x & y".toList, .finish "list"] _ :=
    .text none content listing_text_bare none (.finish listing_tag_well_formed.name none)
      (.nil none)
  exact .markup none (.comment comment) (.markup none (.start opening)
    (.markup indent (.empty item) ending))

end Listing

/-- Events that are those of the tokens of a tree build that tree but for the lines, and events
without an element, with one outside of the first, or with one that is not closed under its name are
refused for their markup. The events of a text are such events: what is written for tokens has the
events of these tokens, and a tag that the end of the text cuts off counts as a tag. So what is
written for a tree is read as that tree, and there is a writing for every tree with names for names,
no attribute twice and no blanks around a text. -/
theorem documents_rebuilt :
    (∀ tree : Node, tree.WellFormed → ∃ text, tree.Written text) ∧
    (∀ (tree : Node) (tokens : List Token) (events : List Event), Forest [tree] [] tokens →
      List.Forall₂ Event.Reads events tokens →
      (Node.ofEvents events).map Node.withoutLines = .ok tree.withoutLines) ∧
    (∀ (tokens : List Token) (text : String), Spelled tokens text.toList →
      text.toList.head? ≠ some '\uFEFF' →
      List.Forall₂ Event.Reads (Event.ofDocument text) tokens) ∧
    (∀ (tree : Node) (text : String), tree.Written text →
      (Node.ofDocument text).map Node.withoutLines = .ok tree.withoutLines) ∧
    (∀ events : List Event, Event.Rootless events ∨ Event.HasSecondRoot events ∨
        Event.LeavesOpen events →
      ∃ fault, Node.ofEvents events = .error fault ∧
        (Error.ofDocument fault).category = .markup) ∧
    (∀ text : String, Event.Rootless (Event.ofDocument text) ∨
        Event.HasSecondRoot (Event.ofDocument text) ∨ Event.LeavesOpen (Event.ofDocument text) →
      ∃ fault, Node.ofDocument text = .error fault ∧
        (Error.ofDocument fault).category = .markup) := by
  have refused : ∀ events : List Event, Event.Rootless events ∨ Event.HasSecondRoot events ∨
      Event.LeavesOpen events → ∃ fault, Node.ofEvents events = .error fault ∧
        (Error.ofDocument fault).category = .markup := by
    intro events broken
    obtain ⟨fault, refused⟩ := of_events_broken broken
    exact ⟨fault, refused, rfl⟩
  refine ⟨fun _ => exists_written_tree, fun _ _ _ => of_events_forest,
    fun _ _ => Event.of_document_spelled, ?_, refused, fun text => refused _⟩
  rintro tree text ⟨tokens, forest, spelled⟩
  exact of_events_forest forest (Event.of_document_spelled spelled (written_head forest spelled))

/-- The rule at a document that is read, and at three that are refused. -/
theorem listing_rebuilt :
    (listing.WellFormed ∧ ∃ text, listing.Written text) ∧
    (listing.Written listingText ∧
      (Node.ofDocument listingText).map Node.withoutLines = .ok listing.withoutLines) ∧
    (Spelled listingTokens listingText.toList ∧
      List.Forall₂ Event.Reads (Event.ofDocument listingText) listingTokens ∧
      (Node.ofEvents (Event.ofDocument listingText)).map Node.withoutLines =
        .ok listing.withoutLines) ∧
    (∃ fault, Node.ofDocument "<!---->" = .error fault ∧
      (Error.ofDocument fault).category = .markup) ∧
    (∃ fault, Node.ofDocument "<a/><b/>" = .error fault ∧
      (Error.ofDocument fault).category = .markup) ∧
    (∃ fault, Node.ofDocument "<a><b></a>" = .error fault ∧
      (Error.ofDocument fault).category = .markup) := by
  obtain ⟨writings, build, tokens, read, -, refused⟩ := documents_rebuilt
  have written : listing.Written listingText := ⟨_, listing_forest, listing_spelled⟩
  have noRoot : Event.ofDocument "<!---->" = [.aside] := by rfl
  have twoRoots : Event.ofDocument "<a/><b/>" = [.empty ['a'] 1, .empty ['b'] 1] := by rfl
  have leftOpen : Event.ofDocument "<a><b></a>" =
      [.start ['a'] 1, .start ['b'] 1, .finish ['a'] 1] := by rfl
  have events := tokens _ _ listing_spelled (by decide)
  refine ⟨⟨listing_well_formed, writings _ listing_well_formed⟩, ⟨written, read _ _ written⟩,
    ⟨listing_spelled, events, build _ _ _ listing_forest events⟩, refused _ (.inl ?_),
    refused _ (.inr (.inl ?_)), refused _ (.inr (.inr ?_))⟩
  · rw [noRoot]
    simp [Event.Rootless, Event.begins]
  · rw [twoRoots]
    exact ⟨[.empty ['a'] 1], .empty ['b'] 1, [], rfl, rfl, ⟨_, List.mem_cons_self, rfl⟩, by decide⟩
  · rw [leftOpen]
    refine ⟨[.start ['a'] 1], ['b'], 1, [.finish ['a'] 1], rfl, ?_⟩
    rintro (named | _ | _ | ⟨-, closes, -⟩)
    · exact absurd named (by decide)
    · cases closes

end WireSchema.Markup
