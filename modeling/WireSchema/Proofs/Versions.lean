import WireSchema.Proofs.Loading
import WireSchema.Proofs.Origins
import WireSchema.Proofs.Sorting

/-!
The windows of loaded messages. Fields that are written out in a message, or put into it in the
place of others, nest in its window. Fields that it takes over are lifted to the start of the
window, but neither cut off at its end nor lifted inside, so they may stick out.
-/

namespace WireSchema

open Markup (Node)

namespace Field

theorem of_nodes_ok {env : Environment} {parent : Parent} {nodes : List Node} {fields : List Field}
    (built : (ofNodes env parent nodes).outcome = .ok fields) :
    ∀ f ∈ fields, ∃ node, (ofNode env node parent).outcome = .ok f := by
  intro f member
  obtain ⟨node, -, ofNode⟩ := Build.each_ok built f member
  exact ⟨node, ofNode⟩

theorem read_group_ok {env : Environment} {node : Node} {parent : Parent}
    {inherited fields : List Field}
    (read : (readGroup env node parent inherited).outcome = .ok fields) :
    ∀ f ∈ fields, f ∈ inherited ∨ ∃ node, (ofNode env node parent).outcome = .ok f := by
  simp only [readGroup, Build.bind_ok, Build.lift_outcome, Build.pure_outcome,
    Except.ok.injEq] at read
  obtain ⟨_, -, declared, ofDeclared, _, -, _, -, rfl⟩ := read
  intro f member
  exact (List.mem_append.mp member).imp_right (of_nodes_ok ofDeclared f)

end Field

namespace Message

def Nests (version : Nat) (m : Message) : Prop :=
  m.window.Fits version Window.always ∧ ∀ f ∈ m.fields, f.Nests version m.window

def inherited (dir : Directory) (placed : Placed) : Build (List Field) := do
  let props ← Properties.ofNode placed.node ["description", "displayName"]
  let m ← start dir placed.node props
  copyFields dir placed.node props m

theorem replace_fields_ok {dir : Directory} {line : Nat} {parent : Parent}
    {fields changed : List Field} {groups : List Node}
    (replaced : (replaceFields dir line parent fields groups).outcome = .ok changed) :
    ∀ f ∈ changed, f ∈ fields ∨ ∃ node, (Field.ofNode dir.env node parent).outcome = .ok f := by
  induction groups generalizing fields with
  | nil =>
      cases replaced
      exact fun f member => Or.inl member
  | cons group rest ih =>
      unfold replaceFields at replaced
      split at replaced
      · simp only [Build.bind_ok, Build.lift_outcome] at replaced
        obtain ⟨replacements, built, first, put, others⟩ := replaced
        intro f member
        rcases ih others f member with early | written
        · exact (Field.replace_members_mem put f early).imp_right (Field.of_nodes_ok built f)
        · exact Or.inr written
      · simp only [Build.bind_ok] at replaced
        obtain ⟨_, -, others⟩ := replaced
        exact ih others

/-- A field of a message is one that it takes over, lifted to its start, or one that was built in its
window. -/
theorem read_fields {dir : Directory} {placed : Placed} {m : Message}
    (read : (Message.read dir placed).outcome = .ok m) :
    ∃ taken, (inherited dir placed).outcome = .ok taken ∧
      m.window.Fits dir.context.version Window.always ∧
      ∀ f ∈ m.fields, f ∈ Field.adopt m.window.since taken ∨
        ∃ node, (Field.ofNode dir.env node ⟨.message, m.window⟩).outcome = .ok f := by
  simp only [Message.read, Build.bind_ok, Build.lift_outcome, Build.pure_outcome,
    Except.ok.injEq] at read
  obtain ⟨props, hasProps, start, started, _, -, _, -, _, -, _, -, window, windowed, _, -, taken,
    copied, replaced, put, fields, grouped, _, -, _, -, _, -, rfl⟩ := read
  have took : (inherited dir placed).outcome = .ok taken := by
    simp only [inherited, Build.bind_ok, Build.lift_outcome]
    exact ⟨props, hasProps, start, started, copied⟩
  refine ⟨taken, took, Context.read_window_ok windowed, fun f member => ?_⟩
  -- Declared fields and replacements are both built in the window of the message.
  rcases Field.read_group_ok grouped f member with early | built
  · exact replace_fields_ok put f early
  · exact Or.inr built

theorem read_ok {dir : Directory} {placed : Placed} {m : Message}
    (read : (Message.read dir placed).outcome = .ok m) :
    ∃ taken, (inherited dir placed).outcome = .ok taken ∧
      m.window.Fits dir.context.version Window.always ∧
      ∀ f ∈ m.fields, f ∈ Field.adopt m.window.since taken ∨
        (f.Written dir.env ∧ f.window.Fits dir.context.version m.window) := by
  obtain ⟨taken, took, fits, origin⟩ := read_fields read
  refine ⟨taken, took, fits, fun f member => (origin f member).imp_right ?_⟩
  rintro ⟨node, built⟩
  obtain ⟨ownParts, fitsInside⟩ := Field.of_node_written built
  exact ⟨ownParts, fitsInside rfl⟩

/-- Only the fields that a message takes over, and parts that its fields have from copies, can keep
it from nesting. -/
theorem nests_iff_of_read {dir : Directory} {placed : Placed} {m : Message} {taken : List Field}
    (read : (Message.read dir placed).outcome = .ok m)
    (took : (inherited dir placed).outcome = .ok taken) :
    m.Nests dir.context.version ↔
      (∀ f ∈ Field.adopt m.window.since taken, f ∈ m.fields →
        f.Nests dir.context.version m.window) ∧
      ∀ f ∈ m.fields, f.CopiesNest dir.env := by
  obtain ⟨taken', took', window, origin⟩ := read_ok read
  rw [took, Except.ok.injEq] at took'
  subst took'
  constructor
  · rintro ⟨-, nested⟩
    refine ⟨fun f _ member => nested f member, fun f member => ?_⟩
    exact Field.copies_nest_of_nests (nested f member)
  · rintro ⟨takenNest, copies⟩
    refine ⟨window, fun f member => ?_⟩
    rcases origin f member with inherited | ⟨written, fits⟩
    · exact takenNest f inherited member
    · exact Field.nests_of_written written fits (copies f member)

theorem read_new_ok {dir : Directory} {placed : Placed} {m : Message}
    (done : (readNew dir placed).outcome = .ok m) :
    (Message.read dir placed).outcome = .ok m ∧ checkNew dir placed.node.line m = .ok () := by
  simp only [readNew, Build.bind_ok, Build.lift_outcome, Build.pure_outcome,
    Except.ok.injEq] at done
  obtain ⟨_, ofElement, _, isNew, rfl⟩ := done
  exact ⟨ofElement, isNew⟩

/-- Each message is read after those of the elements before it. -/
theorem read_each_ok {dir : Directory} {nodes : List Placed} {messages : List Message}
    (read : (readEach dir nodes).outcome = .ok messages) :
    ∀ m ∈ messages, m ∈ dir.messages ∨ ∃ front placed back earlier,
      nodes = front ++ placed :: back ∧ (readEach dir front).outcome = .ok earlier ∧
        (Message.read { dir with messages := earlier } placed).outcome = .ok m := by
  intro m member
  rcases Build.gather_ok read m member with
    old | ⟨front, placed, back, earlier, split, before, ofNew⟩
  · exact Or.inl old
  · exact Or.inr ⟨front, placed, back, earlier, split, before, (read_new_ok ofNew).1⟩

end Message

namespace Protocol

/-- The message is read from the element `placed` of a document: `dir` holds the schemas before,
the registry with the fields of the document, its interfaces, and its messages before this one. -/
structure ReadsMessage (p : Protocol) (ctx : Context) (layout : Layout) (dir : Directory)
    (placed : Placed) (m : Message) : Prop where
  earlier : dir.earlier = p.schemas
  env : dir.env = ⟨ctx, (p.registered ctx layout).registry, dir.interfaces⟩
  interfaces : (Interface.readAll ⟨p.schemas, ⟨ctx, (p.registered ctx layout).registry, []⟩, [], []⟩
    layout.interfaces).outcome = .ok dir.interfaces
  before : ∃ front back, layout.messages = front ++ placed :: back ∧
    (Message.readEach { dir with messages := [] } front).outcome = .ok dir.messages
  read : (Message.read dir placed).outcome = .ok m

theorem adds_reads_message {p : Protocol} {source : String} {layout : Layout} {s : Schema}
    (adds : p.Adds source layout s) :
    ∀ m ∈ s.messages, ∃ dir placed, p.ReadsMessage s.context layout dir placed m := by
  have completed := adds.completed
  simp only [complete, Build.bind_ok, Build.pure_outcome, Except.ok.injEq, Message.readAll]
    at completed
  obtain ⟨interfaces, ofInterfaces, messages, ⟨each, ofEach, rfl⟩, _, -, same⟩ := completed
  intro m member
  -- Sorting by id leaves the same messages.
  have listed : m ∈ each := by
    rw [← same] at member
    exact (Sorting.mem_stable _ _ _).mp member
  rcases Message.read_each_ok ofEach m listed with
    none | ⟨front, placed, back, earlier, split, before, read⟩
  · exact absurd none List.not_mem_nil
  · let env : Environment := ⟨s.context, (p.registered s.context layout).registry, interfaces⟩
    exact ⟨⟨p.schemas, env, interfaces, earlier⟩, placed, rfl, rfl, ofInterfaces,
      ⟨front, back, split, before⟩, read⟩

/-- A message of a loaded schema has a proper window. All fields in it, at any depth, fit into what
they are in exactly if those do that the message took over and those that came with a reused
field. A field that nests at its source does so in the message that takes it over exactly if it
ends after the message starts and not after it ends, and has no part that starts before. -/
theorem message_windows_nest_iff (sources : List String) {s : Schema} {m : Message}
    (loaded : s ∈ (after sources).schemas) (member : m ∈ s.messages) :
    ∃ before source rest layout dir placed taken,
      sources = before ++ source :: rest ∧ (after before).Adds source layout s ∧
      (after before).ReadsMessage s.context layout dir placed m ∧
      (Message.inherited dir placed).outcome = .ok taken ∧
      m.window.Fits s.context.version Window.always ∧
      (m.Nests s.context.version ↔
        (∀ f ∈ Field.adopt m.window.since taken, f ∈ m.fields →
          f.Nests s.context.version m.window) ∧
        ∀ f ∈ m.fields, f.CopiesNest dir.env) ∧
      ∀ field ∈ taken, ∀ held, field.Nests s.context.version held →
        ((field.liftTo m.window.since).Nests s.context.version m.window ↔
          m.window.since < field.window.deprecated ∧
          field.window.deprecated ≤ m.window.deprecated ∧
          ∀ part ∈ field.parts, m.window.since ≤ part.window.since) := by
  obtain ⟨before, source, rest, layout, split, adds⟩ := after_adds loaded
  obtain ⟨dir, placed, reads⟩ := adds_reads_message adds m member
  obtain ⟨taken, took, fits, -⟩ := Message.read_ok reads.read
  have exactly := Message.nests_iff_of_read reads.read took
  have same : dir.context = s.context := by
    rw [Directory.context, reads.env]
  rw [same] at fits exactly
  refine ⟨before, source, rest, layout, dir, placed, taken, split, adds, reads, took, fits,
    exactly, ?_⟩
  intro field _ held nested
  exact Field.nests_lifted_iff nested fits.known

def laterMessage : String :=
  "<schema name=\"S\" version=\"5\"><message name=\"M\" id=\"1\">" ++
    "<int name=\"f\" type=\"uint8\"/></message>" ++
    "<message name=\"N\" id=\"2\" reuse=\"M\" sinceVersion=\"3\"/></schema>"

theorem later_message_windows_nest_iff :
    ∃ s ∈ (after [laterMessage]).schemas, ∃ m ∈ s.messages,
      m.window = ⟨3, never⟩ ∧ m.fields.map Field.window = [⟨3, never⟩] ∧
      ∃ layout dir placed taken,
        (after []).ReadsMessage s.context layout dir placed m ∧
        (Message.inherited dir placed).outcome = .ok taken ∧
        (m.Nests s.context.version ↔
          (∀ f ∈ Field.adopt m.window.since taken, f ∈ m.fields →
            f.Nests s.context.version m.window) ∧
          ∀ f ∈ m.fields, f.CopiesNest dir.env) := by
  have found : ((after [laterMessage]).schemas.any fun s => s.messages.any fun m =>
      m.window = ⟨3, never⟩ && m.fields.map Field.window = [⟨3, never⟩]) = true := by
    decide +kernel
  simp only [List.any_eq_true, Bool.and_eq_true, decide_eq_true_eq] at found
  obtain ⟨s, loaded, m, member, window, fields⟩ := found
  obtain ⟨before, source, rest, layout, dir, placed, taken, split, -, reads, took, -, exactly, -⟩ :=
    message_windows_nest_iff [laterMessage] loaded member
  -- There is one document, so none stands before it.
  obtain rfl : before = [] := by
    cases before with
    | nil => rfl
    | cons first others => simp at split
  exact ⟨s, loaded, m, member, window, fields, layout, dir, placed, taken, reads, took, exactly⟩

def endedMessage : String :=
  "<schema name=\"S\" version=\"5\"><message name=\"M\" id=\"1\">" ++
    "<int name=\"f\" type=\"uint8\"/></message>" ++
    "<message name=\"N\" id=\"2\" reuse=\"M\" deprecated=\"2\"/></schema>"

/-- The field that the message takes over stays in force when the message no longer is. -/
theorem taken_field_outlives_message :
    ∃ s ∈ (after [endedMessage]).schemas, ∃ m ∈ s.messages, ∃ f ∈ m.fields,
      m.window = ⟨0, 2⟩ ∧ f.window = ⟨0, never⟩ ∧ ¬ m.Nests s.context.version := by
  have found : ((after [endedMessage]).schemas.any fun s => s.messages.any fun m =>
      m.fields.any fun f => m.window = ⟨0, 2⟩ && f.window = ⟨0, never⟩) = true := by
    decide +kernel
  simp only [List.any_eq_true, Bool.and_eq_true, decide_eq_true_eq] at found
  obtain ⟨s, loaded, m, member, f, inside, ofMessage, ofField⟩ := found
  refine ⟨s, loaded, m, member, f, inside, ofMessage, ofField, ?_⟩
  intro nested
  have ends := (nested.2 f inside).1.ends
  rw [ofMessage, ofField] at ends
  exact absurd ends (by decide)

end Protocol

end WireSchema
