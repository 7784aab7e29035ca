import WireSchema.Proofs.Slots
import WireSchema.Proofs.Versions

/-!
How a registry grows, and with it a model. Every field is built over the entries that were there
before it, so what building a field keeps holds of all registered fields. A property of fields that
making, lifting and packing keep, and one of payloads that reading keeps, holds of every field that a
loaded model leads to, whatever was reused, copied or replaced on the way.
-/

namespace WireSchema

open Markup (Node)

namespace Registry

def before (r : Registry) (id : Nat) : Registry := ⟨r.entries.take id⟩

theorem before_extends (r : Registry) (id : Nat) : (r.before id).Extends r :=
  List.take_prefix id r.entries

theorem before_extends_before (r : Registry) {id later : Nat} (early : id ≤ later) :
    (r.before id).Extends (r.before later) :=
  List.take_prefix_take_left early

theorem before_of_extends {earlier later : Registry} (grown : earlier.Extends later) {id : Nat}
    (inside : id ≤ earlier.size) : later.before id = earlier.before id := by
  obtain ⟨added, whole⟩ := grown
  rw [before, before, ← whole, List.take_append_of_le_length inside]

theorem get_before {r : Registry} {bound id : Nat} {f : Field}
    (held : (r.before bound).get? id = some f) : id < bound ∧ r.get? id = some f := by
  refine ⟨?_, get_of_extends (before_extends r bound) held⟩
  have inside := (get_is_some_iff (r.before bound) id).mp (by rw [held]; rfl)
  rw [size, before, List.length_take] at inside
  omega

theorem find_get {r : Registry} {current ref : String} {handle : Handle Field}
    (found : r.find? current ref = some handle) : r.get? handle.id = some handle.target := by
  unfold find? at found
  split at found
  · unfold handle? at found
    split at found
    · obtain ⟨field, held, rfl⟩ := Option.map_eq_some_iff.mp found
      exact held
    · nomatch found
  · nomatch found

/-- Every field was built over the entries before it, in surroundings with the property. -/
def GrownIn (around : Parent → Prop) (r : Registry) : Prop :=
  ∀ id e, r.entries[id]? = some e → ∃ env tag node parent, around parent ∧
    env.registry = r.before id ∧ (Field.create env tag node parent).outcome = .ok e.field

theorem empty_grown (around : Parent → Prop) : GrownIn around {} := by
  intro id e entry
  simp at entry

theorem grown_imp {around around' : Parent → Prop} {r : Registry}
    (weaker : ∀ parent, around parent → around' parent) (grown : r.GrownIn around) :
    r.GrownIn around' := by
  intro id e entry
  obtain ⟨env, tag, node, parent, inside, builtOver, built⟩ := grown id e entry
  exact ⟨env, tag, node, parent, weaker parent inside, builtOver, built⟩

theorem grown_of_extends {around : Parent → Prop} {earlier later : Registry}
    (extended : earlier.Extends later) (grown : later.GrownIn around) :
    earlier.GrownIn around := by
  intro id e entry
  obtain ⟨bound, -⟩ := List.getElem?_eq_some_iff.mp entry
  have atLater : later.entries[id]? = some e := by
    obtain ⟨added, whole⟩ := extended
    rw [← whole, List.getElem?_append_left bound]
    exact entry
  rw [← before_of_extends extended (Nat.le_of_lt bound)]
  exact grown id e atLater

theorem insert_grown {around : Parent → Prop} {env : Environment} {tag : String} {node : Node}
    {parent : Parent} {schema name : String} {f : Field} {later : Registry}
    (grown : env.registry.GrownIn around) (inside : around parent)
    (built : (Field.create env tag node parent).outcome = .ok f)
    (inserted : env.registry.insert schema name f = .ok later) : later.GrownIn around := by
  obtain ⟨-, rfl⟩ := (insert_ok_iff _ _ _ _ _).mp inserted
  have extended : env.registry.Extends ⟨env.registry.entries ++ [⟨schema, name, f⟩]⟩ :=
    List.prefix_append _ _
  intro id e entry
  simp only at entry
  by_cases old : id < env.registry.entries.length
  · rw [List.getElem?_append_left old] at entry
    rw [before_of_extends extended (Nat.le_of_lt old)]
    exact grown id e entry
  · -- The entry is the one just added, and what stands before it is the registry it was built over.
    obtain ⟨bound, -⟩ := List.getElem?_eq_some_iff.mp entry
    simp only [List.length_append, List.length_singleton] at bound
    obtain rfl : id = env.registry.entries.length := by omega
    rw [List.getElem?_concat_length, Option.some.injEq] at entry
    subst entry
    refine ⟨env, tag, node, parent, inside, ?_, built⟩
    rw [before, List.take_left]

/-- A property of fields over a registry that is kept when the registry grows, and that a field has
when it is built where the registered fields have it. -/
structure Law (around : Parent → Prop) (holds : Registry → Field → Prop) : Prop where
  grown : ∀ {r later : Registry} {f : Field}, r.Extends later → holds r f → holds later f
  built : ∀ {env : Environment} {tag : String} {node : Node} {parent : Parent} {f : Field},
    around parent →
    (∀ ref handle, env.find? ref = some handle → holds env.registry handle.target) →
    (Field.create env tag node parent).outcome = .ok f → holds env.registry f

theorem law_of_get {around : Parent → Prop} {holds : Registry → Field → Prop}
    (law : Law around holds) {r : Registry} (grown : r.GrownIn around) {id : Nat} {f : Field}
    (held : r.get? id = some f) : holds (r.before id) f := by
  -- What a field is built from has a smaller id.
  induction id using Nat.strongRecOn generalizing f with
  | ind id ih =>
      obtain ⟨e, entry, rfl⟩ := (get_some_iff r id f).mp held
      obtain ⟨env, tag, node, parent, inside, builtOver, built⟩ := grown id e entry
      rw [← builtOver]
      refine law.built inside ?_ built
      intro ref handle found
      have earlier := find_get found
      rw [builtOver] at earlier ⊢
      obtain ⟨early, heldEarlier⟩ := get_before earlier
      exact law.grown (before_extends_before r (Nat.le_of_lt early)) (ih handle.id early heldEarlier)

theorem law_of_find {around : Parent → Prop} {holds : Registry → Field → Prop}
    (law : Law around holds) {r : Registry} (grown : r.GrownIn around) {current ref : String}
    {handle : Handle Field} (found : r.find? current ref = some handle) :
    holds r handle.target :=
  law.grown (before_extends r handle.id) (law_of_get law grown (find_get found))

end Registry

theorem Payload.blank_slots (kind : Kind) : (Payload.blank kind : Payload Field).slots = [] := by
  cases kind <;> rfl

namespace Field

/-- A property of fields over a registry that is kept when the registry grows, when a field is lifted
to a later start, and when a member of a registered bitfield is put into another window, and that a
field has once it is made where the registered fields have it. -/
structure Law (holds : Registry → Field → Prop) : Prop where
  grown : ∀ {r later : Registry} {f : Field}, r.Extends later → holds r f → holds later f
  lifted : ∀ {r : Registry} {f : Field} (since : Nat), holds r f → holds r (f.liftTo since)
  packed : ∀ {r : Registry} {id : Nat} {source m : Field} {spec : BitfieldSpec Field}
    (window : Window), r.get? id = some source → source.payload = .bitfield spec →
    m ∈ spec.members → holds r m → holds r (m.withWindow window)
  made : ∀ {d : Declaration} {start f : Field}, d.Makes start f →
    Name.isIdentifier f.name = true →
    (∀ ref handle, d.env.find? ref = some handle → holds d.env.registry handle.target) →
    holds d.env.registry f

variable {holds : Registry → Field → Prop}

/-- A start that holds a field is a copy of a registered one that holds it. -/
theorem makes_copies {d : Declaration} {start f : Field} (makes : d.Makes start f)
    {slot : Slot Field} (held : slot ∈ start.payload.slots) :
    ∃ ref handle, d.env.find? ref = some handle ∧ start.payload = handle.target.payload ∧
      slot ∈ handle.target.slots := by
  rcases Declaration.makes_source makes with ⟨-, blank⟩ | ⟨-, ref, handle, hit, copied⟩
  · rw [blank, Payload.blank_slots] at held
    exact absurd held List.not_mem_nil
  · rw [copied] at held
    exact ⟨ref, handle, hit, copied, held⟩

theorem supplied_throughout (law : Law holds) {d : Declaration} {start f : Field}
    {slot : Slot Field} (makes : d.Makes start f)
    (found : ∀ ref handle, d.env.find? ref = some handle →
      handle.target.Throughout (holds d.env.registry))
    (inside : ∀ parent part, d.Builds parent part → part.Throughout (holds d.env.registry))
    (supplied : d.Supplies start.payload slot) : slot.part.Throughout (holds d.env.registry) := by
  cases supplied with
  | read reads =>
      cases reads with
      | built builds => exact inside _ _ builds
      | found hit => exact found _ _ hit
  | kept kept =>
      obtain ⟨ref, handle, hit, -, held⟩ := makes_copies makes kept
      exact (throughout_iff.mp (found ref handle hit)).2 slot held
  | @lifted part kept since =>
      obtain ⟨ref, handle, hit, -, held⟩ := makes_copies makes kept
      have throughout := (throughout_iff.mp (found ref handle hit)).2 (.inline part) held
      exact throughout_moved throughout (law.lifted since (throughout part (.refl part)))
  | @packed spec part bitfield member window =>
      have kept : .inline part ∈ start.payload.slots := by
        rw [bitfield]
        exact List.mem_map_of_mem member
      obtain ⟨ref, handle, hit, copied, held⟩ := makes_copies makes kept
      have throughout := (throughout_iff.mp (found ref handle hit)).2 (.inline part) held
      exact throughout_moved throughout (law.packed window (Registry.find_get hit)
        (copied.symm.trans bitfield) member (throughout part (.refl part)))

theorem build_within_throughout (law : Law holds) {env : Environment}
    (found : ∀ ref handle, env.find? ref = some handle →
      handle.target.Throughout (holds env.registry)) {depth : Nat} {tag : String} {node : Node}
    {parent : Parent} {f : Field}
    (built : (buildWithin env depth tag node parent).outcome = .ok f) :
    f.Throughout (holds env.registry) := by
  -- Fields inside are built with one level of elements less.
  induction depth generalizing tag node parent f with
  | zero => nomatch built
  | succ depth ih =>
      obtain ⟨d, start, rfl, -, -, inner, makes⟩ := build_within_makes built
      obtain ⟨profile, -, read⟩ := makes.read
      rw [throughout_iff]
      constructor
      · exact law.made makes (build_within_name built) fun ref handle hit =>
          found ref handle hit _ (.refl _)
      · intro slot member
        apply supplied_throughout law makes found
        · rintro around part ⟨node, ofNode⟩
          rw [inner] at ofNode
          exact ih ofNode
        · exact Declaration.read_payload_supplies (Declaration.makes_fresh makes) read slot member

theorem law_throughout (law : Law holds) :
    Registry.Law (fun _ => True) fun r f => f.Throughout (holds r) where
  grown extended throughout := throughout_imp (fun _ => law.grown extended) throughout
  built _ found built := build_within_throughout law found built

end Field

namespace Payload

/-- A property of payloads over a registry that is kept when the registry grows, that blank payloads
have, and that reading a declaration keeps. -/
structure Law (holds : Registry → Payload Field → Prop) : Prop where
  blank : ∀ (r : Registry) (kind : Kind), holds r (.blank kind)
  grown : ∀ {r later : Registry} {payload : Payload Field}, r.Extends later →
    holds r payload → holds later payload
  read : ∀ {d : Declaration} {profile : Profile} {payload : Payload Field} {f : Field},
    (d.reused = false → payload.members = []) → holds d.env.registry payload →
    (d.readPayload profile payload).outcome = .ok f → holds d.env.registry f.payload

variable {holds : Registry → Payload Field → Prop}

theorem law_fields (law : Law holds) : Field.Law fun r f => holds r f.payload where
  grown := law.grown
  lifted _ held := held
  packed _ _ _ _ held := held
  made makes _ found := by
    obtain ⟨profile, -, read⟩ := makes.read
    refine law.read (Declaration.makes_fresh makes) ?_ read
    rcases Declaration.makes_source makes with ⟨-, blank⟩ | ⟨-, ref, handle, hit, copied⟩
    · rw [blank]
      exact law.blank _ _
    · rw [copied]
      exact found ref handle hit

theorem law_everywhere (law : Law holds) :
    Registry.Law (fun _ => True) fun r f => f.Everywhere (holds r) :=
  Field.law_throughout (law_fields law)

/-- A field that is built over a registry of such fields has what holds throughout a model. -/
theorem law_created (law : Law holds) {env : Environment} {tag : String} {node : Node}
    {parent : Parent} {f : Field} (grown : env.registry.GrownIn fun _ => True)
    (built : (Field.create env tag node parent).outcome = .ok f) :
    holds env.registry f.payload := by
  have everywhere := (law_everywhere law).built trivial
    (fun _ _ hit => Registry.law_of_find (law_everywhere law) grown hit) built
  exact (Field.everywhere_iff.mp everywhere).1

end Payload

namespace Schema

structure Throughout (holds : Field → Prop) (s : Schema) : Prop where
  interfaces : ∀ i ∈ s.interfaces, ∀ f ∈ i.fields, f.Throughout holds
  messages : ∀ m ∈ s.messages, ∀ f ∈ m.fields, f.Throughout holds

end Schema

namespace Directory

structure Throughout (holds : Field → Prop) (dir : Directory) : Prop where
  earlier : ∀ s ∈ dir.earlier, s.Throughout holds
  interfaces : ∀ i ∈ dir.interfaces, ∀ f ∈ i.fields, f.Throughout holds
  messages : ∀ m ∈ dir.messages, ∀ f ∈ m.fields, f.Throughout holds
  found : ∀ ref handle, dir.env.find? ref = some handle → handle.target.Throughout holds

theorem locate_cases {α : Type} {dir : Directory} {ref : String}
    {there : Schema → String → Option α} {here : String → Option α} {found : α}
    (located : dir.locate ref there here = some found) :
    (∃ path, here path = some found) ∨ ∃ s ∈ dir.earlier, ∃ path, there s path = some found := by
  unfold locate at located
  split at located
  · nomatch located
  · rename_i path _
    exact Or.inl ⟨path, located⟩
  · rename_i schema path _
    split at located
    · exact Or.inl ⟨path, located⟩
    · obtain ⟨s, inEarlier, inSchema⟩ := Option.bind_eq_some_iff.mp located
      exact Or.inr ⟨s, List.mem_of_find?_eq_some inEarlier, path, inSchema⟩

variable {holds : Field → Prop} {dir : Directory}

theorem message_throughout (throughout : dir.Throughout holds) {ref : String} {m : Message}
    (found : dir.message? ref = some m) : ∀ f ∈ m.fields, f.Throughout holds := by
  rcases locate_cases found with ⟨path, here⟩ | ⟨s, earlier, path, there⟩
  · exact throughout.messages m (List.mem_of_find?_eq_some here)
  · exact (throughout.earlier s earlier).messages m (List.mem_of_find?_eq_some there)

theorem interface_throughout (throughout : dir.Throughout holds) {ref : String} {i : Interface}
    (found : dir.interface? ref = some i) : ∀ f ∈ i.fields, f.Throughout holds := by
  rcases locate_cases found with ⟨path, here⟩ | ⟨s, earlier, path, there⟩
  · exact throughout.interfaces i (List.mem_of_find?_eq_some here)
  · exact (throughout.earlier s earlier).interfaces i (List.mem_of_find?_eq_some there)

theorem fields_of_throughout (throughout : dir.Throughout holds) {ref : String} {line : Nat}
    {fields : List Field} (copied : dir.fieldsOf ref line = .ok fields) :
    ∀ f ∈ fields, f.Throughout holds := by
  unfold fieldsOf at copied
  split at copied
  · rename_i m found
    cases copied
    exact message_throughout throughout found
  · split at copied
    · rename_i i found
      cases copied
      exact interface_throughout throughout found
    · split at copied
      · cases copied
      · rename_i handle found
        split at copied
        · rename_i spec bundle
          cases copied
          intro f member
          refine (Field.throughout_iff.mp (throughout.found ref handle found)).2 (.inline f) ?_
          rw [Field.slots, bundle]
          exact List.mem_map_of_mem member
        · cases copied

end Directory

theorem Interface.read_grouped {dir : Directory} {placed : Placed} {i : Interface}
    (read : (Interface.read dir placed).outcome = .ok i) : ∃ parent inherited,
      (Field.readGroup dir.env placed.node parent inherited).outcome = .ok i.fields := by
  simp only [Interface.read, Build.bind_ok, Build.lift_outcome, Build.pure_outcome,
    Except.ok.injEq] at read
  obtain ⟨_, -, _, -, _, -, _, -, inherited, -, _, -, _, -, _, -, fields, grouped, _, -, _, -,
    rfl⟩ := read
  exact ⟨_, inherited, grouped⟩

theorem Message.read_grouped {dir : Directory} {placed : Placed} {m : Message}
    (read : (Message.read dir placed).outcome = .ok m) : ∃ parent inherited,
      (Field.readGroup dir.env placed.node parent inherited).outcome = .ok m.fields := by
  simp only [Message.read, Build.bind_ok, Build.lift_outcome, Build.pure_outcome,
    Except.ok.injEq] at read
  obtain ⟨_, -, _, -, _, -, _, -, _, -, _, -, _, -, _, -, _, -, inherited, -, fields, grouped, _, -,
    _, -, _, -, rfl⟩ := read
  exact ⟨_, inherited, grouped⟩

section Containers

variable {holds : Registry → Field → Prop} {dir : Directory} {placed : Placed}

theorem of_node_throughout (law : Field.Law holds)
    (throughout : dir.Throughout (holds dir.env.registry)) {parent : Parent} {f : Field}
    (built : ∃ node, (Field.ofNode dir.env node parent).outcome = .ok f) :
    f.Throughout (holds dir.env.registry) := by
  obtain ⟨node, built⟩ := built
  exact Field.build_within_throughout law throughout.found built

namespace Interface

theorem read_throughout (law : Field.Law holds)
    (throughout : dir.Throughout (holds dir.env.registry)) {i : Interface}
    (read : (Interface.read dir placed).outcome = .ok i) :
    ∀ f ∈ i.fields, f.Throughout (holds dir.env.registry) := by
  simp only [Interface.read, Build.bind_ok, Build.lift_outcome, Build.pure_outcome,
    Except.ok.injEq] at read
  obtain ⟨_, -, source, -, first, started, copied, -, inherited, took, _, -, _, -, _, -, fields,
    grouped, _, -, _, -, rfl⟩ := read
  have startFields : ∀ f ∈ first.fields, f.Throughout (holds dir.env.registry) := by
    unfold start at started
    split at started
    · cases started
      exact fun f member => absurd member List.not_mem_nil
    · split at started
      · cases started
      · rename_i found
        cases started
        exact fun f member => Directory.interface_throughout throughout found f member
  have takenFields : ∀ f ∈ inherited, f.Throughout (holds dir.env.registry) := by
    unfold copyFields at took
    split at took
    · cases took
      exact startFields
    · split at took
      · exact Directory.fields_of_throughout throughout took
      · cases took
  intro f member
  rcases Field.read_group_ok grouped f member with taken | built
  · exact takenFields f taken
  · exact of_node_throughout law throughout built

theorem read_all_throughout (law : Field.Law holds)
    (throughout : dir.Throughout (holds dir.env.registry)) {nodes : List Placed}
    {interfaces : List Interface} (read : (readAll dir nodes).outcome = .ok interfaces) :
    ∀ i ∈ interfaces, ∀ f ∈ i.fields, f.Throughout (holds dir.env.registry) := by
  refine Build.gather_all ?_ throughout.interfaces read
  intro known placed i ofElement held
  exact read_throughout law
    (show Directory.Throughout _ { dir with interfaces := known } from
      { throughout with interfaces := held }) ofElement

end Interface

namespace Message

theorem inherited_throughout (throughout : dir.Throughout (holds dir.env.registry))
    {taken : List Field} (took : (inherited dir placed).outcome = .ok taken) :
    ∀ f ∈ taken, f.Throughout (holds dir.env.registry) := by
  simp only [inherited, Build.bind_ok, Build.lift_outcome] at took
  obtain ⟨props, -, first, started, copied⟩ := took
  have startFields : ∀ f ∈ first.fields, f.Throughout (holds dir.env.registry) := by
    simp only [start, Build.bind_ok, Build.lift_outcome] at started
    obtain ⟨_, -, rest⟩ := started
    split at rest
    · cases rest
      exact fun f member => absurd member List.not_mem_nil
    · split at rest
      · rw [Build.lift_outcome, reuse] at rest
        split at rest
        · nomatch rest
        · rename_i source found
          simp only [except_bind_ok, Except.ok.injEq] at rest
          obtain ⟨_, -, rfl⟩ := rest
          exact fun f member => Directory.message_throughout throughout found f member
      · simp only [Build.bind_ok, Build.pure_outcome, Except.ok.injEq] at rest
        obtain ⟨_, -, rfl⟩ := rest
        exact fun f member => absurd member List.not_mem_nil
  simp only [copyFields, except_bind_ok] at copied
  obtain ⟨_, -, rest⟩ := copied
  split at rest
  · cases rest
    exact startFields
  · split at rest
    · nomatch rest
    · exact Directory.fields_of_throughout throughout rest

theorem read_throughout (law : Field.Law holds)
    (throughout : dir.Throughout (holds dir.env.registry)) {m : Message}
    (read : (Message.read dir placed).outcome = .ok m) :
    ∀ f ∈ m.fields, f.Throughout (holds dir.env.registry) := by
  obtain ⟨taken, took, -, origin⟩ := read_fields read
  intro f member
  rcases origin f member with adopted | built
  · obtain ⟨source, inTaken, -, rfl⟩ := Field.adopt_mem adopted
    have held := inherited_throughout throughout took source inTaken
    exact Field.throughout_moved held (law.lifted _ (held source (.refl source)))
  · exact of_node_throughout law throughout built

theorem read_each_throughout (law : Field.Law holds)
    (throughout : dir.Throughout (holds dir.env.registry)) {nodes : List Placed}
    {messages : List Message} (read : (readEach dir nodes).outcome = .ok messages) :
    ∀ m ∈ messages, ∀ f ∈ m.fields, f.Throughout (holds dir.env.registry) := by
  refine Build.gather_all ?_ throughout.messages read
  intro known placed m ofElement held
  exact read_throughout law
    (show Directory.Throughout _ { dir with messages := known } from
      { throughout with messages := held }) (read_new_ok ofElement).1

end Message

end Containers

def Parent.IsNamespace (parent : Parent) : Prop := parent = ⟨.ns, Window.always⟩

namespace Registration

theorem add_grown {ctx : Context} {r : Registration} {placed : Placed}
    (grown : r.registry.GrownIn Parent.IsNamespace) :
    (add ctx r placed).registry.GrownIn Parent.IsNamespace := by
  rcases add_cases ctx r placed with ⟨field, built, inserted⟩ | ⟨-, same⟩
  · exact Registry.insert_grown grown rfl built inserted
  · rw [same]
    exact grown

theorem add_all_grown {ctx : Context} {r : Registration} (nodes : List Placed)
    (grown : r.registry.GrownIn Parent.IsNamespace) :
    (addAll ctx r nodes).registry.GrownIn Parent.IsNamespace := by
  induction nodes generalizing r with
  | nil => exact grown
  | cons placed rest ih => exact ih (add_grown grown)

end Registration

namespace Protocol

theorem load_grown (p : Protocol) (source : String)
    (grown : p.registry.GrownIn Parent.IsNamespace) :
    (p.load source).1.registry.GrownIn Parent.IsNamespace := by
  rcases load_registry_cases p source with ⟨-, same⟩ | ⟨ctx, layout, -, added⟩
  · rw [same]
    exact grown
  · rw [added]
    exact Registration.add_all_grown layout.fields grown

theorem after_grown (sources : List String) :
    (after sources).registry.GrownIn Parent.IsNamespace :=
  load_all_induction (fun p => p.registry.GrownIn Parent.IsNamespace) load_grown {}
    (Registry.empty_grown _) sources

inductive Has (p : Protocol) : Field → Prop where
  | registered {id : Nat} {f : Field} (held : p.registry.get? id = some f) : Has p f
  | ofInterface {s : Schema} {i : Interface} {f : Field} (loaded : s ∈ p.schemas)
      (inSchema : i ∈ s.interfaces) (member : f ∈ i.fields) : Has p f
  | ofMessage {s : Schema} {m : Message} {f : Field} (loaded : s ∈ p.schemas)
      (inSchema : m ∈ s.messages) (member : f ∈ m.fields) : Has p f

variable {holds : Registry → Field → Prop}

theorem complete_throughout (law : Field.Law holds) {p : Protocol} {ctx : Context}
    {layout : Layout} {s : Schema} (grown : p.registry.GrownIn fun _ => True)
    (earlier : ∀ s ∈ p.schemas, s.Throughout (holds p.registry))
    (completed : (p.complete ctx layout p.registry).outcome = .ok s) :
    s.Throughout (holds p.registry) := by
  simp only [complete, Build.bind_ok, Build.pure_outcome, Except.ok.injEq, Message.readAll]
    at completed
  obtain ⟨interfaces, ofInterfaces, messages, ⟨each, ofEach, rfl⟩, _, -, rfl⟩ := completed
  have none {α : Type} {here : α → Prop} : ∀ a ∈ ([] : List α), here a :=
    fun a member => absurd member List.not_mem_nil
  have atStart : Directory.Throughout (holds p.registry) ⟨p.schemas, ⟨ctx, p.registry, []⟩, [], []⟩ :=
    ⟨earlier, none, none, fun ref handle found =>
      Registry.law_of_find (Field.law_throughout law) grown found⟩
  have inInterfaces := Interface.read_all_throughout law atStart ofInterfaces
  refine ⟨inInterfaces, ?_⟩
  intro m member
  refine Message.read_each_throughout law ?_ ofEach m ((Sorting.mem_stable _ _ _).mp member)
  exact ⟨earlier, inInterfaces, none, atStart.found⟩

theorem load_throughout (law : Field.Law holds) (p : Protocol) (source : String)
    (invariant : p.registry.GrownIn Parent.IsNamespace ∧
      ∀ s ∈ p.schemas, s.Throughout (holds p.registry)) :
    (p.load source).1.registry.GrownIn Parent.IsNamespace ∧
      ∀ s ∈ (p.load source).1.schemas, s.Throughout (holds (p.load source).1.registry) := by
  obtain ⟨grown, earlier⟩ := invariant
  have grownLater := load_grown p source grown
  refine ⟨grownLater, ?_⟩
  have kept : ∀ s ∈ p.schemas, s.Throughout (holds (p.load source).1.registry) := by
    intro s member
    have weaker := fun (f : Field) (held : holds p.registry f) =>
      law.grown (load_registry_extends p source) held
    exact ⟨fun i inSchema f inside => Field.throughout_imp weaker
        ((earlier s member).interfaces i inSchema f inside),
      fun m inSchema f inside => Field.throughout_imp weaker
        ((earlier s member).messages m inSchema f inside)⟩
  rcases load_schemas_cases p source with ⟨same, -⟩ | ⟨layout, s, adds⟩
  · rw [same]
    exact kept
  · have registry : (p.load source).1.registry = (p.registered s.context layout).registry := by
      rcases load_registry_cases p source with ⟨⟨e, none⟩, -⟩ | ⟨ctx, layout', outlined, added⟩
      · rw [adds.outlined] at none
        nomatch none
      · rw [adds.outlined, Except.ok.injEq, Prod.mk.injEq] at outlined
        obtain ⟨rfl, rfl⟩ := outlined
        exact added
    rw [adds.added]
    rw [registry] at kept grownLater ⊢
    intro t member
    rcases List.mem_append.mp member with old | new
    · exact kept t old
    · cases List.mem_singleton.mp new
      exact complete_throughout
        (p := { p with registry := (p.registered s.context layout).registry }) law
        (Registry.grown_imp (fun _ _ => trivial) grownLater) kept adds.completed

/-- A law of fields holds wherever a field of the model leads; for a registered field it does so over
the registry as it was when the field was registered. -/
theorem after_throughout (law : Field.Law holds) (sources : List String) :
    (∀ f, (after sources).Has f → f.Throughout (holds (after sources).registry)) ∧
      ∀ id f, (after sources).registry.get? id = some f →
        f.Throughout (holds ((after sources).registry.before id)) := by
  have invariant := load_all_induction
    (fun p => p.registry.GrownIn Parent.IsNamespace ∧
      ∀ s ∈ p.schemas, s.Throughout (holds p.registry))
    (load_throughout law) {}
    ⟨Registry.empty_grown _, fun s member => absurd member List.not_mem_nil⟩ sources
  have grown : (after sources).registry.GrownIn fun _ => True :=
    Registry.grown_imp (fun _ _ => trivial) (after_grown sources)
  have registered := fun id f (held : (after sources).registry.get? id = some f) =>
    Registry.law_of_get (Field.law_throughout law) grown held
  refine ⟨?_, registered⟩
  intro f has
  cases has with
  | @registered id _ held =>
      exact Field.throughout_imp (fun _ => law.grown (Registry.before_extends _ id))
        (registered id f held)
  | ofInterface loaded inSchema member =>
      exact (invariant.2 _ loaded).interfaces _ inSchema f member
  | ofMessage loaded inSchema member =>
      exact (invariant.2 _ loaded).messages _ inSchema f member

theorem after_everywhere {holds : Registry → Payload Field → Prop} (law : Payload.Law holds)
    (sources : List String) :
    (∀ f, (after sources).Has f → f.Everywhere (holds (after sources).registry)) ∧
      ∀ id f, (after sources).registry.get? id = some f →
        f.Everywhere (holds ((after sources).registry.before id)) :=
  after_throughout (Payload.law_fields law) sources

end Protocol

end WireSchema
