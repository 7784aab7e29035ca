import WireSchema.Proofs.Origins

/-!
The places in a field where another field stands: its members, the element of a list, the field of
an optional, the target of a reference, and the fields in front of or behind a sequence. In each of
them a field is written in place or a registered one is linked by its handle. After a build, every
place holds what the element declares there or what the reused field had in it.
-/

namespace WireSchema

open Markup (Node)

def Prefix.slot? {α : Type} : Prefix α → Option (Slot α)
  | .part slot => some slot
  | .detached _ => none

def Repetition.boundary? {α : Type} : Repetition α → Option (Prefix α)
  | .countPrefix lead => some lead
  | .lengthPrefix lead => some lead
  | .termSuffix tail => some tail
  | _ => none

def Delimiter.slots {α : Type} (delimiter : Delimiter α) : List (Slot α) :=
  (delimiter.lead?.bind Prefix.slot?).toList

def ListSpec.slots {α : Type} (spec : ListSpec α) : List (Slot α) :=
  spec.element.toList ++ (spec.repetition.boundary?.bind Prefix.slot?).toList ++
    (spec.elementPrefix.bind Prefix.slot?).toList

def Payload.slots {α : Type} : Payload α → List (Slot α)
  | .string spec => spec.delimiter.slots
  | .data spec => spec.delimiter.slots
  | .list spec => spec.slots
  | .ref spec => spec.target.toList.map Slot.external
  | .optional spec => spec.inner.toList
  | payload => payload.members.map Slot.inline

namespace Payload

def int? : (p : Payload Field) → Option { spec // p = .int spec }
  | .int spec => some ⟨spec, rfl⟩
  | _ => none

def enum? : (p : Payload Field) → Option { spec // p = .enum spec }
  | .enum spec => some ⟨spec, rfl⟩
  | _ => none

def set? : (p : Payload Field) → Option { spec // p = .set spec }
  | .set spec => some ⟨spec, rfl⟩
  | _ => none

def bundle? : (p : Payload Field) → Option { spec // p = .bundle spec }
  | .bundle spec => some ⟨spec, rfl⟩
  | _ => none

def variant? : (p : Payload Field) → Option { spec // p = .variant spec }
  | .variant spec => some ⟨spec, rfl⟩
  | _ => none

end Payload

namespace Field

def slots (f : Field) : List (Slot Field) := f.payload.slots

inductive LeadsTo : Field → Field → Prop where
  | refl (f : Field) : LeadsTo f f
  | step {f g : Field} {slot : Slot Field} (member : slot ∈ f.slots)
      (below : LeadsTo slot.part g) : LeadsTo f g

def Throughout (holds : Field → Prop) (f : Field) : Prop :=
  ∀ g, f.LeadsTo g → holds g

theorem throughout_iff {holds : Field → Prop} {f : Field} :
    f.Throughout holds ↔ holds f ∧ ∀ slot ∈ f.slots, slot.part.Throughout holds := by
  constructor
  · intro throughout
    refine ⟨throughout f (.refl f), ?_⟩
    intro slot member g below
    exact throughout g (.step member below)
  · rintro ⟨here, inside⟩ g leads
    cases leads with
    | refl => exact here
    | step member below => exact inside _ member g below

theorem throughout_imp {holds holds' : Field → Prop} {f : Field}
    (weaker : ∀ g, holds g → holds' g) (throughout : f.Throughout holds) : f.Throughout holds' :=
  fun g leads => weaker g (throughout g leads)

theorem leads_trans {f g h : Field} (first : f.LeadsTo g) (second : g.LeadsTo h) :
    f.LeadsTo h := by
  induction first with
  | refl => exact second
  | step member _ ih => exact .step member (ih second)

theorem inline_member {f m : Field} (member : m ∈ f.members) : .inline m ∈ f.slots := by
  obtain ⟨profile, payload⟩ := f
  cases payload with
  | bitfield | bundle | variant => exact List.mem_map_of_mem member
  | _ => exact absurd member List.not_mem_nil

theorem leads_member {f m : Field} (member : m ∈ f.members) : f.LeadsTo m :=
  .step (inline_member member) (.refl m)

/-- In another window a field leads to the same fields. -/
theorem throughout_moved {holds : Field → Prop} {f : Field} {window : Window}
    (throughout : f.Throughout holds) (here : holds (f.withWindow window)) :
    (f.withWindow window).Throughout holds :=
  throughout_iff.mpr ⟨here, (throughout_iff.mp throughout).2⟩

def Everywhere (holds : Payload Field → Prop) (f : Field) : Prop :=
  f.Throughout fun g => holds g.payload

theorem everywhere_iff {holds : Payload Field → Prop} {f : Field} :
    f.Everywhere holds ↔
      holds f.payload ∧ ∀ slot ∈ f.slots, slot.part.Everywhere holds :=
  throughout_iff

theorem adopt_mem {since : Nat} {members : List Field} {m : Field}
    (member : m ∈ adopt since members) :
    ∃ source ∈ members, source.isGoneBy since = false ∧ m = source.liftTo since := by
  obtain ⟨source, kept, rfl⟩ := List.mem_map.mp member
  obtain ⟨inside, present⟩ := List.mem_filter.mp kept
  exact ⟨source, inside, Bool.not_eq_true' _ ▸ present, rfl⟩

end Field

namespace Declaration

inductive Reads (d : Declaration) : Slot Field → Prop where
  | built {parent : Parent} {part : Field} (builds : d.Builds parent part) : Reads d (.inline part)
  | found {ref : String} {handle : Handle Field} (found : d.env.find? ref = some handle) :
      Reads d (.external handle)

/-- What can stand in a slot once the declaration is read over a payload: what the element puts
there, what stood in a slot of the payload, or a member of it, lifted to a later start or put into
the window of a bitfield. -/
inductive Supplies (d : Declaration) (payload : Payload Field) : Slot Field → Prop where
  | read {slot : Slot Field} (reads : d.Reads slot) : Supplies d payload slot
  | kept {slot : Slot Field} (held : slot ∈ payload.slots) : Supplies d payload slot
  | lifted {part : Field} (held : .inline part ∈ payload.slots) (since : Nat) :
      Supplies d payload (.inline (part.liftTo since))
  | packed {spec : BitfieldSpec Field} {part : Field} (bitfield : payload = .bitfield spec)
      (held : part ∈ spec.members) (window : Window) :
      Supplies d payload (.inline (part.withWindow window))

theorem external_reads {d : Declaration} {property ref : String} {slot : Slot Field}
    (found : d.external property ref = .ok slot) : d.Reads slot := by
  unfold external at found
  split at found
  · rename_i handle hit
    cases found
    exact .found hit
  · nomatch found

theorem read_slot_reads {d : Declaration} {name : String} {parent : Parent} {slot : Slot Field}
    (read : (d.readSlot name parent).outcome = .ok (some slot)) : d.Reads slot := by
  simp only [readSlot, Build.bind_ok, Build.lift_outcome] at read
  obtain ⟨ref, -, rest⟩ := read
  split at rest
  · cases rest
  · simp only [Build.bind_ok, Build.lift_outcome, Build.pure_outcome, Except.ok.injEq,
      Option.some.injEq] at rest
    obtain ⟨_, isExternal, rfl⟩ := rest
    exact external_reads isExternal
  · split at rest
    · rename_i node _
      simp only [Build.bind_ok, Build.pure_outcome, Except.ok.injEq, Option.some.injEq] at rest
      obtain ⟨part, ofNode, rfl⟩ := rest
      exact .built ⟨node, ofNode⟩
    · cases rest
  · cases rest

theorem wrapped_reads {d : Declaration} {name : String} {parent : Parent}
    {current : Option (Slot Field)} {slot : Slot Field}
    (wrapped : d.Wrapped name parent current (some slot)) : current = some slot ∨ d.Reads slot := by
  cases wrapped with
  | declared read =>
      rcases read_wrapped_cases read with ofSlot | ⟨part, builds, rfl⟩
      · exact Or.inr (read_slot_reads ofSlot)
      · exact Or.inr (.built builds)
  | kept there => exact Or.inl there

theorem read_detached_slot {d : Declaration} {name sibling : String} {lead : Prefix Field}
    (read : d.readDetached name sibling = .ok lead) : lead.slot? = none := by
  unfold readDetached at read
  split at read
  · nomatch read
  · split at read
    · cases read
      rfl
    · nomatch read

theorem read_prefix_reads {d : Declaration} {name : String} {parent : Parent}
    {declared : Option (Prefix Field)} (read : (d.readPrefix name parent).outcome = .ok declared) :
    ∀ slot, declared.bind Prefix.slot? = some slot → d.Reads slot := by
  intro slot some
  simp only [readPrefix, Build.bind_ok, Build.lift_outcome] at read
  obtain ⟨_, -, rest⟩ := read
  split at rest
  · simp only [Build.bind_ok, Build.lift_outcome, Build.pure_outcome, Except.ok.injEq] at rest
    obtain ⟨lead, detached, rfl⟩ := rest
    rw [Option.bind_some, read_detached_slot detached] at some
    nomatch some
  · simp only [Build.bind_ok] at rest
    obtain ⟨own, ofSlot, rest⟩ := rest
    split at rest
    · cases rest
      nomatch some
    · split at rest
      · cases rest
        cases some
        exact read_slot_reads ofSlot
      · nomatch rest

end Declaration

namespace Delimiter

theorem mem_slots {delimiter : Delimiter Field} {slot : Slot Field} :
    slot ∈ delimiter.slots ↔ delimiter.lead?.bind Prefix.slot? = some slot := by
  rw [slots, Option.mem_toList]

end Delimiter

namespace Declaration

theorem unchanged_ok {α β : Type} [BEq β] [LawfulBEq β] {d : Declaration} {before after : β}
    {result later : α} {fault : Fault}
    (done : (if d.reused && before != after then d.fail fault else .ok result) = .ok later) :
    later = result ∧ (d.reused = true → before = after) := by
  split at done
  · cases done
  · rename_i same
    cases done
    refine ⟨rfl, fun reused => ?_⟩
    simpa [reused] using same

theorem keep_label_ok {α : Type} {d : Declaration} {ending : String} {label : α → String}
    {before after later : α} (kept : d.keepLabel ending label before after = .ok later) :
    later = after ∧ (d.reused = true → label before = label after) :=
  unchanged_ok kept

/-- The end of a text or of data by what is declared: the current one if there is nothing, and else
the only one declared. A reused field ends as its source does. -/
inductive Delimits (d : Declaration) (current : Delimiter Field) :
    Option Nat → Option (Prefix Field) → Bool → Delimiter Field → Prop where
  | kept : Delimits d current none none false current
  | fixed {n : Nat} (same : d.reused = true → current.label = (.fixed n : Delimiter Field).label) :
      Delimits d current (some n) none false (.fixed n)
  | prefixed {lead : Prefix Field}
      (same : d.reused = true → current.label = (.prefixed lead : Delimiter Field).label) :
      Delimits d current none (some lead) false (.prefixed lead)
  | zeroTerminated
      (same : d.reused = true → current.label = (.zeroTerminated : Delimiter Field).label) :
      Delimits d current none none true .zeroTerminated

theorem delimits_slots {d : Declaration} {current later : Delimiter Field} {length : Option Nat}
    {lead : Option (Prefix Field)} {zero : Bool} (ends : d.Delimits current length lead zero later)
    (reads : ∀ slot, lead.bind Prefix.slot? = some slot → d.Reads slot) :
    ∀ slot ∈ later.slots, slot ∈ current.slots ∨ d.Reads slot := by
  intro slot member
  cases ends with
  | kept => exact Or.inl member
  | fixed => nomatch member
  | prefixed => exact Or.inr (reads slot (Delimiter.mem_slots.mp member))
  | zeroTerminated => nomatch member

theorem read_positive_ok {d : Declaration} {name : String} {number : Option Nat}
    (read : d.readPositive name = .ok number) :
    d.natProp name = .ok number ∧ number ≠ some 0 := by
  simp only [readPositive, except_bind_ok] at read
  obtain ⟨declared, ofDeclared, rest⟩ := read
  split at rest
  · cases rest
  · rename_i positive
    cases rest
    exact ⟨ofDeclared, positive⟩

end Declaration

namespace StringSpec

theorem read_delimiter_ok {d : Declaration} {profile : Profile} {current later : Delimiter Field}
    (read : (readDelimiter d profile current).outcome = .ok later) :
    ∃ length lead zero, d.readFixedLength = .ok length ∧
      (d.readPrefix "lengthPrefix" (Declaration.memberParent .string profile)).outcome = .ok lead ∧
      d.boolProp "zeroTermSuffix" = .ok zero ∧
      d.Delimits current length lead (zero.getD false) later := by
  simp only [readDelimiter, Build.bind_ok, Build.lift_outcome] at read
  obtain ⟨length, ofLength, lead, ofLead, zero, ofZero, rest⟩ := read
  refine ⟨length, lead, zero, ofLength, ofLead, ofZero, ?_⟩
  generalize zero.getD false = isZero at rest ⊢
  split at rest
  · cases rest
    exact .kept
  · obtain ⟨rfl, same⟩ := Declaration.keep_label_ok rest
    exact .fixed same
  · obtain ⟨rfl, same⟩ := Declaration.keep_label_ok rest
    exact .prefixed same
  · obtain ⟨rfl, same⟩ := Declaration.keep_label_ok rest
    exact .zeroTerminated same
  · cases rest

theorem read_ok {d : Declaration} {profile : Profile} {spec later : StringSpec Field}
    (done : (read d profile spec).outcome = .ok later) :
    (readDelimiter d profile spec.delimiter).outcome = .ok later.delimiter ∧
      (d.readContents profile .string (fun _ raw => readValue d later.delimiter raw)
        (fun a b => decide (a < b)) spec.defaultValue spec.validValues).outcome =
          .ok (later.defaultValue, later.validValues) := by
  simp only [read, Build.bind_ok, Build.lift_outcome, Build.pure_outcome,
    Except.ok.injEq] at done
  obtain ⟨_, -, _, ofDelimiter, _, ofContents, rfl⟩ := done
  exact ⟨ofDelimiter, ofContents⟩

end StringSpec

namespace DataSpec

theorem read_delimiter_ok {d : Declaration} {profile : Profile} {current later : Delimiter Field}
    (read : (readDelimiter d profile current).outcome = .ok later) :
    ∃ length lead, d.readFixedLength = .ok length ∧
      (d.readPrefix "lengthPrefix" (Declaration.memberParent .data profile)).outcome = .ok lead ∧
      d.Delimits current length lead false later := by
  simp only [readDelimiter, Build.bind_ok, Build.lift_outcome] at read
  obtain ⟨length, ofLength, lead, ofLead, rest⟩ := read
  refine ⟨length, lead, ofLength, ofLead, ?_⟩
  split at rest
  · cases rest
    exact .kept
  · obtain ⟨rfl, same⟩ := Declaration.keep_label_ok rest
    exact .fixed same
  · obtain ⟨rfl, same⟩ := Declaration.keep_label_ok rest
    exact .prefixed same
  · cases rest

theorem read_ok {d : Declaration} {profile : Profile} {spec later : DataSpec Field}
    (done : (read d profile spec).outcome = .ok later) :
    (readDelimiter d profile spec.delimiter).outcome = .ok later.delimiter ∧
      (d.readContents profile .data (readValue d later.delimiter) (fun a b => decide (a < b))
        spec.defaultValue spec.validValues).outcome =
          .ok (later.defaultValue, later.validValues) := by
  simp only [read, Build.bind_ok, Build.pure_outcome, Except.ok.injEq] at done
  obtain ⟨_, ofDelimiter, _, ofContents, rfl⟩ := done
  exact ⟨ofDelimiter, ofContents⟩

end DataSpec

namespace ListSpec

theorem read_terminator_reads {d : Declaration} {parent : Parent} {declared : Option (Prefix Field)}
    (read : (readTerminator d parent).outcome = .ok declared) :
    ∀ slot, declared.bind Prefix.slot? = some slot → d.Reads slot := by
  intro slot some
  unfold readTerminator at read
  split at read
  · cases read
    nomatch some
  · split at read
    · simp only [Build.bind_ok, Build.pure_outcome, Except.ok.injEq] at read
      obtain ⟨_, -, rfl⟩ := read
      nomatch some
    · simp only [Build.bind_ok, Build.lift_outcome] at read
      obtain ⟨_, -, rest⟩ := read
      split at rest
      · simp only [Build.bind_ok, Build.lift_outcome, Build.pure_outcome, Except.ok.injEq] at rest
        obtain ⟨tail, detached, rfl⟩ := rest
        rw [Option.bind_some, Declaration.read_detached_slot detached] at some
        nomatch some
      · simp only [Build.bind_ok, Build.pure_outcome, Except.ok.injEq] at rest
        obtain ⟨own, ofSlot, rfl⟩ := rest
        cases own with
        | none => nomatch some
        | some own =>
            cases some
            exact Declaration.read_slot_reads ofSlot

inductive Repeats (d : Declaration) (current : Repetition Field) : Option Nat →
    Option (Prefix Field) → Option (Prefix Field) → Option (Prefix Field) →
    Repetition Field → Prop where
  | kept : Repeats d current none none none none current
  | count {n : Nat} (same : d.reused = true → current.label = (.count n : Repetition Field).label) :
      Repeats d current (some n) none none none (.count n)
  | countPrefix {lead : Prefix Field}
      (same : d.reused = true → current.label = (.countPrefix lead : Repetition Field).label) :
      Repeats d current none (some lead) none none (.countPrefix lead)
  | lengthPrefix {lead : Prefix Field}
      (same : d.reused = true → current.label = (.lengthPrefix lead : Repetition Field).label) :
      Repeats d current none none (some lead) none (.lengthPrefix lead)
  | termSuffix {tail : Prefix Field}
      (same : d.reused = true → current.label = (.termSuffix tail : Repetition Field).label) :
      Repeats d current none none none (some tail) (.termSuffix tail)

theorem read_repetition_ok {d : Declaration} {parent : Parent} {current later : Repetition Field}
    (read : (readRepetition d parent current).outcome = .ok later) :
    ∃ count countPrefix lengthPrefix termSuffix, readCount d = .ok count ∧
      (d.readPrefix "countPrefix" parent).outcome = .ok countPrefix ∧
      (d.readPrefix "lengthPrefix" parent).outcome = .ok lengthPrefix ∧
      (readTerminator d parent).outcome = .ok termSuffix ∧
      Repeats d current count countPrefix lengthPrefix termSuffix later := by
  simp only [readRepetition, Build.bind_ok, Build.lift_outcome] at read
  obtain ⟨count, ofCount, countPrefix, ofCounts, lengthPrefix, ofLengths, termSuffix, ofTail,
    rest⟩ := read
  refine ⟨count, countPrefix, lengthPrefix, termSuffix, ofCount, ofCounts, ofLengths, ofTail, ?_⟩
  split at rest
  · cases rest
    exact .kept
  · obtain ⟨rfl, same⟩ := Declaration.keep_label_ok rest
    exact .count same
  · obtain ⟨rfl, same⟩ := Declaration.keep_label_ok rest
    exact .countPrefix same
  · obtain ⟨rfl, same⟩ := Declaration.keep_label_ok rest
    exact .lengthPrefix same
  · obtain ⟨rfl, same⟩ := Declaration.keep_label_ok rest
    exact .termSuffix same
  · cases rest

theorem read_repetition_slots {d : Declaration} {parent : Parent} {current later : Repetition Field}
    (read : (readRepetition d parent current).outcome = .ok later) :
    ∀ slot, later.boundary?.bind Prefix.slot? = some slot →
      current.boundary?.bind Prefix.slot? = some slot ∨ d.Reads slot := by
  obtain ⟨_, _, _, _, -, ofCounts, ofLengths, ofTail, ends⟩ := read_repetition_ok read
  intro slot held
  cases ends with
  | kept => exact Or.inl held
  | count => nomatch held
  | countPrefix => exact Or.inr (Declaration.read_prefix_reads ofCounts slot held)
  | lengthPrefix => exact Or.inr (Declaration.read_prefix_reads ofLengths slot held)
  | termSuffix => exact Or.inr (read_terminator_reads ofTail slot held)

theorem mem_slots {spec : ListSpec Field} {slot : Slot Field} :
    slot ∈ spec.slots ↔ spec.element = some slot ∨
      spec.repetition.boundary?.bind Prefix.slot? = some slot ∨
      spec.elementPrefix.bind Prefix.slot? = some slot := by
  simp [slots]

theorem read_ends {d : Declaration} {profile : Profile} {spec later : ListSpec Field}
    (done : (read d profile spec).outcome = .ok later) :
    (readRepetition d (Declaration.memberParent .list profile) spec.repetition).outcome =
      .ok later.repetition := by
  simp only [read, Build.bind_ok] at done
  obtain ⟨declared, -, rest⟩ := done
  split at rest
  · cases rest
  · simp only [Build.bind_ok, Build.lift_outcome, Build.pure_outcome, Except.ok.injEq] at rest
    obtain ⟨repetition, ofRepetition, _, -, _, -, _, -, _, -, rfl⟩ := rest
    exact ofRepetition

theorem read_slots {d : Declaration} {profile : Profile} {spec later : ListSpec Field}
    (done : (read d profile spec).outcome = .ok later) :
    ∀ slot ∈ later.slots, slot ∈ spec.slots ∨ d.Reads slot := by
  have element := read_element done
  simp only [read, Build.bind_ok] at done
  obtain ⟨declared, -, rest⟩ := done
  split at rest
  · cases rest
  · simp only [Build.bind_ok, Build.lift_outcome, Build.pure_outcome, Except.ok.injEq] at rest
    obtain ⟨repetition, ofRepetition, _, -, _, -, lead, ofLead, _, -, rfl⟩ := rest
    intro slot member
    rw [mem_slots] at member ⊢
    rcases member with isElement | atBoundary | beforeElement
    · cases isElement
      exact (Declaration.wrapped_reads element).imp_left Or.inl
    · exact (read_repetition_slots ofRepetition slot atBoundary).imp_left fun kept =>
        Or.inr (Or.inl kept)
    · cases lead with
      | none => exact Or.inl (Or.inr (Or.inr beforeElement))
      | some own => exact Or.inr (Declaration.read_prefix_reads ofLead slot beforeElement)

end ListSpec

theorem RefSpec.read_slots {d : Declaration} {profile profile' : Profile}
    {spec later : RefSpec Field} (done : (read d profile spec).outcome = .ok (profile', later))
    {handle : Handle Field} (target : later.target = some handle) :
    spec.target = some handle ∨ d.Reads (.external handle) := by
  simp only [read, Build.bind_ok, Build.lift_outcome, Build.pure_outcome, Except.ok.injEq,
    Prod.mk.injEq] at done
  obtain ⟨chosen, ofTarget, _, -, -, rfl⟩ := done
  cases target
  simp only [readTarget, except_bind_ok] at ofTarget
  obtain ⟨_, -, rest⟩ := ofTarget
  split at rest
  · split at rest
    · rename_i found
      cases rest
      exact Or.inr (.found found)
    · cases rest
  · split at rest
    · rename_i kept
      cases rest
      exact Or.inl kept
    · cases rest

theorem OptionalSpec.read_slots {d : Declaration} {profile : Profile}
    {spec later : OptionalSpec Field} (done : (read d profile spec).outcome = .ok later)
    {slot : Slot Field} (inner : later.inner = some slot) :
    spec.inner = some slot ∨ d.Reads slot :=
  Declaration.wrapped_reads (inner ▸ read_inner done)

/-- The members of a reused bitfield are those of its source in the window of the field. -/
theorem BitfieldSpec.read_members_of {d : Declaration} {profile : Profile}
    {spec later : BitfieldSpec Field} (done : (read d profile spec).outcome = .ok later) :
    ∀ m ∈ later.members, (∃ source ∈ spec.members, m = source.withWindow profile.window) ∨
      d.Builds (Declaration.memberParent .bitfield profile) m := by
  simp only [read, Build.bind_ok, Build.lift_outcome, Build.pure_outcome,
    Except.ok.injEq] at done
  obtain ⟨_, -, first, taken, members, replaced, _, -, _, -, _, -, _, -, rfl⟩ := done
  intro m member
  rcases Declaration.replace_members_ok replaced m member with kept | new
  · refine (Declaration.take_members_ok taken m kept).imp_left fun inherited => ?_
    obtain ⟨source, inside, rfl⟩ := List.mem_map.mp inherited
    exact ⟨source, inside, rfl⟩
  · exact Or.inr new

namespace Declaration

theorem supplies_adopted {d : Declaration} {payload : Payload Field} {parent : Parent} {since : Nat}
    {members : List Field} {m : Field} (slots : payload.slots = members.map Slot.inline)
    (origin : m ∈ Field.adopt since members ∨ d.Builds parent m) :
    d.Supplies payload (.inline m) := by
  rcases origin with adopted | builds
  · obtain ⟨source, inherited, -, rfl⟩ := Field.adopt_mem adopted
    exact .lifted (slots ▸ List.mem_map_of_mem inherited) since
  · exact .read (.built builds)

theorem supplies_of_kept {d : Declaration} {payload : Payload Field} {slot : Slot Field}
    (origin : slot ∈ payload.slots ∨ d.Reads slot) : d.Supplies payload slot :=
  origin.elim .kept .read

/-- Every slot of a field that was read over a payload is supplied by the two. -/
theorem read_payload_supplies {d : Declaration} {profile : Profile} {payload : Payload Field}
    {f : Field} (fresh : d.reused = false → payload.members = [])
    (read : (d.readPayload profile payload).outcome = .ok f) :
    ∀ slot ∈ f.slots, d.Supplies payload slot := by
  intro slot member
  cases payload with
  | int | float | enum | set =>
      obtain ⟨_, -, rfl⟩ := Build.return_ok read
      exact absurd member List.not_mem_nil
  | string spec =>
      obtain ⟨later, done, rfl⟩ := Build.return_ok read
      obtain ⟨_, _, _, -, ofLead, -, ends⟩ :=
        StringSpec.read_delimiter_ok (StringSpec.read_ok done).1
      exact supplies_of_kept (delimits_slots ends (read_prefix_reads ofLead) slot member)
  | data spec =>
      obtain ⟨later, done, rfl⟩ := Build.return_ok read
      obtain ⟨_, _, -, ofLead, ends⟩ := DataSpec.read_delimiter_ok (DataSpec.read_ok done).1
      exact supplies_of_kept (delimits_slots ends (read_prefix_reads ofLead) slot member)
  | list spec =>
      obtain ⟨later, done, rfl⟩ := Build.return_ok read
      exact supplies_of_kept (ListSpec.read_slots done slot member)
  | optional spec =>
      obtain ⟨later, done, rfl⟩ := Build.return_ok read
      have inner := OptionalSpec.read_slots done (Option.mem_toList.mp member)
      exact supplies_of_kept (inner.imp_left Option.mem_toList.mpr)
  | ref spec =>
      simp only [readPayload, Build.bind_ok, Build.pure_outcome, Except.ok.injEq] at read
      obtain ⟨⟨profile', later⟩, done, rfl⟩ := read
      obtain ⟨handle, target, rfl⟩ := List.mem_map.mp member
      have linked := RefSpec.read_slots done (Option.mem_toList.mp target)
      exact supplies_of_kept (linked.imp_left fun kept =>
        List.mem_map_of_mem (Option.mem_toList.mpr kept))
  | bitfield spec =>
      obtain ⟨later, done, rfl⟩ := Build.return_ok read
      obtain ⟨m, inside, rfl⟩ := List.mem_map.mp member
      rcases BitfieldSpec.read_members_of done m inside with ⟨source, inherited, rfl⟩ | builds
      · exact .packed rfl inherited profile.window
      · exact .read (.built builds)
  | bundle spec =>
      obtain ⟨later, done, rfl⟩ := Build.return_ok read
      obtain ⟨m, inside, rfl⟩ := List.mem_map.mp member
      exact supplies_adopted rfl (BundleSpec.read_ok done m inside)
  | variant spec =>
      obtain ⟨later, done, rfl⟩ := Build.return_ok read
      obtain ⟨m, inside, rfl⟩ := List.mem_map.mp member
      exact supplies_adopted rfl (VariantSpec.read_ok fresh done m inside)

end Declaration

end WireSchema
