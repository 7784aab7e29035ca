import WireSchema.Proofs.Bounds
import WireSchema.Proofs.Handles
import WireSchema.Proofs.Inheritance

/-!
Least and greatest lengths. Sums and products stop at the largest word and are monotone up to there,
so a composite is consistent once its parts are. What reading has to see to is that a variable
length has room for one byte, and that no fixed length is beyond the largest word, which a greatest
length cannot pass.
-/

namespace WireSchema

namespace Length

theorem add_le_add {a b c d : Nat} (first : a ≤ b) (second : c ≤ d) : add a c ≤ add b d := by
  unfold add
  omega

theorem mul_le_mul {a b : Nat} (n : Nat) (factor : a ≤ b) : mul a n ≤ mul b n := by
  have product : a * n ≤ b * n := Nat.mul_le_mul_right n factor
  unfold mul
  omega

theorem add_le_unbounded (a b : Nat) : add a b ≤ unbounded := Nat.min_le_right _ _

theorem le_add_left {a b : Nat} (c : Nat) (below : a ≤ b) (bounded : a ≤ unbounded) :
    a ≤ add b c := by
  unfold add
  omega

theorem le_add_right {a c : Nat} (b : Nat) (below : a ≤ c) (bounded : a ≤ unbounded) :
    a ≤ add b c := by
  unfold add
  omega

theorem sum_le_unbounded (lengths : List Nat) : sum lengths ≤ unbounded := by
  have bounded : ∀ start ≤ unbounded, lengths.foldl add start ≤ unbounded := by
    induction lengths with
    | nil => exact fun start below => below
    | cons n rest ih => exact fun start _ => ih (add start n) (add_le_unbounded start n)
  exact bounded 0 (Nat.zero_le _)

theorem sum_le_sum {α : Type} {low high : α → Nat} (xs : List α) (each : ∀ x ∈ xs, low x ≤ high x) :
    sum (xs.map low) ≤ sum (xs.map high) := by
  have grown : ∀ a b, a ≤ b → (xs.map low).foldl add a ≤ (xs.map high).foldl add b := by
    induction xs with
    | nil => exact fun a b below => below
    | cons x rest ih =>
        obtain ⟨first, others⟩ := List.forall_mem_cons.mp each
        exact fun a b below => ih others _ _ (add_le_add below first)
  exact grown 0 0 (Nat.le_refl 0)

end Length

namespace Footprint

structure Consistent (room : Footprint) : Prop where
  ordered : room.least ≤ room.greatest
  bounded : room.least ≤ Length.unbounded

theorem nothing_consistent : nothing.Consistent := ⟨Nat.le_refl 0, Nat.zero_le _⟩

theorem sequence_consistent (carriesLength : Bool) {members : List Footprint}
    (each : ∀ m ∈ members, m.Consistent) : (sequence carriesLength members).Consistent := by
  have bounded := Length.sum_le_unbounded (members.map Footprint.least)
  refine ⟨?_, bounded⟩
  simp only [sequence, ofLengths]
  split
  · exact bounded
  · exact Length.sum_le_sum members fun m member => (each m member).ordered

theorem prefixed_consistent {lead : Footprint} (announced : Option Nat) (led : lead.Consistent) :
    (prefixed lead announced).Consistent := by
  refine ⟨?_, led.bounded⟩
  cases announced with
  | none => exact led.bounded
  | some n => exact Length.le_add_left n led.ordered led.bounded

theorem counted_consistent (fixedLength : Bool) {lead : Footprint} (announced : Option Nat)
    (element elementLead : Footprint) (led : lead.Consistent) :
    (counted fixedLength lead announced element elementLead).Consistent := by
  refine ⟨?_, led.bounded⟩
  cases announced with
  | none => exact led.bounded
  | some n =>
      have beforeLeads := Length.le_add_right (Length.mul element.greatest n) led.ordered led.bounded
      exact Length.le_add_left _ beforeLeads led.bounded

theorem repeated_le (fixedLength : Bool) (n : Nat) {element element' lead lead' : Nat}
    (elements : element ≤ element') (leads : lead ≤ lead') :
    repeated fixedLength n element lead ≤ repeated fixedLength n element' lead' := by
  unfold repeated
  apply Length.add_le_add (Length.mul_le_mul n elements)
  split
  · exact leads
  · exact Length.mul_le_mul n leads

end Footprint

namespace Storage

structure Sized (s : Storage) : Prop where
  room : s.leastLength ≤ s.length
  bounded : s.length ≤ Length.unbounded

theorem footprint_consistent {s : Storage} (sized : s.Sized) : s.footprint.Consistent :=
  ⟨sized.room, Nat.le_trans sized.room sized.bounded⟩

end Storage

def Delimiter.Sized {α : Type} (delimiter : Delimiter α) : Prop :=
  ∀ length, delimiter.fixedLength? = some length → length ≤ Length.unbounded

def Payload.Sized : Payload Field → Prop
  | .int spec => spec.storage.Sized
  | .enum spec => spec.storage.Sized
  | .set spec => spec.storage.length ≤ Length.unbounded
  | .bitfield spec =>
      Length.sumWords (spec.members.map Field.bitLength) ≤ BitfieldSpec.maxBits
  | .string spec => spec.delimiter.Sized
  | .data spec => spec.delimiter.Sized
  | _ => True

namespace Field

open Footprint (Consistent)

theorem footprints_eq (members : List Field) : footprints members = members.map footprint := by
  induction members with
  | nil => simp only [footprints, List.map_nil]
  | cons m rest ih => simp only [footprints, List.map_cons, ih]

theorem prefix_footprint_part (slot : Slot Field) :
    prefixFootprint (.part slot) = slot.part.footprint := by
  cases slot <;> simp only [prefixFootprint, Slot.part]

theorem slot_footprint_some (slot : Slot Field) :
    optionalSlotFootprint (some slot) = slot.part.footprint := by
  cases slot <;> simp only [optionalSlotFootprint, Slot.part]

section Parts

variable {slots : List (Slot Field)}
  (inside : ∀ slot ∈ slots, slot.part.footprint.Consistent)

include inside

theorem prefix_footprint_consistent {lead : Prefix Field}
    (held : ∀ slot, lead.slot? = some slot → slot ∈ slots) : (prefixFootprint lead).Consistent := by
  cases lead with
  | detached sibling =>
      simp only [prefixFootprint]
      exact Footprint.nothing_consistent
  | part slot =>
      rw [prefix_footprint_part]
      exact inside slot (held slot rfl)

theorem optional_prefix_footprint_consistent {lead : Option (Prefix Field)}
    (held : ∀ slot, lead.bind Prefix.slot? = some slot → slot ∈ slots) :
    (optionalPrefixFootprint lead).Consistent := by
  cases lead with
  | none =>
      simp only [optionalPrefixFootprint]
      exact Footprint.nothing_consistent
  | some lead =>
      simp only [optionalPrefixFootprint]
      exact prefix_footprint_consistent inside held

theorem slot_footprint_consistent {slot : Option (Slot Field)}
    (held : ∀ part, slot = some part → part ∈ slots) :
    (optionalSlotFootprint slot).Consistent := by
  cases slot with
  | none =>
      simp only [optionalSlotFootprint]
      exact Footprint.nothing_consistent
  | some slot =>
      rw [slot_footprint_some]
      exact inside slot (held slot rfl)

theorem delimiter_footprint_consistent {delimiter : Delimiter Field} (sized : delimiter.Sized)
    (held : ∀ slot ∈ delimiter.slots, slot ∈ slots) :
    (delimiterFootprint delimiter).Consistent := by
  cases delimiter with
  | unbounded =>
      simp only [delimiterFootprint]
      exact ⟨Nat.zero_le _, Nat.zero_le _⟩
  | fixed length =>
      simp only [delimiterFootprint]
      exact ⟨Nat.le_refl _, sized length rfl⟩
  | prefixed lead =>
      simp only [delimiterFootprint]
      apply Footprint.prefixed_consistent
      apply prefix_footprint_consistent inside
      intro slot ofLead
      exact held slot (Delimiter.mem_slots.mpr ofLead)
  | zeroTerminated =>
      simp only [delimiterFootprint]
      exact ⟨by decide, by decide⟩

theorem repetition_footprint_consistent (fixedLength : Bool) {element elementLead : Footprint}
    {repetition : Repetition Field} (ofElement : element.Consistent)
    (ofLead : elementLead.Consistent)
    (held : ∀ slot, repetition.boundary?.bind Prefix.slot? = some slot → slot ∈ slots) :
    (repetitionFootprint fixedLength element elementLead repetition).Consistent := by
  cases repetition with
  | unbounded =>
      simp only [repetitionFootprint]
      exact ⟨Nat.zero_le _, Nat.zero_le _⟩
  | count n =>
      simp only [repetitionFootprint]
      exact ⟨Footprint.repeated_le fixedLength n ofElement.ordered ofLead.ordered,
        Length.add_le_unbounded _ _⟩
  | countPrefix lead =>
      simp only [repetitionFootprint]
      exact Footprint.counted_consistent _ _ _ _ (prefix_footprint_consistent inside held)
  | lengthPrefix lead =>
      simp only [repetitionFootprint]
      exact Footprint.prefixed_consistent _ (prefix_footprint_consistent inside held)
  | termSuffix tail =>
      simp only [repetitionFootprint]
      have bounded := (prefix_footprint_consistent inside held).bounded
      exact ⟨bounded, bounded⟩

end Parts

theorem members_consistent {members : List Field}
    (inside : ∀ slot ∈ members.map Slot.inline, slot.part.footprint.Consistent) :
    ∀ room ∈ members.map footprint, room.Consistent := by
  intro room member
  obtain ⟨m, among, rfl⟩ := List.mem_map.mp member
  exact inside (.inline m) (List.mem_map_of_mem among)

/-- One case for each kind: a field is consistent once the fields in its slots are. -/
theorem footprint_step (f : Field) (sized : f.payload.Sized)
    (inside : ∀ slot ∈ f.slots, slot.part.footprint.Consistent) : f.footprint.Consistent := by
  obtain ⟨profile, payload⟩ := f
  cases payload with
  | int spec =>
      simp only [footprint]
      exact Storage.footprint_consistent sized
  | float spec =>
      simp only [footprint]
      refine ⟨Nat.le_refl _, ?_⟩
      cases spec.type with
      | none => exact Nat.zero_le _
      | some type => cases type <;> decide
  | enum spec =>
      simp only [footprint]
      exact Storage.footprint_consistent sized
  | set spec =>
      simp only [footprint]
      exact ⟨Nat.le_refl _, sized⟩
  | bitfield spec =>
      obtain ⟨endian, members, condition⟩ := spec
      have bits : Length.sumWords ((members.map footprint).map Footprint.bits) ≤
          BitfieldSpec.maxBits := by
        rw [List.map_map]
        exact sized
      simp only [footprint, footprints_eq]
      refine ⟨Nat.le_refl _, ?_⟩
      exact Nat.le_trans (Nat.div_le_self _ 8) (Nat.le_trans bits (by decide))
  | bundle spec =>
      simp only [footprint, footprints_eq]
      exact Footprint.sequence_consistent _ (members_consistent inside)
  | string spec =>
      simp only [footprint]
      exact delimiter_footprint_consistent inside sized fun _ member => member
  | data spec =>
      simp only [footprint]
      exact delimiter_footprint_consistent inside sized fun _ member => member
  | list spec =>
      have held : ∀ slot, spec.element = some slot ∨
          spec.repetition.boundary?.bind Prefix.slot? = some slot ∨
          spec.elementPrefix.bind Prefix.slot? = some slot → slot ∈ spec.slots :=
        fun slot => ListSpec.mem_slots.mpr
      simp only [footprint]
      apply repetition_footprint_consistent inside
      · exact slot_footprint_consistent inside fun slot is => held slot (Or.inl is)
      · exact optional_prefix_footprint_consistent inside fun slot is =>
          held slot (Or.inr (Or.inr is))
      · exact fun slot is => held slot (Or.inr (Or.inl is))
  | ref spec =>
      obtain ⟨target, bitLength⟩ := spec
      simp only [footprint]
      cases target with
      | none =>
          simp only [optionalHandleFootprint]
          exact ⟨Nat.le_refl 0, Nat.zero_le _⟩
      | some handle =>
          have ofTarget := inside (.external handle) (by simp [slots, Payload.slots])
          simp only [optionalHandleFootprint]
          exact ⟨ofTarget.ordered, ofTarget.bounded⟩
  | optional spec =>
      simp only [footprint]
      exact ⟨Nat.zero_le _, Nat.zero_le _⟩
  | variant spec =>
      simp only [footprint]
      exact ⟨Nat.zero_le _, Nat.zero_le _⟩

theorem footprint_consistent (f : Field) (sized : f.Everywhere Payload.Sized) :
    f.footprint.Consistent := by
  induction f using slot_induction with
  | step f ih =>
      obtain ⟨here, below⟩ := everywhere_iff.mp sized
      exact footprint_step f here fun slot member => ih slot member (below slot member)

end Field

section Reading

variable {d : Declaration}

theorem Literal.unsigned_bounded {raw : String} {n : Nat}
    (read : Literal.unsigned? raw = some n) : n ≤ Length.unbounded := by
  obtain ⟨value, ofRaw, rfl⟩ := Option.map_eq_some_iff.mp read
  simp only [within, Option.filter_eq_some_iff, decide_eq_true_eq] at ofRaw
  have bounds := ofRaw.2
  unfold greatestUnsigned at bounds
  unfold Length.unbounded
  omega

namespace Declaration

theorem nat_prop_bounded {name : String} {n : Nat} (read : d.natProp name = .ok (some n)) :
    n ≤ Length.unbounded := by
  obtain ⟨raw, ofRaw⟩ := prop_as_ok read
  exact Literal.unsigned_bounded ofRaw

theorem read_length_bounded {type : IntType} {current length : Nat}
    (read : d.readLength type current = .ok length) (kept : current ≤ Length.unbounded) :
    length ≤ Length.unbounded := by
  rcases read_length_cases read with ⟨declared, -⟩ | ⟨-, rfl, -⟩ | rfl
  · exact nat_prop_bounded declared
  · exact kept
  · cases type <;> decide

theorem read_storage_sized {s later : Storage} {type : IntType}
    (read : (d.readStorage s).outcome = .ok (type, later)) (kept : s.length ≤ Length.unbounded) :
    later.Sized := by
  obtain ⟨typed, positive, -⟩ := read_storage_ok read
  simp only [readStorage, Build.bind_ok, Build.lift_outcome, Build.pure_outcome, Except.ok.injEq,
    Prod.mk.injEq] at read
  obtain ⟨_, -, _, -, length, ofLength, _, -, rfl, rfl⟩ := read
  constructor
  · rw [Storage.leastLength, typed]
    simp only
    split
    · exact Nat.one_le_iff_ne_zero.mpr positive
    · exact Nat.le_refl _
  · apply read_length_bounded ofLength
    split
    · exact kept
    · exact Nat.zero_le _

end Declaration

theorem SetSpec.read_type_length_bounded {s : Storage} {type : Option IntType} {length : Nat}
    (read : readTypeLength d s = .ok (type, length)) (kept : s.length ≤ Length.unbounded) :
    length ≤ Length.unbounded := by
  cases read_type_length_sizes read with
  | typed _ _ ofLength =>
      apply Declaration.read_length_bounded ofLength
      split
      · exact kept
      · exact Nat.zero_le _
  | declared given => exact Declaration.nat_prop_bounded given
  | kept => exact kept
  | counted _ _ given =>
      have bounded := Declaration.nat_prop_bounded given
      unfold Length.unbounded at bounded ⊢
      omega

theorem Declaration.delimits_sized {current later : Delimiter Field} {length : Option Nat}
    {lead : Option (Prefix Field)} {zero : Bool} (ends : d.Delimits current length lead zero later)
    (ofLength : d.readFixedLength = .ok length) (sized : current.Sized) : later.Sized := by
  intro n isFixed
  cases ends with
  | kept => exact sized n isFixed
  | fixed =>
      cases isFixed
      exact nat_prop_bounded (read_positive_ok ofLength).1
  | prefixed => cases isFixed
  | zeroTerminated => cases isFixed

theorem BitfieldSpec.check_bits_ok {members : List Field} (checked : checkBits d members = .ok ()) :
    8 ≤ Length.sumWords (members.map Field.bitLength) ∧
      Length.sumWords (members.map Field.bitLength) ≤ maxBits := by
  simp only [checkBits] at checked
  split at checked
  · cases checked
  · omega

/-- Reading sees to it that lengths can be taken for granted, whatever the start was. -/
theorem Payload.sized_law : Payload.Law fun _ payload => payload.Sized where
  blank _ kind := by
    cases kind with
    | int | enum => exact ⟨Nat.le_refl 0, Nat.zero_le _⟩
    | set | bitfield => exact Nat.zero_le _
    | string | data => exact fun _ isFixed => (nomatch isFixed)
    | _ => trivial
  grown _ sized := sized
  read _ sized read := by
    cases Declaration.read_payload_reads read with
    | int done =>
        obtain ⟨_, _, _, -, -, stored⟩ := IntSpec.read_ok done
        exact Declaration.read_storage_sized stored sized.bounded
    | enum done =>
        obtain ⟨_, _, -, -, stored⟩ := EnumSpec.read_ok done
        exact Declaration.read_storage_sized stored sized.bounded
    | set done => exact SetSpec.read_type_length_bounded (SetSpec.read_ok done).1 sized
    | bitfield done =>
        obtain ⟨_, _, -, -, -, -, filled, -⟩ := BitfieldSpec.read_parts done
        exact (BitfieldSpec.check_bits_ok filled).2
    | string done =>
        obtain ⟨_, _, _, ofLength, -, -, ends⟩ :=
          StringSpec.read_delimiter_ok (StringSpec.read_ok done).1
        exact Declaration.delimits_sized ends ofLength sized
    | data done =>
        obtain ⟨_, _, ofLength, -, ends⟩ := DataSpec.read_delimiter_ok (DataSpec.read_ok done).1
        exact Declaration.delimits_sized ends ofLength sized
    | _ => trivial

end Reading

/-- Where every registered field was built over the ones before it, the least length of a field that
is built, and of every field in it, is not above the greatest. The same holds of all fields of a
loaded model, and of its messages. -/
theorem lengths_consistent :
    (∀ (env : Environment) (tag : String) (node : Markup.Node) (parent : Parent) (f g : Field),
      env.registry.GrownIn (fun _ => True) →
      (Field.create env tag node parent).outcome = .ok f → f.LeadsTo g →
        g.minLength ≤ g.maxLength) ∧
    ∀ (sources : List String),
      (∀ f g, (Protocol.after sources).Has f → f.LeadsTo g → g.minLength ≤ g.maxLength) ∧
      ∀ s ∈ (Protocol.after sources).schemas, ∀ m ∈ s.messages, m.minLength ≤ m.maxLength := by
  have law := Payload.law_everywhere Payload.sized_law
  have inside : ∀ f g : Field, f.Everywhere Payload.Sized → f.LeadsTo g →
      g.minLength ≤ g.maxLength := fun f g everywhere leads =>
    (g.footprint_consistent fun h below => everywhere h (Field.leads_trans leads below)).ordered
  constructor
  · intro env tag node parent f g grown built leads
    exact inside f g
      (law.built trivial (fun _ _ found => Registry.law_of_find law grown found) built) leads
  · intro sources
    have everywhere := (Protocol.after_everywhere Payload.sized_law sources).1
    constructor
    · exact fun f g has leads => inside f g (everywhere f has) leads
    · intro s loaded m member
      apply Length.sum_le_sum
      intro f among
      exact inside f f (everywhere f (.ofMessage loaded member among)) (.refl f)

def countedWords : Markup.Node :=
  ⟨"list", [("name", "L"), ("element", "A"), ("countPrefix", "A")], [], "", 1⟩

def variableMessage : String := r#"<schema name="S">
  <message name="M" id="1"><int name="v" type="uintvar"/><string name="t"/></message>
</schema>"#

theorem counted_words_consistent :
    (∃ f, (Field.create (Field.schemaOf [Field.wideInteger "1" "[0, 9]"]) "list" countedWords
        ⟨.ns, Window.always⟩).outcome = .ok f ∧ f.slots.length = 2 ∧ f.minLength = 2 ∧
      f.minLength ≤ f.maxLength) ∧
    ∃ s ∈ (Protocol.after [variableMessage]).schemas, ∃ m ∈ s.messages,
      m.minLength = 1 ∧ m.minLength ≤ m.maxLength := by
  obtain ⟨fields, loaded⟩ := lengths_consistent
  constructor
  · obtain ⟨f, built, facts⟩ := except_any (show
      ((Field.create (Field.schemaOf [Field.wideInteger "1" "[0, 9]"]) "list"
        countedWords ⟨.ns, Window.always⟩).outcome.toOption.any fun f =>
          f.slots.length = 2 && f.minLength = 2) = true by decide +kernel)
    simp only [Bool.and_eq_true, decide_eq_true_eq] at facts
    have grown := Registry.grown_imp (fun _ _ => trivial)
      (Field.registry_of_grown [Field.wideInteger "1" "[0, 9]"])
    exact ⟨f, built, facts.1, facts.2, fields _ _ _ _ f f grown built (.refl f)⟩
  · have found :
        ((Protocol.after [variableMessage]).schemas.any fun s => s.messages.any fun m =>
          m.minLength = 1) = true := by
      rw [Protocol.after_spelled variableMessage String.toList_ofList]
      decide +kernel
    simp only [List.any_eq_true, decide_eq_true_eq] at found
    obtain ⟨s, inModel, m, member, least⟩ := found
    exact ⟨s, inModel, m, member, least, (loaded _).2 s inModel m member⟩

end WireSchema
