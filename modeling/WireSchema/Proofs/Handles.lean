import WireSchema.Proofs.Growth

/-!
Handles of registered fields, wherever a field of the model stores one: in references, in the slots
of lists and optionals, in prefixes and terminators. A handle carries the field that is registered
under its id, and a registered field stores handles of earlier ones only, so a walk that follows
them comes to an end.
-/

namespace WireSchema

section Size

theorem Slot.size_part (slot : Slot Field) : sizeOf slot.part < sizeOf slot := by
  cases slot with
  | inline part =>
      simp only [Slot.part, Slot.inline.sizeOf_spec]
      omega
  | external handle =>
      cases handle
      simp only [Slot.part, Slot.external.sizeOf_spec, Handle.mk.sizeOf_spec]
      omega

theorem Prefix.size_slot {lead : Prefix Field} {slot : Slot Field} (held : lead.slot? = some slot) :
    sizeOf slot < sizeOf lead := by
  cases lead with
  | part own =>
      cases held
      simp only [Prefix.part.sizeOf_spec]
      omega
  | detached => nomatch held

theorem Delimiter.size_slot {delimiter : Delimiter Field} {slot : Slot Field}
    (held : slot ∈ delimiter.slots) : sizeOf slot < sizeOf delimiter := by
  have atLead := mem_slots.mp held
  cases delimiter with
  | prefixed lead =>
      have smaller := Prefix.size_slot atLead
      simp only [Delimiter.prefixed.sizeOf_spec]
      omega
  | unbounded | fixed | zeroTerminated => nomatch atLead

theorem Repetition.size_boundary {repetition : Repetition Field} {boundary : Prefix Field}
    (held : repetition.boundary? = some boundary) : sizeOf boundary < sizeOf repetition := by
  cases repetition with
  | countPrefix lead | lengthPrefix lead | termSuffix lead =>
      cases held
      simp only [Repetition.countPrefix.sizeOf_spec, Repetition.lengthPrefix.sizeOf_spec,
        Repetition.termSuffix.sizeOf_spec]
      omega
  | unbounded | count => nomatch held

theorem ListSpec.size_slot {spec : ListSpec Field} {slot : Slot Field} (held : slot ∈ spec.slots) :
    sizeOf slot < sizeOf spec := by
  obtain ⟨element, repetition, elementPrefix, _⟩ := spec
  simp only [ListSpec.mk.sizeOf_spec]
  rcases mem_slots.mp held with isElement | atBoundary | beforeElement
  · cases isElement
    simp only [Option.some.sizeOf_spec]
    omega
  · obtain ⟨boundary, ofList, inside⟩ := Option.bind_eq_some_iff.mp atBoundary
    have smaller := Prefix.size_slot inside
    have within : sizeOf boundary < sizeOf repetition := Repetition.size_boundary ofList
    omega
  · obtain ⟨lead, ofElement, inside⟩ := Option.bind_eq_some_iff.mp beforeElement
    cases ofElement
    have smaller := Prefix.size_slot inside
    simp only [Option.some.sizeOf_spec]
    omega

theorem Payload.size_members {payload : Payload Field} {m : Field} (member : m ∈ payload.members) :
    sizeOf m < sizeOf payload := by
  have smaller := List.sizeOf_lt_of_mem member
  refine Nat.lt_trans smaller ?_
  cases payload with
  | bitfield spec | bundle spec | variant spec =>
      cases spec
      simp +arith [members]
  | _ => exact absurd member List.not_mem_nil

theorem Payload.size_slot {payload : Payload Field} {slot : Slot Field}
    (held : slot ∈ payload.slots) : sizeOf slot.part < sizeOf payload := by
  have smaller := slot.size_part
  cases payload with
  | int | float | enum | set => exact absurd held List.not_mem_nil
  | bitfield | bundle | variant =>
      obtain ⟨m, member, rfl⟩ := List.mem_map.mp held
      exact size_members member
  | string spec | data spec =>
      have within := Delimiter.size_slot held
      cases spec
      simp only [Payload.string.sizeOf_spec, Payload.data.sizeOf_spec, StringSpec.mk.sizeOf_spec,
        DataSpec.mk.sizeOf_spec] at within ⊢
      omega
  | list spec =>
      have within := ListSpec.size_slot held
      simp only [Payload.list.sizeOf_spec]
      omega
  | ref spec =>
      obtain ⟨handle, target, rfl⟩ := List.mem_map.mp held
      obtain ⟨_, _⟩ := spec
      cases Option.mem_toList.mp target
      simp only [Payload.ref.sizeOf_spec, RefSpec.mk.sizeOf_spec, Option.some.sizeOf_spec,
        Slot.external.sizeOf_spec] at smaller ⊢
      omega
  | optional spec =>
      obtain ⟨_, _⟩ := spec
      cases Option.mem_toList.mp held
      simp only [Payload.optional.sizeOf_spec, OptionalSpec.mk.sizeOf_spec,
        Option.some.sizeOf_spec]
      omega

theorem Field.size_slot {f : Field} {slot : Slot Field} (held : slot ∈ f.slots) :
    sizeOf slot.part < sizeOf f := by
  obtain ⟨profile, payload⟩ := f
  have smaller : sizeOf slot.part < sizeOf payload := Payload.size_slot held
  simp only [Field.mk.sizeOf_spec]
  omega

/-- A property that a field has once the fields in its slots have it is one of all fields. -/
theorem Field.slot_induction {holds : Field → Prop}
    (step : ∀ f : Field, (∀ slot ∈ f.slots, holds slot.part) → holds f) (f : Field) : holds f := by
  induction size : sizeOf f using Nat.strongRecOn generalizing f with
  | ind bound ih =>
      apply step
      intro slot member
      have smaller := size_slot member
      exact ih _ (size ▸ smaller) slot.part rfl

end Size

def Field.Holds (f : Field) (handle : Handle Field) : Prop :=
  ∃ g, f.LeadsTo g ∧ .external handle ∈ g.slots

/-- The registry has under the id of each stored handle what the handle carries. -/
def Payload.Linked (r : Registry) (payload : Payload Field) : Prop :=
  ∀ handle, .external handle ∈ payload.slots → r.get? handle.id = some handle.target

theorem Payload.linked_law : Payload.Law Payload.Linked where
  blank r kind := by
    intro handle held
    rw [blank_slots] at held
    exact absurd held List.not_mem_nil
  grown extended linked handle held := Registry.get_of_extends extended (linked handle held)
  read fresh linked read := by
    intro handle held
    cases Declaration.read_payload_supplies fresh read _ held with
    | read reads =>
        cases reads with
        | found hit => exact Registry.find_get hit
    | kept kept => exact linked handle kept

def Slot.id? {α : Type} : Slot α → Option Nat
  | .inline _ => none
  | .external handle => some handle.id

theorem Slot.external_of_id {slot : Slot Field} {id : Nat} (linked : slot.id? = some id) :
    ∃ handle, slot = .external handle ∧ handle.id = id := by
  cases slot with
  | inline => nomatch linked
  | external handle => exact ⟨handle, rfl, Option.some.inj linked⟩

namespace Registry

/-- A step of a walk through a field: to a part in place, or to what is registered under the id of
a handle that the field stores. -/
inductive Follows (r : Registry) : Field → Field → Prop where
  | inside {f part : Field} (held : .inline part ∈ f.slots) : Follows r f part
  | link {f g : Field} {handle : Handle Field} (held : .external handle ∈ f.slots)
      (registered : r.get? handle.id = some g) : Follows r f g

theorem follows_acc {r : Registry} (f : Field) (linked : f.Everywhere (Payload.Linked r)) :
    Acc (fun g f => r.Follows f g) f := by
  obtain ⟨here, below⟩ := Field.everywhere_iff.mp linked
  refine Acc.intro f ?_
  intro g follows
  cases follows with
  | inside held =>
      have smaller := Field.size_slot held
      exact follows_acc g (below _ held)
  | @link handle held registered =>
      -- What the registry gives for the id is the copy that the handle stores, so this step too
      -- goes to a smaller field.
      cases (here handle held).symm.trans registered
      have smaller := Field.size_slot held
      exact follows_acc handle.target (below _ held)
termination_by sizeOf f

end Registry

namespace Protocol

/-- After any loads, handles are those of the registry, those inside a registered field have smaller
ids than the field, and no walk through a field of the model goes on forever. -/
theorem handles_registered_and_acyclic (sources : List String) :
    (∀ f, (after sources).Has f → ∀ handle, f.Holds handle →
      (after sources).registry.get? handle.id = some handle.target) ∧
    (∀ id f, (after sources).registry.get? id = some f → ∀ handle, f.Holds handle →
      handle.id < id) ∧
    ∀ f, (after sources).Has f → Acc (fun g f => (after sources).registry.Follows f g) f := by
  obtain ⟨ofModel, registered⟩ := after_everywhere Payload.linked_law sources
  refine ⟨?_, ?_, ?_⟩
  · rintro f has handle ⟨g, leads, held⟩
    exact ofModel f has g leads handle held
  · rintro id f atId handle ⟨g, leads, held⟩
    exact (Registry.get_before (registered id f atId g leads handle held)).1
  · intro f has
    exact Registry.follows_acc f (ofModel f has)

def linkedFields : String :=
  "<schema name=\"T\"><fields><int name=\"N\" type=\"uint8\"/>" ++
    "<list name=\"L\" element=\"N\" countPrefix=\"@S.A\"/></fields>" ++
    "<message name=\"M\" id=\"1\"><bundle name=\"b\"><optional name=\"o\" field=\"L\"/></bundle>" ++
    "</message></schema>"

/-- The optional inside a message holds the handle of a list, and the list holds that of a field
which a failed load left behind. -/
theorem linked_list_registered :
    ∃ f list count, (after [faultySecondField, linkedFields]).Has f ∧
      f.Holds list ∧ list.id = 2 ∧ list.target.Holds count ∧ count.id = 0 ∧
      (after [faultySecondField, linkedFields]).registry.get? 2 = some list.target ∧
      (after [faultySecondField, linkedFields]).registry.get? 0 = some count.target ∧
      count.id < list.id ∧
      Acc (fun g f => (after [faultySecondField, linkedFields]).registry.Follows f g) f := by
  have found : ((after [faultySecondField, linkedFields]).schemas.any fun s =>
      s.messages.any fun m => m.fields.any fun f => f.slots.any fun slot =>
        slot.part.slots.any fun inner => inner.id? == some 2 &&
          inner.part.slots.any fun last => last.id? == some 0) = true := by
    decide +kernel
  simp only [List.any_eq_true, Bool.and_eq_true, beq_iff_eq] at found
  obtain ⟨s, loaded, m, inSchema, f, member, slot, inField, inner, inSlot, two, last, inLast, zero⟩ :=
    found
  obtain ⟨list, rfl, isTwo⟩ := Slot.external_of_id two
  obtain ⟨count, rfl, isZero⟩ := Slot.external_of_id zero
  have has : (after [faultySecondField, linkedFields]).Has f := .ofMessage loaded inSchema member
  have holdsList : f.Holds list := ⟨slot.part, .step inField (.refl _), inSlot⟩
  have inList : list.target.Holds count := ⟨list.target, .refl _, inLast⟩
  have holdsCount : f.Holds count :=
    ⟨list.target, .step inField (.step inSlot (.refl _)), inLast⟩
  obtain ⟨same, earlier, ends⟩ :=
    handles_registered_and_acyclic [faultySecondField, linkedFields]
  have atTwo := same f has list holdsList
  have atZero := same f has count holdsCount
  have smaller := earlier list.id list.target atTwo count inList
  rw [isTwo] at atTwo
  rw [isZero] at atZero
  exact ⟨f, list, count, has, holdsList, isTwo, inList, isZero, atTwo, atZero, smaller, ends f has⟩

end Protocol

end WireSchema
