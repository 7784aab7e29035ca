import WireSchema.Proofs.Copies
import WireSchema.Proofs.Extents

/-!
Lengths that stop at the largest word at every step are the exact ones, cut off once at the end,
except where the widths in a bitfield add up to more than a word. The induction is over the slots of
a field, with one case for each kind. What reading has to see to is that every field takes some
room, and that only integers, enumerations and sets are packed, so that the exception does not occur
inside itself.
-/

namespace WireSchema

def Payload.Filled : Payload Field → Prop
  | .int spec => spec.storage.length ≠ 0
  | .float spec => spec.type.isSome = true
  | .enum spec => spec.storage.length ≠ 0
  | .set spec => spec.storage.length ≠ 0
  | .bitfield spec => 8 ≤ Length.sumWords (spec.members.map Field.bitLength) ∧
      ∀ m ∈ spec.members, BitfieldSpec.Packs m
  | .bundle spec => spec.members ≠ []
  | .string spec => spec.delimiter.fixedLength? ≠ some 0
  | .data spec => spec.delimiter.fixedLength? ≠ some 0
  | .list spec => spec.element.isSome = true ∧ ∀ n, spec.repetition = .count n → n ≠ 0
  | .ref spec => spec.target.isSome = true
  | .optional spec => spec.inner.isSome = true
  | .variant spec => spec.members ≠ []

/-- The widths in a bitfield add up to more than a word holds, so that the carry is lost. -/
def Payload.Overfull : Payload Field → Prop
  | .bitfield spec => Length.wordCount ≤ (spec.members.map Field.bitLength).sum
  | _ => False

instance : DecidablePred Payload.Overfull
  | .bitfield spec =>
      inferInstanceAs (Decidable (Length.wordCount ≤ (spec.members.map Field.bitLength).sum))
  | .int _ | .float _ | .enum _ | .set _ | .bundle _ | .string _ | .data _ | .list _ | .ref _
  | .optional _ | .variant _ => inferInstanceAs (Decidable False)

/-- The lengths are the exact ones where these are below the largest word, and else the largest
word. -/
def Field.CutOnce (f : Field) : Prop :=
  f.minLength = Length.cut f.extent.least ∧ f.maxLength = Length.cut f.extent.greatest

namespace Field

open Footprint (Fills)

theorem extents_eq (members : List Field) : extents members = members.map extent := by
  induction members with
  | nil => simp only [extents, List.map_nil]
  | cons m rest ih => simp only [extents, List.map_cons, ih]

theorem prefix_extent_part (slot : Slot Field) : prefixExtent (.part slot) = slot.part.extent := by
  cases slot <;> simp only [prefixExtent, Slot.part]

theorem slot_extent_some (slot : Slot Field) :
    optionalSlotExtent (some slot) = slot.part.extent := by
  cases slot <;> simp only [optionalSlotExtent, Slot.part]

section Parts

variable {slots : List (Slot Field)}
  (inside : ∀ slot ∈ slots, slot.part.footprint.Fills slot.part.extent)

include inside

theorem prefix_cuts {lead : Prefix Field}
    (held : ∀ slot, lead.slot? = some slot → slot ∈ slots) :
    (prefixFootprint lead).Cuts (prefixExtent lead) := by
  cases lead with
  | detached sibling =>
      simp only [prefixFootprint, prefixExtent]
      exact Footprint.nothing_cuts
  | part slot =>
      rw [prefix_footprint_part, prefix_extent_part]
      exact (inside slot (held slot rfl)).toCuts

theorem optional_prefix_cuts {lead : Option (Prefix Field)}
    (held : ∀ slot, lead.bind Prefix.slot? = some slot → slot ∈ slots) :
    (optionalPrefixFootprint lead).Cuts (optionalPrefixExtent lead) := by
  cases lead with
  | none =>
      simp only [optionalPrefixFootprint, optionalPrefixExtent]
      exact Footprint.nothing_cuts
  | some lead =>
      simp only [optionalPrefixFootprint, optionalPrefixExtent]
      exact prefix_cuts inside held

/-- A prefix that takes nothing is a sibling, and then nothing bounds what it announces. -/
theorem prefix_or_announced {lead : Prefix Field}
    (held : ∀ slot, lead.slot? = some slot → slot ∈ slots) :
    (prefixExtent lead).greatest ≠ 0 ∨ lead.announced = ⊤ := by
  cases lead with
  | detached sibling => exact Or.inr rfl
  | part slot =>
      rw [prefix_extent_part]
      exact Or.inl (inside slot (held slot rfl)).positive

theorem prefixed_fills {lead : Prefix Field}
    (held : ∀ slot, lead.slot? = some slot → slot ∈ slots) :
    (Footprint.prefixed (prefixFootprint lead) lead.announces?).Fills
      (.prefixed (prefixExtent lead) lead.announced) := by
  refine ⟨Footprint.prefixed_cuts lead (prefix_cuts inside held), ?_⟩
  simp only [Extent.prefixed, Extent.ofLengths]
  rcases prefix_or_announced inside held with taken | endless
  · exact ne_bot_of_le_ne_bot taken le_self_add
  · rw [endless, add_top]
    exact ENat.top_ne_zero

theorem delimiter_fills {delimiter : Delimiter Field} (sized : delimiter.Sized)
    (filled : delimiter.fixedLength? ≠ some 0) (held : ∀ slot ∈ delimiter.slots, slot ∈ slots) :
    (delimiterFootprint delimiter).Fills (delimiterExtent delimiter) := by
  cases delimiter with
  | unbounded =>
      simp only [delimiterFootprint, delimiterExtent]
      refine ⟨?_, ENat.top_ne_zero⟩
      exact Footprint.of_lengths_cuts Length.cut_zero.symm Length.cut_top.symm (.refl _)
  | fixed length =>
      have word := (Length.cut_of_le (sized length rfl)).symm
      simp only [delimiterFootprint, delimiterExtent]
      refine ⟨Footprint.of_lengths_cuts word word (.refl _), ?_⟩
      intro zero
      exact filled (congrArg some (Nat.cast_eq_zero.mp zero))
  | prefixed lead =>
      simp only [delimiterFootprint, delimiterExtent]
      apply prefixed_fills inside
      intro slot ofLead
      exact held slot (Delimiter.mem_slots.mpr ofLead)
  | zeroTerminated =>
      simp only [delimiterFootprint, delimiterExtent]
      refine ⟨?_, ENat.top_ne_zero⟩
      have one := (Length.cut_of_le (by decide : 1 ≤ Length.unbounded)).symm
      exact Footprint.of_lengths_cuts one Length.cut_top.symm (.refl _)

theorem repetition_fills (fixedLength : Bool) {element lead : Footprint} {element' lead' : Extent}
    {repetition : Repetition Field} (ofElement : element.Fills element') (ofLead : lead.Cuts lead')
    (filled : ∀ n, repetition = .count n → n ≠ 0)
    (held : ∀ slot, repetition.boundary?.bind Prefix.slot? = some slot → slot ∈ slots) :
    (repetitionFootprint fixedLength element lead repetition).Fills
      (repetitionExtent fixedLength element' lead' repetition) := by
  cases repetition with
  | unbounded =>
      simp only [repetitionFootprint, repetitionExtent]
      refine ⟨?_, ENat.top_ne_zero⟩
      exact Footprint.of_lengths_cuts Length.cut_zero.symm Length.cut_top.symm (.refl _)
  | count n =>
      simp only [repetitionFootprint, repetitionExtent, ofElement.least, ofElement.greatest,
        ofLead.least, ofLead.greatest]
      refine ⟨Footprint.of_lengths_cuts (Footprint.repeated_cuts ..) (Footprint.repeated_cuts ..)
        (.refl _), ?_⟩
      have elements : element'.greatest * n ≠ 0 :=
        mul_ne_zero ofElement.positive (Nat.cast_ne_zero.mpr (filled n rfl))
      exact ne_bot_of_le_ne_bot elements le_self_add
  | countPrefix before =>
      have led := prefix_cuts inside held
      simp only [repetitionFootprint, repetitionExtent]
      refine ⟨Footprint.counted_cuts fixedLength before led ofElement ofLead, ?_⟩
      -- The prefix takes room itself, or it sets no bound and one element does.
      rcases prefix_or_announced inside held with taken | endless
      · exact ne_bot_of_le_ne_bot taken le_self_add
      · have elements : element'.greatest * before.announced ≠ 0 :=
          mul_ne_zero ofElement.positive (endless ▸ ENat.top_ne_zero)
        exact ne_bot_of_le_ne_bot elements (le_add_left le_self_add)
  | lengthPrefix before =>
      simp only [repetitionFootprint, repetitionExtent]
      exact prefixed_fills inside held
  | termSuffix tail =>
      simp only [repetitionFootprint, repetitionExtent]
      refine ⟨?_, ENat.top_ne_zero⟩
      exact Footprint.of_lengths_cuts (prefix_cuts inside held).least Length.cut_top.symm
        (.refl _)

end Parts

theorem members_fill {members : List Field}
    (inside : ∀ slot ∈ members.map Slot.inline, slot.part.footprint.Fills slot.part.extent) :
    ∀ m ∈ members, m.footprint.Fills m.extent :=
  fun m member => inside (.inline m) (List.mem_map_of_mem member)

theorem storage_fills {s : Storage} (sized : s.Sized) (filled : s.length ≠ 0) :
    s.footprint.Fills (.ofLengths s.leastLength s.length s.bitLength) := by
  have bounded := Nat.le_trans sized.room sized.bounded
  refine ⟨?_, Nat.cast_ne_zero.mpr filled⟩
  exact Footprint.of_lengths_cuts (Length.cut_of_le bounded).symm
    (Length.cut_of_le sized.bounded).symm (.refl _)

/-- One case for each kind: a field is measured in words once the fields in its slots are. -/
theorem extent_step (f : Field) (sized : f.payload.Sized) (filled : f.payload.Filled)
    (fits : ¬ f.payload.Overfull)
    (inside : ∀ slot ∈ f.slots, slot.part.footprint.Fills slot.part.extent) :
    f.footprint.Fills f.extent := by
  obtain ⟨profile, payload⟩ := f
  cases payload with
  | int spec =>
      simp only [footprint, extent]
      exact storage_fills sized filled
  | float spec =>
      obtain ⟨type, typed⟩ := Option.isSome_iff_exists.mp filled
      simp only [footprint, extent, typed, Option.map_some, Option.getD_some]
      have bounded : type.length ≤ Length.unbounded := by cases type <;> decide
      have word := (Length.cut_of_le bounded).symm
      refine ⟨Footprint.of_lengths_cuts word word (.refl _), ?_⟩
      exact Nat.cast_ne_zero.mpr (by cases type <;> decide)
  | enum spec =>
      simp only [footprint, extent]
      exact storage_fills sized filled
  | set spec =>
      simp only [footprint, extent]
      have word := (Length.cut_of_le sized).symm
      exact ⟨Footprint.of_lengths_cuts word word (.refl _), Nat.cast_ne_zero.mpr filled⟩
  | bitfield spec =>
      obtain ⟨endian, members, condition⟩ := spec
      simp only [footprint, extent, footprints_eq, extents_eq]
      exact Footprint.packed_fills (fun m member => (members_fill inside m member).toCuts)
        sized filled.1 (not_le.mp fits)
  | bundle spec =>
      simp only [footprint, extent, footprints_eq, extents_eq]
      exact Footprint.sequence_fills _ (members_fill inside) filled
  | string spec =>
      simp only [footprint, extent]
      exact delimiter_fills inside sized filled fun _ member => member
  | data spec =>
      simp only [footprint, extent]
      exact delimiter_fills inside sized filled fun _ member => member
  | list spec =>
      obtain ⟨element, repetition, elementPrefix, fixedLength⟩ := spec
      obtain ⟨some, counted⟩ := filled
      obtain ⟨slot, rfl⟩ := Option.isSome_iff_exists.mp some
      simp only [footprint, extent, slot_footprint_some, slot_extent_some]
      apply repetition_fills inside
      · exact inside slot (ListSpec.mem_slots.mpr (Or.inl rfl))
      · exact optional_prefix_cuts inside fun slot is =>
          ListSpec.mem_slots.mpr (Or.inr (Or.inr is))
      · exact counted
      · exact fun slot is => ListSpec.mem_slots.mpr (Or.inr (Or.inl is))
  | ref spec =>
      obtain ⟨target, bitLength⟩ := spec
      obtain ⟨handle, rfl⟩ := Option.isSome_iff_exists.mp filled
      have ofTarget := inside (.external handle) (by simp [slots, Payload.slots])
      simp only [footprint, extent, optionalHandleFootprint, optionalHandleExtent]
      refine ⟨Footprint.of_lengths_cuts ofTarget.least ofTarget.greatest ?_, ofTarget.positive⟩
      -- A reference has the bits of its target unless it declares its own.
      split
      · exact .refl _
      · exact ofTarget.bits
  | optional spec =>
      obtain ⟨inner, mode, condition, onReadFail, onInvalid⟩ := spec
      obtain ⟨slot, rfl⟩ := Option.isSome_iff_exists.mp filled
      have ofInner := inside slot (by simp [slots, Payload.slots])
      simp only [footprint, extent, slot_footprint_some, slot_extent_some]
      exact ⟨Footprint.of_lengths_cuts Length.cut_zero.symm ofInner.greatest (.refl _),
        ofInner.positive⟩
  | variant spec =>
      simp only [footprint, extent, footprints_eq, extents_eq]
      exact Footprint.choice_fills (members_fill inside) filled

theorem footprint_fills (f : Field) (sized : f.Everywhere Payload.Sized)
    (filled : f.Everywhere Payload.Filled) (fits : f.Everywhere fun p => ¬ p.Overfull) :
    f.footprint.Fills f.extent := by
  induction f using slot_induction with
  | step f ih =>
      obtain ⟨sizedHere, sizedBelow⟩ := everywhere_iff.mp sized
      obtain ⟨filledHere, filledBelow⟩ := everywhere_iff.mp filled
      obtain ⟨fitsHere, fitsBelow⟩ := everywhere_iff.mp fits
      exact extent_step f sizedHere filledHere fitsHere fun slot member =>
        ih slot member (sizedBelow slot member) (filledBelow slot member) (fitsBelow slot member)

/-- Behind the references that lead to it is an integer, an enumeration or a set. -/
theorem packs_fits (m : Field) (packs : BitfieldSpec.Packs m) :
    m.Everywhere fun p => ¬ p.Overfull := by
  induction m using slot_induction with
  | step m ih =>
      obtain ⟨profile, payload⟩ := m
      cases payload with
      | int | enum | set =>
          exact everywhere_iff.mpr ⟨id, fun slot member => absurd member List.not_mem_nil⟩
      | ref spec =>
          obtain ⟨target, bitLength⟩ := spec
          refine everywhere_iff.mpr ⟨id, fun slot member => ih slot member ?_⟩
          cases target with
          | none => exact absurd member List.not_mem_nil
          | some handle =>
              cases List.mem_singleton.mp member
              exact packs
      | _ => exact absurd packs (by simp [BitfieldSpec.Packs, dereferenced, kind, Payload.kind])

/-- A bitfield that is overfull has at most the length of a word, and no exact length is there. -/
theorem overfull_short {f : Field} (sized : f.Everywhere Payload.Sized)
    (filled : f.Everywhere Payload.Filled) (overfull : f.payload.Overfull) :
    f.minLength ≤ 8 ∧ f.maxLength ≤ 8 ∧
      ((Length.wordCount / 8 : ℕ) : ℕ∞) ≤ f.extent.least ∧
      ((Length.wordCount / 8 : ℕ) : ℕ∞) ≤ f.extent.greatest := by
  obtain ⟨profile, payload⟩ := f
  cases payload with
  | bitfield spec =>
      obtain ⟨sizedHere, sizedBelow⟩ := everywhere_iff.mp sized
      obtain ⟨⟨-, packed⟩, filledBelow⟩ := everywhere_iff.mp filled
      have each : ∀ m ∈ spec.members, m.footprint.Cuts m.extent := by
        intro m member
        have among : Slot.inline m ∈ spec.members.map Slot.inline := List.mem_map_of_mem member
        exact (m.footprint_fills (sizedBelow _ among) (filledBelow _ among)
          (m.packs_fits (packed m member))).toCuts
      have short := Footprint.packed_short each sizedHere overfull
      simpa only [minLength, maxLength, footprint, extent, footprints_eq, extents_eq] using short
  | _ => exact overfull.elim

theorem not_cut_once_of_overfull {f : Field} (sized : f.Everywhere Payload.Sized)
    (filled : f.Everywhere Payload.Filled) (overfull : f.payload.Overfull) : ¬ f.CutOnce := by
  rintro ⟨least, -⟩
  obtain ⟨short, -, long, -⟩ := overfull_short sized filled overfull
  have cut := Length.cut_mono long
  rw [Length.cut_of_le (by decide), ← least] at cut
  exact absurd (le_trans cut short) (by decide)

theorem cut_once_iff {f : Field} (sized : f.Everywhere Payload.Sized)
    (filled : f.Everywhere Payload.Filled) :
    f.Throughout CutOnce ↔ f.Everywhere fun p => ¬ p.Overfull := by
  constructor
  · intro cuts g leads overfull
    exact not_cut_once_of_overfull (fun h below => sized h (leads_trans leads below))
      (fun h below => filled h (leads_trans leads below)) overfull (cuts g leads)
  · intro fits g leads
    have cuts := g.footprint_fills (fun h below => sized h (leads_trans leads below))
      (fun h below => filled h (leads_trans leads below))
      (fun h below => fits h (leads_trans leads below))
    exact ⟨cuts.least, cuts.greatest⟩

end Field

section Reading

variable {d : Declaration}

theorem Declaration.delimits_filled {current later : Delimiter Field} {length : Option Nat}
    {lead : Option (Prefix Field)} {zero : Bool} (ends : d.Delimits current length lead zero later)
    (ofLength : d.readFixedLength = .ok length) (filled : current.fixedLength? ≠ some 0) :
    later.fixedLength? ≠ some 0 := by
  cases ends with
  | kept => exact filled
  | fixed => exact (read_positive_ok ofLength).2
  | prefixed => exact nofun
  | zeroTerminated => exact nofun

theorem ListSpec.repeats_filled {current later : Repetition Field} {count : Option Nat}
    {countPrefix lengthPrefix termSuffix : Option (Prefix Field)}
    (ends : Repeats d current count countPrefix lengthPrefix termSuffix later)
    (ofCount : readCount d = .ok count) (filled : ∀ n, current = .count n → n ≠ 0) :
    ∀ n, later = .count n → n ≠ 0 := by
  intro n isCount
  cases ends with
  | kept => exact filled n isCount
  | count =>
      cases isCount
      exact fun zero => (Declaration.read_positive_ok ofCount).2 (congrArg some zero)
  | countPrefix => cases isCount
  | lengthPrefix => cases isCount
  | termSuffix => cases isCount

/-- Only texts, data and lists can keep an end that is not declared again. -/
theorem Payload.read_filled {profile : Profile} {start : Payload Field} {f : Field}
    (reads : d.ReadsAs profile start f) (kept : start = .blank f.kind ∨ start.Filled) :
    f.payload.Filled := by
  cases reads with
  | int done =>
      obtain ⟨_, _, _, settled, -⟩ := IntSpec.read_ok done
      exact settled.sized
  | float done =>
      obtain ⟨type, _, -, settled, -⟩ := FloatSpec.read_ok done
      exact Option.isSome_iff_exists.mpr ⟨type, settled.typed⟩
  | enum done =>
      obtain ⟨_, _, settled, -⟩ := EnumSpec.read_ok done
      exact settled.sized
  | set done => exact SetSpec.read_type_length_positive (SetSpec.read_ok done).1
  | bitfield done =>
      obtain ⟨_, _, -, -, -, -, filled, -⟩ := BitfieldSpec.read_parts done
      exact ⟨(BitfieldSpec.check_bits_ok filled).1,
        fun m member => (BitfieldSpec.read_ok done m member).2⟩
  | bundle done =>
      obtain ⟨_, _, _, -, -, -, checked, -⟩ := BundleSpec.read_parts done
      exact (Declaration.check_members_ok checked).1
  | string done =>
      obtain ⟨_, _, _, ofLength, -, -, ends⟩ :=
        StringSpec.read_delimiter_ok (StringSpec.read_ok done).1
      apply Declaration.delimits_filled ends ofLength
      rcases kept with blank | filled
      · cases blank
        exact nofun
      · exact filled
  | data done =>
      obtain ⟨_, _, ofLength, -, ends⟩ := DataSpec.read_delimiter_ok (DataSpec.read_ok done).1
      apply Declaration.delimits_filled ends ofLength
      rcases kept with blank | filled
      · cases blank
        exact nofun
      · exact filled
  | list done =>
      obtain ⟨_, _, _, _, ofCount, -, -, -, ends⟩ :=
        ListSpec.read_repetition_ok (ListSpec.read_ends done)
      refine ⟨Declaration.wrapped_some (ListSpec.read_element done),
        ListSpec.repeats_filled ends ofCount ?_⟩
      rcases kept with blank | filled
      · cases blank
        exact nofun
      · exact filled.2
  | ref done =>
      obtain ⟨-, handle, target, -⟩ := RefSpec.read_ok done
      exact Option.isSome_iff_exists.mpr ⟨handle, target⟩
  | optional done => exact Declaration.wrapped_some (OptionalSpec.read_inner done)
  | variant done =>
      obtain ⟨_, _, -, -, -, checked, -⟩ := VariantSpec.read_parts done
      exact (Declaration.check_members_ok checked).1

theorem Payload.filled_law : Field.Law fun _ f => f.payload.Filled where
  grown _ filled := filled
  lifted _ filled := filled
  packed _ _ _ _ filled := filled
  made makes _ found := by
    obtain ⟨profile, -, reads⟩ := Declaration.makes_reads makes
    apply Payload.read_filled reads
    rcases Declaration.makes_source makes with ⟨-, blank⟩ | ⟨-, ref, handle, hit, copied⟩
    · exact Or.inl blank
    · rw [copied]
      exact Or.inr (found ref handle hit)

end Reading

namespace Message

noncomputable def extent (m : Message) : Extent := .sequence false (m.fields.map Field.extent)

def CutOnce (m : Message) : Prop :=
  m.minLength = Length.cut m.extent.least ∧ m.maxLength = Length.cut m.extent.greatest

theorem cut_once {m : Message} (each : ∀ f ∈ m.fields, f.footprint.Cuts f.extent) :
    m.CutOnce := by
  have cuts := Footprint.sequence_cuts each false
  constructor
  · exact (congrArg Length.sum List.map_map.symm).trans cuts.least
  · exact (congrArg Length.sum List.map_map.symm).trans cuts.greatest

end Message

def farCounter : Markup.Node :=
  ⟨"int", [("name", "A"), ("type", "uint64"), ("serOffset", "-9223372036854775808")], [], "", 1⟩

def countedBytes : Markup.Node :=
  ⟨"list", [("name", "L"), ("countPrefix", "A")],
    [⟨"int", [("name", "b"), ("type", "uint8")], [], "", 1⟩], "", 1⟩

def fullMessage : String := r#"<schema name="S">
  <message name="M" id="1">
    <list name="l" count="9223372036854775807"><int name="w" type="uint16"/></list>
    <int name="b" type="uint8"/>
  </message>
</schema>"#

def Field.fitsNear (f : Field) : Bool :=
  !f.payload.Overfull && f.slots.all fun slot =>
    slot.part.slots.isEmpty && !slot.part.payload.Overfull

theorem Field.fits_of_near {f : Field} (near : f.fitsNear = true) :
    f.Everywhere fun p => ¬ p.Overfull := by
  simp only [fitsNear, Bool.and_eq_true, Bool.not_eq_true', decide_eq_false_iff_not,
    List.all_eq_true, List.isEmpty_iff] at near
  refine everywhere_iff.mpr ⟨near.1, fun slot member => ?_⟩
  obtain ⟨last, fits⟩ := near.2 slot member
  refine everywhere_iff.mpr ⟨fits, fun further among => ?_⟩
  rw [last] at among
  exact absurd among List.not_mem_nil

def overfullSets : Markup.Node :=
  ⟨"bitfield", [("name", "B")],
    [⟨"set", [("name", "a"), ("bitLength", "18446744073709551608")], [], "", 1⟩,
      ⟨"set", [("name", "b"), ("bitLength", "16")], [], "", 1⟩], "", 1⟩

end WireSchema
