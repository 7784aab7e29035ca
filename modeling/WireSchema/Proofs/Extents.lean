import Mathlib
import WireSchema.Proofs.Lengths

/-!
Exact lengths: natural numbers, or infinity where there is no bound, by the rules of lengths in
words but with nothing cut off. Cutting an exact length off at the largest word commutes with sums,
maxima and products with a count, so that a rule in words gives the exact result cut once. Two rules
do not commute by themselves. A prefix that can count further than a word stands for no bound at
all, which is right only because no element is empty. The widths in a bitfield are added with the
carry lost, which is right only as long as there is none.
-/

namespace WireSchema

namespace Length

/-- An exact length as a word: the largest word stands for all that are not below it. -/
def cut (exact : ℕ∞) : Nat := if exact < unbounded then exact.toNat else unbounded

theorem cut_coe (n : ℕ) : cut n = min n unbounded := by
  unfold cut
  split
  · rename_i below
    rw [ENat.toNat_natCast, Nat.min_eq_left (Nat.le_of_lt (by exact_mod_cast below))]
  · rename_i above
    rw [Nat.min_eq_right (by exact_mod_cast not_lt.mp above)]

@[simp]
theorem cut_top : cut ⊤ = unbounded := if_neg not_top_lt

theorem cut_of_le {n : ℕ} (bounded : n ≤ unbounded) : cut n = n := by
  rw [cut_coe, Nat.min_eq_left bounded]

@[simp]
theorem cut_zero : cut 0 = 0 := cut_of_le (Nat.zero_le _)

theorem cut_eq_unbounded {exact : ℕ∞} (large : unbounded ≤ exact) : cut exact = unbounded :=
  if_neg (not_lt.mpr large)

theorem exact_of_cut_lt {exact : ℕ∞} (below : cut exact < unbounded) : exact = cut exact := by
  unfold cut at below ⊢
  split at below
  · rename_i finite
    rw [if_pos finite, ENat.natCast_toNat (ne_top_of_lt finite)]
  · omega

theorem cut_mono : Monotone cut := by
  intro a b below
  by_cases large : unbounded ≤ b
  · rw [cut_eq_unbounded large]
    unfold cut
    split
    · rename_i small
      exact ENat.toNat_le_of_le_natCast small.le
    · exact le_refl _
  · have small := not_le.mp large
    rw [cut, cut, if_pos small, if_pos (below.trans_lt small)]
    exact ENat.toNat_le_toNat below (ne_top_of_lt small)

theorem cut_add (a b : ℕ∞) : cut (a + b) = add (cut a) (cut b) := by
  induction a using ENat.recTopCoe with
  | top => simp [add]
  | coe a =>
      induction b using ENat.recTopCoe with
      | top => simp [add]
      | coe b =>
          rw [← Nat.cast_add]
          simp only [cut_coe, add]
          omega

theorem cut_mul (a : ℕ∞) (n : ℕ) : cut (a * n) = mul (cut a) n := by
  cases n with
  | zero => simp [mul]
  | succ n =>
      have grows : unbounded ≤ unbounded * (n + 1) := Nat.le_mul_of_pos_right _ n.succ_pos
      induction a using ENat.recTopCoe with
      | top =>
          rw [ENat.top_mul (by simp), cut_top, mul, Nat.min_eq_right grows]
      | coe a =>
          rw [← Nat.cast_mul, cut_coe, cut_coe, mul, ← Nat.mul_min_mul_right]
          omega

theorem cut_sum (exact : List ℕ∞) : cut exact.sum = sum (exact.map cut) := by
  have started : ∀ start, cut (start + exact.sum) = (exact.map cut).foldl add (cut start) := by
    induction exact with
    | nil => simp
    | cons a rest ih =>
        intro start
        rw [List.sum_cons, ← add_assoc, ih, cut_add]
        rfl
  rw [← zero_add exact.sum, started, cut_zero, sum]

theorem cut_greatest (exact : List ℕ∞) :
    cut (exact.foldl max 0) = (exact.map cut).foldl max 0 := by
  have started : ∀ start, cut (exact.foldl max start) = (exact.map cut).foldl max (cut start) := by
    induction exact with
    | nil => simp
    | cons a rest ih =>
        intro start
        rw [List.foldl_cons, ih, cut_mono.map_max]
        rfl
  rw [started, cut_zero]

theorem le_greatest {exact : List ℕ∞} {a : ℕ∞} (member : a ∈ exact) : a ≤ exact.foldl max 0 := by
  rw [List.foldl_eq_foldr]
  exact List.le_max_of_le' 0 member (le_refl a)

theorem sum_words (widths : List ℕ) : sumWords widths = widths.sum % wordCount := by
  have started : ∀ start,
      widths.foldl addWords (start % wordCount) = (start + widths.sum) % wordCount := by
    induction widths with
    | nil => simp
    | cons width rest ih =>
        intro start
        rw [List.foldl_cons, addWords, Nat.mod_add_mod, ih, List.sum_cons, add_assoc]
  rw [← zero_add widths.sum, ← started]
  rfl

/-- A width in words is at most the exact one, and less only where it is the largest word. -/
structure Truncates (bits : ℕ) (exact : ℕ∞) : Prop where
  below : (bits : ℕ∞) ≤ exact
  same : bits < unbounded → exact = bits

theorem Truncates.refl (bits : ℕ) : Truncates bits bits := ⟨le_refl _, fun _ => rfl⟩

end Length

structure Extent where
  least : ℕ∞
  greatest : ℕ∞
  bits : ℕ∞

namespace Extent

def ofLengths (least greatest declaredBits : ℕ∞) : Extent :=
  ⟨least, greatest, if declaredBits ≠ 0 then declaredBits else greatest * 8⟩

def nothing : Extent := ofLengths 0 0 0

def wholeBytes (bits : ℕ∞) : ℕ∞ := if bits = ⊤ then ⊤ else (bits.toNat / 8 : ℕ)

def packed (members : List Extent) : Extent :=
  let bits := (members.map Extent.bits).sum
  ofLengths (wholeBytes bits) (wholeBytes bits) bits

def sequence (carriesLength : Bool) (members : List Extent) : Extent :=
  ofLengths (members.map Extent.least).sum
    (if carriesLength then ⊤ else (members.map Extent.greatest).sum) 0

noncomputable def choice (members : List Extent) : Extent :=
  ofLengths 0 ((members.map Extent.greatest).foldl max 0) 0

def prefixed (lead : Extent) (announced : ℕ∞) : Extent :=
  ofLengths lead.least (lead.greatest + announced) 0

def repeated (fixedLength : Bool) (n element lead : ℕ∞) : ℕ∞ :=
  element * n + if fixedLength then lead else lead * n

def counted (fixedLength : Bool) (lead : Extent) (announced : ℕ∞) (element elementLead : Extent) :
    Extent :=
  let elements := repeated fixedLength announced element.greatest elementLead.greatest
  ofLengths lead.least (lead.greatest + elements) 0

end Extent

def Prefix.announced (lead : Prefix Field) : ℕ∞ :=
  match lead.part?.bind Field.integer? with
  | some spec => spec.greatest.toNat
  | none => ⊤

namespace Field

noncomputable section

mutual
def extent : Field → Extent
  | ⟨_, .int spec⟩ =>
      .ofLengths spec.storage.leastLength spec.storage.length spec.storage.bitLength
  | ⟨_, .float spec⟩ =>
      let length := (spec.type.map FloatType.length).getD 0
      .ofLengths length length 0
  | ⟨_, .enum spec⟩ =>
      .ofLengths spec.storage.leastLength spec.storage.length spec.storage.bitLength
  | ⟨_, .set spec⟩ => .ofLengths spec.storage.length spec.storage.length spec.storage.bitLength
  | ⟨_, .bitfield ⟨_, members, _⟩⟩ => .packed (extents members)
  | ⟨_, .bundle ⟨members, _, _⟩⟩ =>
      .sequence (members.any fun m => m.semanticType == .length) (extents members)
  | ⟨_, .string ⟨_, _, delimiter, _⟩⟩ => delimiterExtent delimiter
  | ⟨_, .data ⟨_, delimiter, _⟩⟩ => delimiterExtent delimiter
  | ⟨_, .list ⟨element, repetition, elementPrefix, fixedLength⟩⟩ =>
      repetitionExtent fixedLength (optionalSlotExtent element)
        (optionalPrefixExtent elementPrefix) repetition
  | ⟨_, .ref ⟨target, bitLength⟩⟩ =>
      let room := optionalHandleExtent target
      .ofLengths room.least room.greatest (if bitLength ≠ 0 then bitLength else room.bits)
  | ⟨_, .optional ⟨inner, _, _, _, _⟩⟩ =>
      .ofLengths 0 (optionalSlotExtent inner).greatest 0
  | ⟨_, .variant ⟨members, _⟩⟩ => .choice (extents members)

def extents : List Field → List Extent
  | [] => []
  | f :: rest => extent f :: extents rest

def delimiterExtent : Delimiter Field → Extent
  | .unbounded => .ofLengths 0 ⊤ 0
  | .fixed length => .ofLengths length length 0
  | .prefixed lead => .prefixed (prefixExtent lead) lead.announced
  | .zeroTerminated => .ofLengths 1 ⊤ 0

def repetitionExtent (fixedLength : Bool) (element elementLead : Extent) :
    Repetition Field → Extent
  | .unbounded => .ofLengths 0 ⊤ 0
  | .count n =>
      .ofLengths (Extent.repeated fixedLength n element.least elementLead.least)
        (Extent.repeated fixedLength n element.greatest elementLead.greatest) 0
  | .countPrefix lead =>
      .counted fixedLength (prefixExtent lead) lead.announced element elementLead
  | .lengthPrefix lead => .prefixed (prefixExtent lead) lead.announced
  | .termSuffix tail => .ofLengths (prefixExtent tail).least ⊤ 0

def prefixExtent : Prefix Field → Extent
  | .part (.inline f) => extent f
  | .part (.external ⟨_, _, f⟩) => extent f
  | .detached _ => .nothing

def optionalPrefixExtent : Option (Prefix Field) → Extent
  | some lead => prefixExtent lead
  | none => .nothing

def optionalSlotExtent : Option (Slot Field) → Extent
  | some (.inline f) => extent f
  | some (.external ⟨_, _, f⟩) => extent f
  | none => .nothing

def optionalHandleExtent : Option (Handle Field) → Extent
  | some ⟨_, _, f⟩ => extent f
  | none => .nothing
end

end

end Field

namespace Footprint

structure Cuts (room : Footprint) (extent : Extent) : Prop where
  least : room.least = Length.cut extent.least
  greatest : room.greatest = Length.cut extent.greatest
  bits : Length.Truncates room.bits extent.bits

theorem cut_truncates (exact : ℕ∞) : Length.Truncates (Length.cut exact) exact := by
  refine ⟨?_, Length.exact_of_cut_lt⟩
  unfold Length.cut
  split
  · exact ENat.natCast_toNat_le_self exact
  · rename_i large
    exact not_lt.mp large

theorem of_lengths_cuts {least greatest declared : Nat} {least' greatest' declared' : ℕ∞}
    (atLeast : least = Length.cut least') (atMost : greatest = Length.cut greatest')
    (width : Length.Truncates declared declared') :
    (ofLengths least greatest declared).Cuts (.ofLengths least' greatest' declared') := by
  refine ⟨atLeast, atMost, ?_⟩
  simp only [ofLengths, Extent.ofLengths]
  -- Without a declared width the bits are those of the greatest length, which may be cut off.
  by_cases wide : declared = 0
  · subst wide
    rw [width.same (by decide)]
    simp only [ne_eq, not_true_eq_false, if_false, Nat.cast_zero, atMost]
    have eight : (8 : ℕ∞) = ((8 : ℕ) : ℕ∞) := rfl
    rw [eight, ← Length.cut_mul]
    exact cut_truncates _
  · have wide' : declared' ≠ 0 := by
      rintro rfl
      exact wide (Nat.cast_eq_zero.mp (nonpos_iff_eq_zero.mp width.below))
    rwa [if_pos wide, if_pos wide']

theorem nothing_cuts : nothing.Cuts .nothing :=
  of_lengths_cuts Length.cut_zero.symm Length.cut_zero.symm (.refl 0)

section Members

variable {members : List Field} (each : ∀ m ∈ members, m.footprint.Cuts m.extent)

include each

theorem members_least :
    (members.map Field.footprint).map Footprint.least =
      ((members.map Field.extent).map Extent.least).map Length.cut := by
  simp only [List.map_map]
  exact List.map_congr_left fun m member => (each m member).least

theorem members_greatest :
    (members.map Field.footprint).map Footprint.greatest =
      ((members.map Field.extent).map Extent.greatest).map Length.cut := by
  simp only [List.map_map]
  exact List.map_congr_left fun m member => (each m member).greatest

theorem sequence_cuts (carriesLength : Bool) :
    (sequence carriesLength (members.map Field.footprint)).Cuts
      (.sequence carriesLength (members.map Field.extent)) := by
  apply of_lengths_cuts
  · rw [members_least each, Length.cut_sum]
  · rw [members_greatest each]
    split
    · exact Length.cut_top.symm
    · exact (Length.cut_sum _).symm
  · exact .refl _

theorem choice_cuts :
    (choice (members.map Field.footprint)).Cuts (.choice (members.map Field.extent)) := by
  apply of_lengths_cuts
  · exact Length.cut_zero.symm
  · rw [members_greatest each, Length.cut_greatest]
  · exact .refl _

theorem members_bits_below :
    ((members.map Field.bitLength).sum : ℕ∞) ≤
      ((members.map Field.extent).map Extent.bits).sum := by
  rw [Nat.cast_list_sum, List.map_map, List.map_map]
  exact List.sum_le_sum fun m member => (each m member).bits.below

theorem members_bits (few : (members.map Field.bitLength).sum < Length.unbounded) :
    ((members.map Field.extent).map Extent.bits).sum = ((members.map Field.bitLength).sum : ℕ) := by
  rw [Nat.cast_list_sum, List.map_map, List.map_map]
  congr 1
  apply List.map_congr_left
  intro m member
  -- The bits of a member are exact because they are no more than all of them together.
  refine (each m member).bits.same (lt_of_le_of_lt ?_ few)
  exact List.le_sum_of_mem (List.mem_map_of_mem member)

end Members

structure Fills (room : Footprint) (extent : Extent) : Prop extends room.Cuts extent where
  positive : extent.greatest ≠ 0

section Packed

variable {members : List Field} (each : ∀ m ∈ members, m.footprint.Cuts m.extent)
  (greatest : Length.sumWords (members.map Field.bitLength) ≤ BitfieldSpec.maxBits)

include each greatest

theorem packed_fills (least : 8 ≤ Length.sumWords (members.map Field.bitLength))
    (fits : (members.map Field.bitLength).sum < Length.wordCount) :
    (packed (members.map Field.footprint)).Fills (.packed (members.map Field.extent)) := by
  have total : Length.sumWords (members.map Field.bitLength) =
      (members.map Field.bitLength).sum := by
    rw [Length.sum_words, Nat.mod_eq_of_lt fits]
  have same : ((members.map Field.footprint).map Footprint.bits) = members.map Field.bitLength :=
    List.map_map
  have few : (members.map Field.bitLength).sum < Length.unbounded :=
    total ▸ lt_of_le_of_lt greatest (by decide)
  have exact := members_bits each few
  rw [total] at least
  simp only [packed, Extent.packed, same, total, exact]
  generalize (members.map Field.bitLength).sum = bits at least few
  have bytes : Extent.wholeBytes bits = (bits / 8 : ℕ) := by
    simp [Extent.wholeBytes]
  have bounded : bits / 8 ≤ Length.unbounded := by omega
  rw [bytes]
  constructor
  · have word := (Length.cut_of_le bounded).symm
    exact of_lengths_cuts word word (.refl bits)
  · simp only [Extent.ofLengths]
    exact_mod_cast (by omega : bits / 8 ≠ 0)

/-- Once the carry is lost, so is nearly all of the length. -/
theorem packed_short (overfull : Length.wordCount ≤ (members.map Field.bitLength).sum) :
    (packed (members.map Field.footprint)).least ≤ 8 ∧
      (packed (members.map Field.footprint)).greatest ≤ 8 ∧
      ((Length.wordCount / 8 : ℕ) : ℕ∞) ≤ (Extent.packed (members.map Field.extent)).least ∧
      ((Length.wordCount / 8 : ℕ) : ℕ∞) ≤ (Extent.packed (members.map Field.extent)).greatest := by
  have same : ((members.map Field.footprint).map Footprint.bits) = members.map Field.bitLength :=
    List.map_map
  have short : Length.sumWords (members.map Field.bitLength) / 8 ≤ 8 :=
    Nat.div_le_of_le_mul greatest
  have long : ((Length.wordCount / 8 : ℕ) : ℕ∞) ≤
      Extent.wholeBytes ((members.map Field.extent).map Extent.bits).sum := by
    have below := members_bits_below each
    generalize ((members.map Field.extent).map Extent.bits).sum = bits at below
    induction bits using ENat.recTopCoe with
    | top => exact le_top
    | coe bits =>
        have enough : Length.wordCount ≤ bits := le_trans overfull (by exact_mod_cast below)
        simp only [Extent.wholeBytes, ENat.natCast_ne_top, if_false, ENat.toNat_natCast]
        exact_mod_cast Nat.div_le_div_right enough
  simp only [packed, Extent.packed, ofLengths, Extent.ofLengths, same]
  exact ⟨short, short, long, long⟩

end Packed

theorem sequence_fills (carriesLength : Bool) {members : List Field}
    (each : ∀ m ∈ members, m.footprint.Fills m.extent) (nonempty : members ≠ []) :
    (sequence carriesLength (members.map Field.footprint)).Fills
      (.sequence carriesLength (members.map Field.extent)) := by
  refine ⟨sequence_cuts (fun m member => (each m member).toCuts) carriesLength, ?_⟩
  obtain ⟨m, member⟩ := List.exists_mem_of_ne_nil members nonempty
  simp only [Extent.sequence, Extent.ofLengths]
  split
  · exact ENat.top_ne_zero
  · apply ne_bot_of_le_ne_bot (each m member).positive
    apply List.le_sum_of_mem
    exact List.mem_map_of_mem (List.mem_map_of_mem member)

theorem choice_fills {members : List Field}
    (each : ∀ m ∈ members, m.footprint.Fills m.extent) (nonempty : members ≠ []) :
    (choice (members.map Field.footprint)).Fills (.choice (members.map Field.extent)) := by
  refine ⟨choice_cuts (fun m member => (each m member).toCuts), ?_⟩
  obtain ⟨m, member⟩ := List.exists_mem_of_ne_nil members nonempty
  simp only [Extent.choice, Extent.ofLengths]
  apply ne_bot_of_le_ne_bot (each m member).positive
  exact Length.le_greatest (List.mem_map_of_mem (List.mem_map_of_mem member))

end Footprint

namespace Prefix

theorem announced_cases (lead : Prefix Field) :
    (∃ n, lead.announces? = some n ∧ lead.announced = n ∧ n ≤ Length.unbounded) ∨
      lead.announces? = none ∧ Length.unbounded ≤ lead.announced := by
  simp only [announces?, announced]
  cases lead.part?.bind Field.integer? with
  | none => exact Or.inr ⟨rfl, le_top⟩
  | some spec =>
      by_cases fits : spec.greatest.toNat ≤ Literal.greatestUnsigned
      · exact Or.inl ⟨_, if_pos fits, rfl, fits⟩
      · have large : Length.unbounded ≤ spec.greatest.toNat := Nat.le_of_lt (Nat.lt_of_not_le fits)
        exact Or.inr ⟨if_neg fits, Nat.cast_le.mpr large⟩

end Prefix

namespace Footprint

theorem prefixed_cuts {room : Footprint} {extent : Extent} (ahead : Prefix Field)
    (led : room.Cuts extent) :
    (prefixed room ahead.announces?).Cuts (.prefixed extent ahead.announced) := by
  apply of_lengths_cuts led.least
  · rw [Length.cut_add, ← led.greatest]
    rcases ahead.announced_cases with ⟨n, announces, announced, bounded⟩ | ⟨announces, large⟩
    · rw [announces, announced, Length.cut_of_le bounded]
    · rw [announces, Length.cut_eq_unbounded large]
      unfold Length.add
      simp
  · exact .refl _

theorem repeated_cuts (fixedLength : Bool) (n : ℕ) (element lead : ℕ∞) :
    repeated fixedLength n (Length.cut element) (Length.cut lead) =
      Length.cut (Extent.repeated fixedLength n element lead) := by
  unfold repeated Extent.repeated
  rw [Length.cut_add, Length.cut_mul]
  cases fixedLength with
  | true => rfl
  | false => simp only [Bool.false_eq_true, if_false, Length.cut_mul]

theorem counted_cuts (fixedLength : Bool) {room element lead : Footprint}
    {extent element' lead' : Extent} (ahead : Prefix Field) (led : room.Cuts extent)
    (ofElement : element.Fills element') (ofLead : lead.Cuts lead') :
    (counted fixedLength room ahead.announces? element lead).Cuts
      (.counted fixedLength extent ahead.announced element' lead') := by
  apply of_lengths_cuts led.least
  · rcases ahead.announced_cases with ⟨n, announces, announced, -⟩ | ⟨announces, large⟩
    · rw [announces, announced, Length.cut_add, ← repeated_cuts, ← ofElement.greatest,
        ← led.greatest, ← ofLead.greatest]
      unfold repeated
      simp only [Length.add]
      omega
    · -- The greatest count is beyond every word, so elements of one byte are enough.
      rw [announces]
      refine (Length.cut_eq_unbounded ?_).symm
      have one : 1 ≤ element'.greatest := Order.one_le_iff_ne_zero.mpr ofElement.positive
      calc (Length.unbounded : ℕ∞) ≤ ahead.announced := large
        _ ≤ element'.greatest * ahead.announced := le_mul_of_one_le_left zero_le one
        _ ≤ Extent.repeated fixedLength ahead.announced element'.greatest lead'.greatest :=
            le_self_add
        _ ≤ _ := le_add_self
  · exact .refl _

end Footprint

end WireSchema
