import WireSchema.Proofs.Bounds
import WireSchema.Proofs.StorageKept

/-!
Whether the bits of a set fit its storage. A declared length is checked against a type that is
declared with it, and a declared bit against the storage and the bits before it. What came with a
reused set is not checked again when the copy gets another length, a smaller number of bits or no
longer lets bits share an index, and these are the only ways to a set that does not fit.
-/

namespace WireSchema

theorem Declaration.read_int_type_allowed {d : Declaration} {current : Option IntType}
    {allowed : IntType → Bool} {type : IntType} (given : d.has "type" = true)
    (read : d.readIntType current allowed = .ok type) : allowed type = true := by
  simp only [readIntType, except_bind_ok] at read
  obtain ⟨declared, ofDeclared, rest⟩ := read
  cases declared with
  | none =>
      rw [prop_given ofDeclared] at given
      cases given
  | some raw =>
      simp only [except_bind_ok] at rest
      obtain ⟨own, accepted, rest⟩ := rest
      have isAllowed := (Option.filter_eq_some_iff.mp (accept_ok accepted)).2
      split at rest
      · split at rest
        · cases rest
        · cases rest
          exact isAllowed
      · cases rest
        exact isAllowed

theorem Declaration.read_bit_length_given {d : Declaration} {length current bits declared : Nat}
    (inside : d.parent.isBitfield = true) (given : d.natProp "bitLength" = .ok (some declared))
    (done : (d.readBitLength false length current).outcome = .ok bits) : bits = declared := by
  simp only [readBitLength, inside, Bool.not_true, Bool.false_eq_true, if_false, Build.bind_ok,
    Build.lift_outcome, given, Except.ok.injEq, exists_eq_left'] at done
  split at done
  · cases done
  · split at done
    · cases done
    · cases done
      rfl

theorem IntType.max_length_fixed {type : IntType}
    (isFixed : (type.isUnsigned && !type.isVariable) = true) : type.maxLength ≤ 8 := by
  cases type <;> first
    | decide
    | cases isFixed

namespace SetSpec

variable {d : Declaration} {s : Storage} {type : Option IntType} {length : Nat}

/-- No length is above eight bytes unless it was, or is that of more than 64 bits. -/
theorem sizes_short (sizes : Sizes d s type length) (kept : length = s.length → s.length ≤ 8)
    (few : ∀ bits, d.parent.isBitfield = true → d.natProp "bitLength" = .ok (some bits) →
      bits ≤ 64) : length ≤ 8 := by
  cases sizes with
  | typed given ofType ofLength =>
      have short := IntType.max_length_fixed (Declaration.read_int_type_allowed given ofType)
      rcases Declaration.read_length_cases ofLength with ⟨-, -, fits⟩ | ⟨-, same, filled⟩ | rfl
      · omega
      · split at same
        · exact same ▸ kept same
        · rename_i other
          exact absurd (if_neg other) filled
      · exact short
  | declared _ fits => exact fits.2
  | kept => exact kept rfl
  | counted _ inside given =>
      have := few _ inside given
      omega

/-- A length is not above that of a type unless the start had the type. -/
theorem sizes_within {own : IntType} (sizes : Sizes d s type length) (isType : type = some own)
    (kept : s.type = some own → length ≤ own.maxLength) : length ≤ own.maxLength := by
  cases sizes with
  | typed _ _ ofLength =>
      cases isType
      rcases Declaration.read_length_cases ofLength with ⟨-, -, fits⟩ | ⟨-, -, filled⟩ | rfl
      · exact fits
      · by_cases same : s.type = some own
        · exact kept same
        · exact absurd (if_neg same) filled
      · exact Nat.le_refl _
  | declared | kept | counted => exact kept isType

/-- The length is one of words and of the type, if there is one; the indices of the bits are below the
number of bits, and differ unless bits may share one. -/
structure Fits (spec : SetSpec) : Prop where
  length : 1 ≤ spec.storage.length ∧ spec.storage.length ≤ 8
  typed : ∀ type ∈ spec.storage.type, spec.storage.length ≤ type.maxLength
  bits : ∀ b ∈ spec.bits, if spec.storage.bitLength = 0 then b.index < 8 * spec.storage.length
    else b.index < spec.storage.bitLength
  distinct : spec.nonUnique = false → (spec.bits.map SetBit.index).Nodup

instance (spec : SetSpec) : Decidable spec.Fits :=
  decidable_of_decidable_of_iff (p := (_ ∧ _) ∧ (∀ type ∈ spec.storage.type, _) ∧
      (∀ b ∈ spec.bits, _) ∧ (_ → (spec.bits.map SetBit.index).Nodup))
    ⟨fun ⟨length, typed, bits, distinct⟩ => ⟨length, typed, bits, distinct⟩,
      fun fits => ⟨fits.length, fits.typed, fits.bits, fits.distinct⟩⟩

theorem lt_capacity_iff {spec : SetSpec} {index : Nat} :
    index < spec.capacity ↔ if spec.storage.bitLength = 0 then index < 8 * spec.storage.length
      else index < spec.storage.bitLength := by
  by_cases none : spec.storage.bitLength = 0 <;> simp [capacity, none, Nat.mul_comm]

theorem fits_iff {profile : Profile} {start spec : SetSpec}
    (done : (read d profile start).outcome = .ok spec)
    (fresh : d.reused = false → start.storage.type = none) (few : spec.storage.bitLength ≤ 64) :
    spec.Fits ↔
      (spec.storage.length = start.storage.length → start.storage.length ≤ 8) ∧
      (∀ type ∈ start.storage.type, spec.storage.length ≤ type.maxLength) ∧
      (∀ b ∈ start.bits, b.index < spec.capacity) ∧
      (spec.nonUnique = false → (start.bits.map SetBit.index).Nodup) := by
  obtain ⟨ofLength, ofBits, base, read, sameBits⟩ := read_ok done
  have sizes := read_type_length_sizes ofLength
  have fewDeclared : ∀ bits, d.parent.isBitfield = true →
      d.natProp "bitLength" = .ok (some bits) → bits ≤ 64 :=
    fun bits inside given => Declaration.read_bit_length_given inside given ofBits ▸ few
  obtain ⟨own, rfl, room, distinct⟩ := read_bits_ok read
  rw [← sameBits]
  constructor
  · intro fits
    refine ⟨fun same => same ▸ fits.length.2, fun type typed => fits.typed type ?_,
      fun b member => lt_capacity_iff.mpr (fits.bits b (List.mem_append_left own member)),
      fun unique => ?_⟩
    · cases reused : d.reused with
      | false =>
          rw [fresh reused] at typed
          cases typed
      | true => exact (read_type_kept ofLength typed reused).trans typed
    · have all := fits.distinct unique
      rw [List.map_append, List.nodup_append] at all
      exact all.1
  · rintro ⟨short, typed, hasRoom, wereDistinct⟩
    refine ⟨⟨Nat.one_le_iff_ne_zero.mpr (read_type_length_positive ofLength),
        sizes_short sizes short fewDeclared⟩,
      fun type isType => sizes_within sizes isType (typed type), fun b member => ?_,
      fun unique => distinct unique (wereDistinct unique)⟩
    rw [← lt_capacity_iff]
    rcases List.mem_append.mp member with old | new
    · exact hasRoom b old
    · exact room b new

end SetSpec

def Payload.ShortSet (payload : Payload Field) : Prop :=
  ∀ spec, payload = .set spec → spec.storage.length ≤ 8

theorem Environment.start_short {env : Environment} {f : Field}
    (found : ∀ ref handle, env.find? ref = some handle → handle.target.payload.ShortSet) :
    (env.startOf f).ShortSet := by
  refine Environment.start_of_holds (fun spec isSet => ?_) found
  cases kind : f.kind <;> rw [kind] at isSet <;> cases isSet
  exact Nat.zero_le 8

/-- Registered sets are short, since they stand in no bitfield. -/
theorem Registry.short_sets_law :
    Registry.Law Parent.IsNamespace fun _ f => f.payload.ShortSet where
  grown _ short := short
  built := by
    rintro env tag node parent f rfl found built spec isSet
    obtain ⟨d, profile, ofParent, reads⟩ := Field.create_over built
    have short := Environment.start_short (f := f) found
    generalize env.startOf f = start at reads short
    cases reads with
    | set done =>
        cases isSet
        have sizes := SetSpec.read_type_length_sizes (SetSpec.read_ok done).1
        refine SetSpec.sizes_short sizes (fun _ => short _ rfl) fun bits inside => ?_
        rw [ofParent] at inside
        cases inside
    | _ => nomatch isSet

namespace Field

/-- A set that was built, of at most 64 bits, fits its storage exactly if what it has from the reused
set does: the length, where it is kept, is one of words, the length is one of the type that it was given
there, and the bits of the reused set have room and differ unless bits may share an index. A set that
reuses none fits, and registered sets have lengths of words. -/
theorem set_bits_fit_iff {env : Environment} {tag : String} {node : Markup.Node} {parent : Parent}
    {f : Field} {spec : SetSpec} (built : (create env tag node parent).outcome = .ok f)
    (isSet : f.payload = .set spec) (few : spec.storage.bitLength ≤ 64) :
    ∃ start, env.startOf f = .set start ∧
      (spec.Fits ↔
        (spec.storage.length = start.storage.length → start.storage.length ≤ 8) ∧
        (∀ type ∈ start.storage.type, spec.storage.length ≤ type.maxLength) ∧
        (∀ b ∈ start.bits, b.index < spec.capacity) ∧
        (spec.nonUnique = false → (start.bits.map SetBit.index).Nodup)) ∧
      (f.profile.reusedFrom = none → spec.Fits) ∧
      (env.registry.GrownIn Parent.IsNamespace → start.storage.length ≤ 8) := by
  obtain ⟨d, profile, -, reads, blank⟩ := create_from_start built
  generalize isStart : env.startOf f = payload at reads blank
  cases reads with
  | @set start spec done =>
      cases isSet
      have untyped : d.reused = false → start.storage.type = none := by
        intro fresh
        cases blank fresh
        rfl
      have exactly := SetSpec.fits_iff done untyped few
      refine ⟨start, rfl, exactly, fun fresh => exactly.mpr ?_, fun grown => ?_⟩
      · cases isStart.symm.trans (Environment.start_of_fresh fresh)
        exact ⟨fun _ => Nat.zero_le 8, fun _ typed => absurd typed (Option.not_mem_none _),
          fun b member => absurd member List.not_mem_nil, fun _ => List.nodup_nil⟩
      · exact Environment.start_short
          (fun ref handle hit => Registry.law_of_find Registry.short_sets_law grown hit) start isStart
  | _ => cases isSet

def setElement (name : String) (attributes : List (String × String))
    (bits : List (String × String)) : Markup.Node :=
  ⟨"set", ("name", name) :: attributes,
    bits.map fun bit => ⟨"bit", [("name", bit.1), ("idx", bit.2)], [], "", 1⟩, "", 1⟩

def wideSet : Markup.Node := setElement "A" [("type", "uint16")] [("b", "3")]

def narrowSet : Markup.Node := setElement "B" [("reuse", "A"), ("length", "1")] [("c", "7")]

theorem narrow_set_fits :
    ∃ f spec, (create (schemaOf [wideSet]) "set" narrowSet ⟨.ns, Window.always⟩).outcome = .ok f ∧
      f.payload = .set spec ∧ spec.storage.length = 1 ∧ spec.bits.length = 2 ∧ spec.Fits := by
  obtain ⟨f, built, found⟩ := except_any (show
    ((create (schemaOf [wideSet]) "set" narrowSet ⟨.ns, Window.always⟩).outcome.toOption.any fun f =>
      f.payload.set?.any fun ⟨spec, _⟩ => ((schemaOf [wideSet]).startOf f).set?.any fun ⟨start, _⟩ =>
        decide (spec.storage.bitLength ≤ 64 ∧ spec.storage.length = 1 ∧ spec.bits.length = 2 ∧
          (∀ type ∈ start.storage.type, spec.storage.length ≤ type.maxLength) ∧
          (∀ b ∈ start.bits, b.index < spec.capacity) ∧
          (start.bits.map SetBit.index).Nodup)) = true by decide +kernel)
  simp only [Option.any_eq_true, Subtype.exists, decide_eq_true_eq] at found
  obtain ⟨spec, isSet, -, start, isStart, -, few, one, two, typed, room, distinct⟩ := found
  obtain ⟨start', sameStart, exactly, -, short⟩ := set_bits_fit_iff built isSet few
  cases isStart.symm.trans sameStart
  have grown := registry_of_grown [wideSet]
  exact ⟨f, spec, built, isSet, one, two,
    exactly.mpr ⟨fun _ => short grown, typed, room, fun _ => distinct⟩⟩

def reusedSets : List Markup.Node :=
  [setElement "A" [("length", "2")] [("b", "15")],
    setElement "B" [("reuse", "A"), ("length", "1")] [],
    setElement "C" [("type", "uint8")] [("b", "0")],
    setElement "D" [("reuse", "C"), ("length", "8")] [],
    setElement "E" [("length", "1"), ("nonUniqueAllowed", "true")] [("b", "0"), ("c", "0")],
    setElement "F" [("reuse", "E"), ("nonUniqueAllowed", "false")] []]

def exceedStorage : List Field → Bool
  | [_, ⟨_, .set short⟩, _, ⟨_, .set long⟩, _, ⟨_, .set clashing⟩] =>
      decide ((short.storage.length = 1 ∧ short.bits.map SetBit.index = [15] ∧ ¬short.Fits) ∧
        (long.storage.type = some .uint8 ∧ long.storage.length = 8 ∧ ¬long.Fits) ∧
        clashing.nonUnique = false ∧ clashing.bits.map SetBit.index = [0, 0] ∧ ¬clashing.Fits)
  | _ => false

theorem reused_sets_exceed_storage :
    ∃ first third fifth profile profile' profile'' short long clashing,
      (registryOf reusedSets).entries.map Entry.field =
        [first, ⟨profile, .set short⟩, third, ⟨profile', .set long⟩, fifth,
          ⟨profile'', .set clashing⟩] ∧
      (short.storage.length = 1 ∧ short.bits.map SetBit.index = [15] ∧ ¬short.Fits) ∧
      (long.storage.type = some .uint8 ∧ long.storage.length = 8 ∧ ¬long.Fits) ∧
      clashing.nonUnique = false ∧ clashing.bits.map SetBit.index = [0, 0] ∧ ¬clashing.Fits := by
  have found : exceedStorage ((registryOf reusedSets).entries.map Entry.field) = true := by
    decide +kernel
  unfold exceedStorage at found
  split at found
  · rename_i same
    exact ⟨_, _, _, _, _, _, _, _, _, same, of_decide_eq_true found⟩
  · cases found

end Field

end WireSchema
