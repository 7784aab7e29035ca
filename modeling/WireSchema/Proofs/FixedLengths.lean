import WireSchema.Proofs.Bounds
import WireSchema.Proofs.StorageKept

/-!
Whether the values of a text or of data fit its fixed length. A value is checked where it is
declared, against the length that the field has by then, whether it is written there or taken from
another field. Values that came with a reused field are not checked again, and only they can be too
long, where the copy is shorter.
-/

namespace WireSchema

structure Contents where
  fixed : Option Nat
  default : Nat
  valid : List Nat
  deriving DecidableEq

namespace Contents

def of {α : Type} (size : α → Nat) (delimiter : Delimiter Field) (value : α)
    (values : List (Versioned α)) : Contents :=
  ⟨delimiter.fixedLength?, size value, values.map fun v => size v.value⟩

def Takes (contents : Contents) (size : Nat) : Prop := ∀ n ∈ contents.fixed, size ≤ n

def Fits (contents : Contents) : Prop :=
  contents.Takes contents.default ∧ ∀ size ∈ contents.valid, contents.Takes size

instance (contents : Contents) (size : Nat) : Decidable (contents.Takes size) :=
  inferInstanceAs (Decidable (∀ n ∈ contents.fixed, size ≤ n))

instance (contents : Contents) : Decidable contents.Fits := inferInstanceAs (Decidable (_ ∧ _))

/-- All that does not fit was there at the start. -/
structure ReadOver (start contents : Contents) : Prop where
  default : contents.default = start.default ∨ contents.Takes contents.default
  kept : ∀ size ∈ start.valid, size ∈ contents.valid
  own : ∀ size ∈ contents.valid, size ∈ start.valid ∨ contents.Takes size

variable {start contents : Contents}

theorem fits_iff (readOver : start.ReadOver contents) :
    contents.Fits ↔
      (contents.default = start.default → contents.Takes start.default) ∧
      ∀ size ∈ start.valid, contents.Takes size := by
  constructor
  · rintro ⟨default, valid⟩
    exact ⟨fun same => same ▸ default, fun size member => valid size (readOver.kept size member)⟩
  · rintro ⟨default, valid⟩
    constructor
    · rcases readOver.default with same | fits
      · rw [same]
        exact default same
      · exact fits
    · intro size member
      exact (readOver.own size member).elim (valid size) id

/-- Where the length does not get shorter, what fitted still fits. -/
theorem fits_of_longer (readOver : start.ReadOver contents) (fitted : start.Fits)
    (longer : ∀ n ∈ contents.fixed, ∃ m ∈ start.fixed, m ≤ n) : contents.Fits := by
  have takes {size : Nat} (took : start.Takes size) : contents.Takes size := by
    intro n isFixed
    obtain ⟨m, wasFixed, shorter⟩ := longer n isFixed
    exact Nat.le_trans (took m wasFixed) shorter
  exact (fits_iff readOver).mpr
    ⟨fun _ => takes fitted.1, fun size member => takes (fitted.2 size member)⟩

end Contents

theorem Delimiter.mem_fixed_length {delimiter : Delimiter Field} {n : Nat} :
    n ∈ delimiter.fixedLength? ↔ delimiter = .fixed n := by
  cases delimiter <;> simp [fixedLength?]

def Payload.contents? : Payload Field → Option Contents
  | .string spec => some (.of String.utf8ByteSize spec.delimiter spec.defaultValue spec.validValues)
  | .data spec => some (.of List.length spec.delimiter spec.defaultValue spec.validValues)
  | _ => none

namespace Declaration

variable {d : Declaration} {α : Type} {read : String → String → Except Error α}

/-- The default stays or is read, and the valid values are those that were there and some that are
read. -/
theorem read_valid_values_ok {profile : Profile} {kind : Kind} {lt : α → α → Bool}
    {default value : α} {current values : List (Versioned α)}
    (done : (d.readValidValues profile kind read lt default current).outcome =
      .ok (value, values)) :
    (value = default ∨ ∃ property raw, read property raw = .ok value) ∧
      (∀ v ∈ current, v ∈ values) ∧
      ∀ v ∈ values, v ∈ current ∨ ∃ property raw, read property raw = .ok v.value := by
  simp only [readValidValues, Build.bind_ok, Build.lift_outcome] at done
  obtain ⟨texts, -, rest⟩ := done
  split at rest
  · simp only [Build.pure_outcome, Except.ok.injEq, Prod.mk.injEq] at rest
    obtain ⟨rfl, rfl⟩ := rest
    exact ⟨Or.inl rfl, fun _ member => member, fun _ member => Or.inl member⟩
  · split at rest
    · simp only [Build.bind_ok, Build.pure_outcome, Except.ok.injEq, Prod.mk.injEq] at rest
      obtain ⟨_, -, rfl, rfl⟩ := rest
      exact ⟨Or.inl rfl, fun _ member => member, fun _ member => Or.inl member⟩
    · simp only [Build.bind_ok, Build.lift_outcome] at rest
      obtain ⟨own, ofTexts, declared, -, rest⟩ := rest
      have ofOwn (v) (isOwn : v ∈ own) : ∃ raw, read "validValue" raw = .ok v.value := by
        obtain ⟨text, -, ofText⟩ := (except_each_ok ofTexts).1 v isOwn
        obtain ⟨value, ofRaw, same⟩ := except_bind_ok.mp ofText
        cases same
        exact ⟨text.value, ofRaw⟩
      cases declared with
      | none =>
          simp only [Build.bind_ok, Build.pure_outcome, Except.ok.injEq, Prod.mk.injEq] at rest
          obtain ⟨_, rfl, rfl, rfl⟩ := rest
          simp only [List.append_nil, Sorting.mem_stable, List.mem_append]
          exact ⟨Or.inl rfl, fun v member => Or.inl member,
            fun v member => member.imp_right fun isOwn => ⟨_, ofOwn v isOwn⟩⟩
      | some raw =>
          simp only [Build.bind_ok, Build.lift_outcome, Build.pure_outcome, Except.ok.injEq,
            Prod.mk.injEq, except_map_ok] at rest
          obtain ⟨_, ⟨chosen, ofRaw, rfl⟩, rfl, rfl⟩ := rest
          simp only [Sorting.mem_stable, List.mem_append, List.mem_singleton]
          refine ⟨Or.inr ⟨_, raw, ofRaw⟩, fun v member => Or.inl (Or.inl member), fun v member => ?_⟩
          rcases member with (old | isOwn) | rfl
          · exact Or.inl old
          · exact Or.inr ⟨_, ofOwn v isOwn⟩
          · exact Or.inr ⟨_, raw, ofRaw⟩

/-- Where every value that is read fits the end, only those that were there may not. -/
theorem read_contents_over {profile : Profile} {kind : Kind} {lt : α → α → Bool} {size : α → Nat}
    (before : Delimiter Field) {delimiter : Delimiter Field} {start value : α}
    {current values : List (Versioned α)}
    (done : (d.readContents profile kind read lt start current).outcome = .ok (value, values))
    (fits : ∀ {property raw value}, read property raw = .ok value →
      ∀ n ∈ delimiter.fixedLength?, size value ≤ n) :
    (Contents.of size before start current).ReadOver (.of size delimiter value values) := by
  simp only [readContents, Build.bind_ok, Build.lift_outcome] at done
  obtain ⟨default, ofDefault, ofValues⟩ := done
  obtain ⟨chosen, kept, own⟩ := read_valid_values_ok ofValues
  refine ⟨?_, ?_, ?_⟩
  · rcases chosen with rfl | ⟨property, raw, ofRaw⟩
    · exact (read_default_ok ofDefault).imp (congrArg size) fun ⟨raw, ofRaw⟩ => fits ofRaw
    · exact Or.inr (fits ofRaw)
  · simp only [Contents.of, List.forall_mem_map]
    exact fun v member => List.mem_map_of_mem (kept v member)
  · simp only [Contents.of, List.forall_mem_map]
    intro v member
    exact (own v member).imp List.mem_map_of_mem
      fun ⟨property, raw, ofRaw⟩ => fits ofRaw

theorem read_bounded_fits {delimiter : Delimiter Field} {kind raw : String}
    {other? : String → Option α} {own : Except Error α} {size : α → Nat}
    {long : α → Nat → PropertyFault} {value : α}
    (done : d.readBounded delimiter kind other? own size long raw = .ok value) :
    ∀ n ∈ delimiter.fixedLength?, size value ≤ n := by
  intro n isFixed
  cases Delimiter.mem_fixed_length.mp isFixed
  obtain ⟨found, -, checked⟩ := except_bind_ok.mp done
  simp only at checked
  split at checked
  · cases checked
  · cases checked
    omega

end Declaration

section Values

variable {d : Declaration} {profile : Profile} {delimiter : Delimiter Field}

/-- A copy has a fixed length only if the source has one. -/
theorem Declaration.delimits_fixed {current later : Delimiter Field} {length : Option Nat}
    {lead : Option (Prefix Field)} {zero : Bool} (ends : d.Delimits current length lead zero later)
    (reused : d.reused = true) : ∀ n ∈ later.fixedLength?, ∃ m, m ∈ current.fixedLength? := by
  intro n isFixed
  cases ends with
  | kept => exact ⟨n, isFixed⟩
  | fixed same =>
      have label := same reused
      cases current with
      | fixed m => exact ⟨m, rfl⟩
      | unbounded | prefixed | zeroTerminated => simp [Delimiter.label] at label
  | prefixed | zeroTerminated => cases isFixed

theorem Declaration.reads_contents {payload : Payload Field} {f : Field} {contents : Contents}
    (reads : d.ReadsAs profile payload f) (holds : f.payload.contents? = some contents) :
    ∃ start, payload.contents? = some start ∧ start.ReadOver contents ∧
      (d.reused = true → ∀ n ∈ contents.fixed, ∃ m, m ∈ start.fixed) := by
  cases reads with
  | string done =>
      cases holds
      obtain ⟨_, _, _, -, -, -, ends⟩ := StringSpec.read_delimiter_ok (StringSpec.read_ok done).1
      exact ⟨_, rfl, read_contents_over _ (StringSpec.read_ok done).2 read_bounded_fits,
        delimits_fixed ends⟩
  | data done =>
      cases holds
      obtain ⟨_, _, -, -, ends⟩ := DataSpec.read_delimiter_ok (DataSpec.read_ok done).1
      exact ⟨_, rfl, read_contents_over _ (DataSpec.read_ok done).2 read_bounded_fits,
        delimits_fixed ends⟩
  | _ => nomatch holds

end Values

theorem Payload.blank_contents {kind : Kind} {contents : Contents}
    (holds : (Payload.blank kind : Payload Field).contents? = some contents) :
    contents = ⟨none, 0, []⟩ := by
  cases kind with
  | string | data =>
      cases holds
      rfl
  | _ => nomatch holds

namespace Field

/-- The values of a text or of data that was built fit its fixed length exactly if those do that it has
from the reused field: the default, unless its size is another one now, and all valid values. So they
do without reuse, and where the values of the reused field fit a length that is not greater. -/
theorem fixed_length_values_fit_iff {env : Environment} {tag : String} {node : Markup.Node}
    {parent : Parent} {f : Field} {contents : Contents}
    (built : (create env tag node parent).outcome = .ok f)
    (holds : f.payload.contents? = some contents) :
    ∃ start, (env.startOf f).contents? = some start ∧
      (contents.Fits ↔
        (contents.default = start.default → contents.Takes start.default) ∧
        ∀ size ∈ start.valid, contents.Takes size) ∧
      (f.profile.reusedFrom = none → contents.Fits) ∧
      (start.Fits → (∀ m ∈ start.fixed, ∀ n ∈ contents.fixed, m ≤ n) → contents.Fits) := by
  obtain ⟨d, profile, -, reads, blank⟩ := create_from_start built
  obtain ⟨start, startHolds, readOver, copies⟩ := Declaration.reads_contents reads holds
  have exactly := Contents.fits_iff readOver
  have fresh (isBlank : env.startOf f = .blank f.kind) : contents.Fits := by
    rw [isBlank] at startHolds
    cases Payload.blank_contents startHolds
    exact exactly.mpr ⟨fun _ n _ => Nat.zero_le n, fun size member => absurd member List.not_mem_nil⟩
  refine ⟨start, startHolds, exactly, fun none => fresh (Environment.start_of_fresh none),
    fun fitted longer => ?_⟩
  cases reused : d.reused with
  | false => exact fresh (blank reused)
  | true =>
      refine Contents.fits_of_longer readOver fitted fun n isFixed => ?_
      obtain ⟨m, wasFixed⟩ := copies reused n isFixed
      exact ⟨m, wasFixed, longer m wasFixed n isFixed⟩

def sourceTexts : List Markup.Node :=
  [⟨"string", [("name", "A"), ("length", "5"), ("defaultValue", "hello"), ("validValue", "abc")], [],
      "", 1⟩,
    ⟨"string", [("name", "B"), ("length", "2"), ("defaultValue", "xy")], [], "", 1⟩]

def shorterText : Markup.Node :=
  ⟨"string", [("name", "C"), ("reuse", "A"), ("length", "3"), ("defaultValue", "^B")], [], "", 1⟩

theorem shorter_text_fits :
    ∃ f contents, (create (schemaOf sourceTexts) "string" shorterText
        ⟨.ns, Window.always⟩).outcome = .ok f ∧
      f.payload.contents? = some contents ∧ contents = ⟨some 3, 2, [3]⟩ ∧ contents.Fits := by
  obtain ⟨f, built, found⟩ := except_any (show
    ((create (schemaOf sourceTexts) "string" shorterText ⟨.ns, Window.always⟩).outcome.toOption.any
      fun f => ((schemaOf sourceTexts).startOf f).contents? = some ⟨some 5, 5, [3]⟩ &&
        f.payload.contents? = some ⟨some 3, 2, [3]⟩) = true by decide +kernel)
  simp only [Bool.and_eq_true, decide_eq_true_eq] at found
  obtain ⟨start, startHolds, exactly, -⟩ := fixed_length_values_fit_iff built found.2
  cases found.1.symm.trans startHolds
  exact ⟨f, _, built, found.2, rfl, exactly.mpr (by decide)⟩

def shortenedFields : List Markup.Node :=
  [⟨"string", [("name", "A"), ("length", "5"), ("defaultValue", "hello")], [], "", 1⟩,
    ⟨"string", [("name", "B"), ("reuse", "A"), ("length", "2")], [], "", 1⟩,
    ⟨"data", [("name", "C"), ("length", "3"), ("defaultValue", "010203")], [], "", 1⟩,
    ⟨"data", [("name", "D"), ("reuse", "C"), ("length", "2")], [], "", 1⟩,
    ⟨"string", [("name", "E"), ("length", "3"), ("validValue", "abc")], [], "", 1⟩,
    ⟨"string", [("name", "F"), ("reuse", "E"), ("length", "1")], [], "", 1⟩]

theorem shortened_fields_hold_longer_values :
    (registryOf shortenedFields).entries.map (fun e => e.field.payload.contents?) =
        [some ⟨some 5, 5, []⟩, some ⟨some 2, 5, []⟩, some ⟨some 3, 3, []⟩, some ⟨some 2, 3, []⟩,
          some ⟨some 3, 0, [3]⟩, some ⟨some 1, 0, [3]⟩] ∧
      ¬Contents.Fits ⟨some 2, 5, []⟩ ∧ ¬Contents.Fits ⟨some 2, 3, []⟩ ∧
      ¬Contents.Fits ⟨some 1, 0, [3]⟩ := by
  refine ⟨?_, by decide, by decide, by decide⟩
  decide +kernel

end Field

end WireSchema
