import WireSchema.Proofs.Bounds
import WireSchema.Proofs.Properties

/-!
The valid values of an integer against what its element declares: an interval in either order, a
single value, a least or a greatest one, as an attribute or as a child. Each bound is kept as a word
of 64 bits. One above all words gives way to the greatest word and one below them to zero, and then
an interval loses numbers that it was declared with or gains others.
-/

namespace WireSchema

open Markup (Node)

namespace Markup.Node

inductive DeclaresValid (ctx : Context) (node : Node) : String → String → Prop where
  | ofAttribute {property raw : String} (valid : property ∈ validProperties)
      (given : (property, raw) ∈ node.attributes) : DeclaresValid ctx node property raw
  | ofChild {child : Node} {raw : String} (valid : child.name ∈ validProperties)
      (inside : child ∈ node.children) (text : child.value = .ok raw) :
      DeclaresValid ctx node child.name raw
  | ofDefault {raw : String} (supported : ctx.supportsProperty "defaultValidValue" = true)
      (given : node.Gives "defaultValidValue" raw) :
      DeclaresValid ctx node "defaultValidValue" raw

theorem declares_valid_iff {ctx : Context} {node : Node} {property raw : String} :
    node.DeclaresValid ctx property raw ↔
      (property ∈ validProperties ∧ ((property, raw) ∈ node.attributes ∨
        ∃ child ∈ node.children, child.name = property ∧ child.value = .ok raw)) ∨
      (property = "defaultValidValue" ∧ ctx.supportsProperty property = true ∧
        node.Gives property raw) := by
  constructor
  · intro declares
    cases declares with
    | ofAttribute valid given => exact Or.inl ⟨valid, Or.inl given⟩
    | @ofChild child _ valid inside text => exact Or.inl ⟨valid, Or.inr ⟨child, inside, rfl, text⟩⟩
    | ofDefault supported given => exact Or.inr ⟨rfl, supported, given⟩
  · rintro (⟨valid, given | ⟨child, inside, rfl, text⟩⟩ | ⟨rfl, supported, given⟩)
    · exact .ofAttribute valid given
    · exact .ofChild valid inside text
    · exact .ofDefault supported given

theorem declares_of_leaf {ctx : Context} {node : Node} {property raw : String}
    (leaf : node.children = []) (declares : node.DeclaresValid ctx property raw) :
    (property, raw) ∈ node.attributes ∧
      (property ∈ validProperties ∨ property = "defaultValidValue") := by
  cases declares with
  | ofAttribute valid given => exact ⟨given, Or.inl valid⟩
  | ofChild valid inside => exact absurd (leaf ▸ inside) List.not_mem_nil
  | ofDefault _ given =>
      rcases given with given | ⟨child, inside, -⟩
      · exact ⟨given, Or.inr rfl⟩
      · exact absurd (leaf ▸ inside) List.not_mem_nil

end Markup.Node

def Interval.Bounded (i : Interval) (low high : Int) : Prop :=
  i.min = Number.ofInt low ∧ i.max = Number.ofInt high

theorem Declaration.gated_ok {d : Declaration} {name : String} {gate : Bool}
    (done : (d.gated name).outcome = .ok gate) :
    gate = (d.has name && d.context.supportsProperty name) := by
  unfold gated at done
  cases given : d.has name with
  | false =>
      rw [given] at done
      cases done
      rfl
  | true =>
      rw [given] at done
      cases supported : d.context.supportsProperty name with
      | false =>
          simp only [supported, Bool.not_true, Bool.false_eq_true, if_false, Build.bind_ok,
            Build.pure_outcome, Except.ok.injEq] at done
          obtain ⟨_, -, same⟩ := done
          exact same.symm
      | true =>
          rw [supported] at done
          cases done
          rfl

namespace IntSpec

open Declaration (Tell)

def declaredBounds? (spec : IntSpec) (env : Environment) (property raw : String) :
    Option (Int × Int) :=
  match property with
  | "validRange" => do
      let (low, high) ← Literal.bounds? raw
      return (← spec.valueOf? env low, ← spec.valueOf? env high)
  | "validMin" => (spec.valueOf? env raw).map fun value => (value, spec.greatest)
  | "validMax" => (spec.valueOf? env raw).map fun value => (spec.least, value)
  | _ => (spec.valueOf? env raw).map fun value => (value, value)

variable {d : Declaration} {spec : IntSpec}

/-- A declaration of valid values is read as the interval with the bounds that it means. -/
theorem read_interval_bounds {property raw : String} {i : Interval}
    (ordered : spec.least ≤ spec.greatest) (valid : property ∈ validProperties)
    (done : spec.readInterval d property raw = .ok i) :
    ∃ low high, spec.declaredBounds? d.env property raw = some (low, high) ∧ spec.Accepts low ∧
      spec.Accepts high ∧ i.Bounded low high := by
  simp only [readInterval, except_bind_ok, Except.ok.injEq] at done
  obtain ⟨⟨low, high⟩, read, rfl⟩ := done
  have acceptsLeast : spec.Accepts spec.least := Or.inl (holds_iff.mpr ⟨Int.le_refl _, ordered⟩)
  have acceptsGreatest : spec.Accepts spec.greatest :=
    Or.inl (holds_iff.mpr ⟨ordered, Int.le_refl _⟩)
  refine ⟨low, high, ?_⟩
  unfold Declaration.readBounds at read
  split at read
  · simp only [except_bind_ok, Except.ok.injEq, Prod.mk.injEq] at read
    obtain ⟨texts, accepted, _, ofLow, _, ofHigh, rfl, rfl⟩ := read
    obtain ⟨isLow, holdsLow⟩ := read_bound_ok ofLow
    obtain ⟨isHigh, holdsHigh⟩ := read_bound_ok ofHigh
    refine ⟨?_, Or.inl holdsLow, Or.inl holdsHigh, rfl, rfl⟩
    simp [declaredBounds?, Declaration.accept_ok accepted, isLow, isHigh]
  · simp only [except_bind_ok, Except.ok.injEq, Prod.mk.injEq] at read
    obtain ⟨_, ofRaw, rfl, rfl⟩ := read
    obtain ⟨isValue, holds⟩ := read_bound_ok ofRaw
    exact ⟨by simp [declaredBounds?, isValue], Or.inl holds, Or.inl holds, rfl, rfl⟩
  · simp only [except_bind_ok, Except.ok.injEq, Prod.mk.injEq] at read
    obtain ⟨_, ofRaw, rfl, rfl⟩ := read
    obtain ⟨isValue, holds⟩ := read_bound_ok ofRaw
    exact ⟨by simp [declaredBounds?, isValue], Or.inl holds, acceptsGreatest, rfl, rfl⟩
  · rename_i notRange notValue notMin
    simp only [except_bind_ok, Except.ok.injEq, Prod.mk.injEq] at read
    obtain ⟨_, ofRaw, rfl, rfl⟩ := read
    obtain ⟨isValue, holds⟩ := read_bound_ok ofRaw
    have isMax : property = "validMax" := by
      simp only [validProperties, List.mem_cons, List.not_mem_nil, or_false] at valid
      rcases valid with rfl | rfl | rfl | rfl
      · exact absurd rfl notRange
      · exact absurd rfl notValue
      · exact absurd rfl notMin
      · rfl
    subst isMax
    exact ⟨by simp [declaredBounds?, isValue], acceptsLeast, Or.inl holds, rfl, rfl⟩

theorem read_default_value {property raw : String} {value : Int}
    (done : spec.readDefault d property raw = .ok value) :
    spec.valueOf? d.env raw = some value := by
  simp only [readDefault, except_bind_ok] at done
  obtain ⟨_, accepted, rest⟩ := done
  split at rest
  · cases rest
  · cases rest
    exact Declaration.accept_ok accepted

def readPoint (d : Declaration) (spec : IntSpec) (property raw : String) : Except Error Interval :=
  (spec.readDefault d property raw).map fun value => Interval.point (Number.ofInt value)

theorem read_point_bounds {raw : String} {i : Interval}
    (done : spec.readPoint d "defaultValidValue" raw = .ok i) :
    ∃ value, spec.declaredBounds? d.env "defaultValidValue" raw = some (value, value) ∧
      spec.Accepts value ∧ i.Bounded value value := by
  rw [readPoint, except_map_ok] at done
  obtain ⟨value, ofValue, rfl⟩ := done
  exact ⟨value, by simp [declaredBounds?, read_default_value ofValue],
    read_default_accepts ofValue, rfl, rfl⟩

/-- A default that is valid as well is read exactly where it is given and the version has it. -/
theorem read_default_valid_tell {value? : Option Int} {names : List String}
    (done : (d.readDefaultValid (spec.readDefault d)).outcome = .ok value?)
    (ofProps : Properties.ofNode d.node names = .ok d.props)
    (listed : names.contains "defaultValidValue" = true) :
    Tell (spec.readPoint d)
      (fun property raw => property = "defaultValidValue" ∧
        d.context.supportsProperty property = true ∧ d.node.Gives property raw)
      (value?.map fun value => Interval.point (Number.ofInt value)).toList := by
  simp only [Declaration.readDefaultValid, Build.bind_ok] at done
  obtain ⟨gate, gated, rest⟩ := done
  have isGate := Declaration.gated_ok gated
  have given := Properties.of_node_mem_iff ofProps listed
  split at rest
  · rename_i through
    simp only [Build.bind_ok, Build.lift_outcome, Build.pure_outcome, Except.ok.injEq] at rest
    obtain ⟨raw, ofRaw, value, ofValue, rfl⟩ := rest
    rw [through, eq_comm, Bool.and_eq_true] at isGate
    have ofPoint : spec.readPoint d "defaultValidValue" raw =
        .ok (Interval.point (Number.ofInt value)) := by
      rw [readPoint, ofValue]
      rfl
    constructor
    · intro i member
      cases List.mem_singleton.mp member
      exact ⟨_, raw, _, ⟨rfl, isGate.2,
        (given _).mp ((Properties.required_mem_iff ofRaw _).mpr rfl)⟩, ofPoint, rfl, rfl⟩
    · rintro _ raw' ⟨rfl, -, gives⟩
      cases (Properties.required_mem_iff ofRaw _).mp ((given _).mpr gives)
      exact ⟨_, ofPoint, _, List.mem_singleton_self _, rfl, rfl⟩
  · rename_i closed
    cases rest
    refine ⟨fun i member => absurd member List.not_mem_nil, ?_⟩
    rintro property raw ⟨rfl, supported, gives⟩
    rw [← given] at gives
    have has : d.has "defaultValidValue" = true :=
      List.any_eq_true.mpr ⟨_, gives, beq_self_eq_true _⟩
    rw [has, supported] at isGate
    exact absurd isGate closed

structure Told (spec : IntSpec) (env : Environment) (node : Node) : Prop where
  sound : ∀ i ∈ spec.declaredRanges, ∃ property raw low high,
    node.DeclaresValid env.context property raw ∧
      spec.declaredBounds? env property raw = some (low, high) ∧ i.Bounded low high
  complete : ∀ property raw, node.DeclaresValid env.context property raw → ∃ low high,
    spec.declaredBounds? env property raw = some (low, high) ∧ spec.Accepts low ∧
      spec.Accepts high ∧ ∃ i ∈ spec.declaredRanges, i.Bounded low high

theorem read_valid_ranges_told {profile : Profile} {later : IntSpec} {names : List String}
    (done : (readValidRanges d profile spec).outcome = .ok later)
    (fresh : spec.declaredRanges = []) (ordered : later.least ≤ later.greatest)
    (ofProps : Properties.ofNode d.node names = .ok d.props)
    (listed : names.contains "defaultValidValue" = true) : later.Told d.env d.node := by
  simp only [readValidRanges, Build.bind_ok, Build.lift_outcome, Build.pure_outcome,
    Except.ok.injEq] at done
  obtain ⟨declared, ofDeclared, default?, ofDefault, rfl⟩ := done
  have ranges := Declaration.declared_ranges_tell ofDeclared
  have points := read_default_valid_tell ofDefault ofProps listed
  constructor
  · simp only [fresh, List.nil_append, List.forall_mem_append]
    constructor
    · intro i member
      obtain ⟨property, raw, own, isSaid, read, sameMin, sameMax⟩ := ranges.sound i member
      obtain ⟨low, high, means, -, -, bounded⟩ := read_interval_bounds ordered isSaid.1 read
      exact ⟨property, raw, low, high, Node.declares_valid_iff.mpr (Or.inl isSaid), means,
        sameMin.trans bounded.1, sameMax.trans bounded.2⟩
    · intro i member
      obtain ⟨property, raw, own, isSaid, read, sameMin, sameMax⟩ := points.sound i member
      obtain ⟨value, means, -, bounded⟩ := read_point_bounds (isSaid.1 ▸ read)
      exact ⟨property, raw, value, value, Node.declares_valid_iff.mpr (Or.inr isSaid),
        isSaid.1 ▸ means, sameMin.trans bounded.1, sameMax.trans bounded.2⟩
  · intro property raw declares
    simp only [fresh, List.nil_append]
    rcases Node.declares_valid_iff.mp declares with isSaid | isSaid
    · obtain ⟨own, read, i, member, sameMin, sameMax⟩ := ranges.complete property raw isSaid
      obtain ⟨low, high, means, acceptsLow, acceptsHigh, bounded⟩ :=
        read_interval_bounds ordered isSaid.1 read
      exact ⟨low, high, means, acceptsLow, acceptsHigh, i, List.mem_append_left _ member,
        sameMin.trans bounded.1, sameMax.trans bounded.2⟩
    · obtain ⟨own, read, i, member, sameMin, sameMax⟩ := points.complete property raw isSaid
      obtain ⟨value, means, accepts, bounded⟩ := read_point_bounds (isSaid.1 ▸ read)
      exact ⟨value, value, isSaid.1 ▸ means, accepts, accepts, i, List.mem_append_right _ member,
        sameMin.trans bounded.1, sameMax.trans bounded.2⟩

/-- An integer that starts blank has the intervals that its element declares. -/
theorem read_told {profile : Profile} {start : IntSpec} {names : List String}
    (done : (read d profile start).outcome = .ok spec) (fresh : start.declaredRanges = [])
    (ofProps : Properties.ofNode d.node names = .ok d.props)
    (listed : names.contains "defaultValidValue" = true) : spec.Told d.env d.node := by
  obtain ⟨type, -, -, settled, -, -⟩ := read_ok done
  have ordered := settled_ordered settled
  simp only [read, Build.bind_ok, Build.lift_outcome, Build.pure_outcome, Except.ok.injEq] at done
  obtain ⟨⟨type, storage⟩, -, scaling, -, offset, -, _, -, named, ofNamed, default, -, _, -, ranged,
    ofRanges, _, -, _, -, _, -, _, -, _, -, _, -, _, -, rfl⟩ := done
  obtain ⟨specials, rfl, -⟩ := read_specials_ok ofNamed
  obtain ⟨sound, complete⟩ := read_valid_ranges_told ofRanges fresh ordered ofProps listed
  exact ⟨sound, complete⟩

def Between (low high x : Int) : Prop := min low high ≤ x ∧ x ≤ max low high

/-- The number is lost where the bounds are kept as words: from below all words on, the interval has
no negative numbers but its end. -/
def Loses (low high x : Int) : Prop :=
  min low high < Literal.leastSigned ∧ x < max low high ∧ x < 0

/-- The number is gained where the bounds are kept as words: the greatest word by an interval above
all words, and those from the end up to zero by an interval from below all words on. -/
def Gains (low high x : Int) : Prop :=
  (Literal.greatestUnsigned < min low high ∧ x = Literal.greatestUnsigned) ∨
    (min low high < Literal.leastSigned ∧ max low high < x ∧ x ≤ 0 ∧
      (Literal.leastSigned ≤ max low high ∨ x = 0))

theorem bounded_spans_iff {i : Interval} {low high x : Int} (bounded : i.Bounded low high)
    (above : Literal.leastSigned ≤ x) (below : x ≤ Literal.greatestUnsigned) :
    i.Spans x ↔ (Between low high x ∧ ¬Loses low high x) ∨ Gains low high x := by
  have small : Literal.leastSigned ≤ 0 := by decide
  rw [Interval.Spans, bounded.1, bounded.2, Number.of_int_value, Number.of_int_value]
  simp only [Option.some.injEq, exists_and_left, exists_eq_left', Between, Loses, Gains]
  constructor
  · intro spans
    split at spans <;> split at spans <;> omega
  · intro kept
    split <;> split <;> omega

variable {type : IntType} {n : Number} {x : Int}

theorem lookup_iff_spans (settled : spec.Settled type) (worded : spec.Worded)
    (read : n.toInt? = some x) :
    Interval.lookup spec.validRanges n none = true ↔
      ∃ i ∈ if spec.declaredRanges.isEmpty then [spec.whole] else spec.declaredRanges,
        i.Spans x := by
  have on : ∀ i ∈ if spec.declaredRanges.isEmpty then [spec.whole] else spec.declaredRanges,
      i.On Number.integers := by
    split
    · exact List.forall_mem_singleton.mpr ⟨Number.of_int_integral _, Number.of_int_integral _⟩
    · exact worded.2
  rw [settled.merged, Interval.merge_covers _ _ _ _ on (Number.integers_holds read),
    Interval.covers_normal_iff _ _ _ on read]
  simp only [Option.all_none, and_true]

def Means (spec : IntSpec) (env : Environment) (node : Node) (low high : Int) : Prop :=
  (∃ property raw, node.DeclaresValid env.context property raw ∧
      spec.declaredBounds? env property raw = some (low, high)) ∨
    ((∀ property raw, ¬node.DeclaresValid env.context property raw) ∧
      low = spec.least ∧ high = spec.greatest)

def Permits (spec : IntSpec) (env : Environment) (node : Node) (x : Int) : Prop :=
  (∀ property raw, ¬node.DeclaresValid env.context property raw) ∨
    ∃ property raw low high, node.DeclaresValid env.context property raw ∧
      spec.declaredBounds? env property raw = some (low, high) ∧ Between low high x

variable {env : Environment} {node : Node} {low high : Int}

theorem permits_iff_means (inRange : spec.least ≤ x ∧ x ≤ spec.greatest) :
    spec.Permits env node x ↔ ∃ low high, spec.Means env node low high ∧ Between low high x := by
  constructor
  · rintro (nothing | ⟨property, raw, low, high, declares, means, between⟩)
    · exact ⟨spec.least, spec.greatest, Or.inr ⟨nothing, rfl, rfl⟩, by unfold Between; omega⟩
    · exact ⟨low, high, Or.inl ⟨property, raw, declares, means⟩, between⟩
  · rintro ⟨low, high, ⟨property, raw, declares, means⟩ | ⟨nothing, -, -⟩, between⟩
    · exact Or.inr ⟨property, raw, low, high, declares, means, between⟩
    · exact Or.inl nothing

theorem permits_iff_kept_or_lost (inRange : spec.least ≤ x ∧ x ≤ spec.greatest)
    (above : Literal.leastSigned ≤ x) :
    spec.Permits env node x ↔
      (∃ low high, spec.Means env node low high ∧ Between low high x ∧ ¬Loses low high x) ∨
        ∃ low high, spec.Means env node low high ∧ Loses low high x := by
  rw [permits_iff_means inRange]
  constructor
  · rintro ⟨low, high, means, between⟩
    by_cases lost : Loses low high x
    · exact Or.inr ⟨low, high, means, lost⟩
    · exact Or.inl ⟨low, high, means, between, lost⟩
  · rintro (⟨low, high, means, between, -⟩ | ⟨low, high, means, lost⟩)
    · exact ⟨low, high, means, between⟩
    · refine ⟨low, high, means, ?_⟩
      unfold Loses at lost
      unfold Between
      omega

section Told

variable (told : spec.Told env node)

include told

/-- The intervals that are merged are those of the meant bounds. -/
theorem merged_iff_means {spans : Interval → Prop} {covers : Int → Int → Prop}
    (bounds : ∀ i low high, i.Bounded low high → (spans i ↔ covers low high)) :
    (∃ i ∈ if spec.declaredRanges.isEmpty then [spec.whole] else spec.declaredRanges, spans i) ↔
      ∃ low high, spec.Means env node low high ∧ covers low high := by
  have ofWhole := bounds spec.whole spec.least spec.greatest ⟨rfl, rfl⟩
  by_cases none : spec.declaredRanges = []
  · have nothing : ∀ property raw, ¬node.DeclaresValid env.context property raw := by
      intro property raw declares
      obtain ⟨_, _, -, -, -, i, member, -⟩ := told.complete property raw declares
      rw [none] at member
      exact absurd member List.not_mem_nil
    rw [none, List.isEmpty_nil, if_pos rfl]
    constructor
    · rintro ⟨i, member, spanned⟩
      cases List.mem_singleton.mp member
      exact ⟨spec.least, spec.greatest, Or.inr ⟨nothing, rfl, rfl⟩, ofWhole.mp spanned⟩
    · rintro ⟨low, high, ⟨property, raw, declares, -⟩ | ⟨-, rfl, rfl⟩, covered⟩
      · exact absurd declares (nothing property raw)
      · exact ⟨spec.whole, List.mem_singleton_self _, ofWhole.mpr covered⟩
  · rw [if_neg (by rwa [List.isEmpty_iff])]
    constructor
    · rintro ⟨i, member, spanned⟩
      obtain ⟨property, raw, low, high, declares, means, bounded⟩ := told.sound i member
      exact ⟨low, high, Or.inl ⟨property, raw, declares, means⟩,
        (bounds i low high bounded).mp spanned⟩
    · rintro ⟨low, high, ⟨property, raw, declares, means⟩ | ⟨nothing, -, -⟩, covered⟩
      · obtain ⟨low', high', means', -, -, i, member, bounded⟩ :=
          told.complete property raw declares
        cases means.symm.trans means'
        exact ⟨i, member, (bounds i low high bounded).mpr covered⟩
      · obtain ⟨i, member⟩ := List.exists_mem_of_ne_nil _ none
        obtain ⟨property, raw, -, -, declares, -⟩ := told.sound i member
        exact absurd declares (nothing property raw)

theorem means_in_range (ordered : spec.least ≤ spec.greatest)
    (fits : ∀ s ∈ spec.specials, spec.least ≤ s.value ∧ s.value ≤ spec.greatest)
    (means : spec.Means env node low high) :
    (spec.least ≤ low ∧ low ≤ spec.greatest) ∧ spec.least ≤ high ∧ high ≤ spec.greatest := by
  rcases means with ⟨property, raw, declares, bounds⟩ | ⟨-, rfl, rfl⟩
  · obtain ⟨_, _, bounds', acceptsLow, acceptsHigh, -⟩ := told.complete property raw declares
    cases bounds.symm.trans bounds'
    exact ⟨in_range_of_accepts acceptsLow fits, in_range_of_accepts acceptsHigh fits⟩
  · omega

end Told

end IntSpec

namespace Declaration

/-- A field that reuses none starts blank. -/
theorem makes_blank_of_origin {d : Declaration} {start f : Field} (makes : d.Makes start f)
    (fresh : f.profile.reusedFrom = none) : start.payload = .blank f.kind := by
  rw [← makes_start_of makes, Environment.start_of_fresh fresh]

end Declaration

namespace Field

open IntSpec (Between Loses Gains)

/-- An integer without reuse has the intervals that its element declares, and its named values fit. -/
theorem fresh_integer_told {env : Environment} {depth : Nat} {tag : String} {node : Node}
    {parent : Parent} {f : Field} {spec : IntSpec}
    (built : (buildWithin env depth tag node parent).outcome = .ok f)
    (isInt : f.payload = .int spec) (fresh : f.profile.reusedFrom = none) :
    ∃ type, spec.Settled type ∧ spec.Worded ∧
      (∀ s ∈ spec.specials, spec.least ≤ s.value ∧ s.value ≤ spec.greatest) ∧
      spec.Told env node := by
  cases depth with
  | zero => cases built
  | succ depth =>
      obtain ⟨d, start, rfl, rfl, -, -, makes⟩ := build_within_makes built
      have isKind : f.kind = .int := by
        rw [kind, isInt]
        rfl
      have blank := Declaration.makes_blank_of_origin makes fresh
      have properties := makes.properties
      obtain ⟨profile, -, reads⟩ := Declaration.makes_reads makes
      rw [blank, isKind] at reads
      rw [isKind] at properties
      cases reads with
      | int done =>
          cases isInt
          obtain ⟨type, specials, ranges, settled, readOver, -⟩ := IntSpec.read_ok done
          refine ⟨type, settled, IntSpec.worded_of_read readOver ?_, ?_,
            IntSpec.read_told done rfl properties (by decide)⟩
          · exact Payload.worded_law.blank d.env.registry .int _ rfl
          · intro s member
            rw [readOver.named] at member
            exact IntSpec.holds_iff.mp (readOver.fitting s member)

/-- A number in the range of an integer without reuse is valid exactly if some declared interval, or
the range where none is declared, covers it and does not lose it, or gains it. This is what the
declarations mean exactly if some interval covers the number and does not lose it, or one loses it
just if one gains it. So it is for numbers strictly between zero and the greatest word, and for all
numbers of a range that is made of words. -/
theorem declared_validity_exact {env : Environment} {depth : Nat} {tag : String} {node : Node}
    {parent : Parent} {f : Field} {spec : IntSpec} {n : Number} {x : Int}
    (built : (buildWithin env depth tag node parent).outcome = .ok f)
    (isInt : f.payload = .int spec) (fresh : f.profile.reusedFrom = none)
    (read : n.toInt? = some x) (inRange : spec.least ≤ x ∧ x ≤ spec.greatest)
    (word : Literal.leastSigned ≤ x ∧ x ≤ Literal.greatestUnsigned) :
    (Interval.lookup spec.validRanges n none = true ↔
      ∃ low high, spec.Means env node low high ∧
        ((Between low high x ∧ ¬Loses low high x) ∨ Gains low high x)) ∧
    ((Interval.lookup spec.validRanges n none = true ↔ spec.Permits env node x) ↔
      (∃ low high, spec.Means env node low high ∧ Between low high x ∧ ¬Loses low high x) ∨
        ((∃ low high, spec.Means env node low high ∧ Loses low high x) ↔
          ∃ low high, spec.Means env node low high ∧ Gains low high x)) ∧
    ((0 < x ∧ x < Literal.greatestUnsigned) ∨
        (Literal.leastSigned ≤ spec.least ∧ spec.greatest ≤ Literal.greatestUnsigned) →
      (Interval.lookup spec.validRanges n none = true ↔ spec.Permits env node x)) := by
  obtain ⟨type, settled, worded, fits, told⟩ := fresh_integer_told built isInt fresh
  have ordered := IntSpec.settled_ordered settled
  have valid := (IntSpec.lookup_iff_spans settled worded read).trans
    (IntSpec.merged_iff_means told fun _ _ _ bounded =>
      IntSpec.bounded_spans_iff bounded word.1 word.2)
  have exactly : (Interval.lookup spec.validRanges n none = true ↔ spec.Permits env node x) ↔
      (∃ low high, spec.Means env node low high ∧ Between low high x ∧ ¬Loses low high x) ∨
        ((∃ low high, spec.Means env node low high ∧ Loses low high x) ↔
          ∃ low high, spec.Means env node low high ∧ Gains low high x) := by
    rw [valid, IntSpec.permits_iff_kept_or_lost inRange word.1]
    simp only [and_or_left, exists_or]
    by_cases kept : ∃ low high, spec.Means env node low high ∧ Between low high x ∧
      ¬Loses low high x
    · simp only [kept, true_or]
    · simp only [kept, false_or]
      exact iff_comm
  refine ⟨valid, exactly, ?_⟩
  intro safe
  have same {low high : Int} (means : spec.Means env node low high) :
      ¬Loses low high x ∧ ¬Gains low high x := by
    have bounds := IntSpec.means_in_range told ordered fits means
    unfold Loses Gains
    omega
  refine exactly.mpr (Or.inr ⟨?_, ?_⟩)
  · rintro ⟨low, high, means, lost⟩
    exact absurd lost (same means).1
  · rintro ⟨low, high, means, gained⟩
    exact absurd gained (same means).2

def validBytes : Node :=
  ⟨"int", [("name", "A"), ("type", "int8"), ("validRange", "[5, -3]")],
    [⟨"validMin", [("value", "100")], [], "", 1⟩], "", 1⟩

theorem valid_bytes_permitted :
    ∃ f spec, (buildWithin (schemaOf []) 2 "int" validBytes ⟨.ns, Window.always⟩).outcome = .ok f ∧
      f.payload = .int spec ∧ spec.Permits (schemaOf []) validBytes 4 ∧
      spec.Permits (schemaOf []) validBytes 127 ∧ ¬spec.Permits (schemaOf []) validBytes 6 := by
  obtain ⟨f, built, found⟩ := except_any (show
    ((buildWithin (schemaOf []) 2 "int" validBytes ⟨.ns, Window.always⟩).outcome.toOption.any fun f =>
      f.payload.int?.any fun ⟨spec, _⟩ => f.profile.reusedFrom.isNone &&
        spec.least = -128 && spec.greatest = 127 &&
        Interval.lookup spec.validRanges (.signed 4) none &&
        Interval.lookup spec.validRanges (.unsigned 127) none &&
        !Interval.lookup spec.validRanges (.signed 6) none) = true by decide +kernel)
  simp only [Option.any_eq_true, Subtype.exists, Bool.and_eq_true, decide_eq_true_eq,
    Bool.not_eq_true', Option.isNone_iff_eq_none] at found
  obtain ⟨spec, isInt, -, ⟨⟨⟨⟨fresh, least⟩, greatest⟩, four⟩, last⟩, six⟩ := found
  have exactly {n : Number} {x : Int} (read : n.toInt? = some x) (low : -128 ≤ x)
      (high : x ≤ 127) : Interval.lookup spec.validRanges n none = true ↔
        spec.Permits (schemaOf []) validBytes x := by
    have small : Literal.leastSigned ≤ -128 := by decide
    have large : (127 : Int) ≤ Literal.greatestUnsigned := by decide
    exact (declared_validity_exact built isInt fresh read (by omega) (by omega)).2.2
      (Or.inr (by omega))
  refine ⟨f, spec, built, isInt, (exactly rfl (by decide) (by decide)).mp four,
    (exactly rfl (by decide) (by decide)).mp last, ?_⟩
  rw [← exactly (n := .signed 6) rfl (by decide) (by decide), six]
  exact Bool.false_ne_true

def deepInteger : Node :=
  ⟨"int", [("name", "A"), ("type", "int64"), ("serOffset", "1")], [], "", 1⟩

def aboveWords : Node :=
  ⟨"float", [("name", "F"), ("type", "double"), ("defaultValue", "18446744073709551616")], [], "", 1⟩

def highInteger : Node :=
  ⟨"int", [("name", "A"), ("type", "uint64"), ("serOffset", "-10"), ("validValue", "F")], [], "", 1⟩

/-- The one integer declares no valid values, and -1 is in its range and not valid. The other one
declares a single value, and another one is valid. -/
theorem bounds_beyond_words_misread :
    (∃ f spec, (buildWithin (schemaOf []) 2 "int" deepInteger ⟨.ns, Window.always⟩).outcome = .ok f ∧
      f.payload = .int spec ∧ f.profile.reusedFrom = none ∧
      (spec.least ≤ -1 ∧ -1 ≤ spec.greatest) ∧ spec.Permits (schemaOf []) deepInteger (-1) ∧
      Interval.lookup spec.validRanges (.signed (-1)) none = false) ∧
    ∃ f spec, (buildWithin (schemaOf [aboveWords]) 2 "int" highInteger
        ⟨.ns, Window.always⟩).outcome = .ok f ∧
      f.payload = .int spec ∧ f.profile.reusedFrom = none ∧
      (spec.least ≤ Literal.greatestUnsigned ∧ Literal.greatestUnsigned ≤ spec.greatest) ∧
      ¬spec.Permits (schemaOf [aboveWords]) highInteger Literal.greatestUnsigned ∧
      Interval.lookup spec.validRanges (.unsigned Literal.greatestUnsigned) none = true := by
  constructor
  · obtain ⟨f, built, found⟩ := except_any (show
      ((buildWithin (schemaOf []) 2 "int" deepInteger ⟨.ns, Window.always⟩).outcome.toOption.any
        fun f => f.payload.int?.any fun ⟨spec, _⟩ => f.profile.reusedFrom.isNone &&
          (spec.least ≤ -1 && -1 ≤ spec.greatest) &&
          !Interval.lookup spec.validRanges (.signed (-1)) none) = true by decide +kernel)
    simp only [Option.any_eq_true, Subtype.exists, Bool.and_eq_true, decide_eq_true_eq,
      Bool.not_eq_true', Option.isNone_iff_eq_none] at found
    obtain ⟨spec, isInt, -, ⟨fresh, inRange⟩, valid⟩ := found
    refine ⟨f, spec, built, isInt, fresh, inRange, Or.inl ?_, valid⟩
    intro property raw declares
    obtain ⟨given, valid⟩ := Node.declares_of_leaf rfl declares
    have others : ∀ entry ∈ deepInteger.attributes,
        entry.1 ∉ validProperties ∧ entry.1 ≠ "defaultValidValue" := by decide
    exact valid.elim (others _ given).1 (others _ given).2
  · obtain ⟨f, built, found⟩ := except_any (show
      ((buildWithin (schemaOf [aboveWords]) 2 "int" highInteger
        ⟨.ns, Window.always⟩).outcome.toOption.any fun f => f.payload.int?.any fun ⟨spec, _⟩ =>
          f.profile.reusedFrom.isNone &&
          (spec.least ≤ Literal.greatestUnsigned && Literal.greatestUnsigned ≤ spec.greatest) &&
          Interval.lookup spec.validRanges (.unsigned Literal.greatestUnsigned) none &&
          spec.declaredBounds? (schemaOf [aboveWords]) "validValue" "F" ==
            some (18446744073709551616, 18446744073709551616)) = true by decide +kernel)
    simp only [Option.any_eq_true, Subtype.exists, Bool.and_eq_true, decide_eq_true_eq,
      beq_iff_eq, Option.isNone_iff_eq_none] at found
    obtain ⟨spec, isInt, -, ⟨⟨fresh, inRange⟩, valid⟩, bounds⟩ := found
    refine ⟨f, spec, built, isInt, fresh, inRange, ?_, valid⟩
    have only {property raw : String}
        (declares : highInteger.DeclaresValid (schemaOf [aboveWords]).context property raw) :
        property = "validValue" ∧ raw = "F" := by
      obtain ⟨given, valid⟩ := Node.declares_of_leaf rfl declares
      have others : ∀ entry ∈ highInteger.attributes,
          entry.1 ∈ validProperties ∨ entry.1 = "defaultValidValue" → entry = ("validValue", "F") := by
        decide
      cases others _ given valid
      exact ⟨rfl, rfl⟩
    rintro (nothing | ⟨property, raw, low, high, declares, means, between⟩)
    · exact nothing "validValue" "F" (.ofAttribute (by decide) (by decide))
    · obtain ⟨rfl, rfl⟩ := only declares
      cases bounds.symm.trans means
      exact absurd between (by unfold Between; decide)

end Field

end WireSchema
