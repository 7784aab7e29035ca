import WireSchema.Proofs.Names
import WireSchema.Proofs.Origins

/-!
What integers and enumerations have once they are read over a copy of another one, or over nothing:
the range of their storage, the named values of the start with the declared ones behind them, a
default, and the intervals of valid values.
-/

namespace WireSchema

open Markup (Node)

namespace Declaration

variable {α : Type}

theorem inner_name_ok {d : Declaration} {elem : Node} {name : String}
    (done : d.innerName elem = .ok name) : Name.isIdentifier name = true := by
  simp only [innerName, except_bind_ok] at done
  obtain ⟨own, -, rest⟩ := done
  split at rest
  · rename_i identifier
    cases rest
    exact identifier
  · cases rest

theorem read_named_ok {d : Declaration} {profile : Profile} {entry : String}
    {known : List (NamedValue α)} {read : String → Option α}
    {check : String → α → Except Error Unit} {elem : Node} {named : NamedValue α}
    (done : d.readNamed profile entry known read check elem = .ok named) :
    check named.name named.value = .ok () ∧ Name.IsNew (known.map NamedValue.name) named.name := by
  simp only [readNamed, except_bind_ok] at done
  obtain ⟨name, ofName, rest⟩ := done
  split at rest
  · cases rest
  · rename_i new
    simp only [except_bind_ok, Except.ok.injEq] at rest
    obtain ⟨_, -, value, -, _, checked, _, -, rfl⟩ := rest
    exact ⟨checked, inner_name_ok ofName, by simpa using new⟩

theorem accept_ok {d : Declaration} {name raw : String} {read : Option α} {value : α}
    (accepted : d.accept name raw read = .ok value) : read = some value := by
  cases read with
  | none => nomatch accepted
  | some a =>
      cases accepted
      rfl

theorem prop_as_ok {d : Declaration} {name : String} {read : String → Option α} {value : α}
    (done : d.propAs name read = .ok (some value)) : ∃ raw, read raw = some value := by
  simp only [propAs, except_bind_ok] at done
  obtain ⟨declared, -, rest⟩ := done
  cases declared with
  | none => nomatch rest
  | some raw =>
      obtain ⟨a, accepted, same⟩ := except_map_ok.mp rest
      cases same
      exact ⟨raw, accept_ok accepted⟩

theorem read_default_ok {d : Declaration} {read : String → String → Except Error α}
    {current value : α} (done : d.readDefault read current = .ok value) :
    value = current ∨ ∃ raw, read "defaultValue" raw = .ok value := by
  simp only [readDefault, except_bind_ok] at done
  obtain ⟨declared, -, rest⟩ := done
  cases declared with
  | none =>
      cases rest
      exact Or.inl rfl
  | some raw => exact Or.inr ⟨raw, rest⟩

theorem read_default_valid_ok {d : Declaration} {read : String → String → Except Error α}
    {value : α} (done : (d.readDefaultValid read).outcome = .ok (some value)) :
    ∃ raw, read "defaultValidValue" raw = .ok value := by
  simp only [readDefaultValid, Build.bind_ok] at done
  obtain ⟨gate, -, rest⟩ := done
  split at rest
  · simp only [Build.bind_ok, Build.lift_outcome, Build.pure_outcome, Except.ok.injEq,
      Option.some.injEq] at rest
    obtain ⟨raw, -, _, read, rfl⟩ := rest
    exact ⟨raw, read⟩
  · nomatch rest

theorem read_bounds_ok {d : Declaration} {whole bounds : α × α} {bound : String → Except Error α}
    {property raw : String} (done : d.readBounds whole bound property raw = .ok bounds) :
    (bounds.1 = whole.1 ∨ ∃ s, bound s = .ok bounds.1) ∧
      (bounds.2 = whole.2 ∨ ∃ s, bound s = .ok bounds.2) := by
  unfold readBounds at done
  split at done
  · simp only [except_bind_ok, Except.ok.injEq] at done
    obtain ⟨⟨low, high⟩, -, least, ofLow, greatest, ofHigh, rfl⟩ := done
    exact ⟨Or.inr ⟨low, ofLow⟩, Or.inr ⟨high, ofHigh⟩⟩
  · simp only [except_bind_ok, Except.ok.injEq] at done
    obtain ⟨value, ofRaw, rfl⟩ := done
    exact ⟨Or.inr ⟨raw, ofRaw⟩, Or.inr ⟨raw, ofRaw⟩⟩
  · simp only [except_bind_ok, Except.ok.injEq] at done
    obtain ⟨value, ofRaw, rfl⟩ := done
    exact ⟨Or.inr ⟨raw, ofRaw⟩, Or.inl rfl⟩
  · simp only [except_bind_ok, Except.ok.injEq] at done
    obtain ⟨value, ofRaw, rfl⟩ := done
    exact ⟨Or.inl rfl, Or.inr ⟨raw, ofRaw⟩⟩

def Declares (read : String → String → Except Error Interval) (i : Interval) : Prop :=
  ∃ property raw own, read property raw = .ok own ∧ i.min = own.min ∧ i.max = own.max

/-- The intervals are those that reading gives of what is said, one for each declaration, in whatever
windows. -/
structure Tell (read : String → String → Except Error Interval) (said : String → String → Prop)
    (ranges : List Interval) : Prop where
  sound : ∀ i ∈ ranges, ∃ property raw own, said property raw ∧ read property raw = .ok own ∧
    i.min = own.min ∧ i.max = own.max
  complete : ∀ property raw, said property raw → ∃ own, read property raw = .ok own ∧
    ∃ i ∈ ranges, i.min = own.min ∧ i.max = own.max

section Tell

variable {read : String → String → Except Error Interval} {said other : String → String → Prop}
  {ranges more : List Interval}

theorem tell_each {ι : Type} {reading : ι → Except Error Interval} {items : List ι}
    (done : items.mapM reading = .ok ranges)
    (sound : ∀ item ∈ items, ∀ i, reading item = .ok i → ∃ property raw own, said property raw ∧
      read property raw = .ok own ∧ i.min = own.min ∧ i.max = own.max)
    (complete : ∀ property raw, said property raw → ∃ item ∈ items, ∀ i, reading item = .ok i →
      ∃ own, read property raw = .ok own ∧ i.min = own.min ∧ i.max = own.max) :
    Tell read said ranges := by
  obtain ⟨ofResult, ofInput⟩ := except_each_ok done
  constructor
  · intro i member
    obtain ⟨item, listed, reads⟩ := ofResult i member
    exact sound item listed i reads
  · intro property raw isSaid
    obtain ⟨item, listed, told⟩ := complete property raw isSaid
    obtain ⟨i, member, reads⟩ := ofInput item listed
    obtain ⟨own, ofOwn, same⟩ := told i reads
    exact ⟨own, ofOwn, i, member, same⟩

theorem tell_congr (tells : Tell read said ranges)
    (same : ∀ property raw, other property raw ↔ said property raw) : Tell read other ranges := by
  constructor
  · intro i member
    obtain ⟨property, raw, own, isSaid, reads⟩ := tells.sound i member
    exact ⟨property, raw, own, (same _ _).mpr isSaid, reads⟩
  · intro property raw isSaid
    exact tells.complete _ _ ((same _ _).mp isSaid)

theorem tell_append (tells : Tell read said ranges) (tellsMore : Tell read other more) :
    Tell read (fun property raw => said property raw ∨ other property raw) (ranges ++ more) := by
  constructor
  · intro i member
    rcases List.mem_append.mp member with first | second
    · obtain ⟨property, raw, own, isSaid, reads⟩ := tells.sound i first
      exact ⟨property, raw, own, Or.inl isSaid, reads⟩
    · obtain ⟨property, raw, own, isSaid, reads⟩ := tellsMore.sound i second
      exact ⟨property, raw, own, Or.inr isSaid, reads⟩
  · rintro property raw (isSaid | isSaid)
    · obtain ⟨own, reads, i, member, same⟩ := tells.complete property raw isSaid
      exact ⟨own, reads, i, List.mem_append_left _ member, same⟩
    · obtain ⟨own, reads, i, member, same⟩ := tellsMore.complete property raw isSaid
      exact ⟨own, reads, i, List.mem_append_right _ member, same⟩

theorem attribute_ranges_tell {attributes : List (String × String)}
    (done : attributeRanges read attributes = .ok ranges) :
    Tell read (fun property raw => property ∈ validProperties ∧ (property, raw) ∈ attributes)
      ranges := by
  refine tell_each done ?_ ?_
  · intro entry listed i reads
    obtain ⟨member, valid⟩ := List.mem_filter.mp listed
    exact ⟨entry.1, entry.2, i, ⟨List.contains_iff_mem.mp valid, member⟩, reads, rfl, rfl⟩
  · rintro property raw ⟨valid, member⟩
    exact ⟨_, List.mem_filter.mpr ⟨member, List.contains_iff_mem.mpr valid⟩,
      fun i reads => ⟨i, reads, rfl, rfl⟩⟩

theorem element_ranges_tell {d : Declaration} {profile : Profile} {nodes : List Node}
    (done : d.elementRanges profile read nodes = .ok ranges) :
    Tell read (fun property raw => property ∈ validProperties ∧
      ∃ child ∈ nodes, child.name = property ∧ child.value = .ok raw) ranges := by
  refine tell_each done ?_ ?_
  · intro elem listed i reads
    obtain ⟨member, valid⟩ := List.mem_filter.mp listed
    simp only [except_bind_ok, Except.ok.injEq] at reads
    obtain ⟨raw, ofElem, window, -, own, ofOwn, rfl⟩ := reads
    exact ⟨elem.name, raw, own, ⟨List.contains_iff_mem.mp valid, elem, member, rfl, ofElem⟩, ofOwn,
      rfl, rfl⟩
  · rintro _ raw ⟨valid, elem, member, rfl, ofElem⟩
    refine ⟨elem, List.mem_filter.mpr ⟨member, List.contains_iff_mem.mpr valid⟩, ?_⟩
    intro i reads
    simp only [ofElem, except_bind_ok, Except.ok.injEq, exists_eq_left'] at reads
    obtain ⟨window, -, own, ofOwn, rfl⟩ := reads
    exact ⟨own, ofOwn, rfl, rfl⟩

/-- Valid values are declared by attributes and by child elements. -/
theorem declared_ranges_tell {d : Declaration} {profile : Profile}
    (done : d.declaredRanges profile read = .ok ranges) :
    Tell read (fun property raw => property ∈ validProperties ∧
      ((property, raw) ∈ d.node.attributes ∨
        ∃ child ∈ d.node.children, child.name = property ∧ child.value = .ok raw)) ranges := by
  simp only [declaredRanges, except_bind_ok, Except.ok.injEq] at done
  obtain ⟨attributes, ofAttributes, elements, ofElements, rfl⟩ := done
  refine tell_congr
    (tell_append (attribute_ranges_tell ofAttributes) (element_ranges_tell ofElements)) ?_
  intro property raw
  exact and_or_left

theorem declared_ranges_ok {d : Declaration} {profile : Profile}
    (done : d.declaredRanges profile read = .ok ranges) : ∀ i ∈ ranges, Declares read i := by
  intro i member
  obtain ⟨property, raw, own, -, reads⟩ := (declared_ranges_tell done).sound i member
  exact ⟨property, raw, own, reads⟩

end Tell

end Declaration

/-- Reading elements one after another, each of which puts one more value behind the others, puts a
list of them there. -/
theorem fold_appends {β : Type} {step : List β → Node → Except Error (List β)} {good : β → Prop}
    (once : ∀ known node later, step known node = .ok later → ∃ b, later = known ++ [b] ∧ good b)
    {nodes : List Node} {start later : List β} (done : nodes.foldlM step start = .ok later) :
    ∃ added, later = start ++ added ∧ ∀ b ∈ added, good b := by
  induction nodes generalizing start with
  | nil =>
      cases done
      exact ⟨[], (List.append_nil _).symm, fun b member => absurd member List.not_mem_nil⟩
  | cons node rest ih =>
      rw [List.foldlM_cons, except_bind_ok] at done
      obtain ⟨next, ofNode, ofRest⟩ := done
      obtain ⟨first, rfl, goodFirst⟩ := once start node next ofNode
      obtain ⟨added, rfl, goodRest⟩ := ih ofRest
      exact ⟨first :: added, List.append_assoc _ _ _,
        List.forall_mem_cons.mpr ⟨goodFirst, goodRest⟩⟩

/-- What reading one item keeps, reading all of them keeps. -/
theorem fold_keeps {σ ε ι : Type} {step : σ → ι → Except ε σ} (holds : σ → Prop)
    (once : ∀ s item later, holds s → step s item = .ok later → holds later)
    {items : List ι} {start later : σ} (atStart : holds start)
    (done : items.foldlM step start = .ok later) : holds later := by
  induction items generalizing start with
  | nil =>
      cases done
      exact atStart
  | cons item rest ih =>
      rw [List.foldlM_cons, except_bind_ok] at done
      obtain ⟨next, ofItem, ofRest⟩ := done
      exact ih (once start item next atStart ofItem) ofRest

namespace Declaration

section Named

variable {α : Type} {d : Declaration} {profile : Profile} {entry tag : String}
  {read : List (NamedValue α) → String → Option α}
  {check : List (NamedValue α) → String → α → Except Error Unit} {start later : List (NamedValue α)}

theorem read_named_values_ok (good : α → Prop)
    (checked : ∀ known name value, check known name value = .ok () → good value)
    (done : d.readNamedValues profile entry tag read check start = .ok later) :
    ∃ own, later = start ++ own ∧ ∀ v ∈ own, good v.value := by
  refine fold_appends ?_ done
  intro known elem later ofElement
  simp only [except_bind_ok, Except.ok.injEq] at ofElement
  obtain ⟨v, named, rfl⟩ := ofElement
  exact ⟨v, rfl, checked known v.name v.value (read_named_ok named).1⟩

theorem unless_fails {a : α} {holds : Bool} {fault : Fault} {rest : Except Error α}
    (done : (if !holds then d.fail fault else rest) = .ok a) : holds = true := by
  cases holds with
  | true => rfl
  | false => nomatch done

end Named

end Declaration

theorem Literal.signed_bounds {raw : String} {value : Int} (read : Literal.signed? raw = some value) :
    Literal.leastSigned ≤ value ∧ value ≤ Literal.greatestSigned := by
  simp only [signed?, within, Option.filter_eq_some_iff, decide_eq_true_eq] at read
  exact read.2

namespace IntType

/-- Every storage has room for zero. -/
theorem range_holds_zero (type : IntType) (length bitLength : Nat) :
    (type.range length bitLength).1 ≤ 0 ∧ 0 ≤ (type.range length bitLength).2 := by
  have positive (n : Nat) : 0 < Nat.pow 2 n := Nat.pow_pos (by decide)
  simp only [range]
  split
  · have := positive (max 1 (min (if bitLength ≠ 0 then bitLength
      else if type.isVariable = true then length * 7 else length * 8) 64))
    simp only
    omega
  · have := positive (max 1 (min (if bitLength ≠ 0 then bitLength
      else if type.isVariable = true then length * 7 else length * 8) 64) - 1)
    simp only
    omega

theorem max_length_positive (type : IntType) : type.maxLength ≠ 0 := by
  cases type <;> decide

end IntType

namespace Declaration

/-- A length in bytes is declared and fits the type, stays as it was, or is that of the type. -/
theorem read_length_cases {d : Declaration} {type : IntType} {current length : Nat}
    (done : d.readLength type current = .ok length) :
    (d.natProp "length" = .ok (some length) ∧ length ≠ 0 ∧ length ≤ type.maxLength) ∨
      (d.reused = true ∧ length = current ∧ current ≠ 0) ∨ length = type.maxLength := by
  simp only [readLength, except_bind_ok] at done
  obtain ⟨declared, given, rest⟩ := done
  cases declared with
  | none =>
      simp only at rest
      cases rest
      split
      · rename_i kept
        rw [Bool.and_eq_true, bne_iff_ne] at kept
        exact Or.inr (Or.inl ⟨kept.1, rfl, kept.2⟩)
      · exact Or.inr (Or.inr rfl)
  | some own =>
      simp only at rest
      split at rest
      · cases rest
      · cases rest
        exact Or.inl ⟨given, by omega, by omega⟩

theorem read_length_positive {d : Declaration} {type : IntType} {current length : Nat}
    (done : d.readLength type current = .ok length) : length ≠ 0 := by
  rcases read_length_cases done with ⟨-, positive, -⟩ | ⟨-, rfl, positive⟩ | rfl
  · exact positive
  · exact positive
  · exact type.max_length_positive

theorem read_bit_length_outside {d : Declaration} {isVariable : Bool} {length current bits : Nat}
    (outside : d.parent.isBitfield = false)
    (done : (d.readBitLength isVariable length current).outcome = .ok bits) : bits = 0 := by
  rw [readBitLength, outside] at done
  simp only [Bool.not_false, if_true] at done
  split at done <;>
    · simp only [Build.bind_ok, Build.pure_outcome, Except.ok.injEq] at done
      obtain ⟨_, -, rfl⟩ := done
      rfl

theorem read_storage_ok {d : Declaration} {s later : Storage} {type : IntType}
    (done : (d.readStorage s).outcome = .ok (type, later)) :
    later.type = some type ∧ later.length ≠ 0 ∧
      (d.parent.isBitfield = false → later.bitLength = 0) := by
  simp only [readStorage, Build.bind_ok, Build.lift_outcome, Build.pure_outcome, Except.ok.injEq,
    Prod.mk.injEq] at done
  obtain ⟨_, -, _, -, length, ofLength, bitLength, ofBits, rfl, rfl⟩ := done
  exact ⟨rfl, read_length_positive ofLength, fun outside => read_bit_length_outside outside ofBits⟩

end Declaration

namespace IntSpec

def whole (spec : IntSpec) : Interval :=
  ⟨Number.ofInt spec.least, Number.ofInt spec.greatest, Window.always⟩

def Accepts (spec : IntSpec) (n : Int) : Prop :=
  spec.holds n = true ∨ ∃ s ∈ spec.specials, s.value = n

structure Settled (type : IntType) (spec : IntSpec) : Prop where
  typed : spec.storage.type = some type
  sized : spec.storage.length ≠ 0
  least : spec.least =
    (type.range spec.storage.length spec.storage.bitLength).1 - spec.serOffset
  greatest : spec.greatest =
    (type.range spec.storage.length spec.storage.bitLength).2 - spec.serOffset
  merged : spec.validRanges = Interval.merge ⟨.integral, spec.validCheckVersion⟩
    (if spec.declaredRanges.isEmpty then [spec.whole] else spec.declaredRanges)

structure ReadOver (start : IntSpec) (specials : List (NamedValue Int)) (ranges : List Interval)
    (spec : IntSpec) : Prop where
  named : spec.specials = start.specials ++ specials
  fitting : ∀ s ∈ specials, spec.holds s.value = true
  default : spec.Accepts spec.defaultValue
  declared : spec.declaredRanges = start.declaredRanges ++ ranges
  bounded : ∀ i ∈ ranges, ∃ low high, i.min = Number.ofInt low ∧ i.max = Number.ofInt high ∧
    spec.Accepts low ∧ spec.Accepts high
  offset : spec.serOffset = start.serOffset ∨ Literal.leastSigned ≤ spec.serOffset

theorem holds_iff {spec : IntSpec} {n : Int} :
    spec.holds n = true ↔ spec.least ≤ n ∧ n ≤ spec.greatest := by
  simp [holds]

theorem settled_ordered {type : IntType} {spec : IntSpec} (settled : spec.Settled type) :
    spec.least ≤ spec.greatest := by
  have zero := type.range_holds_zero spec.storage.length spec.storage.bitLength
  rw [settled.least, settled.greatest]
  omega

theorem read_specials_ok {d : Declaration} {profile : Profile} {spec later : IntSpec}
    (done : readSpecials d profile spec = .ok later) :
    ∃ own, later = { spec with specials := spec.specials ++ own } ∧
      ∀ s ∈ own, spec.holds s.value = true := by
  simp only [readSpecials, except_bind_ok, Except.ok.injEq] at done
  obtain ⟨specials, ofSpecials, rfl⟩ := done
  obtain ⟨own, rfl, fitting⟩ := Declaration.read_named_values_ok (spec.holds · = true)
    (fun _ _ _ checked => Declaration.unless_fails checked) ofSpecials
  exact ⟨own, rfl, fitting⟩

theorem value_of_special {spec : IntSpec} {env : Environment} {raw : String} {value : Int}
    (read : spec.valueOf? env raw = some value) (named : (spec.special? raw).isSome = true) :
    ∃ s ∈ spec.specials, s.value = value := by
  obtain ⟨s, found⟩ := Option.isSome_iff_exists.mp named
  simp only [valueOf?, read?, found, Option.some_or, Option.some.injEq] at read
  exact ⟨s, List.mem_of_find?_eq_some found, read⟩

theorem read_default_accepts {d : Declaration} {spec : IntSpec} {property raw : String} {value : Int}
    (done : spec.readDefault d property raw = .ok value) : spec.Accepts value := by
  simp only [readDefault, except_bind_ok] at done
  obtain ⟨_, accepted, rest⟩ := done
  split at rest
  · nomatch rest
  · rename_i fits
    cases rest
    simp only [Bool.and_eq_true, Option.isNone_iff_eq_none, Bool.not_eq_true'] at fits
    by_cases holds : spec.holds value = true
    · exact Or.inl holds
    · refine Or.inr (value_of_special (Declaration.accept_ok accepted) ?_)
      rw [Option.isSome_iff_ne_none]
      intro none
      exact fits ⟨none, Bool.not_eq_true _ ▸ holds⟩

theorem read_bound_ok {d : Declaration} {spec : IntSpec} {property whole raw : String} {value : Int}
    (done : spec.readBound d property whole raw = .ok value) :
    spec.valueOf? d.env raw = some value ∧ spec.holds value = true := by
  simp only [readBound, except_bind_ok] at done
  obtain ⟨_, accepted, rest⟩ := done
  split at rest
  · rename_i holds
    cases rest
    exact ⟨Declaration.accept_ok accepted, holds⟩
  · nomatch rest

theorem read_interval_ok {d : Declaration} {spec : IntSpec} {property raw : String} {i : Interval}
    (ordered : spec.least ≤ spec.greatest) (done : spec.readInterval d property raw = .ok i) :
    ∃ low high, i.min = Number.ofInt low ∧ i.max = Number.ofInt high ∧
      spec.holds low = true ∧ spec.holds high = true := by
  simp only [readInterval, except_bind_ok, Except.ok.injEq] at done
  obtain ⟨bounds, read, rfl⟩ := done
  obtain ⟨low, high⟩ := Declaration.read_bounds_ok read
  refine ⟨bounds.1, bounds.2, rfl, rfl, ?_, ?_⟩
  · rcases low with atEnd | ⟨s, ofText⟩
    · rw [atEnd, holds_iff]
      exact ⟨Int.le_refl _, ordered⟩
    · exact (read_bound_ok ofText).2
  · rcases high with atEnd | ⟨s, ofText⟩
    · rw [atEnd, holds_iff]
      exact ⟨ordered, Int.le_refl _⟩
    · exact (read_bound_ok ofText).2

/-- The declared intervals go behind those that were there, and a default among the valid values
comes last. -/
theorem read_valid_ranges_ok {d : Declaration} {profile : Profile} {spec later : IntSpec}
    (done : (readValidRanges d profile spec).outcome = .ok later)
    (ordered : spec.least ≤ spec.greatest) (default : spec.Accepts spec.defaultValue) :
    ∃ ranges value, later = { spec with
        defaultValue := value
        declaredRanges := spec.declaredRanges ++ ranges
        validRanges := Interval.merge ⟨.integral, spec.validCheckVersion⟩
          (if (spec.declaredRanges ++ ranges).isEmpty then [spec.whole]
            else spec.declaredRanges ++ ranges) } ∧
      spec.Accepts value ∧
      ∀ i ∈ ranges, ∃ low high, i.min = Number.ofInt low ∧ i.max = Number.ofInt high ∧
        spec.Accepts low ∧ spec.Accepts high := by
  simp only [readValidRanges, Build.bind_ok, Build.lift_outcome, Build.pure_outcome,
    Except.ok.injEq] at done
  obtain ⟨declared, ofDeclared, default?, ofDefault, rfl⟩ := done
  have eachDeclared : ∀ i ∈ declared, ∃ low high, i.min = Number.ofInt low ∧
      i.max = Number.ofInt high ∧ spec.Accepts low ∧ spec.Accepts high := by
    intro i member
    obtain ⟨property, raw, own, read, sameMin, sameMax⟩ :=
      Declaration.declared_ranges_ok ofDeclared i member
    obtain ⟨low, high, atMin, atMax, holdsLow, holdsHigh⟩ := read_interval_ok ordered read
    exact ⟨low, high, sameMin.trans atMin, sameMax.trans atMax, Or.inl holdsLow, Or.inl holdsHigh⟩
  cases default? with
  | none =>
      refine ⟨declared, spec.defaultValue, ?_, default, eachDeclared⟩
      simp [whole]
  | some value =>
      obtain ⟨raw, read⟩ := Declaration.read_default_valid_ok ofDefault
      have accepted := read_default_accepts read
      refine ⟨declared ++ [Interval.point (Number.ofInt value)], value, ?_, accepted, ?_⟩
      · simp
      · intro i member
        rcases List.mem_append.mp member with old | new
        · exact eachDeclared i old
        · cases List.mem_singleton.mp new
          exact ⟨value, value, rfl, rfl, accepted, accepted⟩

theorem with_range_holds_default (spec : IntSpec) (type : IntType) :
    (withRange spec type).holds (withRange spec type).defaultValue = true := by
  have zero := type.range_holds_zero spec.storage.length spec.storage.bitLength
  rw [holds_iff]
  simp only [withRange]
  split <;> omega

theorem read_ok {d : Declaration} {profile : Profile} {start spec : IntSpec}
    (done : (read d profile start).outcome = .ok spec) :
    ∃ type specials ranges, spec.Settled type ∧ start.ReadOver specials ranges spec ∧
      (d.readStorage start.storage).outcome = .ok (type, spec.storage) := by
  simp only [read, Build.bind_ok, Build.lift_outcome, Build.pure_outcome, Except.ok.injEq] at done
  obtain ⟨⟨type, storage⟩, ofStorage, scaling, -, offset, ofOffset, _, -, named, ofNamed, default,
    ofDefault, _, -, ranged, ofRanges, _, -, _, -, _, -, _, -, _, -, _, -, _, -, rfl⟩ := done
  obtain ⟨typed, sized, -⟩ := Declaration.read_storage_ok ofStorage
  have zero := type.range_holds_zero storage.length storage.bitLength
  have inRange := with_range_holds_default
    { start with storage, scaling, serOffset := offset.getD start.serOffset } type
  -- From here on only the range and the lists of the start count.
  generalize isBase : withRange { start with
    storage, scaling, serOffset := offset.getD start.serOffset } type = base at ofNamed inRange
  obtain ⟨specials, isNamed, fitting⟩ := read_specials_ok ofNamed
  have ofNamed : named.storage = storage ∧ named.serOffset = offset.getD start.serOffset ∧
      named.least = (type.range storage.length storage.bitLength).1 - named.serOffset ∧
      named.greatest = (type.range storage.length storage.bitLength).2 - named.serOffset ∧
      named.specials = start.specials ++ specials ∧
      named.declaredRanges = start.declaredRanges ∧
      named.holds named.defaultValue = true ∧ ∀ s ∈ specials, named.holds s.value = true := by
    subst isNamed isBase
    exact ⟨rfl, rfl, rfl, rfl, rfl, rfl, inRange, fitting⟩
  clear isNamed isBase
  obtain ⟨rfl, moved, least, greatest, keptSpecials, keptRanges, holdsDefault, fitting⟩ := ofNamed
  have ordered : named.least ≤ named.greatest := by omega
  have accepts : named.Accepts default := by
    rcases Declaration.read_default_ok ofDefault with kept | ⟨raw, read⟩
    · exact Or.inl (kept ▸ holdsDefault)
    · exact read_default_accepts read
  obtain ⟨ranges, value, rfl, accepted, bounded⟩ := read_valid_ranges_ok ofRanges ordered accepts
  refine ⟨type, specials, ranges, ⟨typed, sized, least, greatest, rfl⟩,
    ⟨keptSpecials, fitting, accepted, ?_, bounded, ?_⟩, ofStorage⟩
  · exact congrArg (· ++ ranges) keptRanges
  · cases offset with
    | none => exact Or.inl moved
    | some own =>
        obtain ⟨raw, read⟩ := Declaration.prop_as_ok ofOffset
        have bounds := Literal.signed_bounds read
        exact Or.inr (by simp only [moved, Option.getD_some]; omega)

end IntSpec

namespace EnumSpec

structure Settled (type : IntType) (spec : EnumSpec) : Prop where
  typed : spec.storage.type = some type
  sized : spec.storage.length ≠ 0
  least : spec.least = (type.range spec.storage.length spec.storage.bitLength).1
  greatest : spec.greatest = (type.range spec.storage.length spec.storage.bitLength).2
  merged : spec.validRanges = Interval.merge ⟨.integral, spec.validCheckVersion⟩ spec.points

structure ReadOver (start : EnumSpec) (values : List (NamedValue Int)) (spec : EnumSpec) :
    Prop where
  named : spec.values = start.values ++ values
  fitting : ∀ v ∈ values, spec.holds v.value = true
  default : spec.defaultValue = start.defaultValue ∨ spec.holds spec.defaultValue = true

theorem holds_iff {spec : EnumSpec} {n : Int} :
    spec.holds n = true ↔ spec.least ≤ n ∧ n ≤ spec.greatest := by
  simp [holds]

theorem settled_holds_zero {type : IntType} {spec : EnumSpec} (settled : spec.Settled type) :
    spec.holds 0 = true := by
  rw [holds_iff, settled.least, settled.greatest]
  exact type.range_holds_zero _ _

theorem read_values_ok {d : Declaration} {profile : Profile} {spec later : EnumSpec}
    (done : readValues d profile spec = .ok later) :
    ∃ own, later = { spec with values := spec.values ++ own } ∧
      ∀ v ∈ own, spec.holds v.value = true := by
  simp only [readValues, except_bind_ok, Except.ok.injEq] at done
  obtain ⟨values, ofValues, rfl⟩ := done
  obtain ⟨own, rfl, fitting⟩ := Declaration.read_named_values_ok (spec.holds · = true)
    (fun _ _ _ checked => Declaration.unless_fails checked) ofValues
  exact ⟨own, rfl, fitting⟩

theorem read_default_holds {d : Declaration} {spec : EnumSpec} {property raw : String} {value : Int}
    (done : spec.readDefault d property raw = .ok value) : spec.holds value = true := by
  simp only [readDefault, except_bind_ok] at done
  obtain ⟨_, -, rest⟩ := done
  split at rest
  · rename_i holds
    cases rest
    exact holds
  · nomatch rest

theorem read_ok {d : Declaration} {profile : Profile} {start spec : EnumSpec}
    (done : (read d profile start).outcome = .ok spec) :
    ∃ type values, spec.Settled type ∧ start.ReadOver values spec ∧
      (d.readStorage start.storage).outcome = .ok (type, spec.storage) := by
  simp only [read, Build.bind_ok, Build.lift_outcome] at done
  obtain ⟨⟨type, storage⟩, ofStorage, _, -, _, -, named, ofNamed, rest⟩ := done
  obtain ⟨typed, sized, -⟩ := Declaration.read_storage_ok ofStorage
  obtain ⟨values, rfl, fitting⟩ := read_values_ok ofNamed
  split at rest
  · nomatch rest
  · simp only [Build.bind_ok, Build.lift_outcome, Build.pure_outcome, Except.ok.injEq] at rest
    obtain ⟨default, ofDefault, _, -, _, -, rfl⟩ := rest
    refine ⟨type, values, ⟨typed, sized, rfl, rfl, rfl⟩, ⟨rfl, fitting, ?_⟩, ofStorage⟩
    rcases Declaration.read_default_ok ofDefault with kept | ⟨raw, read⟩
    · exact Or.inl kept
    · exact Or.inr (read_default_holds read)

end EnumSpec

namespace SetSpec

/-- How a set comes by its type and length: with a type of its own, and else with a length of its own,
that of the start, or as many bytes as its bits take. -/
inductive Sizes (d : Declaration) (s : Storage) : Option IntType → Nat → Prop where
  | typed {type : IntType} {length : Nat} (given : d.has "type" = true)
      (ofType : d.readIntType s.type (fun type => type.isUnsigned && !type.isVariable) = .ok type)
      (ofLength : d.readLength type (if s.type = some type then s.length else 0) = .ok length) :
      Sizes d s (some type) length
  | declared {length : Nat} (given : d.natProp "length" = .ok (some length))
      (fits : 1 ≤ length ∧ length ≤ 8) : Sizes d s s.type length
  | kept (filled : s.length ≠ 0) : Sizes d s s.type s.length
  | counted {bits : Nat} (empty : s.length = 0) (inside : d.parent.isBitfield = true)
      (given : d.natProp "bitLength" = .ok (some bits)) :
      Sizes d s s.type (max 1 ((bits + 7) / 8))

theorem read_type_length_sizes {d : Declaration} {s : Storage} {type : Option IntType}
    {length : Nat} (read : readTypeLength d s = .ok (type, length)) : Sizes d s type length := by
  unfold readTypeLength at read
  split at read
  · rename_i given
    simp only [except_bind_ok, Except.ok.injEq, Prod.mk.injEq] at read
    obtain ⟨own, ofType, _, ofLength, rfl, rfl⟩ := read
    exact .typed given ofType ofLength
  · simp only [except_bind_ok, Except.ok.injEq, Prod.mk.injEq] at read
    obtain ⟨_, ofLength, rfl, rfl⟩ := read
    simp only [readUntypedLength, except_bind_ok] at ofLength
    obtain ⟨declared, given, rest⟩ := ofLength
    cases declared with
    | some own =>
        simp only at rest
        split at rest
        · rename_i fits
          cases rest
          exact .declared given fits
        · cases rest
    | none =>
        simp only at rest
        split at rest
        · rename_i filled
          cases rest
          exact .kept filled
        · rename_i empty
          split at rest
          · rename_i inside
            simp only [except_bind_ok] at rest
            obtain ⟨bits, ofBits, rest⟩ := rest
            cases bits with
            | none => cases rest
            | some bits =>
                cases rest
                exact .counted (Decidable.not_not.mp empty) inside ofBits
          · cases rest

theorem read_type_length_positive {d : Declaration} {s : Storage} {type : Option IntType}
    {length : Nat} (read : readTypeLength d s = .ok (type, length)) : length ≠ 0 := by
  cases read_type_length_sizes read with
  | typed _ _ ofLength => exact Declaration.read_length_positive ofLength
  | declared _ fits => omega
  | kept filled => exact filled
  | counted => omega

def Takes (spec : SetSpec) (bit : SetBit) : Prop :=
  bit.index < spec.capacity ∧ (spec.nonUnique = false → ∀ b ∈ spec.bits, b.index ≠ bit.index)

theorem read_bit_ok {d : Declaration} {profile : Profile} {spec later : SetSpec} {elem : Node}
    (done : readBit d profile spec elem = .ok later) :
    ∃ bit, later = { spec with bits := spec.bits ++ [bit] } ∧
      Name.IsNew (spec.bits.map SetBit.name) bit.name ∧ spec.Takes bit := by
  simp only [readBit, except_bind_ok] at done
  obtain ⟨name, ofName, rest⟩ := done
  split at rest
  · cases rest
  · rename_i new
    simp only [except_bind_ok] at rest
    obtain ⟨_, -, index, -, rest⟩ := rest
    split at rest
    · cases rest
    · rename_i room
      split at rest
      · cases rest
      · rename_i unshared
        simp only [except_bind_ok, Except.ok.injEq] at rest
        obtain ⟨_, -, _, -, _, -, _, -, rfl⟩ := rest
        refine ⟨_, rfl, ⟨Declaration.inner_name_ok ofName, by simpa [bit?] using new⟩,
          Nat.lt_of_not_le room, fun unique b member same => ?_⟩
        simp [unique] at unshared
        exact unshared b member same

/-- The bits that are read go behind those that were there. They have room, and indices that were
distinct stay so unless bits may share one. -/
theorem read_bits_ok {d : Declaration} {profile : Profile} {spec later : SetSpec}
    (done : readBits d profile spec = .ok later) :
    ∃ own, later = { spec with bits := spec.bits ++ own } ∧ (∀ b ∈ own, b.index < spec.capacity) ∧
      (spec.nonUnique = false → (spec.bits.map SetBit.index).Nodup →
        (later.bits.map SetBit.index).Nodup) := by
  refine fold_keeps (fun later => ∃ own, later = { spec with bits := spec.bits ++ own } ∧
    (∀ b ∈ own, b.index < spec.capacity) ∧
    (spec.nonUnique = false → (spec.bits.map SetBit.index).Nodup →
      (later.bits.map SetBit.index).Nodup)) ?_ ⟨[], by simp, by simp, fun _ distinct => distinct⟩ done
  rintro _ elem later ⟨own, rfl, room, distinct⟩ read
  obtain ⟨bit, rfl, -, hasRoom, unshared⟩ := read_bit_ok read
  refine ⟨own ++ [bit], by simp, ?_, fun unique nodup => ?_⟩
  · rw [List.forall_mem_append, List.forall_mem_singleton]
    exact ⟨room, hasRoom⟩
  · rw [List.map_append, List.map_singleton, List.nodup_append]
    refine ⟨distinct unique nodup, by simp, ?_⟩
    rw [List.forall_mem_map]
    intro b member index only
    rw [List.mem_singleton.mp only]
    exact unshared unique b member

/-- The storage of a set is read from that of the start, and the bits into it. -/
theorem read_ok {d : Declaration} {profile : Profile} {start spec : SetSpec}
    (done : (read d profile start).outcome = .ok spec) :
    readTypeLength d start.storage = .ok (spec.storage.type, spec.storage.length) ∧
      (d.readBitLength false spec.storage.length start.storage.bitLength).outcome =
        .ok spec.storage.bitLength ∧
      ∃ base, readBits d profile base = .ok spec ∧ base.bits = start.bits := by
  simp only [read, Build.bind_ok, Build.lift_outcome] at done
  obtain ⟨⟨type, length⟩, ofLength, bits, ofBits, _, -, _, -, _, -, _, -, _, -, _, -, named⟩ := done
  obtain ⟨own, appended, -⟩ := read_bits_ok named
  have storage := congrArg SetSpec.storage appended
  simp only at storage
  rw [storage]
  exact ⟨ofLength, ofBits, _, named, rfl⟩

end SetSpec

end WireSchema
