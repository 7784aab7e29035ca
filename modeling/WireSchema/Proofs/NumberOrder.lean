import WireSchema.Proofs.EnumValidity
import WireSchema.Proofs.Rounding

/-!
The order of integers and doubles together. Two integers compare exactly; an integer meets a double
after it is rounded, which keeps the order of integers but may bring neighbours into one place. The
double in that place then ties with both of them, and this is the only way in which the order fails
to be transitive.
-/

namespace WireSchema

namespace Double

theorem nearest_rank_pos {n : Nat} (positive : 0 < n) : 0 < nearestRank n 1 := by
  have one : 0 < nearestRank 1 1 := by decide +kernel
  have order : nearestRank 1 1 ≤ nearestRank n 1 := nearest_rank_mono Nat.one_pos positive
  omega

theorem nearest_rank_finite {n : Nat} (small : n ≤ Nat.pow 2 64) :
    nearestRank n 1 < infiniteRank := by
  have greatest : nearestRank (Nat.pow 2 64) 1 < infiniteRank := by decide +kernel
  have order : nearestRank n 1 ≤ nearestRank (Nat.pow 2 64) 1 := nearest_rank_mono Nat.one_pos small
  omega

theorem word_small {n : Int} (word : Number.IsWord n) : n.natAbs ≤ Nat.pow 2 64 := by
  have bound : Nat.pow 2 64 = 18446744073709551616 := by decide
  simp only [Number.IsWord, Literal.leastSigned, Literal.greatestUnsigned] at word
  omega

/-- Whole multiples of the unit that the leading 53 bits are counted in are doubles themselves. -/
theorem units_of_multiple {units : Nat} (multiple : Nat.pow 2 (units.log2 - 52) ∣ units) :
    ∃ rank, unitsOfRank rank = units := by
  obtain ⟨fits, normal⟩ := cell_bounds units 1
  rw [Nat.div_one, Nat.one_mul] at fits normal
  exact ⟨_, (units_of_cell (Nat.le_of_lt fits) normal).trans (Nat.div_mul_cancel multiple)⟩

/-- So are the numbers that spell at most 53 bits before they are shifted. -/
theorem units_of_shifted {n : Nat} (small : n < Nat.pow 2 53) (shift : Nat) :
    ∃ rank, unitsOfRank rank = n * Nat.pow 2 shift := by
  have positive : 0 < Nat.pow 2 shift := Nat.pow_pos Nat.two_pos
  apply units_of_multiple
  by_cases zero : n = 0
  · rw [zero, Nat.zero_mul]
    exact Nat.dvd_zero _
  · have below : n * Nat.pow 2 shift < 2 ^ (53 + shift) := by
      rw [Nat.pow_add]
      exact Nat.mul_lt_mul_of_pos_right small positive
    have digits := (Nat.log2_lt (Nat.mul_ne_zero zero (Nat.ne_of_gt positive))).mpr below
    exact Nat.dvd_trans (Nat.pow_dvd_pow 2 (by omega)) (Nat.dvd_mul_left _ n)

theorem nearest_rank_exact {n : Nat} (small : n ≤ Nat.pow 2 53) :
    unitsOfRank (nearestRank n 1) = n * unitsInOne := by
  have represented : ∃ rank, unitsOfRank rank = n * unitsInOne := by
    by_cases greatest : n = Nat.pow 2 53
    · exact ⟨nearestRank (Nat.pow 2 53) 1, by rw [greatest]; decide +kernel⟩
    · obtain ⟨shift, power⟩ : ∃ shift, unitsInOne = Nat.pow 2 shift := ⟨1074, by decide +kernel⟩
      rw [power]
      exact units_of_shifted (Nat.lt_of_le_of_ne small greatest) shift
  obtain ⟨rank, value⟩ := represented
  obtain ⟨low, around⟩ := nearest_rank_around Nat.one_pos n
  have closest := (around_closest around rank).1
  simp only [distance, value, Nat.mul_one] at closest
  omega

theorem position_of_int (n : Int) :
    (ofInt n).position = if n < 0 then -((min (nearestRank n.natAbs 1) infiniteRank : Nat) : Int)
      else ((min (nearestRank n.natAbs 1) infiniteRank : Nat) : Int) := by
  rw [ofInt, nearest, position_of_rank]
  simp only [decide_eq_true_eq]

theorem position_of_int_zero {n : Int} (zero : (ofInt n).position = 0) : n = 0 := by
  have positive (nonzero : n ≠ 0) : 0 < nearestRank n.natAbs 1 :=
    nearest_rank_pos (Int.natAbs_pos.mpr nonzero)
  have infinite : 0 < infiniteRank := by decide
  rw [position_of_int] at zero
  split at zero <;> omega

/-- Zero apart, a place holds one double. -/
theorem eq_of_int {m : Int} {x : Double} (place : (ofInt m).position = x.position)
    (nonzero : x.position ≠ 0) : ofInt m = x :=
  Number.real.inj (Number.reals_rank_injective ⟨_, rfl⟩ ⟨_, rfl⟩ place nonzero)

theorem of_int_exact {n : Int} (small : n.natAbs ≤ Nat.pow 2 53) :
    (ofInt n).units = n * unitsInOne := by
  have shorter : Nat.pow 2 53 ≤ Nat.pow 2 64 := by decide
  have finite := nearest_rank_finite (Nat.le_trans small shorter)
  have exact := nearest_rank_exact small
  rw [ofInt, nearest, of_rank_signed _ finite]
  obtain ⟨scaled, value⟩ | ⟨scaled, value⟩ :=
    scaled_signed n unitsInOne ⟨nearestRank n.natAbs 1, by omega⟩
  · rw [scaled, value, exact]
  · rw [scaled, value, exact]

theorem of_int_injective {m n : Int} (smallM : m.natAbs ≤ Nat.pow 2 53)
    (smallN : n.natAbs ≤ Nat.pow 2 53) (same : ofInt m = ofInt n) : m = n := by
  have positive : 0 < unitsInOne := by decide +kernel
  have values := congrArg units same
  rw [of_int_exact smallM, of_int_exact smallN] at values
  exact Int.eq_of_mul_eq_mul_right (by omega) values

end Double

namespace Number

/-- The integers `a` and `c` are both rounded to the double `b`, though `a` is the greater. -/
def Merges (a b c : Number) : Prop :=
  ∃ m n, a.toInt? = some m ∧ c.toInt? = some n ∧ n < m ∧
    b = .real a.toDouble ∧ a.toDouble = c.toDouble

def place (a : Number) : Int := a.toDouble.position

theorem to_double_of_integer {a : Number} {n : Int} (value : a.toInt? = some n) :
    a.toDouble = Double.ofInt n := by
  cases a with
  | signed m =>
      cases value
      rfl
  | unsigned m =>
      cases value
      rfl
  | real x => cases value

theorem place_of_integer {a : Number} {n : Int} (value : a.toInt? = some n) :
    a.place = (Double.ofInt n).position := by
  rw [place, to_double_of_integer value]

theorem real_of_no_integer {a : Number} (absent : a.toInt? = none) : ∃ x, a = .real x := by
  cases a with
  | signed m => cases absent
  | unsigned m => cases absent
  | real x => exact ⟨x, rfl⟩

theorem compare_integers {a b : Number} {m n : Int} (left : a.toInt? = some m)
    (right : b.toInt? = some n) : a.compare b = Ord.compare m n := by
  rw [compare, left, right]

theorem compare_reals {a b : Number} (some : a.toInt? = none ∨ b.toInt? = none) :
    a.compare b = Ord.compare a.place b.place := by
  obtain left | right := some
  · rw [compare, left]
    rfl
  · rw [compare, right]
    cases a.toInt? <;> rfl

/-- Two integers compare by value, any other two by their places. -/
theorem compare_cases (a b : Number) :
    (∃ m n, a.toInt? = some m ∧ b.toInt? = some n ∧ a.compare b = Ord.compare m n) ∨
      a.compare b = Ord.compare a.place b.place := by
  cases left : a.toInt? with
  | none => exact .inr (compare_reals (.inl left))
  | some m =>
      cases right : b.toInt? with
      | none => exact .inr (compare_reals (.inr right))
      | some n => exact .inl ⟨m, n, rfl, rfl, compare_integers left right⟩

theorem compare_self (a : Number) : a.compare a = .eq := by
  obtain ⟨m, n, left, right, compared⟩ | compared := compare_cases a a
  · rw [compared, Int.compare_eq_eq]
    exact Option.some.inj (left.symm.trans right)
  · rw [compared, Int.compare_eq_eq]

theorem compare_swap (a b : Number) : a.compare b = (b.compare a).swap := by
  unfold compare
  cases a.toInt? <;> cases b.toInt? <;> exact Std.OrientedOrd.eq_swap

/-- Rounding keeps the order. -/
theorem place_le_of_not_gt {a b : Number} (order : a.compare b ≠ .gt) : a.place ≤ b.place := by
  obtain ⟨m, n, left, right, compared⟩ | compared := compare_cases a b
  · rw [compared, Ne, Int.compare_eq_gt] at order
    rw [place_of_integer left, place_of_integer right]
    exact Double.of_int_mono (by omega)
  · rw [compared, Ne, Int.compare_eq_gt] at order
    omega

theorem gt_cases {a b : Number} (greater : a.compare b = .gt) :
    (∃ m n, a.toInt? = some m ∧ b.toInt? = some n ∧ n < m) ∨ b.place < a.place := by
  obtain ⟨m, n, left, right, compared⟩ | compared := compare_cases a b
  · exact .inl ⟨m, n, left, right, Int.compare_eq_gt.mp (compared.symm.trans greater)⟩
  · exact .inr (Int.compare_eq_gt.mp (compared.symm.trans greater))

/-- A double ties with the integers that are rounded to it. -/
theorem ties_of_merges {a b c : Number} (merges : Merges a b c) :
    a.compare b = .eq ∧ b.compare c = .eq ∧ a.compare c = .gt := by
  obtain ⟨m, n, left, right, less, rfl, same⟩ := merges
  refine ⟨?_, ?_, ?_⟩
  · rw [compare_reals (.inr rfl), Int.compare_eq_eq]
    rfl
  · rw [compare_reals (.inl rfl), Int.compare_eq_eq, place, place, ← same]
    rfl
  · rw [compare_integers left right, Int.compare_eq_gt]
    exact less

theorem merges_of_intransitive {a b c : Number} (low : a.compare b ≠ .gt) (high : b.compare c ≠ .gt)
    (greater : a.compare c = .gt) : Merges a b c := by
  have below := place_le_of_not_gt low
  have above := place_le_of_not_gt high
  obtain ⟨m, n, left, right, less⟩ | apart := gt_cases greater
  · have order := Double.of_int_mono (Int.le_of_lt less)
    rw [place_of_integer left] at below
    rw [place_of_integer right] at above
    cases middle : b.toInt? with
    | some k =>
        rw [compare_integers left middle, Ne, Int.compare_eq_gt] at low
        rw [compare_integers middle right, Ne, Int.compare_eq_gt] at high
        omega
    | none =>
        obtain ⟨x, rfl⟩ := real_of_no_integer middle
        change _ ≤ x.position at below
        change x.position ≤ _ at above
        -- Only zero is rounded to zero, so the double in between is not one of the two zeros.
        have nonzero : x.position ≠ 0 := by
          intro zero
          have atM : m = 0 := Double.position_of_int_zero (by omega)
          have atN : n = 0 := Double.position_of_int_zero (by omega)
          omega
        have roundM : Double.ofInt m = x := Double.eq_of_int (by omega) nonzero
        have roundN : Double.ofInt n = x := Double.eq_of_int (by omega) nonzero
        rw [← to_double_of_integer left] at roundM
        rw [← to_double_of_integer right] at roundN
        exact ⟨m, n, left, right, less, by rw [roundM], roundM.trans roundN.symm⟩
  · omega

theorem transitive_iff (a b c : Number) :
    (a.compare b ≠ .gt → b.compare c ≠ .gt → a.compare c ≠ .gt) ↔ ¬Merges a b c := by
  constructor
  · intro transitive merges
    obtain ⟨low, high, greater⟩ := ties_of_merges merges
    exact transitive (by rw [low]; decide) (by rw [high]; decide) greater
  · intro apart low high greater
    exact apart (merges_of_intransitive low high greater)

theorem not_merges_of_small {a b c : Number}
    (small : ∀ n, a.toInt? = some n ∨ c.toInt? = some n → n.natAbs ≤ Nat.pow 2 53) :
    ¬Merges a b c := by
  rintro ⟨m, n, left, right, less, _, same⟩
  rw [to_double_of_integer left, to_double_of_integer right] at same
  have equal := Double.of_int_injective (small m (.inl left)) (small n (.inr right)) same
  omega

theorem lt_false_iff {a b : Number} : a.lt b = false ↔ b.compare a ≠ .gt := by
  rw [lt, compare_swap b a]
  cases a.compare b <;> decide

theorem ordered_on {xs : List Number} (apart : ∀ a ∈ xs, ∀ b ∈ xs, ∀ c ∈ xs, ¬Merges a b c) :
    Sorting.OrderedOn (· ∈ xs) lt where
  asymm a b _ _ below := by
    rw [lt, beq_iff_eq] at below
    rw [lt_false_iff, below]
    decide
  trans a b c first second third low high := by
    rw [lt_false_iff] at low high ⊢
    exact (transitive_iff c b a).mpr (apart c third b second a first) high low

theorem tie_iff {a b : Number} : a.compare b = .eq ↔ a.compare b ≠ .gt ∧ b.compare a ≠ .gt := by
  rw [compare_swap b a]
  cases a.compare b <;> decide

theorem tie_symm {a b : Number} (tie : a.compare b = .eq) : b.compare a = .eq :=
  tie_iff.mpr (tie_iff.mp tie).symm

theorem ties_transitive_iff (a b c : Number) :
    (a.compare b = .eq → b.compare c = .eq → a.compare c = .eq) ↔
      ¬Merges a b c ∧ ¬Merges c b a := by
  constructor
  · intro transitive
    constructor
    · intro merges
      obtain ⟨low, high, greater⟩ := ties_of_merges merges
      rw [transitive low high] at greater
      cases greater
    · intro merges
      obtain ⟨low, high, greater⟩ := ties_of_merges merges
      rw [tie_symm (transitive (tie_symm high) (tie_symm low))] at greater
      cases greater
  · rintro ⟨upward, downward⟩ low high
    rw [tie_iff] at low high ⊢
    exact ⟨(transitive_iff a b c).mpr upward low.1 high.1,
      (transitive_iff c b a).mpr downward high.2 low.2⟩

/-- Numbers are in a total order, but for two integers and the double that both are rounded to. There
is no such double while the integers have at most 53 bits. -/
theorem ordered_unless_merged (a b c : Number) :
    a.compare a = .eq ∧ a.compare b = (b.compare a).swap ∧
      ((a.compare b ≠ .gt → b.compare c ≠ .gt → a.compare c ≠ .gt) ↔ ¬Merges a b c) ∧
      ((a.compare b = .eq → b.compare c = .eq → a.compare c = .eq) ↔
        ¬Merges a b c ∧ ¬Merges c b a) ∧
      ((∀ n, a.toInt? = some n ∨ c.toInt? = some n → n.natAbs ≤ Nat.pow 2 53) → ¬Merges a b c) ∧
      (∀ xs : List Number, (∀ x ∈ xs, ∀ y ∈ xs, ∀ z ∈ xs, ¬Merges x y z) →
        (Sorting.stable lt xs).Pairwise fun x y => x.compare y ≠ .gt) ∧
      ∀ n, a.toInt? = some n → IsWord n → Double.Rounds n a.toDouble := by
  refine ⟨compare_self a, compare_swap a b, transitive_iff a b c, ties_transitive_iff a b c,
    not_merges_of_small, ?_, ?_⟩
  · intro xs apart
    have sorted := Sorting.stable_sorted (ordered_on apart) xs fun x member => member
    exact sorted.imp lt_false_iff.mp
  · intro n value word
    rw [to_double_of_integer value]
    exact Double.of_int_rounds (Double.nearest_rank_finite (Double.word_small word))

/-- Up to here every integer is a double of its own. The greatest word is not: it is rounded up. -/
theorem greatest_exact_integers_ordered :
    ¬Merges (.unsigned 9007199254740992) (.real (Double.ofInt 9007199254740992))
        (.signed 9007199254740991) ∧
      Double.Rounds 18446744073709551615 (Double.ofInt 18446744073709551615) ∧
      Double.ofInt 18446744073709551615 = Double.ofInt 18446744073709551616 := by
  refine ⟨?_, ?_, by decide +kernel⟩
  · apply (ordered_unless_merged (.unsigned 9007199254740992)
      (.real (Double.ofInt 9007199254740992)) (.signed 9007199254740991)).2.2.2.2.1
    rintro n (value | value) <;> cases value <;> decide
  · exact (ordered_unless_merged (.unsigned 18446744073709551615) default default).2.2.2.2.2.2
      18446744073709551615 rfl (by decide)

/-- The next integer is rounded down to its neighbour. The double ties with both, and the two do
not tie. -/
theorem neighbours_tie_with_one_double :
    compare (.unsigned 9007199254740993) (.real (Double.ofInt 9007199254740992)) = .eq ∧
      compare (.real (Double.ofInt 9007199254740992)) (.signed 9007199254740992) = .eq ∧
      compare (.unsigned 9007199254740993) (.signed 9007199254740992) = .gt := by
  decide +kernel

end Number

end WireSchema
