import WireSchema.Double.Nearest
import WireSchema.Proofs.RealRanges

/-!
Rounding to the nearest double. The ranks around a quotient are found by cutting it to 53 binary places;
whichever is nearer is taken, and of two equally near ones that with an even rank. No other double is
nearer, and a greater quotient is never rounded to a smaller double.
-/

namespace WireSchema.Double

/-- The magnitude of a rank that is put together from an exponent and 53 places. The last place may
carry. -/
theorem units_of_cell {s cell : Nat} (fits : cell ≤ Nat.pow 2 53)
    (normal : s = 0 ∨ Nat.pow 2 52 ≤ cell) :
    unitsOfRank (s * Nat.pow 2 52 + cell) = cell * Nat.pow 2 s := by
  have carry : Nat.pow 2 53 = 2 * Nat.pow 2 52 := by decide
  have positive : 0 < Nat.pow 2 52 := by decide
  have exponent : (s * Nat.pow 2 52 + cell) / Nat.pow 2 52 = s + cell / Nat.pow 2 52 := by
    rw [Nat.mul_comm, Nat.mul_add_div positive]
  have fraction : (s * Nat.pow 2 52 + cell) % Nat.pow 2 52 = cell % Nat.pow 2 52 := by
    rw [Nat.mul_comm, Nat.mul_add_mod]
  simp only [unitsOfRank, exponent, fraction]
  generalize Nat.pow 2 52 = half at *
  rcases Nat.lt_or_ge cell half with small | large
  · obtain rfl : s = 0 := normal.resolve_right (by omega)
    rw [Nat.div_eq_of_lt small, Nat.mod_eq_of_lt small, if_pos rfl]
    exact (Nat.mul_one cell).symm
  · rcases Nat.lt_or_eq_of_le fits with below | full
    · have one : cell / half = 1 := Nat.div_eq_of_lt_le (by omega) (by omega)
      have whole := Nat.div_add_mod cell half
      rw [one, Nat.mul_one] at whole
      rw [one, if_neg (Nat.succ_ne_zero s), whole, Nat.add_sub_cancel]
    · have double : cell = half * 2 := by omega
      have next : Nat.pow 2 (s + 1) = 2 * Nat.pow 2 s := Nat.pow_succ'
      rw [double, Nat.mul_div_cancel_left 2 positive, Nat.mul_mod_right,
        if_neg (Nat.succ_ne_zero _), Nat.add_zero, Nat.mul_assoc, ← next]
      rfl

/-- A quotient is cut to 53 places, of which the first is set unless nothing is cut off. -/
theorem cell_bounds (num den : Nat) :
    num / (den * Nat.pow 2 ((num / den).log2 - 52)) < Nat.pow 2 53 ∧
      ((num / den).log2 - 52 = 0 ∨
        Nat.pow 2 52 ≤ num / (den * Nat.pow 2 ((num / den).log2 - 52))) := by
  rw [← Nat.div_div_eq_div_mul]
  generalize num / den = whole
  have split {a b : Nat} : Nat.pow 2 (a + b) = Nat.pow 2 a * Nat.pow 2 b := Nat.pow_add 2 a b
  have positive : 0 < Nat.pow 2 (whole.log2 - 52) := Nat.two_pow_pos _
  have upper : whole < Nat.pow 2 (whole.log2 + 1) := Nat.lt_log2_self
  constructor
  · rw [Nat.div_lt_iff_lt_mul positive, ← split]
    exact Nat.lt_of_lt_of_le upper (Nat.pow_le_pow_right (by decide) (by omega))
  · by_cases few : whole.log2 ≤ 52
    · exact Or.inl (by omega)
    · refine Or.inr ?_
      have nonzero : whole ≠ 0 := by
        rintro rfl
        exact few (by decide)
      have places : 52 + (whole.log2 - 52) = whole.log2 := by omega
      rw [Nat.le_div_iff_mul_le positive, ← split, places]
      exact Nat.log2_self_le nonzero

/-- The ranks around a quotient of units. Of them the nearer one is taken, and the even one where the
quotient is in the middle. -/
structure Around (units den low rank : Nat) : Prop where
  above : unitsOfRank low * den ≤ units
  below : units < unitsOfRank (low + 1) * den
  chosen :
    rank = low ∧ (2 * units < unitsOfRank low * den + unitsOfRank (low + 1) * den ∨
        2 * units = unitsOfRank low * den + unitsOfRank (low + 1) * den ∧ low % 2 = 0) ∨
      rank = low + 1 ∧ (unitsOfRank low * den + unitsOfRank (low + 1) * den < 2 * units ∨
        2 * units = unitsOfRank low * den + unitsOfRank (low + 1) * den ∧ low % 2 = 1)

theorem around_of_parts {units den unit cell rest base rank : Nat}
    (parts : unit * cell + rest = units) (small : rest < unit) (even : base % 2 = 0)
    (here : unitsOfRank (base + cell) * den = unit * cell)
    (next : unitsOfRank (base + cell + 1) * den = unit * cell + unit)
    (chosen : rank = base + cell +
      if unit < 2 * rest ∨ 2 * rest = unit ∧ cell % 2 = 1 then 1 else 0) :
    Around units den (base + cell) rank := by
  refine ⟨by omega, by omega, ?_⟩
  rw [here, next, chosen]
  split
  · exact Or.inr ⟨rfl, by omega⟩
  · exact Or.inl ⟨rfl, by omega⟩

theorem units_around_cell {s cell : Nat} (fits : cell < Nat.pow 2 53)
    (normal : s = 0 ∨ Nat.pow 2 52 ≤ cell) (den : Nat) :
    unitsOfRank (s * Nat.pow 2 52 + cell) * den = den * Nat.pow 2 s * cell ∧
      unitsOfRank (s * Nat.pow 2 52 + cell + 1) * den =
        den * Nat.pow 2 s * cell + den * Nat.pow 2 s := by
  constructor
  · rw [units_of_cell (Nat.le_of_lt fits) normal, Nat.mul_comm, Nat.mul_comm cell, Nat.mul_assoc]
  · rw [Nat.add_assoc, units_of_cell fits (normal.imp_right Nat.le_succ_of_le), Nat.mul_comm,
      Nat.mul_comm (cell + 1), ← Nat.mul_assoc, Nat.mul_succ]

theorem nearest_rank_around {den : Nat} (positive : 0 < den) (num : Nat) :
    ∃ low, Around (num * unitsInOne) den low (nearestRank num den) := by
  obtain ⟨fits, normal⟩ := cell_bounds (num * unitsInOne) den
  obtain ⟨here, next⟩ := units_around_cell fits normal den
  have size : 0 < den * Nat.pow 2 ((num * unitsInOne / den).log2 - 52) :=
    Nat.mul_pos positive (Nat.two_pow_pos _)
  have even (s : Nat) : s * Nat.pow 2 52 % 2 = 0 := by
    have half : Nat.pow 2 52 = 2 * Nat.pow 2 51 := by decide
    rw [half, Nat.mul_left_comm, Nat.mul_mod_right]
  refine ⟨_, around_of_parts (Nat.div_add_mod _ _) (Nat.mod_lt _ size)
    (even ((num * unitsInOne / den).log2 - 52)) here next ?_⟩
  simp only [nearestRank, Bool.or_eq_true, Bool.and_eq_true, decide_eq_true_eq, beq_iff_eq]

def distance (units den rank : Nat) : Nat :=
  ((units : Int) - (unitsOfRank rank * den : Nat)).natAbs

/-- No rank is nearer than the one that is taken, and only to an even one is another one as near. -/
theorem around_closest {units den low rank : Nat} (around : Around units den low rank)
    (other : Nat) :
    distance units den rank ≤ distance units den other ∧
      (distance units den rank = distance units den other → other ≠ rank → rank % 2 = 0) := by
  obtain ⟨above, below, chosen⟩ := around
  have positive : 0 < den := by
    apply Nat.pos_of_ne_zero
    rintro rfl
    omega
  have order {r s : Nat} (less : r < s) : unitsOfRank r * den < unitsOfRank s * den :=
    Nat.mul_lt_mul_of_pos_right (units_of_rank_lt less) positive
  have gap := order (Nat.lt_succ_self low)
  -- The ranks further away on either side are further from the quotient than the two around it.
  have place : other < low ∨ other = low ∨ other = low + 1 ∨ low + 1 < other := by omega
  unfold distance
  rcases place with less | rfl | rfl | greater
  · have lower := order less
    rcases chosen with ⟨rfl, nearer⟩ | ⟨rfl, nearer⟩ <;> omega
  · rcases chosen with ⟨rfl, nearer⟩ | ⟨rfl, nearer⟩ <;> omega
  · rcases chosen with ⟨rfl, nearer⟩ | ⟨rfl, nearer⟩ <;> omega
  · have upper := order greater
    rcases chosen with ⟨rfl, nearer⟩ | ⟨rfl, nearer⟩ <;> omega

/-- A greater number is rounded to no smaller rank: between two ranks, only one of the numbers on both
sides of the middle is rounded away from it. -/
theorem nearest_rank_mono {den m n : Nat} (positive : 0 < den) (order : m ≤ n) :
    nearestRank m den ≤ nearestRank n den := by
  obtain ⟨lowM, aroundM⟩ := nearest_rank_around positive m
  obtain ⟨lowN, aroundN⟩ := nearest_rank_around positive n
  have closestM := (around_closest aroundM (nearestRank n den)).1
  have closestN := (around_closest aroundN (nearestRank m den)).1
  have scaled : m * unitsInOne ≤ n * unitsInOne := Nat.mul_le_mul_right _ order
  rcases Nat.lt_or_ge (nearestRank n den) (nearestRank m den) with less | greater
  · have units := Nat.mul_lt_mul_of_pos_right (units_of_rank_lt less) positive
    unfold distance at closestM closestN
    have same : m * unitsInOne = n * unitsInOne := by omega
    have one : 0 < unitsInOne := by decide +kernel
    cases Nat.eq_of_mul_eq_mul_right one same
    exact Nat.le_refl _
  · exact greater

section Integers

/-- The finite double that an integer is rounded to: the nearest one, and of two equally near ones the
one whose last bit is not set. -/
structure Rounds (n : Int) (x : Double) : Prop where
  finite : x.isFinite = true
  closest : ∀ y : Double, y.isFinite = true →
    (n * unitsInOne - x.units).natAbs ≤ (n * unitsInOne - y.units).natAbs
  even : ∀ y : Double, y.isFinite = true → y.units ≠ x.units →
    (n * unitsInOne - x.units).natAbs = (n * unitsInOne - y.units).natAbs → x.toBits % 2 = 0

theorem position_of_rank (negative : Bool) (rank : Nat) :
    (ofRank negative rank).position =
      if negative = true then -((min rank infiniteRank : Nat) : Int)
      else ((min rank infiniteRank : Nat) : Int) := by
  cases negative <;> rfl

theorem of_int_mono {m n : Int} (order : m ≤ n) : (ofInt m).position ≤ (ofInt n).position := by
  simp only [ofInt, nearest, position_of_rank, decide_eq_true_eq]
  split
  · split
    · have ranks : nearestRank n.natAbs 1 ≤ nearestRank m.natAbs 1 :=
        nearest_rank_mono Nat.one_pos (by omega)
      omega
    · omega
  · split
    · omega
    · have ranks : nearestRank m.natAbs 1 ≤ nearestRank n.natAbs 1 :=
        nearest_rank_mono Nat.one_pos (by omega)
      omega

/-- A rank that is nearest is also nearer than the negative of any rank. -/
theorem around_closest_signed {units low rank : Nat} (around : Around units 1 low rank) (other : Nat)
    {value : Int} (spelled : value = unitsOfRank other ∨ value = -(unitsOfRank other : Int)) :
    ((units : Int) - unitsOfRank rank).natAbs ≤ ((units : Int) - value).natAbs ∧
      (((units : Int) - unitsOfRank rank).natAbs = ((units : Int) - value).natAbs →
        value ≠ unitsOfRank rank → rank % 2 = 0) := by
  have positive := around_closest around other
  have zero := around_closest around 0
  have nothing : unitsOfRank 0 = 0 := rfl
  simp only [distance, Nat.mul_one, nothing] at positive zero
  rcases spelled with rfl | rfl
  · refine ⟨positive.1, fun same differs => positive.2 same ?_⟩
    rintro rfl
    exact differs rfl
  · refine ⟨by omega, fun same differs => zero.2 (by omega) ?_⟩
    rintro rfl
    omega

theorem of_rank_signed (negative : Bool) {rank : Nat} (small : rank < infiniteRank) :
    ofRank negative rank = .signed negative ⟨rank, by omega⟩ :=
  congrArg (signed negative) (Fin.ext (Nat.min_eq_left (Nat.le_of_lt small)))

theorem to_bits_parity (negative : Bool) (rank : Fin (infiniteRank + 1)) :
    (signed negative rank).toBits % 2 = rank.val % 2 := by
  have sign : Nat.pow 2 63 % 2 = 0 := by decide
  cases negative with
  | false =>
      show (0 + rank.val) % 2 = rank.val % 2
      rw [Nat.zero_add]
  | true =>
      show (Nat.pow 2 63 + rank.val) % 2 = rank.val % 2
      rw [Nat.add_mod, sign, Nat.zero_add, Nat.mod_mod]

theorem units_signed {y : Double} (finite : y.isFinite = true) :
    ∃ rank, y.units = unitsOfRank rank ∨ y.units = -(unitsOfRank rank : Int) := by
  cases y with
  | nan => cases finite
  | signed negative rank =>
      cases negative with
      | false => exact ⟨rank.val, Or.inl rfl⟩
      | true => exact ⟨rank.val, Or.inr rfl⟩

/-- The units of an integer and of the double that it is rounded to have the same sign. -/
theorem scaled_signed (n : Int) (unit : Nat) (rank : Fin (infiniteRank + 1)) :
    n * unit = (n.natAbs * unit : Nat) ∧
        (signed (decide (n < 0)) rank).units = unitsOfRank rank.val ∨
      n * unit = -((n.natAbs * unit : Nat) : Int) ∧
        (signed (decide (n < 0)) rank).units = -(unitsOfRank rank.val : Int) := by
  rw [Int.natCast_mul]
  by_cases negative : n < 0
  · rw [decide_eq_true negative]
    exact Or.inr ⟨by rw [← Int.neg_mul, Int.ofNat_natAbs_of_nonpos (by omega), Int.neg_neg], rfl⟩
  · rw [decide_eq_false negative]
    exact Or.inl ⟨by rw [Int.natAbs_of_nonneg (by omega)], rfl⟩

/-- Integers are rounded to the nearest double, and in the middle between two to the even one, as long
as they are not rounded to an infinity. -/
theorem of_int_rounds {n : Int} (small : nearestRank n.natAbs 1 < infiniteRank) :
    Rounds n (ofInt n) := by
  obtain ⟨low, around⟩ := nearest_rank_around Nat.one_pos n.natAbs
  rw [ofInt, nearest, of_rank_signed _ small]
  generalize nearestRank n.natAbs 1 = rank at *
  have scaled := scaled_signed n unitsInOne ⟨rank, by omega⟩
  have parity := to_bits_parity (decide (n < 0)) ⟨rank, by omega⟩
  have finite : (signed (decide (n < 0)) ⟨rank, by omega⟩).isFinite = true := decide_eq_true small
  dsimp only at scaled parity
  generalize signed (decide (n < 0)) ⟨rank, by omega⟩ = x at *
  generalize n.natAbs * unitsInOne = units at *
  have closest (y : Double) (number : y.isFinite = true) :
      (n * unitsInOne - x.units).natAbs ≤ (n * unitsInOne - y.units).natAbs ∧
        (y.units ≠ x.units →
          (n * unitsInOne - x.units).natAbs = (n * unitsInOne - y.units).natAbs → rank % 2 = 0) := by
    obtain ⟨other, spelled⟩ := units_signed number
    have direct := around_closest_signed around other spelled
    have mirrored := around_closest_signed around other
      (show -y.units = unitsOfRank other ∨ -y.units = -(unitsOfRank other : Int) by omega)
    rcases scaled with ⟨value, own⟩ | ⟨value, own⟩
    · rw [value, own]
      omega
    · rw [value, own]
      omega
  refine ⟨finite, fun y number => (closest y number).1, fun y number differs same => ?_⟩
  rw [parity]
  exact (closest y number).2 differs same

end Integers

end WireSchema.Double
