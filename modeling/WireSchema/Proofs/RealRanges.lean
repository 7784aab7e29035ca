import WireSchema.Proofs.Reals
import WireSchema.Proofs.Runs

/-!
Merged intervals of real numbers hold the doubles that the given intervals hold, at the versions
they hold them, and merging them again changes nothing. Unlike runs of integers these need not lie
apart: a run whose end is not finite is not continued, whatever comes next.
-/

namespace WireSchema

namespace Double

def units : Double → Int
  | .nan => 0
  | .signed false rank => unitsOfRank rank.val
  | .signed true rank => -unitsOfRank rank.val

/-- The order of doubles: finite ones by value, with the infinities at the ends and not-a-number
above everything. -/
inductive AtMost : Double → Double → Prop where
  | byValue {a b : Double} (left : a.isFinite = true) (right : b.isFinite = true)
      (value : a.units ≤ b.units) : AtMost a b
  | fromBelow (b : Double) : AtMost negativeInfinity b
  | toAbove {a : Double} (number : a ≠ .nan) : AtMost a infinity
  | toNan (a : Double) : AtMost a .nan

section Magnitudes

theorem units_of_rank_below (rank : Nat) :
    unitsOfRank rank < Nat.pow 2 52 * Nat.pow 2 (rank / Nat.pow 2 52) := by
  have fraction : rank % Nat.pow 2 52 < Nat.pow 2 52 := Nat.mod_lt rank (Nat.two_pow_pos 52)
  simp only [unitsOfRank]
  generalize rank / Nat.pow 2 52 = exponent
  cases exponent with
  | zero =>
      rw [if_pos rfl]
      exact Nat.lt_of_lt_of_eq fraction (Nat.mul_one _).symm
  | succ exponent =>
      have double : Nat.pow 2 (exponent + 1) = 2 * Nat.pow 2 exponent := Nat.pow_succ'
      rw [if_neg (Nat.succ_ne_zero exponent), Nat.add_sub_cancel, double, ← Nat.mul_assoc]
      exact Nat.mul_lt_mul_of_pos_right (by omega) (Nat.two_pow_pos exponent)

theorem units_of_rank_above (rank : Nat) (normal : rank / Nat.pow 2 52 ≠ 0) :
    Nat.pow 2 52 * Nat.pow 2 (rank / Nat.pow 2 52 - 1) ≤ unitsOfRank rank := by
  simp only [unitsOfRank]
  rw [if_neg normal]
  exact Nat.mul_le_mul_right _ (Nat.le_add_right _ _)

/-- Magnitudes grow with their ranks: within one exponent with the fraction, and from one exponent
to the next because each doubles the unit. -/
theorem units_of_rank_lt {r s : Nat} (below : r < s) : unitsOfRank r < unitsOfRank s := by
  have partsR := Nat.div_add_mod r (Nat.pow 2 52)
  have partsS := Nat.div_add_mod s (Nat.pow 2 52)
  have exponents : r / Nat.pow 2 52 ≤ s / Nat.pow 2 52 := Nat.div_le_div_right (by omega)
  by_cases same : r / Nat.pow 2 52 = s / Nat.pow 2 52
  · rw [same] at partsR
    have fractions : r % Nat.pow 2 52 < s % Nat.pow 2 52 := by omega
    simp only [unitsOfRank, same]
    split
    · exact fractions
    · exact Nat.mul_lt_mul_of_pos_right (Nat.add_lt_add_left fractions _) (Nat.two_pow_pos _)
  · have greater : r / Nat.pow 2 52 < s / Nat.pow 2 52 := Nat.lt_of_le_of_ne exponents same
    have scales : Nat.pow 2 (r / Nat.pow 2 52) ≤ Nat.pow 2 (s / Nat.pow 2 52 - 1) :=
      Nat.pow_le_pow_right (by decide) (Nat.le_sub_one_of_lt greater)
    calc
      unitsOfRank r < Nat.pow 2 52 * Nat.pow 2 (r / Nat.pow 2 52) := units_of_rank_below r
      _ ≤ Nat.pow 2 52 * Nat.pow 2 (s / Nat.pow 2 52 - 1) := Nat.mul_le_mul_left _ scales
      _ ≤ unitsOfRank s := units_of_rank_above s (Nat.ne_zero_of_lt greater)

theorem units_of_rank_le_iff {r s : Nat} : unitsOfRank r ≤ unitsOfRank s ↔ r ≤ s := by
  constructor
  · intro units
    by_cases below : s < r
    · have := units_of_rank_lt below
      omega
    · omega
  · intro ranks
    rcases Nat.lt_or_eq_of_le ranks with below | rfl
    · exact Nat.le_of_lt (units_of_rank_lt below)
    · exact Nat.le_refl _

theorem units_of_rank_pos {r : Nat} (positive : 0 < r) : 0 < unitsOfRank r :=
  Nat.lt_of_le_of_lt (Nat.zero_le _) (units_of_rank_lt positive)

end Magnitudes

theorem units_le_iff {a b : Double} (left : a ≠ .nan) (right : b ≠ .nan) :
    a.units ≤ b.units ↔ a.position ≤ b.position := by
  cases a with
  | nan => exact absurd rfl left
  | signed negative r =>
      cases b with
      | nan => exact absurd rfl right
      | signed negative' s =>
          have upward := units_of_rank_le_iff (r := r.val) (s := s.val)
          have downward := units_of_rank_le_iff (r := s.val) (s := r.val)
          have positiveR := units_of_rank_pos (r := r.val)
          have positiveS := units_of_rank_pos (r := s.val)
          -- Across the signs only the two zeros are equal.
          have zero : unitsOfRank 0 = 0 := rfl
          cases negative <;> cases negative' <;> simp only [units, position]
          · omega
          · by_cases both : r.val = 0 ∧ s.val = 0
            · rw [both.1, both.2, zero]
            · omega
          · omega
          · omega

theorem position_range (x : Double) :
    -(infiniteRank : Int) ≤ x.position ∧ x.position ≤ infiniteRank + 1 := by
  cases x with
  | nan => simp only [position]; omega
  | signed negative rank => cases negative <;> simp only [position] <;> omega

theorem is_finite_iff (x : Double) :
    x.isFinite = true ↔ -(infiniteRank : Int) < x.position ∧ x.position < infiniteRank := by
  cases x with
  | nan => simp only [isFinite, position, Bool.false_eq_true, false_iff]; omega
  | signed negative rank =>
      cases negative <;> simp only [isFinite, position, decide_eq_true_eq] <;> omega

theorem eq_of_position {x : Double} (negative : Bool)
    (place : x.position = if negative then -(infiniteRank : Int) else infiniteRank) :
    x = ofRank negative infiniteRank := by
  have size : 0 < infiniteRank := by decide +kernel
  cases x with
  | nan => cases negative <;> simp only [position, reduceIte, Bool.false_eq_true] at place <;> omega
  | signed sign rank =>
      have same : sign = negative ∧ rank.val = infiniteRank := by
        cases sign <;> cases negative <;> simp [position] at place ⊢ <;> omega
      obtain ⟨rfl, value⟩ := same
      refine congrArg (signed sign) (Fin.ext ?_)
      simp only [value]
      omega

theorem position_infinity : infinity.position = infiniteRank := by
  simp [infinity, ofRank, position]

theorem position_negative_infinity : negativeInfinity.position = -(infiniteRank : Int) := by
  simp [negativeInfinity, ofRank, position]

theorem eq_nan_iff {x : Double} : x = .nan ↔ x.position = infiniteRank + 1 := by
  constructor
  · rintro rfl
    rfl
  · intro place
    cases x with
    | nan => rfl
    | signed negative rank => cases negative <;> simp only [position] at place <;> omega

theorem ne_nan_of_finite {x : Double} (finite : x.isFinite = true) : x ≠ .nan := by
  rintro rfl
  cases finite

/-- Places are in the order of the doubles. -/
theorem at_most_iff (a b : Double) : a.AtMost b ↔ a.position ≤ b.position := by
  have rangeA := position_range a
  have rangeB := position_range b
  constructor
  · intro order
    cases order with
    | byValue left right value =>
        exact (units_le_iff (ne_nan_of_finite left) (ne_nan_of_finite right)).mp value
    | fromBelow =>
        rw [position_negative_infinity]
        exact rangeB.1
    | toAbove number =>
        rw [Ne, eq_nan_iff] at number
        rw [position_infinity]
        omega
    | toNan => exact rangeA.2
  · intro order
    by_cases nan : b.position = infiniteRank + 1
    · rw [eq_nan_iff.mpr nan]
      exact .toNan a
    · by_cases below : a.position = -(infiniteRank : Int)
      · rw [eq_of_position true below]
        exact .fromBelow b
      · by_cases above : b.position = infiniteRank
        · rw [eq_of_position false above]
          apply AtMost.toAbove
          rw [Ne, eq_nan_iff]
          omega
        · -- Neither is an end, so both are finite.
          have finiteA := (is_finite_iff a).mpr (by omega)
          have finiteB := (is_finite_iff b).mpr (by omega)
          exact .byValue finiteA finiteB
            ((units_le_iff (ne_nan_of_finite finiteA) (ne_nan_of_finite finiteB)).mpr order)

end Double

namespace Interval

open Double (infiniteRank)
open Number (reals)

theorem real_special_iff {n : Number} (real : reals.holds n) :
    n.isSpecial = false ↔
      -(infiniteRank : Int) < reals.rank n ∧ reals.rank n < infiniteRank := by
  obtain ⟨x, rfl⟩ := real
  rw [Number.isSpecial, Bool.not_eq_false', Double.is_finite_iff]
  rfl

theorem joins_real_iff {i next : Interval} (on : i.On reals) (nextOn : next.On reals) :
    joins .real i next = true ↔
      (-(infiniteRank : Int) < reals.rank i.max ∧ reals.rank i.max < infiniteRank) ∧
      (-(infiniteRank : Int) < reals.rank next.min ∧ reals.rank next.min < infiniteRank) ∧
      reals.rank next.min ≤ reals.rank i.max := by
  rw [joins]
  simp only [Bool.and_eq_true, Bool.not_eq_true', real_special_iff on.2, real_special_iff nextOn.1,
    reals.le_iff nextOn.1 on.2, and_assoc]

def realRule : RankRule .real reals where
  rule high low :=
    decide ((-(infiniteRank : Int) < high ∧ high < infiniteRank) ∧
      (-(infiniteRank : Int) < low ∧ low < infiniteRank) ∧ low ≤ high)
  decides on nextOn := by
    rw [Bool.eq_iff_iff, joins_real_iff on nextOn, decide_eq_true_eq]
  touches _ _ joined := Int.le_add_one (of_decide_eq_true joined).2.2

def Encloses (i : Interval) (x : Double) : Prop :=
  ∃ low high, (i.min = .real low ∧ i.max = .real high ∨ i.min = .real high ∧ i.max = .real low) ∧
    low.AtMost x ∧ x.AtMost high

def InOrder (a b : Interval) : Prop :=
  ∃ lowA highA lowB highB, a = ⟨.real lowA, .real highA, a.window⟩ ∧
    b = ⟨.real lowB, .real highB, b.window⟩ ∧ lowA.AtMost lowB ∧
      (lowB.AtMost lowA → highA.AtMost highB)

theorem normal_encloses_iff (policy : MergePolicy) {i : Interval} (on : i.On reals) (x : Double) :
    (i.normal policy).contains (.real x) = true ↔ i.Encloses x := by
  rw [normal_contains reals policy on ⟨x, rfl⟩]
  obtain ⟨min, max, window⟩ := i
  obtain ⟨⟨low, rfl⟩, high, rfl⟩ := on
  simp only [reals, Number.toDouble]
  constructor
  · intro between
    by_cases order : low.position ≤ high.position
    · refine ⟨low, high, Or.inl ⟨rfl, rfl⟩, ?_, ?_⟩ <;> rw [Double.at_most_iff] <;> omega
    · refine ⟨high, low, Or.inr ⟨rfl, rfl⟩, ?_, ?_⟩ <;> rw [Double.at_most_iff] <;> omega
  · rintro ⟨least, greatest, bounds, above, below⟩
    rw [Double.at_most_iff] at above below
    rcases bounds with ⟨atLow, atHigh⟩ | ⟨atLow, atHigh⟩
    · cases atLow
      cases atHigh
      omega
    · cases atLow
      cases atHigh
      omega

theorem in_order_of_not_below {a b : Interval} (onA : a.On reals) (onB : b.On reals)
    (notBelow : byBounds b a = false) : a.InOrder b := by
  rw [Bool.eq_false_iff, Ne, by_bounds_iff reals onB onA] at notBelow
  obtain ⟨_, _, windowA⟩ := a
  obtain ⟨_, _, windowB⟩ := b
  obtain ⟨⟨lowA, rfl⟩, highA, rfl⟩ := onA
  obtain ⟨⟨lowB, rfl⟩, highB, rfl⟩ := onB
  simp only [reals, Number.toDouble] at notBelow
  refine ⟨lowA, highA, lowB, highB, rfl, rfl, ?_⟩
  rw [Double.at_most_iff, Double.at_most_iff, Double.at_most_iff]
  omega

/-- Merged intervals of real numbers hold exactly the doubles between the bounds of some given
interval: at the versions of its window if windows count, and else at every version. They stand in
order, and merging them again changes nothing. -/
theorem real_merge_exact_and_fixed (intervals : List Interval)
    (real : ∀ i ∈ intervals, (∃ low, i.min = .real low) ∧ ∃ high, i.max = .real high) :
    (∀ x version, lookup (merge ⟨.real, true⟩ intervals) (.real x) (some version) = true ↔
      ∃ i ∈ intervals, i.Encloses x ∧ i.window.since ≤ version ∧ version < i.window.deprecated) ∧
    (∀ x, ∀ version < never,
      lookup (merge ⟨.real, false⟩ intervals) (.real x) (some version) = true ↔
        ∃ i ∈ intervals, i.Encloses x) ∧
    ∀ versioned,
      (∀ x, lookup (merge ⟨.real, versioned⟩ intervals) (.real x) none = true ↔
        ∃ i ∈ intervals, i.Encloses x) ∧
      (merge ⟨.real, versioned⟩ intervals).Pairwise InOrder ∧
      merge ⟨.real, versioned⟩ (merge ⟨.real, versioned⟩ intervals) =
        merge ⟨.real, versioned⟩ intervals := by
  have on : ∀ i ∈ intervals, i.On reals := real
  have exact := fun versioned x version =>
    (merge_lookup realRule versioned version on ⟨x, rfl⟩).trans
      (holds_in_normal (fun window => version.all window.activeAt = true) fun i given =>
        normal_encloses_iff ⟨.real, versioned⟩ (on i given) x)
  refine ⟨fun x version => ?_, fun x version early => ?_, fun versioned => ⟨fun x => ?_, ?_, ?_⟩⟩
  · rw [exact true x (some version)]
    simp [Window.activeAt]
  · rw [exact false x (some version)]
    simp [Window.activeAt, Window.always, early]
  · rw [exact versioned x none]
    simp
  · refine (merge_sorted ⟨.real, versioned⟩ on).imp_of_mem fun {a b} first second notBelow => ?_
    exact in_order_of_not_below (merge_on _ on a first) (merge_on _ on b second) notBelow
  · exact merge_fixed _ on

def endless : List Interval :=
  [⟨.real .infinity, .real .zero, ⟨2, 5⟩⟩, ⟨.real .negativeInfinity, .real .zero, {}⟩,
    ⟨.real .nan, .real .nan, {}⟩]

theorem endless_merge_exact :
    lookup (merge ⟨.real, true⟩ endless) (.real .greatest) (some 2) = true ∧
    lookup (merge ⟨.real, true⟩ endless) (.real .greatest) (some 5) = false ∧
    lookup (merge ⟨.real, false⟩ endless) (.real .nan) (some 5) = true ∧
    merge ⟨.real, true⟩ (merge ⟨.real, true⟩ endless) = merge ⟨.real, true⟩ endless := by
  have real : ∀ i ∈ endless, (∃ low, i.min = .real low) ∧ ∃ high, i.max = .real high := by
    simp [endless]
  obtain ⟨versioned, unversioned, both⟩ := real_merge_exact_and_fixed endless real
  refine ⟨?_, ?_, ?_, (both true).2.2⟩
  · rw [versioned]
    refine ⟨⟨.real .infinity, .real .zero, ⟨2, 5⟩⟩, by simp [endless], ?_, by decide, by decide⟩
    refine ⟨.zero, .infinity, Or.inr ⟨rfl, rfl⟩, ?_, .toAbove nofun⟩
    exact (Double.at_most_iff _ _).mpr (by decide +kernel)
  · rw [Bool.eq_false_iff, Ne, versioned]
    rintro ⟨i, member, ⟨low, high, bounds, above, below⟩, -, ends⟩
    rw [Double.at_most_iff] at above below
    simp only [endless, List.mem_cons, List.not_mem_nil, or_false] at member
    rcases member with rfl | rfl | rfl
    · exact absurd ends (by decide)
    · rcases bounds with ⟨atLow, atHigh⟩ | ⟨atLow, atHigh⟩
      · cases atHigh
        exact absurd below (by decide +kernel)
      · cases atLow
        exact absurd below (by decide +kernel)
    · rcases bounds with ⟨atLow, -⟩ | ⟨-, atLow⟩
      · cases atLow
        exact absurd above (by decide +kernel)
      · cases atLow
        exact absurd above (by decide +kernel)
  · rw [unversioned .nan 5 (by decide)]
    exact ⟨⟨.real .nan, .real .nan, {}⟩, by simp [endless],
      ⟨.nan, .nan, Or.inl ⟨rfl, rfl⟩, .toNan _, .toNan _⟩⟩

end Interval

end WireSchema
