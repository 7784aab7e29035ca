import Mathlib.Data.List.Induction
import WireSchema.Proofs.Printing

/-!
Integer literals as they are written: a sign, the mark of a base and digits, with blanks around them.
The reader takes the text apart from the left and decides on the base before it has seen a digit. It
accepts exactly the literals of signed and unsigned words, with the value that their digits spell.
-/

namespace WireSchema.Literal

open Text (trimList isBlank)

structure IsDigit (radix : Nat) (c : Char) (value : Nat) : Prop where
  below : value < radix
  spelled : c = value.digitChar ∨ c = value.digitChar.toUpper

inductive Numeral (radix : Nat) : List Char → Nat → Prop where
  | single {c : Char} {value : Nat} (digit : IsDigit radix c value) : Numeral radix [c] value
  | next {cs : List Char} {n : Nat} {c : Char} {value : Nat} (front : Numeral radix cs n)
      (digit : IsDigit radix c value) : Numeral radix (cs ++ [c]) (n * radix + value)

/-- A magnitude with the mark of its base. A decimal does not start with the octal mark, unless it is
that digit alone. -/
inductive Magnitude : List Char → Nat → Prop where
  | hexadecimal {mark : Char} {digits : List Char} {m : Nat} (marked : mark = 'x' ∨ mark = 'X')
      (numeral : Numeral 16 digits m) : Magnitude ('0' :: mark :: digits) m
  | octal {digits : List Char} {m : Nat} (numeral : Numeral 8 digits m) : Magnitude ('0' :: digits) m
  | decimal {digits : List Char} {m : Nat} (numeral : Numeral 10 digits m)
      (unmarked : digits = ['0'] ∨ digits.head? ≠ some '0') : Magnitude digits m

/-- An integer literal without the blanks around it: at most one sign, and a magnitude that leaves the
value in a signed or an unsigned word. -/
inductive Spells : List Char → Int → Prop where
  | plain {cs : List Char} {m : Nat} (magnitude : Magnitude cs m) (fits : m ≤ greatestUnsigned) :
      Spells cs m
  | plus {cs : List Char} {m : Nat} (magnitude : Magnitude cs m) (fits : m ≤ greatestUnsigned) :
      Spells ('+' :: cs) m
  | minus {cs : List Char} {m : Nat} (magnitude : Magnitude cs m) (fits : leastSigned ≤ -(m : Int)) :
      Spells ('-' :: cs) (-m)

section Digits

variable {radix : Nat}

theorem digit_char_code : ∀ value < 16,
    (Nat.digitChar value).toNat = (if value < 10 then 48 else 87) + value ∧
      (Nat.digitChar value).toUpper.toNat = (if value < 10 then 48 else 55) + value := by
  decide

theorem digit_some_iff (small : radix ≤ 16) {c : Char} {value : Nat} :
    digit? radix c = some value ↔ IsDigit radix c value := by
  have ranges : digit? radix c = some value ↔ value < radix ∧
      (48 ≤ c.toNat ∧ c.toNat ≤ 57 ∧ value = c.toNat - 48 ∨
        97 ≤ c.toNat ∧ c.toNat ≤ 122 ∧ value = c.toNat - 97 + 10 ∨
        65 ≤ c.toNat ∧ c.toNat ≤ 90 ∧ value = c.toNat - 65 + 10) := by
    have order (a b : Char) : a ≤ b ↔ a.toNat ≤ b.toNat := UInt32.le_iff_toNat_le
    have codes : '0'.toNat = 48 ∧ '9'.toNat = 57 ∧ 'a'.toNat = 97 ∧ 'z'.toNat = 122 ∧
        'A'.toNat = 65 ∧ 'Z'.toNat = 90 := by decide
    simp only [digit?, order, codes, Option.ite_none_right_eq_some, Option.some.injEq]
    split
    · omega
    · split
      · omega
      · split <;> omega
  rw [ranges]
  constructor
  · rintro ⟨below, codes⟩
    obtain ⟨lower, upper⟩ := digit_char_code value (by omega)
    refine ⟨below, ?_⟩
    rw [← Char.toNat_inj, ← Char.toNat_inj, lower, upper]
    split <;> omega
  · rintro ⟨below, spelled⟩
    obtain ⟨lower, upper⟩ := digit_char_code value (by omega)
    rw [← Char.toNat_inj, ← Char.toNat_inj, lower, upper] at spelled
    refine ⟨below, ?_⟩
    split at spelled <;> omega

theorem zero_digit (positive : 0 < radix) : IsDigit radix '0' 0 := ⟨positive, Or.inl rfl⟩

/-- A digit is no blank, no sign and no mark of hexadecimal digits. -/
theorem digit_character {c : Char} {value : Nat} (small : radix ≤ 16) (digit : IsDigit radix c value) :
    isBlank c = false ∧ c ∉ ['+', '-', 'x', 'X'] := by
  have table : ∀ value < 16,
      (isBlank (Nat.digitChar value) = false ∧ Nat.digitChar value ∉ ['+', '-', 'x', 'X']) ∧
        isBlank (Nat.digitChar value).toUpper = false ∧
          (Nat.digitChar value).toUpper ∉ ['+', '-', 'x', 'X'] := by
    decide
  obtain ⟨lower, upper⟩ := table value (Nat.lt_of_lt_of_le digit.below small)
  rcases digit.spelled with rfl | rfl
  · exact lower
  · exact upper

theorem natural_snoc (cs : List Char) (c : Char) :
    natural? radix (cs ++ [c]) = (if cs = [] then some 0 else natural? radix cs).bind
      fun n => (digit? radix c).map (n * radix + ·) := by
  cases cs with
  | nil => simp [natural?]
  | cons first rest =>
      rw [if_neg (List.cons_ne_nil _ _), List.cons_append, natural?, natural?, ← List.cons_append,
        List.foldlM_append]
      · simp
      · exact List.cons_ne_nil _ _
      · exact List.cons_ne_nil _ _

theorem numeral_ne_nil {cs : List Char} {n : Nat} (numeral : Numeral radix cs n) : cs ≠ [] := by
  cases numeral with
  | single => exact List.cons_ne_nil _ _
  | next => exact List.append_ne_nil_of_right_ne_nil _ (List.cons_ne_nil _ _)

/-- Digits are read as the number that they spell, and nothing else is read. The induction takes the
last digit off, which the reader adds last. -/
theorem natural_some_iff (small : radix ≤ 16) {cs : List Char} {n : Nat} :
    natural? radix cs = some n ↔ Numeral radix cs n := by
  constructor
  · intro read
    induction cs using List.reverseRecOn generalizing n with
    | nil => cases read
    | append_singleton cs c ih =>
        rw [natural_snoc] at read
        obtain ⟨front, ofFront, last⟩ := Option.bind_eq_some_iff.mp read
        obtain ⟨value, isDigit, rfl⟩ := Option.map_eq_some_iff.mp last
        have digit := (digit_some_iff small).mp isDigit
        split at ofFront
        · rename_i alone
          cases ofFront
          rw [alone, Nat.zero_mul, Nat.zero_add]
          exact .single digit
        · exact .next (ih ofFront) digit
  · intro numeral
    induction numeral with
    | single digit =>
        rw [← List.nil_append [_], natural_snoc, if_pos rfl, Option.bind_some,
          (digit_some_iff small).mpr digit, Option.map_some, Nat.zero_mul, Nat.zero_add]
    | next front digit ih =>
        rw [natural_snoc, if_neg (numeral_ne_nil front), ih, Option.bind_some,
          (digit_some_iff small).mpr digit, Option.map_some]

theorem numeral_first {cs : List Char} {n : Nat} (numeral : Numeral radix cs n) :
    ∃ c value, cs.head? = some c ∧ IsDigit radix c value := by
  induction numeral with
  | single digit => exact ⟨_, _, rfl, digit⟩
  | next front digit ih =>
      obtain ⟨c, value, first, isDigit⟩ := ih
      exact ⟨c, value, by rw [List.head?_append, first, Option.some_or], isDigit⟩

theorem numeral_characters {cs : List Char} {n : Nat} (numeral : Numeral radix cs n) :
    ∀ c ∈ cs, ∃ value, IsDigit radix c value := by
  induction numeral with
  | single digit => exact List.forall_mem_singleton.mpr ⟨_, digit⟩
  | next front digit ih =>
      exact List.forall_mem_append.mpr ⟨ih, List.forall_mem_singleton.mpr ⟨_, digit⟩⟩

/-- A number is spelled by its digits. -/
theorem numeral_to_digits (base : 1 < radix) (small : radix ≤ 16) (n : Nat) :
    Numeral radix (Nat.toDigits radix n) n := by
  induction n using Nat.strongRecOn with
  | ind n ih =>
      by_cases below : n < radix
      · rw [Nat.toDigits_of_lt_base below]
        exact .single ⟨below, Or.inl rfl⟩
      · have more : radix ≤ n := Nat.le_of_not_lt below
        have front := ih (n / radix) (Nat.div_lt_self (by omega) base)
        have last : IsDigit radix (n % radix).digitChar (n % radix) :=
          ⟨Nat.mod_lt n (by omega), Or.inl rfl⟩
        rw [Nat.toDigits_of_base_le base more]
        have whole := Numeral.next front last
        rwa [Nat.div_add_mod' n radix] at whole

/-- Zeros in front do not count. -/
theorem numeral_zeros (positive : 0 < radix) {cs : List Char} {n : Nat}
    (numeral : Numeral radix cs n) (zeros : Nat) :
    Numeral radix (List.replicate zeros '0' ++ cs) n := by
  have one {cs : List Char} {n : Nat} (numeral : Numeral radix cs n) :
      Numeral radix ('0' :: cs) n := by
    induction numeral with
    | single digit =>
        have both := Numeral.next (.single (zero_digit positive)) digit
        rwa [Nat.zero_mul, Nat.zero_add] at both
    | next front digit ih => exact .next ih digit
  induction zeros with
  | zero => exact numeral
  | succ zeros ih => exact one ih

end Digits

section Magnitudes

variable {cs digits : List Char} {m : Nat}

theorem magnitude_hexadecimal_iff {mark : Char} (marked : mark = 'x' ∨ mark = 'X') :
    Magnitude ('0' :: mark :: digits) m ↔ Numeral 16 digits m := by
  constructor
  · intro magnitude
    cases magnitude with
    | hexadecimal _ numeral => exact numeral
    | octal numeral =>
        obtain ⟨_, _, ⟨⟩, digit⟩ := numeral_first numeral
        rcases marked with rfl | rfl <;>
          exact absurd (by decide) (digit_character (by decide) digit).2
    | decimal _ unmarked => simp at unmarked
  · exact .hexadecimal marked

theorem magnitude_octal_iff {c : Char} (notLower : c ≠ 'x') (notUpper : c ≠ 'X') :
    Magnitude ('0' :: c :: digits) m ↔ Numeral 8 (c :: digits) m := by
  constructor
  · intro magnitude
    cases magnitude with
    | hexadecimal marked => exact (marked.elim notLower notUpper).elim
    | octal numeral => exact numeral
    | decimal _ unmarked => simp at unmarked
  · exact .octal

theorem magnitude_decimal_iff (unmarked : ∀ c rest, cs ≠ '0' :: c :: rest) :
    Magnitude cs m ↔ Numeral 10 cs m := by
  constructor
  · intro magnitude
    cases magnitude with
    | hexadecimal => exact absurd rfl (unmarked _ _)
    | octal numeral =>
        obtain ⟨c, rest, rfl⟩ := List.exists_cons_of_ne_nil (numeral_ne_nil numeral)
        exact absurd rfl (unmarked _ _)
    | decimal numeral => exact numeral
  · intro numeral
    refine .decimal numeral ?_
    cases cs with
    | nil => exact Or.inr nofun
    | cons first rest =>
        cases rest with
        | nil => simp [Decidable.em]
        | cons second rest =>
            refine Or.inr ?_
            rintro ⟨⟩
            exact unmarked _ _ rfl

/-- The base that is decided on is the one of the magnitude. -/
theorem magnitude_iff : natural? (splitRadix cs).1 (splitRadix cs).2 = some m ↔ Magnitude cs m := by
  unfold splitRadix
  split
  · rw [magnitude_hexadecimal_iff (Or.inl rfl)]
    exact natural_some_iff (Nat.le_refl 16)
  · rw [magnitude_hexadecimal_iff (Or.inr rfl)]
    exact natural_some_iff (Nat.le_refl 16)
  · rename_i notLower notUpper
    rw [magnitude_octal_iff notLower notUpper]
    exact natural_some_iff (Nat.le_add_right 8 8)
  · rename_i unmarked
    rw [magnitude_decimal_iff unmarked]
    exact natural_some_iff (Nat.le_add_right 10 6)

theorem magnitude_characters (magnitude : Magnitude cs m) :
    cs ≠ [] ∧ ∀ c ∈ cs, isBlank c = false ∧ c ∉ ['+', '-'] := by
  have ofNumeral {radix : Nat} (small : radix ≤ 16) {digits : List Char}
      (numeral : Numeral radix digits m) : ∀ c ∈ digits, isBlank c = false ∧ c ∉ ['+', '-'] := by
    intro c member
    obtain ⟨value, digit⟩ := numeral_characters numeral c member
    obtain ⟨notBlank, notMark⟩ := digit_character small digit
    exact ⟨notBlank, fun isSign => notMark (List.mem_append_left ['x', 'X'] isSign)⟩
  have zero : isBlank '0' = false ∧ '0' ∉ ['+', '-'] := by decide
  cases magnitude with
  | @hexadecimal mark _ _ marked numeral =>
      have ofMark : isBlank mark = false ∧ mark ∉ ['+', '-'] := by
        rcases marked with rfl | rfl <;> decide
      exact ⟨List.cons_ne_nil _ _, List.forall_mem_cons.mpr
        ⟨zero, List.forall_mem_cons.mpr ⟨ofMark, ofNumeral (by decide) numeral⟩⟩⟩
  | octal numeral =>
      exact ⟨List.cons_ne_nil _ _, List.forall_mem_cons.mpr ⟨zero, ofNumeral (by decide) numeral⟩⟩
  | decimal numeral => exact ⟨numeral_ne_nil numeral, ofNumeral (by decide) numeral⟩

end Magnitudes

section Signs

variable {cs : List Char} {n : Int}

theorem spells_bare (spells : Spells cs n) : Text.Bare cs := by
  have behind {sign : Char} {cs : List Char} {m : Nat} (notBlank : isBlank sign = false)
      (magnitude : Magnitude cs m) : Text.Bare (sign :: cs) :=
    Text.bare_of_forall (List.cons_ne_nil _ _) (List.forall_mem_cons.mpr
      ⟨notBlank, fun c member => ((magnitude_characters magnitude).2 c member).1⟩)
  cases spells with
  | plain magnitude =>
      obtain ⟨some, characters⟩ := magnitude_characters magnitude
      exact Text.bare_of_forall some fun c member => (characters c member).1
  | plus magnitude => exact behind (by decide) magnitude
  | minus magnitude => exact behind (by decide) magnitude

theorem split_sign_cases (cs : List Char) :
    (∃ rest, cs = '-' :: rest ∧ splitSign cs = (true, rest)) ∨
      (∃ rest, cs = '+' :: rest ∧ splitSign cs = (false, rest)) ∨ splitSign cs = (false, cs) := by
  unfold splitSign
  split
  · exact Or.inl ⟨_, rfl, rfl⟩
  · exact Or.inr (Or.inl ⟨_, rfl, rfl⟩)
  · exact Or.inr (Or.inr rfl)

theorem split_sign_magnitude {m : Nat} (magnitude : Magnitude cs m) :
    splitSign cs = (false, cs) := by
  have characters := (magnitude_characters magnitude).2
  rcases split_sign_cases cs with ⟨rest, rfl, -⟩ | ⟨rest, rfl, -⟩ | plain
  · exact absurd (by decide) (characters '-' List.mem_cons_self).2
  · exact absurd (by decide) (characters '+' List.mem_cons_self).2
  · exact plain

theorem integer_some_of_split {s : String} : integer? s = some n ↔
    ∃ m, Magnitude (splitSign (trimList s.toList)).2 m ∧ m ≤ greatestUnsigned ∧
      ((splitSign (trimList s.toList)).1 = false ∧ n = m ∨
        (splitSign (trimList s.toList)).1 = true ∧ leastSigned ≤ -(m : Int) ∧ n = -m) := by
  simp only [integer?, ← magnitude_iff]
  generalize splitSign (trimList s.toList) = parts
  cases natural? (splitRadix parts.2).1 (splitRadix parts.2).2 with
  | none => simp
  | some m =>
      simp only [Option.some.injEq, exists_eq_left', Option.ite_none_left_eq_some, Nat.not_lt]
      refine and_congr_right fun _ => ?_
      cases parts.1 with
      | false => simp [eq_comm]
      | true => simp [eq_comm]

/-- A trimmed text is read exactly if it is a literal, as the integer that it spells. -/
theorem integer_some_iff {s : String} : integer? s = some n ↔ Spells (trimList s.toList) n := by
  rw [integer_some_of_split]
  generalize trimList s.toList = cs
  constructor
  · rintro ⟨m, magnitude, fits, value⟩
    rcases split_sign_cases cs with ⟨rest, rfl, parts⟩ | ⟨rest, rfl, parts⟩ | parts
    · rw [parts] at magnitude value
      obtain ⟨⟨⟩, -⟩ | ⟨-, least, rfl⟩ := value
      exact .minus magnitude least
    · rw [parts] at magnitude value
      obtain ⟨-, rfl⟩ | ⟨⟨⟩, -⟩ := value
      exact .plus magnitude fits
    · rw [parts] at magnitude value
      obtain ⟨-, rfl⟩ | ⟨⟨⟩, -⟩ := value
      exact .plain magnitude fits
  · intro spells
    cases spells with
    | plain magnitude fits =>
        rw [split_sign_magnitude magnitude]
        exact ⟨_, magnitude, fits, Or.inl ⟨rfl, rfl⟩⟩
    | plus magnitude fits => exact ⟨_, magnitude, fits, Or.inl ⟨rfl, rfl⟩⟩
    | minus magnitude fits =>
        refine ⟨_, magnitude, ?_, Or.inr ⟨rfl, fits, rfl⟩⟩
        simp only [leastSigned, greatestUnsigned] at fits ⊢
        omega

/-- Blanks around a literal do not count. -/
theorem integer_padded {s : String} {lead trail : List Char} (text : s.toList = lead ++ cs ++ trail)
    (blankLead : ∀ c ∈ lead, isBlank c = true) (blankTrail : ∀ c ∈ trail, isBlank c = true)
    (spells : Spells cs n) : integer? s = some n := by
  rw [integer_some_iff, text, Text.trim_padded blankLead (spells_bare spells) blankTrail]
  exact spells

theorem integer_spelled {s : String} (spells : Spells s.toList n) : integer? s = some n :=
  integer_padded (by rw [List.nil_append, List.append_nil]) (List.forall_mem_nil _)
    (List.forall_mem_nil _) spells

end Signs

section Writing

def written (mark : List Char) (radix zeros : Nat) (n : Int) : String :=
  String.ofList ((if n < 0 then ['-'] else []) ++ (mark ++ (List.replicate zeros '0' ++
    Nat.toDigits radix n.natAbs)))

variable {n : Int}

theorem spells_signed {cs : List Char} (magnitude : Magnitude cs n.natAbs) (least : leastSigned ≤ n)
    (greatest : n ≤ greatestUnsigned) : Spells ((if n < 0 then ['-'] else []) ++ cs) n := by
  by_cases negative : n < 0
  · have value : n = -(n.natAbs : Int) := by omega
    rw [if_pos negative]
    have minus := Spells.minus magnitude (value ▸ least)
    rwa [← value] at minus
  · have value : n = (n.natAbs : Int) := by omega
    rw [if_neg negative]
    have plain := Spells.plain magnitude (by omega)
    rwa [← value] at plain

theorem integer_written {mark : List Char} {radix zeros : Nat}
    (magnitude : Magnitude (mark ++ (List.replicate zeros '0' ++ Nat.toDigits radix n.natAbs)) n.natAbs)
    (least : leastSigned ≤ n) (greatest : n ≤ greatestUnsigned) :
    integer? (written mark radix zeros n) = some n := by
  apply integer_spelled
  rw [written, String.toList_ofList]
  exact spells_signed magnitude least greatest

theorem to_digits_first {m : Nat} (positive : 0 < m) : (Nat.toDigits 10 m).head? ≠ some '0' := by
  induction m using Nat.strongRecOn with
  | ind m ih =>
      rw [Nat.toDigits_eq_if (by decide)]
      split
      · simp only [List.head?_cons, Ne, Option.some.injEq, Nat.digitChar_eq_zero]
        omega
      · obtain ⟨c, rest, front⟩ :=
          List.exists_cons_of_ne_nil (Nat.toDigits_ne_nil (n := m / 10) (b := 10))
        have first := ih (m / 10) (by omega) (by omega)
        rwa [front] at first ⊢

theorem magnitude_to_digits (m : Nat) : Magnitude (Nat.toDigits 10 m) m := by
  refine .decimal (numeral_to_digits (by decide) (by decide) m) ?_
  cases m with
  | zero => exact Or.inl (Nat.toDigits_zero 10)
  | succ m => exact Or.inr (to_digits_first (Nat.succ_pos m))

theorem to_string_characters (n : Int) :
    (toString n).toList = (if n < 0 then ['-'] else []) ++ Nat.toDigits 10 n.natAbs := by
  rw [Int.toString_eq_repr]
  cases n with
  | ofNat m => exact Nat.toList_repr
  | negSucc m =>
      rw [if_pos (Int.negSucc_lt_zero m)]
      simp only [Int.repr, String.toList_append, Nat.toList_repr]
      rfl

end Writing

theorem within_some_iff {low high n : Int} {value : Option Int} :
    within low high value = some n ↔ value = some n ∧ low ≤ n ∧ n ≤ high := by
  rw [within, Option.filter_eq_some_iff, decide_eq_true_iff]

theorem natural_within_iff {high m : Nat} {value : Option Int} :
    (within 0 high value).map Int.toNat = some m ↔ value = some (m : Int) ∧ m ≤ high := by
  simp only [Option.map_eq_some_iff, within_some_iff]
  constructor
  · rintro ⟨n, ⟨rfl, positive, small⟩, rfl⟩
    exact ⟨by rw [Int.toNat_of_nonneg positive], by omega⟩
  · rintro ⟨rfl, small⟩
    exact ⟨m, ⟨rfl, by omega, by omega⟩, Int.toNat_natCast m⟩

/-- A text is read as an integer exactly if it is a literal of that integer with blanks around it. So
every integer of a word is read from its writing in each base, and the readers of narrower words read
the literals whose integers are in the word. -/
theorem integer_literals_exact :
    (∀ (s : String) (n : Int), integer? s = some n ↔ ∃ lead core trail,
      s.toList = lead ++ core ++ trail ∧ (∀ c ∈ lead, isBlank c = true) ∧
        (∀ c ∈ trail, isBlank c = true) ∧ Spells core n) ∧
    (∀ n : Int, leastSigned ≤ n → n ≤ greatestUnsigned →
      integer? (toString n) = some n ∧ ∀ zeros : Nat,
        integer? (written ['0', 'x'] 16 zeros n) = some n ∧
        integer? (written ['0', 'X'] 16 zeros n) = some n ∧
        integer? (written ['0'] 8 zeros n) = some n) ∧
    ∀ s : String,
      (∀ n : Int, signed? s = some n ↔
        integer? s = some n ∧ leastSigned ≤ n ∧ n ≤ greatestSigned) ∧
      (∀ m : Nat, unsigned? s = some m ↔ integer? s = some (m : Int) ∧ m ≤ greatestUnsigned) ∧
      ∀ m : Nat, version? s = some m ↔ integer? s = some (m : Int) ∧ m ≤ 0xffffffff := by
  refine ⟨fun s n => ⟨fun read => ?_, ?_⟩, fun n least greatest => ⟨?_, fun zeros => ⟨?_, ?_, ?_⟩⟩,
    fun s => ⟨fun n => within_some_iff, fun m => natural_within_iff, fun m => natural_within_iff⟩⟩
  · have spells := integer_some_iff.mp read
    obtain ⟨lead, trail, text, blankLead, blankTrail, -⟩ := Text.trim_around s.toList
    exact ⟨lead, _, trail, text, blankLead, blankTrail, spells⟩
  · rintro ⟨lead, core, trail, text, blankLead, blankTrail, spells⟩
    exact integer_padded text blankLead blankTrail spells
  · apply integer_spelled
    rw [to_string_characters]
    exact spells_signed (magnitude_to_digits _) least greatest
  · refine integer_written (.hexadecimal (Or.inl rfl) ?_) least greatest
    exact numeral_zeros (by decide) (numeral_to_digits (by decide) (by decide) _) zeros
  · refine integer_written (.hexadecimal (Or.inr rfl) ?_) least greatest
    exact numeral_zeros (by decide) (numeral_to_digits (by decide) (by decide) _) zeros
  · refine integer_written (.octal ?_) least greatest
    exact numeral_zeros (by decide) (numeral_to_digits (by decide) (by decide) _) zeros

/-- The least and the greatest integer of a word, in each base and with zeros. -/
theorem extreme_words_read :
    (leastSigned ≤ leastSigned ∧ leastSigned ≤ greatestUnsigned ∧
      integer? "-9223372036854775808" = some leastSigned ∧
      integer? "-0x08000000000000000" = some leastSigned) ∧
    leastSigned ≤ greatestUnsigned ∧ (greatestUnsigned : Int) ≤ greatestUnsigned ∧
      integer? "18446744073709551615" = some (greatestUnsigned : Int) ∧
      integer? "001777777777777777777777" = some (greatestUnsigned : Int) := by
  obtain ⟨decimal, other⟩ := integer_literals_exact.2.1 leastSigned (by decide) (by decide)
  obtain ⟨decimal', other'⟩ := integer_literals_exact.2.1 greatestUnsigned (by decide) (by decide)
  have spelled : toString leastSigned = "-9223372036854775808" ∧
      written ['0', 'x'] 16 1 leastSigned = "-0x08000000000000000" ∧
      toString (greatestUnsigned : Int) = "18446744073709551615" ∧
      written ['0'] 8 1 greatestUnsigned = "001777777777777777777777" := by
    decide +kernel
  exact ⟨⟨by decide, by decide, spelled.1 ▸ decimal, spelled.2.1 ▸ (other 1).1⟩, by decide, by decide,
    spelled.2.2.1 ▸ decimal', spelled.2.2.2 ▸ (other' 1).2.2⟩

end WireSchema.Literal
