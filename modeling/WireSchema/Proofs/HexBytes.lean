import WireSchema.Proofs.Cores
import WireSchema.Proofs.FixedLengths
import WireSchema.Proofs.IntegerLiterals
import WireSchema.Proofs.Properties

/-!
Bytes in hexadecimal. Blanks are dropped and the other characters are taken two by two, each pair as a
number of its own. Two digits are the byte that they spell, and so is a plus sign with one digit behind
it. Texts without such a sign are read exactly if they are written in hexadecimal, and what is not read
is refused as the default of data, as a valid value and in comparisons.
-/

namespace WireSchema

open Markup (Node)

namespace Literal

def significant (s : String) : List Char :=
  s.toList.filter fun c => !isByteBlank c

/-- Two characters a byte, where the high half is written as the first parameter says and the low half
as a digit. -/
inductive Pairs (high : Char → Nat → Prop) : List Char → List UInt8 → Prop where
  | nil : Pairs high [] []
  | cons {first second : Char} {h l : Nat} {cs : List Char} {bytes : List UInt8}
      (isHigh : high first h) (isLow : IsDigit 16 second l) (rest : Pairs high cs bytes) :
      Pairs high (first :: second :: cs) (UInt8.ofNat (16 * h + l) :: bytes)

def Hexadecimal : List Char → List UInt8 → Prop := Pairs (IsDigit 16)

def DigitOrPlus (c : Char) (value : Nat) : Prop := IsDigit 16 c value ∨ c = '+' ∧ value = 0

def ReadsPlus (s : String) : Prop :=
  '+' ∈ s.toList ∧ ∃ bytes, Pairs DigitOrPlus (significant s) bytes

def Foreign (s : String) : Prop :=
  (∃ c ∈ significant s, ∀ value, ¬IsDigit 16 c value) ∨ (significant s).length % 2 = 1

def byteDigits (byte : UInt8) : List Char :=
  [Nat.digitChar (byte.toNat / 16), Nat.digitChar (byte.toNat % 16)]

theorem plus_no_digit (value : Nat) : ¬IsDigit 16 '+' value :=
  fun digit => (digit_character (Nat.le_refl 16) digit).2 (by decide)

theorem byte_some_iff {first second : Char} {byte : UInt8} :
    byte? first second = some byte ↔
      ∃ h l, DigitOrPlus first h ∧ IsDigit 16 second l ∧ UInt8.ofNat (16 * h + l) = byte := by
  have high (h : Nat) :
      (if first = '+' then some 0 else digit? 16 first) = some h ↔ DigitOrPlus first h := by
    by_cases plus : first = '+'
    · simp [DigitOrPlus, plus, plus_no_digit, eq_comm]
    · rw [if_neg plus, digit_some_iff (Nat.le_refl 16), DigitOrPlus]
      simp [plus]
  simp only [← high, ← digit_some_iff (Nat.le_refl 16)]
  rw [byte?]
  cases (if first = '+' then some 0 else digit? 16 first) <;> cases digit? 16 second <;> simp

/-- What is read, two characters at a time. -/
theorem bytes_of_digits_iff {cs : List Char} {bytes : List UInt8} :
    bytesOfDigits? cs = some bytes ↔ Pairs DigitOrPlus cs bytes := by
  constructor
  · intro read
    fun_induction bytesOfDigits? cs generalizing bytes with
    | case1 =>
        cases read
        exact .nil
    | case2 => cases read
    | case3 first second rest byte others isRest isByte ih =>
        cases read
        obtain ⟨h, l, isHigh, isLow, rfl⟩ := byte_some_iff.mp isByte
        exact .cons isHigh isLow (ih isRest)
    | case4 => cases read
  · intro pairs
    induction pairs with
    | nil => rfl
    | cons isHigh isLow rest ih =>
        rw [bytesOfDigits?, byte_some_iff.mpr ⟨_, _, isHigh, isLow, rfl⟩, ih]

section Pairs

variable {high other : Char → Nat → Prop} {cs : List Char} {bytes : List UInt8}

theorem pairs_of_imp (pairs : Pairs high cs bytes)
    (imp : ∀ c ∈ cs, ∀ value, high c value → other c value) : Pairs other cs bytes := by
  induction pairs with
  | nil => exact .nil
  | cons isHigh isLow rest ih =>
      simp only [List.forall_mem_cons] at imp
      exact .cons (imp.1 _ isHigh) isLow (ih imp.2.2)

theorem pairs_length (pairs : Pairs high cs bytes) : cs.length = 2 * bytes.length := by
  induction pairs with
  | nil => rfl
  | cons _ _ _ ih =>
      simp only [List.length_cons, ih]
      omega

theorem pairs_characters (pairs : Pairs high cs bytes) :
    ∀ c ∈ cs, ∃ value, high c value ∨ IsDigit 16 c value := by
  induction pairs with
  | nil => exact List.forall_mem_nil _
  | cons isHigh isLow _ ih =>
      exact List.forall_mem_cons.mpr
        ⟨⟨_, Or.inl isHigh⟩, List.forall_mem_cons.mpr ⟨⟨_, Or.inr isLow⟩, ih⟩⟩

theorem hexadecimal_characters (hex : Hexadecimal cs bytes) :
    ∀ c ∈ cs, ∃ value, IsDigit 16 c value := by
  intro c member
  obtain ⟨value, digit | digit⟩ := pairs_characters hex c member
  · exact ⟨value, digit⟩
  · exact ⟨value, digit⟩

/-- Without a plus sign, what is read is hexadecimal. -/
theorem hexadecimal_iff_pairs (unsigned : '+' ∉ cs) :
    Hexadecimal cs bytes ↔ Pairs DigitOrPlus cs bytes := by
  constructor
  · exact fun hex => pairs_of_imp hex fun c _ value digit => Or.inl digit
  · intro pairs
    refine pairs_of_imp pairs fun c member value isHigh => ?_
    rcases isHigh with digit | ⟨rfl, -⟩
    · exact digit
    · exact absurd member unsigned

end Pairs

theorem lower_code (c : Char) :
    c.toLower.toNat = if 65 ≤ c.toNat ∧ c.toNat ≤ 90 then c.toNat + 32 else c.toNat := by
  have letter : (c.val ≥ 'A'.val ∧ c.val ≤ 'Z'.val) ↔ 65 ≤ c.toNat ∧ c.toNat ≤ 90 := by
    simp only [ge_iff_le, UInt32.le_iff_toNat_le]
    exact Iff.rfl
  unfold Char.toLower
  split
  · rename_i isLetter
    have between := letter.mp isLetter
    have sum : (c.val + ('a'.val - 'A'.val)).toNat = (c.toNat + 32) % 4294967296 :=
      UInt32.toNat_add c.val 32
    rw [if_pos between]
    exact sum.trans (Nat.mod_eq_of_lt (by omega))
  · rename_i other
    rw [if_neg (mt letter.mpr other)]

theorem digit_of_lower {c : Char} {value : Nat} (small : value < 16)
    (lower : c.toLower = value.digitChar) : IsDigit 16 c value := by
  obtain ⟨code, upperCode⟩ := digit_char_code value small
  have lowerCode := congrArg Char.toNat lower
  rw [lower_code, code] at lowerCode
  refine ⟨small, ?_⟩
  rw [← Char.toNat_inj, ← Char.toNat_inj, code, upperCode]
  by_cases decimal : value < 10
  · simp only [if_pos decimal] at lowerCode ⊢
    split at lowerCode <;> omega
  · simp only [if_neg decimal] at lowerCode ⊢
    split at lowerCode <;> omega

/-- Bytes written in lower case, in upper case or in a mixture of both. -/
theorem hexadecimal_of_lower {cs : List Char} {bytes : List UInt8}
    (spelled : cs.map Char.toLower = bytes.flatMap byteDigits) : Hexadecimal cs bytes := by
  induction bytes generalizing cs with
  | nil =>
      rw [List.map_eq_nil_iff.mp spelled]
      exact .nil
  | cons byte rest ih =>
      rw [List.flatMap_cons, byteDigits, List.cons_append, List.cons_append,
        List.nil_append] at spelled
      obtain ⟨first, behind, rfl, isFirst, more⟩ := List.map_eq_cons_iff.mp spelled
      obtain ⟨second, behind, rfl, isSecond, others⟩ := List.map_eq_cons_iff.mp more
      have small := byte.toNat_lt
      have whole := Pairs.cons (digit_of_lower (by omega) isFirst) (digit_of_lower (by omega) isSecond)
        (ih others)
      rwa [Nat.div_add_mod, UInt8.ofNat_toNat] at whole

section Texts

variable {s : String}

theorem bytes_some_iff {bytes : List UInt8} :
    bytes? s = some bytes ↔ Pairs DigitOrPlus (significant s) bytes :=
  bytes_of_digits_iff

theorem plus_significant : '+' ∈ significant s ↔ '+' ∈ s.toList := by
  have kept : (!isByteBlank '+') = true := by decide
  rw [significant, List.mem_filter, and_iff_left kept]

/-- The text is read as hexadecimal exactly if no plus sign is read in it. -/
theorem hexadecimal_read_iff :
    (∀ bytes, bytes? s = some bytes ↔ Hexadecimal (significant s) bytes) ↔ ¬ReadsPlus s := by
  constructor
  · rintro exactly ⟨plus, bytes, pairs⟩
    have hex := (exactly bytes).mp (bytes_some_iff.mpr pairs)
    obtain ⟨value, digit⟩ := hexadecimal_characters hex '+' (plus_significant.mpr plus)
    exact plus_no_digit value digit
  · intro unsigned bytes
    rw [bytes_some_iff]
    by_cases plus : '+' ∈ s.toList
    · constructor
      · exact fun pairs => absurd ⟨plus, bytes, pairs⟩ unsigned
      · exact fun hex => pairs_of_imp hex fun c _ value digit => Or.inl digit
    · exact (hexadecimal_iff_pairs (mt plus_significant.mp plus)).symm

theorem foreign_read_iff (foreign : Foreign s) : bytes? s = none ↔ ¬ReadsPlus s := by
  rw [Option.eq_none_iff_forall_ne_some]
  constructor
  · rintro refused ⟨-, bytes, pairs⟩
    exact refused bytes (bytes_some_iff.mpr pairs)
  · intro unsigned bytes read
    have hex := (hexadecimal_read_iff.mpr unsigned bytes).mp read
    rcases foreign with ⟨c, member, noDigit⟩ | odd
    · obtain ⟨value, digit⟩ := hexadecimal_characters hex c member
      exact noDigit value digit
    · rw [pairs_length hex] at odd
      omega

end Texts

end Literal

theorem Text.after_unmarked {mark : Char} {s : String} (unmarked : startsWith mark s = false) :
    after? mark s = none := by
  unfold startsWith at unmarked
  unfold after?
  split
  · rename_i c rest spelled
    rw [spelled] at unmarked
    rw [if_neg (by simpa using unmarked)]
  · rfl

inductive Markup.Node.GivesValid (node : Node) (raw : String) : Prop where
  | ofAttribute (given : ("validValue", raw) ∈ node.attributes)
  | ofChild {child : Node} (inside : child ∈ node.children) (named : child.name = "validValue")
      (text : child.value = .ok raw)
  | ofDefault (given : node.Gives "defaultValidValue" raw)

namespace Declaration

variable {d : Declaration} {α : Type} {read : String → String → Except Error α}

theorem valid_texts_given {profile : Profile} {texts : List (Versioned String)}
    (done : d.validTexts profile = .ok texts) {raw : String} (given : d.node.GivesValid raw) :
    (∃ text ∈ texts, text.value = raw) ∨ d.node.Gives "defaultValidValue" raw := by
  simp only [validTexts, except_bind_ok, Except.ok.injEq] at done
  obtain ⟨elements, ofElements, rfl⟩ := done
  cases given with
  | ofAttribute given =>
      have listed : ("validValue", raw) ∈
          d.node.attributes.filter fun entry => entry.1 == "validValue" :=
        List.mem_filter.mpr ⟨given, beq_self_eq_true _⟩
      exact Or.inl ⟨_, List.mem_append_left _ (List.mem_map_of_mem listed), rfl⟩
  | @ofChild child inside named text =>
      have listed : child ∈ d.node.childrenNamed "validValue" :=
        List.mem_filter.mpr ⟨inside, by rw [named, beq_self_eq_true]⟩
      obtain ⟨own, member, ofChild⟩ := (except_each_ok ofElements).2 child listed
      simp only [text, except_bind_ok, Except.ok.injEq, exists_eq_left'] at ofChild
      obtain ⟨window, -, rfl⟩ := ofChild
      exact Or.inl ⟨_, List.mem_append_right _ member, rfl⟩
  | ofDefault given => exact Or.inr given

/-- Every text that is declared as a valid value is read, if the version has valid values here. -/
theorem read_valid_values_each {profile : Profile} {kind : Kind} {lt : α → α → Bool}
    {default : α} {current : List (Versioned α)} {result : α × List (Versioned α)}
    {names : List String}
    (done : (d.readValidValues profile kind read lt default current).outcome = .ok result)
    (supported : d.env.supports .validValueInStringData = true)
    (ofProps : Properties.ofNode d.node names = .ok d.props)
    (listed : names.contains "defaultValidValue" = true) {raw : String}
    (given : d.node.GivesValid raw) : ∃ property value, read property raw = .ok value := by
  simp only [readValidValues, Build.bind_ok, Build.lift_outcome] at done
  obtain ⟨texts, ofTexts, rest⟩ := done
  have declared := valid_texts_given ofTexts given
  rw [← Properties.of_node_mem_iff ofProps listed] at declared
  split at rest
  · rename_i nothing
    simp only [Bool.and_eq_true, List.isEmpty_iff, Bool.not_eq_true'] at nothing
    rcases declared with ⟨text, member, -⟩ | entry
    · rw [nothing.1] at member
      exact absurd member List.not_mem_nil
    · have has : d.has "defaultValidValue" = true :=
        List.any_eq_true.mpr ⟨_, entry, beq_self_eq_true _⟩
      cases nothing.2.symm.trans has
  · rw [supported, Bool.not_true, if_neg Bool.false_ne_true] at rest
    simp only [Build.bind_ok, Build.lift_outcome] at rest
    obtain ⟨values, ofAll, chosen, ofChosen, rest⟩ := rest
    rcases declared with ⟨text, member, rfl⟩ | entry
    · obtain ⟨_, -, ofText⟩ := (except_each_ok ofAll).2 text member
      obtain ⟨value, ofRaw, -⟩ := except_bind_ok.mp ofText
      exact ⟨_, value, ofRaw⟩
    · cases Properties.single_given ofChosen entry
      simp only [Build.bind_ok, Build.lift_outcome, except_map_ok] at rest
      obtain ⟨_, ⟨value, ofRaw, -⟩, -⟩ := rest
      exact ⟨_, value, ofRaw⟩

end Declaration

namespace DataSpec

variable {d : Declaration} {delimiter : Delimiter Field}

theorem read_value_bytes {property raw : String} {value : List UInt8}
    (done : readValue d delimiter property raw = .ok value)
    (literal : Text.startsWith '^' raw = false) : Literal.bytes? raw = some value := by
  simp only [readValue, Declaration.readBounded, Text.after_unmarked literal,
    except_bind_ok] at done
  obtain ⟨found, accepted, checked⟩ := done
  rw [Declaration.accept_ok accepted]
  split at checked
  · split at checked
    · cases checked
    · exact congrArg some (Except.ok.inj checked)
  · exact congrArg some (Except.ok.inj checked)

/-- The texts that data takes for bytes are bytes. -/
theorem read_given {profile : Profile} {start spec : DataSpec Field} {names : List String}
    (done : (read d profile start).outcome = .ok spec)
    (ofProps : Properties.ofNode d.node names = .ok d.props)
    (listed : names.contains "defaultValue" = true ∧ names.contains "defaultValidValue" = true)
    {raw : String} (literal : Text.startsWith '^' raw = false)
    (given : d.node.Gives "defaultValue" raw ∨
      d.env.supports .validValueInStringData = true ∧ d.node.GivesValid raw) :
    ∃ bytes, Literal.bytes? raw = some bytes := by
  obtain ⟨-, ofContents⟩ := read_ok done
  simp only [Declaration.readContents, Build.bind_ok, Build.lift_outcome] at ofContents
  obtain ⟨default, ofDefault, ofValues⟩ := ofContents
  rcases given with isDefault | ⟨supported, isValid⟩
  · rw [← Properties.of_node_mem_iff ofProps listed.1] at isDefault
    simp only [Declaration.readDefault, except_bind_ok] at ofDefault
    obtain ⟨declared, ofDeclared, ofRaw⟩ := ofDefault
    cases Properties.single_given ofDeclared isDefault
    exact ⟨default, read_value_bytes ofRaw literal⟩
  · obtain ⟨property, value, ofRaw⟩ :=
      Declaration.read_valid_values_each ofValues supported ofProps listed.2 isValid
    exact ⟨value, read_value_bytes ofRaw literal⟩

end DataSpec

namespace Field

theorem create_data_given {env : Environment} {tag : String} {node : Node} {parent : Parent}
    {f : Field} (built : (create env tag node parent).outcome = .ok f) (isData : f.kind = .data)
    {raw : String} (literal : Text.startsWith '^' raw = false)
    (given : node.Gives "defaultValue" raw ∨
      env.supports .validValueInStringData = true ∧ node.GivesValid raw) :
    ∃ bytes, Literal.bytes? raw = some bytes := by
  obtain ⟨d, start, rfl, rfl, -, makes⟩ := create_makes built
  have properties := makes.properties
  rw [isData] at properties
  obtain ⟨profile, -, reads⟩ := Declaration.makes_reads makes
  generalize start.payload = payload at reads
  cases reads with
  | data done => exact DataSpec.read_given done properties (by decide) literal given
  | _ => cases isData

/-- A text that is compared to data, through any references and optionals, is bytes. -/
theorem compared_to_data {value : String} (f : Field) (isData : f.core.kind = .data)
    (compares : f.comparesToValue value = true) : ∃ bytes, Literal.bytes? value = some bytes := by
  fun_induction core f with
  | case1 _ _ _ target _ ih =>
      rw [comparesToValue, Bool.and_eq_true] at compares
      exact ih isData compares.2
  | case2 _ inner _ _ _ _ ih =>
      rw [comparesToValue, Bool.and_eq_true] at compares
      exact ih isData compares.2
  | case3 _ _ _ inner _ _ _ _ ih =>
      rw [comparesToValue, Bool.and_eq_true] at compares
      exact ih isData compares.2
  | case4 f =>
      obtain ⟨profile, payload⟩ := f
      cases payload with
      | data spec =>
          rw [comparesToValue, Bool.and_eq_true, Bool.and_eq_true] at compares
          exact Option.isSome_iff_exists.mp compares.2.2
      | _ => cases isData

/-- Data takes the text neither for its default nor for a valid value, and does not compare with it. -/
structure DataRefuses (raw : String) : Prop where
  default : ∀ {env : Environment} {tag : String} {node : Node} {parent : Parent} {f : Field},
    (create env tag node parent).outcome = .ok f → f.kind = .data → ¬node.Gives "defaultValue" raw
  valid : ∀ {env : Environment} {tag : String} {node : Node} {parent : Parent} {f : Field},
    (create env tag node parent).outcome = .ok f → f.kind = .data →
      env.supports .validValueInStringData = true → ¬node.GivesValid raw
  compared : ∀ f : Field, f.core.kind = .data → f.comparesToValue raw = false

theorem data_refuses_iff {raw : String} (literal : Text.startsWith '^' raw = false) :
    DataRefuses raw ↔ Literal.bytes? raw = none := by
  constructor
  · intro refuses
    have plain : refusesText ⟨{}, .data {}⟩ raw = false := rfl
    have unread := refuses.compared ⟨{}, .data {}⟩ rfl
    rw [comparesToValue, plain, literal] at unread
    exact Option.isNone_iff_eq_none.mp (Option.isSome_eq_false_iff.mp unread)
  · intro unread
    have absurd (read : ∃ bytes, Literal.bytes? raw = some bytes) : False := by
      obtain ⟨bytes, isRead⟩ := read
      cases unread.symm.trans isRead
    refine ⟨?_, ?_, ?_⟩
    · exact fun built isData given => absurd (create_data_given built isData literal (Or.inl given))
    · exact fun built isData supported given =>
        absurd (create_data_given built isData literal (Or.inr ⟨supported, given⟩))
    · intro f isData
      cases compares : f.comparesToValue raw with
      | false => rfl
      | true => exact (absurd (compared_to_data f isData compares)).elim

end Field

open Literal

/-- A text is read as bytes exactly if it is made of pairs of a digit, or a plus sign in its place, and
a digit. This is what its hexadecimal writing says exactly if no plus sign is read in it. Bytes are read
from their writing in any case and with any blanks. A text with another character than digits, or with
an odd number of them, is refused by all data exactly if no plus sign is read in it. -/
theorem hexadecimal_exact_iff (s : String) :
    (∀ bytes, bytes? s = some bytes ↔ Pairs DigitOrPlus (significant s) bytes) ∧
    ((∀ bytes, bytes? s = some bytes ↔ Hexadecimal (significant s) bytes) ↔ ¬ReadsPlus s) ∧
    (∀ bytes, (significant s).map Char.toLower = bytes.flatMap byteDigits →
      bytes? s = some bytes) ∧
    (Foreign s → Text.startsWith '^' s = false → (Field.DataRefuses s ↔ ¬ReadsPlus s)) := by
  refine ⟨fun bytes => bytes_some_iff, hexadecimal_read_iff, fun bytes spelled => ?_,
    fun foreign literal => ?_⟩
  · have hex := hexadecimal_of_lower spelled
    exact bytes_some_iff.mpr (pairs_of_imp hex fun c _ value digit => Or.inl digit)
  · rw [Field.data_refuses_iff literal, foreign_read_iff foreign]

/-- Bytes in both cases with blanks between and inside of them, and a letter that is no digit. -/
theorem mixed_case_read_and_letter_refused :
    Literal.bytes? "aB 0\tF" = some [0xab, 0x0f] ∧ Literal.Foreign "0g" ∧
      Text.startsWith '^' "0g" = false ∧ Field.DataRefuses "0g" := by
  have literal : Text.startsWith '^' "0g" = false := by decide +kernel
  have foreign : Literal.Foreign "0g" := by
    refine Or.inl ⟨'g', by decide +kernel, fun value digit => ?_⟩
    rw [← Literal.digit_some_iff (Nat.le_refl 16)] at digit
    cases digit
  have unsigned : ¬Literal.ReadsPlus "0g" := fun reads => absurd reads.1 (by decide +kernel)
  refine ⟨(hexadecimal_exact_iff "aB 0\tF").2.2.1 _ (by decide +kernel), foreign, literal, ?_⟩
  exact ((hexadecimal_exact_iff "0g").2.2.2 foreign literal).mpr unsigned

def signedData : Node := ⟨"data", [("name", "A"), ("defaultValue", "+5")], [], "", 1⟩

/-- A plus sign is no digit and is taken for one: for a byte, for the default of data and in a
comparison with it. -/
theorem plus_taken_for_digit :
    Literal.bytes? "+5" = some [5] ∧ ¬Literal.Hexadecimal (Literal.significant "+5") [5] ∧
      (Field.registryOf [signedData]).entries.map (fun e =>
        (e.field.kind, e.field.data? "", e.field.comparesToValue "+5")) =
          [(.data, some [5], true)] := by
  refine ⟨by decide +kernel, fun hex => ?_, by decide +kernel⟩
  obtain ⟨value, digit⟩ := Literal.hexadecimal_characters hex '+' (by decide +kernel)
  exact Literal.plus_no_digit value digit

end WireSchema
