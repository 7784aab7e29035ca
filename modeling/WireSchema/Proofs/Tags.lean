import WireSchema.Markup.Event
import WireSchema.Markup.Tag
import WireSchema.Proofs.Printing

/-!
How tags are written, and that a written tag is read as it was meant. In text and in attribute
values the five predefined names can stand for their characters; a value stands between two equal
quotation marks and holds that mark only by its name, so neither the end of the tag nor that of the
value is found too early.
-/

namespace WireSchema

namespace Text

variable {p : Char → Bool} {word rest : List Char}

/-- A word ends where a character follows that is none of it. -/
theorem take_word (inWord : ∀ c ∈ word, p c = true) (stops : ∀ c ∈ rest.head?, p c = false) :
    (word ++ rest).takeWhile p = word := by
  rw [List.takeWhile_append_of_pos inWord]
  cases rest with
  | nil => rw [List.takeWhile_nil, List.append_nil]
  | cons c rest =>
      rw [List.takeWhile_cons_of_neg (by rw [stops c rfl]; decide), List.append_nil]

theorem drop_word (inWord : ∀ c ∈ word, p c = true) (stops : ∀ c ∈ rest.head?, p c = false) :
    (word ++ rest).dropWhile p = rest := by
  rw [List.dropWhile_append_of_pos inWord]
  cases rest with
  | nil => rfl
  | cons c rest => rw [List.dropWhile_cons_of_neg (by rw [stops c rfl]; decide)]

end Text

namespace Markup

open Text

namespace Escape

def predefined : List (String × Char) :=
  [("lt", '<'), ("gt", '>'), ("amp", '&'), ("apos", '\''), ("quot", '"')]

/-- `raw` is written for `content` where the character `mark` has a meaning of its own: it and `&`
are written by their names, and the other characters as they are or by theirs. -/
inductive Writes (mark : Char) : List Char → List Char → Prop where
  | nil : Writes mark [] []
  | plain {c : Char} {raw content : List Char} (isPlain : c ≠ '&' ∧ c ≠ mark)
      (rest : Writes mark raw content) : Writes mark (c :: raw) (c :: content)
  | named {name : String} {c : Char} {raw content : List Char} (listed : (name, c) ∈ predefined)
      (rest : Writes mark raw content) :
      Writes mark ('&' :: name.toList ++ ';' :: raw) (c :: content)

variable {mark : Char} {raw content : List Char}

/-- A predefined name and its semicolon are read as the character. -/
theorem decode_named {name : String} {c : Char} (listed : (name, c) ∈ predefined)
    (total offset : Nat) (raw : List Char) :
    ∃ after, decodeFrom total ('&' :: name.toList ++ ';' :: raw) offset none =
      (decodeFrom total raw after none).map (c :: ·) := by
  simp only [predefined, List.mem_cons, Prod.mk.injEq, List.not_mem_nil, or_false] at listed
  obtain ⟨rfl, rfl⟩ | ⟨rfl, rfl⟩ | ⟨rfl, rfl⟩ | ⟨rfl, rfl⟩ | ⟨rfl, rfl⟩ := listed
  all_goals
    exact ⟨_, rfl⟩

theorem decode_from_written (written : Writes mark raw content) (total offset : Nat) :
    decodeFrom total raw offset none = .ok content := by
  induction written generalizing offset with
  | nil => rfl
  | plain isPlain _ ih =>
      rw [decodeFrom, if_neg isPlain.1, ih]
      rfl
  | @named name c raw content listed _ ih =>
      obtain ⟨after, decoded⟩ := decode_named listed total offset raw
      rw [decoded, ih]
      rfl

theorem decode_written (written : Writes mark raw content) : decode raw = .ok content :=
  decode_from_written written _ _

/-- Every text can be written so, and the mark does not occur in what is written. -/
theorem exists_written (known : ∃ name, (name, mark) ∈ predefined) (content : List Char) :
    ∃ raw, Writes mark raw content := by
  induction content with
  | nil => exact ⟨[], .nil⟩
  | cons c rest ih =>
      obtain ⟨raw, written⟩ := ih
      by_cases isAmpersand : c = '&'
      · subst isAmpersand
        exact ⟨_, .named (by decide : ("amp", '&') ∈ predefined) written⟩
      · by_cases isMark : c = mark
        · subst isMark
          obtain ⟨name, listed⟩ := known
          exact ⟨_, .named listed written⟩
        · exact ⟨_, .plain ⟨isAmpersand, isMark⟩ written⟩

def IsMark (c : Char) : Prop := c = '<' ∨ c = '"' ∨ c = '\''

theorem written_avoids (isMark : IsMark mark) (written : Writes mark raw content) :
    mark ∉ raw := by
  induction written with
  | nil => exact List.not_mem_nil
  | plain isPlain _ ih => exact List.not_mem_cons_of_ne_of_not_mem isPlain.2.symm ih
  | @named name c raw content listed _ ih =>
      have spelled : mark ∉ '&' :: name.toList ++ [';'] := by
        simp only [predefined, List.mem_cons, Prod.mk.injEq, List.not_mem_nil, or_false] at listed
        obtain rfl | rfl | rfl := isMark <;>
          obtain ⟨rfl, -⟩ | ⟨rfl, -⟩ | ⟨rfl, -⟩ | ⟨rfl, -⟩ | ⟨rfl, -⟩ := listed <;> decide
      rw [List.append_cons]
      exact List.not_mem_append spelled ih

theorem last_behind (front : List Char) {cs : List Char} {c : Char} (last : cs.getLast? = some c) :
    (front ++ cs).getLast? = some c := by
  rw [List.getLast?_append, last, Option.some_or]

/-- No blank stands at the end of what is written for a text without one. -/
theorem written_last (written : Writes mark raw content) {d : Char}
    (last : content.getLast? = some d) (notBlank : isBlank d = false) :
    ∃ c, raw.getLast? = some c ∧ isBlank c = false := by
  induction written with
  | nil => cases last
  | @plain c raw content isPlain rest ih =>
      cases content with
      | nil =>
          cases rest
          cases last
          exact ⟨c, rfl, notBlank⟩
      | cons =>
          obtain ⟨found, isLast, blank⟩ := ih last
          exact ⟨found, last_behind [c] isLast, blank⟩
  | @named name c raw content listed rest ih =>
      rw [List.append_cons]
      cases content with
      | nil =>
          cases rest
          exact ⟨';', by rw [List.append_nil]; exact last_behind _ rfl, by decide⟩
      | cons =>
          obtain ⟨found, isLast, blank⟩ := ih last
          exact ⟨found, last_behind _ isLast, blank⟩

theorem written_first (written : Writes mark raw content) {d : Char}
    (first : content.head? = some d) (notBlank : isBlank d = false) :
    ∃ c, raw.head? = some c ∧ isBlank c = false := by
  cases written with
  | nil => cases first
  | plain _ _ =>
      cases first
      exact ⟨d, rfl, notBlank⟩
  | named _ _ => exact ⟨'&', rfl, by decide⟩

theorem written_bare (written : Writes mark raw content) (bare : Bare content) : Bare raw := by
  obtain ⟨d, first, notBlank⟩ := bare.first
  obtain ⟨e, last, notBlankEither⟩ := bare.last
  exact ⟨written_first written first notBlank, written_last written last notBlankEither⟩

end Escape

def IsNameChar (c : Char) : Prop :=
  isSpace c = false ∧ c ∉ ['!', '"', '&', '\'', '/', '<', '=', '>', '?']

structure IsName (cs : List Char) : Prop where
  nonempty : cs ≠ []
  chars : ∀ c ∈ cs, IsNameChar c

def IsSpaces (cs : List Char) : Prop := ∀ c ∈ cs, isSpace c = true

theorem name_first {name : List Char} (isName : IsName name) :
    ∃ first more, name = first :: more ∧ IsNameChar first ∧ ∀ c ∈ more, IsNameChar c := by
  cases name with
  | nil => exact absurd rfl isName.nonempty
  | cons first more =>
      obtain ⟨isFirst, others⟩ := List.forall_mem_cons.mp isName.chars
      exact ⟨first, more, rfl, isFirst, others⟩

theorem skip_spaces {blanks : List Char} (spaces : IsSpaces blanks) {c : Char}
    (kept : isSpace c = false) (rest : List Char) :
    (blanks ++ c :: rest).dropWhile isSpace = c :: rest :=
  drop_word spaces (by rintro _ ⟨⟩; exact kept)

namespace Tag

inductive WritesAttributes : List (String × String) → List Char → Prop where
  | nil : WritesAttributes [] []
  | cons {name value : String} {others : List (String × String)} {quote : Char}
      {before around behind raw text : List Char}
      (apart : before ≠ []) (spaces : IsSpaces before)
      (spacesAround : IsSpaces around) (spacesBehind : IsSpaces behind)
      (isQuote : quote = '"' ∨ quote = '\'') (written : Escape.Writes quote raw value.toList)
      (rest : WritesAttributes others text) :
      WritesAttributes ((name, value) :: others)
        (before ++ name.toList ++ around ++ '=' :: behind ++ quote :: raw ++ quote :: text)

structure WellFormed (tag : Tag) : Prop where
  name : IsName tag.name.toList
  keys : ∀ entry ∈ tag.attributes, IsName entry.1.toList
  distinct : (tag.attributes.map Prod.fst).Nodup

/-- `content` is written for the tag between its brackets. -/
structure Writes (tag : Tag) (content : List Char) : Prop where
  wellFormed : tag.WellFormed
  parts : ∃ attributes blanks, WritesAttributes tag.attributes attributes ∧ IsSpaces blanks ∧
    content = tag.name.toList ++ attributes ++ blanks

theorem exists_attributes_written (attributes : List (String × String)) :
    ∃ text, WritesAttributes attributes text := by
  induction attributes with
  | nil => exact ⟨[], .nil⟩
  | cons entry others ih =>
      obtain ⟨text, rest⟩ := ih
      have known : ("quot", '"') ∈ Escape.predefined := by decide
      obtain ⟨raw, written⟩ := Escape.exists_written ⟨"quot", known⟩ entry.2.toList
      have blank : IsSpaces [' '] := by simp [IsSpaces, isSpace]
      have none : IsSpaces [] := List.forall_mem_nil _
      exact ⟨_, .cons (List.cons_ne_nil _ _) blank none none (.inl rfl) written rest⟩

/-- Every well-formed tag can be written. -/
theorem exists_writes {tag : Tag} (wellFormed : tag.WellFormed) :
    ∃ content, tag.Writes content := by
  obtain ⟨text, attributes⟩ := exists_attributes_written tag.attributes
  exact ⟨_, wellFormed, text, [], attributes, List.forall_mem_nil _, rfl⟩

theorem key_written {name : List Char} (isName : IsName name) {around : List Char}
    (spaces : IsSpaces around) (tail : List Char) (total offset : Nat) :
    ∃ place, key total ⟨name ++ around ++ '=' :: tail, offset⟩ =
      .ok (String.ofList name, ⟨'=' :: tail, place⟩) := by
  obtain ⟨first, more, rfl, -, others⟩ := name_first isName
  have body : (more ++ (around ++ '=' :: tail)).takeWhile (fun x => !(x == '=' || isSpace x)) =
      more := by
    apply take_word
    · intro c member
      obtain ⟨notSpace, plain⟩ := others c member
      have notEquals : c ≠ '=' := fun same => plain (by simp [same])
      simp [notSpace, notEquals]
    · cases around with
      | nil =>
          rintro _ ⟨⟩
          rfl
      | cons c _ =>
          rintro _ ⟨⟩
          simp [spaces c List.mem_cons_self]
  have equals : (around ++ '=' :: tail).dropWhile isSpace = '=' :: tail :=
    skip_spaces spaces (by decide) tail
  simp only [key, List.cons_append, List.append_assoc, body, Cursor.dropWhile, List.drop_left,
    equals]
  exact ⟨_, rfl⟩

theorem value_written {quote : Char} (isQuote : quote = '"' ∨ quote = '\'')
    {behind raw content : List Char} (spaces : IsSpaces behind)
    (written : Escape.Writes quote raw content) (tail : List Char) (total offset : Nat) :
    ∃ place, value total ⟨'=' :: behind ++ quote :: raw ++ quote :: tail, offset⟩ =
      .ok (raw, ⟨tail, place⟩) := by
  have mark : Escape.IsMark quote := Or.inr isQuote
  have notSpace : isSpace quote = false := by
    obtain rfl | rfl := isQuote <;> decide
  have opening : (behind ++ quote :: (raw ++ quote :: tail)).dropWhile isSpace =
      quote :: (raw ++ quote :: tail) := skip_spaces spaces notSpace _
  have cut := cut_at_append quote raw tail (Escape.written_avoids mark written)
  simp only [value, List.cons_append, List.append_assoc, List.drop_one, List.tail_cons,
    Cursor.dropWhile, opening, if_pos isQuote, cut]
  exact ⟨_, rfl⟩

/-- One attribute is read: its key is new, and its value can be decoded. -/
theorem attributes_from_next {total fuel : Nat} {c equals behind : Cursor}
    {seen : List (String × Nat)} {first : Char} {more raw content : List Char} {name : String}
    (some : (c.dropWhile isSpace).rest = first :: more)
    (ofKey : key total (c.dropWhile isSpace) = .ok (name, equals))
    (fresh : (seen.find? fun entry => entry.1 == name) = none)
    (ofValue : value total equals = .ok (raw, behind)) (decoded : Escape.decode raw = .ok content)
    {others : List (String × String)}
    (ofRest : attributesFrom total fuel behind (seen ++ [(name, (c.dropWhile isSpace).offset)]) =
      .ok others) :
    attributesFrom total (fuel + 1) c seen = .ok ((name, String.ofList content) :: others) := by
  simp only [attributesFrom, some, ofKey, bind, Except.bind, fresh, ofValue, decoded, ofRest]

/-- The attributes are read as they are written, from any place in the tag on. -/
theorem attributes_from_written {attributes : List (String × String)} {text : List Char}
    (written : WritesAttributes attributes text)
    (keys : ∀ entry ∈ attributes, IsName entry.1.toList)
    (distinct : (attributes.map Prod.fst).Nodup) {blanks : List Char} (spaces : IsSpaces blanks)
    (total : Nat) {fuel : Nat} (enough : (text ++ blanks).length < fuel) (offset : Nat)
    {seen : List (String × Nat)} (fresh : ∀ entry ∈ seen, entry.1 ∉ attributes.map Prod.fst) :
    attributesFrom total fuel ⟨text ++ blanks, offset⟩ seen = .ok attributes := by
  induction written generalizing fuel offset seen with
  | nil =>
      obtain ⟨fuel, rfl⟩ := Nat.exists_eq_succ_of_ne_zero (Nat.ne_zero_of_lt enough)
      have none : (blanks ++ []).dropWhile isSpace = [] := drop_word spaces nofun
      rw [List.append_nil] at none
      simp only [attributesFrom, Cursor.dropWhile, List.nil_append, none]
  | @cons name value others quote before around behind raw text apart spacesBefore spacesAround
      spacesBehind isQuote written rest ih =>
      obtain ⟨fuel, rfl⟩ := Nat.exists_eq_succ_of_ne_zero (Nat.ne_zero_of_lt enough)
      obtain ⟨isName, otherKeys⟩ := List.forall_mem_cons.mp keys
      obtain ⟨new, otherDistinct⟩ := List.nodup_cons.mp distinct
      obtain ⟨first, more, spelled, isFirst, -⟩ := name_first isName
      let tail := behind ++ quote :: raw ++ quote :: (text ++ blanks)
      have whole : before ++ name.toList ++ around ++ '=' :: behind ++ quote :: raw ++
          quote :: text ++ blanks = before ++ (name.toList ++ around ++ '=' :: tail) := by
        simp [tail]
      have stops : ∀ c ∈ (name.toList ++ around ++ '=' :: tail).head?, isSpace c = false := by
        rw [spelled]
        rintro _ ⟨⟩
        exact isFirst.1
      have start : (Cursor.mk (before ++ (name.toList ++ around ++ '=' :: tail)) offset).dropWhile
          isSpace = ⟨name.toList ++ around ++ '=' :: tail, offset + byteCount before⟩ := by
        rw [Cursor.dropWhile, drop_word spacesBefore stops, take_word spacesBefore stops]
      obtain ⟨_, ofKey⟩ :=
        key_written isName spacesAround tail total (offset + byteCount before)
      obtain ⟨after, ofValue⟩ := value_written isQuote spacesBehind written (text ++ blanks) total _
      rw [whole, List.length_append] at enough
      rw [whole]
      have next : attributesFrom total fuel ⟨text ++ blanks, after⟩
          (seen ++ [(name, offset + byteCount before)]) = .ok others := by
        apply ih otherKeys otherDistinct
        · have shorter : (text ++ blanks).length < tail.length := by
            simp only [tail, List.length_append, List.length_cons]
            omega
          simp only [List.length_append, List.length_cons] at enough shorter ⊢
          omega
        · intro entry member
          rcases List.mem_append.mp member with old | isNew
          · exact fun known => fresh entry old (List.mem_cons_of_mem _ known)
          · cases List.mem_singleton.mp isNew
            exact new
      have notSeen : (seen.find? fun entry => entry.1 == name) = none := by
        rw [List.find?_eq_none]
        intro entry member same
        exact fresh entry member (beq_iff_eq.mp same ▸ List.mem_cons_self)
      have read := attributes_from_next (c := ⟨_, offset⟩) (by rw [start, spelled]; rfl)
        (by rw [start]; exact ofKey) (by rw [String.ofList_toList]; exact notSeen) ofValue
        (Escape.decode_written written) (by rw [start, String.ofList_toList]; exact next)
      rwa [String.ofList_toList, String.ofList_toList] at read

/-- What stands behind the name of an element is empty or begins with a blank. -/
theorem attributes_apart {attributes : List (String × String)} {text : List Char}
    (written : WritesAttributes attributes text) {blanks : List Char} (spaces : IsSpaces blanks) :
    ∀ c ∈ (text ++ blanks).head?, isSpace c = true := by
  cases written with
  | nil =>
      intro c first
      exact spaces c (List.mem_of_mem_head? first)
  | @cons _ _ _ _ before _ _ _ _ apart spacesBefore =>
      intro c first
      obtain ⟨d, more, rfl⟩ := List.exists_cons_of_ne_nil apart
      cases first
      exact spacesBefore c List.mem_cons_self

theorem of_content_written {tag : Tag} {content : List Char} (written : tag.Writes content) :
    ofContent content = .ok tag := by
  obtain ⟨⟨isName, keys, distinct⟩, text, blanks, attributes, spaces, rfl⟩ := written
  have inWord : ∀ c ∈ tag.name.toList, (!isSpace c) = true := by
    intro c member
    rw [(isName.chars c member).1]
    rfl
  have stops : ∀ c ∈ (text ++ blanks).head?, (!isSpace c) = false := by
    intro c first
    rw [attributes_apart attributes spaces c first]
    rfl
  have read (total offset : Nat) := attributes_from_written attributes keys distinct spaces total
    (Nat.lt_succ_self _) offset (List.forall_mem_nil _)
  rw [List.append_assoc, ofContent, take_word inWord stops, drop_word inWord stops, read,
    String.ofList_toList]
  rfl

end Tag

namespace Event

def Passes (cs : List Char) : Prop :=
  ∀ rest, tagContent none (cs ++ rest) =
    (cs ++ (tagContent none rest).1, (tagContent none rest).2)

theorem passes_append {front back : List Char} (passesFront : Passes front)
    (passesBack : Passes back) : Passes (front ++ back) := by
  intro rest
  rw [List.append_assoc, passesFront, passesBack, List.append_assoc]

theorem passes_plain {cs : List Char} (plain : ∀ c ∈ cs, c ≠ '>' ∧ c ≠ '"' ∧ c ≠ '\'') :
    Passes cs := by
  intro rest
  induction cs with
  | nil => rfl
  | cons c cs ih =>
      obtain ⟨⟨notEnd, notDouble, notSingle⟩, others⟩ := List.forall_mem_cons.mp plain
      simp [tagContent, notEnd, notDouble, notSingle, ih others]

/-- Between quotation marks everything but the mark is passed over. -/
theorem quoted_content {quote : Char} {body : List Char} (absent : quote ∉ body)
    (rest : List Char) :
    tagContent (some quote) (body ++ quote :: rest) =
      (body ++ quote :: (tagContent none rest).1, (tagContent none rest).2) := by
  induction body with
  | nil => simp [tagContent]
  | cons c body ih =>
      have other : c ≠ quote := fun same => absent (same ▸ List.mem_cons_self)
      have inBody : quote ∉ body := fun member => absent (List.mem_cons_of_mem c member)
      simp [tagContent, other, ih inBody]

theorem passes_quoted {quote : Char} (isQuote : quote = '"' ∨ quote = '\'') {body : List Char}
    (absent : quote ∉ body) : Passes (quote :: body ++ [quote]) := by
  intro rest
  have notEnd : quote ≠ '>' := by
    obtain rfl | rfl := isQuote <;> decide
  simp [tagContent, notEnd, isQuote, quoted_content absent]

theorem passes_name {name : List Char} (isName : IsName name) : Passes name := by
  apply passes_plain
  intro c member
  obtain ⟨-, plain⟩ := isName.chars c member
  simp only [List.mem_cons, not_or] at plain
  exact ⟨plain.2.2.2.2.2.2.2.1, plain.2.1, plain.2.2.2.1⟩

theorem passes_spaces {cs : List Char} (spaces : IsSpaces cs) : Passes cs := by
  apply passes_plain
  intro c member
  have isSpace := spaces c member
  refine ⟨?_, ?_, ?_⟩ <;> rintro rfl <;> revert isSpace <;> decide

theorem passes_attributes {attributes : List (String × String)} {text : List Char}
    (written : Tag.WritesAttributes attributes text)
    (keys : ∀ entry ∈ attributes, IsName entry.1.toList) : Passes text := by
  induction written with
  | nil => exact passes_plain nofun
  | @cons name value others quote before around behind raw text _ spaces spacesAround spacesBehind
      isQuote written _ ih =>
      obtain ⟨isName, otherKeys⟩ := List.forall_mem_cons.mp keys
      have value := passes_quoted isQuote (Escape.written_avoids (Or.inr isQuote) written)
      have equals : Passes ['='] := passes_plain (by simp)
      have front := passes_append (passes_append (passes_spaces spaces) (passes_name isName))
        (passes_append (passes_spaces spacesAround) equals)
      have back := passes_append (passes_append (passes_spaces spacesBehind) value) (ih otherKeys)
      simpa using passes_append front back

/-- A tag ends at its own bracket. -/
theorem passes_tag {tag : Tag} {content : List Char} (written : tag.Writes content) :
    Passes content := by
  obtain ⟨⟨isName, keys, -⟩, text, blanks, attributes, spaces, rfl⟩ := written
  exact passes_append (passes_append (passes_name isName) (passes_attributes attributes keys))
    (passes_spaces spaces)

theorem tag_content_passed {content : List Char} (passes : Passes content) (rest : List Char) :
    tagContent none (content ++ '>' :: rest) = (content, some rest) := by
  rw [passes]
  simp [tagContent]

end Event

end Markup

end WireSchema
