import Mathlib.Data.List.Forall2
import WireSchema.Markup.Document
import WireSchema.Proofs.Tags

/-!
Documents as sequences of tokens: tags, texts and what carries no content. A text that is written
for tokens, with blanks between them, is read as events for these tokens. Each round of the reader
takes up at least one character, so it never runs out of rounds; without them its equations are
those of the tokens.
-/

namespace WireSchema

namespace Text

theorem byte_count_append (front back : List Char) :
    byteCount (front ++ back) = byteCount front + byteCount back := by
  have shift : ∀ (cs : List Char) (n : Nat),
      cs.foldl (fun n c => n + c.utf8Size) n = n + byteCount cs := by
    intro cs
    induction cs with
    | nil => exact fun n => rfl
    | cons c cs ih =>
        intro n
        rw [byteCount, List.foldl_cons, List.foldl_cons, ih, ih, Nat.zero_add, Nat.add_assoc]
  rw [byteCount, List.foldl_append, shift]
  rfl

end Text

namespace Markup

open Text

namespace Event

theorem cut_before_shorter {ends : List Char → Bool} {cs reversed content behind : List Char}
    (cut : cutBefore ends cs reversed = some (content, behind)) : behind.length < cs.length := by
  induction cs generalizing reversed with
  | nil => cases cut
  | cons c cs ih =>
      rw [cutBefore] at cut
      split at cut
      · cases cut
        exact Nat.lt_succ_self _
      · exact Nat.lt_succ_of_lt (ih cut)

theorem tag_content_shorter (quote : Option Char) (cs : List Char) :
    ((tagContent quote cs).2.getD []).length ≤ cs.length := by
  induction cs generalizing quote with
  | nil => exact Nat.le_refl _
  | cons c cs ih =>
      unfold tagContent
      split
      · exact Nat.le_succ _
      · exact Nat.le_succ_of_le (ih _)

/-- What is left behind a construct is no longer than what was left in front of it. -/
theorem after_opening_shorter {line : Nat → Nat} {cs behind : List Char} {position after : Nat}
    {event : Event} (step : afterOpening line cs position = some ⟨event, some (behind, after)⟩) :
    behind.length ≤ cs.length := by
  unfold afterOpening at step
  split at step
  · cases step
  · -- a construct that opens with `!` goes on behind its end
    split at step
    · cases step
    · split at step
      · cases step
      · split at step
        · cases step
        · rename_i cut
          cases step
          exact Nat.le_succ_of_le (Nat.le_of_lt (cut_before_shorter cut))
  · cases step
    rw [List.length_drop, List.length_cons]
    omega
  · simp only at step
    split at step
    · cases step
      rw [List.length_drop, List.length_cons]
      omega
    · cases step
  · cases step
    exact tag_content_shorter none cs

variable (line : Nat → Nat)

def opened (fuel : Nat) (cs : List Char) (position : Nat) : List Event :=
  match afterOpening line cs position with
  | none => []
  | some ⟨event, none⟩ => [event]
  | some ⟨event, some (behind, after)⟩ => event :: scan line fuel behind after

theorem scan_blank {cs : List Char} (blank : cs.dropWhile isSpace = []) (fuel position : Nat) :
    scan line fuel cs position = [] := by
  cases fuel with
  | zero => rfl
  | succ fuel => simp only [scan, blank]

theorem scan_opening {cs rest : List Char} (first : cs.dropWhile isSpace = '<' :: rest)
    (fuel position : Nat) :
    scan line (fuel + 1) cs position =
      opened line fuel rest (position + byteCount (cs.takeWhile isSpace) + 1) := by
  simp only [scan, first, if_pos, List.nil_append]
  rfl

theorem scan_text {cs body : List Char} (skipped : cs.dropWhile isSpace = body) {c : Char}
    (first : body.head? = some c) (other : c ≠ '<') (fuel position : Nat) :
    scan line (fuel + 1) cs position =
      .text (dropEndWhile isSpace (body.takeWhile (· != '<'))) ::
        opened line fuel ((body.drop (body.takeWhile (· != '<')).length).drop 1)
          (position + byteCount (cs.takeWhile isSpace) + byteCount (body.takeWhile (· != '<')) +
            min (body.drop (body.takeWhile (· != '<')).length).length 1) := by
  obtain ⟨rest, rfl⟩ := List.head?_eq_some_iff.mp first
  simp only [scan, skipped, if_neg other, List.singleton_append]
  rfl

theorem opened_congr {fuel fuel' : Nat} {cs : List Char}
    (same : ∀ behind after, behind.length ≤ cs.length →
      scan line fuel behind after = scan line fuel' behind after) (position : Nat) :
    opened line fuel cs position = opened line fuel' cs position := by
  unfold opened
  split
  · rfl
  · rfl
  · rename_i event behind after step
    exact congrArg (event :: ·) (same behind after (after_opening_shorter step))

/-- Rounds beyond the number of characters make no difference. -/
theorem scan_enough {fuel fuel' : Nat} {cs : List Char} (enough : cs.length < fuel)
    (enough' : cs.length < fuel') (position : Nat) :
    scan line fuel cs position = scan line fuel' cs position := by
  induction fuel generalizing fuel' cs position with
  | zero => omega
  | succ fuel ih =>
      obtain ⟨fuel', rfl⟩ := Nat.exists_eq_succ_of_ne_zero (Nat.ne_zero_of_lt enough')
      have same : ∀ rest position, rest.length < cs.length →
          opened line fuel rest position = opened line fuel' rest position := by
        intro rest position shorter
        apply opened_congr
        intro behind after notLonger
        exact ih (by omega) (by omega) after
      have kept : (cs.dropWhile isSpace).length ≤ cs.length :=
        (List.dropWhile_sublist isSpace).length_le
      cases first : cs.dropWhile isSpace with
      | nil => rw [scan_blank line first, scan_blank line first]
      | cons c rest =>
          rw [first] at kept
          by_cases isOpening : c = '<'
          · subst isOpening
            rw [scan_opening line first, scan_opening line first, same _ _ kept]
          · have shorter : (((c :: rest).drop
                ((c :: rest).takeWhile (· != '<')).length).drop 1).length < cs.length := by
              have some : ((c :: rest).takeWhile (· != '<')).length ≠ 0 := by
                simp [isOpening]
              rw [List.length_cons] at kept
              simp only [List.length_drop, List.length_cons]
              omega
            rw [scan_text line first rfl isOpening, scan_text line first rfl isOpening,
              same _ _ shorter]

def stream (cs : List Char) (position : Nat) : List Event := scan line (cs.length + 1) cs position

theorem stream_spaces {blanks : List Char} (spaces : IsSpaces blanks) (rest : List Char)
    (position : Nat) :
    stream line (blanks ++ rest) position = stream line rest (position + byteCount blanks) := by
  have skipped : ∀ fuel, scan line (fuel + 1) (blanks ++ rest) position =
      scan line (fuel + 1) rest (position + byteCount blanks) := by
    intro fuel
    simp only [scan, List.dropWhile_append_of_pos spaces, List.takeWhile_append_of_pos spaces,
      byte_count_append, Nat.add_assoc]
  rw [stream, skipped]
  apply scan_enough
  · rw [List.length_append]
    omega
  · exact Nat.lt_succ_self _

theorem stream_blank {blanks : List Char} (spaces : IsSpaces blanks) (position : Nat) :
    stream line blanks position = [] := by
  rw [← List.append_nil blanks, stream_spaces line spaces]
  rfl

theorem stream_opened (tail : List Char) (position : Nat) :
    stream line ('<' :: tail) position = opened line (tail.length + 1) tail (position + 1) :=
  scan_opening line rfl _ position

theorem stream_opening {tail behind : List Char} {position after : Nat} {event : Event}
    (step : afterOpening line tail (position + 1) = some ⟨event, some (behind, after)⟩) :
    stream line ('<' :: tail) position = event :: stream line behind after := by
  have notLonger := after_opening_shorter step
  simp only [stream_opened, opened, step]
  exact congrArg (event :: ·) (scan_enough line (by omega) (Nat.lt_succ_self _) after)

theorem not_space_of_not_blank {c : Char} (notBlank : isBlank c = false) : isSpace c = false := by
  cases isSpace : Text.isSpace c with
  | false => rfl
  | true =>
      simp only [Text.isSpace, Bool.or_eq_true, beq_iff_eq] at isSpace
      obtain ((rfl | rfl) | rfl) | rfl := isSpace <;> cases notBlank

theorem drop_end_spaces {cs blanks : List Char} {c : Char} (last : cs.getLast? = some c)
    (notSpace : isSpace c = false) (spaces : IsSpaces blanks) :
    dropEndWhile isSpace (cs ++ blanks) = cs := by
  have back : (blanks.reverse ++ cs.reverse).dropWhile isSpace = cs.reverse := by
    apply drop_word
    · exact fun c member => spaces c (List.mem_reverse.mp member)
    · rw [List.head?_reverse, last]
      rintro _ ⟨⟩
      exact notSpace
  rw [dropEndWhile, List.reverse_append, back, List.reverse_reverse]

/-- A text in front of a tag, with any blanks between them. -/
theorem stream_text {raw : List Char} (bare : Bare raw) (noOpening : '<' ∉ raw)
    {blanks : List Char} (spaces : IsSpaces blanks) (tail : List Char) (position : Nat) :
    ∃ after, stream line (raw ++ blanks ++ '<' :: tail) position =
      .text raw :: stream line ('<' :: tail) after := by
  obtain ⟨first, isFirst, notBlank⟩ := bare.first
  obtain ⟨last, isLast, notBlankEither⟩ := bare.last
  obtain ⟨more, rfl⟩ := List.head?_eq_some_iff.mp isFirst
  have notSpace := not_space_of_not_blank notBlank
  have other : first ≠ '<' := fun same => noOpening (same ▸ List.mem_cons_self)
  have inText : ∀ c ∈ first :: more ++ blanks, (c != '<') = true := by
    intro c member
    rw [bne_iff_ne]
    rintro rfl
    rcases List.mem_append.mp member with inRaw | inBlanks
    · exact noOpening inRaw
    · cases spaces _ inBlanks
  have text : (first :: more ++ blanks ++ '<' :: tail).takeWhile (· != '<') =
      first :: more ++ blanks :=
    take_word inText (by rintro _ ⟨⟩; rfl)
  have front : (first :: more ++ blanks ++ '<' :: tail).takeWhile isSpace = [] :=
    List.takeWhile_cons_of_neg (by rw [notSpace]; decide)
  have whole : (first :: more ++ blanks ++ '<' :: tail).dropWhile isSpace =
      first :: more ++ blanks ++ '<' :: tail :=
    List.dropWhile_cons_of_neg (by rw [notSpace]; decide)
  have ending : dropEndWhile isSpace (first :: more ++ blanks) = first :: more :=
    drop_end_spaces isLast (not_space_of_not_blank notBlankEither) spaces
  refine ⟨position + byteCount (first :: more ++ blanks), ?_⟩
  have rest : (first :: more ++ blanks ++ '<' :: tail).drop (first :: more ++ blanks).length =
      '<' :: tail := List.drop_left
  have counted : min ('<' :: tail).length 1 = 1 := Nat.min_eq_right (Nat.le_add_left 1 _)
  rw [stream, scan_text line whole rfl other, text, front, ending, rest, counted, stream_opened]
  refine congrArg (Event.text (first :: more) :: ·) (opened_congr line ?_ _)
  intro behind after (notLonger : behind.length ≤ tail.length)
  apply scan_enough
  · simp only [List.length_append, List.length_cons]
    omega
  · exact Nat.lt_succ_of_le notLonger

end Event

inductive Token where
  | start (tag : Tag)
  | empty (tag : Tag)
  | finish (name : String)
  | text (content : List Char)
  | aside

inductive Event.Reads : Event → Token → Prop where
  | start {content : List Char} {line : Nat} {tag : Tag} (read : Tag.ofContent content = .ok tag) :
      Reads (.start content line) (.start tag)
  | empty {content : List Char} {line : Nat} {tag : Tag} (read : Tag.ofContent content = .ok tag) :
      Reads (.empty content line) (.empty tag)
  | finish {content : List Char} {line : Nat} {name : String}
      (named : String.ofList (Progress.endName content) = name) :
      Reads (.finish content line) (.finish name)
  | text {raw content : List Char} (decoded : Escape.decode raw = .ok content) :
      Reads (.text raw) (.text content)
  | aside : Reads .aside .aside

/-- The inside of a comment: no two hyphens follow each other, the closing ones included. -/
def IsComment (body : List Char) : Prop := ¬ ['-', '-'] <:+: body ++ ['-']

inductive Token.Spells : Token → List Char → Prop where
  | start {tag : Tag} {content : List Char} (written : tag.Writes content) :
      Spells (.start tag) ('<' :: content ++ ['>'])
  | empty {tag : Tag} {content : List Char} (written : tag.Writes content) :
      Spells (.empty tag) ('<' :: content ++ ['/', '>'])
  | finish {name : String} {blanks : List Char} (isName : IsName name.toList)
      (spaces : IsSpaces blanks) :
      Spells (.finish name) ('<' :: '/' :: name.toList ++ blanks ++ ['>'])
  | comment {body : List Char} (isComment : IsComment body) :
      Spells .aside ('<' :: '!' :: '-' :: '-' :: body ++ ['-', '-', '>'])
  | declaration {body : List Char} (nonempty : body ≠ []) (noBracket : '>' ∉ body) :
      Spells .aside ('<' :: '?' :: body ++ ['?', '>'])

namespace Event

variable (line : Nat → Nat)

/-- Behind a name comes a tag that opens an element; a slash at its end closes it as well. -/
theorem after_opening_tag {c : Char} (isFirst : IsNameChar c) {more content rest : List Char}
    (found : tagContent none (c :: more) = (content, some rest)) (position : Nat) :
    ∃ after, afterOpening line (c :: more) position = some
      ⟨if content.getLast? == some '/' then .empty content.dropLast (line after)
        else .start content (line after), some (rest, after)⟩ := by
  refine ⟨position + byteCount content + 1, ?_⟩
  unfold afterOpening
  split
  · rename_i none
    cases none
  · rename_i isBang
    cases isBang
    exact absurd isFirst.2 (by decide)
  · rename_i isSlash
    cases isSlash
    exact absurd isFirst.2 (by decide)
  · rename_i isMark
    cases isMark
    exact absurd isFirst.2 (by decide)
  · simp only [found]
    rfl

theorem cut_before_end {ends : List Char → Bool} {cs reversed : List Char}
    (inside : ∀ front back, cs = front ++ '>' :: back → ends (front.reverse ++ reversed) = false)
    (atEnd : ends (cs.reverse ++ reversed) = true) (rest : List Char) :
    cutBefore ends (cs ++ '>' :: rest) reversed = some (reversed.reverse ++ cs, rest) := by
  induction cs generalizing reversed with
  | nil =>
      have ended : ends reversed = true := atEnd
      simp [cutBefore, ended]
  | cons c cs ih =>
      have goesOn : ¬ (c = '>' && ends reversed) = true := by
        rw [Bool.and_eq_true, decide_eq_true_eq]
        rintro ⟨rfl, ended⟩
        have early := inside [] cs rfl
        rw [List.reverse_nil, List.nil_append, ended] at early
        cases early
      have later : ∀ front back, cs = front ++ '>' :: back →
          ends (front.reverse ++ c :: reversed) = false := by
        rintro front back rfl
        have known := inside (c :: front) back rfl
        rwa [List.reverse_cons, List.append_assoc] at known
      rw [List.reverse_cons, List.append_assoc] at atEnd
      rw [List.cons_append, cutBefore, if_neg goesOn, ih later atEnd, List.reverse_cons,
        List.append_assoc]
      rfl

/-- A comment ends at its own end, since only there two hyphens stand in front of a bracket. -/
theorem cut_comment {body : List Char} (isComment : IsComment body) (rest : List Char) :
    cutBefore endsComment ('-' :: '-' :: body ++ ['-', '-'] ++ '>' :: rest) [] =
      some ('-' :: '-' :: body ++ ['-', '-'], rest) := by
  apply cut_before_end
  · intro front back whole
    rw [List.append_nil]
    cases ended : endsComment front.reverse with
    | false => rfl
    | true =>
        simp only [endsComment, List.length_reverse, Bool.and_eq_true, decide_eq_true_eq,
          beq_iff_eq] at ended
        obtain ⟨long, hyphens⟩ := ended
        obtain ⟨_ | ⟨a, _ | ⟨b, inner⟩⟩, rfl⟩ : ∃ start, front = start ++ ['-', '-'] := by
          refine ⟨(front.reverse.drop 2).reverse, List.reverse_inj.mp ?_⟩
          rw [List.reverse_append, List.reverse_reverse]
          exact (List.take_append_drop 2 front.reverse).symm.trans (by rw [hyphens]; rfl)
        · simp at long
        · simp at long
        · -- The hyphens belong to the comment, together with the one that is taken for its end.
          simp only [List.cons_append, List.cons.injEq] at whole
          obtain ⟨-, -, inBody⟩ := whole
          have left : (body ++ ['-', '-']).dropLast = body ++ ['-'] :=
            List.dropLast_append_of_ne_nil (List.cons_ne_nil _ _)
          have right : (inner ++ ['-', '-'] ++ '>' :: back).dropLast =
              inner ++ ['-', '-'] ++ ('>' :: back).dropLast :=
            List.dropLast_append_of_ne_nil (List.cons_ne_nil _ _)
          have cut := left.symm.trans ((congrArg List.dropLast inBody).trans right)
          exact absurd ⟨inner, _, cut.symm⟩ isComment
  · simp [endsComment]

theorem after_opening_comment {body : List Char} (isComment : IsComment body) (rest : List Char)
    (position : Nat) :
    ∃ after, afterOpening line ('!' :: '-' :: '-' :: body ++ ['-', '-', '>'] ++ rest) position =
      some ⟨.aside, some (rest, after)⟩ := by
  have cut := cut_comment isComment rest
  simp only [List.cons_append, List.append_assoc, List.nil_append] at cut
  simp only [afterOpening, bang?, List.cons_append, List.append_assoc, List.nil_append, cut]
  exact ⟨_, rfl⟩

theorem cut_at_bracket {content : List Char} (noBracket : '>' ∉ content) (rest : List Char) :
    (content ++ '>' :: rest).takeWhile (· != '>') = content ∧
      (content ++ '>' :: rest).drop (content.length + 1) = rest := by
  constructor
  · apply take_word
    · exact fun c member => bne_iff_ne.mpr fun same => noBracket (same ▸ member)
    · rintro _ ⟨⟩
      rfl
  · rw [List.drop_append, List.drop_eq_nil_of_le (Nat.le_succ _), Nat.add_sub_cancel_left]
    rfl

theorem after_opening_finish {content : List Char} (noBracket : '>' ∉ content) (rest : List Char)
    (position : Nat) :
    ∃ reported after, afterOpening line ('/' :: (content ++ '>' :: rest)) position =
      some ⟨.finish content reported, some (rest, after)⟩ := by
  obtain ⟨inside, behind⟩ := cut_at_bracket noBracket rest
  simp only [afterOpening, inside, behind]
  exact ⟨_, _, rfl⟩

theorem after_opening_declaration {body : List Char} (nonempty : body ≠ [])
    (noBracket : '>' ∉ body) (rest : List Char) (position : Nat) :
    ∃ after, afterOpening line ('?' :: (body ++ ['?'] ++ '>' :: rest)) position =
      some ⟨.aside, some (rest, after)⟩ := by
  have stillNone : '>' ∉ body ++ ['?'] := by simp [noBracket]
  obtain ⟨inside, behind⟩ := cut_at_bracket stillNone rest
  obtain ⟨first, more, rfl⟩ := List.exists_cons_of_ne_nil nonempty
  have long : 2 < byteCount (first :: more ++ ['?']) + 1 := by
    have whole : first :: more ++ ['?'] = [first] ++ more ++ ['?'] := rfl
    have positive : 0 < byteCount [first] := by
      rw [byteCount, List.foldl_cons, List.foldl_nil, Nat.zero_add]
      exact first.utf8Size_pos
    have mark : byteCount ['?'] = 1 := rfl
    rw [whole, byte_count_append, byte_count_append, mark]
    omega
  simp only [afterOpening, inside, behind, List.getLast?_concat, beq_self_eq_true, long,
    decide_true, Bool.and_self, if_true]
  exact ⟨_, rfl⟩

theorem end_name_written {name blanks : List Char} (isName : IsName name)
    (spaces : IsSpaces blanks) : Progress.endName (name ++ blanks) = name := by
  have notSpace := (isName.chars _ (List.getLast_mem isName.nonempty)).1
  have dropped :=
    drop_end_spaces (List.getLast?_eq_some_getLast isName.nonempty) notSpace spaces
  obtain ⟨first, more, rfl, -⟩ := name_first isName
  rw [Progress.endName, dropped]

def EndsPlain (cs : List Char) : Prop := ∀ c ∈ cs.getLast?, c ≠ '/'

theorem ends_plain_append {front back : List Char} (plainFront : EndsPlain front)
    (plainBack : EndsPlain back) : EndsPlain (front ++ back) := by
  intro c last
  rw [List.getLast?_append] at last
  cases found : back.getLast? with
  | none =>
      rw [found] at last
      exact plainFront c last
  | some d =>
      rw [found] at last
      cases last
      exact plainBack c found

theorem ends_plain_behind (front : List Char) {quote : Char} {back : List Char}
    (isQuote : quote = '"' ∨ quote = '\'') (plainBack : EndsPlain back) :
    EndsPlain (front ++ quote :: back) := by
  have plain : EndsPlain ([quote] ++ back) := by
    apply ends_plain_append _ plainBack
    rintro _ ⟨⟩
    obtain rfl | rfl := isQuote <;> decide
  have same : (front ++ quote :: back).getLast? = ([quote] ++ back).getLast? := by
    rw [List.getLast?_append, List.singleton_append, List.getLast?_cons, Option.some_or]
  rwa [EndsPlain, same]

theorem ends_plain_of_forall {cs : List Char} (plain : ∀ c ∈ cs, c ≠ '/') : EndsPlain cs :=
  fun c last => plain c (List.mem_of_getLast? last)

theorem attributes_end_plain {attributes : List (String × String)} {text : List Char}
    (written : Tag.WritesAttributes attributes text) : EndsPlain text := by
  induction written with
  | nil => exact nofun
  | cons _ _ _ _ isQuote _ _ ih => exact ends_plain_behind _ isQuote ih

theorem tag_ends_plain {tag : Tag} {content : List Char} (written : tag.Writes content) :
    EndsPlain content := by
  obtain ⟨⟨isName, -, -⟩, text, blanks, attributes, spaces, rfl⟩ := written
  refine ends_plain_append (ends_plain_append ?_ (attributes_end_plain attributes)) ?_
  · apply ends_plain_of_forall
    rintro _ member rfl
    exact absurd (isName.chars _ member).2 (by decide)
  · apply ends_plain_of_forall
    rintro _ member rfl
    cases spaces _ member

/-- A tag that opens an element is read up to its own bracket. -/
theorem stream_tag {tag : Tag} {content : List Char} (written : tag.Writes content)
    {slash : List Char} (passes : Passes slash) (rest : List Char) (position : Nat) :
    ∃ after, stream line ('<' :: (content ++ slash ++ '>' :: rest)) position =
      (if (content ++ slash).getLast? == some '/' then
        Event.empty (content ++ slash).dropLast (line after)
      else .start (content ++ slash) (line after)) :: stream line rest after := by
  have found := tag_content_passed (passes_append (passes_tag written) passes) rest
  obtain ⟨⟨isName, -, -⟩, text, blanks, -, -, rfl⟩ := written
  obtain ⟨first, more, spelled, isFirst, -⟩ := name_first isName
  rw [spelled] at found ⊢
  obtain ⟨after, opened⟩ := after_opening_tag line isFirst found (position + 1)
  exact ⟨after, stream_opening line opened⟩

/-- The markup of a token is read as an event for it, and reading goes on behind it. -/
theorem stream_token {t : Token} {w : List Char} (spells : t.Spells w) (rest : List Char)
    (position : Nat) :
    ∃ event after, event.Reads t ∧
      stream line (w ++ rest) position = event :: stream line rest after := by
  cases spells with
  | @start tag content written =>
      obtain ⟨after, read⟩ := stream_tag line written (passes_plain (List.forall_mem_nil _)) rest
        position
      have plain : (content.getLast? == some '/') = false := by
        rw [beq_eq_false_iff_ne]
        exact fun slash => tag_ends_plain written _ slash rfl
      rw [List.append_nil, plain, if_neg Bool.false_ne_true] at read
      rw [List.cons_append, List.cons_append, List.append_assoc]
      exact ⟨_, after, .start (Tag.of_content_written written), read⟩
  | @empty tag content written =>
      have passes : Passes ['/'] := passes_plain (by simp)
      obtain ⟨after, read⟩ := stream_tag line written passes rest position
      rw [List.getLast?_concat, beq_self_eq_true, if_pos rfl, List.dropLast_concat] at read
      simp only [List.cons_append, List.append_assoc, List.nil_append] at read ⊢
      exact ⟨_, after, .empty (Tag.of_content_written written), read⟩
  | @finish name blanks isName spaces =>
      have noBracket : '>' ∉ name.toList ++ blanks := by
        intro member
        rcases List.mem_append.mp member with inName | inBlanks
        · exact absurd (isName.chars _ inName).2 (by decide)
        · cases spaces _ inBlanks
      obtain ⟨reported, after, opened⟩ := after_opening_finish line noBracket rest (position + 1)
      have named : String.ofList (Progress.endName (name.toList ++ blanks)) = name := by
        rw [end_name_written isName spaces, String.ofList_toList]
      have whole : '<' :: '/' :: name.toList ++ blanks ++ ['>'] ++ rest =
          '<' :: '/' :: (name.toList ++ blanks ++ '>' :: rest) := List.append_assoc _ _ _
      rw [whole]
      exact ⟨_, after, .finish named, stream_opening line opened⟩
  | comment isComment =>
      obtain ⟨after, opened⟩ := after_opening_comment line isComment rest (position + 1)
      exact ⟨_, after, .aside, stream_opening line opened⟩
  | @declaration body nonempty noBracket =>
      obtain ⟨after, opened⟩ :=
        after_opening_declaration line nonempty noBracket rest (position + 1)
      simp only [List.cons_append, List.append_assoc, List.nil_append] at opened ⊢
      exact ⟨_, after, .aside, stream_opening line opened⟩

end Event

/-- The text written for tokens: blanks may stand around each, and markup stands behind a text. -/
inductive Spelled : List Token → List Char → Prop where
  | nil {blanks : List Char} (spaces : IsSpaces blanks) : Spelled [] blanks
  | markup {t : Token} {tokens : List Token} {blanks w rest : List Char}
      (spaces : IsSpaces blanks) (spells : t.Spells w) (others : Spelled tokens rest) :
      Spelled (t :: tokens) (blanks ++ w ++ rest)
  | text {content : List Char} {t : Token} {tokens : List Token}
      {blanks raw between w rest : List Char} (spaces : IsSpaces blanks)
      (written : Escape.Writes '<' raw content) (bare : Bare content)
      (spacesBetween : IsSpaces between) (spells : t.Spells w) (others : Spelled tokens rest) :
      Spelled (.text content :: t :: tokens) (blanks ++ raw ++ between ++ w ++ rest)

theorem spells_opening {t : Token} {w : List Char} (spells : t.Spells w) :
    ∃ tail, w = '<' :: tail := by
  cases spells <;> exact ⟨_, rfl⟩

/-- What is written for tokens is read as these tokens. -/
theorem Event.stream_spelled (line : Nat → Nat) {tokens : List Token} {text : List Char}
    (spelled : Spelled tokens text) (position : Nat) :
    List.Forall₂ Reads (stream line text position) tokens := by
  induction spelled generalizing position with
  | nil spaces =>
      rw [stream_blank line spaces]
      exact .nil
  | markup spaces spells _ ih =>
      obtain ⟨event, after, reads, read⟩ := stream_token line spells _ _
      rw [List.append_assoc, stream_spaces line spaces, read]
      exact .cons reads (ih after)
  | @text _ _ _ blanks raw between w rest spaces written bare spacesBetween spells _ ih =>
      have noOpening : '<' ∉ raw := Escape.written_avoids (.inl rfl) written
      obtain ⟨tail, opening⟩ := spells_opening spells
      obtain ⟨middle, text⟩ := stream_text line (Escape.written_bare written bare) noOpening
        spacesBetween (tail ++ rest) (position + byteCount blanks)
      rw [← List.cons_append, ← opening] at text
      obtain ⟨event, after, reads, read⟩ := stream_token line spells rest middle
      have whole : blanks ++ raw ++ between ++ w ++ rest =
          blanks ++ (raw ++ between ++ (w ++ rest)) := by
        simp only [List.append_assoc]
      rw [whole, stream_spaces line spaces, text, read]
      exact .cons (.text (Escape.decode_written written)) (.cons reads (ih after))

/-- A document is read from its first character on, unless that is a byte order mark. -/
theorem Event.of_document_stream {source : String} (noMark : source.toList.head? ≠ some '\uFEFF') :
    ofDocument source = stream (lineAt (lineBreaks source.toList 0)) source.toList 0 := by
  cases chars : source.toList with
  | nil => simp only [ofDocument, ofChars, stream, chars]
  | cons c rest =>
      have other : c.toNat ≠ 0xFEFF := by
        intro isMark
        apply noMark
        rw [chars, List.head?_cons]
        exact congrArg some (Char.toNat_inj.mp isMark)
      simp only [ofDocument, ofChars, stream, chars, if_neg other]

end Markup

end WireSchema
