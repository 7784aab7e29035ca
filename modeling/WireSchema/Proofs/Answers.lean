import WireSchema.Field.Footprint
import WireSchema.Field.Resolve
import WireSchema.Field.Value

/-!
What fields answer when they are asked for their room on the wire, for values and for the fields and
values that a path leads to. The answers depend on the payload alone, and not on all of it.
-/

namespace WireSchema

namespace Payload

variable {α : Type}

def shown : Payload α → Payload α
  | .float spec => .float { spec with declaredRanges := [] }
  | payload => payload

end Payload

namespace Field

variable {f g : Field}

theorem shown_cases (same : f.payload.shown = g.payload.shown) :
    ∃ profile profile', (∃ payload, f = ⟨profile, payload⟩ ∧ g = ⟨profile', payload⟩) ∨
      ∃ spec ranges, f = ⟨profile, .float spec⟩ ∧
        g = ⟨profile', .float { spec with declaredRanges := ranges }⟩ := by
  obtain ⟨profile, payload⟩ := f
  obtain ⟨profile', payload'⟩ := g
  refine ⟨profile, profile', ?_⟩
  simp only at same
  cases payload with
  | float s =>
      cases payload' with
      | float t =>
          simp only [Payload.shown, Payload.float.injEq, FloatSpec.mk.injEq] at same
          cases s
          cases t
          obtain ⟨rfl, rfl, rfl, rfl, rfl, rfl, rfl, rfl, -, rfl, rfl, rfl⟩ := same
          exact Or.inr ⟨_, _, rfl, rfl⟩
      | _ => nomatch same
  | _ =>
      cases payload' with
      | float t => nomatch same
      | _ => exact Or.inl ⟨_, rfl, congrArg (Field.mk profile') same.symm⟩

theorem holder_congr (same : f.payload.shown = g.payload.shown) (path : String) :
    f.holder? path = g.holder? path ∨
      f.holder? path = some (f, path) ∧ g.holder? path = some (g, path) := by
  obtain ⟨profile, profile', ⟨payload, rfl, rfl⟩ | ⟨spec, ranges, rfl, rfl⟩⟩ := shown_cases same
  · cases payload with
    | bitfield spec | bundle spec | variant spec =>
        simp only [holder?]
        split
        · exact Or.inl rfl
        · exact Or.inr ⟨rfl, rfl⟩
    | ref spec =>
        obtain ⟨_ | handle, bitLength⟩ := spec <;> exact Or.inl (by simp only [holder?])
    | optional spec =>
        obtain ⟨_ | _ | _, _, _, _, _⟩ := spec <;> exact Or.inl (by simp only [holder?])
    | _ => exact Or.inr ⟨by simp only [holder?], by simp only [holder?]⟩
  · exact Or.inr ⟨by simp only [holder?], by simp only [holder?]⟩

/-- A path inside the one field leads where it leads inside the other; what it finds in the field
itself is found in the other itself. -/
def LeadsAs (f g : Field) (path : String) : Prop :=
  f.inner path = g.inner path ∨
    f.inner path = .field f ∧ g.inner path = .field g ∨
    f.inner path = .innerValue f path ∧ g.inner path = .innerValue g path

theorem inner_leaf_congr {path : String}
    (atF : f.inner path =
      if path = "" then .field f else if f.hasValue path then .innerValue f path else .invalid)
    (atG : g.inner path =
      if path = "" then .field g else if g.hasValue path then .innerValue g path else .invalid)
    (valued : f.hasValue path = g.hasValue path) : f.LeadsAs g path := by
  rw [LeadsAs, atF, atG, valued]
  by_cases here : path = ""
  · exact Or.inr (Or.inl ⟨if_pos here, if_pos here⟩)
  · rw [if_neg here, if_neg here]
    by_cases known : g.hasValue path = true
    · exact Or.inr (Or.inr ⟨if_pos known, if_pos known⟩)
    · exact Or.inl (by rw [if_neg known, if_neg known])

theorem inner_congr (same : f.payload.shown = g.payload.shown) (path : String) :
    f.LeadsAs g path := by
  obtain ⟨profile, profile', ⟨payload, rfl, rfl⟩ | ⟨spec, ranges, rfl, rfl⟩⟩ := shown_cases same
  · cases payload with
    | bitfield spec | bundle spec | variant spec =>
        simp only [LeadsAs, inner]
        split
        · exact Or.inr (Or.inl ⟨rfl, rfl⟩)
        · exact Or.inl rfl
    | ref spec =>
        obtain ⟨_ | handle, bitLength⟩ := spec
        · exact inner_leaf_congr (by simp only [inner]) (by simp only [inner]) rfl
        · simp only [LeadsAs, inner]
          split
          · exact Or.inr (Or.inl ⟨rfl, rfl⟩)
          · exact Or.inl rfl
    | optional spec =>
        obtain ⟨_ | _ | _, _, _, _, _⟩ := spec
        · exact inner_leaf_congr (by simp only [inner]) (by simp only [inner]) rfl
        all_goals
          simp only [LeadsAs, inner]
          split
          · exact Or.inr (Or.inl ⟨rfl, rfl⟩)
          · exact Or.inl rfl
    | _ => exact inner_leaf_congr (by simp only [inner]) (by simp only [inner]) rfl
  · exact inner_leaf_congr (by simp only [inner]) (by simp only [inner]) rfl

theorem leads_as_kind {path : String} (alike : f.LeadsAs g path) :
    (f.inner path).kind = (g.inner path).kind := by
  rcases alike with same | ⟨atF, atG⟩ | ⟨atF, atG⟩
  · rw [same]
  · rw [atF, atG]
    rfl
  · rw [atF, atG]
    rfl

/-- A path starts at the first member of its first segment's name. -/
theorem inner_member_named (members : List Field) (first rest : String) :
    innerMember members first rest =
      ((named? members first).map fun m => m.inner rest).getD .invalid := by
  induction members with
  | nil =>
      rw [innerMember]
      rfl
  | cons m others ih =>
      rw [innerMember, named?, List.find?_cons]
      by_cases here : (m.name == first) = true
      · rw [if_pos here, here]
        rfl
      · rw [if_neg here, ih, Bool.eq_false_iff.mpr here]
        rfl

theorem footprint_congr (same : f.payload.shown = g.payload.shown) : f.footprint = g.footprint := by
  obtain ⟨profile, profile', ⟨payload, rfl, rfl⟩ | ⟨spec, ranges, rfl, rfl⟩⟩ := shown_cases same
  · cases payload <;> simp only [footprint]
  · simp only [footprint]

theorem own_congr (same : f.payload.shown = g.payload.shown) (path : String) :
    f.ownNumeric? path = g.ownNumeric? path ∧ f.ownReal? path = g.ownReal? path ∧
      f.ownBool? path = g.ownBool? path ∧ f.ownText? path = g.ownText? path ∧
      f.ownData? path = g.ownData? path := by
  obtain ⟨_, _, ⟨payload, rfl, rfl⟩ | ⟨spec, ranges, rfl, rfl⟩⟩ := shown_cases same
  · exact ⟨rfl, rfl, rfl, rfl, rfl⟩
  · exact ⟨rfl, rfl, rfl, rfl, rfl⟩

/-- Both fields give the same answers: to what room they take, how many members they have, which
values they hold and where paths lead. A path to the one itself is one to the other itself. -/
structure AnswersAs (f g : Field) : Prop where
  footprint : f.footprint = g.footprint
  members : f.members.length = g.members.length
  numeric : ∀ path, f.numeric? path = g.numeric? path
  real : ∀ path, f.real? path = g.real? path
  bool : ∀ path, f.bool? path = g.bool? path
  text : ∀ path, f.text? path = g.text? path
  data : ∀ path, f.data? path = g.data? path
  inner : ∀ path, f.LeadsAs g path

theorem value_congr {α : Type} {own : Field → String → Option α}
    (same : f.payload.shown = g.payload.shown) (ownSame : ∀ path, own f path = own g path)
    (path : String) :
    ((f.holder? path).bind fun (h, rest) => own h rest) =
      (g.holder? path).bind fun (h, rest) => own h rest := by
  rcases holder_congr same path with equal | ⟨atF, atG⟩
  · rw [equal]
  · rw [atF, atG]
    exact ownSame path

theorem answers_of_shown (same : f.payload.shown = g.payload.shown) : f.AnswersAs g where
  footprint := footprint_congr same
  members := by
    obtain ⟨_, _, ⟨payload, rfl, rfl⟩ | ⟨spec, ranges, rfl, rfl⟩⟩ := shown_cases same
    · rfl
    · rfl
  numeric := value_congr same fun path => (own_congr same path).1
  real := value_congr same fun path => (own_congr same path).2.1
  bool := value_congr same fun path => (own_congr same path).2.2.1
  text := value_congr same fun path => (own_congr same path).2.2.2.1
  data := value_congr same fun path => (own_congr same path).2.2.2.2
  inner := inner_congr same

end Field

end WireSchema
