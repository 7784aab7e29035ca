import WireSchema.Environment
import WireSchema.Reuse

/-!
Windows inside windows. A field nests in a window if its own window lies within that, and so on for
the fields inside it down to the innermost. A field that was taken over from elsewhere is moved
into a window it was not written for; these statements say when it nests there.
-/

namespace WireSchema

namespace Window

structure Fits (w : Window) (version : Nat) (outer : Window) : Prop where
  proper : w.since < w.deprecated
  starts : outer.since ≤ w.since
  ends : w.deprecated ≤ outer.deprecated
  known : w.since ≤ version

theorem fits_self {w outer : Window} {version : Nat} (fits : w.Fits version outer) :
    w.Fits version w :=
  ⟨fits.proper, Nat.le_refl _, Nat.le_refl _, fits.known⟩

end Window

def Slot.inlined? {α : Type} : Slot α → Option α
  | .inline part => some part
  | .external _ => none

def Payload.parts {α : Type} : Payload α → List α
  | .list spec => (spec.element.bind Slot.inlined?).toList
  | .optional spec => (spec.inner.bind Slot.inlined?).toList
  | payload => payload.members

namespace Field

def parts (f : Field) : List Field := f.payload.parts

inductive Reaches : Field → Field → Prop where
  | refl (f : Field) : Reaches f f
  | inside {f part g : Field} (member : part ∈ f.parts) (below : Reaches part g) : Reaches f g

def Nests (version : Nat) (outer : Window) (f : Field) : Prop :=
  f.window.Fits version outer ∧
    ∀ g, f.Reaches g → ∀ part ∈ g.parts, part.window.Fits version g.window

theorem nests_iff (version : Nat) (outer : Window) (f : Field) :
    f.Nests version outer ↔
      f.window.Fits version outer ∧ ∀ part ∈ f.parts, part.Nests version f.window := by
  constructor
  · rintro ⟨fits, below⟩
    refine ⟨fits, fun part member => ⟨below f (.refl f) part member, ?_⟩⟩
    intro g reached
    exact below g (.inside member reached)
  · rintro ⟨fits, nested⟩
    refine ⟨fits, ?_⟩
    intro g reached part member
    cases reached with
    | refl => exact (nested part member).1
    | inside first below => exact (nested _ first).2 g below part member

theorem nests_of_reaches {version : Nat} {outer : Window} {f g : Field}
    (nested : f.Nests version outer) (reached : f.Reaches g) :
    ∃ around, g.Nests version around := by
  induction reached generalizing outer with
  | refl f => exact ⟨outer, nested⟩
  | inside member below ih => exact ih (((nests_iff _ _ _).mp nested).2 _ member)

theorem nests_moved_iff {version : Nat} {held outer : Window} {f : Field}
    (nested : f.Nests version held) :
    f.Nests version outer ↔
      outer.since ≤ f.window.since ∧ f.window.deprecated ≤ outer.deprecated := by
  constructor
  · intro moved
    exact ⟨moved.1.starts, moved.1.ends⟩
  · rintro ⟨starts, ends⟩
    exact ⟨⟨nested.1.proper, starts, ends, nested.1.known⟩, nested.2⟩

@[simp] theorem lift_to_window (since : Nat) (f : Field) :
    (f.liftTo since).window = ⟨max f.window.since since, f.window.deprecated⟩ := rfl

@[simp] theorem lift_to_parts (since : Nat) (f : Field) : (f.liftTo since).parts = f.parts := rfl

/-- A field that nests somewhere is lifted into another window: it nests there exactly if it ends
after that starts and no later than that ends, and none of its parts starts before. Only the field
itself is lifted, and only its start. -/
theorem nests_lifted_iff {version : Nat} {held outer : Window} {f : Field}
    (nested : f.Nests version held) (known : outer.since ≤ version) :
    (f.liftTo outer.since).Nests version outer ↔
      outer.since < f.window.deprecated ∧ f.window.deprecated ≤ outer.deprecated ∧
        ∀ part ∈ f.parts, outer.since ≤ part.window.since := by
  obtain ⟨own, inside⟩ := (nests_iff _ _ _).mp nested
  have proper := own.proper
  have knownOwn := own.known
  rw [nests_iff]
  simp only [lift_to_window, lift_to_parts]
  constructor
  · rintro ⟨fits, parts⟩
    have properLifted := fits.proper
    have ends := fits.ends
    simp only at properLifted ends
    refine ⟨by omega, ends, ?_⟩
    intro part member
    have starts := (parts part member).1.starts
    simp only at starts
    omega
  · rintro ⟨starts, ends, parts⟩
    refine ⟨⟨?_, ?_, ends, ?_⟩, ?_⟩
    · simp only
      omega
    · exact Nat.le_max_right _ _
    · simp only
      omega
    · intro part member
      -- Its window stays as it is, while that around it starts later.
      have nestedPart := inside part member
      refine (nests_moved_iff nestedPart).mpr ⟨?_, nestedPart.1.ends⟩
      have startsOwn := nestedPart.1.starts
      have startsOuter := parts part member
      simp only
      omega

end Field

namespace Environment

/-- The parts that a reused payload hands to a copy in force from `since` on. The members of a
bitfield are not among them: they all get the window of the copy. -/
def handedOn (since : Nat) : Payload Field → List Field
  | .bitfield _ => []
  | .bundle spec => Field.adopt since spec.members
  | .variant spec => Field.adopt since spec.members
  | payload => payload.parts

def inheritedParts (env : Environment) (f : Field) : List Field :=
  match f.profile.reusedFrom.bind env.find? with
  | some handle => handedOn f.window.since handle.target.payload
  | none => []

end Environment

namespace Field

/-- Each part of the field fits into it, and so on below, up to the parts it has from a copy. -/
inductive Written (env : Environment) : Field → Prop where
  | intro {f : Field}
      (fits : ∀ part ∈ f.parts, part ∉ env.inheritedParts f →
        part.window.Fits env.context.version f.window)
      (below : ∀ part ∈ f.parts, part ∉ env.inheritedParts f → Written env part) : Written env f

def CopiesNest (env : Environment) (f : Field) : Prop :=
  ∀ g, f.Reaches g → ∀ part ∈ g.parts, part ∈ env.inheritedParts g →
    part.Nests env.context.version g.window

theorem copies_nest_of_part {env : Environment} {f part : Field} (copies : f.CopiesNest env)
    (member : part ∈ f.parts) : part.CopiesNest env :=
  fun g reached => copies g (.inside member reached)

theorem copies_nest_of_nests {env : Environment} {outer : Window} {f : Field}
    (nested : f.Nests env.context.version outer) : f.CopiesNest env := by
  intro g reached part member _
  obtain ⟨around, nestedThere⟩ := nests_of_reaches nested reached
  exact ((nests_iff _ _ _).mp nestedThere).2 part member

theorem nests_of_written {env : Environment} {outer : Window} {f : Field} (written : f.Written env)
    (fits : f.window.Fits env.context.version outer) (copies : f.CopiesNest env) :
    f.Nests env.context.version outer := by
  -- A part that was written is the next field down; one from a copy ends the induction.
  induction written generalizing outer with
  | @intro f partFits _ ih =>
      refine (nests_iff _ _ _).mpr ⟨fits, fun part member => ?_⟩
      by_cases inherited : part ∈ env.inheritedParts f
      · exact copies f (.refl f) part member inherited
      · exact ih part member inherited (partFits part member inherited)
          (copies_nest_of_part copies member)

end Field

end WireSchema
