import WireSchema.Proofs.Slots

/-!
Fields in layers. A reference and an optional are layers around another field, and the core of a
field is what is left once all of them are taken off. What holds of a field as soon as it holds of
the one right behind it is proved by induction on the layers.
-/

namespace WireSchema.Field

def core : Field → Field
  | ⟨_, .ref ⟨some ⟨_, _, target⟩, _⟩⟩ => core target
  | ⟨_, .optional ⟨some (.inline inner), _, _, _, _⟩⟩ => core inner
  | ⟨_, .optional ⟨some (.external ⟨_, _, inner⟩), _, _, _, _⟩⟩ => core inner
  | f => f

/-- `f` is a reference or an optional, and `inner` stands right behind it. -/
inductive Wraps : Field → Field → Prop where
  | ref (profile : Profile) (handle : Handle Field) (bitLength : Nat) :
      Wraps ⟨profile, .ref ⟨some handle, bitLength⟩⟩ handle.target
  | optional (profile : Profile) (slot : Slot Field) (mode : OptionalMode)
      (condition : Option Condition) (onReadFail onInvalid : Bool) :
      Wraps ⟨profile, .optional ⟨some slot, mode, condition, onReadFail, onInvalid⟩⟩ slot.part

def Bare (f : Field) : Prop := ∀ inner, ¬ f.Wraps inner

/-- A property that a field has once the field right behind it has it is one of all fields. -/
theorem wrap_induction {holds : Field → Prop}
    (wrapped : ∀ f inner, f.Wraps inner → holds inner → holds f)
    (bare : ∀ f, f.Bare → holds f) (f : Field) : holds f := by
  induction f using core.induct with
  | case1 profile id ref target bitLength ih =>
      exact wrapped _ _ (.ref profile ⟨id, ref, target⟩ bitLength) ih
  | case2 profile inner mode condition onReadFail onInvalid ih =>
      exact wrapped _ _ (.optional profile (.inline inner) mode condition onReadFail onInvalid) ih
  | case3 profile id ref inner mode condition onReadFail onInvalid ih =>
      exact wrapped _ _
        (.optional profile (.external ⟨id, ref, inner⟩) mode condition onReadFail onInvalid) ih
  | case4 f noRef noInline noExternal =>
      apply bare
      intro inner wraps
      cases wraps with
      | ref => exact noRef _ _ _ _ _ rfl
      | optional _ slot =>
          cases slot with
          | inline => exact noInline _ _ _ _ _ _ rfl
          | external => exact noExternal _ _ _ _ _ _ _ _ rfl

theorem core_wrapped {f inner : Field} (wraps : f.Wraps inner) : f.core = inner.core := by
  cases wraps with
  | ref => rw [core]
  | optional _ slot => cases slot <;> rw [core] <;> rfl

theorem core_bare {f : Field} (bare : f.Bare) : f.core = f := by
  rw [core]
  · rintro profile id ref target bitLength rfl
    exact bare _ (.ref profile ⟨id, ref, target⟩ bitLength)
  · rintro profile inner mode condition onReadFail onInvalid rfl
    exact bare _ (.optional profile (.inline inner) mode condition onReadFail onInvalid)
  · rintro profile id ref inner mode condition onReadFail onInvalid rfl
    exact bare _
      (.optional profile (.external ⟨id, ref, inner⟩) mode condition onReadFail onInvalid)

theorem core_is_bare (f : Field) : f.core.Bare := by
  induction f using wrap_induction with
  | wrapped f inner wraps ih =>
      rw [core_wrapped wraps]
      exact ih
  | bare f bare =>
      rw [core_bare bare]
      exact bare

theorem leads_to_core (f : Field) : f.LeadsTo f.core := by
  induction f using wrap_induction with
  | wrapped f inner wraps ih =>
      rw [core_wrapped wraps]
      cases wraps with
      | ref _ handle => exact .step (List.mem_singleton_self (Slot.external handle)) ih
      | optional _ slot => exact .step (List.mem_singleton_self slot) ih
  | bare f bare =>
      rw [core_bare bare]
      exact .refl f

/-- Following the references alone takes off some of the layers. -/
theorem core_dereferenced (f : Field) : f.dereferenced.core = f.core := by
  fun_induction dereferenced f with
  | case1 profile id ref target bitLength ih =>
      rw [ih, core_wrapped (.ref profile ⟨id, ref, target⟩ bitLength)]
  | case2 => rfl

end WireSchema.Field
