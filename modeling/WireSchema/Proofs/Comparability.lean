import WireSchema.Proofs.Cores
import WireSchema.Proofs.Saturation

/-!
Comparing fields behind references and optionals. A layer can be taken off on either side, in any
order, and the answer stays the same, so it is that of the two cores. In fields that were built no
layer is empty, so a core is of one of the other ten kinds, and the two kinds alone decide.
-/

namespace WireSchema

/-- Values of the kinds can be compared: both are of one scalar kind, one is an integer and the
other an enumerator, or a real number is on the left of either. -/
def Kind.Comparable (a b : Kind) : Prop :=
  (a = b ∧ a ∈ [Kind.int, .float, .enum, .set, .string, .data]) ∨
    (a = .int ∧ b = .enum) ∨ (a = .enum ∧ b = .int) ∨ (a = .float ∧ (b = .int ∨ b = .enum))

def Kind.IsWrapper (kind : Kind) : Prop := kind = .ref ∨ kind = .optional

theorem Kind.compares_to_iff {a : Kind} (plain : ¬ a.IsWrapper) (b : Kind) :
    a.comparesTo b = true ↔ a.Comparable b := by
  unfold IsWrapper at plain
  unfold Comparable
  cases a <;> cases b <;> simp_all [Kind.comparesTo]

namespace Field

theorem passes_wrapped {f inner : Field} (wraps : f.Wraps inner) (test : Kind → Bool) :
    f.kindPasses test = inner.kindPasses test := by
  cases wraps with
  | ref => rw [kindPasses]
  | optional _ slot => cases slot <;> rw [kindPasses] <;> rfl

/-- An empty optional passes nothing, every other field is tested by its kind. -/
theorem passes_bare {f : Field} (bare : f.Bare) (test : Kind → Bool) :
    f.kindPasses test = (f.kind != .optional && test f.kind) := by
  obtain ⟨profile, payload⟩ := f
  cases payload with
  | ref spec =>
      obtain ⟨_ | handle, bitLength⟩ := spec
      · rw [kindPasses]
        · rfl
        all_goals
          intros
          rename_i equal
          cases equal
      · exact absurd (.ref _ _ _) (bare _)
  | optional spec =>
      obtain ⟨_ | slot, _, _, _, _⟩ := spec
      · rw [kindPasses]
        rfl
      · exact absurd (.optional _ _ _ _ _ _) (bare _)
  | _ =>
      rw [kindPasses]
      · rfl
      all_goals
        intros
        rename_i equal
        cases equal

theorem passes_core (f : Field) (test : Kind → Bool) :
    f.kindPasses test = f.core.kindPasses test := by
  induction f using wrap_induction with
  | wrapped f inner wraps ih => rw [passes_wrapped wraps, ih, core_wrapped wraps]
  | bare f bare => rw [core_bare bare]

theorem compares_wrapped_left {a inner : Field} (wraps : a.Wraps inner) (b : Field) :
    a.comparesTo b = inner.comparesTo b :=
  passes_wrapped wraps _

/-- The left side can stay as it is while a layer on the right is taken off. -/
theorem compares_wrapped_right {b inner : Field} (wraps : b.Wraps inner) (a : Field) :
    a.comparesTo b = a.comparesTo inner := by
  simp only [comparesTo, passes_wrapped wraps]

theorem compares_core (a b : Field) : a.comparesTo b = a.core.comparesTo b.core := by
  simp only [comparesTo, ← passes_core]

/-! ### Taking the layers off in turn -/

theorem size_dereferenced_le (f : Field) : sizeOf f.dereferenced ≤ sizeOf f := by
  fun_induction dereferenced f with
  | case1 _ _ _ target _ ih =>
      refine Nat.le_trans ih ?_
      simp only [Field.mk.sizeOf_spec, Payload.ref.sizeOf_spec, RefSpec.mk.sizeOf_spec,
        Option.some.sizeOf_spec, Handle.mk.sizeOf_spec]
      omega
  | case2 => exact Nat.le_refl _

theorem size_part_lt {f : Field} {slot : Slot Field} {mode : OptionalMode}
    {condition : Option Condition} {onReadFail onInvalid : Bool}
    (inside : f.payload = .optional ⟨some slot, mode, condition, onReadFail, onInvalid⟩) :
    sizeOf slot.part < sizeOf f := by
  obtain ⟨profile, payload⟩ := f
  cases inside
  cases slot with
  | inline inner =>
      simp only [Slot.part, Field.mk.sizeOf_spec, Payload.optional.sizeOf_spec,
        OptionalSpec.mk.sizeOf_spec, Option.some.sizeOf_spec, Slot.inline.sizeOf_spec]
      omega
  | external handle =>
      obtain ⟨id, ref, target⟩ := handle
      simp only [Slot.part, Field.mk.sizeOf_spec, Payload.optional.sizeOf_spec,
        OptionalSpec.mk.sizeOf_spec, Option.some.sizeOf_spec, Slot.external.sizeOf_spec,
        Handle.mk.sizeOf_spec]
      omega

/-- The comparison by rounds: follow the references on both sides, then take one optional off, on
the left as long as there is one, and start again. -/
def comparesInTurn (a b : Field) : Bool :=
  match _ : a.dereferenced.payload with
  | .optional ⟨none, _, _, _, _⟩ => false
  | .optional ⟨some slot, _, _, _, _⟩ => comparesInTurn slot.part b.dereferenced
  | _ =>
      match _ : b.dereferenced.payload with
      | .optional ⟨none, _, _, _, _⟩ => false
      | .optional ⟨some slot, _, _, _, _⟩ => comparesInTurn a.dereferenced slot.part
      | _ => a.dereferenced.kind.comparesTo b.dereferenced.kind
termination_by sizeOf a + sizeOf b
decreasing_by
  all_goals
    have inner := size_part_lt ‹_›
    have := a.size_dereferenced_le
    have := b.size_dereferenced_le
    omega

theorem compares_dereferenced (a b : Field) :
    a.comparesTo b = a.dereferenced.comparesTo b.dereferenced := by
  rw [compares_core a b, compares_core a.dereferenced, core_dereferenced, core_dereferenced]

theorem kind_optional_iff {f : Field} :
    f.kind = .optional ↔ ∃ spec, f.payload = .optional spec := by
  obtain ⟨profile, payload⟩ := f
  cases payload <;> simp [kind, Payload.kind]

theorem dereferenced_bare {f : Field} (plain : f.dereferenced.kind ≠ .optional) :
    f.dereferenced.Bare := by
  fun_induction dereferenced f with
  | case1 _ _ _ target _ ih => exact ih plain
  | case2 f noRef =>
      intro inner wraps
      cases wraps with
      | ref => exact noRef _ _ _ _ _ rfl
      | optional => exact plain rfl

section Optionals

variable {f : Field} {slot : Slot Field} {mode : OptionalMode} {condition : Option Condition}
  {onReadFail onInvalid : Bool}

theorem wraps_of_payload
    (inside : f.payload = .optional ⟨some slot, mode, condition, onReadFail, onInvalid⟩) :
    f.Wraps slot.part := by
  obtain ⟨profile, payload⟩ := f
  cases inside
  exact .optional ..

theorem bare_of_payload
    (empty : f.payload = .optional ⟨none, mode, condition, onReadFail, onInvalid⟩) : f.Bare := by
  intro inner wraps
  cases wraps <;> cases empty

theorem plain_of_payload
    (noEmpty : ∀ mode condition onReadFail onInvalid,
      f.payload = .optional ⟨none, mode, condition, onReadFail, onInvalid⟩ → False)
    (noInner : ∀ slot mode condition onReadFail onInvalid,
      f.payload = .optional ⟨some slot, mode, condition, onReadFail, onInvalid⟩ → False) :
    f.kind ≠ .optional := by
  rw [Ne, kind_optional_iff]
  rintro ⟨⟨_ | slot, _, _, _, _⟩, same⟩
  · exact noEmpty _ _ _ _ same
  · exact noInner _ _ _ _ _ same

end Optionals

theorem compares_in_turn (a b : Field) : a.comparesTo b = comparesInTurn a b := by
  fun_induction comparesInTurn a b with
  | case1 a b _ _ _ _ empty =>
      have isOptional := kind_optional_iff.mpr ⟨_, empty⟩
      rw [compares_dereferenced, comparesTo, passes_bare (bare_of_payload empty), isOptional]
      rfl
  | case2 a b slot _ _ _ _ inside ih =>
      rw [← ih, compares_dereferenced, compares_wrapped_left (wraps_of_payload inside)]
  | case3 a b _ _ _ _ empty noEmpty noInner =>
      have isOptional := kind_optional_iff.mpr ⟨_, empty⟩
      have plain := plain_of_payload noEmpty noInner
      rw [compares_dereferenced, comparesTo, passes_bare (dereferenced_bare plain),
        passes_bare (bare_of_payload empty), isOptional]
      exact Bool.and_false _
  | case4 a b slot _ _ _ _ inside _ _ ih =>
      rw [← ih, compares_dereferenced, compares_wrapped_right (wraps_of_payload inside)]
  | case5 a b noEmpty noInner noEmpty' noInner' =>
      have plain := plain_of_payload noEmpty noInner
      have plain' := plain_of_payload noEmpty' noInner'
      rw [compares_dereferenced, comparesTo, passes_bare (dereferenced_bare plain),
        passes_bare (dereferenced_bare plain')]
      have left : (a.dereferenced.kind != .optional) = true := bne_iff_ne.mpr plain
      have right : (b.dereferenced.kind != .optional) = true := bne_iff_ne.mpr plain'
      rw [left, right, Bool.true_and, Bool.true_and]

/-- Where no layer is empty, the core is neither a reference nor an optional. -/
theorem core_plain {f : Field} (filled : f.Everywhere Payload.Filled) :
    ¬ f.core.kind.IsWrapper := by
  have here := filled _ f.leads_to_core
  have bare := f.core_is_bare
  generalize f.core = c at here bare
  obtain ⟨profile, payload⟩ := c
  cases payload with
  | ref spec =>
      obtain ⟨_ | handle, bitLength⟩ := spec
      · cases here
      · exact absurd (.ref _ _ _) (bare _)
  | optional spec =>
      obtain ⟨_ | slot, _, _, _, _⟩ := spec
      · cases here
      · exact absurd (.optional _ _ _ _ _ _) (bare _)
  | _ => rintro (isRef | isOptional) <;> contradiction

/-- A field that was built over such fields has no empty layer. -/
theorem created_filled {env : Environment} {tag : String} {node : Markup.Node} {parent : Parent}
    {f : Field} (grown : env.registry.GrownIn fun _ => True)
    (built : (create env tag node parent).outcome = .ok f) : f.Everywhere Payload.Filled :=
  (law_throughout Payload.filled_law).built trivial
    (fun _ _ found => Registry.law_of_find (law_throughout Payload.filled_law) grown found) built

/-- Whether two fields can be compared that were built, over registries of fields built in the same
way, is decided by their cores, the first fields behind all references and optionals that are of
another kind, and of these by the kinds. -/
theorem compared_by_core_kinds {env env' : Environment} {tag tag' : String}
    {node node' : Markup.Node} {parent parent' : Parent} {a b : Field}
    (grown : env.registry.GrownIn fun _ => True) (grown' : env'.registry.GrownIn fun _ => True)
    (built : (create env tag node parent).outcome = .ok a)
    (built' : (create env' tag' node' parent').outcome = .ok b) :
    ¬ a.core.kind.IsWrapper ∧ ¬ b.core.kind.IsWrapper ∧
    a.comparesTo b = a.core.comparesTo b.core ∧
    (a.comparesTo b = true ↔ a.core.kind.Comparable b.core.kind) := by
  have left := core_plain (created_filled grown built)
  have right := core_plain (created_filled grown' built')
  have notOptional : ∀ {kind : Kind}, ¬ kind.IsWrapper → (kind != .optional) = true := by
    intro kind plain
    simpa using fun isOptional => plain (Or.inr isOptional)
  refine ⟨left, right, compares_core a b, ?_⟩
  rw [compares_core, comparesTo, passes_bare a.core_is_bare, passes_bare b.core_is_bare,
    notOptional left, notOptional right, Bool.true_and, Bool.true_and]
  exact Kind.compares_to_iff left _

def layeredEnum : List Markup.Node :=
  [⟨"enum", [("name", "E"), ("type", "uint8")],
      [⟨"validValue", [("name", "v"), ("val", "1")], [], "", 2⟩], "", 1⟩,
    ⟨"optional", [("name", "O"), ("field", "E")], [], "", 3⟩,
    ⟨"ref", [("name", "R"), ("field", "O")], [], "", 4⟩]

def deeperOptional : Markup.Node :=
  ⟨"optional", [("name", "D")], [⟨"ref", [("name", "r"), ("field", "R")], [], "", 6⟩], "", 5⟩

def optionalCounter : Markup.Node :=
  ⟨"optional", [("name", "C")], [⟨"int", [("name", "c"), ("type", "uint16")], [], "", 8⟩], "", 7⟩

theorem layered_enum_compared :
    ∃ a b, (create (schemaOf layeredEnum) "optional" deeperOptional ⟨.ns, Window.always⟩).outcome =
        .ok a ∧
      (create (schemaOf []) "optional" optionalCounter ⟨.ns, Window.always⟩).outcome = .ok b ∧
      a.core.kind = .enum ∧ b.core.kind = .int ∧ a.comparesTo b = true := by
  obtain ⟨a, built, isEnum⟩ := except_any (show
    ((create (schemaOf layeredEnum) "optional" deeperOptional
      ⟨.ns, Window.always⟩).outcome.toOption.any fun f => f.core.kind = .enum) = true by
        decide +kernel)
  obtain ⟨b, built', isInt⟩ := except_any (show
    ((create (schemaOf []) "optional" optionalCounter
      ⟨.ns, Window.always⟩).outcome.toOption.any fun f => f.core.kind = .int) = true by
        decide +kernel)
  rw [decide_eq_true_eq] at isEnum isInt
  have grown := fun nodes => Registry.grown_imp (fun _ _ => trivial) (registry_of_grown nodes)
  obtain ⟨-, -, -, decided⟩ := compared_by_core_kinds (grown layeredEnum) (grown []) built built'
  refine ⟨a, b, built, built', isEnum, isInt, decided.mpr ?_⟩
  rw [isEnum, isInt]
  exact Or.inr (Or.inr (Or.inl ⟨rfl, rfl⟩))

end Field

end WireSchema
