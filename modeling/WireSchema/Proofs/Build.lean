import WireSchema.Build

/-!
What it takes for a computation to succeed: each of its steps does. A computation made of steps
is taken apart by these equations from its first step on.
-/

namespace WireSchema

variable {α β : Type}

theorem except_bind_ok {ε : Type} {x : Except ε α} {f : α → Except ε β} {b : β} :
    (x >>= f) = .ok b ↔ ∃ a, x = .ok a ∧ f a = .ok b := by
  cases x with
  | error e => simp [bind, Except.bind]
  | ok a => simp [bind, Except.bind]

theorem except_map_ok {ε : Type} {x : Except ε α} {f : α → β} {b : β} :
    x.map f = .ok b ↔ ∃ a, x = .ok a ∧ f a = b := by
  cases x with
  | error e => simp [Except.map]
  | ok a => simp [Except.map]

/-- Each result is that of an input, and each input has one. -/
theorem except_each_ok {ε : Type} {f : α → Except ε β} {inputs : List α} {results : List β}
    (done : inputs.mapM f = .ok results) :
    (∀ b ∈ results, ∃ a ∈ inputs, f a = .ok b) ∧ ∀ a ∈ inputs, ∃ b ∈ results, f a = .ok b := by
  induction inputs generalizing results with
  | nil =>
      cases done
      exact ⟨List.forall_mem_nil _, List.forall_mem_nil _⟩
  | cons a rest ih =>
      rw [List.mapM_cons, except_bind_ok] at done
      obtain ⟨first, ofFirst, done⟩ := done
      rw [except_bind_ok] at done
      obtain ⟨others, ofRest, same⟩ := done
      cases same
      obtain ⟨sound, complete⟩ := ih ofRest
      simp only [List.mem_cons, exists_eq_or_imp, forall_eq_or_imp]
      exact ⟨⟨Or.inl ofFirst, fun b member => Or.inr (sound b member)⟩,
        Or.inl ofFirst, fun a member => Or.inr (complete a member)⟩

theorem except_of_to_option {x : Except Error α} {a : α} (found : x.toOption = some a) :
    x = .ok a := by
  cases x with
  | error => cases found
  | ok =>
      cases found
      rfl

/-- What is evaluated about a result is so of one that there is. -/
theorem except_any {x : Except Error α} {holds : α → Bool} (found : x.toOption.any holds = true) :
    ∃ a, x = .ok a ∧ holds a = true := by
  obtain ⟨a, isResult, held⟩ := Option.any_eq_true _ _ |>.mp found
  exact ⟨a, except_of_to_option isResult, held⟩

namespace Build

theorem bind_ok {x : Build α} {f : α → Build β} {b : β} :
    (x >>= f).outcome = .ok b ↔ ∃ a, x.outcome = .ok a ∧ (f a).outcome = .ok b := by
  simp only [bind, Build.bind]
  split <;> simp_all

@[simp] theorem pure_outcome (a : α) : (pure a : Build α).outcome = .ok a := rfl

@[simp] theorem lift_outcome (x : Except Error α) : (liftM x : Build α).outcome = x := rfl

theorem return_ok {x : Build α} {g : α → β} {b : β}
    (done : (do return g (← x) : Build β).outcome = .ok b) : ∃ a, x.outcome = .ok a ∧ g a = b := by
  obtain ⟨a, first, last⟩ := bind_ok.mp done
  exact ⟨a, first, Except.ok.inj last⟩

theorem each_ok {f : α → Build β} {inputs : List α} {results : List β}
    (built : (each f inputs).outcome = .ok results) :
    ∀ result ∈ results, ∃ input ∈ inputs, (f input).outcome = .ok result := by
  induction inputs generalizing results with
  | nil =>
      simp only [each, pure_outcome, Except.ok.injEq] at built
      simp [← built]
  | cons input rest ih =>
      simp only [each, bind_ok, pure_outcome, Except.ok.injEq] at built
      obtain ⟨first, ofInput, others, ofRest, rfl⟩ := built
      intro result member
      rcases List.mem_cons.mp member with rfl | later
      · exact ⟨input, List.mem_cons_self, ofInput⟩
      · obtain ⟨source, inRest, built⟩ := ih ofRest result later
        exact ⟨source, List.mem_cons_of_mem input inRest, built⟩

section Gather

variable {f : List β → α → Build β} {inputs : List α} {start results : List β}

/-- What one more result keeps, a whole run keeps. -/
theorem gather_keeps (holds : List β → Prop)
    (once : ∀ known input b, (f known input).outcome = .ok b → holds known → holds (known ++ [b]))
    (atStart : holds start) (built : (gather f start inputs).outcome = .ok results) :
    holds results := by
  induction inputs generalizing start with
  | nil =>
      cases built
      exact atStart
  | cons input rest ih =>
      simp only [gather, bind_ok] at built
      obtain ⟨first, ofFirst, ofRest⟩ := built
      exact ih (once start input first ofFirst atStart) ofRest

/-- What each result has when those before it have it, all results of a run have. -/
theorem gather_all {holds : β → Prop}
    (once : ∀ known input b, (f known input).outcome = .ok b → (∀ a ∈ known, holds a) → holds b)
    (atStart : ∀ b ∈ start, holds b) (built : (gather f start inputs).outcome = .ok results) :
    ∀ b ∈ results, holds b := by
  refine gather_keeps (fun known => ∀ b ∈ known, holds b) ?_ atStart built
  intro known input b ofInput held
  rw [List.forall_mem_append]
  exact ⟨held, List.forall_mem_singleton.mpr (once known input b ofInput held)⟩

/-- Each result is built from those of the inputs before it. -/
theorem gather_ok (built : (gather f start inputs).outcome = .ok results) :
    ∀ b ∈ results, b ∈ start ∨ ∃ front input back earlier, inputs = front ++ input :: back ∧
      (gather f start front).outcome = .ok earlier ∧ (f earlier input).outcome = .ok b := by
  induction inputs generalizing start with
  | nil =>
      cases built
      exact fun b member => Or.inl member
  | cons input rest ih =>
      simp only [gather, bind_ok] at built
      obtain ⟨first, ofFirst, ofRest⟩ := built
      intro b member
      rcases ih ofRest b member with early | ⟨front, next, back, earlier, rfl, before, ofNext⟩
      · rcases List.mem_append.mp early with old | new
        · exact Or.inl old
        · cases List.mem_singleton.mp new
          exact Or.inr ⟨[], input, rest, start, rfl, rfl, ofFirst⟩
      · refine Or.inr ⟨input :: front, next, back, earlier, rfl, ?_, ofNext⟩
        simp only [gather, bind_ok]
        exact ⟨first, ofFirst, before⟩

end Gather

end Build

end WireSchema
