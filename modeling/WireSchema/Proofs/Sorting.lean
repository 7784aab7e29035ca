import Mathlib.Order.Lattice
import WireSchema.Sorting

/-!
What sorting by insertion makes of a list, and what the search by halving finds in it. An order has
to be consistent on the elements at hand only, because numbers of different kinds are not in one
order.
-/

namespace WireSchema.Sorting

variable {α : Type}

theorem insert_down_perm (lt : α → α → Bool) (x : α) (xs : List α) :
    (insertDown lt x xs).Perm (x :: xs) := by
  induction xs with
  | nil => exact List.Perm.refl _
  | cons y rest ih =>
      simp only [insertDown]
      split
      · exact (ih.cons y).trans (List.Perm.swap x y rest)
      · exact List.Perm.refl _

theorem insert_each_perm (lt : α → α → Bool) (xs sorted : List α) :
    (xs.foldl (fun sorted x => insertDown lt x sorted) sorted).Perm (xs ++ sorted) := by
  induction xs generalizing sorted with
  | nil => exact List.Perm.refl _
  | cons x rest ih =>
      have moved : (rest ++ insertDown lt x sorted).Perm (rest ++ x :: sorted) :=
        (insert_down_perm lt x sorted).append_left rest
      exact ((ih _).trans moved).trans List.perm_middle

theorem stable_perm (lt : α → α → Bool) (xs : List α) : (stable lt xs).Perm xs := by
  have inserted := insert_each_perm lt xs []
  rw [List.append_nil] at inserted
  exact (List.reverse_perm _).trans inserted

@[simp] theorem mem_stable (lt : α → α → Bool) (xs : List α) (x : α) :
    x ∈ stable lt xs ↔ x ∈ xs :=
  (stable_perm lt xs).mem_iff

/-- On the elements with `p`, `lt` is a strict order up to elements in one place. -/
structure OrderedOn (p : α → Prop) (lt : α → α → Bool) : Prop where
  asymm : ∀ a b, p a → p b → lt a b = true → lt b a = false
  trans : ∀ a b c, p a → p b → p c → lt a b = false → lt b c = false → lt a c = false

/-- An order by keys is one, whatever elements have the keys. -/
theorem ordered_on_key {κ : Type} [LinearOrder κ] {p : α → Prop} {lt : α → α → Bool} (key : α → κ)
    (byKey : ∀ {a b}, p a → p b → (lt a b = true ↔ key a < key b)) : OrderedOn p lt where
  asymm a b left right below := by
    rw [byKey left right] at below
    rw [Bool.eq_false_iff, Ne, byKey right left]
    exact lt_asymm below
  trans a b c first second third low high := by
    rw [Bool.eq_false_iff, Ne, byKey first second, not_lt] at low
    rw [Bool.eq_false_iff, Ne, byKey second third, not_lt] at high
    rw [Bool.eq_false_iff, Ne, byKey first third, not_lt]
    exact le_trans high low

theorem insert_down_descending {p : α → Prop} {lt : α → α → Bool} (order : OrderedOn p lt)
    (x : α) (xs : List α) (head : p x) (each : ∀ y ∈ xs, p y)
    (descending : xs.Pairwise fun a b => lt a b = false) :
    (insertDown lt x xs).Pairwise fun a b => lt a b = false := by
  induction xs with
  | nil => exact List.pairwise_singleton _ _
  | cons y rest ih =>
      have py : p y := each y List.mem_cons_self
      have later : ∀ z ∈ rest, p z := fun z member => each z (List.mem_cons_of_mem y member)
      obtain ⟨first, others⟩ := List.pairwise_cons.mp descending
      simp only [insertDown]
      split
      · rename_i below
        refine List.pairwise_cons.mpr ⟨?_, ih later others⟩
        intro z member
        rcases List.mem_cons.mp ((insert_down_perm lt x rest).mem_iff.mp member) with same | old
        · subst z
          exact order.asymm x y head py below
        · exact first z old
      · rename_i notBelow
        have above : lt x y = false := Bool.eq_false_iff.mpr notBelow
        refine List.pairwise_cons.mpr ⟨?_, descending⟩
        intro z member
        rcases List.mem_cons.mp member with same | old
        · subst z
          exact above
        · exact order.trans x y z head py (later z old) above (first z old)

theorem insert_each_descending {p : α → Prop} {lt : α → α → Bool} (order : OrderedOn p lt)
    (xs sorted : List α) (each : ∀ x ∈ xs ++ sorted, p x)
    (descending : sorted.Pairwise fun a b => lt a b = false) :
    (xs.foldl (fun sorted x => insertDown lt x sorted) sorted).Pairwise
      fun a b => lt a b = false := by
  induction xs generalizing sorted with
  | nil => exact descending
  | cons x rest ih =>
      have head : p x := each x (by simp)
      have old : ∀ y ∈ sorted, p y := fun y member => each y (by simp [member])
      refine ih (insertDown lt x sorted) ?_
        (insert_down_descending order x sorted head old descending)
      intro y member
      apply each y
      rw [List.mem_append, (insert_down_perm lt x sorted).mem_iff, List.mem_cons] at member
      rw [List.cons_append, List.mem_cons, List.mem_append]
      rcases member with inRest | same | inSorted
      · exact Or.inr (Or.inl inRest)
      · exact Or.inl same
      · exact Or.inr (Or.inr inSorted)

theorem stable_sorted {p : α → Prop} {lt : α → α → Bool} (order : OrderedOn p lt) (xs : List α)
    (each : ∀ x ∈ xs, p x) : (stable lt xs).Pairwise fun a b => lt b a = false := by
  rw [stable, List.pairwise_reverse]
  exact insert_each_descending order xs [] (by simpa using each) List.Pairwise.nil

/-- An element that is there already, and is the only one in its place, is inserted next to
itself. -/
theorem insert_down_again {p : α → Prop} {lt : α → α → Bool} (order : OrderedOn p lt) {x : α}
    {xs : List α} (here : p x) (each : ∀ y ∈ xs, p y)
    (descending : xs.Pairwise fun a b => lt a b = false) (member : x ∈ xs)
    (alone : ∀ y ∈ xs, lt x y = false → lt y x = false → y = x) :
    ∃ above below, xs = above ++ x :: below ∧ insertDown lt x xs = above ++ x :: x :: below := by
  induction xs with
  | nil => exact absurd member List.not_mem_nil
  | cons y rest ih =>
      obtain ⟨eachY, eachRest⟩ := List.forall_mem_cons.mp each
      obtain ⟨first, others⟩ := List.pairwise_cons.mp descending
      obtain ⟨aloneY, aloneRest⟩ := List.forall_mem_cons.mp alone
      rw [insertDown]
      split
      · rename_i lower
        have inRest : x ∈ rest := by
          rcases List.mem_cons.mp member with rfl | later
          · rw [order.asymm x x here here lower] at lower
            nomatch lower
          · exact later
        obtain ⟨above, below, split, inserted⟩ := ih eachRest others inRest aloneRest
        exact ⟨y :: above, below, by rw [split]; rfl, by rw [inserted]; rfl⟩
      · rename_i notLower
        -- What stands before `x` is not below it, so the first that is not above is `x` itself.
        have notBelow : lt y x = false := by
          rcases List.mem_cons.mp member with rfl | later
          · exact Bool.eq_false_iff.mpr notLower
          · exact first x later
        cases aloneY (Bool.eq_false_iff.mpr notLower) notBelow
        exact ⟨[], rest, rfl, rfl⟩

theorem stable_again {p : α → Prop} {lt : α → α → Bool} (order : OrderedOn p lt) {x : α}
    {xs : List α} (each : ∀ y ∈ xs, p y) (member : x ∈ xs)
    (alone : ∀ y ∈ xs, lt x y = false → lt y x = false → y = x) :
    ∃ below above, stable lt xs = below ++ x :: above ∧
      stable lt (xs ++ [x]) = below ++ x :: x :: above := by
  have perm := insert_each_perm lt xs []
  rw [List.append_nil] at perm
  obtain ⟨above, below, split, inserted⟩ := insert_down_again order (each x member)
    (fun y inside => each y (perm.mem_iff.mp inside))
    (insert_each_descending order xs [] (by simpa using each) List.Pairwise.nil)
    (perm.mem_iff.mpr member) (fun y inside => alone y (perm.mem_iff.mp inside))
  refine ⟨below.reverse, above.reverse, ?_, ?_⟩
  · rw [stable, split]
    simp
  · rw [stable, List.foldl_append, List.foldl_cons, List.foldl_nil, inserted]
    simp

section Ties

variable {p : α → Prop} {lt : α → α → Bool}

def tied (lt : α → α → Bool) (a b : α) : Bool := !lt a b && !lt b a

theorem tied_iff {a b : α} : tied lt a b = true ↔ lt a b = false ∧ lt b a = false := by
  simp [tied]

theorem tied_self (order : OrderedOn p lt) {a : α} (here : p a) : tied lt a a = true := by
  have never : lt a a = false := by
    by_cases below : lt a a = true
    · exact order.asymm a a here here below
    · exact Bool.eq_false_iff.mpr below
  exact tied_iff.mpr ⟨never, never⟩

theorem not_below_of_tied (order : OrderedOn p lt) {a b c : α} (first : p a) (second : p b)
    (third : p c) (left : tied lt a b = true) (right : tied lt a c = true) : lt b c = false :=
  order.trans b a c second first third (tied_iff.mp left).2 (tied_iff.mp right).1

theorem insert_down_filter {q : α → Bool} (x : α) (xs : List α)
    (level : q x = true → ∀ y ∈ xs, q y = true → lt x y = false) :
    (insertDown lt x xs).filter q = (x :: xs).filter q := by
  induction xs with
  | nil => rfl
  | cons y rest ih =>
      have later := ih fun inside z member => level inside z (List.mem_cons_of_mem y member)
      rw [insertDown]
      split
      · rename_i below
        -- `x` goes past `y`, so at most one of the two is left by the filter.
        by_cases keepX : q x = true
        · have dropY : ¬ q y = true := by
            intro keepY
            rw [level keepX y List.mem_cons_self keepY] at below
            cases below
          rw [List.filter_cons_of_neg dropY, later, List.filter_cons_of_pos keepX,
            List.filter_cons_of_pos keepX, List.filter_cons_of_neg dropY]
        · rw [List.filter_cons, later, List.filter_cons_of_neg keepX,
            List.filter_cons_of_neg keepX, List.filter_cons]
      · rfl

theorem insert_each_filter {q : α → Bool} (xs sorted : List α)
    (level : ∀ x ∈ xs ++ sorted, ∀ y ∈ xs ++ sorted, q x = true → q y = true → lt x y = false) :
    (xs.foldl (fun sorted x => insertDown lt x sorted) sorted).filter q =
      (xs.reverse ++ sorted).filter q := by
  induction xs generalizing sorted with
  | nil => rfl
  | cons x rest ih =>
      have moved : ∀ y, y ∈ rest ++ insertDown lt x sorted ↔ y ∈ x :: rest ++ sorted := by
        intro y
        simp only [List.cons_append, List.mem_cons, List.mem_append,
          (insert_down_perm lt x sorted).mem_iff]
        exact or_left_comm
      have inserted : (insertDown lt x sorted).filter q = (x :: sorted).filter q := by
        apply insert_down_filter
        intro keep y member
        exact level x (by simp) y (by simp [member]) keep
      rw [List.foldl_cons, ih, List.reverse_cons, List.append_assoc, List.filter_append,
        List.filter_append, inserted, List.singleton_append]
      intro y first z second
      exact level y ((moved y).mp first) z ((moved z).mp second)

/-- Elements that the order does not tell apart keep their order. -/
theorem stable_filter {q : α → Bool} (xs : List α)
    (level : ∀ x ∈ xs, ∀ y ∈ xs, q x = true → q y = true → lt x y = false) :
    (stable lt xs).filter q = xs.filter q := by
  rw [stable, List.filter_reverse, insert_each_filter xs [] (by simpa using level),
    List.append_nil, ← List.filter_reverse, List.reverse_reverse]

/-- A sorted list is told by the order of its tied elements. -/
theorem eq_of_sorted (order : OrderedOn p lt) {xs ys : List α} (each : ∀ x ∈ xs, p x)
    (perm : xs.Perm ys) (sortedX : xs.Pairwise fun a b => lt b a = false)
    (sortedY : ys.Pairwise fun a b => lt b a = false)
    (ties : ∀ a ∈ xs, xs.filter (tied lt a) = ys.filter (tied lt a)) : xs = ys := by
  induction xs generalizing ys with
  | nil => exact (List.nil_perm.mp perm).symm
  | cons x rest ih =>
      cases ys with
      | nil => exact absurd perm.length_eq (by simp)
      | cons y others =>
          have here : p x := each x List.mem_cons_self
          have self := tied_self order here
          -- Either head is not after the other, because it is in the other list as well.
          have notAfter : tied lt x y = true := by
            rw [tied_iff]
            constructor
            · rcases List.mem_cons.mp (perm.mem_iff.mp List.mem_cons_self) with same | later
              · exact same ▸ (tied_iff.mp self).1
              · exact (List.pairwise_cons.mp sortedY).1 x later
            · rcases List.mem_cons.mp (perm.mem_iff.mpr List.mem_cons_self) with same | later
              · exact same ▸ (tied_iff.mp self).1
              · exact (List.pairwise_cons.mp sortedX).1 y later
          have heads := ties x List.mem_cons_self
          rw [List.filter_cons_of_pos self, List.filter_cons_of_pos notAfter] at heads
          obtain ⟨rfl, -⟩ := List.cons.inj heads
          have tails : ∀ a ∈ rest, rest.filter (tied lt a) = others.filter (tied lt a) := by
            intro a member
            have whole := ties a (List.mem_cons_of_mem x member)
            rw [List.filter_cons, List.filter_cons] at whole
            split at whole
            · exact (List.cons.inj whole).2
            · exact whole
          rw [ih (List.forall_mem_cons.mp each).2 perm.cons_inv (List.pairwise_cons.mp sortedX).2
            (List.pairwise_cons.mp sortedY).2 tails]

/-- A sorted list that is sorted another way and then sorted again is as before, if the other way
keeps apart nothing that was tied. -/
theorem stable_back (order : OrderedOn p lt) (other : α → α → Bool) {xs : List α}
    (each : ∀ x ∈ xs, p x) (sorted : xs.Pairwise fun a b => lt b a = false)
    (ties : ∀ a ∈ xs, ∀ b ∈ xs, tied lt a b = true → other a b = false) :
    stable lt (stable other xs) = xs := by
  have moved : ∀ x ∈ stable other xs, x ∈ xs := fun x member => (mem_stable other xs x).mp member
  have eachMoved : ∀ x ∈ stable other xs, p x := fun x member => each x (moved x member)
  apply eq_of_sorted order (fun x member => eachMoved x ((mem_stable lt _ x).mp member))
    ((stable_perm lt _).trans (stable_perm other xs)) (stable_sorted order _ eachMoved) sorted
  intro a member
  have pa : p a := eachMoved a ((mem_stable lt _ a).mp member)
  rw [stable_filter, stable_filter]
  · intro b first c second left right
    apply ties b first c second
    rw [tied_iff]
    exact ⟨not_below_of_tied order pa (each b first) (each c second) left right,
      not_below_of_tied order pa (each c second) (each b first) right left⟩
  · intro b first c second left right
    exact not_below_of_tied order pa (eachMoved b first) (eachMoved c second) left right

end Ties

/-- The search leaves out no element with `p` and takes in no other, however many halvings it
is allowed. -/
theorem front_within_eq_filter (p : α → Bool) (steps : Nat) (xs : List α)
    (front : xs.Pairwise fun a b => p b = true → p a = true) :
    frontWithin p steps xs = xs.filter p := by
  induction steps generalizing xs with
  | zero => rfl
  | succ steps ih =>
      have whole : xs.take (xs.length / 2) ++ xs.drop (xs.length / 2) = xs :=
        List.take_append_drop _ xs
      simp only [frontWithin]
      split
      · rename_i empty
        rw [empty, List.nil_append] at whole
        rw [whole]
      · rename_i none nonempty
        have short : xs.length ≤ xs.length / 2 := List.drop_eq_nil_iff.mp none
        have nothing : xs = [] := List.eq_nil_of_length_eq_zero (by omega)
        simp [nothing] at nonempty
      · rename_i mid rest found _
        rw [found] at whole
        have halves := whole ▸ front
        obtain ⟨-, upper, across⟩ := List.pairwise_append.mp halves
        split
        · rename_i hit
          have lower : (xs.take (xs.length / 2)).filter p = xs.take (xs.length / 2) :=
            List.filter_eq_self.mpr fun a member => across a member mid List.mem_cons_self hit
          calc
            xs.take (xs.length / 2) ++ frontWithin p steps (mid :: rest) =
                (xs.take (xs.length / 2)).filter p ++ (mid :: rest).filter p := by
              rw [ih (mid :: rest) upper, lower]
            _ = xs.filter p := by rw [← List.filter_append, whole]
        · rename_i miss
          -- Everything from the middle on lacks `p`, so what is cut off at the end does too.
          have behind : ∀ a ∈ xs.drop (xs.length / 2), ¬ p a = true := by
            intro a member hit
            rw [found] at member
            rcases List.mem_cons.mp member with same | later
            · exact miss (same ▸ hit)
            · exact miss ((List.pairwise_cons.mp upper).1 a later hit)
          have cut : (xs.drop (xs.length - xs.length / 2)).filter p = [] := by
            apply List.filter_eq_nil_iff.mpr
            intro a member
            exact behind a (List.drop_subset_drop_left xs (by omega) member)
          calc
            frontWithin p steps (xs.take (xs.length - xs.length / 2)) =
                (xs.take (xs.length - xs.length / 2)).filter p ++
                  (xs.drop (xs.length - xs.length / 2)).filter p := by
              rw [ih _ (front.sublist (List.take_sublist _ xs)), cut, List.append_nil]
            _ = xs.filter p := by rw [← List.filter_append, List.take_append_drop]

theorem front_eq_filter (p : α → Bool) (xs : List α)
    (front : xs.Pairwise fun a b => p b = true → p a = true) :
    Sorting.front p xs = xs.filter p :=
  front_within_eq_filter p xs.length xs front

end WireSchema.Sorting
