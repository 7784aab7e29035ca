import WireSchema.Properties
import WireSchema.Proofs.Build

/-!
The properties of an element: what it has as attributes and what children stand for, and how a
property that may be given once is read.
-/

namespace WireSchema

open Markup (Node)

namespace Markup.Node

def StandsFor (node : Node) (property raw : String) : Prop :=
  node.name = property ∧ node.children = [] ∧ node.value = .ok raw ∧ raw ≠ ""

def Gives (node : Node) (property raw : String) : Prop :=
  (property, raw) ∈ node.attributes ∨ ∃ child ∈ node.children, child.StandsFor property raw

end Markup.Node

namespace Properties

theorem single_ok {props : Properties} {node : Node} {name : String} {value : Option String}
    (read : props.single node name = .ok value) : value = props.get? name := by
  unfold single at read
  split at read
  · cases read
  · cases read
    rfl

/-- What the children give is under names that may stand there and that children have. -/
theorem of_children_named {names : List String} {children : List Node}
    {entries : List (String × String)} (read : ofChildren names children = .ok entries) :
    ∀ entry ∈ entries, names.contains entry.1 = true ∧
      ∃ child ∈ children, child.name = entry.1 := by
  induction children generalizing entries with
  | nil =>
      cases read
      exact fun entry member => absurd member List.not_mem_nil
  | cons child rest ih =>
      have later (others) (ofRest : ofChildren names rest = .ok others) : ∀ entry ∈ others,
          names.contains entry.1 = true ∧ ∃ other ∈ child :: rest, other.name = entry.1 :=
        fun entry member => (ih ofRest entry member).imp_right fun ⟨other, inside, named⟩ =>
          ⟨other, List.mem_cons_of_mem child inside, named⟩
      unfold ofChildren at read
      split at read
      · rename_i listed
        simp only [except_bind_ok, Except.ok.injEq] at read
        obtain ⟨value, -, others, ofRest, rfl⟩ := read
        split
        · exact later others ofRest
        · exact List.forall_mem_cons.mpr ⟨⟨(Bool.and_eq_true_iff.mp listed).1, child,
            List.mem_cons_self, rfl⟩, later others ofRest⟩
      · exact later entries read

/-- A property that no child stands for is an attribute. -/
theorem get_of_attribute {node : Node} {names : List String} {props : Properties} {name : String}
    (read : ofNode node names = .ok props) (other : names.contains name = false) :
    props.get? name = node.attribute? name := by
  simp only [ofNode, except_bind_ok, Except.ok.injEq] at read
  obtain ⟨entries, ofChildren, rfl⟩ := read
  have absent : entries.find? (fun entry => entry.1 == name) = none := by
    rw [List.find?_eq_none]
    intro entry member same
    have listed := (of_children_named ofChildren entry member).1
    rw [beq_iff_eq.mp same, other] at listed
    cases listed
  rw [get?, Node.attribute?, List.find?_append, absent, Option.or_none]

theorem of_children_mem_iff {names : List String} {children : List Node}
    {entries : List (String × String)} (read : ofChildren names children = .ok entries)
    {name : String} (listed : names.contains name = true) (raw : String) :
    (name, raw) ∈ entries ↔ ∃ child ∈ children, child.StandsFor name raw := by
  induction children generalizing entries with
  | nil =>
      cases read
      simp
  | cons child rest ih =>
      simp only [List.mem_cons, exists_eq_or_imp]
      unfold ofChildren at read
      split at read
      · rename_i known
        simp only [except_bind_ok, Except.ok.injEq] at read
        obtain ⟨text, ofChild, others, ofRest, rfl⟩ := read
        rw [Bool.and_eq_true, List.isEmpty_iff] at known
        rw [← ih ofRest, Node.StandsFor, ofChild]
        by_cases empty : text = ""
        · simp [empty, eq_comm]
        · simp only [if_neg empty, List.mem_cons, Prod.mk.injEq, known.2, Except.ok.injEq]
          grind
      · rename_i unknown
        rw [← ih read]
        have other : ¬child.StandsFor name raw := by
          rintro ⟨rfl, leaf, -⟩
          exact unknown (by rw [listed, leaf]; rfl)
        simp only [other, false_or]

theorem of_node_mem_iff {node : Node} {names : List String} {props : Properties}
    (read : ofNode node names = .ok props) {name : String} (listed : names.contains name = true)
    (raw : String) : (name, raw) ∈ props.entries ↔ node.Gives name raw := by
  simp only [ofNode, except_bind_ok, Except.ok.injEq] at read
  obtain ⟨entries, ofChildren, rfl⟩ := read
  rw [List.mem_append, of_children_mem_iff ofChildren listed, Node.Gives]

theorem eq_of_given_once {props : Properties} {name first second : String}
    (once : props.count name ≤ 1) (isFirst : (name, first) ∈ props.entries)
    (isSecond : (name, second) ∈ props.entries) : first = second := by
  rw [count, List.countP_eq_length_filter] at once
  have among {text : String} (member : (name, text) ∈ props.entries) :
      (name, text) ∈ props.entries.filter fun entry => entry.1 == name :=
    List.mem_filter.mpr ⟨member, beq_self_eq_true _⟩
  have inFirst := among isFirst
  have inSecond := among isSecond
  cases all : props.entries.filter fun entry => entry.1 == name with
  | nil => exact absurd (all ▸ inFirst) List.not_mem_nil
  | cons entry rest =>
      rw [all] at once inFirst inSecond
      have alone : rest = [] :=
        List.eq_nil_of_length_eq_zero (Nat.le_zero.mp (Nat.le_of_succ_le_succ once))
      rw [alone, List.mem_singleton] at inFirst inSecond
      cases inFirst.trans inSecond.symm
      rfl

theorem get_mem {props : Properties} {name raw : String} (found : props.get? name = some raw) :
    (name, raw) ∈ props.entries := by
  obtain ⟨⟨name', _⟩, hit, rfl⟩ := Option.map_eq_some_iff.mp found
  have named := List.find?_some hit
  simp only [beq_iff_eq] at named
  subst named
  exact List.mem_of_find?_eq_some hit

/-- A property that may be given once is read as it is given. -/
theorem single_given {props : Properties} {node : Node} {name raw : String} {value : Option String}
    (read : props.single node name = .ok value) (given : (name, raw) ∈ props.entries) :
    value = some raw := by
  unfold single at read
  split at read
  · cases read
  · rename_i twice
    cases read
    cases found : props.get? name with
    | none =>
        rw [get?, Option.map_eq_none_iff, List.find?_eq_none] at found
        exact absurd (beq_self_eq_true name) (found _ given)
    | some text => rw [eq_of_given_once (Nat.le_of_not_lt twice) (get_mem found) given]

/-- A property that has to be given once has no other value. -/
theorem required_mem_iff {props : Properties} {node : Node} {name raw : String}
    (read : props.required node name = .ok raw) (other : String) :
    (name, other) ∈ props.entries ↔ other = raw := by
  simp only [required, except_bind_ok] at read
  obtain ⟨found, once, rest⟩ := read
  cases found with
  | none => cases rest
  | some text =>
      cases rest
      constructor
      · intro member
        exact (Option.some.inj (single_given once member)).symm
      · rintro rfl
        exact get_mem (single_ok once).symm

end Properties

end WireSchema
