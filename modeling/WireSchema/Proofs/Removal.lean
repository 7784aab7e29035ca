import WireSchema.Proofs.Copies
import WireSchema.Proofs.Properties

/-!
The mark of removal. Wherever a field stands in a model, it is marked as removed only if it has an
end. So is a message, unless it takes the mark over from a message that it reuses: the copy has a
window of its own, and nothing checks the mark against it.
-/

namespace WireSchema

open Markup (Node Event)

namespace Field

def EndsIfRemoved (f : Field) : Prop := f.profile.removed = true → f.window.isDeprecated = true

theorem makes_ends_if_removed {d : Declaration} {start f : Field} (makes : d.Makes start f) :
    f.EndsIfRemoved := by
  obtain ⟨profile, profiled, reads⟩ := Declaration.makes_reads makes
  obtain ⟨reuse, -, -, started⟩ := makes.started
  obtain ⟨removed, window, -⟩ := Declaration.reads_profile reads
  rw [EndsIfRemoved, removed, window]
  exact Declaration.read_profile_removed profiled (Declaration.start_removed started)

theorem ends_if_removed_law :
    Field.Law fun r f => r.GrownIn Parent.IsNamespace → f.EndsIfRemoved where
  grown extended ends grown := ends (Registry.grown_of_extends extended grown)
  lifted _ ends grown := ends grown
  packed := by
    intro r id source m spec window held bitfield member ends grown removed
    -- A registered bitfield has no end, so none of its members is removed.
    have settled := (Registry.settled_of_get grown held).payload
    rw [bitfield] at settled
    have always : m.window = Window.always := settled m member
    have deprecated := ends grown removed
    rw [always] at deprecated
    exact absurd deprecated (by decide)
  made makes _ _ _ := makes_ends_if_removed makes

end Field

namespace Message

theorem start_removed_iff {dir : Directory} {node : Node} {props : Properties} {first : Message}
    (started : (start dir node props).outcome = .ok first) :
    first.removed = true ↔ ∃ ref source, first.reusedFrom = some ref ∧
      dir.message? ref = some source ∧ source.removed = true := by
  simp only [start, Build.bind_ok, Build.lift_outcome] at started
  obtain ⟨reused, -, rest⟩ := started
  have blank {m : Message} (isBlank : m = { line := node.line }) :
      m.removed = true ↔ ∃ ref source, m.reusedFrom = some ref ∧
        dir.message? ref = some source ∧ source.removed = true := by
    simp [isBlank]
  split at rest
  · cases rest
    exact blank rfl
  · rename_i ref
    split at rest
    · rw [Build.lift_outcome, reuse] at rest
      split at rest
      · cases rest
      · rename_i source found
        simp only [except_bind_ok, Except.ok.injEq] at rest
        obtain ⟨_, -, rfl⟩ := rest
        constructor
        · exact fun removed => ⟨ref, source, rfl, found, removed⟩
        · rintro ⟨_, other, isRef, foundOther, removed⟩
          cases isRef
          cases found.symm.trans foundOther
          exact removed
    · simp only [Build.bind_ok, Build.pure_outcome, Except.ok.injEq] at rest
      obtain ⟨_, -, isBlank⟩ := rest
      exact blank isBlank.symm

/-- What has no end is marked only if it was before and the element does not take the mark away. -/
theorem read_removed_iff {node : Node} {props : Properties} {window : Window}
    {current removed : Bool} (read : (readRemoved node props window current).outcome = .ok removed)
    (endless : window.isDeprecated = false) :
    removed = true ↔ current = true ∧ (props.get? "removed").bind Literal.boolean? ≠ some false := by
  simp only [readRemoved, Build.bind_ok, Build.lift_outcome] at read
  obtain ⟨given, single, rest⟩ := read
  have isGiven := Properties.single_ok single
  rw [← isGiven]
  split at rest
  · cases rest
    simp
  · simp only [Build.bind_ok, Build.lift_outcome] at rest
    obtain ⟨flag, flagged, rest⟩ := rest
    simp only [Context.readFlag, single, except_bind_ok, Except.ok.injEq, exists_eq_left'] at flagged
    split at flagged
    · rename_i value isFlag
      cases flagged
      rw [Option.bind_some, isFlag]
      cases flag with
      | false =>
          cases rest
          simp
      | true =>
          simp only [endless, Bool.not_false, Bool.and_self, if_true, Build.bind_ok,
            Build.pure_outcome, Except.ok.injEq] at rest
          obtain ⟨_, -, rfl⟩ := rest
          simp
    · cases flagged

/-- The message takes the mark of removal over: it reuses a message that has it, has no end itself,
and its element does not take the mark away. -/
structure TakesRemoval (dir : Directory) (placed : Placed) (m : Message) : Prop where
  source : ∃ ref source, m.reusedFrom = some ref ∧ dir.message? ref = some source ∧
    source.removed = true
  endless : m.window.isDeprecated = false
  kept : (placed.node.attribute? "removed").bind Literal.boolean? ≠ some false

theorem read_takes_removal_iff {dir : Directory} {placed : Placed} {m : Message}
    (read : (Message.read dir placed).outcome = .ok m) :
    (m.removed = true → m.window.isDeprecated = true) ↔ ¬ m.TakesRemoval dir placed := by
  simp only [Message.read, Build.bind_ok, Build.lift_outcome, Build.pure_outcome,
    Except.ok.injEq] at read
  obtain ⟨props, hasProps, first, started, _, -, _, -, _, -, _, -, window, -, removed, ofRemoved,
    _, -, _, -, _, -, _, -, _, -, _, -, rfl⟩ := read
  have given : props.get? "removed" = placed.node.attribute? "removed" :=
    Properties.get_of_attribute hasProps (by decide)
  by_cases ends : window.isDeprecated = true
  · constructor
    · intro _ takes
      exact absurd ends (by simp [takes.endless])
    · exact fun _ _ => ends
  · have endless : window.isDeprecated = false := Bool.not_eq_true _ ▸ ends
    have marked := read_removed_iff ofRemoved endless
    rw [start_removed_iff started, given] at marked
    constructor
    · intro onlyEnding takes
      exact ends (onlyEnding (marked.mpr ⟨takes.source, takes.kept⟩))
    · intro takesNot isRemoved
      obtain ⟨source, kept⟩ := marked.mp isRemoved
      exact absurd ⟨source, endless, kept⟩ takesNot

end Message

namespace Protocol

/-- After any loads, every field of the model, at any depth, is marked as removed only if it has an
end, and so is every message exactly if it does not take the mark over. -/
theorem removed_only_deprecated_iff (sources : List String) :
    (∀ f, (after sources).Has f → ∀ g, f.LeadsTo g → g.profile.removed = true →
      g.window.isDeprecated = true) ∧
    ∀ s ∈ (after sources).schemas, ∀ m ∈ s.messages, ∃ before source rest layout,
      sources = before ++ source :: rest ∧ (after before).Adds source layout s ∧
      (∃ dir placed, (after before).ReadsMessage s.context layout dir placed m) ∧
      ∀ dir placed, (after before).ReadsMessage s.context layout dir placed m →
        ((m.removed = true → m.window.isDeprecated = true) ↔ ¬ m.TakesRemoval dir placed) := by
  constructor
  · intro f has g leads
    exact (after_throughout Field.ends_if_removed_law sources).1 f has g leads (after_grown sources)
  · intro s loaded m member
    obtain ⟨before, source, rest, layout, split, adds⟩ := after_adds loaded
    refine ⟨before, source, rest, layout, split, adds, adds_reads_message adds m member, ?_⟩
    intro dir placed reads
    exact Message.read_takes_removal_iff reads.read

def endingCopy : String := r#"<schema name="S" version="5">
  <message name="M" id="1" deprecated="2" removed="true">
    <int name="f" type="uint8" deprecated="1" removed="true"/>
  </message>
  <message name="N" id="2" reuse="M" deprecated="4"/>
</schema>"#

set_option maxRecDepth 6000 in
/-- A copy that has an end itself may be removed, and the field it takes over ends too. -/
theorem ending_copy_removed :
    ∃ s ∈ (after [endingCopy]).schemas, ∃ m ∈ s.messages, ∃ f ∈ m.fields,
      m.reusedFrom = some "M" ∧ m.removed = true ∧ m.window = ⟨0, 4⟩ ∧
      f.profile.removed = true ∧ f.window.isDeprecated = true ∧
      ∃ layout dir placed, (after []).ReadsMessage s.context layout dir placed m ∧
        ¬ m.TakesRemoval dir placed := by
  have found :
      ((after [endingCopy]).schemas.any fun s => s.messages.any fun m => m.fields.any fun f =>
        m.reusedFrom = some "M" && m.removed && m.window = ⟨0, 4⟩ && f.profile.removed) = true := by
    rw [after_spelled endingCopy String.toList_ofList]
    decide +kernel
  simp only [List.any_eq_true, Bool.and_eq_true, decide_eq_true_eq] at found
  obtain ⟨s, loaded, m, member, f, inside, ⟨⟨reused, removed⟩, window⟩, removedField⟩ := found
  obtain ⟨fields, messages⟩ := removed_only_deprecated_iff [endingCopy]
  have ends := fields f (.ofMessage loaded member inside) f (.refl f) removedField
  obtain ⟨before, source, rest, layout, split, -, ⟨dir, placed, reads⟩, exactly⟩ :=
    messages s loaded m member
  -- There is one document, so none stands before it.
  obtain rfl : before = [] := by
    cases before with
    | nil => rfl
    | cons first others => simp at split
  refine ⟨s, loaded, m, member, f, inside, reused, removed, window, removedField, ends,
    layout, dir, placed, reads, (exactly dir placed reads).mp ?_⟩
  rw [window]
  exact fun _ => rfl

def endlessCopy : String := r#"<schema name="S" version="5">
  <message name="M" id="1" deprecated="2" removed="true">
    <int name="f" type="uint8"/>
  </message>
  <message name="N" id="2" reuse="M"/>
</schema>"#

set_option maxRecDepth 6000 in
/-- A message that only reuses a removed one is removed and never ends. -/
theorem endless_copy_removed :
    ∃ s ∈ (after [endlessCopy]).schemas, ∃ m ∈ s.messages,
      m.name = "N" ∧ m.removed = true ∧ m.window = Window.always ∧
        m.window.isDeprecated = false := by
  have found :
      ((after [endlessCopy]).schemas.any fun s => s.messages.any fun m =>
        m.name = "N" && m.removed && m.window = Window.always) = true := by
    rw [after_spelled endlessCopy String.toList_ofList]
    decide +kernel
  simp only [List.any_eq_true, Bool.and_eq_true, decide_eq_true_eq] at found
  obtain ⟨s, loaded, m, member, ⟨name, removed⟩, window⟩ := found
  exact ⟨s, loaded, m, member, name, removed, window, window ▸ rfl⟩

end Protocol

end WireSchema
