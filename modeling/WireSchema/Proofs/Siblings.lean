import WireSchema.Proofs.Growth
import WireSchema.Proofs.Verification

/-!
References to siblings: detached prefixes and terminators, and the `$` operands of conditions. Every
list of siblings in a model is checked as a whole once it is complete, so whatever was taken over,
left out or replaced in it, the references in it lead to fields of the same list.
-/

namespace WireSchema

namespace Payload

def announcers : Payload Field → List String
  | .string spec => (spec.delimiter.lead?.bind Prefix.sibling?).toList
  | .data spec => (spec.delimiter.lead?.bind Prefix.sibling?).toList
  | .list spec => (spec.repetition.lead?.bind Prefix.sibling?).toList ++
      (spec.elementPrefix.bind Prefix.sibling?).toList
  | _ => []

def terminator? : Payload Field → Option String
  | .list ⟨_, .termSuffix tail, _, _⟩ => tail.sibling?
  | _ => none

def operands : Payload Field → List Operand
  | .optional spec => (spec.condition.map Condition.operands).getD []
  | _ => []

end Payload

namespace Field

structure Intact (siblings : List Field) (f : Field) : Prop where
  announced : ∀ path ∈ f.payload.announcers, ∃ g, resolve siblings path = .field g ∧
    (g.dereferenced.kind = .int ∨ g.semanticType = .length)
  terminated : ∀ path, f.payload.terminator? = some path → ∃ g, resolve siblings path = .field g
  conditions : ∀ o ∈ f.payload.operands, o.scope = .sibling →
    (resolve siblings o.marked.text).isValid = true

theorem announces_iff (f : Field) :
    Declaration.announces f = true ↔ f.dereferenced.kind = .int ∨ f.semanticType = .length := by
  simp [Declaration.announces]

theorem verify_detached_ok {siblings : List Field} {line : Nat} {lead? : Option (Prefix Field)}
    (verified : verifyDetached siblings line lead? = .ok ()) :
    ∀ path ∈ (lead?.bind Prefix.sibling?).toList, ∃ g, resolve siblings path = .field g ∧
      (g.dereferenced.kind = .int ∨ g.semanticType = .length) := by
  intro path named
  rw [Option.mem_toList, Option.bind_eq_some_iff] at named
  obtain ⟨lead, rfl, detached⟩ := named
  cases lead with
  | part => nomatch detached
  | detached sibling =>
      cases detached
      simp only [verifyDetached] at verified
      split at verified
      · rename_i g resolved
        split at verified
        · rename_i announces
          exact ⟨g, resolved, (announces_iff g).mp announces⟩
        · nomatch verified
      · nomatch verified

theorem verify_terminator_ok {siblings : List Field} {line : Nat} {tail : Prefix Field}
    (verified : verifyTerminator siblings line tail = .ok ()) :
    ∀ path, tail.sibling? = some path → ∃ g, resolve siblings path = .field g := by
  intro path detached
  cases tail with
  | part => nomatch detached
  | detached sibling =>
      cases detached
      simp only [verifyTerminator] at verified
      split at verified
      · rename_i g resolved
        exact ⟨g, resolved⟩
      · nomatch verified

end Field

namespace Operand

/-- An operand that leads somewhere leads to a sibling, if that is its scope. -/
theorem resolves_of_targets {o : Operand} {siblings : List Field} {interfaces : List Interface}
    (somewhere : o.targets siblings interfaces ≠ []) (atSibling : o.scope = .sibling) :
    (Field.resolve siblings o.marked.text).isValid = true := by
  rw [targets, atSibling] at somewhere
  obtain ⟨target, found⟩ := List.exists_mem_of_ne_nil _ somewhere
  obtain ⟨only, valid⟩ := List.mem_filter.mp found
  cases List.mem_singleton.mp only
  exact valid

end Operand

/-- Every operand of a verified expression leads somewhere. -/
theorem Expression.verify_demands {siblings : List Field} {env : Environment} {place : Place}
    {e : Expression} (verified : e.verify siblings env place = .ok ()) :
    ∀ o ∈ e.operands, o.targets siblings env.interfaces ≠ [] := by
  obtain ⟨-, fits⟩ := e.verify_ok_iff.mp verified
  intro o member
  cases fits with
  | check _ found _ | size _ _ found _ =>
      cases List.mem_singleton.mp member
      exact List.ne_nil_of_mem found
  | @value left op right f _ found accepts =>
      cases right with
      | literal value =>
          cases List.mem_singleton.mp member
          exact List.ne_nil_of_mem found
      | operand other =>
          obtain ⟨g, foundRight, -⟩ := accepts
          rcases List.mem_cons.mp member with rfl | second
          · exact List.ne_nil_of_mem found
          · cases List.mem_singleton.mp second
            exact List.ne_nil_of_mem foundRight

theorem Condition.verify_demands {siblings : List Field} {env : Environment} {place : Place}
    (c : Condition) (verified : c.verify siblings env place = .ok ()) :
    ∀ o ∈ c.operands, o.targets siblings env.interfaces ≠ [] := by
  rw [operands_eq]
  intro o member
  obtain ⟨e, inside, ofExpression⟩ := List.mem_flatMap.mp member
  exact Expression.verify_demands (((verify_iff c).mp verified).2 e inside) o ofExpression

namespace Field

theorem verify_siblings_intact {siblings : List Field} {env : Environment} {f : Field}
    (verified : f.verifySiblings siblings env = .ok ()) : f.Intact siblings := by
  obtain ⟨profile, payload⟩ := f
  have nothing {α : Type} {here : α → Prop} : ∀ a ∈ ([] : List α), here a :=
    fun a member => absurd member List.not_mem_nil
  have noTerminator {here : String → Prop} : ∀ path, none = some path → here path :=
    fun path named => nomatch named
  cases payload with
  | string | data =>
      exact ⟨verify_detached_ok verified, noTerminator, nothing⟩
  | list spec =>
      obtain ⟨element, repetition, elementPrefix, fixedLength⟩ := spec
      simp only [verifySiblings, Repetition.verify, except_bind_ok] at verified
      obtain ⟨_, ofLead, _, ofElement, ofTail⟩ := verified
      refine ⟨?_, ?_, nothing⟩
      · intro path named
        rcases List.mem_append.mp named with atLead | atElement
        · exact verify_detached_ok ofLead path atLead
        · exact verify_detached_ok ofElement path atElement
      · intro path named
        cases repetition with
        | termSuffix tail => exact verify_terminator_ok ofTail path named
        | unbounded | count | countPrefix | lengthPrefix => nomatch named
  | optional spec =>
      refine ⟨nothing, noTerminator, ?_⟩
      intro o member atSibling
      obtain ⟨inner, mode, condition, onRead, onInvalid⟩ := spec
      cases condition with
      | none => exact absurd member List.not_mem_nil
      | some condition =>
          exact Operand.resolves_of_targets (Condition.verify_demands condition verified o member)
            atSibling
  | int | float | enum | set | bitfield | bundle | ref | variant =>
      exact ⟨nothing, noTerminator, nothing⟩

theorem verify_all_intact {siblings fields : List Field} {env : Environment}
    (verified : verifyAll siblings env fields = .ok ()) : ∀ f ∈ fields, f.Intact siblings := by
  induction fields with
  | nil => exact fun f member => absurd member List.not_mem_nil
  | cons first rest ih =>
      simp only [verifyAll, except_bind_ok] at verified
      obtain ⟨_, ofFirst, ofRest⟩ := verified
      intro f member
      rcases List.mem_cons.mp member with rfl | later
      · exact verify_siblings_intact ofFirst
      · exact ih ofRest f later

theorem read_group_intact {env : Environment} {node : Markup.Node} {parent : Parent}
    {inherited fields : List Field}
    (read : (readGroup env node parent inherited).outcome = .ok fields) :
    ∀ f ∈ fields, f.Intact fields := by
  simp only [readGroup, Build.bind_ok, Build.lift_outcome, Build.pure_outcome,
    Except.ok.injEq] at read
  obtain ⟨_, -, _, -, _, -, _, verified, rfl⟩ := read
  exact verify_all_intact verified

end Field

theorem BundleSpec.read_intact {d : Declaration} {profile : Profile} {spec later : BundleSpec Field}
    (done : (read d profile spec).outcome = .ok later) :
    ∀ m ∈ later.members, m.Intact later.members := by
  simp only [read, Build.bind_ok, Build.lift_outcome, Build.pure_outcome, Except.ok.injEq] at done
  obtain ⟨_, -, members, -, _, -, _, -, _, -, _, verified, _, -, _, -, _, -, rfl⟩ := done
  exact Field.verify_all_intact verified

def Payload.Intact (payload : Payload Field) : Prop :=
  ∀ spec, payload = .bundle spec → ∀ m ∈ spec.members, m.Intact spec.members

theorem Payload.intact_law : Payload.Law fun _ => Payload.Intact where
  blank r kind := by
    intro spec bundle
    cases kind with
    | bundle =>
        cases bundle
        exact fun m member => absurd member List.not_mem_nil
    | _ => nomatch bundle
  grown _ intact := intact
  read _ _ read := by
    intro spec bundle
    cases Declaration.read_payload_reads read with
    | bundle done =>
        cases bundle
        exact BundleSpec.read_intact done
    | _ => nomatch bundle

theorem Interface.read_intact {dir : Directory} {placed : Placed} {i : Interface}
    (read : (Interface.read dir placed).outcome = .ok i) : ∀ f ∈ i.fields, f.Intact i.fields := by
  obtain ⟨_, _, grouped⟩ := read_grouped read
  exact Field.read_group_intact grouped

theorem Interface.read_all_intact {dir : Directory} {nodes : List Placed}
    {interfaces : List Interface}
    (before : ∀ i ∈ dir.interfaces, ∀ f ∈ i.fields, f.Intact i.fields)
    (read : (readAll dir nodes).outcome = .ok interfaces) :
    ∀ i ∈ interfaces, ∀ f ∈ i.fields, f.Intact i.fields := by
  refine Build.gather_all ?_ before read
  intro known placed i ofElement _
  exact read_intact ofElement

theorem Message.read_intact {dir : Directory} {placed : Placed} {m : Message}
    (read : (Message.read dir placed).outcome = .ok m) : ∀ f ∈ m.fields, f.Intact m.fields := by
  obtain ⟨_, _, grouped⟩ := read_grouped read
  exact Field.read_group_intact grouped

namespace Protocol

/-- Lists of fields that can refer to each other: the members of bundles at any depth, the fields of
interfaces and those of messages. -/
inductive SiblingList (p : Protocol) : List Field → Prop where
  | bundle {f : Field} {profile : Profile} {spec : BundleSpec Field} (has : p.Has f)
      (leads : f.LeadsTo ⟨profile, .bundle spec⟩) : SiblingList p spec.members
  | interface {s : Schema} {i : Interface} (loaded : s ∈ p.schemas)
      (inSchema : i ∈ s.interfaces) : SiblingList p i.fields
  | message {s : Schema} {m : Message} (loaded : s ∈ p.schemas)
      (inSchema : m ∈ s.messages) : SiblingList p m.fields

theorem adds_interfaces_intact {p : Protocol} {source : String} {layout : Layout} {s : Schema}
    (adds : p.Adds source layout s) : ∀ i ∈ s.interfaces, ∀ f ∈ i.fields, f.Intact i.fields := by
  have completed := adds.completed
  simp only [complete, Build.bind_ok, Build.pure_outcome, Except.ok.injEq] at completed
  obtain ⟨interfaces, ofInterfaces, _, -, _, -, same⟩ := completed
  rw [← same]
  exact Interface.read_all_intact (fun i member => absurd member List.not_mem_nil) ofInterfaces

/-- In every list of siblings of a model, detached prefixes lead to fields of the list that announce
a number, detached terminators to fields of it, and the `$` operands of conditions to something in
it. -/
theorem sibling_references_intact (sources : List String) (siblings : List Field)
    (listed : (after sources).SiblingList siblings) : ∀ f ∈ siblings, f.Intact siblings := by
  cases listed with
  | @bundle f profile spec has leads =>
      exact (after_everywhere Payload.intact_law sources).1 f has _ leads spec rfl
  | interface loaded inSchema =>
      obtain ⟨before, source, rest, layout, -, adds⟩ := after_adds loaded
      exact adds_interfaces_intact adds _ inSchema
  | message loaded inSchema =>
      obtain ⟨before, source, rest, layout, -, adds⟩ := after_adds loaded
      obtain ⟨dir, placed, reads⟩ := adds_reads_message adds _ inSchema
      exact Message.read_intact reads.read

def replacedLength : String :=
  "<schema name=\"S\"><message name=\"M\" id=\"1\"><int name=\"len\" type=\"uint8\"/>" ++
    "<data name=\"d\" lengthPrefix=\"$len\"/><optional name=\"o\" cond=\"$len &gt; 4\">" ++
    "<field><int name=\"x\" type=\"uint8\"/></field></optional></message>" ++
    "<message name=\"N\" id=\"2\" reuse=\"M\"><replace><int name=\"len\" type=\"uint16\"/>" ++
    "</replace></message></schema>"

/-- The references in a message that was taken over lead to the field that was put in. -/
theorem replaced_length_intact :
    ∃ siblings, (after [replacedLength]).SiblingList siblings ∧
      siblings.map Field.maxLength = [2, Length.unbounded, 1] ∧
      (∃ f ∈ siblings, f.payload.announcers = ["len"] ∧ ∃ g,
        Field.resolve siblings "len" = .field g ∧
        (g.dereferenced.kind = .int ∨ g.semanticType = .length)) ∧
      ∃ f ∈ siblings, f.payload.operands = [⟨.sibling, .value, "len"⟩] ∧
        (Field.resolve siblings "len").isValid = true := by
  have found : ((after [replacedLength]).schemas.any fun s => s.messages.any fun m =>
      m.fields.map Field.maxLength == [2, Length.unbounded, 1] &&
        (m.fields.any fun f => f.payload.announcers == ["len"]) &&
        m.fields.any fun f => f.payload.operands == [⟨.sibling, .value, "len"⟩]) = true := by
    decide +kernel
  simp only [List.any_eq_true, Bool.and_eq_true, beq_iff_eq] at found
  obtain ⟨s, loaded, m, inSchema, ⟨lengths, d, hasData, announcers⟩, o, hasOptional, operands⟩ :=
    found
  have listed : (after [replacedLength]).SiblingList m.fields := .message loaded inSchema
  have intact := sibling_references_intact [replacedLength] m.fields listed
  refine ⟨m.fields, listed, lengths, ⟨d, hasData, announcers, ?_⟩, o, hasOptional, operands, ?_⟩
  · exact (intact d hasData).announced "len" (by rw [announcers]; exact List.mem_singleton_self _)
  · exact (intact o hasOptional).conditions ⟨.sibling, .value, "len"⟩
      (by rw [operands]; exact List.mem_singleton_self _) rfl

end Protocol

end WireSchema
