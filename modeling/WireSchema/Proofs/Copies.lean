import WireSchema.Proofs.Addressing
import WireSchema.Proofs.Answers
import WireSchema.Proofs.Properties
import WireSchema.Proofs.Unsaid

/-!
Copies of registered fields. A global field whose element says nothing but its name and what it
reuses is the reused field again, under its own name and line, in all that it shows and in every
answer it gives. The one exception is an integer whose default is out of its range, as a named value
can make it: the copy has another default.
-/

namespace WireSchema

open Markup (Node)

namespace Payload

variable {α : Type}

def refit : Payload α → Payload α
  | .int spec => .int spec.refit
  | payload => payload

def defaultFits : Payload α → Bool
  | .int spec => spec.holds spec.defaultValue
  | _ => true

theorem refit_of_fits {payload : Payload α} (fits : payload.defaultFits = true) :
    payload.refit = payload := by
  cases payload with
  | int spec =>
      have holds : spec.holds spec.defaultValue = true := fits
      rw [refit, IntSpec.refit, if_pos holds]
  | _ => rfl

end Payload

namespace Field

theorem adopt_from_start {members : List Field} (ends : ∀ m ∈ members, 0 < m.window.deprecated) :
    adopt 0 members = members := by
  induction members with
  | nil => rfl
  | cons m rest ih =>
      obtain ⟨here, later⟩ := List.forall_mem_cons.mp ends
      have stays : m.isGoneBy 0 = false := by
        rw [isGoneBy, Bool.and_eq_false_iff, decide_eq_false_iff_not]
        exact Or.inr (Nat.not_le_of_lt here)
      have lifted : m.liftTo 0 = m := by
        obtain ⟨profile, payload⟩ := m
        rw [liftTo, Nat.max_zero]
        rfl
      have others := ih later
      rw [adopt] at others ⊢
      rw [List.filter_cons, stays, Bool.not_false, if_pos rfl, List.map_cons, lifted, others]

theorem handed_on_ends {since : Nat} {payload : Payload Field} {part : Field}
    (ends : ∀ part ∈ payload.parts, 0 < part.window.deprecated)
    (handed : part ∈ Environment.handedOn since payload) : 0 < part.window.deprecated := by
  have lifted {members : List Field} (each : ∀ m ∈ members, 0 < m.window.deprecated)
      (taken : part ∈ adopt since members) : 0 < part.window.deprecated := by
    obtain ⟨source, kept, rfl⟩ := List.mem_map.mp taken
    rw [lift_to_window]
    exact each source (List.mem_filter.mp kept).1
  cases payload with
  | bundle spec | variant spec => exact lifted ends handed
  | bitfield spec => exact absurd handed List.not_mem_nil
  | _ => exact ends part handed

/-- No part of a registered field ends before all versions. -/
theorem parts_end_law :
    Registry.Law (fun _ => True) fun _ f => ∀ part ∈ f.parts, 0 < part.window.deprecated where
  grown _ ends := ends
  built := by
    intro env tag node parent f _ found built part member
    obtain ⟨fits, -⟩ := (build_within_written built).1
    by_cases inherited : part ∈ env.inheritedParts f
    · unfold Environment.inheritedParts at inherited
      split at inherited
      · rename_i handle hit
        obtain ⟨ref, -, atRef⟩ := Option.bind_eq_some_iff.mp hit
        exact handed_on_ends (found ref handle atRef) inherited
      · exact absurd inherited List.not_mem_nil
    · exact Nat.zero_lt_of_lt (fits part member inherited).proper

end Field

namespace RefSpec

theorem inherit_again (profile : Profile) (target : Field) :
    inherit (inherit profile target) target = inherit profile target := by
  simp only [inherit, Profile.mk.injEq]
  grind

/-- What a target has filled in once stays when the field is given another name. -/
theorem inherit_renamed {profile renamed : Profile} {target : Field}
    (fixed : inherit profile target = profile)
    (displayName : renamed.displayName = profile.displayName)
    (semanticType : renamed.semanticType = profile.semanticType) (named : renamed.name ≠ "") :
    inherit renamed target = renamed := by
  have sameDisplay := congrArg Profile.displayName fixed
  have sameSemantic := congrArg Profile.semanticType fixed
  simp only [inherit, ← displayName, ← semanticType] at sameDisplay sameSemantic
  rw [inherit, if_neg named, sameDisplay, sameSemantic]

theorem read_ok {d : Declaration} {profile filled : Profile} {start spec : RefSpec Field}
    (done : (read d profile start).outcome = .ok (filled, spec)) :
    (d.parent.isBitfield = false → spec.bitLength = 0) ∧
      ∃ handle, spec.target = some handle ∧ filled = inherit profile handle.target := by
  simp only [read, Build.bind_ok, Build.lift_outcome, Build.pure_outcome, Except.ok.injEq,
    Prod.mk.injEq] at done
  obtain ⟨handle, -, bits, ofBits, rfl, rfl⟩ := done
  exact ⟨fun outside => Declaration.read_bit_length_outside outside ofBits, handle, rfl, rfl⟩

end RefSpec

/-- Nothing of the payload changes when it is read again for a global field. -/
def Payload.Settled : Payload Field → Prop
  | .int spec => (∃ type, spec.Settled type) ∧ spec.storage.bitLength = 0
  | .float spec => (∃ type, spec.Settled type) ∧ ∀ i ∈ spec.declaredRanges, i.On Number.reals
  | .enum spec => (∃ type, spec.Settled type) ∧ spec.storage.bitLength = 0
  | .set spec => spec.storage.bitLength = 0
  | .bitfield spec => ∀ m ∈ spec.members, m.window = Window.always
  | .bundle spec => ∀ m ∈ spec.members, 0 < m.window.deprecated
  | .variant spec => ∀ m ∈ spec.members, 0 < m.window.deprecated
  | .ref spec => spec.bitLength = 0
  | .string _ | .data _ | .list _ | .optional _ => True

/-- Declaring once more that all finite numbers are valid makes no difference. -/
theorem FloatSpec.merge_again {type : FloatType} {spec : FloatSpec} (settled : spec.Settled type)
    (real : ∀ i ∈ spec.declaredRanges, i.On Number.reals) :
    Interval.merge ⟨.real, spec.validCheckVersion⟩ (spec.declaredRanges ++
      if spec.validFullRange then [Interval.full type] else []) = spec.validRanges := by
  rw [settled.merged]
  split
  · rename_i isFull
    exact Interval.merge_full_again _ real (settled.covered isFull)
  · rw [List.append_nil]

namespace Declaration

theorem reads_settled {d : Declaration} {profile : Profile} {payload : Payload Field} {f : Field}
    (outside : d.parent.isBitfield = false) (always : profile.window = Window.always)
    (reads : d.ReadsAs profile payload f)
    (real : ∀ spec, f.payload = .float spec → ∀ i ∈ spec.declaredRanges, i.On Number.reals)
    (ends : ∀ part ∈ f.parts, 0 < part.window.deprecated) : f.payload.Settled := by
  cases reads with
  | int done =>
      obtain ⟨type, _, _, settled, -, stored⟩ := IntSpec.read_ok done
      exact ⟨⟨type, settled⟩, (Declaration.read_storage_ok stored).2.2 outside⟩
  | float done =>
      obtain ⟨type, _, -, settled, -⟩ := FloatSpec.read_ok done
      exact ⟨⟨type, settled⟩, real _ rfl⟩
  | enum done =>
      obtain ⟨type, _, settled, -, stored⟩ := EnumSpec.read_ok done
      exact ⟨⟨type, settled⟩, (Declaration.read_storage_ok stored).2.2 outside⟩
  | set done => exact Declaration.read_bit_length_outside outside (SetSpec.read_ok done).2.1
  | bitfield done =>
      intro m member
      rw [(BitfieldSpec.read_ok done m member).1, always]
  | bundle | variant => exact ends
  | ref done => exact (RefSpec.read_ok done).1 outside
  | string | data | list | optional => trivial

theorem reads_profile {d : Declaration} {profile : Profile} {payload : Payload Field} {f : Field}
    (reads : d.ReadsAs profile payload f) :
    f.profile.removed = profile.removed ∧ f.window = profile.window ∧
      ∀ spec handle, f.payload = .ref spec → spec.target = some handle →
        RefSpec.inherit f.profile handle.target = f.profile := by
  cases reads with
  | ref done =>
      obtain ⟨-, handle, leads, rfl⟩ := RefSpec.read_ok done
      refine ⟨rfl, rfl, ?_⟩
      intro spec other isRef leadsOther
      cases isRef
      cases leads.symm.trans leadsOther
      exact RefSpec.inherit_again profile handle.target
  | _ => exact ⟨rfl, rfl, fun _ _ isRef => (nomatch isRef)⟩

theorem reads_silent {d : Declaration} {profile : Profile} {payload : Payload Field} {f : Field}
    (silent : d.Silent) (always : profile.window = Window.always) (settled : payload.Settled)
    (filled : ∀ spec handle, payload = .ref spec → spec.target = some handle →
      RefSpec.inherit profile handle.target = profile)
    (reads : d.ReadsAs profile payload f) :
    f.profile = profile ∧ f.payload.shown = payload.refit.shown := by
  have fromStart : profile.window.since = 0 := congrArg Window.since always
  cases reads with
  | int done =>
      obtain ⟨⟨type, settled⟩, whole⟩ := settled
      rw [IntSpec.read_silent silent settled whole done]
      exact ⟨rfl, rfl⟩
  | float done =>
      obtain ⟨⟨type, settled⟩, real⟩ := settled
      rw [FloatSpec.read_silent silent settled.typed done]
      refine ⟨rfl, ?_⟩
      simp only [Payload.refit, Payload.shown]
      rw [FloatSpec.merge_again settled real]
  | enum done =>
      obtain ⟨⟨type, settled⟩, whole⟩ := settled
      rw [EnumSpec.read_silent silent settled whole done]
      exact ⟨rfl, rfl⟩
  | set done =>
      rw [SetSpec.read_silent silent settled done]
      exact ⟨rfl, rfl⟩
  | bitfield done =>
      have windows := fun m member => (settled m member).trans always.symm
      rw [BitfieldSpec.read_silent silent windows done]
      exact ⟨rfl, rfl⟩
  | bundle done =>
      have kept := fromStart ▸ Field.adopt_from_start settled
      rw [BundleSpec.read_silent silent kept done]
      exact ⟨rfl, rfl⟩
  | variant done =>
      have kept := fromStart ▸ Field.adopt_from_start settled
      rw [VariantSpec.read_silent silent kept done]
      exact ⟨rfl, rfl⟩
  | string done =>
      cases (StringSpec.read_silent silent profile _).symm.trans done
      exact ⟨rfl, rfl⟩
  | data done =>
      cases (DataSpec.read_silent silent profile _).symm.trans done
      exact ⟨rfl, rfl⟩
  | list done =>
      rw [ListSpec.read_silent silent done]
      exact ⟨rfl, rfl⟩
  | optional done =>
      rw [OptionalSpec.read_silent silent done]
      exact ⟨rfl, rfl⟩
  | ref done =>
      obtain ⟨rfl, handle, leads, rfl⟩ := RefSpec.read_silent silent settled done
      exact ⟨filled _ handle rfl leads, rfl⟩

/-- The copy that a build starts from has the payload of the source; its name is open. -/
theorem start_copy {env : Environment} {kind : Kind} {node : Node} {ref : String}
    {handle : Handle Field} {start : Field} (found : env.find? ref = some handle)
    (started : Declaration.start env kind node (some ref) = .ok start) :
    start = ⟨{ handle.target.profile with
        name := ""
        line := node.line
        window := Window.always
        removed := false
        copyCodeFrom := none
        reusedFrom := some ref }, handle.target.payload⟩ := by
  simp only [Declaration.start, found, except_bind_ok, Except.ok.injEq] at started
  obtain ⟨copy, copied, rfl⟩ := started
  unfold Field.reuse at copied
  split at copied
  · cases copied
    rfl
  · cases copied

theorem start_removed {env : Environment} {kind : Kind} {node : Node} {reuse : Option String}
    {start : Field} (started : Declaration.start env kind node reuse = .ok start) :
    start.profile.removed = false := by
  rcases (start_ok started).2 with ⟨rfl, -, -⟩ | ⟨ref, handle, rfl, -, found, -⟩
  · cases started
    rfl
  · rw [start_copy found started]

end Declaration

structure Field.Settled (f : Field) : Prop where
  window : f.window = Window.always
  removed : f.profile.removed = false
  payload : f.payload.Settled
  filled : ∀ spec handle, f.payload = .ref spec → spec.target = some handle →
    RefSpec.inherit f.profile handle.target = f.profile

namespace Registry

theorem settled_of_get {r : Registry} (grown : r.GrownIn Parent.IsNamespace) {id : Nat} {f : Field}
    (held : r.get? id = some f) : f.Settled := by
  have anywhere := grown_imp (fun _ _ => trivial) grown
  have real := law_of_get (Payload.law_everywhere Payload.real_law) anywhere held
  have ends := law_of_get Field.parts_end_law anywhere held
  obtain ⟨e, entry, rfl⟩ := (get_some_iff r id f).mp held
  obtain ⟨env, tag, node, parent, rfl, -, built⟩ := grown id e entry
  obtain ⟨kind, inside, props, reuse, start, profile, -, -, started, profiled, read⟩ :=
    Field.create_ok built
  have reads := Declaration.read_payload_reads read
  obtain ⟨window, removed⟩ := (Declaration.read_profile_ok profiled).2.2 rfl
  have always := window.trans (Declaration.start_ok started).1
  obtain ⟨keptRemoved, keptWindow, filled⟩ := Declaration.reads_profile reads
  exact ⟨keptWindow.trans always,
    keptRemoved.trans (removed.trans (Declaration.start_removed started)),
    Declaration.reads_settled rfl always reads (Field.everywhere_iff.mp real).1 ends, filled⟩

end Registry

structure Markup.Node.OnlyReuses (node : Node) (name ref : String) : Prop where
  attributes : ∀ entry ∈ node.attributes, IsIdentity entry.1
  children : ∀ child ∈ node.children, IsIdentity child.name
  declares : ∃ props, Properties.ofNode node ["name", "reuse"] = .ok props ∧
    props.single node "name" = .ok (some name) ∧ props.single node "reuse" = .ok (some ref)

namespace Properties

theorem of_children_only {names : List String} {children : List Node}
    (known : names.contains "name" = true ∧ names.contains "reuse" = true)
    (only : ∀ child ∈ children, IsIdentity child.name) :
    ofChildren names children = ofChildren ["name", "reuse"] children := by
  induction children with
  | nil => rfl
  | cons child rest ih =>
      obtain ⟨here, others⟩ := List.forall_mem_cons.mp only
      have listed : names.contains child.name = true ∧
          ["name", "reuse"].contains child.name = true := by
        rcases here with isName | isReuse
        · rw [isName]
          exact ⟨known.1, rfl⟩
        · rw [isReuse]
          exact ⟨known.2, rfl⟩
      rw [ofChildren, ofChildren, listed.1, listed.2, ih others]

theorem of_node_only {node : Node} {name ref : String} {kind : Kind} {props : Properties}
    (only : node.OnlyReuses name ref) (read : ofNode node kind.allProperties = .ok props) :
    props.single node "name" = .ok (some name) ∧ props.single node "reuse" = .ok (some ref) ∧
      ∀ entry ∈ props.entries, IsIdentity entry.1 := by
  have known : kind.allProperties.contains "name" = true ∧
      kind.allProperties.contains "reuse" = true := by
    cases kind <;> decide
  obtain ⟨said, ofSaid, saysName, saysReuse⟩ := only.declares
  simp only [ofNode, of_children_only known only.children, except_bind_ok, Except.ok.injEq]
    at read ofSaid
  obtain ⟨entries, ofChildren, rfl⟩ := read
  obtain ⟨_, same, rfl⟩ := ofSaid
  cases ofChildren.symm.trans same
  refine ⟨saysName, saysReuse, ?_⟩
  rw [List.forall_mem_append]
  refine ⟨only.attributes, fun entry member => ?_⟩
  obtain ⟨-, child, inside, named⟩ := of_children_named ofChildren entry member
  exact named ▸ only.children child inside

end Properties

namespace Field

/-- What an element that only reuses a registered field makes of it. -/
theorem create_only_reuses {env : Environment} {tag name ref : String} {node : Node}
    {handle : Handle Field} {f : Field} (found : env.find? ref = some handle)
    (settled : handle.target.Settled) (named : name ≠ "") (only : node.OnlyReuses name ref)
    (built : (create env tag node ⟨.ns, Window.always⟩).outcome = .ok f) :
    f.profile = { handle.target.profile with
        name
        line := node.line
        reusedFrom := some ref
        copyCodeFrom := none } ∧
      f.payload.shown = handle.target.payload.refit.shown := by
  obtain ⟨kind, inside, props, reuse, start, profile, hasProps, hasReuse, started, profiled,
    read⟩ := create_ok built
  obtain ⟨saysName, saysReuse, identity⟩ := Properties.of_node_only only hasProps
  cases hasReuse.symm.trans saysReuse
  have silent : Declaration.Silent ⟨node, env, ⟨.ns, Window.always⟩, props, true, inside⟩ :=
    ⟨rfl, rfl, identity, only.attributes, only.children⟩
  cases Declaration.start_copy found started
  have isProfile := Declaration.read_profile_silent silent saysName profiled
  have always : profile.window = Window.always := by rw [isProfile]
  -- A reference takes the texts it lacks from its target. The reused one has done so before, and
  -- the new name is not among them.
  have filled : ∀ spec target, handle.target.payload = .ref spec → spec.target = some target →
      RefSpec.inherit profile target.target = profile := by
    intro spec target isRef leads
    have fixed := settled.filled spec target isRef leads
    exact RefSpec.inherit_renamed fixed (by rw [isProfile]) (by rw [isProfile])
      (by rw [isProfile]; exact named)
  obtain ⟨kept, shown⟩ := Declaration.reads_silent silent always settled.payload filled
    (Declaration.read_payload_reads read)
  have window : handle.target.profile.window = Window.always := settled.window
  refine ⟨?_, shown⟩
  simp only [kept, isProfile, window, settled.removed]

end Field

theorem IntSpec.refit_moves {spec : IntSpec} {type : IntType} (settled : spec.Settled type)
    (misfit : ¬ spec.holds spec.defaultValue = true) :
    spec.refit.defaultValue ≠ spec.defaultValue := by
  have ordered := settled_ordered settled
  rw [refit, if_neg misfit]
  rw [holds_iff] at misfit
  simp only
  omega

namespace Field

/-- The default that a copy has moved is seen in the payload and by the empty path. -/
theorem fits_of_default {f g : Field} (settled : g.payload.Settled)
    (copied : f.payload.shown = g.payload.refit.shown) (answers : f.numeric? "" = g.numeric? "") :
    g.payload.defaultFits = true := by
  obtain ⟨profile, payload⟩ := g
  cases payload with
  | int spec =>
      obtain ⟨⟨type, settled⟩, -⟩ := settled
      by_cases fits : spec.holds spec.defaultValue = true
      · exact fits
      · have moved := (answers_of_shown (g := ⟨profile, .int spec.refit⟩) copied).numeric ""
        rw [moved] at answers
        have same : spec.refit.defaultValue = spec.defaultValue := by
          simpa [numeric?, holder?, ownNumeric?, IntSpec.valueAt?] using answers
        exact absurd same (IntSpec.refit_moves settled fits)
  | _ => rfl

end Field

namespace Protocol

/-- A global field whose element says nothing but its name and which registered field it reuses is
that field again: the profile has another name, line and origin, and the payload shows the same and
gives the same answers, exactly if the default of an integer is not out of its range. -/
theorem pure_reuse_copies_iff {sources : List String} {env : Environment} {e : Entry}
    {tag name : String} {node : Node} {f : Field}
    (reached : env.registry.Extends (after sources).registry)
    (registered : e ∈ env.registry.entries) (own : e.schema = env.context.name)
    (named : Name.isIdentifier name = true) (only : node.OnlyReuses name e.name)
    (built : (Field.create env tag node ⟨.ns, Window.always⟩).outcome = .ok f) :
    f.profile = { e.field.profile with
        name
        line := node.line
        reusedFrom := some e.name
        copyCodeFrom := none } ∧
      f.payload.shown = e.field.payload.refit.shown ∧
      (f.payload.shown = e.field.payload.shown ↔ e.field.payload.defaultFits = true) ∧
      (f.AnswersAs e.field ↔ e.field.payload.defaultFits = true) := by
  have valid := Registry.wellformed_of_extends reached (after_wellformed sources)
  have grown := Registry.grown_of_extends reached (after_grown sources)
  obtain ⟨id, entry⟩ := List.mem_iff_getElem?.mp registered
  have held : env.registry.get? id = some e.field :=
    (Registry.get_some_iff _ _ _).mpr ⟨e, entry, rfl⟩
  have found : env.find? e.name = some ⟨id, e.name, e.field⟩ := by
    rw [Environment.find?, ← own]
    exact (Registry.find_registered valid (Registry.id_of_entry valid entry) held).1
  have settled := Registry.settled_of_get grown held
  have nonempty : name ≠ "" := by
    rintro rfl
    revert named
    decide
  obtain ⟨profile, copied⟩ := Field.create_only_reuses found settled nonempty only built
  have same (fits : e.field.payload.defaultFits = true) :
      f.payload.shown = e.field.payload.shown := by
    rw [Payload.refit_of_fits fits] at copied
    exact copied
  -- Back from equality to the default: the number under the empty path tells it.
  refine ⟨profile, copied, ⟨?_, same⟩, ?_, fun fits => Field.answers_of_shown (same fits)⟩
  · intro shown
    exact Field.fits_of_default settled.payload copied ((Field.answers_of_shown shown).numeric "")
  · intro answers
    exact Field.fits_of_default settled.payload copied (answers.numeric "")

def fullFloat : String :=
  "<schema name=\"S\"><fields>" ++
  "<float name=\"A\" type=\"float\" validFullRange=\"1\"/></fields></schema>"

def floatCopy : Node := ⟨"float", [("name", "B"), ("reuse", "A")], [], "", 1⟩

theorem float_copy_only_reuses : floatCopy.OnlyReuses "B" "A" where
  attributes := List.forall_mem_cons.mpr ⟨Or.inl rfl, List.forall_mem_singleton.mpr (Or.inr rfl)⟩
  children := fun _ member => absurd member List.not_mem_nil
  declares := ⟨⟨[("name", "B"), ("reuse", "A")]⟩, rfl, rfl, rfl⟩

def schemaIn (p : Protocol) : Environment := ⟨{ name := "S" }, p.registry, []⟩

theorem float_copy_equal :
    ∃ e f, (after [fullFloat]).registry.entries = [e] ∧
      (Field.create (after [fullFloat]).schemaIn "float" floatCopy ⟨.ns, Window.always⟩).outcome =
        .ok f ∧
      f.name = "B" ∧ f.validRanges?.map List.length = some 1 ∧
      f.payload.shown = e.field.payload.shown ∧ f.AnswersAs e.field := by
  have found : (after [fullFloat]).registry.entries.map
        (fun e => (e.schema, e.name, e.field.payload.defaultFits)) = [("S", "A", true)] ∧
      (Field.create (after [fullFloat]).schemaIn "float" floatCopy
        ⟨.ns, Window.always⟩).outcome.toOption.map (fun f => f.validRanges?.map List.length) =
        some (some 1) := by
    decide +kernel
  -- From here on the load is a name: no unification may unfold it.
  generalize loaded : after [fullFloat] = p at found
  simp only [List.map_eq_singleton_iff, Prod.mk.injEq] at found
  obtain ⟨⟨e, entries, schema, name, fits⟩, one⟩ := found
  cases built : (Field.create p.schemaIn "float" floatCopy ⟨.ns, Window.always⟩).outcome with
  | error =>
      rw [built] at one
      cases one
  | ok f =>
      rw [built] at one
      have reached : p.schemaIn.registry.Extends (after [fullFloat]).registry := by
        rw [loaded]
        exact Registry.extends_refl p.registry
      have registered : e ∈ p.schemaIn.registry.entries := by
        rw [schemaIn, entries]
        exact List.mem_singleton_self e
      have only : floatCopy.OnlyReuses "B" e.name := name ▸ float_copy_only_reuses
      have copies := pure_reuse_copies_iff reached registered schema (by decide) only built
      refine ⟨e, f, entries, rfl, ?_, Option.some.inj one, copies.2.2.1.mpr fits,
        copies.2.2.2.mpr fits⟩
      rw [Field.name, copies.1]

def copiedTwice : String :=
  "<schema name=\"S\"><fields>" ++
  "<int name=\"A\" type=\"uint16\"><special name=\"s\" val=\"999\"/></int>" ++
  "<int name=\"B\" reuse=\"A\" length=\"1\" defaultValue=\"s\"/>" ++
  "<int name=\"C\" reuse=\"B\"/></fields></schema>"

/-- The second copy says nothing but its name and what it reuses, and has another default. -/
theorem second_copy_moves_default :
    ∃ first second third, (after [copiedTwice]).registry.entries = [first, second, third] ∧
      second.name = "B" ∧ third.field.profile.reusedFrom = some "B" ∧
      second.field.numeric? "" = some 999 ∧ third.field.numeric? "" = some 0 := by
  have found : (after [copiedTwice]).registry.entries.map
      (fun e => (e.name, e.field.profile.reusedFrom, e.field.numeric? "")) =
        [("A", none, some 0), ("B", some "A", some 999), ("C", some "B", some 0)] := by
    decide +kernel
  simp only [List.map_eq_cons_iff, List.map_eq_nil_iff, Prod.mk.injEq] at found
  obtain ⟨first, _, entries, -, second, _, rfl, ⟨name, -, default⟩, third, _, rfl,
    ⟨-, origin, moved⟩, rfl⟩ := found
  exact ⟨first, second, third, entries, name, origin, default, moved⟩

end Protocol

end WireSchema
