import WireSchema.Proofs.Answers
import WireSchema.Proofs.Inheritance
import WireSchema.Proofs.Values

/-!
Aliases of bundles. An alias that a bundle declares leads to a field among its members. One that has
come with a reused bundle is taken over unchecked, while members are left out or replaced: it still
leads to a field exactly if the member that its path starts at is there and leads on as before, or is
replaced by one in which the rest of the path leads to a field.
-/

namespace WireSchema

open Markup (Node Event)

namespace MarkedPath

theorem leading_cases (cs : List Char) :
    leading cs = (none, cs) ∨ ∃ query rest, leading cs = (some query, rest) ∧ query ≠ .value := by
  cases cs with
  | nil => exact Or.inl rfl
  | cons c rest =>
      cases isMark : Query.ofMark? c with
      | none => exact Or.inl (by simp only [leading, isMark])
      | some query =>
          refine Or.inr ⟨query, rest, by simp only [leading, isMark], ?_⟩
          unfold Query.ofMark? at isMark
          split at isMark <;> cases isMark <;> decide

/-- A text that asks for the field itself is a path without marks. -/
theorem read_unmarked {s : String} {p : MarkedPath} (read : MarkedPath.read s = .ok p)
    (plain : p.query = .value) : p = ⟨.value, s⟩ := by
  simp only [MarkedPath.read, readList, trailing] at read
  rcases leading_cases s.toList with front | ⟨query, rest, front, marked⟩
  · rw [front] at read
    rcases leading_cases s.toList.reverse with back | ⟨query, rest, back, marked⟩
    · simp only [back, List.reverse_reverse, String.ofList_toList] at read
      split at read
      · cases read
        rfl
      · cases read
    · simp only [back] at read
      split at read
      · cases read
        exact absurd plain marked
      · cases read
  · simp only [front] at read
    split at read
    · split at read
      · cases read
      · rename_i isFront _
        cases isFront
        cases read
        exact absurd plain marked
      · rename_i isFront _
        cases isFront
      · rename_i isFront _
        cases isFront
    · cases read

end MarkedPath

/-- Lifting a field changes its window, and with it no kind of what it leads to. -/
theorem Field.lift_inner_kind (since : Nat) (m : Field) (path : String) :
    ((m.liftTo since).inner path).kind = (m.inner path).kind :=
  leads_as_kind (inner_congr (f := m.liftTo since) (g := m) rfl path)

namespace Alias

def first (a : Alias) : String := (Text.firstSegment a.path).1

def rest (a : Alias) : String := (Text.firstSegment a.path).2

def Leads (a : Alias) (members : List Field) : Prop :=
  (Field.resolve members a.path).kind = .field

def Plain (a : Alias) : Prop := MarkedPath.read a.path = .ok ⟨.value, a.path⟩

theorem ask_field {target : Target} {query : Query} (isField : (target.ask query).kind = .field) :
    query = .value := by
  cases query with
  | value => rfl
  | size | existence =>
      unfold Target.ask at isField
      cases target with
      | field f =>
          simp only at isField
          split at isField <;> cases isField
      | _ => cases isField

theorem plain_of_leads {a : Alias} {members : List Field} (leads : a.Leads members) : a.Plain := by
  unfold Leads Field.resolve at leads
  split at leads
  · rename_i p read
    cases MarkedPath.read_unmarked read (ask_field leads)
    exact read
  · cases leads

theorem leads_iff {a : Alias} {members : List Field} (plain : a.Plain) :
    a.Leads members ↔
      ∃ m, Field.named? members a.first = some m ∧ (m.inner a.rest).kind = .field := by
  unfold Plain at plain
  rw [Leads, Field.resolve, plain]
  simp only [Field.resolveMarked, Target.ask, Field.inner_member_named]
  rw [first, rest]
  cases Field.named? members (Text.firstSegment a.path).1 with
  | none => simp [Target.kind]
  | some m => simp

/-- What it takes for the alias to lead to a field once it is taken over: if the member that it
starts at is replaced, the rest of the path leads to one in the last replacement; otherwise that
member is not gone and leads to one. -/
def Survives (a : Alias) (since : Nat) (source replacements : List Field) : Prop :=
  match Field.named? replacements.reverse a.first with
  | some replacement => (replacement.inner a.rest).kind = .field
  | none => ∃ m, Field.named? source a.first = some m ∧ m.isGoneBy since = false ∧
      (m.inner a.rest).kind = .field

theorem leads_taken_iff {a : Alias} {since : Nat} {place : Place}
    {source replacements changed : List Field} (plain : a.Plain)
    (distinct : (source.map Field.name).Nodup)
    (replaced : Field.replaceMembers place (Field.adopt since source) replacements = .ok changed) :
    a.Leads changed ↔ a.Survives since source replacements := by
  rw [leads_iff plain, Field.replace_members_named replaced, Field.named_adopt,
    Field.named_filter distinct]
  unfold Survives
  cases Field.named? replacements.reverse a.first with
  | some replacement => simp
  | none =>
      rw [Option.none_or]
      constructor
      · rintro ⟨_, found, leads⟩
        obtain ⟨m, kept, rfl⟩ := Option.map_eq_some_iff.mp found
        obtain ⟨isSource, present⟩ := Option.filter_eq_some_iff.mp kept
        rw [Field.lift_inner_kind] at leads
        exact ⟨m, isSource, by simpa using present, leads⟩
      · rintro ⟨m, isSource, present, leads⟩
        refine ⟨m.liftTo since, ?_, ?_⟩
        · rw [isSource, Option.filter_some, present]
          rfl
        · rw [Field.lift_inner_kind]
          exact leads

end Alias

namespace BundleSpec

theorem read_alias_ok {d : Declaration} {members : List Field} {aliases later : List Alias}
    {elem : Node} (read : readAlias d members aliases elem = .ok later) :
    ∃ a : Alias, later = aliases ++ [a] ∧ a.Leads members ∧
      Name.IsNew (members.map Field.name ++ aliases.map Alias.name) a.name := by
  unfold readAlias at read
  split at read
  · cases read
  · simp only [except_bind_ok] at read
    obtain ⟨props, -, name, -, rest⟩ := read
    split at rest
    · cases rest
    · rename_i identifier
      split at rest
      · cases rest
      · rename_i new
        simp only [except_bind_ok] at rest
        obtain ⟨target, -, path, -, rest⟩ := rest
        split at rest
        · rename_i f resolved
          cases rest
          refine ⟨_, rfl, ?_, by simpa using identifier, by simpa using new⟩
          rw [Alias.Leads, resolved]
          rfl
        · cases rest

/-- The aliases of a bundle are those taken over, then its own ones, which lead to fields. -/
theorem read_aliases_ok {d : Declaration} {members : List Field} {aliases later : List Alias}
    (read : readAliases d members aliases = .ok later) :
    ∃ own, later = aliases ++ own ∧ ∀ a ∈ own, a.Leads members :=
  fold_appends (fun _ _ _ read =>
    have ⟨a, appended, leads, _⟩ := read_alias_ok read
    ⟨a, appended, leads⟩) read

theorem reads_bundle {d : Declaration} {profile : Profile} {payload : Payload Field} {f : Field}
    {spec : BundleSpec Field} (reads : d.ReadsAs profile payload f)
    (bundle : f.payload = .bundle spec) :
    f.profile = profile ∧
      ∃ source, payload = .bundle source ∧ (read d profile source).outcome = .ok spec := by
  cases reads with
  | bundle done =>
      cases bundle
      exact ⟨rfl, _, rfl, done⟩
  | _ => cases bundle

end BundleSpec

theorem Payload.plain_law :
    Payload.Law fun _ payload => ∀ spec, payload = .bundle spec → ∀ a ∈ spec.aliases, a.Plain where
  blank _ kind := by
    intro spec bundle
    cases kind <;> cases bundle
    exact fun a member => absurd member List.not_mem_nil
  grown _ plain := plain
  read := by
    intro d profile payload f _ plain read spec bundle
    obtain ⟨-, source, isSource, done⟩ :=
      BundleSpec.reads_bundle (Declaration.read_payload_reads read) bundle
    obtain ⟨_, _, keeps, -, -, -, -, -, aliased, -⟩ := BundleSpec.read_parts done
    obtain ⟨own, same, leads⟩ := BundleSpec.read_aliases_ok aliased
    rw [same]
    intro a member
    rcases List.mem_append.mp member with taken | declared
    · split at taken
      · exact plain source isSource a taken
      · exact absurd taken List.not_mem_nil
    · exact Alias.plain_of_leads (leads a declared)

namespace Protocol

/-- Every bundle of a model, at any depth, has the aliases of its source, unless it does not want
them, and then its own ones. Its own aliases lead to fields among its members, and all of them do
exactly if those that were taken over survive. -/
theorem aliases_lead_iff (sources : List String) {f g : Field} {spec : BundleSpec Field}
    (has : (after sources).Has f) (leads : f.LeadsTo g) (bundle : g.payload = .bundle spec) :
    (∃ d start made, g.MadeBy (after sources).registry d start made) ∧
    ∀ d start made, g.MadeBy (after sources).registry d start made →
      ∃ source replacements keeps taken own, start.payload = .bundle source ∧
        (d.readReplacements .bundle made.profile).outcome = .ok replacements ∧
        d.boolProp "reuseAliases" = .ok keeps ∧
        taken = (if keeps.getD true then source.aliases else []) ∧
        spec.aliases = taken ++ own ∧ (∀ a ∈ own, a.Leads spec.members) ∧
        ((∀ a ∈ spec.aliases, a.Leads spec.members) ↔
          ∀ a ∈ taken, a.Survives made.window.since source.members replacements) := by
  refine ⟨after_made has leads, ?_⟩
  intro d start made madeBy
  have isBundle : made.payload = .bundle spec := by
    rw [← bundle, madeBy.moved]
    rfl
  obtain ⟨profile, -, reads⟩ := Declaration.makes_reads madeBy.makes
  obtain ⟨rfl, source, isSource, done⟩ := BundleSpec.reads_bundle reads isBundle
  obtain ⟨base, replacements, keeps, based, ofReplacements, replaced, -, ofKeeps, aliased, -⟩ :=
    BundleSpec.read_parts done
  obtain ⟨own, same, ownLead⟩ := BundleSpec.read_aliases_ok aliased
  have distinct := Payload.law_start Payload.distinct_law (after_grown sources) madeBy.earlier
    madeBy.makes
  have plain := Payload.law_start Payload.plain_law (after_grown sources) madeBy.earlier madeBy.makes
  rw [isSource] at distinct
  refine ⟨source, replacements, keeps, _, own, isSource, ofReplacements, ofKeeps, rfl, same, ownLead,
    ?_⟩
  rw [same, List.forall_mem_append, and_iff_left ownLead]
  have exactly : ∀ a ∈ (if keeps.getD true then source.aliases else []),
      (a.Leads spec.members ↔ a.Survives made.window.since source.members replacements) := by
    intro a member
    have inherited : a ∈ source.aliases := by
      split at member
      · exact member
      · exact absurd member List.not_mem_nil
    by_cases reused : d.reused = true
    · cases Declaration.take_members_reused based reused
      exact Alias.leads_taken_iff (plain source isSource a inherited) distinct replaced
    · -- Nothing is taken over without a source.
      have blank := isSource.symm.trans
        (Declaration.makes_blank madeBy.makes (Bool.eq_false_iff.mpr reused))
      cases kind : made.kind <;> rw [kind] at blank <;> cases blank
      exact absurd inherited List.not_mem_nil
  constructor
  · exact fun all a member => (exactly a member).mp (all a member)
  · exact fun all a member => (exactly a member).mpr (all a member)

def widenedBundle : String := r#"<schema name="S">
  <fields>
    <bundle name="A">
      <bundle name="x">
        <int name="y" type="uint8"/>
      </bundle>
      <alias name="al" field="$x.y"/>
    </bundle>
    <bundle name="B" reuse="A">
      <replace>
        <bundle name="x">
          <int name="y" type="uint16"/>
        </bundle>
      </replace>
    </bundle>
  </fields>
</schema>"#

set_option maxRecDepth 6000 in
/-- The member that the alias starts at is replaced by one that has the rest of its path too. -/
theorem widened_bundle_alias_leads :
    ∃ f spec, (after [widenedBundle]).Has f ∧ f.payload = .bundle spec ∧ f.name = "B" ∧
      spec.aliases.map Alias.path = ["x.y"] ∧ (∀ a ∈ spec.aliases, a.Leads spec.members) ∧
      ∃ d start made source replacements taken own,
        f.MadeBy (after [widenedBundle]).registry d start made ∧ start.payload = .bundle source ∧
        (d.readReplacements .bundle made.profile).outcome = .ok replacements ∧
        spec.aliases = taken ++ own ∧
        ∀ a ∈ taken, a.Survives made.window.since source.members replacements := by
  have found :
      ((after [widenedBundle]).registry.get? 1).any (fun f => f.payload.bundle?.any fun ⟨spec, _⟩ =>
        f.name = "B" && spec.aliases.map Alias.path = ["x.y"] &&
          spec.aliases.all fun a => (Field.resolve spec.members a.path).kind = .field) = true := by
    rw [after_spelled widenedBundle String.toList_ofList]
    decide +kernel
  simp only [List.all_eq_true, Option.any_eq_true, Subtype.exists, Bool.and_eq_true,
    decide_eq_true_eq] at found
  obtain ⟨f, registered, spec, bundle, -, ⟨named, paths⟩, lead⟩ := found
  have has : (after [widenedBundle]).Has f := .registered registered
  obtain ⟨⟨d, start, made, madeBy⟩, exactly⟩ :=
    aliases_lead_iff [widenedBundle] has (.refl f) bundle
  obtain ⟨source, replacements, keeps, taken, own, isSource, ofReplacements, -, -, split, -, survive⟩ :=
    exactly d start made madeBy
  exact ⟨f, spec, has, bundle, named, paths, lead, d, start, made, source, replacements, taken, own,
    madeBy, isSource, ofReplacements, split, survive.mp lead⟩

def narrowedBundles : String := r#"<schema name="S" version="5">
  <fields>
    <bundle name="A">
      <bundle name="x">
        <int name="y" type="uint8"/>
      </bundle>
      <int name="z" type="uint8" deprecated="2" removed="true"/>
      <alias name="al" field="$x.y"/>
      <alias name="old" field="$z"/>
    </bundle>
    <bundle name="B" reuse="A">
      <replace>
        <int name="x" type="uint8"/>
      </replace>
    </bundle>
  </fields>
  <message name="M" id="1" sinceVersion="3">
    <bundle name="b" reuse="A"/>
  </message>
</schema>"#

set_option maxRecDepth 6000 in
/-- In the one bundle the member is replaced by one without the rest of the path, in the other one
it is gone; both keep the alias, which leads nowhere. -/
theorem narrowed_bundle_aliases_dangle :
    ∃ f ∈ (after [narrowedBundles]).registry.get? 1, ∃ s ∈ (after [narrowedBundles]).schemas,
      ∃ m ∈ s.messages, ∃ g ∈ m.fields, ∃ replaced pruned,
        f.payload = .bundle replaced ∧ g.payload = .bundle pruned ∧
        (∃ a ∈ replaced.aliases, a.path = "x.y" ∧ ¬ a.Leads replaced.members) ∧
        ∃ a ∈ pruned.aliases, a.path = "z" ∧ ¬ a.Leads pruned.members := by
  have found :
      ((after [narrowedBundles]).registry.get? 1).any (fun f =>
        (after [narrowedBundles]).schemas.any fun s => s.messages.any fun m => m.fields.any fun g =>
          f.payload.bundle?.any fun ⟨replaced, _⟩ => g.payload.bundle?.any fun ⟨pruned, _⟩ =>
            (replaced.aliases.any fun a => a.path = "x.y" &&
              (Field.resolve replaced.members a.path).kind = .invalid) &&
            pruned.aliases.any fun a => a.path = "z" &&
              (Field.resolve pruned.members a.path).kind = .invalid) = true := by
    rw [after_spelled narrowedBundles String.toList_ofList]
    decide +kernel
  simp only [List.any_eq_true, Option.any_eq_true, Subtype.exists, Bool.and_eq_true,
    decide_eq_true_eq] at found
  obtain ⟨f, registered, s, loaded, m, member, g, inside, replaced, isReplaced, -,
    pruned, isPruned, -, ⟨a, inReplaced, ofA, invalid⟩, b, inPruned, ofB, invalidB⟩ := found
  refine ⟨f, registered, s, loaded, m, member, g, inside, replaced, pruned, isReplaced, isPruned,
    ⟨a, inReplaced, ofA, ?_⟩, b, inPruned, ofB, ?_⟩
  · rw [Alias.Leads, invalid]
    decide
  · rw [Alias.Leads, invalidB]
    decide

end Protocol

end WireSchema
