import WireSchema.Proofs.Growth

/-!
What a field takes over. Every field that a model leads to was made by a declaration, from a start
that is blank or has the payload of a registered field, and has at most been moved into another
window since. The members of a reused field are those of its source, without the ones that are gone;
under the name of a replacement stands the last one of that name, and the names keep their order.
-/

namespace WireSchema

open Markup (Node)

namespace Field

/-- The declaration made the field where the registry had not grown beyond `r`; the field stands in
another window at most. -/
structure MadeBy (g : Field) (r : Registry) (d : Declaration) (start made : Field) : Prop where
  earlier : d.env.registry.Extends r
  makes : d.Makes start made
  moved : g = made.withWindow g.window

theorem made_by_moved {r : Registry} {d : Declaration} {start made g : Field}
    (madeBy : g.MadeBy r d start made) (window : Window) :
    (g.withWindow window).MadeBy r d start made := by
  refine { madeBy with moved := ?_ }
  rw [madeBy.moved]
  rfl

theorem made_law : Field.Law fun r g => ∃ d start made, g.MadeBy r d start made where
  grown := by
    rintro r later g extended ⟨d, start, made, madeBy⟩
    exact ⟨d, start, made,
      { madeBy with earlier := Registry.extends_trans madeBy.earlier extended }⟩
  lifted := by
    rintro r g since ⟨d, start, made, madeBy⟩
    exact ⟨d, start, made, made_by_moved madeBy _⟩
  packed := by
    rintro r id source m spec window - - - ⟨d, start, made, madeBy⟩
    exact ⟨d, start, made, made_by_moved madeBy window⟩
  made := by
    intro d start f makes _ _
    refine ⟨d, start, f, Registry.extends_refl _, makes, ?_⟩
    cases f
    rfl

end Field

theorem Protocol.after_made {sources : List String} {f g : Field} (has : (after sources).Has f)
    (leads : f.LeadsTo g) :
    ∃ d start made, g.MadeBy (after sources).registry d start made :=
  (after_throughout Field.made_law sources).1 f has g leads

namespace Field

section Members

variable {place : Place} {members replacements changed : List Field} {name : String}

theorem replace_member_ok {replacement : Field}
    (replaced : replaceMember place members replacement = .ok changed) :
    ∃ old, named? members replacement.name = some old ∧ old.window = replacement.window ∧
      changed = replaceFirst replacement members := by
  unfold replaceMember at replaced
  split at replaced
  · cases replaced
  · rename_i old found
    split at replaced
    · rename_i same
      cases replaced
      exact ⟨old, found, same, rfl⟩
    · cases replaced

theorem replace_first_names (replacement : Field) (members : List Field) :
    (replaceFirst replacement members).map Field.name = members.map Field.name := by
  induction members with
  | nil => rfl
  | cons m rest ih =>
      unfold replaceFirst
      by_cases same : (m.name == replacement.name) = true
      · rw [if_pos same, List.map_cons, List.map_cons, beq_iff_eq.mp same]
      · rw [if_neg same, List.map_cons, List.map_cons, ih]

theorem named_cons (m : Field) (rest : List Field) (name : String) :
    named? (m :: rest) name = if m.name = name then some m else named? rest name := by
  rw [named?, List.find?_cons]
  by_cases same : m.name = name
  · rw [if_pos same, beq_iff_eq.mpr same]
  · rw [if_neg same, beq_eq_false_iff_ne.mpr same]
    rfl

theorem named_replace_first (replacement : Field) (members : List Field) (name : String) :
    named? (replaceFirst replacement members) name =
      if replacement.name = name then (named? members name).map fun _ => replacement
      else named? members name := by
  induction members with
  | nil => simp [replaceFirst, named?]
  | cons m rest ih =>
      unfold replaceFirst
      by_cases here : m.name = replacement.name
      · rw [if_pos (beq_iff_eq.mpr here), named_cons, named_cons, here]
        by_cases same : replacement.name = name <;> simp [same]
      · rw [if_neg (by simpa using here), named_cons, named_cons, ih]
        by_cases isName : m.name = name
        · have other : replacement.name ≠ name := fun same => here (isName.trans same.symm)
          simp [isName, other]
        · simp [isName]

theorem replace_members_names
    (replaced : replaceMembers place members replacements = .ok changed) :
    changed.map Field.name = members.map Field.name := by
  induction replacements generalizing members with
  | nil =>
      cases replaced
      rfl
  | cons replacement rest ih =>
      simp only [replaceMembers, except_bind_ok] at replaced
      obtain ⟨first, ofFirst, ofRest⟩ := replaced
      obtain ⟨-, -, -, rfl⟩ := replace_member_ok ofFirst
      rw [ih ofRest, replace_first_names]

/-- Under a name stands the last replacement of that name, or the member that stood there. -/
theorem replace_members_named
    (replaced : replaceMembers place members replacements = .ok changed) (name : String) :
    named? changed name = (named? replacements.reverse name).or (named? members name) := by
  induction replacements generalizing members with
  | nil =>
      cases replaced
      rfl
  | cons replacement rest ih =>
      simp only [replaceMembers, except_bind_ok] at replaced
      obtain ⟨first, ofFirst, ofRest⟩ := replaced
      obtain ⟨old, found, -, rfl⟩ := replace_member_ok ofFirst
      have last : named? (replacement :: rest).reverse name =
          (named? rest.reverse name).or (named? [replacement] name) := by
        rw [List.reverse_cons, named?, List.find?_append]
        rfl
      rw [ih ofRest, named_replace_first, last, Option.or_assoc]
      rw [named_cons]
      by_cases same : replacement.name = name
      · rw [if_pos same, if_pos same, ← same, found]
        rfl
      · rw [if_neg same, if_neg same]
        rfl

theorem adopt_names (since : Nat) (members : List Field) :
    (adopt since members).map Field.name =
      (members.filter fun m => !m.isGoneBy since).map Field.name := by
  rw [adopt, List.map_map]
  rfl

theorem named_adopt (since : Nat) (members : List Field) (name : String) :
    named? (adopt since members) name =
      (named? (members.filter fun m => !m.isGoneBy since) name).map (liftTo since) := by
  rw [adopt, named?, List.find?_map]
  rfl

theorem check_distinct_go_ok {line : Nat} {fault : Field → NameFault} {earlier : List String}
    {fields : List Field} (checked : checkDistinct.go line fault earlier fields = .ok ()) :
    (fields.map Field.name).Nodup ∧ ∀ f ∈ fields, f.name ∉ earlier := by
  induction fields generalizing earlier with
  | nil => exact ⟨List.nodup_nil, fun f member => absurd member List.not_mem_nil⟩
  | cons first rest ih =>
      unfold checkDistinct.go at checked
      split at checked
      · cases checked
      · rename_i new
        obtain ⟨distinct, others⟩ := ih checked
        have notEarlier : first.name ∉ earlier := by simpa using new
        constructor
        · rw [List.map_cons, List.nodup_cons]
          refine ⟨?_, distinct⟩
          intro repeated
          obtain ⟨f, member, same⟩ := List.mem_map.mp repeated
          exact others f member (same ▸ List.mem_cons_self)
        · rw [List.forall_mem_cons]
          exact ⟨notEarlier, fun f member isEarlier =>
            others f member (List.mem_cons_of_mem _ isEarlier)⟩

/-- Among members with different names, one that is left out is not found under its name. -/
theorem named_filter {keeps : Field → Bool} (distinct : (members.map Field.name).Nodup)
    (name : String) : named? (members.filter keeps) name = (named? members name).filter keeps := by
  induction members with
  | nil => rfl
  | cons m rest ih =>
      rw [List.map_cons, List.nodup_cons] at distinct
      have ofRest := ih distinct.2
      by_cases kept : keeps m = true
      · rw [List.filter_cons_of_pos kept, named_cons, named_cons, ofRest]
        by_cases same : m.name = name <;> simp [same, Option.filter_some, kept]
      · rw [List.filter_cons_of_neg kept, named_cons, ofRest]
        by_cases same : m.name = name
        · -- The name was that of the member left out, and no other one has it.
          have absent : named? rest name = none := by
            rw [named?, List.find?_eq_none]
            intro f member isName
            exact distinct.1 (same ▸ beq_iff_eq.mp isName ▸ List.mem_map_of_mem member)
          simp [same, absent, Option.filter_some, kept]
        · simp [same]

end Members

end Field

theorem Declaration.check_members_ok {d : Declaration} {kind : Kind} {profile : Profile}
    {members : List Field} (checked : d.checkMembers kind profile members = .ok ()) :
    members ≠ [] ∧ (members.map Field.name).Nodup := by
  unfold checkMembers at checked
  split at checked
  · cases checked
  · rename_i nonempty
    rw [List.isEmpty_iff] at nonempty
    exact ⟨nonempty, (Field.check_distinct_go_ok checked).1⟩

/-- What the parts of a bitfield are read from. -/
theorem BitfieldSpec.read_parts {d : Declaration} {profile : Profile}
    {spec later : BitfieldSpec Field} (done : (read d profile spec).outcome = .ok later) :
    ∃ base replacements, (readMembers d profile spec.members).outcome = .ok base ∧
      (d.readReplacements .bitfield profile).outcome = .ok replacements ∧
      Field.replaceMembers (.line d.line) base replacements = .ok later.members ∧
      d.checkMembers .bitfield profile later.members = .ok () ∧
      checkBits d later.members = .ok () ∧
      (d.readValidCondition later.members spec.validCondition).outcome =
        .ok later.validCondition := by
  simp only [read, Declaration.replaceMembers, Build.bind_ok, Build.lift_outcome,
    Build.pure_outcome, Except.ok.injEq] at done
  obtain ⟨_, -, base, taken, members, ⟨replacements, ofReplacements, replaced⟩, _, checked, _, -,
    _, filled, _, conditioned, rfl⟩ := done
  exact ⟨base, replacements, taken, ofReplacements, replaced, checked, filled, conditioned⟩

/-- What the parts of a bundle are read from. -/
theorem BundleSpec.read_parts {d : Declaration} {profile : Profile} {spec later : BundleSpec Field}
    (done : (read d profile spec).outcome = .ok later) :
    ∃ base replacements keeps, (readMembers d profile spec.members).outcome = .ok base ∧
      (d.readReplacements .bundle profile).outcome = .ok replacements ∧
      Field.replaceMembers (.line d.line) base replacements = .ok later.members ∧
      d.checkMembers .bundle profile later.members = .ok () ∧
      d.boolProp "reuseAliases" = .ok keeps ∧
      readAliases d later.members (if keeps.getD true then spec.aliases else []) =
        .ok later.aliases ∧
      (d.readValidCondition later.members spec.validCondition).outcome =
        .ok later.validCondition := by
  simp only [read, Declaration.replaceMembers, Build.bind_ok, Build.lift_outcome,
    Build.pure_outcome, Except.ok.injEq] at done
  obtain ⟨base, taken, members, ⟨replacements, ofReplacements, replaced⟩, _, checked, _, -, _, -,
    _, -, keeps, kept, aliases, aliased, _, conditioned, rfl⟩ := done
  exact ⟨base, replacements, keeps, taken, ofReplacements, replaced, checked, kept, aliased,
    conditioned⟩

/-- What the parts of a variant are read from. -/
theorem VariantSpec.read_parts {d : Declaration} {profile : Profile}
    {spec later : VariantSpec Field} (done : (read d profile spec).outcome = .ok later) :
    ∃ declared replacements, (d.readMembers .variant profile).outcome = .ok declared ∧
      (d.readReplacements .variant profile).outcome = .ok replacements ∧
      Field.replaceMembers (.line d.line)
        ((if d.reused then Field.adopt profile.window.since spec.members else spec.members) ++
          declared) replacements = .ok later.members ∧
      d.checkMembers .variant profile later.members = .ok () ∧
      readDefaultMember d later.members spec.defaultMember = .ok later.defaultMember := by
  simp only [read, Declaration.replaceMembers, Build.bind_ok, Build.lift_outcome] at done
  obtain ⟨declared, ofDeclared, members, ⟨replacements, ofReplacements, replaced⟩, _, checked,
    _, -, chosen, defaulted, rest⟩ := done
  split at rest
  · simp only [Build.bind_ok, Build.pure_outcome, Except.ok.injEq] at rest
    obtain ⟨_, -, rfl⟩ := rest
    exact ⟨declared, replacements, ofDeclared, ofReplacements, replaced, checked, defaulted⟩
  · cases rest
    exact ⟨declared, replacements, ofDeclared, ofReplacements, replaced, checked, defaulted⟩

theorem Payload.read_members_distinct {d : Declaration} {profile : Profile}
    {payload : Payload Field} {f : Field} (reads : d.ReadsAs profile payload f) :
    (f.payload.members.map Field.name).Nodup := by
  cases reads with
  | bitfield done =>
      obtain ⟨_, _, -, -, -, checked, -⟩ := BitfieldSpec.read_parts done
      exact (Declaration.check_members_ok checked).2
  | bundle done =>
      obtain ⟨_, _, _, -, -, -, checked, -⟩ := BundleSpec.read_parts done
      exact (Declaration.check_members_ok checked).2
  | variant done =>
      obtain ⟨_, _, -, -, -, checked, -⟩ := VariantSpec.read_parts done
      exact (Declaration.check_members_ok checked).2
  | _ => exact List.nodup_nil

/-- The members of every field in a model have different names. -/
theorem Payload.distinct_law :
    Payload.Law fun _ payload => (payload.members.map Field.name).Nodup where
  blank _ kind := by
    rw [blank_members]
    exact List.nodup_nil
  grown _ distinct := distinct
  read _ _ read := read_members_distinct (Declaration.read_payload_reads read)

/-- What a field starts from has every property that holds throughout a model. -/
theorem Payload.law_start {holds : Registry → Payload Field → Prop} (law : Payload.Law holds)
    {r : Registry} {d : Declaration} {start f : Field} (grown : r.GrownIn Parent.IsNamespace)
    (earlier : d.env.registry.Extends r) (makes : d.Makes start f) :
    holds d.env.registry start.payload := by
  rcases Declaration.makes_source makes with ⟨-, blank⟩ | ⟨-, ref, handle, hit, copied⟩
  · rw [blank]
    exact law.blank d.env.registry f.kind
  · have anywhere := Registry.grown_imp (fun _ _ => trivial)
      (Registry.grown_of_extends earlier grown)
    rw [copied]
    exact (Field.everywhere_iff.mp (Registry.law_of_find (law_everywhere law) anywhere hit)).1

end WireSchema
