import WireSchema.Declaration.Field
import WireSchema.Proofs.Build

/-!
How a field comes about. A field that was built has a start, a profile read over that of the
start, and a payload read with the profile, of the kind of the start; its name is an identifier.
-/

namespace WireSchema

open Markup (Node)

namespace Declaration

theorem check_name_ok {d : Declaration} {f : Field} (checked : d.checkName f = .ok ()) :
    Name.isIdentifier f.name = true := by
  unfold checkName at checked
  split at checked
  · nomatch checked
  · split at checked
    · rename_i identifier
      exact identifier
    · nomatch checked

theorem has_eq (d : Declaration) (name : String) : d.has name = (d.props.get? name).isSome := by
  rw [has, Properties.contains, Properties.get?, Option.isSome_map, Bool.eq_iff_iff,
    List.find?_isSome, List.any_eq_true]

theorem prop_absent {d : Declaration} {p : String} (absent : d.has p = false) :
    d.prop p = .ok none := by
  rw [has, Properties.contains, List.any_eq_false] at absent
  have never : d.props.count p = 0 := List.countP_eq_zero.mpr absent
  have missing : d.props.get? p = none := by
    rw [Properties.get?, List.find?_eq_none.mpr absent, Option.map_none]
  rw [prop, Properties.single, never, missing]
  rfl

inductive ReadsAs (d : Declaration) (profile : Profile) : Payload Field → Field → Prop where
  | int {start spec : IntSpec} (done : (start.read d profile).outcome = .ok spec) :
      ReadsAs d profile (.int start) ⟨profile, .int spec⟩
  | float {start spec : FloatSpec} (done : (start.read d profile).outcome = .ok spec) :
      ReadsAs d profile (.float start) ⟨profile, .float spec⟩
  | enum {start spec : EnumSpec} (done : (start.read d profile).outcome = .ok spec) :
      ReadsAs d profile (.enum start) ⟨profile, .enum spec⟩
  | set {start spec : SetSpec} (done : (start.read d profile).outcome = .ok spec) :
      ReadsAs d profile (.set start) ⟨profile, .set spec⟩
  | bitfield {start spec : BitfieldSpec Field}
      (done : (start.read d profile).outcome = .ok spec) :
      ReadsAs d profile (.bitfield start) ⟨profile, .bitfield spec⟩
  | bundle {start spec : BundleSpec Field} (done : (start.read d profile).outcome = .ok spec) :
      ReadsAs d profile (.bundle start) ⟨profile, .bundle spec⟩
  | string {start spec : StringSpec Field} (done : (start.read d profile).outcome = .ok spec) :
      ReadsAs d profile (.string start) ⟨profile, .string spec⟩
  | data {start spec : DataSpec Field} (done : (start.read d profile).outcome = .ok spec) :
      ReadsAs d profile (.data start) ⟨profile, .data spec⟩
  | list {start spec : ListSpec Field} (done : (start.read d profile).outcome = .ok spec) :
      ReadsAs d profile (.list start) ⟨profile, .list spec⟩
  | ref {start spec : RefSpec Field} {filled : Profile}
      (done : (start.read d profile).outcome = .ok (filled, spec)) :
      ReadsAs d profile (.ref start) ⟨filled, .ref spec⟩
  | optional {start spec : OptionalSpec Field}
      (done : (start.read d profile).outcome = .ok spec) :
      ReadsAs d profile (.optional start) ⟨profile, .optional spec⟩
  | variant {start spec : VariantSpec Field}
      (done : (start.read d profile).outcome = .ok spec) :
      ReadsAs d profile (.variant start) ⟨profile, .variant spec⟩

variable {d : Declaration} {profile : Profile} {payload : Payload Field} {f : Field}

theorem read_payload_reads (read : (d.readPayload profile payload).outcome = .ok f) :
    d.ReadsAs profile payload f := by
  cases payload with
  | ref start =>
      simp only [readPayload, Build.bind_ok, Build.pure_outcome, Except.ok.injEq] at read
      obtain ⟨⟨filled, spec⟩, done, rfl⟩ := read
      exact .ref done
  | _ =>
      obtain ⟨spec, done, rfl⟩ := Build.return_ok read
      constructor
      exact done

theorem reads_kind (reads : d.ReadsAs profile payload f) : f.kind = payload.kind := by
  cases reads <;> rfl

theorem start_kind {env : Environment} {kind : Kind} {node : Node} {reuse : Option String}
    {start : Field} (started : Declaration.start env kind node reuse = .ok start) :
    start.payload.kind = kind := by
  unfold Declaration.start at started
  split at started
  · cases started
    cases kind <;> rfl
  · split at started
    · cases started
    · simp only [except_bind_ok, Except.ok.injEq] at started
      obtain ⟨copy, copied, rfl⟩ := started
      unfold Field.reuse at copied
      split at copied
      · rename_i same
        cases copied
        exact same.symm.trans (by cases kind <;> rfl)
      · cases copied

/-- The declaration makes the field: with the properties of its kind it takes its start, blank or a
copy of the field that it reuses, and reads the profile and then the payload over it. -/
structure Makes (d : Declaration) (start f : Field) : Prop where
  properties : Properties.ofNode d.node f.kind.allProperties = .ok d.props
  started : ∃ reuse, d.prop "reuse" = .ok reuse ∧ d.reused = reuse.isSome ∧
    Declaration.start d.env f.kind d.node reuse = .ok start
  read : ∃ profile, (d.readProfile start.profile).outcome = .ok profile ∧
    (d.readPayload profile start.payload).outcome = .ok f

theorem makes_reads {start : Field} (makes : d.Makes start f) :
    ∃ profile, (d.readProfile start.profile).outcome = .ok profile ∧
      d.ReadsAs profile start.payload f := by
  obtain ⟨profile, profiled, read⟩ := makes.read
  exact ⟨profile, profiled, read_payload_reads read⟩

end Declaration

namespace Field

theorem build_kind_ok {inside : Node → Parent → Build Field} {env : Environment} {kind : Kind}
    {node : Node} {parent : Parent} {f : Field}
    (built : (buildKind inside env kind node parent).outcome = .ok f) :
    ∃ props reuse start profile,
      Properties.ofNode node kind.allProperties = .ok props ∧
      props.single node "reuse" = .ok reuse ∧
      Declaration.start env kind node reuse = .ok start ∧
      (Declaration.readProfile ⟨node, env, parent, props, reuse.isSome, inside⟩
        start.profile).outcome = .ok profile ∧
      (Declaration.readPayload ⟨node, env, parent, props, reuse.isSome, inside⟩ profile
        start.payload).outcome = .ok f ∧
      Name.isIdentifier f.name = true := by
  simp only [buildKind, Build.bind_ok, Build.lift_outcome, Build.pure_outcome,
    Except.ok.injEq] at built
  obtain ⟨props, hasProps, reuse, hasReuse, start, started, profile, profiled, g, read, _, -, _,
    named, _, -, _, -, _, -, rfl⟩ := built
  exact ⟨props, reuse, start, profile, hasProps, hasReuse, started, profiled, read,
    Declaration.check_name_ok named⟩

theorem build_within_makes {env : Environment} {depth : Nat} {tag : String} {node : Node}
    {parent : Parent} {f : Field}
    (built : (buildWithin env (depth + 1) tag node parent).outcome = .ok f) :
    ∃ (d : Declaration) (start : Field), d.env = env ∧ d.node = node ∧ d.parent = parent ∧
      d.build = (fun inner around => buildWithin env depth inner.name inner around) ∧
      d.Makes start f := by
  unfold buildWithin at built
  split at built
  · nomatch built
  · obtain ⟨props, reuse, start, profile, hasProps, hasReuse, started, profiled, read, -⟩ :=
      build_kind_ok built
    have kind := (Declaration.reads_kind (Declaration.read_payload_reads read)).trans
      (Declaration.start_kind started)
    rw [← kind] at hasProps started
    exact ⟨⟨node, env, parent, props, reuse.isSome, _⟩, start, rfl, rfl, rfl, rfl, hasProps,
      ⟨reuse, hasReuse, rfl, started⟩, profile, profiled, read⟩

theorem create_makes {env : Environment} {tag : String} {node : Node} {parent : Parent} {f : Field}
    (built : (create env tag node parent).outcome = .ok f) :
    ∃ (d : Declaration) (start : Field), d.env = env ∧ d.node = node ∧ d.parent = parent ∧
      d.Makes start f := by
  unfold create at built
  cases depth : node.height with
  | zero =>
      rw [depth] at built
      nomatch built
  | succ depth =>
      rw [depth] at built
      obtain ⟨d, start, ofEnv, ofNode, ofParent, -, makes⟩ := build_within_makes built
      exact ⟨d, start, ofEnv, ofNode, ofParent, makes⟩

theorem create_ok {env : Environment} {tag : String} {node : Node} {parent : Parent} {f : Field}
    (built : (create env tag node parent).outcome = .ok f) :
    ∃ kind inside props reuse start profile,
      Properties.ofNode node kind.allProperties = .ok props ∧
      props.single node "reuse" = .ok reuse ∧
      Declaration.start env kind node reuse = .ok start ∧
      (Declaration.readProfile ⟨node, env, parent, props, reuse.isSome, inside⟩
        start.profile).outcome = .ok profile ∧
      (Declaration.readPayload ⟨node, env, parent, props, reuse.isSome, inside⟩ profile
        start.payload).outcome = .ok f := by
  obtain ⟨⟨node, env, parent, props, reused, inside⟩, start, rfl, rfl, rfl, makes⟩ :=
    create_makes built
  obtain ⟨reuse, hasReuse, rfl, started⟩ := makes.started
  obtain ⟨profile, profiled, read⟩ := makes.read
  exact ⟨f.kind, inside, props, reuse, start, profile, makes.properties, hasReuse, started, profiled,
    read⟩

theorem build_within_name {env : Environment} {depth : Nat} {tag : String} {node : Node}
    {parent : Parent} {f : Field}
    (built : (buildWithin env depth tag node parent).outcome = .ok f) :
    Name.isIdentifier f.name = true := by
  cases depth with
  | zero => nomatch built
  | succ depth =>
      unfold buildWithin at built
      split at built
      · nomatch built
      · obtain ⟨_, _, _, _, -, -, -, -, -, named⟩ := build_kind_ok built
        exact named

theorem of_node_name {env : Environment} {node : Node} {parent : Parent} {f : Field}
    (built : (ofNode env node parent).outcome = .ok f) : Name.isIdentifier f.name = true :=
  build_within_name built

end Field

end WireSchema
