import WireSchema.Proofs.Construction
import WireSchema.Proofs.Nesting

/-!
Where the parts of a field come from. A part is written out in the element of the field, put in the
place of another one by `<replace>`, or has come with the field that the element reuses.
-/

namespace WireSchema

open Markup (Node)

namespace Field

theorem replace_first_mem {replacement m : Field} {members : List Field}
    (member : m ∈ replaceFirst replacement members) : m = replacement ∨ m ∈ members := by
  induction members with
  | nil => exact absurd member List.not_mem_nil
  | cons first rest ih =>
      unfold replaceFirst at member
      split at member
      · rcases List.mem_cons.mp member with new | old
        · exact Or.inl new
        · exact Or.inr (List.mem_cons_of_mem first old)
      · rcases List.mem_cons.mp member with here | later
        · exact Or.inr (here ▸ List.mem_cons_self)
        · exact (ih later).imp_right (List.mem_cons_of_mem first)

theorem replace_member_mem {place : Place} {members changed : List Field} {replacement : Field}
    (replaced : replaceMember place members replacement = .ok changed) :
    ∀ m ∈ changed, m = replacement ∨ m ∈ members := by
  unfold replaceMember at replaced
  split at replaced
  · nomatch replaced
  · split at replaced
    · rw [Except.ok.injEq] at replaced
      subst replaced
      exact fun m member => replace_first_mem member
    · nomatch replaced

theorem replace_members_mem {place : Place} {members replacements changed : List Field}
    (replaced : replaceMembers place members replacements = .ok changed) :
    ∀ m ∈ changed, m ∈ members ∨ m ∈ replacements := by
  induction replacements generalizing members with
  | nil =>
      simp only [replaceMembers, Except.ok.injEq] at replaced
      subst replaced
      exact fun m member => Or.inl member
  | cons replacement rest ih =>
      simp only [replaceMembers, except_bind_ok] at replaced
      obtain ⟨first, ofFirst, ofRest⟩ := replaced
      intro m member
      rcases ih ofRest m member with old | later
      · rcases replace_member_mem ofFirst m old with new | kept
        · exact Or.inr (new ▸ List.mem_cons_self)
        · exact Or.inl kept
      · exact Or.inr (List.mem_cons_of_mem replacement later)

end Field

theorem Payload.blank_members (kind : Kind) : (Payload.blank kind : Payload Field).members = [] := by
  cases kind <;> rfl

namespace Declaration

def Builds (d : Declaration) (parent : Parent) (f : Field) : Prop :=
  ∃ node, (d.build node parent).outcome = .ok f

theorem build_all_ok {d : Declaration} {parent : Parent} {nodes : List Node} {fields : List Field}
    (built : (d.buildAll parent nodes).outcome = .ok fields) :
    ∀ f ∈ fields, d.Builds parent f := by
  intro f member
  obtain ⟨node, -, ofNode⟩ := Build.each_ok built f member
  exact ⟨node, ofNode⟩

theorem read_members_ok {d : Declaration} {kind : Kind} {profile : Profile} {fields : List Field}
    (read : (d.readMembers kind profile).outcome = .ok fields) :
    ∀ f ∈ fields, d.Builds (memberParent kind profile) f := by
  simp only [readMembers, Build.bind_ok] at read
  obtain ⟨nodes, -, built⟩ := read
  exact build_all_ok built

theorem take_members_ok {d : Declaration} {kind : Kind} {profile : Profile}
    {inherited members : List Field}
    (took : (d.takeMembers kind profile inherited).outcome = .ok members) :
    ∀ m ∈ members, m ∈ inherited ∨ d.Builds (memberParent kind profile) m := by
  simp only [takeMembers, Build.bind_ok] at took
  obtain ⟨declared, ofDeclared, rest⟩ := took
  intro m member
  split at rest
  · simp only [Build.bind_ok, Build.lift_outcome, Build.pure_outcome, Except.ok.injEq] at rest
    obtain ⟨_, -, rfl⟩ := rest
    exact Or.inl member
  · cases rest
    exact Or.inr (read_members_ok ofDeclared m member)

theorem take_members_reused {d : Declaration} {kind : Kind} {profile : Profile}
    {inherited members : List Field}
    (took : (d.takeMembers kind profile inherited).outcome = .ok members)
    (reused : d.reused = true) : members = inherited := by
  simp only [takeMembers, Build.bind_ok, reused, if_true, Build.lift_outcome, Build.pure_outcome,
    Except.ok.injEq] at took
  obtain ⟨_, -, _, -, rfl⟩ := took
  rfl

theorem read_replacements_ok {d : Declaration} {kind : Kind} {profile : Profile}
    {fields : List Field} (read : (d.readReplacements kind profile).outcome = .ok fields) :
    ∀ f ∈ fields, d.Builds (memberParent kind profile) f := by
  unfold readReplacements at read
  split at read
  · cases read
    exact fun f member => absurd member List.not_mem_nil
  · split at read
    · exact build_all_ok read
    · simp only [Build.bind_ok, Build.pure_outcome, Except.ok.injEq] at read
      obtain ⟨_, -, rfl⟩ := read
      exact fun f member => absurd member List.not_mem_nil
  · nomatch read

theorem replace_members_ok {d : Declaration} {kind : Kind} {profile : Profile}
    {members changed : List Field}
    (replaced : (d.replaceMembers kind profile members).outcome = .ok changed) :
    ∀ m ∈ changed, m ∈ members ∨ d.Builds (memberParent kind profile) m := by
  simp only [replaceMembers, Build.bind_ok, Build.lift_outcome] at replaced
  obtain ⟨replacements, read, put⟩ := replaced
  intro m member
  exact (Field.replace_members_mem put m member).imp_right (read_replacements_ok read m)

theorem external_inlined {d : Declaration} {property ref : String} {slot : Slot Field}
    (found : d.external property ref = .ok slot) : slot.inlined? = none := by
  unfold external at found
  split at found
  · cases found
    rfl
  · nomatch found

theorem read_slot_ok {d : Declaration} {name : String} {parent : Parent}
    {slot : Option (Slot Field)} (read : (d.readSlot name parent).outcome = .ok slot) {part : Field}
    (inlined : slot.bind Slot.inlined? = some part) : d.Builds parent part := by
  simp only [readSlot, Build.bind_ok, Build.lift_outcome] at read
  obtain ⟨ref, -, rest⟩ := read
  split at rest
  · cases rest
    nomatch inlined
  · simp only [Build.bind_ok, Build.lift_outcome, Build.pure_outcome, Except.ok.injEq] at rest
    obtain ⟨found, isExternal, rfl⟩ := rest
    rw [Option.bind_some, external_inlined isExternal] at inlined
    nomatch inlined
  · split at rest
    · rename_i node _
      simp only [Build.bind_ok, Build.pure_outcome, Except.ok.injEq] at rest
      obtain ⟨built, ofNode, rfl⟩ := rest
      cases inlined
      exact ⟨node, ofNode⟩
    · nomatch rest
  · nomatch rest

theorem read_wrapped_cases {d : Declaration} {name : String} {parent : Parent} {slot : Slot Field}
    (read : (d.readWrapped name parent).outcome = .ok (some slot)) :
    (d.readSlot name parent).outcome = .ok (some slot) ∨
      ∃ part, d.Builds parent part ∧ slot = .inline part := by
  simp only [readWrapped, Build.bind_ok] at read
  obtain ⟨first, ofSlot, rest⟩ := read
  split at rest
  · cases rest
    exact Or.inl ofSlot
  · rename_i node _
    split at rest
    · simp only [Build.bind_ok, Build.pure_outcome, Except.ok.injEq, Option.some.injEq] at rest
      obtain ⟨part, ofNode, rfl⟩ := rest
      exact Or.inr ⟨part, ⟨node, ofNode⟩, rfl⟩
    · nomatch rest
  · nomatch rest

/-- The slot around a field is the declared one, or else the one that was there. -/
inductive Wrapped (d : Declaration) (name : String) (parent : Parent)
    (current : Option (Slot Field)) : Option (Slot Field) → Prop where
  | declared {slot : Slot Field} (read : (d.readWrapped name parent).outcome = .ok (some slot)) :
      Wrapped d name parent current (some slot)
  | kept {slot : Slot Field} (there : current = some slot) :
      Wrapped d name parent current (some slot)

section Wrapped

variable {d : Declaration} {name : String} {parent : Parent} {current later : Option (Slot Field)}

theorem wrapped_of_or {declared : Option (Slot Field)} {slot : Slot Field}
    (read : (d.readWrapped name parent).outcome = .ok declared)
    (chosen : declared.or current = some slot) : d.Wrapped name parent current (some slot) := by
  cases declared with
  | none => exact .kept chosen
  | some own => exact .declared (chosen ▸ read)

theorem wrapped_some (wrapped : d.Wrapped name parent current later) : later.isSome = true := by
  cases wrapped <;> rfl

theorem wrapped_inlined (wrapped : d.Wrapped name parent current later) {part : Field}
    (inlined : later.bind Slot.inlined? = some part) :
    current.bind Slot.inlined? = some part ∨ d.Builds parent part := by
  cases wrapped with
  | declared read =>
      rcases read_wrapped_cases read with ofSlot | ⟨built, builds, rfl⟩
      · exact Or.inr (read_slot_ok ofSlot inlined)
      · cases inlined
        exact Or.inr builds
  | kept there => exact Or.inl (there ▸ inlined)

end Wrapped

end Declaration

namespace BitfieldSpec

def Packs (m : Field) : Prop :=
  (m.dereferenced.kind == .int || m.dereferenced.kind == .enum ||
    m.dereferenced.kind == .set) = true

theorem packs_parts {m : Field} (packs : Packs m) : m.parts = [] := by
  obtain ⟨profile, payload⟩ := m
  cases payload with
  -- A reference has no parts, whatever it leads to.
  | int | float | enum | set | string | data | ref => rfl
  | bitfield | bundle | list | optional | variant =>
      simp [Packs, Field.dereferenced, Field.kind, Payload.kind] at packs

theorem check_each_ok {profile : Profile} {members : List Field}
    (checked : checkEach profile members = .ok ()) :
    ∀ m ∈ members, m.window = profile.window ∧ Packs m := by
  induction members with
  | nil => exact fun m member => absurd member List.not_mem_nil
  | cons first rest ih =>
      simp only [checkEach, except_bind_ok] at checked
      obtain ⟨_, ofFirst, ofRest⟩ := checked
      intro m member
      rcases List.mem_cons.mp member with rfl | later
      · unfold checkMember at ofFirst
        simp only at ofFirst
        split at ofFirst
        · nomatch ofFirst
        · rename_i integral
          split at ofFirst
          · nomatch ofFirst
          · rename_i same
            rw [Bool.not_eq_true', Bool.not_eq_false] at integral
            exact ⟨Decidable.not_not.mp same, integral⟩
      · exact ih ofRest m later

theorem read_ok {d : Declaration} {profile : Profile} {spec later : BitfieldSpec Field}
    (done : (read d profile spec).outcome = .ok later) :
    ∀ m ∈ later.members, m.window = profile.window ∧ Packs m := by
  simp only [read, Build.bind_ok, Build.lift_outcome, Build.pure_outcome,
    Except.ok.injEq] at done
  obtain ⟨_, -, _, -, members, -, _, -, _, checked, _, -, _, -, rfl⟩ := done
  exact check_each_ok checked

end BitfieldSpec

theorem BundleSpec.read_ok {d : Declaration} {profile : Profile} {spec later : BundleSpec Field}
    (done : (read d profile spec).outcome = .ok later) :
    ∀ m ∈ later.members, m ∈ Field.adopt profile.window.since spec.members ∨
      d.Builds (Declaration.memberParent .bundle profile) m := by
  simp only [read, Build.bind_ok, Build.lift_outcome, Build.pure_outcome,
    Except.ok.injEq] at done
  obtain ⟨first, taken, members, replaced, _, -, _, -, _, -, _, -, _, -, _, -, _, -, rfl⟩ := done
  intro m member
  rcases Declaration.replace_members_ok replaced m member with kept | new
  · exact Declaration.take_members_ok taken m kept
  · exact Or.inr new

theorem VariantSpec.read_ok {d : Declaration} {profile : Profile} {spec later : VariantSpec Field}
    (fresh : d.reused = false → spec.members = [])
    (done : (read d profile spec).outcome = .ok later) :
    ∀ m ∈ later.members, m ∈ Field.adopt profile.window.since spec.members ∨
      d.Builds (Declaration.memberParent .variant profile) m := by
  simp only [read, Build.bind_ok, Build.lift_outcome] at done
  obtain ⟨declared, ofDeclared, members, replaced, _, -, _, -, _, -, rest⟩ := done
  have same : later.members = members := by
    split at rest
    · simp only [Build.bind_ok, Build.pure_outcome, Except.ok.injEq] at rest
      obtain ⟨_, -, rfl⟩ := rest
      rfl
    · cases rest
      rfl
  intro m member
  rw [same] at member
  rcases Declaration.replace_members_ok replaced m member with kept | new
  · rcases List.mem_append.mp kept with inherited | written
    · split at inherited
      · exact Or.inl inherited
      · rename_i notReused
        rw [fresh (Bool.not_eq_true _ ▸ notReused)] at inherited
        exact absurd inherited List.not_mem_nil
    · exact Or.inr (Declaration.read_members_ok ofDeclared m written)
  · exact Or.inr new

theorem ListSpec.read_element {d : Declaration} {profile : Profile} {spec later : ListSpec Field}
    (done : (read d profile spec).outcome = .ok later) :
    d.Wrapped "element" (Declaration.memberParent .list profile) spec.element later.element := by
  simp only [read, Build.bind_ok] at done
  obtain ⟨declared, ofDeclared, rest⟩ := done
  split at rest
  · nomatch rest
  · rename_i slot chosen
    simp only [Build.bind_ok, Build.lift_outcome, Build.pure_outcome, Except.ok.injEq] at rest
    obtain ⟨_, -, _, -, _, -, _, -, _, -, rfl⟩ := rest
    exact Declaration.wrapped_of_or ofDeclared chosen

theorem OptionalSpec.read_inner {d : Declaration} {profile : Profile}
    {spec later : OptionalSpec Field} (done : (read d profile spec).outcome = .ok later) :
    d.Wrapped "field" (Declaration.memberParent .optional profile) spec.inner later.inner := by
  simp only [read, Build.bind_ok, Build.lift_outcome] at done
  obtain ⟨_, -, _, -, _, -, _, -, declared, ofDeclared, rest⟩ := done
  split at rest
  · nomatch rest
  · rename_i slot chosen
    simp only [Build.bind_ok, Build.pure_outcome, Except.ok.injEq] at rest
    obtain ⟨_, -, rfl⟩ := rest
    exact Declaration.wrapped_of_or ofDeclared chosen

namespace Context

theorem check_window_ok {ctx : Context} {line : Nat} {w outer : Window}
    (checked : ctx.checkWindow line w outer = .ok ()) : w.Fits ctx.version outer := by
  simp only [checkWindow] at checked
  split at checked
  · nomatch checked
  · split at checked
    · nomatch checked
    · split at checked
      · nomatch checked
      · split at checked
        · nomatch checked
        · split at checked
          · nomatch checked
          · exact ⟨by omega, by omega, by omega, by omega⟩

theorem read_window_ok {ctx : Context} {node : Node} {props : Properties} {w outer : Window}
    (read : ctx.readWindow node props outer = .ok w) : w.Fits ctx.version outer := by
  simp only [readWindow, except_bind_ok, Except.ok.injEq] at read
  obtain ⟨_, -, _, -, _, checked, rfl⟩ := read
  exact check_window_ok checked

end Context

namespace Declaration

theorem read_profile_parts {d : Declaration} {c profile : Profile}
    (read : (d.readProfile c).outcome = .ok profile) :
    (d.readWindow c.window).outcome = .ok profile.window ∧
      (d.readRemoved profile.window c.removed).outcome = .ok profile.removed ∧
      profile.reusedFrom = c.reusedFrom := by
  simp only [readProfile, Build.bind_ok, Build.lift_outcome] at read
  obtain ⟨_, -, _, -, _, -, window, windowed, removed, ofRemoved, _, -, _, -, _, -, _, -, _, -, _, -,
    _, -, _, -, _, -, _, -, _, -, _, -, _, -, rest⟩ := read
  split at rest
  · simp only [Build.bind_ok, Build.pure_outcome, Except.ok.injEq] at rest
    obtain ⟨_, -, rfl⟩ := rest
    exact ⟨windowed, ofRemoved, rfl⟩
  · cases rest
    exact ⟨windowed, ofRemoved, rfl⟩

/-- The profile keeps where the field was reused from; its window fits into that of a parent that
has one, and is that of the start otherwise. -/
theorem read_profile_ok {d : Declaration} {c profile : Profile}
    (read : (d.readProfile c).outcome = .ok profile) :
    profile.reusedFrom = c.reusedFrom ∧
      (d.parent.isVersioned = true →
        profile.window.Fits d.context.version d.parent.window) ∧
      (d.parent.isVersioned = false →
        profile.window = c.window ∧ profile.removed = c.removed) := by
  obtain ⟨windowed, removed, kept⟩ := read_profile_parts read
  refine ⟨kept, ?_, ?_⟩
  · intro versioned
    rw [readWindow, if_pos versioned] at windowed
    exact Context.read_window_ok windowed
  · intro global
    rw [readWindow, if_neg (by simp [global])] at windowed
    simp only [Build.bind_ok, Build.pure_outcome, Except.ok.injEq] at windowed
    obtain ⟨_, -, same⟩ := windowed
    rw [readRemoved, global] at removed
    exact ⟨same.symm, (Except.ok.inj removed).symm⟩

/-- A field is removed only if it ends, unless its start already is. -/
theorem read_profile_removed {d : Declaration} {c profile : Profile}
    (read : (d.readProfile c).outcome = .ok profile) (present : c.removed = false)
    (removed : profile.removed = true) : profile.window.isDeprecated = true := by
  obtain ⟨-, ofRemoved, -⟩ := read_profile_parts read
  rw [present, removed] at ofRemoved
  unfold readRemoved at ofRemoved
  split at ofRemoved
  · cases ofRemoved
  · simp only [Build.bind_ok, Build.lift_outcome] at ofRemoved
    obtain ⟨flag, -, rest⟩ := ofRemoved
    split at rest
    · cases rest
    · split at rest
      · simp only [Build.bind_ok, Build.pure_outcome, Except.ok.injEq] at rest
        obtain ⟨_, -, contra⟩ := rest
        cases contra
      · rename_i ends
        cases rest
        simpa using ends

/-- A part has come with the reused payload, or was built inside the field, or is a member of a
bitfield. -/
theorem read_payload_ok {d : Declaration} {profile : Profile} {payload : Payload Field} {f : Field}
    (fresh : d.reused = false → payload.members = [])
    (read : (d.readPayload profile payload).outcome = .ok f) :
    f.window = profile.window ∧ f.profile.reusedFrom = profile.reusedFrom ∧
      ∀ part ∈ f.parts, part ∈ Environment.handedOn profile.window.since payload ∨
        (∃ kind, d.Builds (memberParent kind profile) part) ∨
        (part.window = profile.window ∧ part.parts = []) := by
  cases payload with
  | int | float | enum | set | string | data =>
      obtain ⟨_, -, rfl⟩ := Build.return_ok read
      exact ⟨rfl, rfl, fun part member => absurd member List.not_mem_nil⟩
  | ref spec =>
      -- A reference fills in names of the profile, but not its window.
      simp only [readPayload, RefSpec.read, Build.bind_ok, Build.pure_outcome,
        Except.ok.injEq] at read
      obtain ⟨_, ⟨_, -, _, -, rfl⟩, rfl⟩ := read
      exact ⟨rfl, rfl, fun part member => absurd member List.not_mem_nil⟩
  | bitfield spec =>
      obtain ⟨later, done, rfl⟩ := Build.return_ok read
      refine ⟨rfl, rfl, fun part member => Or.inr (Or.inr ?_)⟩
      obtain ⟨same, packs⟩ := BitfieldSpec.read_ok done part member
      exact ⟨same, BitfieldSpec.packs_parts packs⟩
  | bundle spec =>
      obtain ⟨later, done, rfl⟩ := Build.return_ok read
      refine ⟨rfl, rfl, fun part member => ?_⟩
      exact (BundleSpec.read_ok done part member).imp_right fun built => Or.inl ⟨.bundle, built⟩
  | variant spec =>
      obtain ⟨later, done, rfl⟩ := Build.return_ok read
      refine ⟨rfl, rfl, fun part member => ?_⟩
      exact (VariantSpec.read_ok fresh done part member).imp_right fun built =>
        Or.inl ⟨.variant, built⟩
  | list spec =>
      obtain ⟨later, done, rfl⟩ := Build.return_ok read
      refine ⟨rfl, rfl, fun part member => ?_⟩
      exact (Declaration.wrapped_inlined (ListSpec.read_element done)
        (Option.mem_toList.mp member)).imp Option.mem_toList.mpr
        fun built => Or.inl ⟨.list, built⟩
  | optional spec =>
      obtain ⟨later, done, rfl⟩ := Build.return_ok read
      refine ⟨rfl, rfl, fun part member => ?_⟩
      exact (Declaration.wrapped_inlined (OptionalSpec.read_inner done)
        (Option.mem_toList.mp member)).imp Option.mem_toList.mpr
        fun built => Or.inl ⟨.optional, built⟩

theorem start_ok {env : Environment} {kind : Kind} {node : Node} {reuse : Option String}
    {start : Field} (started : Declaration.start env kind node reuse = .ok start) :
    start.window = Window.always ∧
      ((reuse = none ∧ start.payload = .blank kind ∧ start.profile.reusedFrom = none) ∨
        ∃ ref handle, reuse = some ref ∧ start.profile.reusedFrom = some ref ∧
          env.find? ref = some handle ∧ start.payload = handle.target.payload) := by
  unfold Declaration.start at started
  split at started
  · cases started
    exact ⟨rfl, Or.inl ⟨rfl, rfl, rfl⟩⟩
  · rename_i ref
    split at started
    · nomatch started
    · rename_i handle found
      simp only [except_bind_ok, Except.ok.injEq] at started
      obtain ⟨copy, copied, rfl⟩ := started
      unfold Field.reuse at copied
      split at copied
      · cases copied
        exact ⟨rfl, Or.inr ⟨ref, handle, rfl, rfl, found, rfl⟩⟩
      · nomatch copied

/-- A field starts blank, or with the payload of the registered field that it reuses. -/
theorem makes_source {d : Declaration} {start f : Field} (makes : d.Makes start f) :
    (d.reused = false ∧ start.payload = .blank f.kind) ∨
      (d.reused = true ∧
        ∃ ref handle, d.env.find? ref = some handle ∧ start.payload = handle.target.payload) := by
  obtain ⟨reuse, -, reused, started⟩ := makes.started
  rcases (start_ok started).2 with ⟨rfl, blank, -⟩ | ⟨ref, handle, rfl, -, found, copied⟩
  · exact Or.inl ⟨reused, blank⟩
  · exact Or.inr ⟨reused, ref, handle, found, copied⟩

theorem makes_blank {d : Declaration} {start f : Field} (makes : d.Makes start f)
    (fresh : d.reused = false) : start.payload = .blank f.kind := by
  rcases makes_source makes with ⟨-, blank⟩ | ⟨reused, -⟩
  · exact blank
  · rw [fresh] at reused
    cases reused

theorem makes_fresh {d : Declaration} {start f : Field} (makes : d.Makes start f)
    (fresh : d.reused = false) : start.payload.members = [] := by
  rw [makes_blank makes fresh, Payload.blank_members]

end Declaration

namespace Field

theorem written_of_leaf {env : Environment} {f : Field} (leaf : f.parts = []) : f.Written env := by
  constructor <;> intro part member
  · rw [leaf] at member
    exact absurd member List.not_mem_nil
  · rw [leaf] at member
    exact absurd member List.not_mem_nil

theorem handed_on_inherited {env : Environment} {kind : Kind} {node : Node}
    {reuse : Option String} {start f : Field}
    (started : Declaration.start env kind node reuse = .ok start)
    (origin : f.profile.reusedFrom = start.profile.reusedFrom) :
    Environment.handedOn f.window.since start.payload = env.inheritedParts f := by
  unfold Environment.inheritedParts
  rcases (Declaration.start_ok started).2 with
    ⟨-, blank, none⟩ | ⟨ref, handle, -, copied, found, same⟩
  · rw [origin, none, blank]
    cases kind <;> rfl
  · rw [origin, copied, same, Option.bind_some, found]

theorem start_fresh {env : Environment} {kind : Kind} {node : Node} {reuse : Option String}
    {start : Field} (started : Declaration.start env kind node reuse = .ok start)
    (fresh : reuse.isSome = false) : start.payload.members = [] := by
  rcases (Declaration.start_ok started).2 with ⟨-, blank, -⟩ | ⟨ref, handle, rfl, -⟩
  · rw [blank]
    cases kind <;> rfl
  · nomatch fresh

theorem profile_fits_self {env : Environment} {kind : Kind} {node : Node} {reuse : Option String}
    {start : Field} {d : Declaration} {profile : Profile}
    (started : Declaration.start env kind node reuse = .ok start)
    (profiled : (d.readProfile start.profile).outcome = .ok profile) :
    profile.window.Fits d.context.version profile.window := by
  obtain ⟨-, fits, global⟩ := Declaration.read_profile_ok profiled
  by_cases versioned : d.parent.isVersioned = true
  · exact Window.fits_self (fits versioned)
  · -- Outside of messages and fields nothing is read, and every start is in force always.
    have always : profile.window = Window.always :=
      (global (Bool.not_eq_true _ ▸ versioned)).1.trans (Declaration.start_ok started).1
    rw [always]
    exact ⟨by decide, Nat.le_refl _, Nat.le_refl _, Nat.zero_le _⟩

theorem build_kind_written {inside : Node → Parent → Build Field} {env : Environment} {kind : Kind}
    {node : Node} {parent : Parent} {f : Field}
    (insideFits : ∀ inner around part, (inside inner around).outcome = .ok part →
      part.Written env ∧
        (around.isVersioned = true → part.window.Fits env.context.version around.window))
    (built : (buildKind inside env kind node parent).outcome = .ok f) :
    f.Written env ∧
      (parent.isVersioned = true → f.window.Fits env.context.version parent.window) := by
  obtain ⟨props, reuse, start, profile, -, -, started, profiled, read, -⟩ := build_kind_ok built
  obtain ⟨kept, fits, -⟩ := Declaration.read_profile_ok profiled
  obtain ⟨window, origin, parts⟩ := Declaration.read_payload_ok (start_fresh started) read
  have proper := profile_fits_self started profiled
  have inherited := handed_on_inherited (f := f) started (origin.trans kept)
  rw [← window] at fits proper parts
  have part_cases : ∀ part ∈ f.parts, part ∉ env.inheritedParts f →
      part.window.Fits env.context.version f.window ∧ part.Written env := by
    intro part member notInherited
    -- What has come with a reused payload is inherited, so two cases are left.
    rcases parts part member with handed | ⟨innerKind, inner, ofInner⟩ | ⟨same, leaf⟩
    · exact absurd (inherited ▸ handed) notInherited
    · obtain ⟨written, fitsInside⟩ := insideFits inner _ part ofInner
      exact ⟨window ▸ fitsInside rfl, written⟩
    · exact ⟨same ▸ proper, written_of_leaf leaf⟩
  exact ⟨.intro (fun part member other => (part_cases part member other).1)
    (fun part member other => (part_cases part member other).2), fits⟩

theorem build_within_written {env : Environment} {depth : Nat} {tag : String} {node : Node}
    {parent : Parent} {f : Field}
    (built : (buildWithin env depth tag node parent).outcome = .ok f) :
    f.Written env ∧
      (parent.isVersioned = true → f.window.Fits env.context.version parent.window) := by
  -- Fields inside are built with one level of elements less.
  induction depth generalizing tag node parent f with
  | zero => nomatch built
  | succ depth ih =>
      unfold buildWithin at built
      split at built
      · nomatch built
      · exact build_kind_written (fun inner around part ofInner => ih ofInner) built

/-- A field that was built fits into its parent if that has a window, and its parts fit into it
unless they have come with the field it reuses. -/
theorem of_node_written {env : Environment} {node : Node} {parent : Parent} {f : Field}
    (built : (ofNode env node parent).outcome = .ok f) :
    f.Written env ∧
      (parent.isVersioned = true → f.window.Fits env.context.version parent.window) :=
  build_within_written built

end Field

end WireSchema
