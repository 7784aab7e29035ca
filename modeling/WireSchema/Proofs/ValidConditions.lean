import WireSchema.Proofs.Answers
import WireSchema.Proofs.Bounds
import WireSchema.Proofs.Inheritance
import WireSchema.Proofs.Verification

/-!
Validity conditions of bitfields and bundles. A condition that a declaration gives is checked among
the members that the field ends up with. One that has come with a reused field is not checked again,
while members are left out, replaced and moved into other windows. What an expression demands depends
only on the members that its operands start at, so the condition still fits exactly if its expressions
about members to which something has happened fit the new members, and the others the old ones.
-/

namespace WireSchema

open Markup (Node)

def Payload.validCondition? {α : Type} : Payload α → Option Condition
  | .bitfield spec => spec.validCondition
  | .bundle spec => spec.validCondition
  | _ => none

namespace Field

section Moved

variable (f g : Field) (window : Window)

theorem moved_dereferenced_kind :
    (f.withWindow window).dereferenced.kind = f.dereferenced.kind := by
  obtain ⟨profile, payload⟩ := f
  cases payload with
  | ref spec =>
      obtain ⟨_ | handle, bitLength⟩ := spec
      · simp only [withWindow, dereferenced]
        rfl
      · simp only [withWindow, dereferenced]
  | _ =>
      simp only [withWindow, dereferenced]
      rfl

theorem moved_refuses_text (value : String) :
    (f.withWindow window).refusesText value = f.refusesText value := by
  have same : (f.withWindow window).numeric? value = f.numeric? value :=
    (answers_of_shown (f := f.withWindow window) (g := f) rfl).numeric value
  rw [refusesText, refusesText, same]
  rfl

theorem moved_compares_to_value (value : String) :
    comparesToValue value (f.withWindow window) = comparesToValue value f := by
  have same := moved_refuses_text f window value
  obtain ⟨profile, payload⟩ := f
  simp only [withWindow] at same ⊢
  cases payload with
  | ref spec =>
      obtain ⟨_ | handle, bitLength⟩ := spec <;> simp only [comparesToValue, same]
  | optional spec =>
      obtain ⟨_ | _ | _, _, _, _, _⟩ := spec <;> simp only [comparesToValue, same]
  | _ => simp only [comparesToValue, same]

theorem moved_compares_to_text (value : String) (env : Environment) :
    (f.withWindow window).comparesToText value env = f.comparesToText value env := by
  rw [comparesToText, comparesToText, moved_compares_to_value, moved_dereferenced_kind]

theorem moved_kind_passes (test : Kind → Bool) :
    (f.withWindow window).kindPasses test = f.kindPasses test := by
  obtain ⟨profile, payload⟩ := f
  cases payload with
  | ref spec =>
      obtain ⟨_ | handle, bitLength⟩ := spec
      · simp only [withWindow, kindPasses]
        rfl
      · simp only [withWindow, kindPasses]
  | optional spec =>
      obtain ⟨_ | _ | _, _, _, _, _⟩ := spec <;> simp only [withWindow, kindPasses]
  | _ =>
      simp only [withWindow, kindPasses]
      rfl

theorem moved_compares_to : (f.withWindow window).comparesTo g = f.comparesTo g :=
  moved_kind_passes f window _

theorem compares_to_moved : f.comparesTo (g.withWindow window) = f.comparesTo g := by
  simp only [comparesTo, moved_kind_passes]

theorem moved_admits_size :
    (f.withWindow window).admits .size = f.admits .size := by
  obtain ⟨profile, payload⟩ := f
  cases payload with
  | ref spec =>
      obtain ⟨_ | handle, bitLength⟩ := spec <;> simp [withWindow, admits]
  | _ => simp [withWindow, admits]

end Moved

end Field

namespace Target

def anytime : Target → Target
  | .field f => .field (f.withWindow .always)
  | .innerValue f name => .innerValue (f.withWindow .always) name
  | .size f => .size (f.withWindow .always)
  | .existence f => .existence (f.withWindow .always)
  | .invalid => .invalid

theorem anytime_kind (t : Target) : t.anytime.kind = t.kind := by
  cases t <;> rfl

theorem anytime_valid (t : Target) : t.anytime.isValid = t.isValid := by
  cases t <;> rfl

theorem anytime_plain (t : Target) :
    t.anytime.plain? = t.plain?.map fun f => f.withWindow .always := by
  cases t <;> rfl

theorem valid_anytime_congr {t u : Target} (alike : t.anytime = u.anytime) :
    ([t].filter isValid).map anytime = ([u].filter isValid).map anytime := by
  have valid : t.isValid = u.isValid := by
    rw [← anytime_valid t, alike, anytime_valid]
  cases shown : u.isValid with
  | true => simp [valid, shown, alike]
  | false => simp [valid, shown]

/-- A member in another window leads where it led before, unless it is asked for its existence. -/
theorem moved_ask_anytime (m : Field) (window : Window) (path : String) {query : Query}
    (noExistence : query ≠ .existence) :
    (((m.withWindow window).inner path).ask query).anytime = ((m.inner path).ask query).anytime := by
  cases query with
  | existence => exact absurd rfl noExistence
  | value =>
      rcases Field.inner_congr (f := m.withWindow window) (g := m) rfl path with
        same | ⟨moved, here⟩ | ⟨moved, here⟩
      · rw [same]
      · rw [moved, here]
        rfl
      · rw [moved, here]
        rfl
  | size =>
      rcases Field.inner_congr (f := m.withWindow window) (g := m) rfl path with
        same | ⟨moved, here⟩ | ⟨moved, here⟩
      · rw [same]
      · rw [moved, here]
        simp only [ask, Field.moved_admits_size]
        by_cases sized : m.admits .size = true
        · rw [if_pos sized, if_pos sized]
          rfl
        · rw [if_neg sized, if_neg sized]
      · rw [moved, here]
        rfl

end Target

def Operand.AlikeAmong (o : Operand) (before after : List Field) (interfaces : List Interface) :
    Prop :=
  (o.targets before interfaces).map Target.anytime = (o.targets after interfaces).map Target.anytime

namespace Expression

variable {before after : List Field} {env : Environment} {place : Place} {condition : String}

theorem demand_congr {α : Type} {o : Operand} {next next' : List Target → Except Error α}
    (alike : o.AlikeAmong before after env.interfaces)
    (nextAlike : ∀ found found', found.map Target.anytime = found'.map Target.anytime →
      next found = next' found') :
    (o.demand before env place condition >>= next) =
      (o.demand after env place condition >>= next') := by
  unfold Operand.AlikeAmong at alike
  unfold Operand.demand
  -- Both lists of targets are empty, which is the same fault, or neither of them is.
  cases found : o.targets before env.interfaces with
  | nil =>
      rw [found, List.map_nil, eq_comm, List.map_eq_nil_iff] at alike
      rw [alike]
      rfl
  | cons first rest =>
      cases found' : o.targets after env.interfaces with
      | nil =>
          rw [found, found'] at alike
          cases alike
      | cons first' rest' =>
          rw [found, found'] at alike
          exact nextAlike _ _ alike

theorem plain_alike {found found' : List Target}
    (alike : found.map Target.anytime = found'.map Target.anytime) :
    (found.filterMap Target.plain?).map (fun f => f.withWindow .always) =
      (found'.filterMap Target.plain?).map fun f => f.withWindow .always := by
  have opened (ts : List Target) : (ts.filterMap Target.plain?).map (fun f => f.withWindow .always) =
      (ts.map Target.anytime).filterMap Target.plain? := by
    rw [List.map_filterMap, List.filterMap_map]
    simp only [Function.comp_def, Target.anytime_plain]
  rw [opened, opened, alike]

/-- A test that no window matters for gives the same among fields that differ in their windows. -/
theorem any_alike (test : Field → Bool) {fields fields' : List Field}
    (moved : ∀ f : Field, test (f.withWindow .always) = test f)
    (alike : fields.map (fun f => f.withWindow .always) =
      fields'.map fun f => f.withWindow .always) : fields.any test = fields'.any test := by
  have opened (fs : List Field) :
      fs.any test = (fs.map fun f => f.withWindow .always).any test := by
    rw [List.any_map]
    simp only [Function.comp_def, moved]
  rw [opened fields, opened fields', alike]

theorem verify_check_congr {o : Operand} (alike : o.AlikeAmong before after env.interfaces) :
    verifyCheck o condition before env place = verifyCheck o condition after env place := by
  unfold verifyCheck
  split
  · rfl
  · apply demand_congr alike
    intro found found' alikeFound
    have kinds (ts : List Target) :
        (ts.any fun t => t.kind == .innerValue || t.kind == .existence) =
          (ts.map Target.anytime).any fun t => t.kind == .innerValue || t.kind == .existence := by
      rw [List.any_map]
      simp only [Function.comp_def, Target.anytime_kind]
    rw [kinds found, kinds found', alikeFound]

theorem verify_size_congr {left : Operand} {right : Comparand}
    (alike : left.AlikeAmong before after env.interfaces) :
    verifySize left right condition before env place =
      verifySize left right condition after env place := by
  unfold verifySize
  split
  · rfl
  · exact demand_congr alike fun _ _ _ => rfl

theorem comparable_congr {lefts lefts' : List Field} {right : Comparand}
    (alike : lefts.map (fun f => f.withWindow .always) =
      lefts'.map fun f => f.withWindow .always)
    (rightAlike : ∀ o, right = .operand o → o.AlikeAmong before after env.interfaces) :
    comparable lefts right condition before env place =
      comparable lefts' right condition after env place := by
  cases right with
  | literal value =>
      simp only [comparable]
      rw [any_alike _ (fun f => Field.moved_compares_to_text f _ value env) alike]
  | operand o =>
      apply demand_congr (rightAlike o rfl)
      intro found found' alikeFound
      have moved (l : Field) : (found.filterMap Target.plain?).any (l.withWindow .always).comparesTo =
          (found.filterMap Target.plain?).any l.comparesTo := by
        rw [funext fun r => Field.moved_compares_to l r .always]
      have each (l : Field) := any_alike l.comparesTo
        (fun r => Field.compares_to_moved l r .always) (plain_alike alikeFound)
      apply congrArg Except.ok
      calc lefts.any (fun l => (found.filterMap Target.plain?).any l.comparesTo)
        _ = lefts'.any (fun l => (found.filterMap Target.plain?).any l.comparesTo) :=
          any_alike _ moved alike
        _ = lefts'.any (fun l => (found'.filterMap Target.plain?).any l.comparesTo) :=
          List.any_congr rfl each

theorem verify_value_congr {left : Operand} {right : Comparand}
    (alike : left.AlikeAmong before after env.interfaces)
    (rightAlike : ∀ o, right = .operand o → o.AlikeAmong before after env.interfaces) :
    verifyValue left right condition before env place =
      verifyValue left right condition after env place := by
  apply demand_congr alike
  intro found found' alikeFound
  have plain := plain_alike alikeFound
  have none : (found.filterMap Target.plain?).isEmpty = (found'.filterMap Target.plain?).isEmpty := by
    rw [← List.isEmpty_map, plain, List.isEmpty_map]
  simp only [none, comparable_congr plain rightAlike]

/-- An expression is checked alike among lists in which its operands designate the same. -/
theorem verify_congr {e : Expression}
    (alike : ∀ o ∈ e.operands, o.AlikeAmong before after env.interfaces) :
    e.verify before env place = e.verify after env place := by
  unfold verify
  cases e with
  | check negated o =>
      simp only [verify_check_congr (alike o List.mem_cons_self)]
  | compare left op right =>
      have ofLeft := alike left (by cases right <;> exact List.mem_cons_self)
      have ofRight : ∀ o, right = .operand o → o.AlikeAmong before after env.interfaces := by
        rintro o rfl
        exact alike o (List.mem_cons_of_mem _ List.mem_cons_self)
      cases asked : left.query <;>
        simp only [asked, verify_size_congr ofLeft, verify_value_congr ofLeft ofRight]

end Expression

/-- What a reused bundle or bitfield of this window makes of a member of its source; none if it
leaves the member out. -/
def Kind.takeOver (kind : Kind) (window : Window) (m : Field) : Option Field :=
  if kind = .bitfield then some (m.withWindow window)
  else if m.isGoneBy window.since then none
  else some (m.liftTo window.since)

theorem Kind.take_over_moves {kind : Kind} {window : Window} {m taken : Field}
    (takes : kind.takeOver window m = some taken) : taken = m.withWindow taken.window := by
  unfold takeOver at takes
  split at takes
  · cases takes
    rfl
  · split at takes
    · cases takes
    · cases takes
      rfl

namespace Field

theorem adopt_takes_over (window : Window) (members : List Field) :
    adopt window.since members = members.filterMap (Kind.bundle.takeOver window) := by
  induction members with
  | nil => rfl
  | cons m rest ih =>
      have takes : Kind.bundle.takeOver window m =
          if m.isGoneBy window.since then none else some (m.liftTo window.since) := rfl
      rw [adopt] at ih ⊢
      rw [List.filterMap_cons, takes]
      cases gone : m.isGoneBy window.since with
      | true => simpa [gone] using ih
      | false => simpa [gone] using ih

theorem named_taken {kind : Kind} {window : Window} {source : List Field} {name : String}
    (kept : ∀ m, named? source name = some m → (kind.takeOver window m).isSome = true) :
    named? (source.filterMap (kind.takeOver window)) name =
      (named? source name).bind (kind.takeOver window) := by
  induction source with
  | nil => rfl
  | cons m rest ih =>
      rw [named_cons] at kept ⊢
      rw [List.filterMap_cons]
      by_cases here : m.name = name
      · -- The first member of the name stays the first one: no member changes its name.
        rw [if_pos here] at kept ⊢
        obtain ⟨taken, takes⟩ := Option.isSome_iff_exists.mp (kept m rfl)
        have sameName : taken.name = name := by
          rw [Kind.take_over_moves takes]
          exact here
        rw [takes, Option.bind_some, takes]
        simp only
        rw [named_cons, if_pos sameName]
      · rw [if_neg here] at kept ⊢
        cases takes : kind.takeOver window m with
        | none => exact ih kept
        | some taken =>
            have otherName : taken.name ≠ name := by
              rw [Kind.take_over_moves takes]
              exact here
            simp only
            rw [named_cons, if_neg otherName]
            exact ih kept

end Field

namespace Operand

def reading? (o : Operand) : Option MarkedPath :=
  match o.scope with
  | .sibling => (MarkedPath.read o.marked.text).toOption
  | .interface => none

/-- Something happens to the member that the operand starts at when `f` takes over the members of
`start`: it is replaced or left out, or it gets another window and the operand asks for existence. -/
def disturbed (o : Operand) (start f : Field) (replacements : List Field) : Bool :=
  o.reading?.any fun p =>
    (Field.named? replacements (Text.firstSegment p.path).1).isSome ||
      (Field.named? start.members (Text.firstSegment p.path).1).any fun m =>
        match f.kind.takeOver f.window m with
        | none => true
        | some taken => p.query == .existence && taken.window != m.window

theorem resolve_undisturbed {p : MarkedPath} {start f : Field} {replacements : List Field}
    {place : Place}
    (replaced : Field.replaceMembers place
      (start.members.filterMap (f.kind.takeOver f.window)) replacements = .ok f.members)
    (notReplaced : Field.named? replacements (Text.firstSegment p.path).1 = none)
    (untouched : ∀ m, Field.named? start.members (Text.firstSegment p.path).1 = some m →
      ∃ taken, f.kind.takeOver f.window m = some taken ∧
        (p.query = .existence → taken.window = m.window)) :
    (Field.resolveMarked start.members p).anytime = (Field.resolveMarked f.members p).anytime := by
  have last : Field.named? replacements.reverse (Text.firstSegment p.path).1 = none := by
    rw [Field.named?, List.find?_eq_none] at notReplaced ⊢
    exact fun r member => notReplaced r (List.mem_reverse.mp member)
  have kept : ∀ m, Field.named? start.members (Text.firstSegment p.path).1 = some m →
      (f.kind.takeOver f.window m).isSome = true := by
    intro m found
    obtain ⟨taken, takes, -⟩ := untouched m found
    rw [takes]
    rfl
  rw [Field.resolveMarked, Field.resolveMarked, Field.inner_member_named, Field.inner_member_named,
    Field.replace_members_named replaced, last, Option.none_or, Field.named_taken kept]
  cases found : Field.named? start.members (Text.firstSegment p.path).1 with
  | none => rfl
  | some m =>
      obtain ⟨taken, takes, sameWindow⟩ := untouched m found
      have moved := Kind.take_over_moves takes
      simp only [Option.bind_some, takes, Option.map_some, Option.getD_some]
      by_cases asks : p.query = .existence
      · -- The window may decide here, but it has not changed, and so nothing has.
        have same : taken = m := by
          rw [moved, sameWindow asks]
          cases m
          rfl
        rw [same]
      · rw [moved]
        exact (Target.moved_ask_anytime m _ _ asks).symm

theorem alike_of_undisturbed {o : Operand} {start f : Field} {replacements : List Field}
    {place : Place} {interfaces : List Interface}
    (replaced : Field.replaceMembers place
      (start.members.filterMap (f.kind.takeOver f.window)) replacements = .ok f.members)
    (undisturbed : o.disturbed start f replacements = false) :
    o.AlikeAmong start.members f.members interfaces := by
  unfold AlikeAmong targets
  unfold disturbed reading? at undisturbed
  cases scope : o.scope with
  | interface => rfl
  | sibling =>
      rw [scope] at undisturbed
      apply Target.valid_anytime_congr
      unfold Field.resolve
      cases read : MarkedPath.read o.marked.text with
      | error => rfl
      | ok p =>
          rw [read] at undisturbed
          simp only [Except.toOption, Option.any_some, Bool.or_eq_false_iff] at undisturbed
          obtain ⟨notReplaced, notTouched⟩ := undisturbed
          apply resolve_undisturbed replaced (by simpa using notReplaced)
          intro m found
          rw [found, Option.any_some] at notTouched
          split at notTouched
          · cases notTouched
          · rename_i taken takes
            exact ⟨taken, takes, by simpa using notTouched⟩

end Operand

def Expression.disturbed (e : Expression) (start f : Field) (replacements : List Field) : Bool :=
  e.operands.any fun o => o.disturbed start f replacements

theorem Expression.verify_undisturbed {e : Expression} {start f : Field} {replacements : List Field}
    {env : Environment} {place place' : Place}
    (replaced : Field.replaceMembers place'
      (start.members.filterMap (f.kind.takeOver f.window)) replacements = .ok f.members)
    (undisturbed : e.disturbed start f replacements = false) :
    e.verify start.members env place = e.verify f.members env place := by
  apply verify_congr
  intro o member
  rw [disturbed, List.any_eq_false] at undisturbed
  exact Operand.alike_of_undisturbed replaced (by simpa using undisturbed o member)

namespace Declaration

def givenCondition? (d : Declaration) : Option Condition :=
  if d.env.supports .validCondInComposite then d.declaredValidCondition.toOption.join else none

theorem declared_condition_absent {d : Declaration} (noText : d.has "validCond" = false)
    (noCopy : d.has "copyValidCondFrom" = false)
    (noElement : (d.node.child? "validCond").isSome = false) :
    d.declaredValidCondition = .ok none := by
  have noWrapper : d.wrappers "validCond" = [] := by
    rw [Option.isSome_eq_false_iff, Option.isNone_iff_eq_none, Node.child?,
      List.find?_eq_none] at noElement
    rw [wrappers, Node.childrenNamed, List.filter_eq_nil_iff.mpr noElement, List.filter_nil]
  rw [declaredValidCondition, readCondition, prop_absent noText, prop_absent noCopy, noWrapper]
  rfl

theorem read_valid_condition_ok {d : Declaration} {members : List Field}
    {current later : Option Condition}
    (read : (d.readValidCondition members current).outcome = .ok later) :
    (∃ c, d.givenCondition? = some c ∧ later = some c ∧
      c.verify members d.env (.line d.line) = .ok ()) ∨
    (d.givenCondition? = none ∧ later = current) := by
  unfold readValidCondition at read
  unfold givenCondition?
  simp only at read
  split at read
  · rename_i undeclared
    cases read
    simp only [Bool.not_eq_true', Bool.or_eq_false_iff] at undeclared
    obtain ⟨⟨noText, noCopy⟩, noElement⟩ := undeclared
    rw [declared_condition_absent noText noCopy noElement]
    exact Or.inr ⟨by split <;> rfl, rfl⟩
  · split at read
    · rename_i unsupported
      simp only [Build.bind_ok, Build.pure_outcome, Except.ok.injEq] at read
      obtain ⟨_, -, rfl⟩ := read
      exact Or.inr ⟨if_neg (by simpa using unsupported), rfl⟩
    · rename_i supported
      rw [if_pos (by simpa using supported)]
      simp only [Build.bind_ok, Build.lift_outcome] at read
      obtain ⟨declared, isDeclared, rest⟩ := read
      rw [isDeclared]
      cases declared with
      | none =>
          cases rest
          exact Or.inr ⟨rfl, rfl⟩
      | some c =>
          simp only [Build.bind_ok, Build.lift_outcome, Build.pure_outcome, Except.ok.injEq] at rest
          obtain ⟨_, verified, rfl⟩ := rest
          exact Or.inl ⟨c, rfl, rfl, verified⟩

/-- What the members and the condition of a composite are read from. -/
theorem reads_conditioned {d : Declaration} {profile : Profile} {payload : Payload Field} {f : Field}
    {c : Condition} (reads : d.ReadsAs profile payload f)
    (conditioned : f.payload.validCondition? = some c) :
    ∃ base replacements, (d.readReplacements f.kind f.profile).outcome = .ok replacements ∧
      Field.replaceMembers (.line d.line) base replacements = .ok f.members ∧
      (d.reused = true → base = payload.members.filterMap (f.kind.takeOver f.window)) ∧
      (d.readValidCondition f.members payload.validCondition?).outcome = .ok (some c) := by
  cases reads with
  | bitfield done =>
      obtain ⟨base, replacements, based, ofReplacements, replaced, -, -, read⟩ :=
        BitfieldSpec.read_parts done
      refine ⟨base, replacements, ofReplacements, replaced, ?_, read.trans (congrArg _ conditioned)⟩
      intro reused
      rw [Declaration.take_members_reused based reused, ← List.filterMap_eq_map]
      rfl
  | bundle done =>
      obtain ⟨base, replacements, _, based, ofReplacements, replaced, -, -, -, read⟩ :=
        BundleSpec.read_parts done
      refine ⟨base, replacements, ofReplacements, replaced, ?_, read.trans (congrArg _ conditioned)⟩
      intro reused
      rw [Declaration.take_members_reused based reused]
      exact Field.adopt_takes_over profile.window _
  | _ => cases conditioned

theorem makes_reused {d : Declaration} {start f : Field} {c : Condition} (makes : d.Makes start f)
    (conditioned : start.payload.validCondition? = some c) : d.reused = true := by
  cases reused : d.reused with
  | true => rfl
  | false =>
      rw [makes_blank makes reused] at conditioned
      cases kind : f.kind <;> rw [kind] at conditioned <;> cases conditioned

end Declaration

namespace Field

/-- A bitfield or bundle that was built has the validity condition of its declaration, which fits
its members, or that of the field it reuses. The latter fits its members exactly if the expressions
in which an operand starts at a member that is replaced, left out or moved do, and all others fit the
members of the reused field. -/
theorem valid_condition_fits_iff {env : Environment} {depth : Nat} {tag : String} {node : Node}
    {parent : Parent} {f : Field} {c : Condition}
    (built : (buildWithin env depth tag node parent).outcome = .ok f)
    (conditioned : f.payload.validCondition? = some c) :
    (∃ (d : Declaration) (start : Field), d.env = env ∧ d.node = node ∧ d.parent = parent ∧
      d.Makes start f) ∧
    ∀ (d : Declaration) (start : Field), d.env = env → d.node = node → d.Makes start f →
      (d.givenCondition? = some c ∧ c.verify f.members env (.line node.line) = .ok ()) ∨
      (d.givenCondition? = none ∧ d.reused = true ∧ start.payload.validCondition? = some c ∧
        ∃ replacements, (d.readReplacements f.kind f.profile).outcome = .ok replacements ∧
          ∀ place, c.verify f.members env place = .ok () ↔
            c.Joined ∧ ∀ e ∈ c.expressions,
              if e.disturbed start f replacements then e.verify f.members env place = .ok ()
              else e.verify start.members env place = .ok ()) := by
  constructor
  · cases depth with
    | zero => cases built
    | succ depth =>
        obtain ⟨d, start, ofEnv, ofNode, ofParent, -, makes⟩ := build_within_makes built
        exact ⟨d, start, ofEnv, ofNode, ofParent, makes⟩
  · rintro d start rfl rfl makes
    obtain ⟨profile, -, reads⟩ := Declaration.makes_reads makes
    obtain ⟨base, replacements, ofReplacements, replaced, taken, read⟩ :=
      Declaration.reads_conditioned reads conditioned
    rcases Declaration.read_valid_condition_ok read with ⟨own, given, same, verified⟩ | ⟨none, same⟩
    · cases same
      exact Or.inl ⟨given, verified⟩
    · -- Only a field that reuses another one has a condition that it does not give itself.
      have reused := Declaration.makes_reused makes same.symm
      rw [taken reused] at replaced
      refine Or.inr ⟨none, reused, same.symm, replacements, ofReplacements, ?_⟩
      intro place
      rw [Condition.verify_iff]
      apply and_congr_right
      intro _
      apply forall_congr'
      intro e
      apply imp_congr_right
      intro _
      -- A disturbed expression is asked for as it is; the others are checked alike in both lists.
      cases touched : e.disturbed start f replacements with
      | true => rfl
      | false =>
          rw [Expression.verify_undisturbed replaced touched]
          rfl

def equalBytes (kind : String) : Node :=
  ⟨kind, [("name", "A"), ("validCond", "$x = $y")],
    ["x", "y", "z"].map fun name => ⟨"int", [("name", name), ("type", "uint8")], [], "", 1⟩, "", 1⟩

def equalBytesCopy (kind name : String) : Node :=
  ⟨kind, [("name", "B"), ("reuse", "A")],
    [⟨"replace", [], [⟨"set", [("name", name), ("length", "1")], [], "", 1⟩], "", 1⟩], "", 1⟩

/-- The condition of the copy does not mention the byte that was replaced, and fits. -/
theorem unmentioned_replacement_fits :
    ∃ (f : Field) (c : Condition) (d : Declaration) (start : Field) (replacements : List Field),
      (create (schemaOf [equalBytes "bundle"]) "bundle" (equalBytesCopy "bundle" "z")
        ⟨.ns, Window.always⟩).outcome = .ok f ∧
      f.payload.validCondition? = some c ∧
      c.verify f.members (schemaOf [equalBytes "bundle"]) (.line 1) = .ok () ∧ d.Makes start f ∧
      start.payload.validCondition? = some c ∧
      (d.readReplacements f.kind f.profile).outcome = .ok replacements ∧
      ∀ e ∈ c.expressions, e.disturbed start f replacements = false →
        e.verify start.members (schemaOf [equalBytes "bundle"]) (.line 1) = .ok () := by
  have found : ((create (schemaOf [equalBytes "bundle"]) "bundle" (equalBytesCopy "bundle" "z")
      ⟨.ns, Window.always⟩).outcome.toOption.any fun f => f.payload.validCondition?.any fun c =>
        f.kind = .bundle &&
        (c.verify f.members (schemaOf [equalBytes "bundle"]) (.line 1)).toOption.isSome) = true := by
    decide +kernel
  simp only [Option.any_eq_true, Bool.and_eq_true, decide_eq_true_eq,
    Option.isSome_iff_exists] at found
  obtain ⟨f, created, c, conditioned, kind, _, verified⟩ := found
  have built := except_of_to_option created
  have fits := except_of_to_option verified
  obtain ⟨⟨d, start, ofEnv, ofNode, -, makes⟩, cases⟩ := valid_condition_fits_iff built conditioned
  rcases cases d start ofEnv ofNode makes with
    ⟨given, -⟩ | ⟨-, -, taken, replacements, ofReplacements, exactly⟩
  · -- The copy has no condition of its own.
    have silent : ((Properties.ofNode (equalBytesCopy "bundle" "z")
        Kind.bundle.allProperties).toOption.all fun props =>
          !props.contains "validCond" && !props.contains "copyValidCondFrom") = true := by
      decide +kernel
    have properties := makes.properties
    rw [ofNode, kind] at properties
    rw [properties] at silent
    simp only [Except.toOption, Option.all_some, Bool.and_eq_true, Bool.not_eq_true'] at silent
    have none := Declaration.declared_condition_absent (d := d) silent.1 silent.2 (by rw [ofNode]; rfl)
    rw [Declaration.givenCondition?, none] at given
    split at given <;> cases given
  · refine ⟨f, c, d, start, replacements, built, conditioned, fits, makes, taken, ofReplacements, ?_⟩
    intro e member undisturbed
    have each := ((exactly _).mp fits).2 e member
    rw [undisturbed] at each
    exact each

def BuildsUnfit (env : Environment) (node : Node) : Prop :=
  ∃ f c, (create env node.name node ⟨.ns, Window.always⟩).outcome = .ok f ∧
    f.payload.validCondition? = some c ∧ c.verify f.members env (.line node.line) ≠ .ok ()

theorem builds_unfit {env : Environment} {node : Node}
    (found : ((create env node.name node ⟨.ns, Window.always⟩).outcome.toOption.any fun f =>
      f.payload.validCondition?.any fun c =>
        (c.verify f.members env (.line node.line)).toOption.isNone) = true) :
    BuildsUnfit env node := by
  simp only [Option.any_eq_true] at found
  obtain ⟨f, created, c, conditioned, unfit⟩ := found
  refine ⟨f, c, except_of_to_option created, conditioned, ?_⟩
  intro fits
  rw [fits] at unfit
  cases unfit

/-- A set does not compare with a byte, but the copies with one keep the condition. -/
theorem mentioned_replacement_unfit :
    BuildsUnfit (schemaOf [equalBytes "bundle"]) (equalBytesCopy "bundle" "y") ∧
      BuildsUnfit (schemaOf [equalBytes "bitfield"]) (equalBytesCopy "bitfield" "y") := by
  constructor
  · apply builds_unfit
    decide +kernel
  · apply builds_unfit
    decide +kernel

end Field

end WireSchema
