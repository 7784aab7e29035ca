import WireSchema.Proofs.Loading

/-!
Errors and where they are reported. Building records warnings and progress, never an error: an error
ends the build, and what to do with it is left to the load. A load withholds the first failure of a
field until its end and records the later ones as they come, so each failure is on record once, and
the one that is returned is the last entry.
-/

namespace WireSchema

open Markup (Node)

variable {α β : Type}

namespace Build

def Quiet (x : Build α) : Prop := ∀ d ∈ x.log, d.isError = false

@[simp] theorem quiet_pure (a : α) : (pure a : Build α).Quiet :=
  fun _ member => absurd member List.not_mem_nil

@[simp] theorem quiet_lift (x : Except Error α) : (liftM x : Build α).Quiet :=
  fun _ member => absurd member List.not_mem_nil

@[simp] theorem quiet_fail (e : Error) : (fail e : Build α).Quiet :=
  fun _ member => absurd member List.not_mem_nil

@[simp] theorem quiet_warn (line : Nat) (w : Warning) : (warn line w).Quiet := by
  intro d member
  cases List.mem_singleton.mp member
  rfl

@[simp] theorem quiet_warn_each (line : Nat) (ws : List Warning) : (warnEach line ws).Quiet := by
  intro d member
  obtain ⟨w, -, rfl⟩ := List.mem_map.mp member
  rfl

theorem quiet_record {d : Diagnostic} (harmless : d.isError = false) : (record d).Quiet := by
  intro entry member
  cases List.mem_singleton.mp member
  exact harmless

@[simp] theorem quiet_bind {x : Build α} {f : α → Build β} :
    (x >>= f).Quiet ↔ x.Quiet ∧ ∀ a, x.outcome = .ok a → (f a).Quiet := by
  unfold Quiet
  simp only [bind, Build.bind]
  cases x.outcome with
  | error e => simp
  | ok a => simp [or_imp, forall_and]

@[simp] theorem quiet_if {c : Prop} [Decidable c] {x y : Build α} :
    (if c then x else y).Quiet ↔ (c → x.Quiet) ∧ (¬ c → y.Quiet) := by
  split <;> simp [*]

theorem quiet_each {f : α → Build β} (each : ∀ a, (f a).Quiet) (inputs : List α) :
    (Build.each f inputs).Quiet := by
  induction inputs with
  | nil => simp [Build.each]
  | cons input rest ih => simp [Build.each, each, ih]

theorem quiet_gather {f : List β → α → Build β} (each : ∀ known a, (f known a).Quiet)
    (start : List β) (inputs : List α) : (Build.gather f start inputs).Quiet := by
  induction inputs generalizing start with
  | nil => simp [Build.gather]
  | cons input rest ih => simp [Build.gather, each, ih]

theorem quiet_fold {step : β → α → Build β} (each : ∀ b a, (step b a).Quiet) (start : β)
    (inputs : List α) : (inputs.foldlM step start).Quiet := by
  induction inputs generalizing start with
  | nil => simp
  | cons input rest ih => simp [each, ih]

end Build

namespace Declaration

variable {d : Declaration}

@[simp] theorem warn_quiet (w : Warning) : (d.warn w).Quiet := Build.quiet_warn _ _

@[simp] theorem abort_quiet (fault : Fault) : (d.abort fault : Build α).Quiet := Build.quiet_fail _

@[simp] theorem gated_quiet (name : String) : (d.gated name).Quiet := by simp [gated]

@[simp] theorem gated_flag_quiet (name : String) (current : Bool) :
    (d.gatedFlag name current).Quiet := by
  simp [gatedFlag]

@[simp] theorem warn_deprecated_quiet (name : String) : (d.warnDeprecated name).Quiet := by
  simp [warnDeprecated]

theorem read_removed_quiet (window : Window) (current : Bool) :
    (d.readRemoved window current).Quiet := by
  simp only [readRemoved, Build.quiet_if, Build.quiet_bind, Build.quiet_lift, Build.quiet_pure,
    implies_true, true_and]
  intro _ removed _
  cases removed <;> simp

theorem read_code_source_quiet (c : Profile) : (d.readCodeSource c).Quiet := by
  have copied : d.readCopySource.Quiet := by
    simp only [readCopySource, Build.quiet_bind, gated_quiet, Build.quiet_if, Build.quiet_lift,
      Build.quiet_pure, implies_true, true_and, and_true]
    intro _ _ _ source _
    split <;> simp
  cases origin : c.reusedFrom <;> simp [readCodeSource, copied, origin]

theorem read_profile_quiet (c : Profile) : (d.readProfile c).Quiet := by
  have window : ∀ current, (d.readWindow current).Quiet := by simp [readWindow]
  have overridden : ∀ o, (d.readOverrides o).Quiet := by simp [readOverrides, readOverride]
  simp [readProfile, window, read_removed_quiet, overridden, read_code_source_quiet]

theorem read_bit_length_quiet (isVariable : Bool) (length current : Nat) :
    (d.readBitLength isVariable length current).Quiet := by
  simp only [readBitLength, Build.quiet_if, Build.quiet_bind, Build.quiet_lift, Build.quiet_pure,
    warn_quiet, abort_quiet, implies_true, true_and, and_true]
  intro _ _ bits _
  cases bits <;> simp

theorem read_storage_quiet (s : Storage) : (d.readStorage s).Quiet := by
  simp [readStorage, read_bit_length_quiet]

theorem read_non_unique_specials_quiet (current : Bool) :
    (d.readNonUniqueSpecials current).Quiet := by
  simp only [readNonUniqueSpecials, Build.quiet_bind, Build.quiet_lift, true_and]
  intro allowed _
  cases allowed <;> simp

theorem read_default_valid_quiet (read : String → String → Except Error α) :
    (d.readDefaultValid read).Quiet := by
  simp [readDefaultValid]

theorem read_valid_values_quiet (profile : Profile) (kind : Kind)
    (read : String → String → Except Error α) (lt : α → α → Bool) (defaultValue : α)
    (current : List (Versioned α)) :
    (d.readValidValues profile kind read lt defaultValue current).Quiet := by
  simp only [readValidValues, Build.quiet_bind, Build.quiet_if, Build.quiet_lift, Build.quiet_pure,
    warn_quiet, implies_true, true_and, and_true]
  intro _ _ _ _ _ _ chosen _
  cases chosen <;> simp

theorem read_contents_quiet (profile : Profile) (kind : Kind)
    (read : String → String → Except Error α) (lt : α → α → Bool) (defaultValue : α)
    (current : List (Versioned α)) :
    (d.readContents profile kind read lt defaultValue current).Quiet := by
  simp [readContents, read_valid_values_quiet]

theorem read_valid_condition_quiet (members : List Field) (current : Option Condition) :
    (d.readValidCondition members current).Quiet := by
  simp only [readValidCondition, Build.quiet_bind, Build.quiet_if, Build.quiet_lift,
    Build.quiet_pure, warn_quiet, implies_true, true_and]
  intro _ _ condition _
  cases condition <;> simp

section Inside

variable (inside : ∀ node parent, (d.build node parent).Quiet)

include inside

theorem read_members_quiet (kind : Kind) (profile : Profile) :
    (d.readMembers kind profile).Quiet := by
  simp [readMembers, buildAll, Build.quiet_each, inside]

theorem replace_members_quiet (kind : Kind) (profile : Profile) (members : List Field) :
    (d.replaceMembers kind profile members).Quiet := by
  have replacements : (d.readReplacements kind profile).Quiet := by
    unfold readReplacements
    split <;> simp [buildAll, Build.quiet_each, inside]
  simp [replaceMembers, replacements]

theorem read_slot_quiet (name : String) (parent : Parent) : (d.readSlot name parent).Quiet := by
  simp only [readSlot, Build.quiet_bind, Build.quiet_lift, true_and]
  intro ref _
  split
  · simp
  · simp
  · split <;> simp [inside]
  · simp

theorem read_wrapped_quiet (name : String) (parent : Parent) :
    (d.readWrapped name parent).Quiet := by
  simp only [readWrapped, Build.quiet_bind, read_slot_quiet inside, true_and]
  intro slot _
  split <;> simp [inside]

theorem read_prefix_quiet (name : String) (parent : Parent) : (d.readPrefix name parent).Quiet := by
  simp only [readPrefix, Build.quiet_bind, Build.quiet_lift, true_and]
  intro ref _
  split
  · simp
  · simp only [Build.quiet_bind, read_slot_quiet inside, true_and]
    intro slot _
    cases slot <;> simp

end Inside

end Declaration

section Kinds

variable {d : Declaration} (profile : Profile)

theorem IntSpec.read_quiet (spec : IntSpec) : (spec.read d profile).Quiet := by
  simp [IntSpec.read, IntSpec.readValidRanges, Declaration.read_storage_quiet,
    Declaration.read_non_unique_specials_quiet, Declaration.read_default_valid_quiet]

theorem FloatSpec.read_quiet (spec : FloatSpec) : (spec.read d profile).Quiet := by
  simp [FloatSpec.read, FloatSpec.readValidRanges, Declaration.read_non_unique_specials_quiet,
    Declaration.read_default_valid_quiet]

theorem EnumSpec.read_quiet (spec : EnumSpec) : (spec.read d profile).Quiet := by
  simp [EnumSpec.read, Declaration.read_storage_quiet]

theorem SetSpec.read_quiet (spec : SetSpec) : (spec.read d profile).Quiet := by
  simp [SetSpec.read, Declaration.read_bit_length_quiet]

theorem RefSpec.read_quiet (spec : RefSpec Field) : (spec.read d profile).Quiet := by
  simp [RefSpec.read, Declaration.read_bit_length_quiet]

variable (inside : ∀ node parent, (d.build node parent).Quiet)

include inside

theorem StringSpec.read_quiet (spec : StringSpec Field) : (spec.read d profile).Quiet := by
  have ends : (readDelimiter d profile spec.delimiter).Quiet := by
    simp only [readDelimiter, Build.quiet_bind, Build.quiet_lift,
      Declaration.read_prefix_quiet inside, true_and]
    intro _ _ _ _ _ _
    split <;> simp
  simp [StringSpec.read, ends, Declaration.read_contents_quiet]

theorem DataSpec.read_quiet (spec : DataSpec Field) : (spec.read d profile).Quiet := by
  have ends : (readDelimiter d profile spec.delimiter).Quiet := by
    simp only [readDelimiter, Build.quiet_bind, Build.quiet_lift,
      Declaration.read_prefix_quiet inside, true_and]
    intro _ _ _ _
    split <;> simp
  simp [DataSpec.read, ends, Declaration.read_contents_quiet]

theorem ListSpec.read_quiet (spec : ListSpec Field) : (spec.read d profile).Quiet := by
  have terminator : ∀ parent, (readTerminator d parent).Quiet := by
    intro parent
    simp only [readTerminator, Build.quiet_if, Build.quiet_bind, Build.quiet_lift, Build.quiet_pure,
      Declaration.warn_quiet, implies_true, true_and]
    intro _ _ ref _
    split <;> simp [Declaration.read_slot_quiet inside]
  have repetition : ∀ parent current, (readRepetition d parent current).Quiet := by
    intro parent current
    simp only [readRepetition, Build.quiet_bind, Build.quiet_lift,
      Declaration.read_prefix_quiet inside, terminator, true_and]
    intro _ _ _ _ _ _ _ _
    split <;> simp
  simp only [ListSpec.read, Build.quiet_bind, Declaration.read_wrapped_quiet inside, true_and]
  intro declared _
  split <;> simp [repetition, Declaration.read_prefix_quiet inside]

theorem OptionalSpec.read_quiet (spec : OptionalSpec Field) : (spec.read d profile).Quiet := by
  have existence : (readExistence d spec.condition).Quiet := by
    simp only [readExistence, Build.quiet_bind, Build.quiet_lift, true_and]
    intro condition _
    cases condition <;> simp
  simp only [OptionalSpec.read, Build.quiet_bind, Build.quiet_lift,
    Declaration.warn_deprecated_quiet, Declaration.gated_flag_quiet,
    Declaration.read_wrapped_quiet inside, true_and]
  intro _ _ _ _ _ _ _ _ declared _
  split <;> simp [existence]

theorem BitfieldSpec.read_quiet (spec : BitfieldSpec Field) : (spec.read d profile).Quiet := by
  simp [BitfieldSpec.read, readMembers, Declaration.takeMembers,
    Declaration.read_members_quiet inside, Declaration.replace_members_quiet inside,
    Declaration.read_valid_condition_quiet]

theorem BundleSpec.read_quiet (spec : BundleSpec Field) : (spec.read d profile).Quiet := by
  simp [BundleSpec.read, readMembers, Declaration.takeMembers,
    Declaration.read_members_quiet inside, Declaration.replace_members_quiet inside,
    Declaration.read_valid_condition_quiet]

theorem VariantSpec.read_quiet (spec : VariantSpec Field) : (spec.read d profile).Quiet := by
  simp [VariantSpec.read, Declaration.read_members_quiet inside,
    Declaration.replace_members_quiet inside]

theorem Declaration.read_payload_quiet (payload : Payload Field) :
    (d.readPayload profile payload).Quiet := by
  cases payload with
  | int spec => simp [readPayload, IntSpec.read_quiet]
  | float spec => simp [readPayload, FloatSpec.read_quiet]
  | enum spec => simp [readPayload, EnumSpec.read_quiet]
  | set spec => simp [readPayload, SetSpec.read_quiet]
  | bitfield spec => simp [readPayload, BitfieldSpec.read_quiet profile inside]
  | bundle spec => simp [readPayload, BundleSpec.read_quiet profile inside]
  | string spec => simp [readPayload, StringSpec.read_quiet profile inside]
  | data spec => simp [readPayload, DataSpec.read_quiet profile inside]
  | list spec => simp [readPayload, ListSpec.read_quiet profile inside]
  | ref spec => simp [readPayload, RefSpec.read_quiet]
  | optional spec => simp [readPayload, OptionalSpec.read_quiet profile inside]
  | variant spec => simp [readPayload, VariantSpec.read_quiet profile inside]

end Kinds

theorem Declaration.warn_unknown_quiet (d : Declaration) (kind : Kind) :
    (d.warnUnknown kind).Quiet := by
  simp only [warnUnknown, Build.quiet_bind, Build.quiet_warn_each, true_and]
  intro _ _
  apply Build.quiet_fold
  simp

namespace Field

theorem build_within_quiet (env : Environment) (depth : Nat) (tag : String) (node : Node)
    (parent : Parent) : (buildWithin env depth tag node parent).Quiet := by
  induction depth generalizing tag node parent with
  | zero => exact Build.quiet_fail _
  | succ depth ih =>
      unfold buildWithin
      split
      · exact Build.quiet_fail _
      · have built : ∀ name, (Build.record ⟨some node.line, .fieldBuilt ‹Kind› name⟩).Quiet :=
          fun _ => Build.quiet_record rfl
        simp [buildKind, Declaration.read_profile_quiet, Declaration.read_payload_quiet, ih,
          Declaration.warn_unknown_quiet, built]

theorem of_node_quiet (env : Environment) (node : Node) (parent : Parent) :
    (ofNode env node parent).Quiet :=
  build_within_quiet env _ _ _ _

end Field

section Documents

theorem Context.of_root_quiet (root : Node) : (Context.ofRoot root).Quiet := by
  simp [Context.ofRoot]

namespace Layout

mutual
theorem add_quiet (ns : String) (l : Layout) (node : Node) : (add ns l node).Quiet := by
  obtain ⟨name, attributes, children, text, line⟩ := node
  have skipped : ∀ name, (Build.record ⟨some line, .elementSkipped name⟩).Quiet :=
    fun _ => Build.quiet_record rfl
  unfold add
  split
  case h_6 => simp [add_all_quiet _ _ children]
  all_goals simp [skipped]

theorem add_all_quiet (ns : String) (l : Layout) (nodes : List Node) :
    (addAll ns l nodes).Quiet := by
  cases nodes with
  | nil => simp [addAll]
  | cons node rest => simp [addAll, add_quiet ns l node, add_all_quiet ns _ rest]
end

end Layout

namespace Field

theorem read_group_quiet (env : Environment) (node : Node) (parent : Parent)
    (inherited : List Field) : (readGroup env node parent inherited).Quiet := by
  simp [readGroup, ofNodes, Build.quiet_each, of_node_quiet]

end Field

namespace Interface

theorem read_quiet (dir : Directory) (placed : Placed) : (read dir placed).Quiet := by
  have built : ∀ line name, (Build.record ⟨some line, .interfaceBuilt name⟩).Quiet :=
    fun _ _ => Build.quiet_record rfl
  simp [read, Field.read_group_quiet, built]

theorem read_all_quiet (dir : Directory) (nodes : List Placed) : (readAll dir nodes).Quiet :=
  Build.quiet_gather (fun _ _ => read_quiet _ _) _ _

end Interface

namespace Message

theorem replace_fields_quiet (dir : Directory) (line : Nat) (parent : Parent)
    (fields : List Field) (groups : List Node) :
    (replaceFields dir line parent fields groups).Quiet := by
  induction groups generalizing fields with
  | nil => simp [replaceFields]
  | cons group rest ih =>
      simp [replaceFields, Field.ofNodes, Build.quiet_each, Field.of_node_quiet, ih]

theorem read_quiet (dir : Directory) (placed : Placed) : (read dir placed).Quiet := by
  have started : ∀ node props, (start dir node props).Quiet := by
    intro node props
    simp only [start, Build.quiet_bind, Build.quiet_lift, true_and]
    intro ref _
    cases ref <;> simp
  have removed : ∀ node props window current, (readRemoved node props window current).Quiet := by
    intro node props window current
    simp only [readRemoved, Build.quiet_bind, Build.quiet_lift, true_and]
    intro flag _
    cases flag <;> simp
  have checked : ∀ node props m, (checkMinLength dir node props m).Quiet := by
    intro node props m
    simp only [checkMinLength, Build.quiet_bind, Build.quiet_lift, true_and]
    intro expected _
    cases expected with
    | none => simp
    | some raw => cases length : Literal.unsigned? raw <;> simp [length]
  have built : ∀ line name id, (Build.record ⟨some line, .messageBuilt name id⟩).Quiet :=
    fun _ _ _ => Build.quiet_record rfl
  simp [read, started, removed, replace_fields_quiet, Field.read_group_quiet, checked, built]

theorem read_all_quiet (dir : Directory) (nodes : List Placed) : (readAll dir nodes).Quiet := by
  have each : (readEach dir nodes).Quiet :=
    Build.quiet_gather (fun _ _ => by simp [readNew, read_quiet]) _ _
  simp [readAll, each]

end Message

namespace Protocol

theorem outline_quiet (p : Protocol) (source : String) : (p.outline source).Quiet := by
  simp [outline, outlineOf, Context.of_root_quiet, Layout.ofRoot, Layout.add_all_quiet]

theorem complete_quiet (p : Protocol) (ctx : Context) (layout : Layout) (registry : Registry) :
    (p.complete ctx layout registry).Quiet := by
  have loaded : ∀ name fields interfaces messages,
      (Build.record ⟨none, .schemaLoaded name fields interfaces messages⟩).Quiet :=
    fun _ _ _ _ => Build.quiet_record rfl
  simp [complete, Interface.read_all_quiet, Message.read_all_quiet, loaded]

end Protocol

end Documents

namespace Diagnostic

def error? (d : Diagnostic) : Option Error :=
  match d.notice with
  | .failure e => some e
  | _ => none

theorem is_error_iff (d : Diagnostic) : d.isError = d.error?.isSome := by
  obtain ⟨line, notice⟩ := d
  cases notice <;> rfl

end Diagnostic

def errorsIn (log : List Diagnostic) : List Error := log.filterMap Diagnostic.error?

@[simp] theorem errors_in_append (log more : List Diagnostic) :
    errorsIn (log ++ more) = errorsIn log ++ errorsIn more :=
  List.filterMap_append

@[simp] theorem errors_in_failure (line : Option Nat) (e : Error) :
    errorsIn [⟨line, .failure e⟩] = [e] := rfl

theorem errors_in_length (log : List Diagnostic) :
    (errorsIn log).length = log.countP Diagnostic.isError := by
  rw [errorsIn, List.length_filterMap_eq_countP]
  exact List.countP_congr fun d _ => by rw [Diagnostic.is_error_iff]

theorem errors_in_nil_iff {log : List Diagnostic} :
    errorsIn log = [] ↔ ∀ d ∈ log, d.isError = false := by
  simp [errorsIn, List.filterMap_eq_nil_iff, Diagnostic.is_error_iff]

theorem errors_in_quiet {x : Build α} (quiet : x.Quiet) : errorsIn x.log = [] :=
  errors_in_nil_iff.mpr quiet

namespace Registry

def enter (r : Registry) (ctx : Context) (placed : Placed) : Except Error Registry := do
  let field ←
    (Field.ofNode { context := ctx, registry := r } placed.node ⟨.ns, Window.always⟩).outcome
  r.insert ctx.name (Name.qualify placed.ns field.name) field

def refusals (ctx : Context) : Registry → List Placed → List Error
  | _, [] => []
  | r, placed :: rest =>
      match r.enter ctx placed with
      | .ok later => refusals ctx later rest
      | .error e => e :: refusals ctx r rest

end Registry

namespace Registration

/-- The first of the errors so far is withheld and the others are on record. -/
structure Accounts (r : Registration) (refused : List Error) : Prop where
  withheld : r.failure = refused.head?
  recorded : errorsIn r.log = refused.tail

theorem quiet_accounts {r : Registration} {refused : List Error} (accounts : r.Accounts refused)
    {log : List Diagnostic} (quiet : errorsIn log = []) :
    Accounts { r with log := r.log ++ log } refused := by
  refine ⟨accounts.withheld, ?_⟩
  rw [errors_in_append, quiet, List.append_nil]
  exact accounts.recorded

theorem fail_accounts {r : Registration} {refused : List Error} (accounts : r.Accounts refused)
    (e : Error) : (r.fail e).Accounts (refused ++ [e]) := by
  obtain ⟨registry, log, failure⟩ := r
  obtain ⟨withheld, recorded⟩ := accounts
  -- The first error is withheld, and every later one is put on record.
  cases refused with
  | nil =>
      cases withheld
      exact ⟨rfl, recorded⟩
  | cons first later =>
      cases withheld
      refine ⟨rfl, ?_⟩
      simp only [fail, errors_in_append, errors_in_failure]
      rw [recorded]
      rfl

/-- What one element does: its field is registered, or it fails. Neither adds an error to the record
on the way. -/
theorem add_outcome (ctx : Context) (r : Registration) (placed : Placed) :
    ∃ log, errorsIn log = [] ∧
      ((∃ later, r.registry.enter ctx placed = .ok later ∧
          add ctx r placed = { r with registry := later, log := r.log ++ log }) ∨
        ∃ e, r.registry.enter ctx placed = .error e ∧
          add ctx r placed = fail { r with log := r.log ++ log } e) := by
  refine ⟨_, errors_in_quiet (Field.of_node_quiet { context := ctx, registry := r.registry }
    placed.node ⟨.ns, Window.always⟩), ?_⟩
  unfold Registry.enter add
  simp only
  split
  · rename_i e failed
    exact Or.inr ⟨e, by rw [failed]; rfl, rfl⟩
  · rename_i field built
    rw [built]
    split
    · rename_i e taken
      exact Or.inr ⟨e, taken, rfl⟩
    · rename_i later inserted
      exact Or.inl ⟨later, inserted, rfl⟩

theorem add_all_accounts (ctx : Context) {r : Registration} {refused : List Error}
    (accounts : r.Accounts refused) (nodes : List Placed) :
    (addAll ctx r nodes).Accounts (refused ++ r.registry.refusals ctx nodes) := by
  induction nodes generalizing r refused with
  | nil =>
      rw [Registry.refusals, List.append_nil]
      exact accounts
  | cons placed rest ih =>
      obtain ⟨log, quiet, ⟨later, admitted, added⟩ | ⟨e, denied, added⟩⟩ := add_outcome ctx r placed
      · -- A field more changes what later elements find, but not which errors there are so far.
        rw [add_all_cons, Registry.refusals, admitted, added]
        apply ih
        exact { quiet_accounts accounts quiet with }
      · have next := ih (fail_accounts (quiet_accounts accounts quiet) e)
        rw [fail_registry, List.append_assoc] at next
        rw [add_all_cons, Registry.refusals, denied, added]
        exact next

end Registration

namespace Protocol

def refusals (p : Protocol) (source : String) : List Error :=
  match (p.outline source).outcome with
  | .ok (ctx, layout) => p.registry.refusals ctx layout.fields
  | .error _ => []

theorem registered_accounts (p : Protocol) (ctx : Context) (layout : Layout) :
    (p.registered ctx layout).Accounts (p.registry.refusals ctx layout.fields) := by
  have start : Registration.Accounts { registry := p.registry } [] := ⟨rfl, rfl⟩
  have done := Registration.add_all_accounts ctx start layout.fields
  rwa [List.nil_append] at done

/-- What a load adds to the record: nothing that is an error if the document is accepted. Otherwise
the error that is returned comes last, and it is the first one of the fields that fail if there are
any; the errors of the others come before it. -/
theorem load_errors (p : Protocol) (source : String) :
    ∃ added, (p.load source).1.log = p.log ++ added ∧
      ((p.load source).2 = .ok () ∧ errorsIn added = [] ∨
        ∃ e before, (p.load source).2 = .error e ∧ added = before ++ [⟨none, .failure e⟩] ∧
          errorsIn before = (p.refusals source).tail ∧
          ∀ first ∈ (p.refusals source).head?, first = e) := by
  have outlined := errors_in_quiet (p.outline_quiet source)
  rcases load_stages p source with ⟨e, failed, refused⟩ | ⟨ctx, layout, isOutline, stage⟩
  · have none : p.refusals source = [] := by rw [refusals, failed]
    rw [refused, none]
    refine ⟨_, List.append_assoc _ _ _, Or.inr ⟨e, _, rfl, rfl, outlined, ?_⟩⟩
    simp
  · have own : p.refusals source = p.registry.refusals ctx layout.fields := by
      rw [refusals, isOutline]
    obtain ⟨withheld, recorded⟩ := p.registered_accounts ctx layout
    rw [← own] at withheld recorded
    rcases stage with ⟨e, isWithheld, refused⟩ | ⟨allRegistered, built⟩
    · rw [isWithheld] at withheld
      rw [refused, ← withheld]
      refine ⟨_, List.append_assoc _ _ _, Or.inr ⟨e, _, rfl, rfl, ?_, ?_⟩⟩
      · rw [errors_in_append, outlined, recorded, List.nil_append]
      · simp
    · -- Nothing is withheld, so no field failed, and what comes after the fields is quiet.
      have none : p.refusals source = [] := by
        rw [allRegistered] at withheld
        exact List.head?_eq_none_iff.mp withheld.symm
      have completed := errors_in_quiet (complete_quiet
        { p with registry := (p.registered ctx layout).registry } ctx layout
        (p.registered ctx layout).registry)
      rw [none] at recorded ⊢
      rcases built with ⟨e, -, refused⟩ | ⟨schema, -, accepted⟩
      · rw [refused]
        refine ⟨_, List.append_assoc _ _ _, Or.inr ⟨e, _, rfl, rfl, ?_, ?_⟩⟩
        · rw [errors_in_append, errors_in_append, outlined, recorded, completed]
          rfl
        · simp
      · rw [accepted]
        refine ⟨_, rfl, Or.inl ⟨rfl, ?_⟩⟩
        rw [errors_in_append, errors_in_append, outlined, recorded, completed]
        rfl

theorem has_errors_iff (p : Protocol) : p.hasErrors = true ↔ errorsIn p.log ≠ [] := by
  rw [hasErrors, List.any_eq_true, ← List.countP_pos_iff, ← errors_in_length, List.length_pos_iff]

theorem load_has_errors (p : Protocol) (source : String) :
    (p.load source).1.hasErrors = true ↔
      p.hasErrors = true ∨ (p.load source).2.isOk = false := by
  obtain ⟨added, appended, accepted | refused⟩ := load_errors p source
  · rw [has_errors_iff, appended, errors_in_append, accepted.2, accepted.1, has_errors_iff]
    simp [Except.isOk, Except.toBool]
  · obtain ⟨e, before, failed, rfl, -⟩ := refused
    rw [has_errors_iff, appended, failed]
    simp [Except.isOk, Except.toBool]

def outcomes (p : Protocol) : List String → List (Except Error Unit)
  | [] => []
  | source :: rest => (p.load source).2 :: (p.load source).1.outcomes rest

theorem load_all_has_errors (p : Protocol) (sources : List String) :
    (p.loadAll sources).hasErrors = true ↔
      p.hasErrors = true ∨ ∃ outcome ∈ p.outcomes sources, outcome.isOk = false := by
  induction sources generalizing p with
  | nil => simp [loadAll, outcomes]
  | cons source rest ih =>
      have step : p.loadAll (source :: rest) = (p.load source).1.loadAll rest := rfl
      rw [step, ih, load_has_errors, or_assoc]
      simp [outcomes]

/-- Errors are reported once each. A load only adds to the record, and no error if the document is
accepted. Otherwise the last entry is the error that is returned, and as many errors are added as
fields of the document failed, or one if none did: those of the fields after the first that failed
in their order, and then the one that is returned, which is that of the first. So errors are on
record exactly if some load failed. -/
theorem errors_reported_once :
    (∀ (p : Protocol) (source : String), ∃ added, (p.load source).1.log = p.log ++ added ∧
      ((p.load source).2 = .ok () → ∀ d ∈ added, d.level ≠ .error) ∧
      ∀ e, (p.load source).2 = .error e →
        (∃ last, added.getLast? = some last ∧ last.level = .error ∧ last.message = e.message) ∧
        (∀ first ∈ (p.refusals source).head?, first = e) ∧
        errorsIn added = (p.refusals source).tail ++ [e] ∧
        added.countP Diagnostic.isError =
          if 0 < (p.refusals source).length then (p.refusals source).length else 1) ∧
    ∀ sources, (after sources).hasErrors = true ↔
      ∃ outcome ∈ outcomes {} sources, outcome.isOk = false := by
  constructor
  · intro p source
    obtain ⟨added, appended, ⟨accepted, none⟩ | ⟨e, before, failed, rfl, recorded, returned⟩⟩ :=
      load_errors p source
    · refine ⟨added, appended, ?_, ?_⟩
      · intro _ d member isError
        have harmless := errors_in_nil_iff.mp none d member
        rw [Diagnostic.isError, isError] at harmless
        nomatch harmless
      · intro e failed
        rw [accepted] at failed
        nomatch failed
    · have errors : errorsIn (before ++ [⟨none, .failure e⟩]) = (p.refusals source).tail ++ [e] := by
        rw [errors_in_append, recorded, errors_in_failure]
      refine ⟨_, appended, ?_, ?_⟩
      · intro accepted
        rw [failed] at accepted
        nomatch accepted
      · rintro e' failed'
        cases failed.symm.trans failed'
        refine ⟨⟨_, List.getLast?_concat, rfl, rfl⟩, returned, errors, ?_⟩
        rw [← errors_in_length, errors]
        cases p.refusals source <;> simp
  · intro sources
    have start : hasErrors {} = false := rfl
    rw [after, load_all_has_errors, start]
    simp

def faultyFields : String := r#"<schema name="S"><fields>
  <int name="A" type="bogus"/><int name="B" type="uint8"/><int name="C"/>
</fields></schema>"#

theorem faulty_fields_reported :
    ∃ e added, ((after []).load faultyFields).2 = .error e ∧
      ((after []).load faultyFields).1.log = (after []).log ++ added ∧
      (∃ last, added.getLast? = some last ∧ last.level = .error ∧ last.message = e.message) ∧
      added.countP Diagnostic.isError = 2 ∧ (after [faultyFields]).hasErrors = true := by
  obtain ⟨loads, runs⟩ := errors_reported_once
  obtain ⟨failed, two⟩ : ((after []).load faultyFields).2.isOk = false ∧
      ((after []).refusals faultyFields).length = 2 := by
    rw [load, refusals, outline_spelled faultyFields String.toList_ofList]
    decide +kernel
  obtain ⟨added, appended, -, refused⟩ := loads (after []) faultyFields
  cases outcome : ((after []).load faultyFields).2 with
  | ok =>
      rw [outcome] at failed
      cases failed
  | error e =>
      obtain ⟨last, -, -, count⟩ := refused e outcome
      rw [two] at count
      refine ⟨e, added, rfl, appended, last, count, (runs [faultyFields]).mpr ?_⟩
      exact ⟨_, List.mem_singleton_self _, failed⟩

end Protocol

end WireSchema
