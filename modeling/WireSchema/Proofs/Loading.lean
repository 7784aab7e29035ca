import WireSchema.Protocol
import WireSchema.Proofs.Build
import WireSchema.Proofs.Registry

/-!
What a load does to a protocol. It takes in the fields of the document one by one, and then the
document as a whole or not at all: a document that fails after its first field was registered
leaves that field behind.
-/

namespace WireSchema

namespace Registry

/-- The element declares a field that can be built and registered as the registry stands; `later`
is the registry with it. -/
def Admits (r : Registry) (ctx : Context) (placed : Placed) (later : Registry) : Prop :=
  ∃ field,
    (Field.ofNode { context := ctx, registry := r } placed.node ⟨.ns, Window.always⟩).outcome =
      .ok field ∧
    r.insert ctx.name (Name.qualify placed.ns field.name) field = .ok later

def ExtendsIn (schema : String) (earlier later : Registry) : Prop :=
  ∃ added, later.entries = earlier.entries ++ added ∧ ∀ e ∈ added, e.schema = schema

theorem extends_in_refl (schema : String) (r : Registry) : r.ExtendsIn schema r :=
  ⟨[], (List.append_nil _).symm, fun _ member => absurd member List.not_mem_nil⟩

theorem extends_in_trans {schema : String} {a b c : Registry} (first : a.ExtendsIn schema b)
    (second : b.ExtendsIn schema c) : a.ExtendsIn schema c := by
  obtain ⟨added, atB, own⟩ := first
  obtain ⟨more, atC, others⟩ := second
  refine ⟨added ++ more, by rw [atC, atB, List.append_assoc], ?_⟩
  intro e member
  rcases List.mem_append.mp member with old | new
  · exact own e old
  · exact others e new

theorem extends_of_extends_in {schema : String} {earlier later : Registry}
    (grown : earlier.ExtendsIn schema later) : earlier.Extends later := by
  obtain ⟨added, whole, -⟩ := grown
  exact ⟨added, whole.symm⟩

theorem fields_of_other {schema other : String} {earlier later : Registry}
    (grown : earlier.ExtendsIn schema later) (different : other ≠ schema) :
    later.fieldsOf other = earlier.fieldsOf other := by
  obtain ⟨added, whole, own⟩ := grown
  have none : (added.filter fun e => e.schema == other) = [] := by
    apply List.filter_eq_nil_iff.mpr
    intro e member hit
    exact different ((beq_iff_eq.mp hit).symm.trans (own e member))
  rw [fieldsOf, fieldsOf, whole, List.filter_append, none, List.append_nil]

theorem admits_extends_in {r later : Registry} {ctx : Context} {placed : Placed}
    (admitted : r.Admits ctx placed later) : r.ExtendsIn ctx.name later := by
  obtain ⟨field, -, inserted⟩ := admitted
  obtain ⟨-, rfl⟩ := (insert_ok_iff _ _ _ _ _).mp inserted
  exact ⟨_, rfl, by simp⟩

theorem admits_size {r later : Registry} {ctx : Context} {placed : Placed}
    (admitted : r.Admits ctx placed later) : later.size = r.size + 1 := by
  obtain ⟨field, -, inserted⟩ := admitted
  obtain ⟨-, rfl⟩ := (insert_ok_iff _ _ _ _ _).mp inserted
  simp [size]

theorem size_le_of_extends {earlier later : Registry} (grown : earlier.Extends later) :
    earlier.size ≤ later.size :=
  List.IsPrefix.length_le grown

end Registry

namespace Registration

@[simp] theorem fail_registry (r : Registration) (e : Error) :
    (r.fail e).registry = r.registry := by
  unfold fail
  split <;> rfl

/-- One element either has its field registered, or fails and leaves the registry alone. -/
theorem add_cases (ctx : Context) (r : Registration) (placed : Placed) :
    r.registry.Admits ctx placed (add ctx r placed).registry ∨
      ((∀ later, ¬ r.registry.Admits ctx placed later) ∧
        (add ctx r placed).registry = r.registry) := by
  unfold add
  simp only
  split
  · rename_i e failed
    refine Or.inr ⟨?_, fail_registry _ _⟩
    rintro later ⟨field, built, -⟩
    rw [failed] at built
    nomatch built
  · rename_i field built
    split
    · rename_i e taken
      refine Or.inr ⟨?_, fail_registry _ _⟩
      rintro later ⟨other, rebuilt, inserted⟩
      rw [built, Except.ok.injEq] at rebuilt
      subst rebuilt
      rw [taken] at inserted
      nomatch inserted
    · rename_i later inserted
      exact Or.inl ⟨field, built, inserted⟩

theorem add_all_cons (ctx : Context) (r : Registration) (placed : Placed) (rest : List Placed) :
    addAll ctx r (placed :: rest) = addAll ctx (add ctx r placed) rest := rfl

theorem add_all_extends_in (ctx : Context) (r : Registration) (nodes : List Placed) :
    r.registry.ExtendsIn ctx.name (addAll ctx r nodes).registry := by
  induction nodes generalizing r with
  | nil => exact Registry.extends_in_refl _ _
  | cons placed rest ih =>
      rw [add_all_cons]
      rcases add_cases ctx r placed with admitted | ⟨-, same⟩
      · exact Registry.extends_in_trans (Registry.admits_extends_in admitted) (ih _)
      · have later := ih (add ctx r placed)
        rwa [same] at later

theorem add_all_size_iff (ctx : Context) (r : Registration) (nodes : List Placed) :
    (addAll ctx r nodes).registry.size = r.registry.size ↔
      ∀ placed ∈ nodes, ∀ later, ¬ r.registry.Admits ctx placed later := by
  induction nodes generalizing r with
  | nil => simp [addAll]
  | cons placed rest ih =>
      rw [add_all_cons]
      rcases add_cases ctx r placed with admitted | ⟨refused, same⟩
      · -- The registry has grown already, and it does not shrink again.
        have grown := Registry.admits_size admitted
        have kept := Registry.size_le_of_extends (Registry.extends_of_extends_in
          (add_all_extends_in ctx (add ctx r placed) rest))
        constructor
        · intro equal
          omega
        · intro none
          exact absurd admitted (none placed List.mem_cons_self _)
      · -- The rest meets the registry as it was.
        have later := ih (add ctx r placed)
        rw [same] at later
        rw [later]
        simp [refused]

end Registration

namespace Protocol

def loadAll (p : Protocol) (sources : List String) : Protocol :=
  sources.foldl (fun p source => (p.load source).1) p

def after (sources : List String) : Protocol := loadAll {} sources

/-- The outline of a document can be evaluated from its characters. -/
theorem outline_spelled (source : String) {cs : List Char} (spelled : source.toList = cs)
    (p : Protocol) :
    p.outline source = p.outlineOf (Markup.Node.ofEvents (Markup.Event.ofChars cs)) := by
  rw [outline, Markup.Node.ofDocument, Markup.Event.ofDocument, spelled]

theorem after_spelled (source : String) {cs : List Char} (spelled : source.toList = cs) :
    after [source] =
      (takeIn {} (outlineOf {} (Markup.Node.ofEvents (Markup.Event.ofChars cs)))).1 :=
  congrArg (fun outlined => (takeIn {} outlined).1) (outline_spelled source spelled {})

theorem after_append (sources more : List String) :
    after (sources ++ more) = (after sources).loadAll more := by
  simp [after, loadAll]

theorem load_all_induction (holds : Protocol → Prop)
    (step : ∀ p source, holds p → holds (p.load source).1) (p : Protocol) (start : holds p)
    (sources : List String) : holds (p.loadAll sources) := by
  induction sources generalizing p with
  | nil => exact start
  | cons source rest ih => exact ih (p.load source).1 (step p source start)

def registered (p : Protocol) (ctx : Context) (layout : Layout) : Registration :=
  Registration.addAll ctx { registry := p.registry } layout.fields

/-- Everything a load can do, with what it records: it fails at the outline of the document, at one
of its fields or at what comes after them, or it adds the schema of the document. -/
theorem load_stages (p : Protocol) (source : String) :
    (∃ e, (p.outline source).outcome = .error e ∧
      p.load source = p.refuse (p.outline source).log e) ∨
    ∃ ctx layout, (p.outline source).outcome = .ok (ctx, layout) ∧
      let fields := p.registered ctx layout
      let q := { p with registry := fields.registry }
      let built := q.complete ctx layout fields.registry
      let log := (p.outline source).log ++ fields.log
      (∃ e, fields.failure = some e ∧ p.load source = q.refuse log e) ∨
      fields.failure = none ∧
        ((∃ e, built.outcome = .error e ∧ p.load source = q.refuse (log ++ built.log) e) ∨
          ∃ schema, built.outcome = .ok schema ∧ p.load source =
            (⟨p.schemas ++ [schema], fields.registry, p.log ++ (log ++ built.log)⟩, .ok ())) := by
  unfold load takeIn
  simp only
  split
  · rename_i e failed
    exact Or.inl ⟨e, failed, rfl⟩
  · rename_i ctx layout outlined
    refine Or.inr ⟨ctx, layout, outlined, ?_⟩
    split
    · rename_i e withheld
      exact Or.inl ⟨e, withheld, rfl⟩
    · rename_i registered
      refine Or.inr ⟨registered, ?_⟩
      split
      · rename_i e failed
        exact Or.inl ⟨e, failed, rfl⟩
      · rename_i schema built
        exact Or.inr ⟨schema, built, rfl⟩

theorem load_cases (p : Protocol) (source : String) :
    (∃ e log, (p.outline source).outcome = .error e ∧ p.load source = p.refuse log e) ∨
    ∃ ctx layout, (p.outline source).outcome = .ok (ctx, layout) ∧
      ((∃ e log, p.load source =
          { p with registry := (p.registered ctx layout).registry }.refuse log e) ∨
        ∃ schema log, (p.registered ctx layout).failure = none ∧
          (complete { p with registry := (p.registered ctx layout).registry } ctx layout
            (p.registered ctx layout).registry).outcome = .ok schema ∧
          p.load source = (⟨p.schemas ++ [schema], (p.registered ctx layout).registry,
            p.log ++ log⟩, .ok ())) := by
  rcases load_stages p source with ⟨e, failed, refused⟩ | ⟨ctx, layout, outlined, stage⟩
  · exact Or.inl ⟨e, _, failed, refused⟩
  · refine Or.inr ⟨ctx, layout, outlined, ?_⟩
    rcases stage with ⟨e, -, refused⟩ | ⟨registered, ⟨e, -, refused⟩ | ⟨schema, built, added⟩⟩
    · exact Or.inl ⟨e, _, refused⟩
    · exact Or.inl ⟨e, _, refused⟩
    · exact Or.inr ⟨schema, _, registered, built, added⟩

theorem refuse_log (p : Protocol) (log : List Diagnostic) (e : Error) :
    p.log <+: (p.refuse log e).1.log := by
  rw [refuse, List.append_assoc]
  exact List.prefix_append _ _

-- Whether the load fails later on makes no difference to the registry.
theorem load_registry_cases (p : Protocol) (source : String) :
    ((∃ e, (p.outline source).outcome = .error e) ∧ (p.load source).1.registry = p.registry) ∨
      ∃ ctx layout, (p.outline source).outcome = .ok (ctx, layout) ∧
        (p.load source).1.registry = (p.registered ctx layout).registry := by
  rcases load_cases p source with ⟨e, log, none, failed⟩ | ⟨ctx, layout, outlined, failed | added⟩
  · exact Or.inl ⟨⟨e, none⟩, by rw [failed]; rfl⟩
  · obtain ⟨e, log, failed⟩ := failed
    exact Or.inr ⟨ctx, layout, outlined, by rw [failed]; rfl⟩
  · obtain ⟨schema, log, -, -, added⟩ := added
    exact Or.inr ⟨ctx, layout, outlined, by rw [added]⟩

structure Adds (p : Protocol) (source : String) (layout : Layout) (s : Schema) : Prop where
  outlined : (p.outline source).outcome = .ok (s.context, layout)
  completed : (complete { p with registry := (p.registered s.context layout).registry } s.context
    layout (p.registered s.context layout).registry).outcome = .ok s
  accepted : (p.load source).2.isOk = true
  added : (p.load source).1.schemas = p.schemas ++ [s]

theorem complete_context {p : Protocol} {ctx : Context} {layout : Layout} {registry : Registry}
    {s : Schema} (completed : (p.complete ctx layout registry).outcome = .ok s) :
    s.context = ctx := by
  simp only [complete, Build.bind_ok, Build.pure_outcome, Except.ok.injEq] at completed
  obtain ⟨_, -, _, -, _, -, rfl⟩ := completed
  rfl

theorem load_schemas_cases (p : Protocol) (source : String) :
    ((p.load source).1.schemas = p.schemas ∧ p.log <+: (p.load source).1.log) ∨
      ∃ layout s, p.Adds source layout s := by
  rcases load_cases p source with ⟨e, log, -, failed⟩ | ⟨ctx, layout, outlined, failed | added⟩
  · rw [failed]
    exact Or.inl ⟨rfl, refuse_log _ _ _⟩
  · obtain ⟨e, log, failed⟩ := failed
    rw [failed]
    exact Or.inl ⟨rfl, refuse_log _ _ _⟩
  · obtain ⟨s, log, -, completed, added⟩ := added
    obtain rfl := complete_context completed
    exact Or.inr ⟨layout, s, outlined, completed, by rw [added]; rfl, by rw [added]⟩

/-- A schema that was not there at first is that of some document, accepted in the state that the
documents before it led to. -/
theorem load_all_adds (p : Protocol) (sources : List String) (s : Schema)
    (held : s ∈ (p.loadAll sources).schemas) :
    s ∈ p.schemas ∨ ∃ before source rest layout, sources = before ++ source :: rest ∧
      (p.loadAll before).Adds source layout s := by
  induction sources generalizing p with
  | nil => exact Or.inl held
  | cons source rest ih =>
      rcases ih (p.load source).1 held with early | ⟨before, next, others, layout, split, adds⟩
      · rcases load_schemas_cases p source with ⟨same, -⟩ | ⟨layout, own, adds⟩
        · exact Or.inl (same ▸ early)
        · rw [adds.added] at early
          rcases List.mem_append.mp early with old | new
          · exact Or.inl old
          · cases List.mem_singleton.mp new
            exact Or.inr ⟨[], source, rest, layout, rfl, adds⟩
      · exact Or.inr ⟨source :: before, next, others, layout, by rw [split]; rfl, adds⟩

theorem after_adds {sources : List String} {s : Schema} (held : s ∈ (after sources).schemas) :
    ∃ before source rest layout, sources = before ++ source :: rest ∧
      (after before).Adds source layout s :=
  (load_all_adds {} sources s held).resolve_left List.not_mem_nil

theorem load_registry_extends (p : Protocol) (source : String) :
    p.registry.Extends (p.load source).1.registry := by
  rcases load_registry_cases p source with ⟨-, same⟩ | ⟨ctx, layout, -, grown⟩
  · rw [same]
    exact Registry.extends_refl _
  · rw [grown]
    exact Registry.extends_of_extends_in (Registration.add_all_extends_in ctx _ _)

theorem load_all_registry_extends (p : Protocol) (sources : List String) :
    p.registry.Extends (p.loadAll sources).registry := by
  induction sources generalizing p with
  | nil => exact Registry.extends_refl _
  | cons source rest ih =>
      exact Registry.extends_trans (load_registry_extends p source) (ih (p.load source).1)

theorem load_outcome_congr {p q : Protocol} (schemas : q.schemas = p.schemas)
    (registry : q.registry = p.registry) (source : String) :
    (q.load source).2 = (p.load source).2 := by
  obtain ⟨heldSchemas, heldRegistry, log⟩ := p
  obtain ⟨_, _, other⟩ := q
  cases schemas
  cases registry
  -- The diagnostics of the two may differ, but neither the outline nor the schema reads them.
  have outlined : outline ⟨heldSchemas, heldRegistry, other⟩ source =
      outline ⟨heldSchemas, heldRegistry, log⟩ source := rfl
  have completed : ∀ r, complete ⟨heldSchemas, r, other⟩ = complete ⟨heldSchemas, r, log⟩ :=
    fun _ => rfl
  simp only [load, takeIn, outlined, completed]
  split
  · rfl
  · split
    · rfl
    · split <;> rfl

/-- Both protocols answer alike: they have the same schemas, and their registries have the same
length, lead to the same fields from everywhere and list the same fields. -/
structure SameModel (p q : Protocol) : Prop where
  schemas : q.schemas = p.schemas
  size : q.registry.size = p.registry.size
  find : ∀ current ref, q.registry.find? current ref = p.registry.find? current ref
  fields : ∀ schema, q.registry.fieldsOf schema = p.registry.fieldsOf schema

theorem same_model_of_registry {p q : Protocol} (schemas : q.schemas = p.schemas)
    (registry : q.registry = p.registry) : SameModel p q := by
  constructor <;> simp only [schemas, registry, implies_true]

def AdmitsNone (p : Protocol) (source : String) : Prop :=
  ∀ ctx layout, (p.outline source).outcome = .ok (ctx, layout) →
    ∀ placed ∈ layout.fields, ∀ later, ¬ p.registry.Admits ctx placed later

theorem load_size_iff (p : Protocol) (source : String) :
    (p.load source).1.registry.size = p.registry.size ↔ p.AdmitsNone source := by
  rcases load_registry_cases p source with ⟨⟨e, none⟩, same⟩ | ⟨ctx, layout, outlined, grown⟩
  · simp [same, AdmitsNone, none]
  · rw [grown, registered, Registration.add_all_size_iff]
    constructor
    · intro refused ctx' layout' outlined'
      rw [outlined, Except.ok.injEq, Prod.mk.injEq] at outlined'
      obtain ⟨rfl, rfl⟩ := outlined'
      exact refused
    · intro refused
      exact refused ctx layout outlined

theorem load_registry_of_admits_none {p : Protocol} {source : String}
    (none : p.AdmitsNone source) : (p.load source).1.registry = p.registry := by
  have size := (load_size_iff p source).mpr none
  have entries := (load_registry_extends p source).eq_of_length size.symm
  exact (congrArg Registry.mk entries).symm

theorem load_fields_of_other {p : Protocol} {source : String} {ctx : Context} {layout : Layout}
    (outlined : (p.outline source).outcome = .ok (ctx, layout)) {other : String}
    (different : other ≠ ctx.name) :
    (p.load source).1.registry.fieldsOf other = p.registry.fieldsOf other := by
  rcases load_registry_cases p source with ⟨⟨e, none⟩, -⟩ | ⟨ctx', layout', outlined', grown⟩
  · rw [none] at outlined
    nomatch outlined
  · rw [outlined, Except.ok.injEq, Prod.mk.injEq] at outlined'
    obtain ⟨rfl, rfl⟩ := outlined'
    rw [grown]
    exact Registry.fields_of_other (Registration.add_all_extends_in ctx _ _) different

/-- A load that fails adds nothing to the schemas and only adds to the diagnostics. It leaves the
model as it was, and every later document with the answer it would have had, exactly if none of
the fields of the document could be registered; otherwise the registry has grown, by fields of the
schema of the document. -/
theorem failed_load_keeps_model_iff (sources : List String) (source : String)
    (failed : ((after sources).load source).2.isOk = false) :
    (after (sources ++ [source])).schemas = (after sources).schemas ∧
    (after sources).log <+: (after (sources ++ [source])).log ∧
    (∀ ctx layout, ((after sources).outline source).outcome = .ok (ctx, layout) →
      ∀ other, other ≠ ctx.name →
        (after (sources ++ [source])).registry.fieldsOf other =
          (after sources).registry.fieldsOf other) ∧
    ((SameModel (after sources) (after (sources ++ [source])) ∧
        ∀ next, ((after (sources ++ [source])).load next).2 = ((after sources).load next).2) ↔
      (after sources).AdmitsNone source) := by
  have step : after (sources ++ [source]) = ((after sources).load source).1 := by
    rw [after_append]
    rfl
  rw [step]
  generalize after sources = p at failed ⊢
  rcases load_schemas_cases p source with ⟨schemas, log⟩ | ⟨layout, s, adds⟩
  · refine ⟨schemas, log, ?_, ?_, ?_⟩
    · intro ctx layout outlined other different
      exact load_fields_of_other outlined different
    · rintro ⟨same, -⟩
      exact (load_size_iff p source).mp same.size
    · intro none
      have registry := load_registry_of_admits_none none
      exact ⟨same_model_of_registry schemas registry, load_outcome_congr schemas registry⟩
  · exact absurd (failed.symm.trans adds.accepted) (by decide)

def faultyField : String :=
  "<schema name=\"S\"><fields><int name=\"B\" type=\"bogus\"/></fields></schema>"

theorem failed_load_keeps_model_without_fields :
    ((after []).load faultyField).2.isOk = false ∧
      SameModel (after []) (after [faultyField]) ∧
      ∀ next, ((after [faultyField]).load next).2 = ((after []).load next).2 := by
  obtain ⟨failed, size⟩ : ((after []).load faultyField).2.isOk = false ∧
      ((after []).load faultyField).1.registry.size = (after []).registry.size := by
    decide +kernel
  have none := (load_size_iff (after []) faultyField).mp size
  obtain ⟨-, -, -, kept⟩ := failed_load_keeps_model_iff [] faultyField failed
  exact ⟨failed, kept.mpr none⟩

def faultySecondField : String :=
  "<schema name=\"S\"><fields><int name=\"A\" type=\"uint8\"/>" ++
    "<int name=\"B\" type=\"bogus\"/></fields></schema>"

def mendedField : String :=
  "<schema name=\"S\"><fields><int name=\"A\" type=\"uint8\"/>" ++
    "<int name=\"B\" type=\"uint8\"/></fields></schema>"

/-- The field before the faulty one stays behind, and the mended document is refused for it. -/
theorem failed_load_leaves_field_behind :
    ((after []).load faultySecondField).2.isOk = false ∧
      (after []).registry.size = 0 ∧ (after [faultySecondField]).registry.size = 1 ∧
      ¬ SameModel (after []) (after [faultySecondField]) ∧
      ((after []).load mendedField).2.isOk = true ∧
      ((after [faultySecondField]).load mendedField).2.isOk = false := by
  have before : (after []).registry.size = 0 := rfl
  obtain ⟨failed, behind, alone, refused⟩ :
      ((after []).load faultySecondField).2.isOk = false ∧
        (after [faultySecondField]).registry.size = 1 ∧
        ((after []).load mendedField).2.isOk = true ∧
        ((after [faultySecondField]).load mendedField).2.isOk = false := by
    decide +kernel
  refine ⟨failed, before, behind, ?_, alone, refused⟩
  intro same
  have size := same.size
  rw [before, behind] at size
  nomatch size

end Protocol

end WireSchema
