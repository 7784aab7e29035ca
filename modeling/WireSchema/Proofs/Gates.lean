import WireSchema.Proofs.Paths
import WireSchema.Proofs.Verification

/-!
Conditions in other environments. What fits stays where more can be designated and more is supported,
so a later DSL version and further interfaces break no condition. And the DSL version is a gate that
nothing passes: a mark decides the kind of all that its operand designates, so a marked operand fits
only where the mark is asked for and the gate is checked.
-/

namespace WireSchema

namespace Environment

/-- The second environment is for the same schema and the same registered fields, supports what the
first one does, and has its interfaces among its own. -/
structure Widens (env wider : Environment) : Prop where
  registry : wider.registry = env.registry
  name : wider.context.name = env.context.name
  supports : ∀ feature, env.supports feature = true → wider.supports feature = true
  interfaces : ∀ i ∈ env.interfaces, i ∈ wider.interfaces

/-- A DSL version that is no earlier; zero stands for the newest one. -/
theorem widens_upgraded (env : Environment) {dsl : Nat}
    (later : dsl = 0 ∨ env.dsl ≠ 0 ∧ env.dsl ≤ dsl) :
    env.Widens { env with context := { env.context with dslVersion := dsl } } := by
  refine ⟨rfl, rfl, ?_, fun _ declared => declared⟩
  intro feature supported
  simp only [supports, Context.supports, Context.reaches, Environment.dsl, Bool.or_eq_true,
    beq_iff_eq, decide_eq_true_eq] at supported later ⊢
  omega

theorem widens_declared (env : Environment) {interfaces : List Interface}
    (kept : ∀ i ∈ env.interfaces, i ∈ interfaces) :
    env.Widens { env with interfaces := interfaces } :=
  ⟨rfl, rfl, fun _ supported => supported, kept⟩

variable {env wider : Environment}

/-- A value that a text may name in an environment it may name in a wider one. -/
theorem named_in_wider {α : Type} (widens : env.Widens wider)
    (read : Registry → String → String → Option α) {ref : String}
    (named : (if env.readsReferences ref then read env.registry env.context.name ref
      else none).isSome = true) :
    (if wider.readsReferences ref then read wider.registry wider.context.name ref
      else none).isSome = true := by
  split at named
  · rename_i reads
    have still : wider.readsReferences ref = true := by
      rw [readsReferences, Bool.and_eq_true] at reads ⊢
      exact ⟨widens.supports _ reads.1, reads.2⟩
    rw [if_pos still, widens.registry, widens.name]
    exact named
  · cases named

end Environment

namespace Field

variable {env wider : Environment}

theorem compares_in_wider (widens : env.Widens wider) {f : Field} {value : String}
    (compares : f.comparesToText value env = true) : f.comparesToText value wider = true := by
  unfold comparesToText at compares ⊢
  rw [Bool.or_eq_true] at compares ⊢
  refine compares.imp_right ?_
  intro named
  split at named
  · rw [widens.registry, widens.name]
    exact named
  · cases kind : f.dereferenced.kind <;> rw [kind] at named
    case int | enum => exact Environment.named_in_wider widens Registry.numeric? named
    case float => exact Environment.named_in_wider widens Registry.real? named
    case set => exact Environment.named_in_wider widens Registry.bool? named
    all_goals cases named

end Field

theorem Operand.levels_wider {o : Operand} {siblings : List Field} {few more : List Interface}
    (kept : ∀ i ∈ few, i ∈ more) :
    ∀ fields ∈ o.levels siblings few, fields ∈ o.levels siblings more := by
  unfold levels
  cases o.scope with
  | sibling => exact fun _ member => member
  | interface =>
      intro fields member
      obtain ⟨i, declared, rfl⟩ := List.mem_map.mp member
      exact List.mem_map_of_mem (kept i declared)

theorem Operand.targets_wider {o : Operand} {siblings : List Field} {few more : List Interface}
    (kept : ∀ i ∈ few, i ∈ more) {t : Target} (found : t ∈ o.targets siblings few) :
    t ∈ o.targets siblings more := by
  rw [mem_targets_iff] at found ⊢
  obtain ⟨⟨fields, level, resolved⟩, valid⟩ := found
  exact ⟨⟨fields, levels_wider kept fields level, resolved⟩, valid⟩

namespace Expression

variable {siblings : List Field} {env wider : Environment} {e : Expression}

theorem fits_in_wider (widens : env.Widens wider) (fits : e.Fits siblings env) :
    e.Fits siblings wider := by
  have more {o : Operand} {t : Target} (found : t ∈ o.targets siblings env.interfaces) :
      t ∈ o.targets siblings wider.interfaces := Operand.targets_wider widens.interfaces found
  cases fits with
  | check gate found checkable =>
      exact .check (fun asked => widens.supports _ (gate asked)) (more found) checkable
  | size asked gate found integer =>
      exact .size asked (widens.supports _ gate) (more found) integer
  | @value left op right f asked found accepts =>
      refine .value asked (more found) ?_
      cases right with
      | literal value => exact Field.compares_in_wider widens accepts
      | operand o =>
          obtain ⟨g, foundRight, compares⟩ := accepts
          exact ⟨g, more foundRight, compares⟩

end Expression

theorem Condition.verify_in_wider {c : Condition} {siblings : List Field}
    {env wider : Environment} {place : Place} (widens : env.Widens wider)
    (verified : c.verify siblings env place = .ok ()) (elsewhere : Place) :
    c.verify siblings wider elsewhere = .ok () := by
  rw [verify_iff] at verified ⊢
  refine ⟨verified.1, ?_⟩
  intro e member
  obtain ⟨supported, fits⟩ := e.verify_ok_iff.mp (verified.2 e member)
  refine e.verify_ok_iff.mpr ⟨?_, Expression.fits_in_wider widens fits⟩
  exact fun o inside scope => widens.supports _ (supported o inside scope)

/-- A condition that is verified in an environment is verified in every wider one: with a later DSL
version, and with one more interface at any place, whatever its fields are. -/
theorem Condition.verified_stays_verified {c : Condition} {siblings : List Field}
    {env : Environment} {place : Place} (verified : c.verify siblings env place = .ok ())
    (elsewhere : Place) :
    (∀ wider, env.Widens wider → c.verify siblings wider elsewhere = .ok ()) ∧
    (∀ dsl, dsl = 0 ∨ env.dsl ≠ 0 ∧ env.dsl ≤ dsl →
      c.verify siblings { env with context := { env.context with dslVersion := dsl } } elsewhere =
        .ok ()) ∧
    ∀ front i back, env.interfaces = front ++ back →
      c.verify siblings { env with interfaces := front ++ i :: back } elsewhere = .ok () := by
  have wider {later : Environment} (widens : env.Widens later) :=
    verify_in_wider widens verified elsewhere
  refine ⟨fun _ => wider, fun dsl later => wider (env.widens_upgraded later), ?_⟩
  intro front i back declared
  apply wider (env.widens_declared _)
  intro known member
  rw [declared, List.mem_append] at member
  exact List.mem_append.mpr (member.imp_right (List.mem_cons_of_mem i))

def markedCondition : Condition :=
  .list .all
    [.expression (.compare ⟨.interface, .value, "kind"⟩ .eq (.literal "5")),
      .expression (.compare ⟨.sibling, .size, "text"⟩ .gt (.literal "3")),
      .expression (.check false ⟨.sibling, .existence, "option"⟩)]

def markedSiblings : List Field :=
  [⟨{ name := "a" }, .int {}⟩, ⟨{ name := "b" }, .int {}⟩, ⟨{ name := "text" }, .string {}⟩,
    ⟨{ name := "option" }, .optional {}⟩]

def markedEnvironment (dsl : Nat) : Environment where
  context := { name := "S", dslVersion := dsl }
  registry := {}
  interfaces := [{ name := "I", fields := [⟨{ name := "kind" }, .int {}⟩] }]

/-- The condition is still verified in the newest version, and next to an interface whose kind is a
list. -/
theorem Condition.marks_stay_verified :
    markedCondition.verify markedSiblings (markedEnvironment 6) .unknown = .ok () ∧
      markedCondition.verify markedSiblings (markedEnvironment 0) (.line 1) = .ok () ∧
      markedCondition.verify markedSiblings
        { markedEnvironment 6 with
          interfaces := { name := "J", fields := [⟨{ name := "kind" }, .list {}⟩] } ::
            (markedEnvironment 6).interfaces } (.line 1) = .ok () := by
  have verified : markedCondition.verify markedSiblings (markedEnvironment 6) .unknown = .ok () :=
    except_of_to_option (by decide +kernel)
  obtain ⟨-, upgraded, declared⟩ := verified_stays_verified verified (.line 1)
  exact ⟨verified, upgraded 0 (Or.inl rfl), declared [] _ _ rfl⟩

theorem Query.marked {query : Query} (asks : query ≠ .value) :
    ∃ c, query.mark = [c] ∧ ofMark? c = some query := by
  cases query with
  | value => exact absurd rfl asks
  | size => exact ⟨'#', rfl, rfl⟩
  | existence => exact ⟨'?', rfl, rfl⟩

/-- Whatever the path, the mark behind it is the only one that can be read. -/
theorem MarkedPath.read_query {p q : MarkedPath} (asks : p.query ≠ .value)
    (done : read p.text = .ok q) : q.query = p.query := by
  obtain ⟨c, marked, isMark⟩ := Query.marked asks
  rw [read, text, String.toList_append, String.toList_ofList, marked, readList] at done
  cases path : p.path.toList with
  | nil =>
      -- The mark alone is read as one in front, and no path is left.
      simp only [path, List.nil_append, leading, isMark] at done
      cases done
  | cons first rest =>
      simp only [path, List.cons_append, leading] at done
      cases front : Query.ofMark? first with
      | none =>
          simp only [front, ← List.cons_append, trailing_mark isMark] at done
          split at done
          · cases done
            rfl
          · cases done
      | some other =>
          simp only [front, trailing_mark isMark] at done
          split at done <;> cases done

def Query.kind : Query → TargetKind
  | .value => .field
  | .size => .size
  | .existence => .existence

theorem Target.kind_asked (t : Target) {query : Query} (asks : query ≠ .value)
    (valid : (t.ask query).isValid = true) : (t.ask query).kind = query.kind := by
  cases query with
  | value => exact absurd rfl asks
  | size | existence =>
      cases t with
      | field f =>
          simp only [ask] at valid ⊢
          split at valid
          · rename_i admitted
            rw [if_pos admitted]
            rfl
          · cases valid
      | _ => cases valid

/-- All that a marked operand designates is of the kind that the mark asks for. -/
theorem Operand.target_kind {o : Operand} {siblings : List Field} {interfaces : List Interface}
    {t : Target} (asks : o.query ≠ .value) (found : t ∈ o.targets siblings interfaces) :
    t.kind = o.query.kind := by
  obtain ⟨⟨fields, -, rfl⟩, valid⟩ := mem_targets_iff.mp found
  unfold Field.resolve at valid ⊢
  cases done : MarkedPath.read o.marked.text with
  | error fault =>
      rw [done] at valid
      cases valid
  | ok p =>
      have same : p.query = o.query := MarkedPath.read_query asks done
      simp only [done, Field.resolveMarked, same] at valid ⊢
      exact Target.kind_asked _ asks valid

/-- An operand that designates a field has no mark. -/
theorem Operand.plain_of_field {o : Operand} {siblings : List Field} {interfaces : List Interface}
    {f : Field} (found : .field f ∈ o.targets siblings interfaces) : o.query = .value := by
  cases asked : o.query with
  | value => rfl
  | size | existence =>
      have same := target_kind (by rw [asked]; decide) found
      rw [asked] at same
      cases same

namespace Expression

variable {siblings : List Field} {env : Environment} {e : Expression}

/-- Below the version that has them, no operand of what fits has a mark. -/
theorem plain_of_fits (noSize : env.supports .sizeCompInCond = false)
    (noExistence : env.supports .existsCheckInCond = false) (fits : e.Fits siblings env) :
    ∀ o ∈ e.operands, o.query = .value := by
  intro o member
  cases fits with
  | check gate found checkable =>
      cases List.mem_singleton.mp member
      cases asked : o.query with
      | value => rfl
      | size =>
          -- A size is nothing that can be checked.
          rw [Operand.target_kind (by rw [asked]; decide) found, asked] at checkable
          exact absurd checkable (by decide)
      | existence => cases noExistence.symm.trans (gate asked)
  | size asked gate found integer => cases noSize.symm.trans gate
  | @value left op right f asked found accepts =>
      cases right with
      | literal value =>
          cases List.mem_singleton.mp member
          exact asked
      | operand other =>
          obtain ⟨g, foundRight, -⟩ := accepts
          rcases List.mem_cons.mp member with rfl | second
          · exact asked
          · cases List.mem_singleton.mp second
            exact Operand.plain_of_field foundRight

theorem right_of_fits {left : Operand} {op : Comparison} {right : Comparand}
    (fits : Fits siblings env (.compare left op right)) :
    ((∃ value, right = .literal value) ∨ ∃ o, right = .operand o ∧ o.query = .value) ∧
      (left.query = .size → ∃ value n, right = .literal value ∧ Literal.integer? value = some n) := by
  cases fits with
  | @size left op value n t asked gate found integer =>
      exact ⟨Or.inl ⟨value, rfl⟩, fun _ => ⟨value, n, rfl, integer⟩⟩
  | value asked found accepts =>
      refine ⟨?_, fun sized => ?_⟩
      · cases right with
        | literal value => exact Or.inl ⟨value, rfl⟩
        | operand o =>
            obtain ⟨g, foundRight, -⟩ := accepts
            exact Or.inr ⟨o, rfl, Operand.plain_of_field foundRight⟩
      · cases asked.symm.trans sized

end Expression

/-- Up to DSL version 5, the operands of a verified condition are all siblings without a mark. In
every version the right side of a comparison is a literal or an operand without a mark, and a size is
compared with an integer literal only. -/
theorem Condition.verified_within_gates {c : Condition} {siblings : List Field} {env : Environment}
    {place : Place} (verified : c.verify siblings env place = .ok ()) :
    (1 ≤ env.dsl → env.dsl ≤ 5 →
      ∀ o ∈ c.operands, o.scope = .sibling ∧ o.query = .value) ∧
    ∀ left op right, .compare left op right ∈ c.expressions →
      ((∃ value, right = .literal value) ∨ ∃ o, right = .operand o ∧ o.query = .value) ∧
      (left.query = .size →
        ∃ value n, right = .literal value ∧ Literal.integer? value = some n) := by
  have parts (e : Expression) (inside : e ∈ c.expressions) :=
    e.verify_ok_iff.mp (((verify_iff c).mp verified).2 e inside)
  constructor
  · intro first last o member
    have gated {feature : Feature} (late : 6 ≤ feature.minDslVersion) :
        env.supports feature = false := by
      simp only [Environment.supports, Context.supports, Context.reaches, Environment.dsl,
        Bool.or_eq_false_iff, beq_eq_false_iff_ne, decide_eq_false_iff_not] at first last ⊢
      omega
    rw [operands_eq] at member
    obtain ⟨e, inside, ofExpression⟩ := List.mem_flatMap.mp member
    obtain ⟨supported, fits⟩ := parts e inside
    refine ⟨?_, Expression.plain_of_fits (gated (by decide)) (gated (by decide)) fits o ofExpression⟩
    cases scope : o.scope with
    | sibling => rfl
    | interface =>
        have reaches := supported o ofExpression scope
        rw [gated (by decide)] at reaches
        cases reaches
  · intro left op right inside
    exact Expression.right_of_fits (parts _ inside).2

/-- Version 5 has no marks and no interfaces in conditions; version 6 compares a size with a number. -/
theorem Condition.marks_within_gates :
    (markedCondition.verify markedSiblings (markedEnvironment 5) .unknown).toOption = none ∧
      (∀ o ∈ (expression (.compare ⟨.sibling, .value, "a"⟩ .lt
        (.operand ⟨.sibling, .value, "b"⟩))).operands, o.scope = .sibling ∧ o.query = .value) ∧
      ∃ value n, Comparand.literal "3" = .literal value ∧ Literal.integer? value = some n := by
  have plain : (expression (.compare ⟨.sibling, .value, "a"⟩ .lt
      (.operand ⟨.sibling, .value, "b"⟩))).verify markedSiblings (markedEnvironment 5) .unknown =
        .ok () :=
    except_of_to_option (by decide +kernel)
  have sized : markedCondition.verify markedSiblings (markedEnvironment 6) .unknown = .ok () :=
    except_of_to_option (by decide +kernel)
  refine ⟨by decide +kernel, (verified_within_gates plain).1 (by decide) (by decide), ?_⟩
  exact ((verified_within_gates sized).2 ⟨.sibling, .size, "text"⟩ .gt (.literal "3")
    (.tail _ (.head _))).2 rfl

end WireSchema
