import WireSchema.Proofs.Copies
import WireSchema.Proofs.Inheritance

/-!
The member that a variant selects by default. It is stored as a place among the members. What the
element itself declares is a place that there is; a place that has come with a reused variant is
taken over as a number, while the members that are gone by then are left out. It still is the place
of the same member exactly if none before it, nor the member itself, is gone, or if the element
happens to declare a member of that name there.
-/

namespace WireSchema

open Markup (Node Event)

namespace VariantSpec

def Selects (spec : VariantSpec Field) : Prop :=
  ∀ i, spec.defaultMember = some i → i < spec.members.length

def default? (spec : VariantSpec Field) : Option Field :=
  spec.defaultMember.bind fun i => spec.members[i]?

/-- The place is taken over, or it is one that there is. -/
theorem read_default_member_ok {d : Declaration} {members : List Field}
    {current chosen : Option Nat} (read : readDefaultMember d members current = .ok chosen) :
    ((d.prop "defaultMember" = .ok none ∨ d.prop "defaultMember" = .ok (some "")) ∧
      chosen = current) ∨
    ((∃ raw, d.prop "defaultMember" = .ok (some raw) ∧ raw ≠ "") ∧
      ∀ i, chosen = some i → i < members.length) := by
  simp only [readDefaultMember, except_bind_ok] at read
  obtain ⟨given, ofProp, rest⟩ := read
  split at rest
  · cases rest
    exact Or.inl ⟨Or.inl ofProp, rfl⟩
  · cases rest
    exact Or.inl ⟨Or.inr ofProp, rfl⟩
  · rename_i raw notEmpty
    refine Or.inr ⟨⟨raw, ofProp, notEmpty⟩, ?_⟩
    intro i isChosen
    subst isChosen
    split at rest
    · obtain ⟨place, accepted, same⟩ := except_map_ok.mp rest
      cases same
      exact (List.findIdx?_eq_some_iff_getElem.mp (Declaration.accept_ok accepted)).1
    · simp only [except_bind_ok] at rest
      obtain ⟨value, -, rest⟩ := rest
      split at rest
      · cases rest
      · split at rest
        · rename_i inside
          cases rest
          exact inside
        · cases rest

theorem default_taken {d : Declaration} {members : List Field} {current chosen : Option Nat}
    (read : readDefaultMember d members current = .ok chosen)
    (silent : d.prop "defaultMember" = .ok none ∨ d.prop "defaultMember" = .ok (some "")) :
    chosen = current := by
  rcases read_default_member_ok read with ⟨-, taken⟩ | ⟨⟨raw, ofProp, notEmpty⟩, -⟩
  · exact taken
  · simp [ofProp, notEmpty] at silent

end VariantSpec

namespace Field

/-- Among members with different names, the one at a place is still there once others are left out
exactly if it and all before it are kept. -/
theorem kept_place_iff {members : List Field} {keeps : Field → Bool} {i : Nat}
    (distinct : (members.map Field.name).Nodup) (inside : i < members.length) :
    (members.filter keeps)[i]?.map Field.name = members[i]?.map Field.name ↔
      ∀ m ∈ members.take (i + 1), keeps m = true := by
  have split : members.filter keeps =
      (members.take (i + 1)).filter keeps ++ (members.drop (i + 1)).filter keeps := by
    rw [← List.filter_append, List.take_append_drop]
  have front : (members.take (i + 1)).length = i + 1 := by
    rw [List.length_take]
    omega
  constructor
  · intro same
    by_cases whole : ((members.take (i + 1)).filter keeps).length = i + 1
    · exact List.length_filter_eq_length_iff.mp (whole.trans front.symm)
    · -- What stands at the place now has come from behind it, and has another name.
      have fewer : ((members.take (i + 1)).filter keeps).length ≤ i := by
        have bound := List.length_filter_le keeps (members.take (i + 1))
        omega
      rw [split, List.getElem?_append_right fewer, List.getElem?_eq_getElem inside, Option.map_some,
        Option.map_eq_some_iff] at same
      obtain ⟨m, atPlace, sameName⟩ := same
      have behind : m ∈ members.drop (i + 1) :=
        (List.mem_filter.mp (List.mem_of_getElem? atPlace)).1
      have before : members[i] ∈ members.take (i + 1) :=
        List.mem_take_iff_getElem.mpr ⟨i, by omega, rfl⟩
      rw [← List.take_append_drop (i + 1) members, List.map_append, List.nodup_append] at distinct
      exact absurd sameName.symm (distinct.2.2 _ (List.mem_map_of_mem before) _
        (List.mem_map_of_mem behind))
  · intro all
    rw [split, List.filter_eq_self.mpr all, List.getElem?_append_left (by omega),
      List.getElem?_take_of_lt (by omega)]

end Field

namespace VariantSpec

/-- The place `i` still is that of the member of the same name: nothing up to it is gone, or the
element declares that name there. -/
def KeepsPlace (source : VariantSpec Field) (since : Nat) (declared : List Field) (i : Nat) : Prop :=
  (∀ m ∈ source.members.take (i + 1), m.isGoneBy since = false) ∨
    ((Field.adopt since source.members).length ≤ i ∧
      declared[i - (Field.adopt since source.members).length]?.map Field.name =
        source.members[i]?.map Field.name)

theorem place_kept_iff {source spec : VariantSpec Field} {since : Nat} {declared : List Field}
    {i : Nat} (distinct : (source.members.map Field.name).Nodup)
    (names : spec.members.map Field.name =
      (Field.adopt since source.members ++ declared).map Field.name)
    (inside : i < source.members.length) :
    spec.members[i]?.map Field.name = source.members[i]?.map Field.name ↔
      source.KeepsPlace since declared i := by
  have kept : (Field.adopt since source.members).length =
      (source.members.filter fun m => !m.isGoneBy since).length := List.length_map _
  rw [KeepsPlace, ← List.getElem?_map, names, List.map_append]
  by_cases early : i < (Field.adopt since source.members).length
  · rw [List.getElem?_append_left (by simpa using early), Field.adopt_names, List.getElem?_map,
      Field.kept_place_iff distinct inside]
    simp only [Bool.not_eq_true']
    constructor
    · exact Or.inl
    · rintro (present | ⟨late, -⟩)
      · exact present
      · omega
  · rw [List.getElem?_append_right (by simpa using early), List.length_map, List.getElem?_map]
    constructor
    · exact fun same => Or.inr ⟨by omega, same⟩
    · rintro (present | ⟨-, same⟩)
      · -- If all up to the place are kept, the place is among them.
        have all : ∀ m ∈ source.members.take (i + 1), (!m.isGoneBy since) = true := by
          simpa using present
        have sublist := ((List.take_sublist (i + 1) source.members).filter
          fun m => !m.isGoneBy since).length_le
        rw [List.filter_eq_self.mpr all, List.length_take] at sublist
        omega
      · exact same

/-- A place that is taken over selects the member of the same name exactly if it is kept. -/
theorem selection_kept_iff {source spec : VariantSpec Field} {since : Nat} {declared : List Field}
    (taken : spec.defaultMember = source.defaultMember) (selects : source.Selects)
    (distinct : (source.members.map Field.name).Nodup)
    (names : spec.members.map Field.name =
      (Field.adopt since source.members ++ declared).map Field.name) :
    spec.Selects ∧ spec.default?.map Field.name = source.default?.map Field.name ↔
      ∀ i, source.defaultMember = some i → source.KeepsPlace since declared i := by
  unfold Selects default?
  rw [taken]
  cases isDefault : source.defaultMember with
  | none => simp
  | some i =>
      have inside := selects i isDefault
      have exactly := place_kept_iff distinct names inside
      simp only [Option.some.injEq, forall_eq', Option.bind_some]
      rw [← exactly]
      constructor
      · exact And.right
      · intro same
        refine ⟨?_, same⟩
        rw [List.getElem?_eq_getElem inside, Option.map_some, Option.map_eq_some_iff] at same
        obtain ⟨m, atPlace, -⟩ := same
        exact (List.getElem?_eq_some_iff.mp atPlace).1

theorem reads_variant {d : Declaration} {profile : Profile} {payload : Payload Field} {f : Field}
    {spec : VariantSpec Field} (reads : d.ReadsAs profile payload f)
    (variant : f.payload = .variant spec) :
    f.profile = profile ∧
      ∃ source, payload = .variant source ∧ (read d profile source).outcome = .ok spec := by
  cases reads with
  | variant done =>
      cases variant
      exact ⟨rfl, _, rfl, done⟩
  | _ => cases variant

/-- The names of the members are those that are kept, then those that the element declares. -/
theorem read_names {d : Declaration} {profile : Profile} {source spec : VariantSpec Field}
    (fresh : d.reused = false → source.members = [])
    (done : (read d profile source).outcome = .ok spec) :
    ∃ declared, (d.readMembers .variant profile).outcome = .ok declared ∧
      spec.members.map Field.name =
        (Field.adopt profile.window.since source.members ++ declared).map Field.name ∧
      readDefaultMember d spec.members source.defaultMember = .ok spec.defaultMember := by
  obtain ⟨declared, replacements, ofDeclared, -, replaced, -, defaulted⟩ := read_parts done
  refine ⟨declared, ofDeclared, ?_, defaulted⟩
  rw [Field.replace_members_names replaced]
  by_cases reused : d.reused = true
  · rw [if_pos reused]
  · rw [if_neg reused, fresh (Bool.not_eq_true _ ▸ reused)]
    rfl

/-- A registered variant selects one of its members: nothing of it was gone when it was built. -/
theorem selects_law : Registry.Law Parent.IsNamespace fun r f =>
    r.GrownIn Parent.IsNamespace → ∀ spec, f.payload = .variant spec → spec.Selects where
  grown extended selects grown := selects (Registry.grown_of_extends extended grown)
  built := by
    intro env tag node parent f inside found built grown spec variant
    obtain ⟨d, start, rfl, -, rfl, makes⟩ := Field.create_makes built
    obtain ⟨profile, profiled, reads⟩ := Declaration.makes_reads makes
    obtain ⟨-, source, isSource, done⟩ := reads_variant reads variant
    have fresh := Declaration.makes_fresh makes
    rw [isSource] at fresh
    obtain ⟨declared, -, names, defaulted⟩ := read_names fresh done
    rcases read_default_member_ok defaulted with ⟨-, same⟩ | ⟨-, selects⟩
    · rcases Declaration.makes_source makes with ⟨-, blank⟩ | ⟨-, ref, handle, hit, copied⟩
      · intro i isDefault
        rw [isSource] at blank
        cases kind : f.kind <;> rw [kind] at blank <;> cases blank
        rw [same] at isDefault
        cases isDefault
      · -- The start of a global field is zero, and no member ends before.
        have variantTarget := copied.symm.trans isSource
        have settled := (Registry.settled_of_get grown (Registry.find_get hit)).payload
        rw [variantTarget] at settled
        obtain ⟨reuse, -, -, started⟩ := makes.started
        have window : profile.window = Window.always :=
          ((Declaration.read_profile_ok profiled).2.2 (inside ▸ rfl)).1.trans
            (Declaration.start_ok started).1
        have sameLength := congrArg List.length names
        rw [window, Window.always, Field.adopt_from_start settled] at sameLength
        simp only [List.length_map, List.length_append] at sameLength
        intro i isDefault
        have bound := found ref handle hit grown source variantTarget i (same ▸ isDefault)
        omega
    · exact selects

theorem makes_source_selects {r : Registry} {d : Declaration} {start f : Field}
    {source : VariantSpec Field} (grown : r.GrownIn Parent.IsNamespace)
    (earlier : d.env.registry.Extends r) (makes : d.Makes start f)
    (isSource : start.payload = .variant source) : source.Selects := by
  rcases Declaration.makes_source makes with ⟨-, blank⟩ | ⟨-, ref, handle, hit, copied⟩
  · rw [isSource] at blank
    cases kind : f.kind <;> rw [kind] at blank <;> cases blank
    intro i isDefault
    cases isDefault
  · have grownThere := Registry.grown_of_extends earlier grown
    exact Registry.law_of_find selects_law grownThere hit grownThere source
      (copied.symm.trans isSource)

end VariantSpec

namespace Protocol

/-- Every variant of a model, at any depth, has the members that its source keeps and then those that
its element declares. A default of its own selects one of them. Without one it still selects the
member of the name it had in the source exactly if that keeps its place; an empty one leaves the
place as it is, which there is exactly if there are as many members. -/
theorem default_member_selected_iff (sources : List String) {f g : Field}
    {spec : VariantSpec Field} (has : (after sources).Has f) (leads : f.LeadsTo g)
    (variant : g.payload = .variant spec) :
    (∃ d start made, g.MadeBy (after sources).registry d start made) ∧
    ∀ d start made, g.MadeBy (after sources).registry d start made →
      ∃ source declared, start.payload = .variant source ∧
        (d.readMembers .variant made.profile).outcome = .ok declared ∧
        spec.members.map Field.name =
          (Field.adopt made.window.since source.members ++ declared).map Field.name ∧
        (∀ raw, d.prop "defaultMember" = .ok (some raw) → raw ≠ "" → spec.Selects) ∧
        (d.prop "defaultMember" = .ok (some "") →
          (spec.Selects ↔ ∀ i, source.defaultMember = some i →
            i < (Field.adopt made.window.since source.members).length + declared.length)) ∧
        (d.prop "defaultMember" = .ok none →
          (spec.Selects ∧ spec.default?.map Field.name = source.default?.map Field.name ↔
            ∀ i, source.defaultMember = some i →
              source.KeepsPlace made.window.since declared i)) := by
  refine ⟨after_made has leads, ?_⟩
  intro d start made madeBy
  have isVariant : made.payload = .variant spec := by
    rw [← variant, madeBy.moved]
    rfl
  obtain ⟨profile, -, reads⟩ := Declaration.makes_reads madeBy.makes
  obtain ⟨rfl, source, isSource, done⟩ := VariantSpec.reads_variant reads isVariant
  have fresh := Declaration.makes_fresh madeBy.makes
  rw [isSource] at fresh
  obtain ⟨declared, ofDeclared, names, defaulted⟩ := VariantSpec.read_names fresh done
  have selects := VariantSpec.makes_source_selects (after_grown sources) madeBy.earlier madeBy.makes
    isSource
  have distinct := Payload.law_start Payload.distinct_law (after_grown sources) madeBy.earlier
    madeBy.makes
  rw [isSource] at distinct
  have count := congrArg List.length names
  simp only [List.length_map, List.length_append] at count
  refine ⟨source, declared, isSource, ofDeclared, names, ?_, ?_, ?_⟩
  · intro raw ofProp notEmpty
    rcases VariantSpec.read_default_member_ok defaulted with ⟨silent, -⟩ | ⟨-, own⟩
    · simp [ofProp, notEmpty] at silent
    · exact own
  · intro ofProp
    have taken := VariantSpec.default_taken defaulted (Or.inr ofProp)
    rw [VariantSpec.Selects, taken, count]
    exact Iff.rfl
  · intro ofProp
    have taken := VariantSpec.default_taken defaulted (Or.inl ofProp)
    exact VariantSpec.selection_kept_iff taken selects distinct names

def laterVariant : String := r#"<schema name="S" version="5">
  <fields>
    <variant name="V" defaultMember="a">
      <int name="a" type="uint8"/>
      <int name="b" type="uint8" deprecated="2" removed="true"/>
    </variant>
  </fields>
  <message name="M" id="1" sinceVersion="3">
    <variant name="v" reuse="V">
      <int name="c" type="uint8"/>
    </variant>
  </message>
</schema>"#

set_option maxRecDepth 6000 in
/-- A member behind the default is gone and another one is declared: the default keeps its place. -/
theorem later_variant_selects :
    ∃ f spec, (after [laterVariant]).Has f ∧ f.payload = .variant spec ∧
      spec.members.map Field.name = ["a", "c"] ∧ spec.defaultMember = some 0 ∧
      ∃ d start made source declared, f.MadeBy (after [laterVariant]).registry d start made ∧
        start.payload = .variant source ∧
        (Field.adopt made.window.since source.members ++ declared).map Field.name = ["a", "c"] ∧
        (d.prop "defaultMember" = .ok none →
          (spec.Selects ∧ spec.default?.map Field.name = source.default?.map Field.name ↔
            ∀ i, source.defaultMember = some i →
              source.KeepsPlace made.window.since declared i)) := by
  have found :
      ((after [laterVariant]).schemas.any fun s => s.messages.any fun m => m.fields.any fun f =>
        f.payload.variant?.any fun ⟨spec, _⟩ =>
          spec.members.map Field.name = ["a", "c"] && spec.defaultMember = some 0) = true := by
    rw [after_spelled laterVariant String.toList_ofList]
    decide +kernel
  simp only [List.any_eq_true, Option.any_eq_true, Subtype.exists, Bool.and_eq_true,
    decide_eq_true_eq] at found
  obtain ⟨s, loaded, m, member, f, inside, spec, variant, -, names, chosen⟩ := found
  have has : (after [laterVariant]).Has f := .ofMessage loaded member inside
  obtain ⟨⟨d, start, made, madeBy⟩, exactly⟩ :=
    default_member_selected_iff [laterVariant] has (.refl f) variant
  obtain ⟨source, declared, isSource, -, sameNames, -, -, kept⟩ := exactly d start made madeBy
  exact ⟨f, spec, has, variant, names, chosen, d, start, made, source, declared, madeBy, isSource,
    sameNames.symm.trans names, kept⟩

def shiftedVariants : String := r#"<schema name="S" version="5">
  <fields>
    <variant name="V" defaultMember="b">
      <int name="a" type="uint8" deprecated="2" removed="true"/>
      <int name="b" type="uint8"/>
    </variant>
  </fields>
  <message name="M" id="1" sinceVersion="3">
    <variant name="v" reuse="V"/>
    <variant name="w" reuse="V">
      <int name="c" type="uint8"/>
    </variant>
  </message>
</schema>"#

set_option maxRecDepth 6000 in
/-- The member before the default is gone, and the place is kept as it was: in the one variant there is
no member at it, in the other one it is that of another member. -/
theorem shifted_defaults_select_others :
    ∃ s ∈ (after [shiftedVariants]).schemas, ∃ m ∈ s.messages, ∃ v ∈ m.fields, ∃ w ∈ m.fields,
      ∃ source ∈ (after [shiftedVariants]).registry.get? 0, ∃ short long spec,
        v.payload = .variant short ∧ w.payload = .variant long ∧ source.payload = .variant spec ∧
        v.profile.reusedFrom = some "V" ∧ w.profile.reusedFrom = some "V" ∧
        spec.default?.map Field.name = some "b" ∧
        short.members.map Field.name = ["b"] ∧ short.defaultMember = some 1 ∧ ¬ short.Selects ∧
        long.default?.map Field.name = some "c" := by
  have found :
      ((after [shiftedVariants]).schemas.any fun s => s.messages.any fun m => m.fields.any fun v =>
        m.fields.any fun w => ((after [shiftedVariants]).registry.get? 0).any fun source =>
          v.payload.variant?.any fun ⟨short, _⟩ => w.payload.variant?.any fun ⟨long, _⟩ =>
            source.payload.variant?.any fun ⟨spec, _⟩ =>
              v.profile.reusedFrom = some "V" && w.profile.reusedFrom = some "V" &&
                spec.default?.map Field.name = some "b" && short.members.map Field.name = ["b"] &&
                short.defaultMember = some 1 && long.default?.map Field.name = some "c") = true := by
    rw [after_spelled shiftedVariants String.toList_ofList]
    decide +kernel
  simp only [List.any_eq_true, Option.any_eq_true, Subtype.exists, Bool.and_eq_true,
    decide_eq_true_eq] at found
  obtain ⟨s, loaded, m, member, v, inV, w, inW, source, registered, short, isShort, -,
    long, isLong, -, spec, isSpec, -, ⟨⟨⟨⟨ofV, ofW⟩, chosenThere⟩, names⟩, chosen⟩, other⟩ := found
  refine ⟨s, loaded, m, member, v, inV, w, inW, source, registered, short, long, spec,
    isShort, isLong, isSpec, ofV, ofW, chosenThere, names, chosen, ?_, other⟩
  intro selects
  have count := congrArg List.length names
  rw [List.length_map] at count
  have inside := selects 1 chosen
  rw [count] at inside
  exact absurd inside (by decide)

end Protocol

end WireSchema
