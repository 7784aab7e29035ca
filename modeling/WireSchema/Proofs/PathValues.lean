import WireSchema.Proofs.Paths

/-!
Paths to values. What a path designates inside a field and what is read from it go the same way
through members, references and optionals, and part at most where a field is reached that has no
value of its own. So there is nothing to read where nothing is designated, and a designated value is
the one that is read.
-/

namespace WireSchema

namespace Field

def HasSome (f : Field) (path : String) : Prop :=
  (f.numeric? path).isSome ∨ (f.real? path).isSome ∨ (f.bool? path).isSome ∨
    (f.text? path).isSome ∨ (f.data? path).isSome

/-- The payload has an entry of the name, and its value is what the path of the field reads: the
number of a special or an enumerated value, the default of a bit. -/
def ReadsEntry (f : Field) (path name : String) : Payload Field → Prop
  | .int spec => ∃ e ∈ spec.specials, e.name = name ∧ spec.special? name = some e ∧
      f.numeric? path = some e.value
  | .enum spec => ∃ e ∈ spec.values, e.name = name ∧ spec.value? name = some e ∧
      f.numeric? path = some e.value
  | .set spec => ∃ b ∈ spec.bits, b.name = name ∧ spec.bit? name = some b ∧
      f.bool? path = some b.defaultValue
  | .float spec => ∃ e ∈ spec.specials, e.name = name ∧ spec.special? name = some e ∧
      f.real? path = some e.value
  | _ => False

inductive Meets : Target → Option (Field × String) → Prop where
  | field (f : Field) (holder : Option (Field × String)) : Meets (.field f) holder
  | value {g : Field} {name : String} (more : name ≠ "") (known : g.hasValue name = true) :
      Meets (.innerValue g name) (some (g, name))
  | unknown {g : Field} {name : String} (more : name ≠ "") (unknown : g.hasValue name = false) :
      Meets .invalid (some (g, name))
  | nowhere : Meets .invalid none

/-- A value is looked for in the first member of its path's first segment's name. -/
theorem member_holder_named (members : List Field) (first rest : String) :
    memberHolder? members first rest =
      (named? members first).bind fun m => m.holder? rest := by
  induction members with
  | nil =>
      rw [memberHolder?]
      rfl
  | cons m others ih =>
      rw [memberHolder?, named_cons, ih]
      by_cases here : m.name = first
      · rw [if_pos here, if_pos (beq_iff_eq.mpr here)]
        rfl
      · rw [if_neg here, if_neg (mt beq_iff_eq.mp here)]

theorem inner_meets (f : Field) (path : String) : Meets (f.inner path) (f.holder? path) := by
  induction f using onward_induction generalizing path with
  | step f ih =>
      by_cases done : path = ""
      · rw [done, inner_nothing]
        exact .field f _
      · rcases inner_steps f done with ⟨taken, held⟩ | ⟨-, taken, held⟩
        · rw [taken, held, inner_member_named, member_holder_named]
          cases found : named? f.onward (Text.firstSegment path).1 with
          | none => exact .nowhere
          | some m => exact ih m (List.mem_of_find?_eq_some found) _
        · rw [taken, held]
          by_cases known : f.dereferenced.hasValue path = true
          · rw [if_pos known]
            exact .value done known
          · rw [if_neg known]
            exact .unknown done (Bool.eq_false_iff.mpr known)

section Own

variable {f g : Field} {path name : String}

/-- Without an entry of the name, a field has no value under it. -/
theorem nothing_unknown (more : name ≠ "") (unknown : g.hasValue name = false)
    (held : f.holder? path = some (g, name)) : ¬f.HasSome path := by
  rw [HasSome, numeric?, real?, bool?, text?, data?, held]
  obtain ⟨profile, payload⟩ := g
  cases payload with
  | int | float | enum | set =>
      rw [hasValue, Option.isSome_eq_false_iff, Option.isNone_iff_eq_none] at unknown
      simp [ownNumeric?, ownReal?, ownBool?, ownText?, ownData?, IntSpec.valueAt?,
        FloatSpec.valueAt?, EnumSpec.valueAt?, SetSpec.valueAt?, more, unknown]
  | _ => simp [ownNumeric?, ownReal?, ownBool?, ownText?, ownData?, more]

theorem entry_of_known (more : name ≠ "") (known : g.hasValue name = true)
    (held : f.holder? path = some (g, name)) : f.ReadsEntry path name g.payload := by
  obtain ⟨profile, payload⟩ := g
  cases payload with
  | int spec =>
      obtain ⟨e, found⟩ := Option.isSome_iff_exists.mp known
      refine ⟨e, List.mem_of_find?_eq_some found, by simpa using List.find?_some found, found, ?_⟩
      simp [numeric?, held, ownNumeric?, IntSpec.valueAt?, more, found]
  | enum spec =>
      obtain ⟨e, found⟩ := Option.isSome_iff_exists.mp known
      refine ⟨e, List.mem_of_find?_eq_some found, by simpa using List.find?_some found, found, ?_⟩
      simp [numeric?, held, ownNumeric?, EnumSpec.valueAt?, more, found]
  | set spec =>
      obtain ⟨b, found⟩ := Option.isSome_iff_exists.mp known
      refine ⟨b, List.mem_of_find?_eq_some found, by simpa using List.find?_some found, found, ?_⟩
      simp [bool?, held, ownBool?, SetSpec.valueAt?, more, found]
  | float spec =>
      obtain ⟨e, found⟩ := Option.isSome_iff_exists.mp known
      refine ⟨e, List.mem_of_find?_eq_some found, by simpa using List.find?_some found, found, ?_⟩
      simp [real?, held, ownReal?, FloatSpec.valueAt?, more, found]
  | _ => exact absurd known (by simp [hasValue])

end Own

/-- Where a value of any type can be read from a path, the path designates a field or a value. Where
it designates a value, the field that has it is an integer, an enumeration, a set or a real number
with an entry of that name, and the value of the entry is what is read from the path. -/
theorem paths_read_what_they_designate (f : Field) (path : String) :
    (f.HasSome path → (f.inner path).kind = .field ∨ (f.inner path).kind = .innerValue) ∧
      ∀ g name, f.inner path = .innerValue g name → f.ReadsEntry path name g.payload := by
  have meets := inner_meets f path
  generalize designated : f.inner path = target at meets
  generalize held : f.holder? path = holder at meets
  cases meets with
  | field => exact ⟨fun _ => Or.inl rfl, nofun⟩
  | value more known =>
      refine ⟨fun _ => Or.inr rfl, ?_⟩
      rintro _ _ ⟨⟩
      exact entry_of_known more known held
  | unknown more unknown =>
      exact ⟨fun reads => absurd reads (nothing_unknown more unknown held), nofun⟩
  | nowhere =>
      refine ⟨fun reads => absurd reads ?_, nofun⟩
      simp [HasSome, numeric?, real?, bool?, text?, data?, held]

def switches : Field :=
  ⟨{ name := "S" }, .set { bits := [⟨"on", 3, true, false, false, {}, "", ""⟩] }⟩

def switchBundle : Field :=
  ⟨{ name := "b" }, .bundle { members :=
    [⟨{ name := "o" }, .optional { inner := some (.inline
      ⟨{ name := "r" }, .ref { target := some ⟨0, "S", switches⟩ }⟩) }⟩] }⟩

theorem switch_read :
    switchBundle.inner "o.r.on" = .innerValue switches "on" ∧
      switchBundle.ReadsEntry "o.r.on" "on" switches.payload ∧
      switchBundle.HasSome "o.r" ∧ (switchBundle.inner "o.r").kind = .field := by
  have designated : switchBundle.inner "o.r.on" = .innerValue switches "on" := rfl
  have reads : switchBundle.HasSome "o.r" := Or.inl (by decide +kernel)
  refine ⟨designated, (paths_read_what_they_designate _ _).2 _ _ designated, reads, ?_⟩
  rcases (paths_read_what_they_designate switchBundle "o.r").1 reads with field | value
  · exact field
  · exact absurd value (by decide +kernel)

end Field

end WireSchema
