import WireSchema.Proofs.Construction

/-!
Properties that the DSL version does not have mean nothing. What a declaration is read as depends
only on the properties that the version has: two elements that agree on these are built to the same
field, or fail with the same error, and what is recorded on the way differs in warnings only. So
warnings are left out first, and then reading is the same computation.
-/

namespace WireSchema

open Markup (Node)

variable {α β : Type}

def Diagnostic.counts (d : Diagnostic) : Bool := d.level != .warning

namespace Build

def muted (x : Build α) : Build α := ⟨x.log.filter Diagnostic.counts, x.outcome⟩

@[simp] theorem muted_pure (a : α) : (pure a : Build α).muted = pure a := rfl

@[simp] theorem muted_lift (x : Except Error α) : (liftM x : Build α).muted = liftM x := rfl

@[simp] theorem muted_fail (e : Error) : (fail e : Build α).muted = fail e := rfl

@[simp] theorem muted_warn (line : Nat) (w : Warning) : (warn line w).muted = pure () := rfl

@[simp] theorem muted_warn_each (line : Nat) (ws : List Warning) :
    (warnEach line ws).muted = pure () := by
  have none : (ws.map (Diagnostic.warning line)).filter Diagnostic.counts = [] := by
    rw [List.filter_eq_nil_iff]
    intro d member
    obtain ⟨w, -, rfl⟩ := List.mem_map.mp member
    exact Bool.false_ne_true
  rw [muted, warnEach, none]
  rfl

@[simp] theorem muted_bind (x : Build α) (f : α → Build β) :
    (x >>= f).muted = x.muted >>= fun a => (f a).muted := by
  simp only [bind, Build.bind, muted]
  cases x.outcome with
  | error e => rfl
  | ok a => simp

@[simp] theorem muted_if {c : Prop} [Decidable c] (x y : Build α) :
    (if c then x else y).muted = if c then x.muted else y.muted := by
  split <;> rfl

@[simp] theorem pure_bind (a : α) (f : α → Build β) : (pure a >>= f) = f a := rfl

theorem lift_ok_bind (a : α) (f : α → Build β) :
    ((liftM (Except.ok a : Except Error α) : Build α) >>= f) = f a := rfl

theorem lift_error_bind (e : Error) (f : α → Build β) :
    ((liftM (Except.error e : Except Error α) : Build α) >>= f) = fail e := rfl

end Build

theorem Context.reaches_less {ctx : Context} {low high : Nat} (before : low ≤ high)
    (never : ctx.reaches low = false) : ctx.reaches high = false := by
  simp only [reaches, Bool.or_eq_false_iff, decide_eq_false_iff_not] at never ⊢
  exact ⟨never.1, by omega⟩

namespace Declaration

/-- The same element with other attributes, and the properties that come with them. -/
def saying (d : Declaration) (attributes : List (String × String)) (props : Properties) :
    Declaration :=
  { d with node := { d.node with attributes }, props }

def known (d : Declaration) (entries : List (String × String)) : List (String × String) :=
  entries.filter fun entry => d.context.supportsProperty entry.1

structure Agrees (d : Declaration) (attributes : List (String × String)) (props : Properties) :
    Prop where
  attributes : d.known attributes = d.known d.node.attributes
  props : d.known props.entries = d.known d.props.entries

variable {d : Declaration} {attributes : List (String × String)} {props : Properties}

section Frame

variable (d attributes props)

theorem context_saying : (d.saying attributes props).context = d.context := rfl

theorem reused_saying : (d.saying attributes props).reused = d.reused := rfl

theorem fail_saying (fault : Fault) :
    ((d.saying attributes props).fail fault : Except Error α) = d.fail fault := rfl

theorem unexpected_saying (name value : String) :
    ((d.saying attributes props).unexpected name value : Except Error α) =
      d.unexpected name value := rfl

theorem abort_saying (fault : Fault) :
    ((d.saying attributes props).abort fault : Build α) = d.abort fault := rfl

theorem accept_saying (name value : String) (read : Option α) :
    (d.saying attributes props).accept name value read = d.accept name value read := by
  cases read <;> rfl

theorem inner_name_saying (elem : Node) :
    (d.saying attributes props).innerName elem = d.innerName elem := rfl

theorem inner_window_saying (elem : Node) (profile : Profile) :
    (d.saying attributes props).innerWindow elem profile = d.innerWindow elem profile := rfl

end Frame

theorem known_named {name : String} (supported : d.context.supportsProperty name = true)
    (entries : List (String × String)) :
    (d.known entries).filter (fun entry => entry.1 == name) =
      entries.filter fun entry => entry.1 == name := by
  rw [known, List.filter_filter]
  apply List.filter_congr
  intro entry _
  by_cases same : entry.1 = name
  · simp [same, supported]
  · simp [same]

section Supported

variable (agrees : d.Agrees attributes props) {name : String}
  (supported : d.context.supportsProperty name = true)

include agrees supported

theorem named_agrees : props.entries.filter (fun entry => entry.1 == name) =
    d.props.entries.filter fun entry => entry.1 == name := by
  rw [← known_named supported, agrees.props, known_named supported]

theorem get_agrees : props.get? name = d.props.get? name := by
  rw [Properties.get?, ← List.head?_filter, named_agrees agrees supported, List.head?_filter,
    Properties.get?]

theorem prop_agrees : (d.saying attributes props).prop name = d.prop name := by
  have count : props.count name = d.props.count name := by
    rw [Properties.count, List.countP_eq_length_filter, named_agrees agrees supported,
      ← List.countP_eq_length_filter, Properties.count]
  simp only [prop, Properties.single, saying, count, get_agrees agrees supported]

theorem required_agrees : (d.saying attributes props).required name = d.required name := by
  have same := prop_agrees agrees supported
  simp only [prop, saying] at same
  simp only [required, Properties.required, saying, same]

theorem has_agrees : (d.saying attributes props).has name = d.has name := by
  rw [has_eq, has_eq, saying, get_agrees agrees supported]

theorem prop_as_agrees (read : String → Option α) :
    (d.saying attributes props).propAs name read = d.propAs name read := by
  simp only [propAs, prop_agrees agrees supported, accept_saying]

theorem bool_prop_agrees : (d.saying attributes props).boolProp name = d.boolProp name :=
  prop_as_agrees agrees supported _

theorem nat_prop_agrees : (d.saying attributes props).natProp name = d.natProp name :=
  prop_as_agrees agrees supported _

theorem flag_agrees (current : Bool) :
    (d.saying attributes props).flag name current = d.flag name current := by
  rw [flag, bool_prop_agrees agrees supported]
  rfl

theorem text_agrees (current : String) :
    (d.saying attributes props).text name current = d.text name current := by
  rw [text, prop_agrees agrees supported]
  rfl

theorem warn_deprecated_agrees :
    (d.saying attributes props).warnDeprecated name = d.warnDeprecated name := by
  rw [warnDeprecated, has_agrees agrees supported]
  rfl

theorem read_slot_agrees (parent : Parent) :
    (d.saying attributes props).readSlot name parent = d.readSlot name parent := by
  rw [readSlot, prop_agrees agrees supported]
  rfl

theorem read_wrapped_agrees (parent : Parent) :
    (d.saying attributes props).readWrapped name parent = d.readWrapped name parent := by
  rw [readWrapped, read_slot_agrees agrees supported]
  rfl

theorem read_prefix_agrees (parent : Parent) :
    (d.saying attributes props).readPrefix name parent = d.readPrefix name parent := by
  rw [readPrefix, prop_agrees agrees supported, read_slot_agrees agrees supported]
  rfl

theorem read_condition_agrees (lists : Bool) :
    (d.saying attributes props).readCondition name lists = d.readCondition name lists := by
  rw [readCondition, prop_agrees agrees supported]
  rfl

end Supported

/-- What every DSL version has. -/
theorem old (d : Declaration) {name : String} (since : Context.propertySince name = 0) :
    d.context.supportsProperty name = true := by
  rw [Context.supportsProperty, since, Context.reaches]
  simp

theorem gated_given (d : Declaration) (name : String) :
    (d.gated name).muted = pure (d.has name && d.context.supportsProperty name) := by
  unfold gated
  cases d.has name <;> cases d.context.supportsProperty name <;> rfl

variable (agrees : d.Agrees attributes props)

include agrees

/-- What is read only where a property is given and supported. -/
theorem when_gated {name : String} {given given' other : Build α}
    (same : d.context.supportsProperty name = true → given' = given) :
    ((d.saying attributes props).gated name >>= fun b => if b = true then given' else other).muted =
      (d.gated name >>= fun b => if b = true then given else other).muted := by
  simp only [Build.muted_bind, gated_given, Build.pure_bind]
  by_cases supported : d.context.supportsProperty name = true
  · rw [has_agrees agrees supported, same supported]
    rfl
  · rw [Bool.not_eq_true] at supported
    have never : (d.saying attributes props).context.supportsProperty name = false := supported
    rw [supported, never, Bool.and_false, Bool.and_false]
    rfl

theorem gated_flag_muted (name : String) (current : Bool) :
    ((d.saying attributes props).gatedFlag name current).muted =
      (d.gatedFlag name current).muted :=
  when_gated agrees fun supported => by rw [flag_agrees agrees supported]

theorem read_override_muted (name : String) (current : OverridePolicy) :
    ((d.saying attributes props).readOverride name current).muted =
      (d.readOverride name current).muted :=
  when_gated agrees fun supported => by simp only [required_agrees agrees supported, accept_saying]

theorem read_copy_source_muted :
    (d.saying attributes props).readCopySource.muted = d.readCopySource.muted :=
  when_gated agrees fun supported => by
    rw [required_agrees agrees supported]
    rfl

theorem read_default_valid_muted (read : String → String → Except Error α) :
    ((d.saying attributes props).readDefaultValid read).muted = (d.readDefaultValid read).muted :=
  when_gated agrees fun supported => by rw [required_agrees agrees supported]

theorem read_code_source_muted (c : Profile) :
    ((d.saying attributes props).readCodeSource c).muted = (d.readCodeSource c).muted := by
  simp only [readCodeSource, Build.muted_bind, read_copy_source_muted agrees,
    gated_flag_muted agrees]
  rfl

theorem read_window_agrees (current : Window) :
    (d.saying attributes props).readWindow current = d.readWindow current := by
  have version {name : String} (since : Context.propertySince name = 0) (default : Nat) :
      Context.readVersion (d.saying attributes props).node (d.saying attributes props).props name
        default = Context.readVersion d.node d.props name default := by
    have same := prop_agrees agrees (d.old since)
    rw [prop, prop] at same
    rw [Context.readVersion, same]
    rfl
  have said : ["sinceVersion", "deprecated", "removed"].filter (d.saying attributes props).has =
      ["sinceVersion", "deprecated", "removed"].filter d.has := by
    apply List.filter_congr
    intro name member
    refine has_agrees agrees (d.old ?_)
    simp only [List.mem_cons, List.not_mem_nil, or_false] at member
    rcases member with rfl | rfl | rfl <;> rfl
  rw [readWindow, said, Context.readWindow, version (by decide), version (by decide)]
  rfl

theorem read_removed_agrees (window : Window) (current : Bool) :
    (d.saying attributes props).readRemoved window current = d.readRemoved window current := by
  rw [readRemoved, bool_prop_agrees agrees (d.old (by decide))]
  rfl

theorem read_profile_muted (c : Profile) :
    ((d.saying attributes props).readProfile c).muted = (d.readProfile c).muted := by
  simp (disch := apply d.old; decide) only [readProfile, readOverrides, Build.muted_bind,
    text_agrees agrees, flag_agrees agrees, prop_as_agrees agrees, warn_deprecated_agrees agrees,
    read_window_agrees agrees, read_removed_agrees agrees, gated_flag_muted agrees,
    read_override_muted agrees, read_code_source_muted agrees, gated_given, context_saying]
  -- The last one that later versions have is read in place.
  by_cases supported : d.context.supportsProperty "validateMinLength" = true
  · simp only [has_agrees agrees supported, nat_prop_agrees agrees supported]
  · rw [Bool.not_eq_true] at supported
    simp only [supported, Bool.and_false, Build.pure_bind, Bool.false_eq_true, if_false]

theorem read_bit_length_agrees (isVariable : Bool) (length current : Nat) :
    (d.saying attributes props).readBitLength isVariable length current =
      d.readBitLength isVariable length current := by
  rw [readBitLength, has_agrees agrees (d.old (by decide)),
    nat_prop_agrees agrees (d.old (by decide))]
  rfl

theorem read_endian_agrees (current : Endian) :
    (d.saying attributes props).readEndian current = d.readEndian current := by
  rw [readEndian, prop_as_agrees agrees (d.old (by decide))]
  rfl

theorem read_int_type_agrees (current : Option IntType) (allowed : IntType → Bool) :
    (d.saying attributes props).readIntType current allowed = d.readIntType current allowed := by
  simp (disch := apply d.old; decide) only [readIntType, prop_agrees agrees, accept_saying,
    fail_saying, reused_saying]
  rfl

theorem read_length_agrees (type : IntType) (current : Nat) :
    (d.saying attributes props).readLength type current = d.readLength type current := by
  rw [readLength, nat_prop_agrees agrees (d.old (by decide))]
  rfl

theorem read_storage_agrees (s : Storage) :
    (d.saying attributes props).readStorage s = d.readStorage s := by
  simp only [readStorage, read_int_type_agrees agrees, read_endian_agrees agrees,
    read_length_agrees agrees, read_bit_length_agrees agrees]

theorem read_non_unique_specials_agrees (current : Bool) :
    (d.saying attributes props).readNonUniqueSpecials current =
      d.readNonUniqueSpecials current := by
  rw [readNonUniqueSpecials, bool_prop_agrees agrees (d.old (by decide))]
  rfl

theorem read_default_agrees (read : String → String → Except Error α) (current : α) :
    (d.saying attributes props).readDefault read current = d.readDefault read current := by
  rw [readDefault, prop_agrees agrees (d.old (by decide))]
  rfl

theorem attribute_ranges_agrees (read : String → String → Except Error Interval) :
    attributeRanges read attributes = attributeRanges read d.node.attributes := by
  have old {name : String} (valid : validProperties.contains name = true) :
      d.context.supportsProperty name = true := by
    apply d.old
    simp only [validProperties, List.contains_iff_mem, List.mem_cons, List.not_mem_nil,
      or_false] at valid
    rcases valid with rfl | rfl | rfl | rfl <;> rfl
  have within (entries : List (String × String)) :
      (d.known entries).filter (fun entry => validProperties.contains entry.1) =
        entries.filter fun entry => validProperties.contains entry.1 := by
    rw [known, List.filter_filter]
    refine List.filter_congr fun entry _ => ?_
    rw [Bool.and_eq_left_iff_imp]
    exact old
  rw [attributeRanges, attributeRanges, ← within, agrees.attributes, within]

theorem declared_ranges_agrees (profile : Profile)
    (read : String → String → Except Error Interval) :
    (d.saying attributes props).declaredRanges profile read = d.declaredRanges profile read := by
  have elements : (d.saying attributes props).elementRanges profile read =
      d.elementRanges profile read := rfl
  have ranges : attributeRanges read (d.saying attributes props).node.attributes =
      attributeRanges read d.node.attributes := attribute_ranges_agrees agrees read
  rw [declaredRanges, ranges, elements]
  rfl

theorem valid_texts_agrees (profile : Profile) :
    (d.saying attributes props).validTexts profile = d.validTexts profile := by
  have supported : d.context.supportsProperty "validValue" = true := d.old (by decide)
  have same : attributes.filter (fun entry => entry.1 == "validValue") =
      d.node.attributes.filter fun entry => entry.1 == "validValue" := by
    rw [← known_named supported, agrees.attributes, known_named supported]
  rw [validTexts, validTexts, ← same]
  rfl

theorem read_valid_values_muted (profile : Profile) (kind : Kind)
    (read : String → String → Except Error α) (lt : α → α → Bool) (defaultValue : α)
    (current : List (Versioned α)) :
    ((d.saying attributes props).readValidValues profile kind read lt defaultValue current).muted =
      (d.readValidValues profile kind read lt defaultValue current).muted := by
  by_cases supported : d.context.supportsProperty "defaultValidValue" = true
  · rw [readValidValues, valid_texts_agrees agrees, has_agrees agrees supported,
      prop_agrees agrees supported]
    rfl
  · -- The version has no valid values of texts and data either.
    rw [Bool.not_eq_true] at supported
    have without (e : Declaration) (later : e.env.supports .validValueInStringData = false) :
        (e.readValidValues profile kind read lt defaultValue current).muted =
          (liftM (e.validTexts profile) >>= fun _ => pure (defaultValue, current)) := by
      simp [readValidValues, later, warn]
    have later : d.env.supports .validValueInStringData = false :=
      Context.reaches_less (by decide) supported
    rw [without _ later, without (d.saying attributes props) later, valid_texts_agrees agrees]

theorem read_contents_muted (profile : Profile) (kind : Kind)
    (read : String → String → Except Error α) (lt : α → α → Bool) (defaultValue : α)
    (current : List (Versioned α)) :
    ((d.saying attributes props).readContents profile kind read lt defaultValue current).muted =
      (d.readContents profile kind read lt defaultValue current).muted := by
  simp only [readContents, read_default_agrees agrees, Build.muted_bind,
    read_valid_values_muted agrees]

theorem read_valid_condition_muted (members : List Field) (current : Option Condition) :
    ((d.saying attributes props).readValidCondition members current).muted =
      (d.readValidCondition members current).muted := by
  by_cases supported : d.context.supportsProperty "validCond" = true
  · -- The two properties came with the same version.
    have copied : d.context.supportsProperty "copyValidCondFrom" = true := supported
    rw [readValidCondition, has_agrees agrees supported, has_agrees agrees copied,
      declaredValidCondition, read_condition_agrees agrees supported, prop_agrees agrees copied]
    rfl
  · rw [Bool.not_eq_true] at supported
    have without (e : Declaration) (later : e.env.supports .validCondInComposite = false) :
        (e.readValidCondition members current).muted = pure current := by
      simp [readValidCondition, later, warn]
    have later : d.env.supports .validCondInComposite = false :=
      Context.reaches_less (by decide) supported
    rw [without _ later, without (d.saying attributes props) later]

theorem read_terminator_muted (parent : Parent) :
    (ListSpec.readTerminator (d.saying attributes props) parent).muted =
      (ListSpec.readTerminator d parent).muted := by
  by_cases supported : d.context.supportsProperty "termSuffix" = true
  · rw [ListSpec.readTerminator, has_agrees agrees supported, prop_agrees agrees supported,
      read_slot_agrees agrees supported]
    rfl
  · rw [Bool.not_eq_true] at supported
    have without (e : Declaration) (later : e.context.supportsProperty "termSuffix" = false) :
        (ListSpec.readTerminator e parent).muted = pure none := by
      simp [ListSpec.readTerminator, later, warn]
    rw [without _ supported, without (d.saying attributes props) supported]

end Declaration

open Declaration

section Kinds

variable {d : Declaration} {attributes : List (String × String)} {props : Properties}
  (agrees : d.Agrees attributes props) (profile : Profile)

include agrees

theorem IntSpec.read_muted (spec : IntSpec) :
    (spec.read (d.saying attributes props) profile).muted = (spec.read d profile).muted := by
  have scaled : readScaling (d.saying attributes props) spec.scaling =
      readScaling d spec.scaling := by
    simp (disch := apply d.old; decide) only [readScaling, prop_agrees agrees, unexpected_saying]
  have named : readSpecials (d.saying attributes props) = readSpecials d := rfl
  have default : readDefault (d.saying attributes props) = readDefault d := rfl
  have interval : readInterval (d.saying attributes props) = readInterval d := rfl
  simp (disch := apply d.old; decide) only [read, scaled, named, default, interval,
    readValidRanges, Build.muted_bind, read_storage_agrees agrees, prop_as_agrees agrees,
    flag_agrees agrees, nat_prop_agrees agrees, read_non_unique_specials_agrees agrees,
    read_default_agrees agrees, declared_ranges_agrees agrees, read_default_valid_muted agrees,
    warn_deprecated_agrees agrees, gated_flag_muted agrees]

theorem FloatSpec.read_muted (spec : FloatSpec) :
    (spec.read (d.saying attributes props) profile).muted = (spec.read d profile).muted := by
  have typed : readType (d.saying attributes props) spec.type = readType d spec.type := by
    unfold readType
    rw [prop_as_agrees agrees (d.old (by decide))]
    rfl
  have named : readSpecials (d.saying attributes props) = readSpecials d := rfl
  have default : readDefault (d.saying attributes props) = readDefault d := rfl
  have interval : readInterval (d.saying attributes props) = readInterval d := rfl
  have reported (w : Warning) : (d.saying attributes props).warn w = d.warn w := rfl
  simp (disch := apply d.old; decide) only [read, readValidRanges, typed, named, default, interval,
    reported, Build.muted_bind, read_endian_agrees agrees, prop_as_agrees agrees,
    flag_agrees agrees, nat_prop_agrees agrees, read_non_unique_specials_agrees agrees,
    read_default_agrees agrees, declared_ranges_agrees agrees, read_default_valid_muted agrees,
    warn_deprecated_agrees agrees]

theorem EnumSpec.read_muted (spec : EnumSpec) :
    (spec.read (d.saying attributes props) profile).muted = (spec.read d profile).muted := by
  have named : readValues (d.saying attributes props) = readValues d := rfl
  have default : readDefault (d.saying attributes props) = readDefault d := rfl
  have assigned (type : IntType) (current : Bool) :
      readHexAssign (d.saying attributes props) type current = readHexAssign d type current := by
    rw [readHexAssign, bool_prop_agrees agrees (d.old (by decide))]
    rfl
  have refused (fault : Fault) : ((d.saying attributes props).abort fault : Build EnumSpec) =
      d.abort fault := rfl
  simp (disch := apply d.old; decide) only [read, named, default, assigned, refused,
    Build.muted_bind, Build.muted_if, read_storage_agrees agrees, flag_agrees agrees,
    read_default_agrees agrees, gated_flag_muted agrees]

theorem SetSpec.read_muted (spec : SetSpec) :
    (spec.read (d.saying attributes props) profile).muted = (spec.read d profile).muted := by
  have untyped (current : Nat) : readUntypedLength (d.saying attributes props) current =
      readUntypedLength d current := by
    rw [readUntypedLength, nat_prop_agrees agrees (d.old (by decide)),
      nat_prop_agrees agrees (d.old (by decide))]
    rfl
  have stored : readTypeLength (d.saying attributes props) spec.storage =
      readTypeLength d spec.storage := by
    simp (disch := apply d.old; decide) only [readTypeLength, untyped, has_agrees agrees,
      read_int_type_agrees agrees, read_length_agrees agrees]
  have flagged : bitFlag (d.saying attributes props) = bitFlag d := by
    funext elem property current
    simp only [bitFlag, accept_saying]
  have bit : readBit (d.saying attributes props) = readBit d := by
    funext profile spec elem
    simp only [readBit, flagged, inner_name_saying, inner_window_saying, accept_saying, fail_saying]
  have named : readBits (d.saying attributes props) profile = readBits d profile := by
    unfold readBits
    rw [bit]
    rfl
  simp (disch := apply d.old; decide) only [read, stored, named, Build.muted_bind,
    read_bit_length_agrees agrees, read_endian_agrees agrees, flag_agrees agrees,
    gated_flag_muted agrees]

theorem RefSpec.read_agrees (spec : RefSpec Field) :
    spec.read (d.saying attributes props) profile = spec.read d profile := by
  have target : readTarget (d.saying attributes props) spec.target = readTarget d spec.target := by
    unfold readTarget
    rw [prop_agrees agrees (d.old (by decide))]
    rfl
  simp only [read, target, read_bit_length_agrees agrees]

theorem read_fixed_length_agrees :
    (d.saying attributes props).readFixedLength = d.readFixedLength := by
  rw [readFixedLength, readPositive, nat_prop_agrees agrees (d.old (by decide))]
  rfl

theorem StringSpec.read_muted (spec : StringSpec Field) :
    (spec.read (d.saying attributes props) profile).muted = (spec.read d profile).muted := by
  have ends : readDelimiter (d.saying attributes props) profile spec.delimiter =
      readDelimiter d profile spec.delimiter := by
    rw [readDelimiter, read_fixed_length_agrees agrees,
      read_prefix_agrees agrees (d.old (by decide)), bool_prop_agrees agrees (d.old (by decide))]
    rfl
  have value : readValue (d.saying attributes props) = readValue d := rfl
  simp (disch := apply d.old; decide) only [read, ends, value, Build.muted_bind,
    prop_agrees agrees, read_contents_muted agrees]

theorem DataSpec.read_muted (spec : DataSpec Field) :
    (spec.read (d.saying attributes props) profile).muted = (spec.read d profile).muted := by
  have ends : readDelimiter (d.saying attributes props) profile spec.delimiter =
      readDelimiter d profile spec.delimiter := by
    rw [readDelimiter, read_fixed_length_agrees agrees,
      read_prefix_agrees agrees (d.old (by decide))]
    rfl
  have value : readValue (d.saying attributes props) = readValue d := by
    funext delimiter property raw
    simp only [readValue, accept_saying]
    rfl
  simp only [read, ends, value, Build.muted_bind, read_contents_muted agrees]

theorem ListSpec.read_repetition_muted (parent : Parent) (current : Repetition Field) :
    (readRepetition (d.saying attributes props) parent current).muted =
      (readRepetition d parent current).muted := by
  have counted : readCount (d.saying attributes props) = readCount d := by
    rw [readCount, readPositive, nat_prop_agrees agrees (d.old (by decide))]
    rfl
  have kept : keepRepetition (d.saying attributes props) = keepRepetition d := rfl
  simp (disch := apply d.old; decide) only [readRepetition, counted, kept, Build.muted_bind,
    read_prefix_agrees agrees, read_terminator_muted agrees, abort_saying]

theorem ListSpec.read_muted (spec : ListSpec Field) :
    (spec.read (d.saying attributes props) profile).muted = (spec.read d profile).muted := by
  have checked : checkElement (d.saying attributes props) = checkElement d := rfl
  have prefixed (fixedLength : Bool) (lead : Option (Prefix Field)) :
      checkElementPrefix (d.saying attributes props) fixedLength lead =
        checkElementPrefix d fixedLength lead := by
    cases lead with
    | none => rfl
    | some lead => cases lead <;> rfl
  simp (disch := apply d.old; decide) only [read, Build.muted_bind, read_wrapped_agrees agrees]
  refine bind_congr fun declared => ?_
  cases declared.or spec.element with
  | none => rfl
  | some element =>
      simp (disch := apply d.old; decide) only [checked, prefixed, Build.muted_bind,
        read_repetition_muted agrees, flag_agrees agrees, read_prefix_agrees agrees]

theorem OptionalSpec.read_muted (spec : OptionalSpec Field) :
    (spec.read (d.saying attributes props) profile).muted = (spec.read d profile).muted := by
  have existence (current : Option Condition) : readExistence (d.saying attributes props) current =
      readExistence d current := by
    rw [readExistence, read_condition_agrees agrees (d.old (by decide))]
    rfl
  simp (disch := apply d.old; decide) only [read, existence, Build.muted_bind,
    prop_as_agrees agrees, warn_deprecated_agrees agrees, gated_flag_muted agrees,
    read_wrapped_agrees agrees, abort_saying]

theorem BitfieldSpec.read_muted (spec : BitfieldSpec Field) :
    (spec.read (d.saying attributes props) profile).muted = (spec.read d profile).muted := by
  have members : readMembers (d.saying attributes props) = readMembers d := rfl
  have replaced : (d.saying attributes props).replaceMembers = d.replaceMembers := rfl
  have checked : (d.saying attributes props).checkMembers = d.checkMembers := rfl
  have bits : checkBits (d.saying attributes props) = checkBits d := rfl
  simp only [read, members, replaced, checked, bits, Build.muted_bind, read_endian_agrees agrees,
    read_valid_condition_muted agrees]

theorem BundleSpec.read_muted (spec : BundleSpec Field) :
    (spec.read (d.saying attributes props) profile).muted = (spec.read d profile).muted := by
  have members : readMembers (d.saying attributes props) = readMembers d := rfl
  have replaced : (d.saying attributes props).replaceMembers = d.replaceMembers := rfl
  have checked : (d.saying attributes props).checkMembers = d.checkMembers := rfl
  have initial : (d.saying attributes props).checkInitialMember = d.checkInitialMember := rfl
  have lengths : checkLengths (d.saying attributes props) = checkLengths d := rfl
  have around : (d.saying attributes props).env = d.env := rfl
  have named : readAliases (d.saying attributes props) = readAliases d := rfl
  simp (disch := apply d.old; decide) only [read, members, replaced, checked, initial, lengths,
    around, named, Build.muted_bind, bool_prop_agrees agrees, read_valid_condition_muted agrees]

theorem VariantSpec.read_agrees (spec : VariantSpec Field) :
    spec.read (d.saying attributes props) profile = spec.read d profile := by
  have chosen (members : List Field) (current : Option Nat) :
      readDefaultMember (d.saying attributes props) members current =
        readDefaultMember d members current := by
    simp (disch := apply d.old; decide) only [readDefaultMember, prop_agrees agrees,
      accept_saying, unexpected_saying]
    rfl
  rw [read, has_agrees agrees (d.old (by decide))]
  simp only [chosen]
  rfl

theorem Declaration.read_payload_muted (payload : Payload Field) :
    ((d.saying attributes props).readPayload profile payload).muted =
      (d.readPayload profile payload).muted := by
  cases payload with
  | int spec => simp only [readPayload, Build.muted_bind, IntSpec.read_muted agrees]
  | float spec => simp only [readPayload, Build.muted_bind, FloatSpec.read_muted agrees]
  | enum spec => simp only [readPayload, Build.muted_bind, EnumSpec.read_muted agrees]
  | set spec => simp only [readPayload, Build.muted_bind, SetSpec.read_muted agrees]
  | bitfield spec => simp only [readPayload, Build.muted_bind, BitfieldSpec.read_muted agrees]
  | bundle spec => simp only [readPayload, Build.muted_bind, BundleSpec.read_muted agrees]
  | string spec => simp only [readPayload, Build.muted_bind, StringSpec.read_muted agrees]
  | data spec => simp only [readPayload, Build.muted_bind, DataSpec.read_muted agrees]
  | list spec => simp only [readPayload, Build.muted_bind, ListSpec.read_muted agrees]
  | ref spec => simp only [readPayload, RefSpec.read_agrees agrees]
  | optional spec => simp only [readPayload, Build.muted_bind, OptionalSpec.read_muted agrees]
  | variant spec => simp only [readPayload, VariantSpec.read_agrees agrees]

end Kinds

theorem Declaration.warn_unknown_muted (d : Declaration) (kind : Kind) :
    (d.warnUnknown kind).muted = pure () := by
  simp only [warnUnknown, Build.muted_bind, Build.muted_warn_each, Build.pure_bind]
  induction d.node.unknownChildren (kind.allProperties ++ kind.children) with
  | nil => rfl
  | cons child rest ih =>
      rw [List.foldlM_cons, Build.muted_bind, Build.muted_if, Build.muted_pure, Build.muted_warn,
        ite_self]
      exact ih

namespace Markup.Node

def without (node : Node) (name : String) : Node :=
  { node with attributes := node.attributes.filter fun entry => entry.1 != name }

theorem height_without (node : Node) (name : String) :
    (node.without name).height = node.height := by
  obtain ⟨tag, attributes, children, text, line⟩ := node
  simp only [without, height]

end Markup.Node

namespace Field

/-- The properties of an element with an attribute deleted are the same as far as the DSL version
has them. -/
theorem without_agrees {d : Declaration} {name : String} {inner : List (String × String)}
    (read : d.props = ⟨d.node.attributes ++ inner⟩)
    (unsupported : d.context.supportsProperty name = false) :
    d.Agrees (d.node.without name).attributes ⟨(d.node.without name).attributes ++ inner⟩ := by
  have same : d.known (d.node.without name).attributes = d.known d.node.attributes := by
    rw [Declaration.known, Node.without, List.filter_filter]
    apply List.filter_congr
    intro entry _
    by_cases deleted : entry.1 = name
    · simp [deleted, unsupported]
    · simp [deleted]
  have append (first second : List (String × String)) :
      d.known (first ++ second) = d.known first ++ d.known second := List.filter_append ..
  refine ⟨same, ?_⟩
  rw [read, append, append, same]

def finish (d : Declaration) (kind : Kind) (start : Field) : Build Field := do
  let profile ← d.readProfile start.profile
  let f ← d.readPayload profile start.payload
  d.checkSemanticType f
  d.checkName f
  d.checkMinLength f
  d.warnUnknown kind
  Build.record ⟨some d.line, .fieldBuilt kind f.name⟩
  return f

theorem build_kind_eq (inside : Node → Parent → Build Field) (env : Environment) (kind : Kind)
    (node : Node) (parent : Parent) : buildKind inside env kind node parent = (do
      let props ← Properties.ofNode node kind.allProperties
      let reuse ← props.single node "reuse"
      let start ← Declaration.start env kind node reuse
      finish ⟨node, env, parent, props, reuse.isSome, inside⟩ kind start) :=
  rfl

theorem finish_muted {d : Declaration} {attributes : List (String × String)} {props : Properties}
    (agrees : d.Agrees attributes props) (kind : Kind) (start : Field) :
    (finish (d.saying attributes props) kind start).muted = (finish d kind start).muted := by
  have semantic : (d.saying attributes props).checkSemanticType = d.checkSemanticType := rfl
  have named : (d.saying attributes props).checkName = d.checkName := rfl
  have sized : (d.saying attributes props).checkMinLength = d.checkMinLength := rfl
  have line : (d.saying attributes props).line = d.line := rfl
  simp only [finish, semantic, named, sized, line, Build.muted_bind,
    Declaration.read_profile_muted agrees, Declaration.read_payload_muted agrees,
    Declaration.warn_unknown_muted]

theorem build_kind_muted {inside : Node → Parent → Build Field} {env : Environment} {kind : Kind}
    {node : Node} {parent : Parent} {name : String}
    (unsupported : env.context.supportsProperty name = false) :
    (buildKind inside env kind (node.without name) parent).muted =
      (buildKind inside env kind node parent).muted := by
  have line : (node.without name).line = node.line := rfl
  have started (reuse : Option String) : Declaration.start env kind (node.without name) reuse =
      Declaration.start env kind node reuse := by
    simp only [Declaration.start, line]
  have read (element : Node) (same : element.children = node.children) :
      Properties.ofNode element kind.allProperties =
        (Properties.ofChildren kind.allProperties node.children).map fun inner =>
          ⟨element.attributes ++ inner⟩ := by
    rw [Properties.ofNode, same]
    cases Properties.ofChildren kind.allProperties node.children <;> rfl
  rw [build_kind_eq, build_kind_eq, read node rfl, read (node.without name) rfl]
  -- The children are the same: both fail at them, or the properties differ in the attribute only.
  cases Properties.ofChildren kind.allProperties node.children with
  | error e =>
      rw [Except.map, Except.map, Build.lift_error_bind, Build.lift_error_bind]
  | ok inner =>
      have agrees (reused : Bool) := without_agrees
        (rfl : (Declaration.mk node env parent ⟨node.attributes ++ inner⟩ reused inside).props =
          ⟨node.attributes ++ inner⟩) unsupported
      have reuse : (Properties.mk ((node.without name).attributes ++ inner)).single
            (node.without name) "reuse" =
          (Properties.mk (node.attributes ++ inner)).single node "reuse" :=
        Declaration.prop_agrees (agrees false) (Declaration.old _ (by decide))
      rw [Except.map, Except.map, Build.lift_ok_bind, Build.lift_ok_bind, reuse]
      simp only [started, Build.muted_bind]
      exact bind_congr fun reuse => bind_congr fun start =>
        finish_muted (agrees reuse.isSome) kind start

/-- An attribute that the DSL version does not have is ignored: without it the element is built to
the same field, or fails with the same error, and the records differ in warnings only. -/
theorem unsupported_attribute_ignored (env : Environment) (tag : String) (node : Node)
    (parent : Parent) (name : String) (unsupported : env.context.supportsProperty name = false) :
    (create env tag (node.without name) parent).outcome = (create env tag node parent).outcome ∧
      (create env tag (node.without name) parent).log.filter Diagnostic.counts =
        (create env tag node parent).log.filter Diagnostic.counts := by
  have same : (create env tag (node.without name) parent).muted =
      (create env tag node parent).muted := by
    rw [create, create, Node.height_without]
    cases node.height with
    | zero => rfl
    | succ depth =>
        simp only [buildWithin]
        cases Kind.ofTag? tag with
        | none => rfl
        | some kind => exact build_kind_muted unsupported
  have outcome := congrArg Build.outcome same
  have log := congrArg Build.log same
  exact ⟨outcome, log⟩

def schemaAt (dslVersion : Nat) : Environment := ⟨{ name := "S", dslVersion }, {}, []⟩

def limitedNumber : Node :=
  ⟨"int", [("name", "n"), ("availableLengthLimit", "often"), ("type", "uint8")], [], "", 1⟩

def numberAt (dslVersion : Nat) (node : Node) : Build Field :=
  create (schemaAt dslVersion) "int" node ⟨.message, Window.always⟩

theorem malformed_limit_ignored :
    (schemaAt 3).context.supportsProperty "availableLengthLimit" = false ∧
    (numberAt 4 limitedNumber).outcome.isOk = false ∧
    (numberAt 3 limitedNumber).outcome.isOk = true ∧
    (numberAt 3 limitedNumber).log.length =
      (numberAt 3 (limitedNumber.without "availableLengthLimit")).log.length + 1 ∧
    (numberAt 3 (limitedNumber.without "availableLengthLimit")).outcome =
      (numberAt 3 limitedNumber).outcome ∧
    (numberAt 3 (limitedNumber.without "availableLengthLimit")).log.filter Diagnostic.counts =
      (numberAt 3 limitedNumber).log.filter Diagnostic.counts := by
  have unsupported : (schemaAt 3).context.supportsProperty "availableLengthLimit" = false := by
    decide
  have runs : (numberAt 4 limitedNumber).outcome.isOk = false ∧
      (numberAt 3 limitedNumber).outcome.isOk = true ∧
      (numberAt 3 limitedNumber).log.length =
        (numberAt 3 (limitedNumber.without "availableLengthLimit")).log.length + 1 := by
    decide +kernel
  obtain ⟨refused, built, warned⟩ := runs
  exact ⟨unsupported, refused, built, warned,
    unsupported_attribute_ignored (schemaAt 3) "int" limitedNumber ⟨.message, Window.always⟩
      "availableLengthLimit" unsupported⟩

end Field

end WireSchema
