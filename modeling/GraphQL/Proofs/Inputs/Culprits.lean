import GraphQL.Proofs.Inputs.Acceptable
import GraphQL.Proofs.Inputs.Defaults

/-!
# Where a value is refused

A JSON value is refused because of something in it: a part that is not acceptable for the type that
is declared for it, or an object that lacks a field. The error names the place of that part in the
value, and whatever is visited before it is acceptable (`Coercion.coerceJson_culprit`). Defaults are
never to blame, except that they may be nested too deeply where they are filled in.
-/

set_option autoImplicit false

namespace GraphQL

namespace CoercionError

/-- The place that an error names, if it names one. -/
def place? : CoercionError → Option InputPath
  | invalidValue path _ _ | unknownEnumValue path _ _ | missingInputField path _ _
  | nullValue path _ | tooDeep path => some path
  | missingVariable _ _ | undefinedVariable _ | missingArgument _ _ | unknownArgument _ _ _ => none

/-- The step from the place that an error names to what is missing there, if something is. -/
def lacking : CoercionError → List PathElement
  | missingInputField _ field _ => [.key field]
  | _ => []

/-- What an error says of a value is true of it: it is null, of no use for the type that is declared
for it, no symbol of the enum, or an object without a field that it needs. -/
inductive Faults (schema : Schema) : CoercionError → TypeRef → Json → Prop
  | invalidValue {path : InputPath} {type expected : TypeRef} {value : Json}
    (unmarked : type.unmarked = expected) (present : value ≠ .null)
    (refused : ¬ Accepts schema expected value) :
    Faults schema (.invalidValue path expected value.compact) type value
  | unknownEnumValue {path : InputPath} {type : TypeRef} {name symbol : String} {enum : EnumType}
    (named : type.unmarked = .named name) (found : schema.type? name = some (.enum enum))
    (unknown : symbol ∉ enum.values) :
    Faults schema (.unknownEnumValue path enum.name symbol) type (.string symbol)
  | nullValue {path : InputPath} {inner : TypeRef} :
    Faults schema (.nullValue path (.nonNull inner)) (.nonNull inner) .null
  | missingInputField {path : InputPath} {type : TypeRef} {name : String} {object : InputObjectType}
    {field : InputValueDefinition} {members : Json.Object} (named : type.unmarked = .named name)
    (found : schema.type? name = some (.inputObject object)) (declared : field ∈ object.fields)
    (required : field.type.isNonNull = true) (noDefault : field.default = none)
    (missing : Json.Object.get? members field.name = none) :
    Faults schema (.missingInputField path field.name field.type) type (.object members)

namespace Faults

variable {schema : Schema}

/-- A value is not acceptable if what an error says is true of it. -/
theorem refused {cause : CoercionError} {type : TypeRef} {value : Json}
    (faults : cause.Faults schema type value) : ¬ Accepts schema type value := by
  intro accepts
  cases faults with
  | invalidValue unmarked present refused => exact refused (unmarked ▸ accepts.unmarked)
  | unknownEnumValue named found unknown =>
    have inside := accepts.unmarked
    rw [named] at inside
    cases inside with
    | scalar found' => cases found.symm.trans found'
    | enum found' declared =>
      cases found.symm.trans found'
      exact unknown declared
  | nullValue =>
    cases accepts with
    | null nullable => cases nullable
    | nonNull present inside => exact present rfl
  | missingInputField named found declared required noDefault missing =>
    have inside := accepts.unmarked
    rw [named] at inside
    cases inside with
    | scalar found' => cases found.symm.trans found'
    | object found' supplied complete =>
      cases found.symm.trans found'
      rcases complete _ declared missing with default | nullable
      · exact default noDefault
      · rw [required] at nullable
        cases nullable

/-- What is wrong with a value that is not null is wrong with it as well where it must not be. -/
theorem nonNull {cause : CoercionError} {inner : TypeRef} {value : Json}
    (faults : cause.Faults schema inner value) (present : value ≠ .null) :
    cause.Faults schema (.nonNull inner) value := by
  cases faults with
  | invalidValue unmarked present refused => exact .invalidValue unmarked present refused
  | unknownEnumValue named found unknown => exact .unknownEnumValue named found unknown
  | nullValue => exact absurd rfl present
  | missingInputField named found declared required noDefault missing =>
    exact .missingInputField named found declared required noDefault missing

end Faults

end CoercionError

namespace Coercion

open Checks

/-- What an error is due to: a part of the value that was read, which the error names and of which
it says what is true, while whatever is visited before is read. -/
structure Culprit (schema : Schema) (levels : Nat) (type : TypeRef) (value : Json)
    (path : InputPath) (cause : CoercionError) (steps : List PathElement) (declared : TypeRef)
    (part : Json) : Prop where
  supplied : SuppliedAt schema type value steps declared part
  named : cause.place? = some (path ++ steps)
  faults : cause.Faults schema declared part
  earlier : ∀ place expected other, Visited schema type place (steps ++ cause.lacking) →
    SuppliedAt schema type value place expected other →
    ∃ result, coerceJson schema (levels - place.length) expected other (path ++ place) = .ok result

/-- An error is due to a part of the value, or to depth. -/
def Blamed (schema : Schema) (levels : Nat) (type : TypeRef) (value : Json) (path : InputPath)
    (cause : CoercionError) : Prop :=
  (∃ place, cause = .tooDeep place) ∨
    ∃ steps declared part, Culprit schema levels type value path cause steps declared part

/-- A default that is not read is nested too deeply. -/
def DeepDefaults (schema : Schema) (levels : Nat) : Prop :=
  ∀ name type, schema.type? name = some (.inputObject type) → ∀ field ∈ type.fields, ∀ literal,
    field.default = some literal → ∀ place cause,
      coerceConstant schema levels field.type literal place = .error cause →
        ∃ place, cause = .tooDeep place

/-- A default of a schema that was accepted is read, unless it is nested too deeply. -/
theorem deepDefaults_of_parseWithin {schema : Schema} {limit : Nat} {text : String}
    (accepted : Schema.parseWithin limit text = .ok schema) (levels : Nat) :
    DeepDefaults schema levels := by
  intro name type found field declared literal default place cause failed
  obtain ⟨result, read⟩ := Schema.coerceDefault_of_parseWithin accepted (Schema.mem_of_type? found).1
    (.inputField declared) default
  exact (coerceConstant_limited (Schema.distinctFields_of_parseWithin accepted) read levels
    place).eq_tooDeep failed

section Blamed

variable {schema : Schema} {levels : Nat} {path : InputPath} {cause : CoercionError}

/-- Nothing is visited before the value itself. -/
theorem Culprit.here {type : TypeRef} {value : Json} (named : cause.place? = some path)
    (nothing : cause.lacking = []) (faults : cause.Faults schema type value) :
    Culprit schema levels type value path cause [] type value where
  supplied := .here
  named := by rw [named, List.append_nil]
  faults := faults
  earlier := by
    intro place expected other visited
    rw [nothing] at visited
    exact absurd rfl visited.ne_nil.2

/-- Where a value is present, what is to blame at a type is to blame at its non-null type. -/
theorem Blamed.nonNull {inner : TypeRef} {value : Json} (present : value ≠ .null)
    (blamed : Blamed schema levels inner value path cause) :
    Blamed schema levels (.nonNull inner) value path cause := by
  rcases blamed with deep | ⟨steps, declared, part, culprit⟩
  · exact .inl deep
  right
  have earlier : ∀ place expected other,
      Visited schema (.nonNull inner) place (steps ++ cause.lacking) →
      SuppliedAt schema (.nonNull inner) value place expected other →
      ∃ result, coerceJson schema (levels - place.length) expected other (path ++ place) =
        .ok result := by
    rintro place expected other ⟨visited⟩ supplied
    cases supplied with
    | here => exact absurd rfl visited.ne_nil.1
    | nonNull supplied => exact culprit.earlier _ expected other visited supplied
  cases steps with
  | nil =>
    cases culprit.supplied
    exact ⟨[], .nonNull inner, value, .here, culprit.named, culprit.faults.nonNull present, earlier⟩
  | cons step steps =>
    exact ⟨step :: steps, declared, part, .nonNull culprit.supplied, culprit.named, culprit.faults,
      earlier⟩

/-- The first item that is not read is to blame for the list. -/
theorem Blamed.item {item : TypeRef} {values : List Json} {i : Nat} {value : Json}
    (there : values[i]? = some value)
    (before : ∀ j < i, ∀ earlier, values[j]? = some earlier →
      ∃ result, coerceJson schema levels item earlier (path.join (.index j)) = .ok result)
    (blamed : Blamed schema levels item value (path.join (.index i)) cause) :
    Blamed schema (levels + 1) (.list item) (.array values) path cause := by
  rcases blamed with deep | ⟨steps, declared, part, culprit⟩
  · exact .inl deep
  refine .inr ⟨.index i :: steps, declared, part, ?_⟩
  refine ⟨.item there culprit.supplied, ?_, culprit.faults, ?_⟩
  · rw [culprit.named, InputPath.join_append]
  · intro place expected other visited supplied
    cases supplied with
    | here => exact absurd rfl visited.ne_nil.1
    | @item _ _ _ j earlier _ place at' supplied =>
      rw [coerceJson_below]
      cases visited with
      | item less =>
        obtain ⟨result, read⟩ := before j less earlier at'
        exact read_of_suppliedAt read supplied
      | insideItem visited =>
        cases there.symm.trans at'
        exact culprit.earlier _ _ _ visited supplied

section Object

variable {name : String} {type : InputObjectType} {members : Json.Object} {i : Nat}
  {field : InputValueDefinition}

/-- What an object has for the fields that are declared before some field is read, if these fields
are. -/
theorem read_before (distinct : (type.fields.map (·.name)).Nodup)
    (found : schema.type? name = some (.inputObject type))
    (listed : type.fields[i]? = some field)
    (before : ∀ j < i, ∀ earlier, type.fields[j]? = some earlier → ∃ given,
      fieldValue (jsonField (coerceJson schema levels) members) (coerceConstant schema levels) path
        earlier = .ok given)
    {inside : List PathElement}
    (within : ∀ value, Json.Object.get? members field.name = some value → ∀ place expected other,
      Visited schema field.type place inside →
      SuppliedAt schema field.type value place expected other →
      ∃ result, coerceJson schema (levels - place.length) expected other
        (path.join (.key field.name) ++ place) = .ok result)
    {place : List PathElement} {expected : TypeRef} {other : Json}
    (visited : Visited schema (.named name) place (.key field.name :: inside))
    (supplied : SuppliedAt schema (.named name) (.object members) place expected other) :
    ∃ result, coerceJson schema (levels + 1 - place.length) expected other (path ++ place) =
      .ok result := by
  cases supplied with
  | here => exact absurd rfl visited.ne_nil.1
  | @field _ own earlier _ _ value _ place found' declared there supplied =>
    cases found.symm.trans found'
    rw [coerceJson_below]
    obtain ⟨j, hearlier⟩ := List.mem_iff_getElem?.1 declared
    rcases visited.object_cases found distinct hearlier listed with less | ⟨rfl, inside⟩
    · obtain ⟨given, read⟩ := before j less earlier hearlier
      obtain ⟨own, read⟩ := read_of_fieldValue read there
      exact read_of_suppliedAt read supplied
    · exact within value there place expected other inside supplied

/-- The first field that is not read is to blame for the object. -/
theorem Blamed.object (distinct : (type.fields.map (·.name)).Nodup)
    (found : schema.type? name = some (.inputObject type))
    (defaults : DeepDefaults schema levels)
    (parts : ∀ inner value path, coerceJson schema levels inner value path = .error cause →
      Blamed schema levels inner value path cause)
    (failed : inputFields (jsonField (coerceJson schema levels) members)
      (coerceConstant schema levels) path type.fields = .error cause) :
    Blamed schema (levels + 1) (.named name) (.object members) path cause := by
  obtain ⟨i, field, listed, failed, before⟩ := first_of_inputFields_eq_error failed
  have declared := List.mem_of_getElem? listed
  rcases fieldValue_eq_error_iff.1 failed with own | ⟨leftOut, ⟨literal, default, own⟩ | required⟩
  · unfold jsonField at own
    split at own
    · next value there =>
      rcases parts _ _ _ (map_eq_error.1 own) with deep | ⟨steps, expected, part, culprit⟩
      · exact .inl deep
      refine .inr ⟨.key field.name :: steps, expected, part, ?_⟩
      refine ⟨.field found declared there culprit.supplied, ?_, culprit.faults, ?_⟩
      · rw [culprit.named, InputPath.join_append]
      · intro place expected other visited supplied
        refine read_before distinct found listed before ?_ visited supplied
        intro value' there' place expected other visited supplied
        cases there.symm.trans there'
        exact culprit.earlier place expected other visited supplied
    · cases own
  · exact .inl (defaults name type found field declared literal default _ cause own)
  · obtain ⟨noDefault, nonNull, rfl⟩ := required
    have missing : Json.Object.get? members field.name = none := by
      unfold jsonField at leftOut
      split at leftOut
      · obtain ⟨own, -, same⟩ := map_eq_ok.1 leftOut
        cases same
      · next missing => exact missing
    refine .inr ⟨[], .named name, .object members, .here, ?_, ?_, ?_⟩
    · rw [List.append_nil]
      rfl
    · exact .missingInputField rfl found declared nonNull noDefault missing
    · intro place expected other visited supplied
      refine read_before distinct found listed before ?_ visited supplied
      intro value there
      cases missing.symm.trans there

end Object

/-- An error that reading a value ends with is due to a part of it, or to depth. -/
theorem blamed_of_jsonAt (distinct : schema.DistinctFields)
    (defaults : DeepDefaults schema levels)
    (parts : ∀ type value path cause, coerceJson schema levels type value path = .error cause →
      Blamed schema levels type value path cause)
    {type : TypeRef} {value : Json} {path : InputPath} {cause : CoercionError}
    (failed : jsonAt schema (coerceJson schema levels) (coerceConstant schema levels) type value path =
      .error cause) : Blamed schema (levels + 1) type value path cause := by
  fun_induction jsonAt schema (coerceJson schema levels) (coerceConstant schema levels) type value
    path with
  | case1 inner path =>
    cases failed
    exact .inr ⟨[], _, _, .here rfl rfl .nullValue⟩
  | case2 inner value path present ih => exact (ih failed).nonNull present
  | case4 item values path =>
    rcases bind_eq_error.1 failed with failed | ⟨results, -, failed⟩
    · obtain ⟨i, value, there, own, before⟩ := first_of_items_eq_error failed
      simp only [Nat.zero_add] at own before
      exact .item there before (parts _ _ _ _ own)
    · cases failed
  -- a value without parts to read is to blame itself
  | case5 item value path notNull notArray =>
    cases failed
    refine .inr ⟨[], _, _, .here rfl rfl (.invalidValue rfl notNull ?_)⟩
    rintro (_ | _ | items)
    · exact notNull rfl
    · exact notArray _ rfl
  | case7 scalar value path present refused =>
    cases failed
    refine .inr ⟨[], _, _, .here rfl rfl (.invalidValue rfl present ?_)⟩
    rintro (_ | _ | _ | own)
    · exact present rfl
    · obtain ⟨result, read⟩ := accepts_iff_builtinJson?.1 own
      cases refused.symm.trans read
  | case8 name path type symbol found =>
    unfold enumSymbol at failed
    split at failed
    · cases failed
    · next unknown =>
      cases failed
      have unknown : symbol ∉ type.values := mt List.contains_iff_mem.2 unknown
      exact .inr ⟨[], _, _, .here rfl rfl (.unknownEnumValue rfl found unknown)⟩
  | case9 name path type members found =>
    rcases bind_eq_error.1 failed with failed | ⟨own, -, failed⟩
    · exact .object (distinct _ _ found) found defaults
        (fun type value path => parts type value path cause) failed
    · cases failed
  | case11 name path value notEnum notObject notScalar notNull =>
    cases failed
    refine .inr ⟨[], _, _, .here rfl rfl (.invalidValue rfl notNull ?_)⟩
    rintro (_ | _ | _ | _ | found | found | found)
    · exact notNull rfl
    · exact notScalar _ found
    · exact notEnum _ _ found rfl
    · exact notObject _ _ found rfl
  | case3 | case6 | case10 => cases failed

/-- An error that reading a value ends with is due to a part of it, or to depth. -/
theorem blamed_of_coerceJson {limit : Nat} {text : String}
    (accepted : Schema.parseWithin limit text = .ok schema) {type : TypeRef} {value : Json}
    {path : InputPath} {cause : CoercionError}
    (failed : coerceJson schema levels type value path = .error cause) :
    Blamed schema levels type value path cause := by
  induction levels generalizing type value path cause with
  | zero =>
    cases failed
    exact .inl ⟨path, rfl⟩
  | succ levels ih =>
    exact blamed_of_jsonAt (Schema.distinctFields_of_parseWithin accepted)
      (deepDefaults_of_parseWithin accepted levels) (fun _ _ _ _ => ih) failed

/-- Of the items of a list that something in it is to blame for, those before it are acceptable. -/
theorem Culprit.first_item (distinct : schema.DistinctFields) {type declared listType item : TypeRef}
    {value part : Json} {steps front rest : List PathElement} {i : Nat} {values : List Json}
    (culprit : Culprit schema levels type value path cause steps declared part)
    (inside : steps = front ++ .index i :: rest)
    (supplied : SuppliedAt schema type value front listType (.array values))
    (same : listType.unmarked = .list item) :
    ∃ bad, values[i]? = some bad ∧ ¬ Accepts schema item bad ∧
      ∀ j other, values[j]? = some other → ¬ Accepts schema item other → i ≤ j := by
  subst inside
  obtain ⟨bad, there, within⟩ := (supplied.split distinct culprit.supplied).exists_item same
  refine ⟨bad, there, fun accepts => culprit.faults.refused (accepts.of_suppliedAt within), ?_⟩
  intro j other listed refused
  by_contra less
  have visited : Visited schema listType [.index j] (.index i :: (rest ++ cause.lacking)) :=
    .of_lt same (Nat.lt_of_not_le less) _ _
  have before := supplied.visited visited
  rw [← List.cons_append, ← List.append_assoc] at before
  obtain ⟨result, read⟩ :=
    culprit.earlier _ _ _ before (supplied.trans (.of_item same listed .here))
  exact refused (accepts_of_coerceJson read)

end Blamed

/-- An error points at what it is due to.

When a JSON value cannot be read at a type, it is nested too deeply, or it holds a part that is not
acceptable for the type that is declared for it. The error names the place of that part, counted
from where reading started, and what it says of the part is true: the text of an invalid value is
that value, and a field that is reported as missing is one that the object lacks, that must not be
null and has no default. Whatever is visited before that place, or before the missing field, is
acceptable, and was read. So the item that a bad list is refused for is the first bad one. -/
theorem coerceJson_culprit {limit : Nat} {text : String} {schema : Schema}
    (accepted : Schema.parseWithin limit text = .ok schema) {levels : Nat} {type : TypeRef}
    {value : Json} {path : InputPath} {cause : CoercionError}
    (failed : coerceJson schema levels type value path = .error cause) :
    (∃ place, cause = .tooDeep place) ∨
      ∃ steps declared part, SuppliedAt schema type value steps declared part ∧
        ¬ Accepts schema declared part ∧ cause.place? = some (path ++ steps) ∧
        cause.Faults schema declared part ∧
        (∀ place expected other, Visited schema type place (steps ++ cause.lacking) →
          SuppliedAt schema type value place expected other →
          Accepts schema expected other ∧ ∃ result,
            coerceJson schema (levels - place.length) expected other (path ++ place) =
              .ok result) ∧
        ∀ front i rest listType item values, steps = front ++ .index i :: rest →
          SuppliedAt schema type value front listType (.array values) →
          listType.unmarked = .list item →
          ∃ bad, values[i]? = some bad ∧ ¬ Accepts schema item bad ∧
            ∀ j other, values[j]? = some other → ¬ Accepts schema item other → i ≤ j := by
  rcases blamed_of_coerceJson accepted failed with deep | ⟨steps, declared, part, culprit⟩
  · exact .inl deep
  refine .inr ⟨steps, declared, part, culprit.supplied, culprit.faults.refused, culprit.named,
    culprit.faults, ?_, ?_⟩
  · intro place expected other visited supplied
    obtain ⟨result, read⟩ := culprit.earlier place expected other visited supplied
    exact ⟨accepts_of_coerceJson read, result, read⟩
  · exact fun front i rest listType item values inside supplied same =>
      culprit.first_item (Schema.distinctFields_of_parseWithin accepted) inside supplied same

/-- Ranges, which start somewhere and go on to some points. -/
def rangeType : InputObjectType where
  name := "Range"
  fields :=
    [{ name := "start", type := .nonNull (.builtin .int), default := none },
      { name := "points", type := .list (.nonNull (.builtin .int)), default := none }]

/-- The text of a schema with ranges. -/
def rangeText : String :=
  "type Query {notes(range: Range): Int} input Range {start: Int! points: [Int!]}"

/-- The schema of `rangeText`. -/
def rangeSchema : Schema where
  types := BuiltinScalar.all.map .builtin ++
    [.object
      { name := "Query"
        fields :=
          [{ name := "notes", type := .builtin .int
             arguments := [{ name := "range", type := .named "Range", default := none }] }] },
      .inputObject rangeType]
  queryRoot := "Query"
  mutationRoot := none

/-- The text is that of the schema of ranges. -/
theorem parseWithin_rangeText : Schema.parseWithin 64 rangeText = .ok rangeSchema := by
  unfold rangeText
  cbv

/-- Of two bad points the first one is reported, although the client gives the points before the
start. -/
theorem coerceJson_culprit_range :
    let value : Json :=
      .object [("points", .array [.ofInt 1, .bool true, .null]), ("start", .ofInt 0)]
    let cause : CoercionError :=
      .invalidValue [.key "range", .key "points", .index 1] (.builtin .int) "true"
    coerceJson rangeSchema allLevels (.named "Range") value (.root "range") = .error cause ∧
      ∃ steps declared part, SuppliedAt rangeSchema (.named "Range") value steps declared part ∧
        ¬ Accepts rangeSchema declared part ∧ cause.place? = some (InputPath.root "range" ++ steps) := by
  intro value cause
  have failed : coerceJson rangeSchema allLevels (.named "Range") value (.root "range") =
      .error cause := by
    rfl
  refine ⟨failed, ?_⟩
  rcases coerceJson_culprit parseWithin_rangeText failed with
    ⟨place, deep⟩ | ⟨steps, declared, part, supplied, refused, named, -⟩
  · exact CoercionError.noConfusion deep
  · exact ⟨steps, declared, part, supplied, refused, named⟩

end Coercion

end GraphQL
