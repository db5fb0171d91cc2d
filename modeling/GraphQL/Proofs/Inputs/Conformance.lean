import GraphQL.Proofs.Inputs.Readers
import Mathlib.Data.List.Basic

/-!
# Conformance of arguments

What a resolver may rely on: values that conform to the input types that are declared for them, and
input objects that hold declared fields only, in order, with no field missing that is needed or has
a default. `InputConforms` and `InputFields` say so without regard to where a value came from.
Whichever of the four sources values come from, and however these are mixed inside one literal, the
arguments that are read conform (`Coercion.coerceArguments_conforms`).
-/

set_option autoImplicit false

namespace GraphQL

/-- The values that a built-in scalar is read as. -/
def BuiltinScalar.Reads : BuiltinScalar → Json → Prop
  | .int, .number (.int i) => Json.intMin ≤ i ∧ i ≤ Json.intMax
  | .float, .number (.float _) => True
  | .string, .string _ => True
  | .boolean, .bool _ => True
  | .id, .string _ => True
  | _, _ => False

/-- No built-in scalar reads null. -/
theorem BuiltinScalar.Reads.ne_null {scalar : BuiltinScalar} {value : Json}
    (h : scalar.Reads value) : value ≠ .null := by
  rintro rfl
  cases scalar <;> exact h

/-- The type is a declared scalar, non-null or not. -/
def TypeRef.IsDeclaredScalar (schema : Schema) : TypeRef → Prop
  | .named name => ∃ declared, schema.type? name = some (.scalar declared)
  | .nonNull inner => inner.IsDeclaredScalar schema
  | _ => False

mutual

/-- A value conforms to an input type. Declared scalars hold any value, and only they decide what
null means to them. -/
inductive InputConforms (schema : Schema) : TypeRef → Json → Prop
  | null {type : TypeRef} (nullable : type.isNonNull = false) : InputConforms schema type .null
  | nonNull {inner : TypeRef} {value : Json} (h : InputConforms schema inner value)
    (present : value = .null → inner.IsDeclaredScalar schema) :
    InputConforms schema (.nonNull inner) value
  | list {item : TypeRef} {values : List Json}
    (h : ∀ value ∈ values, InputConforms schema item value) :
    InputConforms schema (.list item) (.array values)
  | builtin {scalar : BuiltinScalar} {value : Json} (h : scalar.Reads value) :
    InputConforms schema (.builtin scalar) value
  | scalar {name declared : String} {value : Json}
    (found : schema.type? name = some (.scalar declared)) :
    InputConforms schema (.named name) value
  | enum {name symbol : String} {type : EnumType} (found : schema.type? name = some (.enum type))
    (declared : symbol ∈ type.values) : InputConforms schema (.named name) (.string symbol)
  | object {name : String} {type : InputObjectType} {members : Json.Object}
    (found : schema.type? name = some (.inputObject type))
    (h : InputFields schema type.fields members) :
    InputConforms schema (.named name) (.object members)

/-- Members are those of declared input fields, in order, and each conforms to the type of its
field. A field is left out only if it may be null and has no default. -/
inductive InputFields (schema : Schema) : List InputValueDefinition → Json.Object → Prop
  | nil : InputFields schema [] []
  | given {field : InputValueDefinition} {rest : List InputValueDefinition} {value : Json}
    {members : Json.Object} (h : InputConforms schema field.type value)
    (others : InputFields schema rest members) :
    InputFields schema (field :: rest) ((field.name, value) :: members)
  | leftOut {field : InputValueDefinition} {rest : List InputValueDefinition}
    {members : Json.Object} (nullable : field.type.isNonNull = false)
    (noDefault : field.default = none) (others : InputFields schema rest members) :
    InputFields schema (field :: rest) members

end

namespace InputFields

variable {schema : Schema} {fields : List InputValueDefinition} {members : Json.Object}

/-- The keys are declared names, in the order of their declaration. -/
theorem keys_sublist (h : InputFields schema fields members) :
    (members.map Prod.fst).Sublist (fields.map (·.name)) := by
  induction fields generalizing members with
  | nil =>
    cases h
    exact List.Sublist.slnil
  | cons field rest ih =>
    cases h with
    | given conforms others => exact (ih others).cons_cons _
    | leftOut nullable noDefault others => exact (ih others).cons _

/-- A field that may not be null, or has a default, is present. -/
theorem exists_member (h : InputFields schema fields members) {field : InputValueDefinition}
    (declared : field ∈ fields) (needed : field.type.isNonNull = true ∨ field.default ≠ none) :
    ∃ value, (field.name, value) ∈ members ∧ InputConforms schema field.type value := by
  induction fields generalizing members with
  | nil => cases declared
  | cons first rest ih =>
    cases h with
    | @given _ _ value _ conforms others =>
      rcases List.mem_cons.1 declared with rfl | declared
      · exact ⟨value, List.mem_cons_self, conforms⟩
      · obtain ⟨value, member, conforms⟩ := ih others declared
        exact ⟨value, List.mem_cons_of_mem _ member, conforms⟩
    | leftOut nullable noDefault others =>
      rcases List.mem_cons.1 declared with rfl | declared
      · rcases needed with strict | hasDefault
        · rw [nullable] at strict
          cases strict
        · exact absurd noDefault hasDefault
      · exact ih others declared

end InputFields

namespace Coercion

open Checks

/-- What is read at a type with some reader conforms to the type. -/
def Sound (schema : Schema) {Value : Type} (read : TypeRef → Value → InputPath → Coerced Json) :
    Prop :=
  ∀ type value path result, read type value path = .ok result → InputConforms schema type result

/-- What is read conforms to the type, and is null only if the input is or the type is a declared
scalar. This is what reading at a non-null type needs of reading at the type inside. -/
def Settled (schema : Schema) (type : TypeRef) (isNull : Prop) (result : Json) : Prop :=
  InputConforms schema type result ∧ (¬ isNull → result = .null → type.IsDeclaredScalar schema)

/-- A result that is not null is settled if it conforms. -/
theorem Settled.of_present {schema : Schema} {type : TypeRef} {isNull : Prop} {result : Json}
    (h : InputConforms schema type result) (present : result ≠ .null) :
    Settled schema type isNull result :=
  ⟨h, fun _ same => absurd same present⟩

/-- What a built-in scalar makes of a literal is among the values it reads. -/
theorem reads_of_builtinLiteral? {scalar : BuiltinScalar} {literal : Literal} {result : Json}
    (h : builtinLiteral? scalar literal = some result) : scalar.Reads result := by
  unfold builtinLiteral? at h
  split at h
  · cases h
    trivial
  · obtain ⟨i, hi, rfl⟩ := Option.map_eq_some_iff.1 h
    have inRange := of_decide_eq_true (Option.filter_eq_some_iff.1 hi).2
    exact inRange
  · obtain ⟨d, -, rfl⟩ := Option.map_eq_some_iff.1 h
    trivial
  · obtain ⟨d, -, rfl⟩ := Option.map_eq_some_iff.1 h
    trivial
  · cases h
    trivial
  · cases h
    trivial
  · cases h
    trivial
  · cases h

/-- What a built-in scalar makes of a value is among the values it reads. -/
theorem reads_of_builtinJson? {scalar : BuiltinScalar} {value result : Json}
    (h : builtinJson? scalar value = some result) : scalar.Reads result := by
  unfold builtinJson? at h
  split at h
  · cases h
    trivial
  · obtain ⟨i, hi, rfl⟩ := Option.map_eq_some_iff.1 h
    unfold Json.int32? at hi
    split at hi
    · have inRange := of_decide_eq_true (Option.filter_eq_some_iff.1 hi).2
      exact inRange
    · cases hi
  · obtain ⟨d, -, rfl⟩ := Option.map_eq_some_iff.1 h
    trivial
  · cases h
    trivial
  · cases h
    trivial
  · cases h
    trivial
  · cases h

/-- A symbol is read as one that the enum declares. -/
theorem enumSymbol_sound {schema : Schema} {name : String} {type : EnumType}
    (found : schema.type? name = some (.enum type)) {symbol : String} {path : InputPath}
    {isNull : Prop} {result : Json} (h : enumSymbol type symbol path = .ok result) :
    Settled schema (.named name) isNull result := by
  unfold enumSymbol at h
  split at h
  · next declared =>
    cases h
    exact .of_present (.enum found (List.contains_iff_mem.1 declared)) Json.noConfusion
  · cases h

/-- Each item of a list is good if what is read of each value is. -/
theorem items_sound {Value : Type} {item : Value → InputPath → Coerced Json}
    {good : Json → Prop} (hitem : ∀ value path result, item value path = .ok result → good result)
    {path : InputPath} {i : Nat} {values : List Value} {results : List Json}
    (h : items item path i values = .ok results) : ∀ result ∈ results, good result := by
  intro result member
  obtain ⟨value, -, place, read⟩ := exists_value_of_items h member
  exact hitem value place result read

/-- The members of an input object conform to its fields if what is supplied and what defaults are
read as do. -/
theorem inputFields_sound {schema : Schema}
    {supplied : InputValueDefinition → InputPath → Coerced (Option Json)}
    {default : TypeRef → Literal → InputPath → Coerced Json}
    (hsupplied : ∀ field path value, supplied field path = .ok (some value) →
      InputConforms schema field.type value)
    (hdefault : Sound schema default) {path : InputPath} {fields : List InputValueDefinition}
    {members : Json.Object} (h : inputFields supplied default path fields = .ok members) :
    InputFields schema fields members := by
  induction fields generalizing members with
  | nil =>
    cases h
    exact .nil
  | cons field rest ih =>
    rw [inputFields_cons] at h
    obtain ⟨own, hown, h⟩ := bind_eq_ok.1 h
    obtain ⟨others, hothers, h⟩ := bind_eq_ok.1 h
    cases own with
    | some value =>
      cases h
      refine .given ?_ (ih hothers)
      rcases fieldValue_eq_some_iff.1 hown with own | ⟨-, literal, -, own⟩
      · exact hsupplied field _ value own
      · exact hdefault _ _ _ _ own
    | none =>
      cases h
      obtain ⟨-, noDefault, nullable⟩ := fieldValue_eq_none_iff.1 hown
      exact .leftOut nullable noDefault (ih hothers)

/-- How a variable is read where a literal refers to it: to a value that conforms, or to none where
the type may be null. -/
structure Scope.Sound (schema : Schema) (scope : Scope) : Prop where
  conforms : ∀ {name type path value}, scope.typed name type path = .ok (some value) →
    InputConforms schema type value
  nullable : ∀ {name type path}, scope.typed name type path = .ok none → type.isNonNull = false

/-- What is supplied for a field as a literal conforms to its type. -/
theorem literalField_sound {schema : Schema} {scope : Scope} (hscope : scope.Sound schema)
    {deeper : TypeRef → Literal → InputPath → Coerced Json} (hdeeper : Sound schema deeper)
    {fields : List (String × Literal)} {field : InputValueDefinition} {path : InputPath}
    {value : Json} (h : literalField scope deeper fields field path = .ok (some value)) :
    InputConforms schema field.type value := by
  unfold literalField at h
  split at h
  · cases h
  · obtain ⟨given, hgiven, h⟩ := bind_eq_ok.1 h
    cases given with
    | some given =>
      cases h
      exact hscope.conforms hgiven
    | none =>
      simp only at h
      split at h
      · cases h
      · cases h
        exact .null (hscope.nullable hgiven)
  · obtain ⟨given, hgiven, h⟩ := bind_eq_ok.1 h
    cases h
    exact hdeeper _ _ _ _ hgiven

/-- What a literal is read as is settled, if whatever lies inside it conforms. -/
theorem literalAt_sound {schema : Schema} {scope : Scope} (hscope : scope.Sound schema)
    {deeper : TypeRef → Literal → InputPath → Coerced Json} (hdeeper : Sound schema deeper)
    (type : TypeRef) (literal : Literal) (path : InputPath) {result : Json}
    (h : literalAt schema scope deeper type literal path = .ok result) :
    Settled schema type (literal = .null ∨ ∃ name, literal = .var name) result := by
  fun_induction literalAt schema scope deeper type literal path generalizing result with
  | case1 type name path =>
    obtain ⟨given, hgiven, h⟩ := bind_eq_ok.1 h
    cases h
    refine ⟨?_, fun known => absurd (Or.inr ⟨name, rfl⟩) known⟩
    cases given with
    | some value => exact hscope.conforms hgiven
    | none => exact .null (hscope.nullable hgiven)
  | case3 inner literal path notVar notNull ih =>
    have known : ¬ (literal = .null ∨ ∃ name, literal = .var name) := by
      rintro (isNull | ⟨name, isVar⟩)
      · exact notNull isNull
      · exact notVar name isVar
    obtain ⟨conforms, present⟩ := ih h
    exact ⟨.nonNull conforms (present known), fun _ => present known⟩
  | case4 type path notNonNull =>
    cases h
    exact ⟨.null (TypeRef.isNonNull_eq_false notNonNull), fun known => absurd (Or.inl rfl) known⟩
  | case5 item values path =>
    obtain ⟨results, hresults, h⟩ := bind_eq_ok.1 h
    cases h
    refine .of_present (.list ?_) Json.noConfusion
    exact items_sound (fun value path result => hdeeper item value path result) hresults
  | case7 scalar literal path notVar notNull value hvalue =>
    cases h
    have reads := reads_of_builtinLiteral? hvalue
    exact .of_present (.builtin reads) reads.ne_null
  | case9 name path type symbol htype notVar notNull =>
    exact enumSymbol_sound htype h
  | case10 name path type fields htype notVar notNull =>
    obtain ⟨members, hmembers, h⟩ := bind_eq_ok.1 h
    cases h
    refine .of_present (.object htype ?_) Json.noConfusion
    exact inputFields_sound (fun field path value => literalField_sound hscope hdeeper) hdeeper
      hmembers
  | case11 name path declared literal htype notVar notNull =>
    exact ⟨.scalar htype, fun _ _ => ⟨declared, htype⟩⟩
  | case2 | case6 | case8 | case12 => cases h

/-- What a constant is read as conforms to its type. -/
theorem coerceConstant_sound (schema : Schema) (levels : Nat) :
    Sound schema (coerceConstant schema levels) := by
  have noVariables : Scope.constants.Sound schema := by
    constructor
    · intro name type path value h
      cases h
    · intro name type path h
      cases h
  induction levels with
  | zero =>
    intro type literal path result h
    cases h
  | succ levels ih =>
    intro type literal path result h
    exact (literalAt_sound noVariables ih type literal path h).1

/-- What a value is read as is settled, if whatever lies inside it conforms. -/
theorem jsonAt_sound {schema : Schema} {deeper : TypeRef → Json → InputPath → Coerced Json}
    {default : TypeRef → Literal → InputPath → Coerced Json} (hdeeper : Sound schema deeper)
    (hdefault : Sound schema default) (type : TypeRef) (value : Json) (path : InputPath)
    {result : Json} (h : jsonAt schema deeper default type value path = .ok result) :
    Settled schema type (value = .null) result := by
  fun_induction jsonAt schema deeper default type value path generalizing result with
  | case2 inner value path present ih =>
    obtain ⟨conforms, known⟩ := ih h
    exact ⟨.nonNull conforms (known present), fun _ => known present⟩
  | case3 type path notNonNull =>
    cases h
    exact ⟨.null (TypeRef.isNonNull_eq_false notNonNull), fun known => absurd rfl known⟩
  | case4 item values path =>
    obtain ⟨results, hresults, h⟩ := bind_eq_ok.1 h
    cases h
    refine .of_present (.list ?_) Json.noConfusion
    exact items_sound (fun value path result => hdeeper item value path result) hresults
  | case6 scalar value path present output houtput =>
    cases h
    have reads := reads_of_builtinJson? houtput
    exact .of_present (.builtin reads) reads.ne_null
  | case8 name path type symbol htype present => exact enumSymbol_sound htype h
  | case9 name path type members htype present =>
    obtain ⟨results, hresults, h⟩ := bind_eq_ok.1 h
    cases h
    refine .of_present (.object htype ?_) Json.noConfusion
    refine inputFields_sound (fun field path value h => ?_) hdefault hresults
    simp +zetaDelta only at h
    split at h
    · obtain ⟨own, hown, h⟩ := bind_eq_ok.1 h
      cases h
      exact hdeeper _ _ _ _ hown
    · cases h
  | case10 name path declared value htype present =>
    cases h
    exact .of_present (.scalar htype) present
  | case1 | case5 | case7 | case11 => cases h

/-- What the value of a variable is read as conforms to its type. -/
theorem coerceJson_sound (schema : Schema) (levels : Nat) :
    Sound schema (coerceJson schema levels) := by
  induction levels with
  | zero =>
    intro type value path result h
    cases h
  | succ levels ih =>
    intro type value path result h
    exact (jsonAt_sound ih (coerceConstant_sound schema levels) type value path h).1

/-- A variable is read to a value that conforms, from the request or from its default. It is read to
none only where both its own type and the type that is expected may be null. -/
theorem typed_sound (schema : Schema) (vars : Variables) : (vars.scope schema).Sound schema := by
  constructor
  · intro name type path value h
    obtain ⟨definition, -, h⟩ := bind_eq_ok.1 h
    split at h
    · obtain ⟨own, hown, h⟩ := bind_eq_ok.1 h
      cases h
      exact coerceJson_sound schema _ _ _ _ _ hown
    · split at h
      · obtain ⟨own, hown, h⟩ := bind_eq_ok.1 h
        cases h
        exact coerceConstant_sound schema _ _ _ _ _ hown
      · split at h
        · cases h
        · cases h
  · intro name type path h
    obtain ⟨definition, -, h⟩ := bind_eq_ok.1 h
    split at h
    · obtain ⟨own, hown, h⟩ := bind_eq_ok.1 h
      cases h
    · split at h
      · obtain ⟨own, hown, h⟩ := bind_eq_ok.1 h
        cases h
      · split at h
        · cases h
        · next optional =>
          rw [Bool.or_eq_true, not_or] at optional
          exact eq_false_of_ne_true optional.2

/-- What a literal with variables is read as conforms to its type. -/
theorem coerceLiteral_sound (schema : Schema) (vars : Variables) (levels : Nat) :
    Sound schema (coerceLiteral schema vars levels) := by
  induction levels with
  | zero =>
    intro type literal path result h
    cases h
  | succ levels ih =>
    intro type literal path result h
    exact (literalAt_sound (typed_sound schema vars) ih type literal path h).1

/-- An argument is read to a value that conforms to its type. It is left out only if it may be null
and has no default. -/
theorem coerceArgument_sound {schema : Schema} {vars : Variables}
    {supplied : List (String × Literal)} {argument : InputValueDefinition} {value : Option Json}
    (h : coerceArgument schema vars supplied argument = .ok value) :
    (∀ result, value = some result → InputConforms schema argument.type result) ∧
      (value = none → argument.type.isNonNull = false ∧ argument.default = none) := by
  -- whatever is read from a literal is there and conforms
  have read : ∀ {literal : Literal} {path : InputPath},
      (do return some (← coerceLiteral schema vars allLevels argument.type literal path)) =
        Except.ok value →
      (∀ result, value = some result → InputConforms schema argument.type result) ∧
        (value = none → argument.type.isNonNull = false ∧ argument.default = none) := by
    intro literal path h
    obtain ⟨own, hown, h⟩ := bind_eq_ok.1 h
    cases h
    have conforms := coerceLiteral_sound schema vars _ _ _ _ _ hown
    exact ⟨fun result same => Option.some.inj same ▸ conforms, fun missing => by cases missing⟩
  unfold coerceArgument at h
  simp only at h
  split at h
  · next name default _ =>
    obtain ⟨given, hgiven, h⟩ := bind_eq_ok.1 h
    have sound := typed_sound schema vars
    split at h
    · cases h
      refine ⟨fun result same => ?_, fun missing => by cases missing⟩
      cases same
      exact sound.conforms hgiven
    · exact read h
    · cases h
      refine ⟨fun result same => ?_, fun missing => by cases missing⟩
      cases same
      exact .null (sound.nullable hgiven)
  · exact read h
  · exact read h
  · next noDefault =>
    split at h
    · cases h
    · next optional =>
      cases h
      exact ⟨by simp, fun _ => ⟨eq_false_of_ne_true optional, noDefault⟩⟩

/-- The arguments of a field conform to its declaration. -/
theorem coerceDeclared_sound {schema : Schema} {vars : Variables}
    {supplied : List (String × Literal)} {declared : List InputValueDefinition}
    {arguments : Json.Object} (h : coerceDeclared schema vars supplied declared = .ok arguments) :
    InputFields schema declared arguments := by
  induction declared generalizing arguments with
  | nil =>
    cases h
    exact .nil
  | cons argument rest ih =>
    obtain ⟨value, hvalue, h⟩ := bind_eq_ok.1 h
    obtain ⟨others, hothers, h⟩ := bind_eq_ok.1 h
    obtain ⟨conforms, missing⟩ := coerceArgument_sound hvalue
    cases value with
    | some value =>
      cases h
      exact .given (conforms value rfl) (ih hothers)
    | none =>
      cases h
      exact .leftOut (missing rfl).1 (missing rfl).2 (ih hothers)

/-- Arguments that are read conform: each is that of a declared argument, in the order of their
declaration, and conforms to its type; and those that may not be null are there. -/
theorem coerceArguments_conforms {schema : Schema} {vars : Variables} {typeName : String}
    {field : FieldDefinition} {supplied : List (String × Literal)} {arguments : Json.Object}
    (h : coerceArguments schema vars typeName field supplied = .ok arguments) :
    (arguments.map Prod.fst).Sublist (field.arguments.map (·.name)) ∧
      (∀ argument ∈ field.arguments, argument.type.isNonNull = true →
        ∃ value, (argument.name, value) ∈ arguments ∧ InputConforms schema argument.type value) ∧
      InputFields schema field.arguments arguments := by
  unfold coerceArguments at h
  split at h
  · cases h
  · have fields := coerceDeclared_sound h
    exact ⟨fields.keys_sublist, fun argument declared strict =>
      fields.exists_member declared (Or.inl strict), fields⟩

/-- An input type with a default, a list and an enum, and a field that takes it. -/
def sampleSchema : Schema where
  types :=
    [.enum { name := "Order", values := ["ASC", "DESC"] },
      .inputObject
        { name := "Filter"
          fields :=
            [{ name := "limit", type := .nonNull (.builtin .int), default := some (.int "10") },
              { name := "tags", type := .list (.nonNull (.builtin .string)), default := none },
              { name := "order", type := .named "Order", default := none }] }]
  queryRoot := "Query"
  mutationRoot := none

/-- The field of `sampleSchema` that takes arguments. -/
def sampleField : FieldDefinition where
  name := "notes"
  type := .builtin .string
  arguments :=
    [{ name := "filter", type := .nonNull (.named "Filter"), default := none },
      { name := "ids", type := .list (.builtin .id), default := none }]

/-- A variable that is given stands in a list, one that is not given leaves a null, and the default
of the schema fills in what is left out. -/
theorem coerceArguments_conforms_sample :
    let vars : Variables :=
      { definitions := [{ name := "tag", type := .nonNull (.builtin .string), default := none },
          { name := "order", type := .named "Order", default := none }]
        values := [("tag", .string "urgent")] }
    let supplied : List (String × Literal) :=
      [("filter", .object [("order", .var "order"), ("tags", .list [.var "tag"])])]
    let arguments : Json.Object :=
      [("filter", .object [("limit", .ofInt 10), ("tags", .array [.string "urgent"]),
        ("order", .null)])]
    coerceArguments sampleSchema vars "Query" sampleField supplied = .ok arguments ∧
      InputFields sampleSchema sampleField.arguments arguments := by
  intro vars supplied arguments
  have read : coerceArguments sampleSchema vars "Query" sampleField supplied = .ok arguments := by
    rfl
  exact ⟨read, (coerceArguments_conforms read).2.2⟩

end Coercion

end GraphQL
