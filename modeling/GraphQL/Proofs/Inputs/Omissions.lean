import Mathlib
import GraphQL.Proofs.Inputs.Uses
import GraphQL.Schema.Build

/-!
# Variables that are absent

A variable that may be null, has no default and is given no value is absent. Where it stands for an
argument or an input field that may be null and has a default, it is read as if it had been left out
(`Coercion.coerceArguments_absent`). Where the type is non-null it is refused, although the default
of the schema would do.
-/

set_option autoImplicit false

namespace GraphQL

open Coercion Checks

namespace Variables

variable {vars : Variables} {name : String}

/-- The declared type of a variable may be null, there is no default, and the request gives no
value. -/
def Absent (vars : Variables) (name : String) : Prop :=
  ∃ declared, vars.definition name = .ok declared ∧ declared.type.isNonNull = false ∧
    declared.default = none ∧ Json.Object.get? vars.values name = none

/-- Where null may stand an absent variable has no value, which is no error. -/
theorem Absent.typed_of_nullable (absent : vars.Absent name) {type : TypeRef}
    (nullable : type.isNonNull = false) (schema : Schema) (path : InputPath) :
    vars.typed schema name type path = .ok none := by
  obtain ⟨declared, known, optional, noDefault, missing⟩ := absent
  rw [typed_of_missing known noDefault missing, optional, nullable]
  rfl

/-- Where null may not stand an absent variable is an error. -/
theorem Absent.typed_of_nonNull (absent : vars.Absent name) {type : TypeRef}
    (nonNull : type.isNonNull = true) (schema : Schema) (path : InputPath) :
    ∃ declared, vars.typed schema name type path = .error (.missingVariable name declared) := by
  obtain ⟨declared, known, -, noDefault, missing⟩ := absent
  refine ⟨declared.type, ?_⟩
  rw [typed_of_missing known noDefault missing, nonNull, Bool.or_true, if_pos rfl]

end Variables

namespace Coercion

mutual

/-- A literal of some type, and what is left of it when absent variables are left out that stand for
fields of objects, at any depth. -/
inductive Omits (schema : Schema) (vars : Variables) : TypeRef → Literal → Literal → Prop
  | same {type : TypeRef} {literal : Literal} : Omits schema vars type literal literal
  | nonNull {inner : TypeRef} {literal left : Literal}
    (inside : Omits schema vars inner literal left) :
    Omits schema vars (.nonNull inner) literal left
  | list {item : TypeRef} {pairs : List (Literal × Literal)}
    (inside : ∀ pair ∈ pairs, Omits schema vars item pair.1 pair.2) :
    Omits schema vars (.list item) (.list (pairs.map Prod.fst)) (.list (pairs.map Prod.snd))
  | object {typeName : String} {type : InputObjectType} {fields left : List (String × Literal)}
    (found : schema.type? typeName = some (.inputObject type))
    (inside : ∀ field ∈ type.fields,
      OmitsAt schema vars field (given? fields field.name) (given? left field.name)) :
    Omits schema vars (.named typeName) (.object fields) (.object left)

/-- What is given for an argument or a field, and what is left of it. An absent variable may be left
out if there is a default and the type may be null. -/
inductive OmitsAt (schema : Schema) (vars : Variables) :
    InputValueDefinition → Option Literal → Option Literal → Prop
  | missing {input : InputValueDefinition} : OmitsAt schema vars input none none
  | kept {input : InputValueDefinition} {literal left : Literal}
    (inside : Omits schema vars input.type literal left) :
    OmitsAt schema vars input (some literal) (some left)
  | omitted {input : InputValueDefinition} {name : String} (absent : vars.Absent name)
    (default : input.default.isSome = true) (nullable : input.type.isNonNull = false) :
    OmitsAt schema vars input (some (.var name)) none

end

/-- The arguments that are supplied to a field, and what is left of them when absent variables are
left out. Arguments that are not declared stay as they are. -/
structure OmitsIn (schema : Schema) (vars : Variables) (field : FieldDefinition)
    (supplied left : List (String × Literal)) : Prop where
  undeclared : supplied.filter (fun entry => (field.argument? entry.1).isNone) =
    left.filter fun entry => (field.argument? entry.1).isNone
  declared : ∀ argument ∈ field.arguments,
    OmitsAt schema vars argument (given? supplied argument.name) (given? left argument.name)

variable {schema : Schema} {vars : Variables}

/-- Leaving something out changes neither nulls nor variables. -/
theorem Omits.eq_or_composite {type : TypeRef} {literal left : Literal}
    (omits : Omits schema vars type literal left) :
    literal = left ∨
      ((∀ name, literal ≠ .var name) ∧ literal ≠ .null) ∧ (∀ name, left ≠ .var name) ∧
        left ≠ .null := by
  induction type generalizing literal left with
  | nonNull inner ih =>
    cases omits with
    | same => exact .inl rfl
    | nonNull inside => exact ih inside
  | builtin scalar =>
    cases omits
    exact .inl rfl
  | list item =>
    cases omits with
    | same => exact .inl rfl
    | list => exact .inr (by simp)
  | named typeName =>
    cases omits with
    | same => exact .inl rfl
    | object => exact .inr (by simp)

section Reading

variable {deeper : TypeRef → Literal → InputPath → Coerced Json}

/-- A field of an object is read alike when an absent variable is left out. -/
theorem literalField_omits
    (alike : ∀ type literal left, Omits schema vars type literal left → ∀ path,
      deeper type literal path = deeper type left path)
    {field : InputValueDefinition} {fields left : List (String × Literal)}
    (omits : OmitsAt schema vars field (given? fields field.name) (given? left field.name))
    (path : InputPath) :
    literalField (vars.scope schema) deeper fields field path =
      literalField (vars.scope schema) deeper left field path := by
  generalize given : given? fields field.name = before at omits
  generalize given' : given? left field.name = after at omits
  cases omits with
  | missing =>
    unfold given? at given given'
    rw [literalField, literalField, given, given']
  | kept inside =>
    rcases inside.eq_or_composite with rfl | ⟨⟨notVar, -⟩, notVar', -⟩
    · unfold given? at given given'
      rw [literalField, literalField, given, given']
    · rw [literalField_of_given given notVar, literalField_of_given given' notVar',
        alike _ _ _ inside]
  | omitted absent default nullable =>
    unfold given? at given given'
    rw [literalField, literalField, given, given']
    simp only [Variables.scope, absent.typed_of_nullable nullable, default]
    rfl

/-- A literal is read alike when absent variables are left out, if what is inside it is. -/
theorem literalAt_omits
    (alike : ∀ type literal left, Omits schema vars type literal left → ∀ path,
      deeper type literal path = deeper type left path)
    {type : TypeRef} {literal left : Literal} (omits : Omits schema vars type literal left)
    (path : InputPath) :
    literalAt schema (vars.scope schema) deeper type literal path =
      literalAt schema (vars.scope schema) deeper type left path := by
  induction type generalizing literal left with
  | nonNull inner ih =>
    rcases omits.eq_or_composite with rfl | ⟨⟨notVar, notNull⟩, notVar', notNull'⟩
    · rfl
    · cases omits with
      | same => rfl
      | nonNull inside =>
        rw [literalAt_nonNull notVar notNull, literalAt_nonNull notVar' notNull', ih inside]
  | builtin scalar =>
    cases omits
    rfl
  | list item =>
    cases omits with
    | same => rfl
    | list inside =>
      rw [literalAt, literalAt, items_map, items_map, items_eq_of_forall fun pair member =>
        alike _ _ _ (inside pair member)]
  | named typeName =>
    cases omits with
    | same => rfl
    | @object _ objectType fields rest found inside =>
      rw [literalAt_object found, literalAt_object found,
        inputFields_eq_of_forall fun field declared => fieldValue_congr
          (literalField_omits alike (inside field declared) _) fun _ _ _ => rfl]

end Reading

/-- A literal is read alike when absent variables are left out. -/
theorem coerceLiteral_omits (levels : Nat) {type : TypeRef} {literal left : Literal}
    (omits : Omits schema vars type literal left) (path : InputPath) :
    coerceLiteral schema vars levels type literal path =
      coerceLiteral schema vars levels type left path := by
  induction levels generalizing type literal left path with
  | zero => rfl
  | succ levels ih =>
    rw [coerceLiteral, coerceLiteral]
    exact literalAt_omits (fun _ _ _ inside place => ih inside place) omits path

/-- An argument is read alike when an absent variable is left out. -/
theorem coerceArgument_omits {argument : InputValueDefinition}
    {supplied left : List (String × Literal)}
    (omits : OmitsAt schema vars argument (given? supplied argument.name)
      (given? left argument.name)) :
    coerceArgument schema vars supplied argument = coerceArgument schema vars left argument := by
  generalize given : given? supplied argument.name = before at omits
  generalize given' : given? left argument.name = after at omits
  cases omits with
  | missing =>
    unfold given? at given given'
    rw [coerceArgument, coerceArgument, given, given']
  | kept inside =>
    rcases inside.eq_or_composite with rfl | ⟨⟨notVar, -⟩, notVar', -⟩
    · unfold given? at given given'
      rw [coerceArgument, coerceArgument, given, given']
    · rw [coerceArgument_of_given given notVar, coerceArgument_of_given given' notVar',
        coerceLiteral_omits allLevels inside]
  | omitted absent default nullable =>
    obtain ⟨literal, default⟩ := Option.isSome_iff_exists.1 default
    unfold given? at given given'
    rw [coerceArgument, coerceArgument, given, given']
    simp only [absent.typed_of_nullable nullable, default]
    rfl

/-- Arguments are read alike where each declared one is. -/
theorem coerceDeclared_congr {supplied left : List (String × Literal)}
    {declared : List InputValueDefinition}
    (h : ∀ argument ∈ declared, coerceArgument schema vars supplied argument =
      coerceArgument schema vars left argument) :
    coerceDeclared schema vars supplied declared = coerceDeclared schema vars left declared := by
  induction declared with
  | nil => rfl
  | cons first rest ih =>
    rw [coerceDeclared, coerceDeclared, h first List.mem_cons_self,
      ih fun argument member => h argument (List.mem_cons_of_mem first member)]

/-- Arguments are read alike when absent variables are left out. -/
theorem coerceArguments_omits {field : FieldDefinition} {supplied left : List (String × Literal)}
    (omits : OmitsIn schema vars field supplied left) (typeName : String) :
    coerceArguments schema vars typeName field supplied =
      coerceArguments schema vars typeName field left := by
  have undeclared : supplied.find? (fun entry => (field.argument? entry.1).isNone) =
      left.find? fun entry => (field.argument? entry.1).isNone := by
    rw [← List.head?_filter, omits.undeclared, List.head?_filter]
  rw [coerceArguments, coerceArguments, undeclared,
    coerceDeclared_congr fun argument declared =>
      coerceArgument_omits (omits.declared argument declared)]

section Filter

variable {entries : List (String × Literal)} {name : String}

/-- Nothing is given under a name whose entries are left out. -/
theorem given?_filter_self : given? (entries.filter fun entry => entry.1 != name) name = none := by
  simp [given?, List.find?_eq_none]

/-- Under other names the same is given as before. -/
theorem given?_filter_of_ne {other : String} (different : other ≠ name) :
    given? (entries.filter fun entry => entry.1 != name) other = given? entries other := by
  unfold given?
  congr 1
  induction entries with
  | nil => rfl
  | cons first rest ih =>
    by_cases gone : first.1 = name
    · rw [List.filter_cons_of_neg (by simp [gone]), ih,
        List.find?_cons_of_neg (by simp [gone, different.symm])]
    · rw [List.filter_cons_of_pos (by simp [gone]), List.find?_cons, List.find?_cons, ih]

/-- What is given may stay as it is. -/
theorem OmitsAt.refl (input : InputValueDefinition) (given : Option Literal) :
    OmitsAt schema vars input given given := by
  cases given with
  | none => exact .missing
  | some literal => exact .kept .same

/-- An absent variable is left out by leaving out what is given under its name. -/
theorem omitsAt_filter {inputs : List InputValueDefinition} (distinct : (inputs.map (·.name)).Nodup)
    {input : InputValueDefinition} (declared : input ∈ inputs)
    (given : given? entries input.name = some (.var name)) (absent : vars.Absent name)
    (default : input.default.isSome = true) (nullable : input.type.isNonNull = false) :
    ∀ other ∈ inputs, OmitsAt schema vars other (given? entries other.name)
      (given? (entries.filter fun entry => entry.1 != input.name) other.name) := by
  intro other declared'
  by_cases same : other.name = input.name
  · obtain rfl := List.inj_on_of_nodup_map distinct declared' declared same
    rw [given, given?_filter_self]
    exact .omitted absent default nullable
  · rw [given?_filter_of_ne same]
    exact .refl other _

/-- An argument that is given as an absent variable may be left out, if it has a default and may be
null. -/
theorem omitsIn_filter {field : FieldDefinition} (distinct : (field.arguments.map (·.name)).Nodup)
    {argument : InputValueDefinition} (declared : argument ∈ field.arguments)
    (given : given? entries argument.name = some (.var name)) (absent : vars.Absent name)
    (default : argument.default.isSome = true) (nullable : argument.type.isNonNull = false) :
    OmitsIn schema vars field entries (entries.filter fun entry => entry.1 != argument.name) := by
  refine ⟨?_, omitsAt_filter distinct declared given absent default nullable⟩
  rw [List.filter_filter]
  refine List.filter_congr fun entry _ => ?_
  by_cases same : entry.1 = argument.name
  · have known : (field.argument? entry.1).isNone = false := by
      rw [same, FieldDefinition.argument?, (find?_key_eq_some_iff distinct).2 ⟨declared, rfl⟩]
      rfl
    rw [known, Bool.false_and]
  · rw [bne_iff_ne.2 same, Bool.and_true]

end Filter

/-- Absent variables are read as if they had been left out, wherever there is a default and the type
may be null: for any number of arguments and fields of objects, at any depth, and for one argument
in particular. Where the type is non-null an absent variable is refused, also if there is a
default. -/
theorem coerceArguments_absent (schema : Schema) (vars : Variables) (typeName : String)
    (field : FieldDefinition) (supplied : List (String × Literal)) :
    (∀ left, OmitsIn schema vars field supplied left →
      coerceArguments schema vars typeName field supplied =
        coerceArguments schema vars typeName field left) ∧
    ((field.arguments.map (·.name)).Nodup → ∀ argument ∈ field.arguments, ∀ name,
      given? supplied argument.name = some (.var name) → vars.Absent name →
      argument.default.isSome = true →
        if argument.type.isNonNull then
          ∃ cause, coerceArguments schema vars typeName field supplied = .error cause
        else coerceArguments schema vars typeName field supplied =
          coerceArguments schema vars typeName field
            (supplied.filter fun entry => entry.1 != argument.name)) ∧
    ∀ name site, vars.Absent name → UsesIn schema name field supplied site → site.strict = true →
      ∃ cause, coerceArguments schema vars typeName field supplied = .error cause := by
  have refused : ∀ name site, vars.Absent name → UsesIn schema name field supplied site →
      site.strict = true →
        ∃ cause, coerceArguments schema vars typeName field supplied = .error cause := by
    intro name site absent uses strict
    cases read : coerceArguments schema vars typeName field supplied with
    | error cause => exact ⟨cause, rfl⟩
    | ok arguments =>
      obtain ⟨place, value, own⟩ := read_of_coerceArguments read uses
      cases site with
      | raw => cases strict
      | typed type =>
        obtain ⟨declared, missing⟩ := absent.typed_of_nonNull strict schema place
        cases missing.symm.trans own
  refine ⟨fun left omits => coerceArguments_omits omits typeName, ?_, refused⟩
  intro distinct argument declared name given absent default
  split
  · next nonNull => exact refused name _ absent ⟨argument, declared, _, given, .here⟩ nonNull
  · next nullable =>
    have omits : OmitsIn schema vars field supplied _ :=
      omitsIn_filter distinct declared given absent default (eq_false_of_ne_true nullable)
    exact coerceArguments_omits omits typeName

/-- Pages, which have a size and a start. -/
def pageType : InputObjectType where
  name := "Page"
  fields :=
    [{ name := "size", type := .builtin .int, default := some (.int "10") },
      { name := "start", type := .nonNull (.builtin .int), default := some (.int "0") }]

/-- A field that takes a page and a limit. -/
def pagedField : FieldDefinition where
  name := "notes"
  type := .builtin .int
  arguments :=
    [{ name := "page", type := .named "Page", default := none },
      { name := "limit", type := .nonNull (.builtin .int), default := some (.int "5") }]

/-- The text of a schema with pages. -/
def pagedText : String :=
  "type Query {notes(page: Page limit: Int! = 5): Int} input Page {size: Int = 10 start: Int! = 0}"

/-- The schema of `pagedText`. -/
def pagedSchema : Schema where
  types := BuiltinScalar.all.map .builtin ++
    [.object { name := "Query", fields := [pagedField] }, .inputObject pageType]
  queryRoot := "Query"
  mutationRoot := none

/-- The text is read as the schema with pages. -/
theorem parseWithin_pagedText : Schema.parseWithin 64 pagedText = .ok pagedSchema := by
  unfold pagedText
  cbv

/-- The variables of an operation that declares one, which the request gives no value. -/
def leftOpen : Variables where
  definitions := [{ name := "x", type := .builtin .int, default := none }]

/-- The variable has neither a value nor a default. -/
theorem absent_leftOpen : leftOpen.Absent "x" := ⟨_, rfl, rfl, rfl, rfl⟩

/-- The size of a page may be left open, the limit may not. -/
theorem coerceArguments_absent_paged :
    coerceArguments pagedSchema leftOpen "Query" pagedField
        [("page", .object [("size", .var "x")])] =
      .ok [("page", .object [("size", .ofInt 10), ("start", .ofInt 0)]), ("limit", .ofInt 5)] ∧
      ∃ cause, coerceArguments pagedSchema leftOpen "Query" pagedField [("limit", .var "x")] =
        .error cause := by
  constructor
  · have size : ∀ field ∈ pageType.fields, OmitsAt pagedSchema leftOpen field
        (given? [("size", .var "x")] field.name) (given? [] field.name) :=
      omitsAt_filter (by decide) (.head _) rfl absent_leftOpen rfl rfl
    have leftOut : OmitsIn pagedSchema leftOpen pagedField [("page", .object [("size", .var "x")])]
        [("page", .object [])] := by
      refine ⟨rfl, fun argument declared => ?_⟩
      simp only [pagedField, List.mem_cons, List.not_mem_nil, or_false] at declared
      rcases declared with rfl | rfl
      · exact .kept (.object rfl size)
      · exact .missing
    obtain ⟨same, -⟩ := coerceArguments_absent pagedSchema leftOpen "Query" pagedField
      [("page", .object [("size", .var "x")])]
    exact (same _ leftOut).trans rfl
  · obtain ⟨-, one, -⟩ := coerceArguments_absent pagedSchema leftOpen "Query" pagedField
      [("limit", .var "x")]
    exact one (by decide) _ (.tail _ (.head _)) "x" rfl absent_leftOpen rfl

/-- What has a default may be left out, but not left open where the type is non-null: neither an
argument nor a field of an object. -/
theorem paged_refused :
    Schema.parseWithin 64 pagedText = .ok pagedSchema ∧ leftOpen.Absent "x" ∧
    coerceArguments pagedSchema leftOpen "Query" pagedField [("limit", .var "x")] =
      .error (.missingVariable "x" (.builtin .int)) ∧
    coerceArguments pagedSchema leftOpen "Query" pagedField [] = .ok [("limit", .ofInt 5)] ∧
    coerceArguments pagedSchema leftOpen "Query" pagedField
        [("page", .object [("start", .var "x")])] = .error (.missingVariable "x" (.builtin .int)) ∧
    coerceArguments pagedSchema leftOpen "Query" pagedField [("page", .object [])] =
      .ok [("page", .object [("size", .ofInt 10), ("start", .ofInt 0)]), ("limit", .ofInt 5)] :=
  ⟨parseWithin_pagedText, absent_leftOpen, rfl, rfl, rfl, rfl⟩

end Coercion

end GraphQL
