import Mathlib
import GraphQL.Proofs.Inputs.Forms

/-!
# Literals and variables

An inline literal, or a part of one, can be moved into a variable: the document then names the
variable where the literal stood, and the request brings the JSON form of the literal as its value.
Where the literal was accepted, the arguments stay what they were
(`Coercion.coerceArguments_moved`).
-/

set_option autoImplicit false

namespace GraphQL

namespace Coercion

open Checks Literal
open Relation (ReflTransGen)

variable {schema : Schema} {vars : Variables}

/-- One literal in a value is moved into a variable, at a place where no declared scalar is met. -/
inductive Moves (schema : Schema) (vars : Variables) : TypeRef → Literal → Literal → Prop
  | moved {type : TypeRef} {literal : Literal} {value : Json} {name : String}
    {definition : VariableDefinition} (free : schema.ScalarFree type) (written : literal.Written)
    (form : literal.toJson? = some value) (known : vars.definition name = .ok definition)
    (given : Json.Object.get? vars.values name = some value) :
    Moves schema vars type literal (.var name)
  | nonNull {inner : TypeRef} {before after : Literal} (inside : Moves schema vars inner before after)
    (notVar : ∀ name, after ≠ .var name) : Moves schema vars (.nonNull inner) before after
  | item {item : TypeRef} (front rest : List Literal) {before after : Literal}
    (inside : Moves schema vars item before after) :
    Moves schema vars (.list item) (.list (front ++ before :: rest)) (.list (front ++ after :: rest))
  | field {name : String} {type : InputObjectType} {field : InputValueDefinition}
    (front rest : List (String × Literal)) {before after : Literal}
    (found : schema.type? name = some (.inputObject type)) (declared : field ∈ type.fields)
    (inside : Moves schema vars field.type before after) :
    Moves schema vars (.named name) (.object (front ++ (field.name, before) :: rest))
      (.object (front ++ (field.name, after) :: rest))

/-- One literal in the arguments of a field is moved into a variable. -/
inductive MovesIn (schema : Schema) (vars : Variables) (field : FieldDefinition) :
    List (String × Literal) → List (String × Literal) → Prop
  | argument {argument : InputValueDefinition} (front rest : List (String × Literal))
    {before after : Literal} (declared : argument ∈ field.arguments)
    (inside : Moves schema vars argument.type before after) :
    MovesIn schema vars field (front ++ (argument.name, before) :: rest)
      (front ++ (argument.name, after) :: rest)

namespace Moves

variable {type : TypeRef} {before after : Literal}

/-- What is moved into a variable, or holds what is, was no variable itself. -/
theorem before_ne_var (moves : Moves schema vars type before after) (name : String) :
    before ≠ .var name := by
  induction moves with
  | moved free written => exact written.ne_var name
  | nonNull _ _ ih => exact ih
  | item | field => exact Literal.noConfusion

/-- What a literal becomes by a move is not null. -/
theorem after_ne_null (moves : Moves schema vars type before after) : after ≠ .null := by
  induction moves with
  | nonNull _ _ ih => exact ih
  | moved | item | field => exact Literal.noConfusion

end Moves

/-- What is read of a literal is read with a variable in its place, and as what the variable gives
where it is used. -/
def Kept (schema : Schema) (vars : Variables) (levels : Nat) (type : TypeRef)
    (before after : Literal) : Prop :=
  ∀ path result, coerceLiteral schema vars levels type before path = .ok result →
    coerceLiteral schema vars levels type after path = .ok result ∧
      ∀ name, after = .var name → vars.typed schema name type path = .ok (some result)

namespace Kept

variable {before after : Literal}

/-- A variable gives what the literal is read as that it has the form of. -/
theorem of_variable (constants : schema.ConstantDefaults) (distinct : schema.DistinctFields)
    {type : TypeRef} {literal : Literal} {value : Json} {name : String}
    {definition : VariableDefinition} (free : schema.ScalarFree type) (written : literal.Written)
    (form : literal.toJson? = some value) (known : vars.definition name = .ok definition)
    (given : Json.Object.get? vars.values name = some value) {levels : Nat} (within : levels ≤ allLevels) :
    Kept schema vars levels type literal (.var name) := by
  intro path result read
  have form := coerceJson_of_coerceLiteral constants vars free written form read
  have typed : vars.typed schema name type path = .ok (some result) := by
    simp only [Variables.typed, known, given, coerceJson_of_le distinct form within]
    rfl
  obtain ⟨levels, rfl, -⟩ := coerceLiteral_eq_ok_iff.1 read
  refine ⟨?_, fun other same => ?_⟩
  · rw [coerceLiteral, literalAt]
    exact bind_eq_ok.2 ⟨some result, typed, rfl⟩
  · cases same
    exact typed

/-- What is kept at a type is kept at its non-null type, unless a variable stands there. -/
theorem nonNull {inner : TypeRef} {levels : Nat} (inside : Moves schema vars inner before after)
    (kept : Kept schema vars levels inner before after) (notVar : ∀ name, after ≠ .var name) :
    Kept schema vars levels (.nonNull inner) before after := by
  intro path result read
  refine ⟨?_, fun name same => absurd same (notVar name)⟩
  obtain ⟨rest, rfl, step⟩ := coerceLiteral_eq_ok_iff.1 read
  have present : before ≠ .null := by
    rintro rfl
    rw [literalAt] at step
    cases step
  rw [literalAt_nonNull inside.before_ne_var present] at step
  rw [coerceLiteral, literalAt_nonNull notVar inside.after_ne_null]
  exact (kept path result step).1

/-- What is kept in an item is kept in the list. -/
theorem item {item : TypeRef} {levels : Nat} (front rest : List Literal)
    (kept : Kept schema vars levels item before after) :
    Kept schema vars (levels + 1) (.list item) (.list (front ++ before :: rest))
      (.list (front ++ after :: rest)) := by
  intro path result read
  refine ⟨?_, fun name => Literal.noConfusion⟩
  rw [coerceLiteral, literalAt] at read
  obtain ⟨results, step, same⟩ := bind_eq_ok.1 read
  rw [coerceLiteral, literalAt]
  exact bind_eq_ok.2 ⟨results, items_replaced (fun place result own => (kept place result own).1) step,
    same⟩

/-- The field in which the literal stands is read as before. Where it is the variable itself that is
given for the field, the field takes what the variable gives. -/
theorem literalField_replaced {field : InputValueDefinition} {levels : Nat}
    (kept : Kept schema vars levels field.type before after) (notVar : ∀ name, before ≠ .var name)
    {fields fields' : List (String × Literal)} (first : given? fields field.name = some before)
    (now : given? fields' field.name = some after) {path : InputPath} {result : Option Json}
    (read : literalField (vars.scope schema) (coerceLiteral schema vars levels) fields field path =
      .ok result) :
    literalField (vars.scope schema) (coerceLiteral schema vars levels) fields' field path =
      .ok result := by
  rw [literalField_of_given first notVar] at read
  obtain ⟨own, read, same⟩ := map_eq_ok.1 read
  obtain ⟨here, typed⟩ := kept path own read
  by_cases isVar : ∃ name, after = .var name
  · obtain ⟨name, rfl⟩ := isVar
    rw [literalField_eq_match, now]
    cases same
    exact bind_eq_ok.2 ⟨some own, typed name rfl, rfl⟩
  · rw [literalField_of_given now (not_exists.1 isVar)]
    exact map_eq_ok.2 ⟨own, here, same⟩

/-- What is kept in a field is kept in the object. -/
theorem field (distinct : schema.DistinctFields) {name : String} {type : InputObjectType}
    {field : InputValueDefinition} {levels : Nat} (front rest : List (String × Literal))
    (found : schema.type? name = some (.inputObject type)) (declared : field ∈ type.fields)
    (kept : Kept schema vars levels field.type before after)
    (notVar : ∀ name, before ≠ .var name) :
    Kept schema vars (levels + 1) (.named name) (.object (front ++ (field.name, before) :: rest))
      (.object (front ++ (field.name, after) :: rest)) := by
  intro path result read
  refine ⟨?_, fun name => Literal.noConfusion⟩
  rw [coerceLiteral, literalAt_object found] at read
  obtain ⟨members, step, same⟩ := map_eq_ok.1 read
  rw [coerceLiteral, literalAt_object found]
  refine map_eq_ok.2 ⟨members, inputFields_agree (fun other listed value => ?_) step, same⟩
  refine fieldValue_agree (fun value => ?_) fun literal given place value => id
  rcases find?_replaced front rest field.name before after other.name with same | ⟨key, first, now⟩
  · unfold literalField
    rw [same]
    exact id
  · -- names are distinct, so that it is read at the type of the very field
    obtain rfl := List.inj_on_of_nodup_map (distinct name type found) declared listed key
    exact kept.literalField_replaced notVar first now

end Kept

/-- Moving a literal into a variable keeps what is read. -/
theorem Moves.kept (constants : schema.ConstantDefaults) (distinct : schema.DistinctFields)
    {type : TypeRef} {before after : Literal} (moves : Moves schema vars type before after)
    {levels : Nat} (within : levels ≤ allLevels) : Kept schema vars levels type before after := by
  induction moves generalizing levels with
  | moved free written form known given =>
    exact .of_variable constants distinct free written form known given within
  | nonNull inside notVar ih => exact .nonNull inside (ih within) notVar
  | item front rest inside ih =>
    cases levels with
    | zero => exact fun path result => nofun
    | succ levels => exact (ih (Nat.le_of_succ_le within)).item front rest
  | field front rest found declared inside ih =>
    cases levels with
    | zero => exact fun path result => nofun
    | succ levels =>
      exact (ih (Nat.le_of_succ_le within)).field distinct front rest found declared
        inside.before_ne_var

section Arguments

variable {vars' : Variables} {supplied supplied' : List (String × Literal)} {field : FieldDefinition}

/-- The arguments of a field are read to the same if each of them is, and the same are given. -/
theorem coerceArguments_agree (names : supplied'.map Prod.fst = supplied.map Prod.fst)
    (agree : ∀ argument ∈ field.arguments, ∀ value,
      coerceArgument schema vars supplied argument = .ok value →
      coerceArgument schema vars' supplied' argument = .ok value)
    {typeName : String} {arguments : Json.Object}
    (read : coerceArguments schema vars typeName field supplied = .ok arguments) :
    coerceArguments schema vars' typeName field supplied' = .ok arguments := by
  have declared : ∀ {declared : List InputValueDefinition} {arguments : Json.Object},
      (∀ argument ∈ declared, argument ∈ field.arguments) →
      coerceDeclared schema vars supplied declared = .ok arguments →
      coerceDeclared schema vars' supplied' declared = .ok arguments := by
    intro declared
    induction declared with
    | nil => exact fun _ read => read
    | cons first rest ih =>
      intro arguments listed read
      obtain ⟨here, there⟩ := List.forall_mem_cons.1 listed
      obtain ⟨value, own, read⟩ := bind_eq_ok.1 read
      obtain ⟨others, later, read⟩ := bind_eq_ok.1 read
      rw [coerceDeclared, agree first here value own, ih there later]
      exact read
  unfold coerceArguments at read ⊢
  split at read
  · cases read
  · next allKnown =>
    have allKnown' : supplied'.find? (fun entry => (field.argument? entry.1).isNone) = none := by
      rw [List.find?_eq_none] at allKnown ⊢
      intro entry given
      obtain ⟨other, given, same⟩ := List.mem_map.1 (names ▸ List.mem_map_of_mem given)
      exact same ▸ allKnown other given
    rw [allKnown']
    exact declared (fun _ => id) read

/-- The arguments that are supplied have the same names. -/
theorem MovesIn.names (moves : MovesIn schema vars field supplied supplied') :
    supplied'.map Prod.fst = supplied.map Prod.fst := by
  cases moves
  simp

/-- Moving a literal of an argument into a variable keeps the argument. -/
theorem coerceArgument_of_movesIn (constants : schema.ConstantDefaults)
    (distinct : schema.DistinctFields) (names : (field.arguments.map (·.name)).Nodup)
    (moves : MovesIn schema vars field supplied supplied') {argument : InputValueDefinition}
    (listed : argument ∈ field.arguments) {value : Option Json}
    (read : coerceArgument schema vars supplied argument = .ok value) :
    coerceArgument schema vars supplied' argument = .ok value := by
  cases moves with
  | @argument moved front rest before after declared inside =>
  rcases find?_replaced front rest moved.name before after argument.name with
    same | ⟨key, first, now⟩
  · unfold coerceArgument
    rw [same]
    exact read
  · obtain rfl := List.inj_on_of_nodup_map names declared listed key
    rw [coerceArgument_of_given first inside.before_ne_var] at read
    obtain ⟨own, read, same⟩ := map_eq_ok.1 read
    obtain ⟨here, typed⟩ := inside.kept constants distinct (Nat.le_refl _) _ _ read
    by_cases isVar : ∃ name, after = .var name
    · obtain ⟨name, rfl⟩ := isVar
      simp only [coerceArgument, now]
      cases same
      exact bind_eq_ok.2 ⟨some own, typed name rfl, rfl⟩
    · rw [coerceArgument_of_given now (not_exists.1 isVar)]
      exact map_eq_ok.2 ⟨own, here, same⟩

/-- Moving a literal into a variable keeps the arguments of a field. -/
theorem coerceArguments_of_movesIn (constants : schema.ConstantDefaults)
    (distinct : schema.DistinctFields) (names : (field.arguments.map (·.name)).Nodup)
    (moves : MovesIn schema vars field supplied supplied') {typeName : String}
    {arguments : Json.Object}
    (read : coerceArguments schema vars typeName field supplied = .ok arguments) :
    coerceArguments schema vars typeName field supplied' = .ok arguments := by
  exact coerceArguments_agree moves.names (fun argument listed value =>
    coerceArgument_of_movesIn constants distinct names moves listed) read

end Arguments

section Variables

variable {vars' : Variables}

/-- Two operations have the same variable under a name, and the same value for it. -/
def SameVariable (vars vars' : Variables) (name : String) : Prop :=
  vars.definition name = vars'.definition name ∧
    Json.Object.get? vars.values name = Json.Object.get? vars'.values name

/-- Where a variable is the same its typed value is. -/
theorem SameVariable.typed {name : String} (same : SameVariable vars vars' name) (schema : Schema)
    (type : TypeRef) (path : InputPath) :
    vars.typed schema name type path = vars'.typed schema name type path := by
  simp only [Variables.typed, same.1, same.2]

/-- Where a variable is the same its value as JSON is. -/
theorem SameVariable.raw {name : String} (same : SameVariable vars vars' name) :
    vars.raw name = vars'.raw name := by
  simp only [Variables.raw, same.1, same.2]

/-- A literal is read alike where its variables are the same. -/
theorem coerceLiteral_congr (constants : schema.ConstantDefaults) {levels : Nat} {type : TypeRef}
    {literal : Literal} (same : ∀ name, literal.Holds name → SameVariable vars vars' name)
    {path : InputPath} :
    coerceLiteral schema vars levels type literal path =
      coerceLiteral schema vars' levels type literal path := by
  induction levels generalizing type literal path with
  | zero => rfl
  | succ levels ih =>
    rw [coerceLiteral, coerceLiteral]
    refine literalAt_congr type literal path ?_ ?_ ?_ ?_
    · exact fun name holds type path => (same name holds).typed schema type path
    · exact fun name holds => (same name holds).raw
    · exact fun part inside type path => ih fun name holds => same name (holds.of_inside inside)
    · exact fun part default type path =>
        ih fun name holds => absurd holds (constants.fieldDefault default name)

/-- An argument is read alike where the variables in what is supplied are the same. -/
theorem coerceArgument_congr (constants : schema.ConstantDefaults) {supplied : List (String × Literal)}
    (same : ∀ entry ∈ supplied, ∀ name, entry.2.Holds name → SameVariable vars vars' name)
    {argument : InputValueDefinition} (constant : argument.ConstantDefault) :
    coerceArgument schema vars supplied argument =
      coerceArgument schema vars' supplied argument := by
  have default : ∀ literal, argument.default = some literal → ∀ path,
      coerceLiteral schema vars allLevels argument.type literal path =
        coerceLiteral schema vars' allLevels argument.type literal path :=
    fun literal given path =>
      coerceLiteral_congr constants fun name holds => absurd holds (constant literal given name)
  have inside : ∀ literal, given? supplied argument.name = some literal → ∀ name,
      literal.Holds name → SameVariable vars vars' name := by
    intro literal given name holds
    obtain ⟨entry, found, rfl⟩ := Option.map_eq_some_iff.1 given
    exact same entry (List.mem_of_find?_eq_some found) name holds
  cases given : given? supplied argument.name with
  | none =>
    unfold given? at given
    unfold coerceArgument
    rw [given]
    cases own : argument.default with
    | none => rfl
    | some literal => simp only [default literal own]
  | some literal =>
    by_cases isVar : ∃ name, literal = .var name
    · obtain ⟨name, rfl⟩ := isVar
      have typed := (inside _ given name .here).typed schema argument.type (.root argument.name)
      unfold given? at given
      unfold coerceArgument
      simp only [given, typed]
      refine bind_congr fun value => ?_
      cases value with
      | some value => rfl
      | none =>
        cases own : argument.default with
        | none => rfl
        | some literal => simp only [default literal own]
    · rw [coerceArgument_of_given given (not_exists.1 isVar),
        coerceArgument_of_given given (not_exists.1 isVar),
        coerceLiteral_congr constants (inside literal given)]

end Variables

/-- A literal and its JSON form are read to the same, and so a literal that is accepted may as well
come in a variable.

Where no declared scalar is met, a literal without variables has a JSON form, and what the literal
is read as the form is read as, at the same type and with the same levels. So the arguments of a
field are the same when any of the literals in them, or any parts of these, have been moved into
variables whose values the request gives, and the other variables are what they were. -/
theorem coerceArguments_moved {limit : Nat} {text : String} {schema : Schema}
    (accepted : Schema.parseWithin limit text = .ok schema) :
    (∀ type, schema.ScalarFree type → ∀ literal : Literal, literal.Written →
      ∃ value, literal.toJson? = some value ∧ ∀ vars levels path result,
        coerceLiteral schema vars levels type literal path = .ok result →
          coerceJson schema levels type value path = .ok result) ∧
    ∀ typeName object field, schema.object? typeName = some object → field ∈ object.fields →
      ∀ vars vars' supplied supplied',
        (∀ entry ∈ supplied, ∀ name, entry.2.Holds name → SameVariable vars vars' name) →
        ReflTransGen (MovesIn schema vars' field) supplied supplied' →
        ∀ arguments, coerceArguments schema vars typeName field supplied = .ok arguments →
          coerceArguments schema vars' typeName field supplied' = .ok arguments := by
  have constants := Schema.constantDefaults_of_parseWithin accepted
  have distinct := Schema.distinctFields_of_parseWithin accepted
  constructor
  · intro type free literal written
    obtain ⟨value, form⟩ := written.exists_toJson?
    exact ⟨value, form, fun vars levels path result =>
      coerceJson_of_coerceLiteral constants vars free written form⟩
  · intro typeName object field found ofType vars vars' supplied supplied' same moves arguments read
    have member := (Schema.mem_of_type? (Schema.object?_eq_some_iff.1 found)).1
    have names := (Schema.distinctParts_of_parseWithin accepted member).2 field ofType
    induction moves with
    | refl =>
      refine coerceArguments_agree rfl (fun argument listed value own => ?_) read
      rwa [← coerceArgument_congr constants same (constants _ member argument (.argument ofType listed))]
    | tail _ step ih => exact coerceArguments_of_movesIn constants distinct names step ih

/-- How a filter may be ordered. -/
def filterOrder : InputValueDefinition where
  name := "order"
  type := .named "Order"
  default := none

/-- Filters, which may have an order and have a least value. -/
def filterType : InputObjectType where
  name := "Filter"
  fields :=
    [filterOrder,
      { name := "least", type := .nonNull (.builtin .float), default := some (.float "0.5") }]

/-- The filter that a field takes. -/
def filterArgument : InputValueDefinition where
  name := "filter"
  type := .nonNull (.named "Filter")
  default := none

/-- The identifiers that a field takes. -/
def idsArgument : InputValueDefinition where
  name := "ids"
  type := .list (.nonNull (.builtin .id))
  default := none

/-- A field that takes a filter and a list of identifiers. -/
def filteredField : FieldDefinition where
  name := "notes"
  type := .builtin .int
  arguments := [filterArgument, idsArgument]

/-- The text of a schema with filters. -/
def filteredText : String :=
  "type Query {notes(filter: Filter! ids: [ID!]): Int} " ++
    "input Filter {order: Order least: Float! = 0.5} enum Order {ASC DESC}"

/-- The schema of `filteredText`. -/
def filteredSchema : Schema where
  types := BuiltinScalar.all.map .builtin ++
    [.object { name := "Query", fields := [filteredField] },
      .inputObject filterType,
      .enum { name := "Order", values := ["ASC", "DESC"] }]
  queryRoot := "Query"
  mutationRoot := none

/-- The text is that of the schema of filters. -/
theorem parseWithin_filteredText : Schema.parseWithin 64 filteredText = .ok filteredSchema := by
  unfold filteredText
  cbv

/-- A schema that declares no scalars has types without declared scalars only. -/
theorem scalarFree_of_no_scalar {schema : Schema}
    (noScalar : ∀ declared, TypeDefinition.scalar declared ∉ schema.types) (type : TypeRef) :
    schema.ScalarFree type :=
  fun _ declared _ found => noScalar declared (Schema.mem_of_type? found).1

/-- An enum symbol inside an object and a whole list are moved into variables. -/
theorem coerceArguments_moved_filtered :
    let vars : Variables :=
      { definitions := [{ name := "order", type := .named "Order", default := none },
          { name := "ids", type := .list (.builtin .id), default := none }]
        values := [("order", .string "DESC"), ("ids", .array [.ofInt 7, .string "x"])] }
    let arguments : Json.Object :=
      [("filter", .object [("order", .string "DESC"), ("least", .number (.float (.nearest 2)))]),
        ("ids", .array [.string "7", .string "x"])]
    coerceArguments filteredSchema {} "Query" filteredField
        [("filter", .object [("least", .int "2"), ("order", .enum "DESC")]),
          ("ids", .list [.int "7", .string "x"])] = .ok arguments ∧
      coerceArguments filteredSchema vars "Query" filteredField
        [("filter", .object [("least", .int "2"), ("order", .var "order")]), ("ids", .var "ids")] =
        .ok arguments := by
  intro vars arguments
  have read : coerceArguments filteredSchema {} "Query" filteredField
      [("filter", .object [("least", .int "2"), ("order", .enum "DESC")]),
        ("ids", .list [.int "7", .string "x"])] = .ok arguments := by
    cbv
  have free : ∀ type, filteredSchema.ScalarFree type :=
    scalarFree_of_no_scalar (by simp [filteredSchema, BuiltinScalar.all])
  refine ⟨read, ?_⟩
  obtain ⟨-, moved⟩ := coerceArguments_moved parseWithin_filteredText
  refine moved "Query" { name := "Query", fields := [filteredField] } filteredField rfl (.head _)
    {} vars _ _ ?_ ?_ arguments read
  · have noVariables : ∀ entry ∈ [("filter", Literal.object [("least", .int "2"),
        ("order", .enum "DESC")]), ("ids", .list [.int "7", .string "x"])], entry.2.Constant := by
      simp only [List.forall_mem_cons, List.not_mem_nil, false_implies, implies_true, and_true]
      constructor
      · refine constant_object ?_
        simp only [List.forall_mem_cons, List.not_mem_nil, false_implies, implies_true, and_true]
        exact ⟨by rintro _ ⟨⟩, by rintro _ ⟨⟩⟩
      · refine constant_list ?_
        simp only [List.forall_mem_cons, List.not_mem_nil, false_implies, implies_true, and_true]
        exact ⟨by rintro _ ⟨⟩, by rintro _ ⟨⟩⟩
    exact fun entry given name holds => absurd holds (noVariables entry given name)
  · have order : Moves filteredSchema vars filterOrder.type (.enum "DESC") (.var "order") :=
      .moved (free _) .enum rfl rfl rfl
    have filter : Moves filteredSchema vars filterArgument.type
        (.object [("least", .int "2"), ("order", .enum "DESC")])
        (.object [("least", .int "2"), ("order", .var "order")]) := by
      have declared : filterOrder ∈ filterType.fields := .head _
      exact .nonNull (.field [("least", .int "2")] [] rfl declared order) fun _ => Literal.noConfusion
    have ids : Moves filteredSchema vars idsArgument.type (.list [.int "7", .string "x"])
        (.var "ids") := by
      have seven : Written (.int "7") := .int (by decide : Decimal.fitsSigned 7 = true)
      refine .moved (free _) (.list ?_) ?_ rfl rfl
      · simp only [List.forall_mem_cons, List.not_mem_nil, false_implies, implies_true, and_true]
        exact ⟨seven, .string⟩
      · cbv
    exact .tail (.single (.argument [] [_] (.head _) filter))
      (.argument [_] [] (.tail _ (.head _)) ids)

end Coercion

end GraphQL
