import Mathlib
import GraphQL.Proofs.Inputs.Limits

/-!
# Defaults of input fields

When a schema is accepted each default is read by itself, with all levels. When an input object
leaves a field out the default is read inside the object, with one level less. So the object is read
just if each default that fills it in fits the levels that are left, and else it is nested too
deeply (`Coercion.coerceArgument_object`).
-/

set_option autoImplicit false

namespace GraphQL

/-- Each default of an accepted schema is read by itself. -/
theorem Schema.coerceDefault_of_parseWithin {schema : Schema} {limit : Nat} {text : String}
    (accepted : parseWithin limit text = .ok schema) {type : TypeDefinition}
    (member : type ∈ schema.types) {value : InputValueDefinition} (takes : type.Takes value)
    {literal : Literal} (default : value.default = some literal) :
    ∃ result, Coercion.coerceDefault schema value.name value.type literal = .ok result := by
  obtain ⟨source, -, wellFormed, rfl⟩ :=
    (parseWithin_ok_iff_wellFormedSchema limit text schema).1 accepted
  rcases mem_schema_types_iff.1 member with ⟨scalar, rfl⟩ | declared
  · cases takes
  · obtain ⟨result, read⟩ := wellFormed.defaults type declared value takes literal default
    rw [Coercion.coerceLiteral_empty] at read
    exact ⟨result, read⟩

namespace Coercion

open Checks

variable {schema : Schema} {vars : Variables} {supplied : List (String × Literal)}
  {argument : InputValueDefinition}

/-- An input object is supplied for an argument, of which `given` reads the fields: as a literal, as
the value of a variable or as the default of one. -/
inductive SuppliesObject (schema : Schema) (vars : Variables) (supplied : List (String × Literal))
    (argument : InputValueDefinition) :
    (InputValueDefinition → InputPath → Coerced (Option Json)) → Prop
  | literal {fields : List (String × Literal)}
    (given : given? supplied argument.name = some (.object fields)) :
    SuppliesObject schema vars supplied argument
      (literalField (vars.scope schema) (coerceLiteral schema vars maxInputDepth) fields)
  | value {name : String} {definition : VariableDefinition} {members : Json.Object}
    (given : given? supplied argument.name = some (.var name))
    (known : vars.definition name = .ok definition)
    (value : Json.Object.get? vars.values name = some (.object members)) :
    SuppliesObject schema vars supplied argument
      (jsonField (coerceJson schema maxInputDepth) members)
  | default {name : String} {definition : VariableDefinition} {fields : List (String × Literal)}
    (given : given? supplied argument.name = some (.var name))
    (known : vars.definition name = .ok definition)
    (missing : Json.Object.get? vars.values name = none)
    (default : definition.default = some (.object fields)) :
    SuppliesObject schema vars supplied argument
      (literalField .constants (coerceConstant schema maxInputDepth) fields)

/-- The type of an argument is an input object type, non-null or not. -/
def TakesObject (schema : Schema) (argument : InputValueDefinition) (type : InputObjectType) :
    Prop :=
  ∃ name, schema.type? name = some (.inputObject type) ∧
    (argument.type = .named name ∨ argument.type = .nonNull (.named name))

section Object

variable {type : InputObjectType}

/-- A literal object is read field by field where an input object is taken. -/
theorem TakesObject.literalAt (takes : TakesObject schema argument type) (scope : Scope)
    (deeper : TypeRef → Literal → InputPath → Coerced Json) (fields : List (String × Literal))
    (path : InputPath) :
    literalAt schema scope deeper argument.type (.object fields) path =
      .object <$> inputFields (literalField scope deeper fields) deeper path type.fields := by
  obtain ⟨name, found, same | same⟩ := takes
  · rw [same, literalAt_object found]
  · rw [same, literalAt_nonNull (fun _ => Literal.noConfusion) Literal.noConfusion,
      literalAt_object found]

/-- An object among the values of variables is read field by field where an input object is
taken. -/
theorem TakesObject.jsonAt (takes : TakesObject schema argument type)
    (deeper : TypeRef → Json → InputPath → Coerced Json)
    (default : TypeRef → Literal → InputPath → Coerced Json) (members : Json.Object)
    (path : InputPath) :
    jsonAt schema deeper default argument.type (.object members) path =
      .object <$> inputFields (jsonField deeper members) default path type.fields := by
  obtain ⟨name, found, same | same⟩ := takes
  · rw [same, jsonAt_object found]
  · rw [same]
    exact jsonAt_object found members path

/-- An argument for which a variable with a value is supplied is read as the value is. -/
theorem coerceArgument_of_typed {name : String}
    (given : given? supplied argument.name = some (.var name)) {read : Coerced Json}
    (typed : vars.typed schema name argument.type (.root argument.name) = some <$> read) :
    coerceArgument schema vars supplied argument = some <$> read := by
  unfold given? at given
  unfold coerceArgument
  rw [given]
  simp only [typed]
  cases read <;> rfl

/-- An argument for which an input object is supplied is read field by field, and the defaults of
fields that are left out are read inside it. -/
theorem coerceArgument_of_suppliesObject (constants : schema.ConstantDefaults)
    (takes : TakesObject schema argument type)
    {given : InputValueDefinition → InputPath → Coerced (Option Json)}
    (supplies : SuppliesObject schema vars supplied argument given) :
    coerceArgument schema vars supplied argument =
      (fun members => some (.object members)) <$>
        inputFields given (coerceConstant schema maxInputDepth) (.root argument.name)
          type.fields := by
  have same : ∀ {read : Coerced Json.Object}, some <$> (Json.object <$> read : Coerced Json) =
      (fun members => some (.object members)) <$> read := by
    rintro (cause | members) <;> rfl
  obtain ⟨name, found, -⟩ := id takes
  cases supplies with
  | literal given =>
    rw [coerceArgument_of_given given fun _ => Literal.noConfusion, allLevels, coerceLiteral,
      takes.literalAt, same, inputFields_eq_of_forall fun field declared => ?_]
    refine fieldValue_congr rfl fun literal default place => ?_
    exact coerceLiteral_eq_coerceConstant constants vars maxInputDepth field.type
      (constants.fieldDefault ⟨name, type, found, field, declared, default⟩) place
  | @value name _ members given known value =>
    have typed : vars.typed schema name argument.type (.root argument.name) =
        some <$> coerceJson schema allLevels argument.type (.object members)
          (.root argument.name) := by
      rw [Variables.typed, known]
      simp only [bind, Except.bind, value]
      rfl
    rw [coerceArgument_of_typed given typed, allLevels, coerceJson, takes.jsonAt, same]
  | @default name _ fields given known missing default =>
    have typed : vars.typed schema name argument.type (.root argument.name) =
        some <$> coerceConstant schema allLevels argument.type (.object fields)
          (.root argument.name) := by
      rw [Variables.typed, known]
      simp only [bind, Except.bind, missing, default]
      rfl
    rw [coerceArgument_of_typed given typed, allLevels, coerceConstant, takes.literalAt, same]

/-- The default of a field that is left out of an input object fits the levels that are left inside
the object. -/
def FitsInside (schema : Schema) (given : InputValueDefinition → InputPath → Coerced (Option Json))
    (path : InputPath) (field : InputValueDefinition) : Prop :=
  given field (path.join (.key field.name)) = .ok none →
    ∀ literal, field.default = some literal →
    ∃ value, coerceDefault schema field.name field.type literal = .ok value ∧
      InputFits schema maxInputDepth field.type value

/-- Each field of an input object is read, or left out and not needed. -/
structure Supplied (given : InputValueDefinition → InputPath → Coerced (Option Json))
    (path : InputPath) (fields : List InputValueDefinition) : Prop where
  reads : ∀ field ∈ fields, ∃ value, given field (path.join (.key field.name)) = .ok value
  complete : ∀ field ∈ fields, given field (path.join (.key field.name)) = .ok none →
    field.default = none → field.type.isNonNull = false

variable {given : InputValueDefinition → InputPath → Coerced (Option Json)} {path : InputPath}

/-- A field of an input object is read just if its default fits inside, where it is left out. -/
theorem fieldValue_fitsInside (distinct : schema.DistinctFields) {field : InputValueDefinition}
    (byItself : ∀ literal, field.default = some literal →
      ∃ value, coerceDefault schema field.name field.type literal = .ok value)
    (reads : ∃ value, given field (path.join (.key field.name)) = .ok value)
    (complete : given field (path.join (.key field.name)) = .ok none → field.default = none →
      field.type.isNonNull = false) :
    ∃ value, Limited (FitsInside schema given path field)
      (fieldValue given (coerceConstant schema maxInputDepth) path field) value := by
  obtain ⟨own, read⟩ := reads
  cases own with
  | some value =>
    refine ⟨some value, .of_read (fun leftOut => ?_) (fieldValue_eq_some_iff.2 (.inl read))⟩
    cases read.symm.trans leftOut
  | none =>
    cases default : field.default with
    | none =>
      refine ⟨none, .of_read (fun _ literal given => ?_)
        (fieldValue_eq_none_iff.2 ⟨read, default, complete read default⟩)⟩
      cases default.symm.trans given
    | some literal =>
      obtain ⟨value, byItself⟩ := byItself literal default
      rw [fieldValue_of_default read default]
      refine ⟨some value, ((coerceConstant_limited distinct byItself _ _).map some).congr ?_⟩
      constructor
      · intro fits
        obtain ⟨value', same, fits⟩ := fits read literal default
        cases byItself.symm.trans same
        exact fits
      · intro fits _ literal' same
        cases default.symm.trans same
        exact ⟨value, byItself, fits⟩

/-- The fields of an input object are read just if the defaults of those that are left out fit
inside. -/
theorem inputFields_fitsInside (distinct : schema.DistinctFields)
    {fields : List InputValueDefinition}
    (byItself : ∀ field ∈ fields, ∀ literal, field.default = some literal →
      ∃ value, coerceDefault schema field.name field.type literal = .ok value)
    (supplied : Supplied given path fields) :
    ∃ members, Limited (∀ field ∈ fields, FitsInside schema given path field)
      (inputFields given (coerceConstant schema maxInputDepth) path fields) members := by
  obtain ⟨reads, complete⟩ := supplied
  induction fields with
  | nil => exact ⟨[], .of_read (List.forall_mem_nil _) rfl⟩
  | cons first rest ih =>
    rw [List.forall_mem_cons] at byItself reads complete
    obtain ⟨own, here⟩ := fieldValue_fitsInside distinct byItself.1 reads.1 complete.1
    obtain ⟨others, later⟩ := ih byItself.2 reads.2 complete.2
    rw [inputFields_cons, List.forall_mem_cons]
    -- a field that has no value adds no member
    cases own with
    | some value =>
      refine ⟨(first.name, value) :: others, here.bind ?_⟩
      exact Limited.congr (later.bind (.of_read trivial rfl)) (and_iff_left trivial).symm
    | none =>
      refine ⟨others, here.bind ?_⟩
      exact Limited.congr (later.bind (.of_read trivial rfl)) (and_iff_left trivial).symm

/-- An input object of which each field is read that is supplied, and none left out that it needs,
is read just if the defaults of the fields that are left out fit inside; and if it is not read it is
nested too deeply. -/
theorem coerceArgument_object {limit : Nat} {text : String}
    (accepted : Schema.parseWithin limit text = .ok schema)
    (takes : TakesObject schema argument type)
    (supplies : SuppliesObject schema vars supplied argument given)
    (complete : Supplied given (.root argument.name) type.fields) :
    ((∃ members, coerceArgument schema vars supplied argument = .ok (some (.object members))) ↔
      ∀ field ∈ type.fields, FitsInside schema given (.root argument.name) field) ∧
    ∀ cause, coerceArgument schema vars supplied argument = .error cause →
      ∃ place, cause = .tooDeep place := by
  obtain ⟨name, found, -⟩ := id takes
  obtain ⟨members, limited⟩ := inputFields_fitsInside
    (Schema.distinctFields_of_parseWithin accepted) (fun field declared literal =>
      Schema.coerceDefault_of_parseWithin accepted (Schema.mem_of_type? found).1
        (.inputField declared)) complete
  rw [coerceArgument_of_suppliesObject (Schema.constantDefaults_of_parseWithin accepted) takes
    supplies]
  constructor
  · rw [← limited.exists_iff]
    constructor
    · rintro ⟨members, read⟩
      obtain ⟨own, inside, -⟩ := map_eq_ok.1 read
      exact ⟨own, inside⟩
    · rintro ⟨members, read⟩
      exact ⟨members, map_eq_ok.2 ⟨members, read, rfl⟩⟩
  · exact fun cause failed => (limited.map _).eq_tooDeep failed

end Object

section Nested

/-- Lists in lists of integers. -/
def nestedType : Nat → TypeRef
  | 0 => .builtin .int
  | n + 1 => .list (nestedType n)

/-- An integer in that many lists. -/
def nestedLiteral : Nat → Literal
  | 0 => .int "1"
  | n + 1 => .list [nestedLiteral n]

/-- What `nestedLiteral` is read as. -/
def nestedValue : Nat → Json
  | 0 => .ofInt 1
  | n + 1 => .array [nestedValue n]

/-- Lists in lists are read if there are more levels than lists. -/
theorem coerceConstant_nestedLiteral {n levels : Nat} (enough : n < levels) (path : InputPath) :
    coerceConstant schema levels (nestedType n) (nestedLiteral n) path = .ok (nestedValue n) := by
  induction n generalizing levels path with
  | zero =>
    cases levels with
    | zero => cases enough
    | succ levels => rfl
  | succ n ih =>
    cases levels with
    | zero => cases enough
    | succ levels =>
      rw [coerceConstant, nestedType, nestedLiteral, literalAt, items,
        ih (Nat.lt_of_succ_lt_succ enough)]
      rfl

/-- The integer lies as deep inside as there are lists. -/
theorem inputHolds_nestedValue (n : Nat) :
    InputHolds schema (nestedType n) (nestedValue n) n (.builtin .int) (.ofInt 1) := by
  induction n with
  | zero => exact .here
  | succ n ih => exact .deeper (.item (.head _)) ih

/-- A field that is as deep as a default may be. -/
def cellsField : InputValueDefinition where
  name := "cells"
  type := nestedType maxInputDepth
  default := some (nestedLiteral maxInputDepth)

/-- An input type with a deep default. -/
def deepType : InputObjectType where
  name := "Deep"
  fields := [cellsField]

/-- An argument that takes a deep input. -/
def deepArgument : InputValueDefinition where
  name := "deep"
  type := .named "Deep"
  default := none

/-- The root of `deepSchema`. -/
def deepRoot : ObjectType where
  name := "Query"
  fields := [{ name := "read", type := .builtin .string, arguments := [deepArgument] }]

/-- The schema of `deepText`. -/
def deepSchema : Schema where
  types := BuiltinScalar.all.map .builtin ++ [.inputObject deepType, .object deepRoot]
  queryRoot := "Query"
  mutationRoot := none

/-- A text in that many brackets. -/
def bracketed (inside : String) (rest : List Char) : List Char :=
  List.replicate maxInputDepth '[' ++ (inside.toList ++ (List.replicate maxInputDepth ']' ++ rest))

/-- The characters of `deepText`. -/
def deepChars : List Char :=
  "input Deep \x7bcells: ".toList ++ bracketed "Int" (" = ".toList ++
    bracketed "1" "\x7d type Query {read(deep: Deep): String}".toList)

/-- The text of a schema with a deep default. -/
def deepText : String :=
  String.ofList deepChars

/-- A token in that many brackets. -/
def bracketedToken (inside : Token) (rest : List Token) : List Token :=
  List.replicate maxInputDepth (.punctuator '[') ++
    (inside :: (List.replicate maxInputDepth (.punctuator ']') ++ rest))

/-- The tokens of `deepText`. -/
def deepTokens : List Token :=
  [.name "input", .name "Deep", .punctuator '\x7b', .name "cells", .punctuator ':'] ++
    bracketedToken (.name "Int") (.punctuator '=' ::
      bracketedToken (.int "1")
        [.punctuator '\x7d', .name "type", .name "Query", .punctuator '\x7b', .name "read",
          .punctuator '(', .name "deep", .punctuator ':', .name "Deep", .punctuator ')',
          .punctuator ':', .name "String", .punctuator '\x7d'])

/-- A bracket that is repeated is a token as often. -/
theorem scanSteps?_replicate {c : Char} (notIgnored : Token.isIgnored c = false)
    (noComment : c ≠ '#') (own : ∀ rest, Token.take? (c :: rest) = some (.punctuator c, rest))
    (fuel n : Nat) (rest : List Char) :
    Token.scanSteps? (fuel + n) (List.replicate n c ++ rest) =
      (Token.scanSteps? fuel rest).map (List.replicate n (.punctuator c) ++ ·) := by
  induction n with
  | zero => simp
  | succ n ih =>
    rw [List.replicate_succ, List.cons_append, ← Nat.add_assoc, Token.scanSteps?]
    simp only [notIgnored, noComment, own, ih, Bool.false_eq_true, if_false, Option.map_map]
    rfl

/-- A text in brackets is read as its token in brackets. -/
theorem scanSteps?_bracketed {inside : String} {token : Token}
    (own : ∀ fuel rest, Token.scanSteps? (fuel + 1) (inside.toList ++ ']' :: rest) =
      (Token.scanSteps? fuel (']' :: rest)).map (token :: ·)) (fuel : Nat) (rest : List Char) :
    Token.scanSteps? (fuel + maxInputDepth + 1 + maxInputDepth) (bracketed inside rest) =
      (Token.scanSteps? fuel rest).map (bracketedToken token ·) := by
  have here : Token.scanSteps? (fuel + maxInputDepth + 1)
      (inside.toList ++ (List.replicate maxInputDepth ']' ++ rest)) =
      (Token.scanSteps? (fuel + maxInputDepth) (List.replicate maxInputDepth ']' ++ rest)).map
        (token :: ·) := own _ _
  rw [bracketed, scanSteps?_replicate rfl (by decide) fun _ => rfl, here,
    scanSteps?_replicate rfl (by decide) fun _ => rfl, Option.map_map, Option.map_map]
  rfl

/-- The tokens of the text. -/
theorem scan?_deepText : Token.scan? deepText = some deepTokens := by
  have steps : deepChars.length + 1 =
      53 + maxInputDepth + 1 + maxInputDepth + 3 + maxInputDepth + 1 + maxInputDepth + 8 := by
    decide +kernel
  have head : ∀ fuel rest, Token.scanSteps? (fuel + 8) ("input Deep \x7bcells: ".toList ++ rest) =
      (Token.scanSteps? fuel rest).map ([.name "input", .name "Deep", .punctuator '\x7b',
        .name "cells", .punctuator ':'] ++ ·) := by
    intro fuel rest
    simp only [String.reduceToList, List.cons_append, List.nil_append]
    show Option.map _ (Option.map _ (Option.map _ (Option.map _ (Option.map _ _)))) = _
    simp only [Option.map_map]
    rfl
  have equals : ∀ fuel rest, Token.scanSteps? (fuel + 3) (" = ".toList ++ rest) =
      (Token.scanSteps? fuel rest).map (.punctuator '=' :: ·) := by
    intro fuel rest
    simp only [String.reduceToList, List.cons_append, List.nil_append]
    rfl
  have int : ∀ fuel rest, Token.scanSteps? (fuel + 1) ("Int".toList ++ ']' :: rest) =
      (Token.scanSteps? fuel (']' :: rest)).map (.name "Int" :: ·) := by
    intro fuel rest
    simp only [String.reduceToList, List.cons_append, List.nil_append]
    rfl
  have one : ∀ fuel rest, Token.scanSteps? (fuel + 1) ("1".toList ++ ']' :: rest) =
      (Token.scanSteps? fuel (']' :: rest)).map (.int "1" :: ·) := by
    intro fuel rest
    simp only [String.reduceToList, List.cons_append, List.nil_append]
    rfl
  rw [Token.scan?, deepText, String.toList_ofList, String.length_ofList, steps]
  refine (head _ _).trans ?_
  rw [scanSteps?_bracketed int, equals, scanSteps?_bracketed one]
  rfl

set_option maxRecDepth 20000 in
/-- The definitions of the text. -/
theorem parse?_deepText :
    Document.parse? 64 deepText = some [.inputObject deepType, .object deepRoot] := by
  unfold Document.parse?
  rw [scan?_deepText]
  cbv

set_option maxRecDepth 20000 in
/-- The definitions are those of the schema, in which the deep default is read by itself. -/
theorem ofDocument_deepText :
    Schema.ofDocument [.inputObject deepType, .object deepRoot] = .ok deepSchema := by
  rfl

/-- The text is accepted, and its schema is the deep one. -/
theorem parseWithin_deepText : Schema.parseWithin 64 deepText = .ok deepSchema := by
  rw [Schema.parseWithin, parse?_deepText]
  exact ofDocument_deepText

/-- The argument takes the deep input object. -/
theorem takesObject_deep : TakesObject deepSchema deepArgument deepType :=
  ⟨"Deep", rfl, .inl rfl⟩

/-- An input object that leaves out its one field. -/
theorem suppliesObject_deep (vars : Variables) :
    SuppliesObject deepSchema vars [("deep", .object [])] deepArgument
      (literalField (vars.scope deepSchema) (coerceLiteral deepSchema vars maxInputDepth) []) :=
  .literal rfl

/-- Nothing is supplied for the one field, and it has a default. -/
theorem supplied_deep (vars : Variables) (path : InputPath) :
    Supplied (literalField (vars.scope deepSchema) (coerceLiteral deepSchema vars maxInputDepth) [])
      path deepType.fields := by
  constructor
  · exact fun field _ => ⟨none, rfl⟩
  · intro field declared _ noDefault
    obtain rfl := List.mem_singleton.1 declared
    cases noDefault

/-- Inside the object the default is one level too deep. -/
theorem not_fitsInside_cells (vars : Variables) (path : InputPath) :
    ¬ FitsInside deepSchema
      (literalField (vars.scope deepSchema) (coerceLiteral deepSchema vars maxInputDepth) []) path
      cellsField := by
  intro fits
  obtain ⟨value, read, fits⟩ := fits rfl _ rfl
  cases (coerceConstant_nestedLiteral (Nat.lt_succ_self maxInputDepth) _).symm.trans read
  exact Nat.lt_irrefl _ (fits _ _ _ (inputHolds_nestedValue maxInputDepth))

/-- A deep input of which nothing is supplied is not read, because its default does not fit. -/
theorem coerceArgument_object_deep :
    Supplied (literalField (({} : Variables).scope deepSchema)
        (coerceLiteral deepSchema {} maxInputDepth) []) (.root "deep") deepType.fields ∧
      (¬ ∃ members, coerceArgument deepSchema {} [("deep", .object [])] deepArgument =
        .ok (some (.object members))) ∧
      ∀ cause, coerceArgument deepSchema {} [("deep", .object [])] deepArgument = .error cause →
        ∃ place, cause = .tooDeep place := by
  have supplied := supplied_deep {} (.root "deep")
  obtain ⟨whether, why⟩ := coerceArgument_object parseWithin_deepText takesObject_deep
    (suppliesObject_deep {}) supplied
  exact ⟨supplied, fun read => not_fitsInside_cells {} _ (whether.1 read _ (.head _)), why⟩

set_option maxRecDepth 4000 in
/-- A default that is read by itself, and an input object that is refused for leaving it out. -/
theorem deep_refuses_default :
    Schema.parseWithin 64 deepText = .ok deepSchema ∧
    coerceDefault deepSchema cellsField.name cellsField.type (nestedLiteral maxInputDepth) =
      .ok (nestedValue maxInputDepth) ∧
    Supplied (literalField (({} : Variables).scope deepSchema)
      (coerceLiteral deepSchema {} maxInputDepth) []) (.root "deep") deepType.fields ∧
    ∃ place, coerceArgument deepSchema {} [("deep", .object [])] deepArgument =
      .error (.tooDeep place) :=
  ⟨parseWithin_deepText, coerceConstant_nestedLiteral (Nat.lt_succ_self _) _, supplied_deep {} _,
    _, rfl⟩

end Nested

end Coercion

end GraphQL
