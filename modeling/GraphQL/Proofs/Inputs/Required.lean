import Mathlib
import GraphQL.Proofs.Documents.Requests
import GraphQL.Proofs.Inputs.Uses
import GraphQL.Proofs.Visits.Calls

/-!
# Variables that are required

A variable whose declared type is non-null, and that has no default, is required. Arguments that use
it are read, and resolvers are called with them, only if the request gives it a value
(`Engine.execute_required`). The value is read at the types of the places where the variable is
used, and not at the declared one. So null is refused at a place of non-null type; at any other
place, and inside a declared scalar, it is passed on (`Engine.speaker_says_null`).
-/

set_option autoImplicit false

namespace GraphQL

open Coercion Checks

section Null

variable {type : TypeRef} (schema : Schema)

/-- A null is refused at a non-null type. -/
theorem coerceJson_null_of_nonNull (nonNull : type.isNonNull = true) (path : InputPath) :
    ∃ cause, coerceJson schema allLevels type .null path = .error cause := by
  cases type with
  | nonNull inner => exact ⟨.nullValue path (.nonNull inner), rfl⟩
  | builtin | named | list => cases nonNull

/-- A null is taken as it is at a type that may be null. -/
theorem coerceJson_null_of_nullable (nullable : type.isNonNull = false) (path : InputPath) :
    coerceJson schema allLevels type .null path = .ok .null := by
  cases type with
  | nonNull inner => cases nullable
  | builtin | named | list => rfl

end Null

namespace Variables

variable {vars : Variables} {schema : Schema} {name : String} {site : Site}

/-- The declared type of a variable is non-null, and there is no default. -/
def Requires (vars : Variables) (name : String) : Prop :=
  ∃ declared, vars.definition name = .ok declared ∧ declared.type.isNonNull = true ∧
    declared.default = none

/-- The request gives a variable a value that a site may take. -/
def Supplies (vars : Variables) (name : String) (site : Site) : Prop :=
  ∃ value, Json.Object.get? vars.values name = some value ∧ (site.strict = true → value ≠ .null)

/-- A variable with a type and without a default is required if the type is non-null. -/
theorem requires_of_mem (distinct : (vars.definitions.map (·.name)).Nodup)
    {declared : VariableDefinition} (member : declared ∈ vars.definitions)
    (nonNull : declared.type.isNonNull = true) (noDefault : declared.default = none) :
    vars.Requires declared.name := by
  refine ⟨declared, ?_, nonNull, noDefault⟩
  rw [definition, (find?_key_eq_some_iff distinct).2 ⟨member, rfl⟩]

/-- A required variable without a value is not read at any site. -/
theorem Requires.readSite_missing (required : vars.Requires name)
    (missing : Json.Object.get? vars.values name = none) (path : InputPath) :
    ∃ cause, readSite schema vars name path site = .error cause := by
  obtain ⟨declared, known, nonNull, noDefault⟩ := required
  refine ⟨.missingVariable name declared.type, ?_⟩
  cases site with
  | typed type =>
    rw [readSite, typed_of_missing known noDefault missing, nonNull, Bool.true_or, if_pos rfl]
  | raw =>
    rw [readSite, raw, known]
    simp only [bind, Except.bind, missing, noDefault, nonNull, if_true]
    rfl

/-- Null is read at the sites that do not refuse it, and at no others. -/
theorem Requires.readSite_null (required : vars.Requires name)
    (given : Json.Object.get? vars.values name = some .null) (schema : Schema) (site : Site)
    (path : InputPath) :
    if site.strict then ∃ cause, readSite schema vars name path site = .error cause
    else readSite schema vars name path site = .ok (some .null) := by
  obtain ⟨declared, known, -⟩ := required
  cases site with
  | typed type =>
    have same : readSite schema vars name path (.typed type) =
        some <$> coerceJson schema allLevels type .null path := by
      rw [readSite, typed, known]
      simp only [bind, Except.bind, given]
      rfl
    rw [same]
    split
    · next strict =>
      obtain ⟨cause, refused⟩ := coerceJson_null_of_nonNull schema strict path
      exact ⟨cause, by rw [refused]; rfl⟩
    · next nullable =>
      rw [coerceJson_null_of_nullable schema (eq_false_of_ne_true nullable)]
      rfl
  | raw =>
    rw [if_neg (by simp [Site.strict]), readSite, raw, known]
    simp only [bind, Except.bind, given]
    rfl

/-- A required variable is read only if it has a value for the site. -/
theorem Requires.supplies_of_readSite (required : vars.Requires name) {path : InputPath}
    {value : Option Json} (read : readSite schema vars name path site = .ok value) :
    vars.Supplies name site := by
  cases given : Json.Object.get? vars.values name with
  | none =>
    obtain ⟨cause, refused⟩ := required.readSite_missing given path
    rw [refused] at read
    cases read
  | some value =>
    refine ⟨value, given, ?_⟩
    rintro strict rfl
    have refused := required.readSite_null given schema site path
    rw [if_pos strict] at refused
    obtain ⟨cause, refused⟩ := refused
    rw [refused] at read
    cases read

end Variables

namespace Coercion

variable {schema : Schema} {vars : Variables} {name typeName : String} {field : FieldDefinition}
  {supplied : List (String × Literal)} {site : Site}

/-- Arguments that use a required variable are read only if it has a value for each of the sites. -/
theorem supplies_of_coerceArguments (required : vars.Requires name) {arguments : Json.Object}
    (read : coerceArguments schema vars typeName field supplied = .ok arguments)
    (uses : UsesIn schema name field supplied site) : vars.Supplies name site := by
  obtain ⟨place, value, own⟩ := read_of_coerceArguments read uses
  exact required.supplies_of_readSite own

/-- Arguments that use a required variable without a value for one of the sites are refused. -/
theorem coerceArguments_refused (required : vars.Requires name)
    (uses : UsesIn schema name field supplied site) (lacks : ¬ vars.Supplies name site) :
    ∃ cause, coerceArguments schema vars typeName field supplied = .error cause := by
  cases read : coerceArguments schema vars typeName field supplied with
  | error cause => exact ⟨cause, rfl⟩
  | ok arguments => exact absurd (supplies_of_coerceArguments required read uses) lacks

end Coercion

namespace Engine

variable {State : Type}

/-- The variables of an operation that is executed have distinct names. -/
theorem variables_nodup_of_select {engine : Engine State} {request : Request}
    {operation : Operation} {rootType : ObjectType}
    (selected : engine.select request = .ok (operation, rootType)) :
    (operation.variableDefinitions.map (·.name)).Nodup := by
  obtain ⟨document, definition, ⟨text, -, parsed, chosen⟩, -, -, rfl⟩ := select_eq_ok_iff.1 selected
  have member := ExecutableDocument.mem_operations_of_operation chosen
  rw [ExecutableDocument.parseWithin] at parsed
  split at parsed
  · next source read =>
    obtain ⟨wellFormed, rfl⟩ := ExecutableDocument.ofDocument_eq_ok_iff.1 parsed
    exact wellFormed.variableNames definition member
  · cases parsed

/-- What holds of a variable of an operation that has a non-null type and no default. Arguments that
use it are read only if the request gives it a value that each of the sites may take. They are
refused if there is no value, whatever the sites may take, and if null is given and a site does not
take it; at a site that does, null is what is read. And resolvers are called only for fields whose
arguments use the variable, if they do, where it has such a value. -/
theorem execute_required (engine : Engine State) {request : Request} (state : State)
    (cancelAt : Option Nat) {operation : Operation} {rootType : ObjectType}
    (selected : engine.select request = .ok (operation, rootType)) {declared : VariableDefinition}
    (member : declared ∈ operation.variableDefinitions) (nonNull : declared.type.isNonNull = true)
    (noDefault : declared.default = none) :
    let world := (engine.execute request state cancelAt).world
    let m := engine.marking request operation world
    (∀ typeName field supplied site, UsesIn engine.schema declared.name field supplied site →
      (∀ arguments, coerceArguments engine.schema m.vars typeName field supplied = .ok arguments →
        m.vars.Supplies declared.name site) ∧
      (Json.Object.get? request.variableValues declared.name = none →
        ∃ cause, coerceArguments engine.schema m.vars typeName field supplied = .error cause) ∧
      (Json.Object.get? request.variableValues declared.name = some .null →
        if site.strict then
          ∃ cause, coerceArguments engine.schema m.vars typeName field supplied = .error cause
        else ∀ path, readSite engine.schema m.vars declared.name path site = .ok (some .null))) ∧
    ∀ call ∈ world.calls, ∃ selections type path group definition,
      m.Visits operation rootType (.object selections type call.parent path) ∧
      group ∈ collectFields type.name selections ∧
      type.field? group.first.name = some definition ∧
      call.path = path.join (.key group.key) ∧ call.typeName = type.name ∧
      call.fieldName = group.first.name ∧
      ∀ site, UsesIn engine.schema declared.name definition group.first.arguments site →
        m.vars.Supplies declared.name site := by
  intro world m
  have required : m.vars.Requires declared.name :=
    Variables.requires_of_mem (variables_nodup_of_select selected) member nonNull noDefault
  constructor
  · intro typeName field supplied site uses
    refine ⟨fun arguments read => supplies_of_coerceArguments required read uses, ?_, ?_⟩
    · intro missing
      refine coerceArguments_refused required uses ?_
      rintro ⟨value, given, -⟩
      exact Option.some_ne_none value (given.symm.trans missing)
    · intro null
      split
      · next strict =>
        refine coerceArguments_refused required uses ?_
        rintro ⟨value, given, present⟩
        exact present strict (Option.some.inj (given.symm.trans null))
      · next nullable =>
        intro path
        have read := required.readSite_null null engine.schema site path
        rwa [if_neg nullable] at read
  · intro call started
    obtain ⟨selections, type, path, group, definition, arguments, visited, inside, admits, same⟩ :=
      engine.exists_admits_of_mem_calls state cancelAt selected call started
    -- the arguments of a call that was made were read, at each place of the variable
    refine ⟨selections, type, path, group, definition, visited, inside, admits.declared,
      by rw [same], by rw [same], by rw [same], fun site uses => ?_⟩
    exact supplies_of_coerceArguments required admits.coerced uses

/-- The field of `speaker`, with an argument that may be null. -/
def saying : FieldDefinition where
  name := "say"
  type := .builtin .string
  arguments := [{ name := "text", type := .builtin .string, default := none }]

/-- The root type of `speaker`. -/
def speakerRoot : ObjectType where
  name := "Query"
  fields := [saying]

/-- An engine that says what it is told. -/
def speaker : Engine Unit where
  schema := { types := [.object speakerRoot], queryRoot := "Query", mutationRoot := none }
  registry :=
    { bindings :=
        [{ typeName := "Query", fieldName := "say", arguments := ["text"],
           resolver := .compute fun call =>
             .ok ((Json.Object.get? call.arguments "text").getD .null) }] }

/-- The variable that requests give to `speaker`. -/
def told : VariableDefinition where
  name := "x"
  type := .nonNull (.builtin .string)
  default := none

/-- What `speaker` is asked, with a value for the variable. -/
def speak (value : Json) : Request where
  query := some "query($x: String!) {say(text: $x)}"
  variableValues := [("x", value)]

/-- What the speaker is asked for is the one query with the one variable. -/
theorem select_speak (value : Json) : speaker.select (speak value) =
    .ok ({ kind := .query, name := none, variableDefinitions := [told]
           selections := [.field none "say" [("text", .var "x")] []] }, speakerRoot) := by
  cbv

/-- The argument of the saying uses the variable. -/
theorem usesIn_saying :
    UsesIn speaker.schema "x" saying [("text", .var "x")] (.typed (.builtin .string)) :=
  ⟨_, .head _, _, rfl, .here⟩

/-- The field that `speaker` is called for has the text that is given for the variable. -/
theorem execute_required_speaker :
    let vars : Variables :=
      { definitions := [told], values := (speak (.string "hi")).variableValues }
    (speaker.execute (speak (.string "hi")) () none).world.calls.length = 1 ∧
      coerceArguments speaker.schema vars "Query" saying [("text", .var "x")] =
        .ok [("text", .string "hi")] ∧
      vars.Supplies "x" (.typed (.builtin .string)) := by
  intro vars
  have read : coerceArguments speaker.schema vars "Query" saying [("text", .var "x")] =
      .ok [("text", .string "hi")] := rfl
  obtain ⟨reads, -⟩ := execute_required speaker () none (select_speak (.string "hi")) (.head _)
    rfl rfl
  obtain ⟨supplies, -⟩ := reads "Query" saying _ _ usesIn_saying
  exact ⟨by decide +kernel, read, supplies _ read⟩

/-- Null is given to a variable whose type is non-null. The arguments that use it are read none the
less, and the resolver is called with null. -/
theorem speaker_says_null :
    (∃ operation rootType, speaker.select (speak .null) = .ok (operation, rootType) ∧
      told ∈ operation.variableDefinitions ∧
      coerceArguments speaker.schema { definitions := operation.variableDefinitions
                                       values := (speak .null).variableValues }
        "Query" saying [("text", .var "x")] = .ok [("text", .null)]) ∧
    told.type.isNonNull = true ∧ told.default = none ∧
    Json.Object.get? (speak .null).variableValues told.name = some .null ∧
    UsesIn speaker.schema told.name saying [("text", .var "x")] (.typed (.builtin .string)) ∧
    (speaker.execute (speak .null) () none).world.calls =
      [{ parent := .null, arguments := [("text", .null)], path := [.key "say"],
         typeName := "Query", fieldName := "say" }] :=
  ⟨⟨_, _, select_speak .null, .head _, rfl⟩, rfl, rfl, rfl, usesIn_saying, by decide +kernel⟩

end Engine

end GraphQL
