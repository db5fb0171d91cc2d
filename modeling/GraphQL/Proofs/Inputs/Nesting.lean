import Mathlib
import GraphQL.Proofs.Inputs.Sources

/-!
# How deep values nest

A literal may be nested in as many lists and input objects as there are levels, and so may the value
of a variable. One that stands inside a literal starts anew, so that the lists and objects around it
come on top (`Coercion.inputFits_of_coerceArguments`), and the most that there can be is twice the
levels.
-/

set_option autoImplicit false

namespace GraphQL

namespace Coercion

open Checks

/-- No place of an argument lies deeper than all levels reach twice. It lies no deeper than all
levels reach, but for the lists and objects that stand around the variables of what is supplied. -/
theorem inputFits_of_coerceArguments {schema : Schema} {limit : Nat} {text : String}
    (accepted : Schema.parseWithin limit text = .ok schema) {typeName : String} {type : ObjectType}
    (found : schema.type? typeName = some (.object type)) {field : FieldDefinition}
    (ofType : field ∈ type.fields) {vars : Variables} {supplied : List (String × Literal)}
    {arguments : Json.Object}
    (read : coerceArguments schema vars typeName field supplied = .ok arguments)
    {argument : InputValueDefinition} (ofField : argument ∈ field.arguments) {value : Json}
    (member : (argument.name, value) ∈ arguments) :
    InputFits schema (allLevels + allLevels) argument.type value ∧
      ∀ around, (∀ literal, given? supplied argument.name = some literal →
        ∀ name depth, literal.HoldsAt name depth → depth ≤ around) →
        InputFits schema (around + allLevels) argument.type value := by
  have fits : ∀ around, (∀ literal, given? supplied argument.name = some literal →
      ∀ name depth, literal.HoldsAt name depth → min depth allLevels ≤ around) →
      InputFits schema (around + allLevels) argument.type value := fun around room =>
    (ReadFrom.of_coerceArguments accepted found ofType read ofField room member).fits
      (Schema.distinctFields_of_parseWithin accepted)
      (Schema.constantDefaults_of_parseWithin accepted)
  constructor
  · exact fits allLevels fun _ _ _ depth _ => Nat.min_le_right depth allLevels
  · exact fun around room => fits around fun literal given name depth holds =>
      Nat.le_trans (Nat.min_le_left depth allLevels) (room literal given name depth holds)

section Chain

/-- The rest of a chain. -/
def nextField : InputValueDefinition where
  name := "next"
  type := .named "Chain"
  default := none

/-- An input type that refers to itself. -/
def chainType : InputObjectType where
  name := "Chain"
  fields := [nextField]

/-- A field that takes a chain. -/
def chainField : FieldDefinition where
  name := "read"
  type := .builtin .int
  arguments := [{ name := "chain", type := .named "Chain", default := none }]

/-- The root of `chainSchema`. -/
def chainRoot : ObjectType where
  name := "Query"
  fields := [chainField]

/-- The text of a schema with chains. -/
def chainText : String :=
  "input Chain {next: Chain} type Query {read(chain: Chain): Int}"

/-- The schema of `chainText`. -/
def chainSchema : Schema where
  types := BuiltinScalar.all.map .builtin ++ [.inputObject chainType, .object chainRoot]
  queryRoot := "Query"
  mutationRoot := none

/-- A chain of that many links and an end. -/
def chainValue : Nat → Json
  | 0 => .object []
  | n + 1 => .object [("next", chainValue n)]

/-- A chain of that many links, at the end of which a variable stands. -/
def chainLiteral : Nat → Literal
  | 0 => .var "c"
  | n + 1 => .object [("next", chainLiteral n)]

/-- The variables of an operation that declares a chain, which is given that many links. -/
def chainVariables (n : Nat) : Variables where
  definitions := [{ name := "c", type := .named "Chain", default := none }]
  values := [("c", chainValue n)]

variable {n m levels : Nat}

/-- A chain holds its end as deep as it has links. -/
theorem inputHolds_chainValue (n : Nat) :
    InputHolds chainSchema (.named "Chain") (chainValue n) n (.named "Chain") (.object []) := by
  induction n with
  | zero => exact .here
  | succ n ih =>
    exact .deeper (@InputPart.field _ _ chainType _ _ _ rfl (.head _) (.head _)) ih

/-- The only variable in a chain stands at its end. -/
theorem eq_of_holdsAt_chainLiteral {name : String} {depth : Nat}
    (holds : (chainLiteral n).HoldsAt name depth) : depth = n := by
  induction n generalizing depth with
  | zero =>
    cases holds with
    | here => rfl
    | inside holds inside => cases inside
  | succ n ih =>
    cases holds with
    | inside holds inside =>
      cases inside with
      | field member =>
        obtain ⟨-, rfl⟩ := Prod.mk.inj (List.mem_singleton.1 member)
        exact congrArg (· + 1) (ih holds)

/-- Chains are an input object type of their schema. -/
theorem type?_chain : chainSchema.type? "Chain" = some (.inputObject chainType) := rfl

/-- The only field of a chain is read as the value that is supplied for it. -/
theorem inputFields_chainType
    {supplied : InputValueDefinition → InputPath → Coerced (Option Json)}
    {default : TypeRef → Literal → InputPath → Coerced Json} {path : InputPath} {value : Json}
    (given : supplied nextField (path.join (.key "next")) = .ok (some value)) :
    inputFields supplied default path chainType.fields = .ok [("next", value)] := by
  have next : fieldValue supplied default path nextField = .ok (some value) :=
    fieldValue_eq_some_iff.2 (.inl given)
  rw [chainType, inputFields_cons, next]
  rfl

/-- A chain is read if there is a level for each link and one for the end. -/
theorem coerceJson_chainValue (enough : n < levels) (path : InputPath) :
    coerceJson chainSchema levels (.named "Chain") (chainValue n) path = .ok (chainValue n) := by
  induction n generalizing levels path with
  | zero =>
    cases levels with
    | zero => cases enough
    | succ levels => rfl
  | succ n ih =>
    cases levels with
    | zero => cases enough
    | succ levels =>
      have next := ih (Nat.lt_of_succ_lt_succ enough) (path.join (.key "next"))
      rw [coerceJson, chainValue, jsonAt_object type?_chain,
        inputFields_chainType (map_eq_ok.2 ⟨_, next, rfl⟩)]
      rfl

/-- The variable gives the chain that the request gives, if that is not too deep itself. -/
theorem typed_chain (bounded : m < allLevels) (path : InputPath) :
    (chainVariables m).typed chainSchema "c" (.named "Chain") path = .ok (some (chainValue m)) := by
  have read := coerceJson_chainValue bounded path
  show some <$> coerceJson chainSchema allLevels (.named "Chain") (chainValue m) path = _
  rw [read]
  rfl

/-- Links around a variable are read if there is a level for each of them, whatever levels the
variable takes. -/
theorem coerceLiteral_chainLiteral (enough : n < levels) (bounded : m < allLevels)
    (path : InputPath) :
    coerceLiteral chainSchema (chainVariables m) levels (.named "Chain") (chainLiteral (n + 1))
      path = .ok (chainValue (n + m + 1)) := by
  induction n generalizing levels path with
  | zero =>
    cases levels with
    | zero => cases enough
    | succ levels =>
      have next : literalField ((chainVariables m).scope chainSchema)
          (coerceLiteral chainSchema (chainVariables m) levels) [("next", .var "c")] nextField
          (path.join (.key "next")) = .ok (some (chainValue m)) := by
        show (chainVariables m).typed chainSchema "c" (.named "Chain") _ >>= _ = _
        rw [typed_chain bounded]
        rfl
      rw [coerceLiteral, chainLiteral, chainLiteral, literalAt_object type?_chain,
        inputFields_chainType next, Nat.zero_add]
      rfl
  | succ n ih =>
    cases levels with
    | zero => cases enough
    | succ levels =>
      have next := ih (Nat.lt_of_succ_lt_succ enough) (path.join (.key "next"))
      rw [coerceLiteral, chainLiteral, literalAt_object type?_chain,
        inputFields_chainType (map_eq_ok.2 ⟨_, next, rfl⟩), Nat.succ_add n m]
      rfl

/-- A chain that ends with the variable is read as one chain with the links of both. -/
theorem coerceArguments_chain (enough : n < allLevels) (bounded : m < allLevels) :
    coerceArguments chainSchema (chainVariables m) "Query" chainField
      [("chain", chainLiteral (n + 1))] = .ok [("chain", chainValue (n + m + 1))] := by
  have argument : coerceArgument chainSchema (chainVariables m) [("chain", chainLiteral (n + 1))]
      { name := "chain", type := .named "Chain", default := none } =
      .ok (some (chainValue (n + m + 1))) := by
    have given : given? [("chain", chainLiteral (n + 1))] "chain" =
      some (chainLiteral (n + 1)) := rfl
    rw [coerceArgument_of_given given fun _ => Literal.noConfusion,
      coerceLiteral_chainLiteral enough bounded]
    rfl
  show coerceDeclared chainSchema (chainVariables m) _ chainField.arguments = _
  rw [chainField, coerceDeclared, argument]
  rfl

/-- A chain does not fit as many levels as it has links. -/
theorem not_inputFits_chainValue (n : Nat) :
    ¬ InputFits chainSchema n (.named "Chain") (chainValue n) :=
  fun fits => absurd (fits n _ _ (inputHolds_chainValue n)) (Nat.lt_irrefl n)

/-- The text is that of the schema of chains. -/
theorem parseWithin_chainText : Schema.parseWithin 64 chainText = .ok chainSchema := by
  unfold chainText
  cbv

/-- One link around a variable that takes all levels. -/
theorem inputFits_of_coerceArguments_chain :
    coerceArguments chainSchema (chainVariables maxInputDepth) "Query" chainField
        [("chain", chainLiteral 1)] = .ok [("chain", chainValue (maxInputDepth + 1))] ∧
      InputFits chainSchema (1 + allLevels) (.named "Chain") (chainValue (maxInputDepth + 1)) := by
  have read := coerceArguments_chain (n := 0) (m := maxInputDepth) (by decide) (by decide)
  rw [Nat.zero_add] at read
  have root : chainSchema.type? "Query" = some (.object chainRoot) := rfl
  obtain ⟨-, fits⟩ := inputFits_of_coerceArguments parseWithin_chainText root (.head _) read
    (.head _) (.head _)
  refine ⟨read, fits 1 fun literal given name depth holds => ?_⟩
  cases given
  exact Nat.le_of_eq (eq_of_holdsAt_chainLiteral holds)

/-- A link around a variable that takes all levels makes a chain of more links than there are
levels, and as many links as there are levels make one that is twice as long. -/
theorem chain_exceeds_allLevels :
    Schema.parseWithin 64 chainText = .ok chainSchema ∧
    (coerceArguments chainSchema (chainVariables maxInputDepth) "Query" chainField
        [("chain", chainLiteral 1)] = .ok [("chain", chainValue (maxInputDepth + 1))] ∧
      ¬ InputFits chainSchema allLevels (.named "Chain") (chainValue (maxInputDepth + 1))) ∧
    coerceArguments chainSchema (chainVariables maxInputDepth) "Query" chainField
        [("chain", chainLiteral allLevels)] =
        .ok [("chain", chainValue (allLevels + maxInputDepth))] ∧
      ¬ InputFits chainSchema (allLevels + maxInputDepth) (.named "Chain")
        (chainValue (allLevels + maxInputDepth)) :=
  ⟨parseWithin_chainText,
    ⟨coerceArguments_chain (by decide) (by decide), not_inputFits_chainValue _⟩,
    coerceArguments_chain (by decide) (by decide), not_inputFits_chainValue _⟩

end Chain

end Coercion

end GraphQL
