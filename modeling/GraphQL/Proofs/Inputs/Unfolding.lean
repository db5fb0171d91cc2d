import Mathlib
import GraphQL.Proofs.Inputs.Defaults

/-!
# Why reading ends

Reading goes from a literal to the default of an input field, which is no part of the literal, and
to the values of variables, which start anew with all levels. Here the readers are one recursion, of
which `Coercion.readOnce` is one round that asks for the readings it needs. Unfolded often enough it
has no reading left to ask for, because defaults hold no variables and each other reading has a
level less (`Coercion.readOnce_iterate`).

In an accepted schema defaults do not rely on the levels for that. Each default that another one
leaves a field to was read with fewer levels, so that filling in comes to an end by itself.
-/

set_option autoImplicit false

namespace GraphQL

namespace Coercion

open Checks

section Rounds

/-- What may be asked while inputs are read: to read a literal or a JSON value at a type, with a
number of levels. -/
inductive Reading where
  | literal (levels : Nat) (type : TypeRef) (literal : Literal)
  | json (levels : Nat) (type : TypeRef) (value : Json)

/-- What each reading comes to at each place. -/
abbrev Answers := Reading → InputPath → Coerced Json

/-- The levels of a reading. -/
def Reading.levels : Reading → Nat
  | .literal levels .. => levels
  | .json levels .. => levels

/-- The scope of the literals of an operation, where the values and the defaults of variables are
read by asking. -/
def scopeBy (vars : Variables) (answers : Answers) : Scope where
  typed name type path := do
    let definition ← vars.definition name
    match Json.Object.get? vars.values name with
    | some value => return some (← answers (.json allLevels type value) path)
    | none =>
      match definition.default with
      | some literal => return some (← answers (.literal allLevels type literal) path)
      | none =>
        if definition.type.isNonNull || type.isNonNull then
          .error (.missingVariable name definition.type)
        else return none
  raw := vars.raw

/-- One round of reading. What is inside a value, the defaults of fields and variables are asked
for. -/
def readOnce (schema : Schema) (vars : Variables) (answers : Answers) : Answers
  | .literal 0 _ _, path => .error (.tooDeep path)
  | .literal (levels + 1) type literal, path =>
    literalAt schema (scopeBy vars answers)
      (fun type literal => answers (.literal levels type literal)) type literal path
  | .json 0 _ _, path => .error (.tooDeep path)
  | .json (levels + 1) type value, path =>
    jsonAt schema (fun type value => answers (.json levels type value))
      (fun type literal => answers (.literal levels type literal)) type value path

/-- What the readers answer. -/
def read (schema : Schema) (vars : Variables) : Answers
  | .literal levels type literal, path => coerceLiteral schema vars levels type literal path
  | .json levels type value, path => coerceJson schema levels type value path

/-- A reading asks for others in fewer than that many rounds. A literal may come upon a variable at
its last level, which has all levels again; a constant and a JSON value may not. -/
inductive Reading.Ends (rounds : Nat) : Reading → Prop
  | literal {levels : Nat} {type : TypeRef} {whole : Literal}
    (enough : levels + allLevels < rounds) : Ends rounds (.literal levels type whole)
  | constant {levels : Nat} {type : TypeRef} {whole : Literal} (constant : whole.Constant)
    (enough : levels < rounds) : Ends rounds (.literal levels type whole)
  | json {levels : Nat} {type : TypeRef} {value : Json} (enough : levels < rounds) :
    Ends rounds (.json levels type value)

/-- Reading ends in more rounds than there are levels. -/
theorem Reading.Ends.of_levels {reading : Reading} {rounds : Nat}
    (enough : reading.levels + allLevels < rounds) : reading.Ends rounds := by
  cases reading with
  | literal levels type literal => exact .literal enough
  | json levels type value => exact .json (Nat.lt_of_le_of_lt (Nat.le_add_right _ _) enough)

variable {schema : Schema} {vars : Variables}

/-- Answers that agree with the readers on what ends in some number of rounds. -/
def Agree (schema : Schema) (vars : Variables) (rounds : Nat) (answers : Answers) : Prop :=
  ∀ reading path, reading.Ends rounds → answers reading path = read schema vars reading path

/-- A variable is read as the readers do if all levels are answered as they do. -/
theorem typed_scopeBy (constants : schema.ConstantDefaults) (defaults : vars.ConstantDefaults)
    {rounds : Nat} (enough : allLevels < rounds) {answers : Answers}
    (agree : Agree schema vars rounds answers) (name : String) (type : TypeRef)
    (path : InputPath) :
    (scopeBy vars answers).typed name type path = vars.typed schema name type path := by
  simp only [scopeBy, Variables.typed]
  cases known : vars.definition name with
  | error cause => rfl
  | ok definition =>
    simp only [bind, Except.bind]
    cases Json.Object.get? vars.values name with
    | some value =>
      simp only [agree _ path (.json enough), read]
    | none =>
      cases default : definition.default with
      | none => rfl
      | some literal =>
        have constant := defaults definition (Variables.mem_of_definition known) literal default
        simp only [agree _ path (.constant constant enough), read,
          coerceLiteral_eq_coerceConstant constants vars allLevels type constant]

/-- A round answers as the readers do if what it asks for is answered so. -/
theorem agree_readOnce (constants : schema.ConstantDefaults) (defaults : vars.ConstantDefaults)
    {rounds : Nat} {answers : Answers} (agree : Agree schema vars rounds answers) :
    Agree schema vars (rounds + 1) (readOnce schema vars answers) := by
  rintro (⟨levels, type, literal⟩ | ⟨levels, type, value⟩) path ends
  · cases levels with
    | zero => rfl
    | succ levels =>
      rw [readOnce, read, coerceLiteral]
      have enough : levels < rounds := by
        cases ends <;> omega
      refine literalAt_congr type literal path (fun name holds => ?_) (fun name holds => rfl)
        (fun part inside type path => ?_) (fun part default type path => ?_)
      · cases ends with
        | literal ends => exact typed_scopeBy constants defaults (by omega) agree name
        | constant constant => exact absurd holds (constant name)
      · refine agree (.literal levels type part) path ?_
        cases ends with
        | literal ends => exact .literal (by omega)
        | constant constant => exact .constant (constant.of_inside inside) enough
      · exact agree (.literal levels type part) path
          (.constant (constants.fieldDefault default) enough)
  · cases levels with
    | zero => rfl
    | succ levels =>
      have enough : levels < rounds := by
        cases ends
        omega
      have inside : (fun type value => answers (.json levels type value)) =
          coerceJson schema levels := by
        funext type value path
        exact agree (.json levels type value) path (.json enough)
      rw [readOnce, read, coerceJson, inside]
      refine jsonAt_congr type value path fun part default type path => ?_
      have constant := constants.fieldDefault default
      rw [agree (.literal levels type part) path (.constant constant enough), read,
        coerceLiteral_eq_coerceConstant constants vars levels type constant]

/-- A number of rounds answers what ends in as many, whatever the other answers are. -/
theorem readOnce_iterate (constants : schema.ConstantDefaults) (defaults : vars.ConstantDefaults)
    (answers : Answers) (rounds : Nat) :
    Agree schema vars rounds ((readOnce schema vars)^[rounds] answers) := by
  induction rounds with
  | zero =>
    intro reading path ends
    cases ends with
    | literal ends | constant _ ends | json ends => cases ends
  | succ rounds ih =>
    rw [Function.iterate_succ_apply']
    exact agree_readOnce constants defaults ih

/-- The readers are what a round makes of themselves. -/
theorem readOnce_read (constants : schema.ConstantDefaults) (defaults : vars.ConstantDefaults) :
    readOnce schema vars (read schema vars) = read schema vars := by
  funext reading path
  have agree : Agree schema vars (reading.levels + allLevels + 1) (read schema vars) :=
    fun _ _ _ => rfl
  exact agree_readOnce constants defaults agree reading path
    (.of_levels (Nat.lt_add_of_pos_right Nat.two_pos))

end Rounds

section Chains

/-- A literal of some type leaves a field to its default, in the input object that it is or in one
inside it. -/
inductive LeavesOut (schema : Schema) (left : InputValueDefinition) : TypeRef → Literal → Prop
  | here {name : String} {type : InputObjectType} {fields : List (String × Literal)}
    (found : schema.type? name = some (.inputObject type)) (declared : left ∈ type.fields)
    (missing : given? fields left.name = none) :
    LeavesOut schema left (.named name) (.object fields)
  | field {name : String} {type : InputObjectType} {fields : List (String × Literal)}
    {field : InputValueDefinition} {literal : Literal}
    (found : schema.type? name = some (.inputObject type)) (declared : field ∈ type.fields)
    (given : given? fields field.name = some literal)
    (inside : LeavesOut schema left field.type literal) :
    LeavesOut schema left (.named name) (.object fields)
  | item {item : TypeRef} {items : List Literal} {literal : Literal} (member : literal ∈ items)
    (inside : LeavesOut schema left item literal) : LeavesOut schema left (.list item) (.list items)
  | nonNull {inner : TypeRef} {literal : Literal} (inside : LeavesOut schema left inner literal) :
    LeavesOut schema left (.nonNull inner) literal

/-- The default of an argument or field leaves another field to its own default. -/
def DefaultLeads (schema : Schema) (outer inner : InputValueDefinition) : Prop :=
  ∃ literal, outer.default = some literal ∧ LeavesOut schema inner outer.type literal ∧
    inner.default.isSome = true

variable {schema : Schema} {value : InputValueDefinition}

/-- The default of an argument or field was read somewhere with some number of levels. -/
def ReadWith (schema : Schema) (levels : Nat) (value : InputValueDefinition) : Prop :=
  ∃ literal path result, value.default = some literal ∧
    coerceConstant schema levels value.type literal path = .ok result

/-- A literal that leaves a field to its default is read only if the default is, with fewer
levels. -/
theorem LeavesOut.readWith {type : TypeRef} {literal : Literal}
    (leaves : LeavesOut schema value type literal) {default : Literal}
    (given : value.default = some default) {levels : Nat} {path : InputPath} {result : Json}
    (read : coerceConstant schema levels type literal path = .ok result) :
    ∃ fewer < levels, ReadWith schema fewer value := by
  induction leaves generalizing levels path result with
  | here found declared missing =>
    obtain ⟨rest, rfl, step⟩ := coerceConstant_eq_ok_iff.1 read
    rw [literalAt_object found] at step
    obtain ⟨members, step, -⟩ := map_eq_ok.1 step
    obtain ⟨own, here⟩ := (inputFields_eq_ok_iff.1 step).1 value declared
    rw [fieldValue_of_default (by rw [literalField_eq_match, missing]) given] at here
    obtain ⟨result, here, -⟩ := map_eq_ok.1 here
    exact ⟨rest, Nat.lt_succ_self rest, default, _, result, given, here⟩
  | @field name type fields field literal found declared supplied inside ih =>
    obtain ⟨rest, rfl, step⟩ := coerceConstant_eq_ok_iff.1 read
    rw [literalAt_object found] at step
    obtain ⟨members, step, -⟩ := map_eq_ok.1 step
    obtain ⟨own, here⟩ := supplied_of_inputFields step declared
    rcases literalField_constants here with ⟨missing, -⟩ | ⟨other, same, -, here⟩
    · cases supplied.symm.trans missing
    · cases supplied.symm.trans same
      obtain ⟨result, here, -⟩ := map_eq_ok.1 here
      obtain ⟨fewer, less, filled⟩ := ih here
      exact ⟨fewer, Nat.lt_succ_of_lt less, filled⟩
  | item member inside ih =>
    obtain ⟨rest, rfl, step⟩ := coerceConstant_eq_ok_iff.1 read
    rw [literalAt] at step
    obtain ⟨results, step, -⟩ := bind_eq_ok.1 step
    obtain ⟨place, own, here⟩ := item_of_items step member
    obtain ⟨fewer, less, filled⟩ := ih here
    exact ⟨fewer, Nat.lt_succ_of_lt less, filled⟩
  | nonNull inside ih =>
    obtain ⟨rest, rfl, step⟩ := coerceConstant_eq_ok_iff.1 read
    have step := literalAt_inner (ne_var_of_coerceConstant read) step
    exact ih (coerceConstant_eq_ok_iff.2 ⟨rest, rfl, step⟩)

/-- The default that a default leads to is read with fewer levels. -/
theorem ReadWith.of_leads {outer inner : InputValueDefinition} {levels : Nat}
    (read : ReadWith schema levels outer) (leads : DefaultLeads schema outer inner) :
    ∃ fewer < levels, ReadWith schema fewer inner := by
  obtain ⟨literal, path, result, given, read⟩ := read
  obtain ⟨own, same, leaves, hasDefault⟩ := leads
  cases given.symm.trans same
  obtain ⟨default, default_eq⟩ := Option.isSome_iff_exists.1 hasDefault
  exact leaves.readWith default_eq read

/-- The defaults that a default leads to, however far, are read with fewer levels. -/
theorem ReadWith.of_transGen {outer inner : InputValueDefinition} {levels : Nat}
    (read : ReadWith schema levels outer)
    (leads : Relation.TransGen (DefaultLeads schema) outer inner) :
    ∃ fewer < levels, ReadWith schema fewer inner := by
  induction leads with
  | single leads => exact read.of_leads leads
  | tail _ leads ih =>
    obtain ⟨fewer, less, read⟩ := ih
    obtain ⟨least, less', read⟩ := read.of_leads leads
    exact ⟨least, Nat.lt_trans less' less, read⟩

/-- A default that was read does not lead to itself. -/
theorem ReadWith.not_transGen {levels : Nat} (read : ReadWith schema levels value) :
    ¬ Relation.TransGen (DefaultLeads schema) value value := by
  intro cycle
  induction levels using Nat.strongRecOn with
  | ind levels ih =>
    obtain ⟨fewer, less, read⟩ := read.of_transGen cycle
    exact ih fewer less read

/-- Filling in fields from their defaults comes to an end, wherever a default starts that was
read. -/
theorem ReadWith.acc {levels : Nat} (read : ReadWith schema levels value) :
    Acc (fun inner outer => DefaultLeads schema outer inner) value := by
  induction levels using Nat.strongRecOn generalizing value with
  | ind levels ih =>
    refine .intro value fun inner leads => ?_
    obtain ⟨fewer, less, read⟩ := read.of_leads leads
    exact ih fewer less read

/-- Defaults that lead to each other are fewer than the levels of the first one. -/
theorem ReadWith.length_lt {levels : Nat} (read : ReadWith schema levels value)
    {rest : List InputValueDefinition}
    (leads : (value :: rest).IsChain (DefaultLeads schema)) : rest.length < levels := by
  induction rest generalizing value levels with
  | nil =>
    obtain ⟨literal, path, result, -, read⟩ := read
    obtain ⟨rest, rfl, -⟩ := coerceConstant_eq_ok_iff.1 read
    exact Nat.succ_pos rest
  | cons next rest ih =>
    obtain ⟨here, later⟩ := List.isChain_cons_cons.1 leads
    obtain ⟨fewer, less, read⟩ := read.of_leads here
    exact Nat.lt_of_lt_of_le (Nat.succ_lt_succ (ih read later)) less

end Chains

/-- Reading ends, in whatever schema and operation, if defaults are constants: the readers are what
one round makes of them, and more rounds than a reading has levels, with all levels on top, answer
it whatever is answered to what they ask. In an accepted schema no default leads to itself, filling
in fields from defaults ends after fewer steps than there are levels, and each default is read alike
however many levels there are beyond those with which it was checked. -/
theorem reading_ends :
    (∀ (schema : Schema) (vars : Variables), schema.ConstantDefaults → vars.ConstantDefaults →
      readOnce schema vars (read schema vars) = read schema vars ∧
      ∀ reading answers path rounds, reading.levels + allLevels < rounds →
        (readOnce schema vars)^[rounds] answers reading path = read schema vars reading path) ∧
    ∀ (limit : Nat) (text : String) (schema : Schema),
      Schema.parseWithin limit text = .ok schema →
      ∀ type ∈ schema.types, ∀ value, type.Takes value →
      ∀ literal, value.default = some literal →
      ¬ Relation.TransGen (DefaultLeads schema) value value ∧
      Acc (fun inner outer => DefaultLeads schema outer inner) value ∧
      (∀ rest, (value :: rest).IsChain (DefaultLeads schema) → rest.length ≤ maxInputDepth) ∧
      ∃ result, ∀ levels, allLevels ≤ levels →
        ∀ path, coerceConstant schema levels value.type literal path = .ok result := by
  constructor
  · intro schema vars constants defaults
    refine ⟨readOnce_read constants defaults, fun reading answers path rounds enough => ?_⟩
    exact readOnce_iterate constants defaults answers rounds reading path (.of_levels enough)
  · intro limit text schema accepted type member value takes literal default
    obtain ⟨result, byItself⟩ := Schema.coerceDefault_of_parseWithin accepted member takes default
    have read : ReadWith schema allLevels value := ⟨literal, _, result, default, byItself⟩
    refine ⟨read.not_transGen, read.acc, fun rest leads => Nat.le_of_lt_succ (read.length_lt leads),
      result, fun levels enough path => ?_⟩
    exact coerceConstant_of_le (Schema.distinctFields_of_parseWithin accepted) byItself enough path

section Sample

/-- The rest of a loop, which is a loop by default. -/
def loopField : InputValueDefinition where
  name := "next"
  type := .named "Loop"
  default := some (.object [])

/-- A schema whose default leads to itself. -/
def loopSchema : Schema where
  types := [.inputObject { name := "Loop", fields := [loopField] }]
  queryRoot := "Query"
  mutationRoot := none

/-- The variables of an operation that declares a loop with a default. -/
def loopVariables : Variables where
  definitions := [{ name := "x", type := .named "Loop", default := some (.object []) }]

/-- An object without fields is a constant. -/
theorem constant_object_nil : (Literal.object []).Constant :=
  Literal.constant_object (List.forall_mem_nil _)

/-- The defaults of the schema are constants. -/
theorem constantDefaults_loopSchema : loopSchema.ConstantDefaults := by
  intro type member value takes literal default
  obtain rfl := List.mem_singleton.1 member
  obtain rfl := List.mem_singleton.1 (TypeDefinition.takes_inputObject_iff.1 takes)
  cases default
  exact constant_object_nil

/-- The defaults of the variables are constants. -/
theorem constantDefaults_loopVariables : loopVariables.ConstantDefaults := by
  intro definition member literal default
  obtain rfl := List.mem_singleton.1 member
  cases default
  exact constant_object_nil

/-- A field with a default. -/
def sizeField : InputValueDefinition where
  name := "size"
  type := .builtin .int
  default := some (.int "1")

/-- A field whose default leaves out `sizeField`. -/
def innerField : InputValueDefinition where
  name := "inner"
  type := .named "Inner"
  default := some (.object [])

/-- An argument whose default leaves out `innerField`. -/
def outerArgument : InputValueDefinition where
  name := "outer"
  type := .named "Outer"
  default := some (.object [])

/-- The root of `filledSchema`. -/
def filledRoot : ObjectType where
  name := "Query"
  fields := [{ name := "read", type := .builtin .id, arguments := [outerArgument] }]

/-- The text of a schema with defaults that lead to others. -/
def filledText : String :=
  "input Inner {size: Int = 1} input Outer {inner: Inner = {}} type Query {read(outer: Outer = {}): ID}"

/-- The schema of `filledText`. -/
def filledSchema : Schema where
  types := BuiltinScalar.all.map .builtin ++
    [.inputObject { name := "Inner", fields := [sizeField] },
      .inputObject { name := "Outer", fields := [innerField] }, .object filledRoot]
  queryRoot := "Query"
  mutationRoot := none

/-- The text is that of the schema with defaults that lead to others. -/
theorem parseWithin_filledText : Schema.parseWithin 64 filledText = .ok filledSchema := by
  unfold filledText
  cbv

/-- The defaults lead from the argument to the inner field, and from there to the last one. -/
theorem isChain_filled :
    [outerArgument, innerField, sizeField].IsChain (DefaultLeads filledSchema) := by
  refine .cons_cons ⟨_, rfl, .here rfl (.head _) rfl, rfl⟩ ?_
  exact .cons_cons ⟨_, rfl, .here rfl (.head _) rfl, rfl⟩ (.singleton _)

/-- A loop that ends for want of levels, and a default that comes to an end by itself. -/
theorem reading_ends_sample :
    DefaultLeads loopSchema loopField loopField ∧
    (∀ answers path, (readOnce loopSchema loopVariables)^[2 * allLevels + 1] answers
        (.literal allLevels (.named "Loop") (.object [("next", .var "x")])) path =
      coerceLiteral loopSchema loopVariables allLevels (.named "Loop")
        (.object [("next", .var "x")]) path) ∧
    [outerArgument, innerField, sizeField].IsChain (DefaultLeads filledSchema) ∧
    [innerField, sizeField].length ≤ maxInputDepth ∧
    ¬ Relation.TransGen (DefaultLeads filledSchema) outerArgument outerArgument ∧
    ∃ result, ∀ levels, allLevels ≤ levels →
      ∀ path, coerceConstant filledSchema levels (.named "Outer") (.object []) path =
        .ok result := by
  obtain ⟨rounds, defaults⟩ := reading_ends
  obtain ⟨-, unfolded⟩ := rounds loopSchema loopVariables constantDefaults_loopSchema
    constantDefaults_loopVariables
  have declared : .object filledRoot ∈ filledSchema.types := by
    simp [filledSchema]
  obtain ⟨noCycle, -, bounded, result⟩ := defaults 64 filledText filledSchema parseWithin_filledText
    (.object filledRoot) declared outerArgument (.argument (.head _) (.head _)) (.object []) rfl
  exact ⟨⟨_, rfl, .here rfl (.head _) rfl, rfl⟩,
    fun answers path => unfolded _ answers path _ (by decide), isChain_filled,
    bounded _ isChain_filled, noCycle, result⟩

end Sample

end Coercion

end GraphQL
