import GraphQL.Proofs.Inputs.Conformance
import GraphQL.Proofs.Inputs.Substitution

/-!
# Where variables are read

The places of a literal at which reading it reads a variable: where the variable stands for a value
of some type, and inside a declared scalar, where it is taken as it is (`Coercion.Uses`). A literal
is read only if the variable is read at each of them (`Coercion.read_of_coerceLiteral`), and so are
the arguments of a field (`Coercion.read_of_coerceArguments`).
-/

set_option autoImplicit false

namespace GraphQL

/-- A variable stands somewhere in a literal. -/
inductive Literal.Holds (name : String) : Literal → Prop
  | here : Holds name (.var name)
  | item {items : List Literal} {item : Literal} (member : item ∈ items)
    (inside : Holds name item) : Holds name (.list items)
  | field {fields : List (String × Literal)} {key : String} {value : Literal}
    (member : (key, value) ∈ fields) (inside : Holds name value) : Holds name (.object fields)

/-- A variable without a value and without a default may be read only where null may stand, and only
if null may stand for it. -/
theorem Variables.typed_of_missing {vars : Variables} {name : String}
    {declared : VariableDefinition} (known : vars.definition name = .ok declared)
    (noDefault : declared.default = none) (missing : Json.Object.get? vars.values name = none)
    (schema : Schema) (type : TypeRef) (path : InputPath) :
    vars.typed schema name type path =
      if declared.type.isNonNull || type.isNonNull then
        .error (.missingVariable name declared.type)
      else .ok none := by
  rw [typed, known]
  simp only [bind, Except.bind, missing, noDefault]
  rfl

namespace Coercion

open Checks

/-- The entry that is given for a name, the first one if there are more. -/
def given? (entries : List (String × Literal)) (name : String) : Option Literal :=
  (entries.find? fun entry => entry.1 == name).map Prod.snd

/-- How a variable is read: at some type, or as it is. -/
inductive Site where
  | typed (type : TypeRef)
  | raw

/-- Whether null is refused. -/
def Site.strict : Site → Bool
  | typed type => type.isNonNull
  | raw => false

/-- Reading a literal at a type reads a variable at some site. Fields of an object that are not
declared are not read. -/
inductive Uses (schema : Schema) (name : String) : TypeRef → Literal → Site → Prop
  | here {type : TypeRef} : Uses schema name type (.var name) (.typed type)
  | nonNull {inner : TypeRef} {literal : Literal} {site : Site}
    (notVar : ∀ other, literal ≠ .var other) (inside : Uses schema name inner literal site) :
    Uses schema name (.nonNull inner) literal site
  | item {item : TypeRef} {items : List Literal} {literal : Literal} {site : Site}
    (member : literal ∈ items) (inside : Uses schema name item literal site) :
    Uses schema name (.list item) (.list items) site
  | field {typeName : String} {type : InputObjectType} {fields : List (String × Literal)}
    {field : InputValueDefinition} {literal : Literal} {site : Site}
    (found : schema.type? typeName = some (.inputObject type)) (declared : field ∈ type.fields)
    (given : given? fields field.name = some literal)
    (inside : Uses schema name field.type literal site) :
    Uses schema name (.named typeName) (.object fields) site
  | scalar {typeName declared : String} {literal : Literal}
    (found : schema.type? typeName = some (.scalar declared))
    (notVar : ∀ other, literal ≠ .var other) (inside : literal.Holds name) :
    Uses schema name (.named typeName) literal .raw

/-- Reading the arguments of a field reads a variable at some site. -/
def UsesIn (schema : Schema) (name : String) (field : FieldDefinition)
    (supplied : List (String × Literal)) (site : Site) : Prop :=
  ∃ argument ∈ field.arguments, ∃ literal, given? supplied argument.name = some literal ∧
    Uses schema name argument.type literal site

/-- The value of a variable at a site, if it has one. -/
def readSite (schema : Schema) (vars : Variables) (name : String) (path : InputPath) :
    Site → Coerced (Option Json)
  | .typed type => vars.typed schema name type path
  | .raw => some <$> vars.raw name

section Given

variable {name : String} {literal : Literal}

/-- A field for which an object gives a literal that is no variable has what is read of it. -/
theorem literalField_of_given {scope : Scope}
    {deeper : TypeRef → Literal → InputPath → Coerced Json} {fields : List (String × Literal)}
    {field : InputValueDefinition} (given : given? fields field.name = some literal)
    (notVar : ∀ other, literal ≠ .var other) (path : InputPath) :
    literalField scope deeper fields field path = some <$> deeper field.type literal path := by
  unfold given? at given
  unfold literalField
  rw [given]
  cases literal with
  | var other => exact absurd rfl (notVar other)
  | _ => rfl

/-- An argument for which a literal is given that is no variable has what is read of it. -/
theorem coerceArgument_of_given {schema : Schema} {vars : Variables}
    {supplied : List (String × Literal)} {argument : InputValueDefinition}
    (given : given? supplied argument.name = some literal)
    (notVar : ∀ other, literal ≠ .var other) :
    coerceArgument schema vars supplied argument =
      some <$> coerceLiteral schema vars allLevels argument.type literal (.root argument.name) := by
  unfold given? at given
  unfold coerceArgument
  rw [given]
  cases literal with
  | var other => exact absurd rfl (notVar other)
  | _ => rfl

end Given

section Substitution

variable {raw : String → Coerced Json}

/-- Where all items can be filled, each can. -/
theorem item_of_substituteItems {items : List Literal} {results : List Json}
    (read : substituteItems raw items = .ok results) {item : Literal} (member : item ∈ items) :
    ∃ result, substitute raw item = .ok result := by
  induction items generalizing results with
  | nil => cases member
  | cons first rest ih =>
    rw [substituteItems] at read
    obtain ⟨result, here, later⟩ := bind_eq_ok.1 read
    obtain ⟨others, later, -⟩ := bind_eq_ok.1 later
    rcases List.mem_cons.1 member with rfl | member
    · exact ⟨result, here⟩
    · exact ih later member

/-- Where all fields can be filled, the value of each can. -/
theorem field_of_substituteFields {fields : List (String × Literal)}
    {results : List (String × Json)} (read : substituteFields raw fields = .ok results)
    {key : String} {value : Literal} (member : (key, value) ∈ fields) :
    ∃ result, substitute raw value = .ok result := by
  induction fields generalizing results with
  | nil => cases member
  | cons first rest ih =>
    rw [substituteFields] at read
    obtain ⟨result, here, later⟩ := bind_eq_ok.1 read
    obtain ⟨others, later, -⟩ := bind_eq_ok.1 later
    rcases List.mem_cons.1 member with rfl | member
    · exact ⟨result, here⟩
    · exact ih later member

/-- Inside a declared scalar every variable is read. -/
theorem raw_of_substitute {name : String} {literal : Literal} (holds : literal.Holds name)
    {result : Json} (read : substitute raw literal = .ok result) :
    ∃ value, raw name = .ok value := by
  induction holds generalizing result with
  | here => exact ⟨result, by rwa [substitute] at read⟩
  | item member inside ih =>
    rw [substitute] at read
    obtain ⟨results, read, -⟩ := bind_eq_ok.1 read
    obtain ⟨own, read⟩ := item_of_substituteItems read member
    exact ih read
  | field member inside ih =>
    rw [substitute] at read
    obtain ⟨results, read, -⟩ := bind_eq_ok.1 read
    obtain ⟨own, read⟩ := field_of_substituteFields read member
    exact ih read

end Substitution

variable {schema : Schema} {vars : Variables} {name : String}

/-- A literal that uses a variable is not null. -/
theorem Uses.ne_null {type : TypeRef} {literal : Literal} {site : Site}
    (uses : Uses schema name type literal site) : literal ≠ .null := by
  induction uses with
  | nonNull notVar inside ih => exact ih
  | scalar found notVar inside =>
    rintro rfl
    cases inside
  | here | item | field => exact Literal.noConfusion

/-- A literal that is a variable is read at the type itself. -/
theorem Uses.of_var {type : TypeRef} {other : String} {site : Site}
    (uses : Uses schema name type (.var other) site) : other = name ∧ site = .typed type := by
  cases uses with
  | here => exact ⟨rfl, rfl⟩
  | nonNull notVar => exact absurd rfl (notVar other)
  | scalar found notVar => exact absurd rfl (notVar other)

/-- At a non-null type a literal that is neither null nor a variable is read at the type inside. -/
theorem literalAt_nonNull {scope : Scope} {deeper : TypeRef → Literal → InputPath → Coerced Json}
    {inner : TypeRef} {literal : Literal} (notVar : ∀ other, literal ≠ .var other)
    (notNull : literal ≠ .null) (path : InputPath) :
    literalAt schema scope deeper (.nonNull inner) literal path =
      literalAt schema scope deeper inner literal path := by
  cases literal with
  | null => exact absurd rfl notNull
  | var other => exact absurd rfl (notVar other)
  | _ => rw [literalAt] <;> simp

/-- A literal is read only if each variable is that it uses. -/
theorem read_of_coerceLiteral {levels : Nat} {type : TypeRef} {literal : Literal} {path : InputPath}
    {result : Json} (read : coerceLiteral schema vars levels type literal path = .ok result)
    {site : Site} (uses : Uses schema name type literal site) :
    ∃ place value, readSite schema vars name place site = .ok value := by
  induction uses generalizing levels path result with
  | here =>
    obtain ⟨rest, rfl, step⟩ := coerceLiteral_eq_ok_iff.1 read
    rw [literalAt] at step
    obtain ⟨value, found, -⟩ := bind_eq_ok.1 step
    exact ⟨path, value, found⟩
  | nonNull notVar inside ih =>
    obtain ⟨rest, rfl, step⟩ := coerceLiteral_eq_ok_iff.1 read
    rw [literalAt_nonNull notVar inside.ne_null] at step
    exact ih (coerceLiteral_eq_ok_iff.2 ⟨rest, rfl, step⟩)
  | item member inside ih =>
    obtain ⟨rest, rfl, step⟩ := coerceLiteral_eq_ok_iff.1 read
    rw [literalAt] at step
    obtain ⟨results, step, -⟩ := bind_eq_ok.1 step
    obtain ⟨place, own, here⟩ := item_of_items step member
    exact ih here
  | @field typeName type fields field literal site found declared given inside ih =>
    obtain ⟨rest, rfl, step⟩ := coerceLiteral_eq_ok_iff.1 read
    rw [literalAt_object found] at step
    obtain ⟨members, step, -⟩ := map_eq_ok.1 step
    obtain ⟨own, here⟩ := supplied_of_inputFields step declared
    -- a variable that is given for the field is the site itself, any other literal has it inside
    by_cases isVar : ∃ other, literal = .var other
    · obtain ⟨other, rfl⟩ := isVar
      obtain ⟨rfl, rfl⟩ := inside.of_var
      unfold given? at given
      unfold literalField at here
      rw [given] at here
      obtain ⟨value, found, -⟩ := bind_eq_ok.1 here
      exact ⟨_, value, found⟩
    · rw [literalField_of_given given (not_exists.1 isVar)] at here
      obtain ⟨value, found, -⟩ := map_eq_ok.1 here
      exact ih found
  | scalar found notVar inside =>
    obtain ⟨rest, rfl, step⟩ := coerceLiteral_eq_ok_iff.1 read
    cases inside with
    | here => exact absurd rfl (notVar name)
    | item member inside =>
      simp only [literalAt, found, literalJson_eq_substitute] at step
      obtain ⟨value, known⟩ := raw_of_substitute (.item member inside) step
      exact ⟨path, some value, map_eq_ok.2 ⟨value, known, rfl⟩⟩
    | field member inside =>
      simp only [literalAt, found, literalJson_eq_substitute] at step
      obtain ⟨value, known⟩ := raw_of_substitute (.field member inside) step
      exact ⟨path, some value, map_eq_ok.2 ⟨value, known, rfl⟩⟩

/-- Where all declared arguments are read, each is. -/
theorem argument_of_coerceDeclared {supplied : List (String × Literal)}
    {declared : List InputValueDefinition} {arguments : Json.Object}
    (read : coerceDeclared schema vars supplied declared = .ok arguments)
    {argument : InputValueDefinition} (member : argument ∈ declared) :
    ∃ value, coerceArgument schema vars supplied argument = .ok value := by
  induction declared generalizing arguments with
  | nil => cases member
  | cons first rest ih =>
    obtain ⟨value, here, read⟩ := bind_eq_ok.1 read
    obtain ⟨others, read, -⟩ := bind_eq_ok.1 read
    rcases List.mem_cons.1 member with rfl | member
    · exact ⟨value, here⟩
    · exact ih read member

/-- The arguments of a field are read only if each of them is. -/
theorem argument_of_coerceArguments {typeName : String} {field : FieldDefinition}
    {supplied : List (String × Literal)} {arguments : Json.Object}
    (read : coerceArguments schema vars typeName field supplied = .ok arguments)
    {argument : InputValueDefinition} (declared : argument ∈ field.arguments) :
    ∃ value, coerceArgument schema vars supplied argument = .ok value := by
  unfold coerceArguments at read
  split at read
  · cases read
  · exact argument_of_coerceDeclared read declared

/-- The arguments of a field are read only if each variable is that they use. -/
theorem read_of_coerceArguments {typeName : String} {field : FieldDefinition}
    {supplied : List (String × Literal)} {arguments : Json.Object}
    (read : coerceArguments schema vars typeName field supplied = .ok arguments) {site : Site}
    (uses : UsesIn schema name field supplied site) :
    ∃ place value, readSite schema vars name place site = .ok value := by
  obtain ⟨argument, declared, literal, given, uses⟩ := uses
  obtain ⟨value, here⟩ := argument_of_coerceArguments read declared
  by_cases isVar : ∃ other, literal = .var other
  · obtain ⟨other, rfl⟩ := isVar
    obtain ⟨rfl, rfl⟩ := uses.of_var
    unfold given? at given
    simp only [coerceArgument, given] at here
    obtain ⟨value, here, -⟩ := bind_eq_ok.1 here
    exact ⟨_, value, here⟩
  · rw [coerceArgument_of_given given (not_exists.1 isVar)] at here
    obtain ⟨value, here, -⟩ := map_eq_ok.1 here
    exact read_of_coerceLiteral here uses

end Coercion

end GraphQL
