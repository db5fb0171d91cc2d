import GraphQL.Proofs.Inputs.Places

/-!
# Where values come from

What every value in the arguments of a field was read of, whatever mixture of literals, variables
and defaults it stands in (`Coercion.ReadFrom`): a literal that is in play, a JSON value of the
request, or nothing. Each list and input object around it took a level. A variable starts anew with
all levels, so these are counted on top of the levels that the lists and objects around it took.
-/

set_option autoImplicit false

namespace GraphQL

/-- A variable stands in a literal, inside that many lists and objects. -/
inductive Literal.HoldsAt (name : String) : Nat → Literal → Prop
  | here : HoldsAt name 0 (.var name)
  | inside {part whole : Literal} {depth : Nat} (holds : HoldsAt name depth part)
    (inside : part.Inside whole) : HoldsAt name (depth + 1) whole

/-- A constant holds no variable, at no depth. -/
theorem Literal.Constant.not_holdsAt {literal : Literal} (constant : literal.Constant)
    {name : String} {depth : Nat} : ¬ literal.HoldsAt name depth := by
  intro holds
  induction holds with
  | here => exact constant name .here
  | inside holds inside ih => exact ih (constant.of_inside inside)

/-- A literal is the default of an argument or an input field. -/
def Schema.Default (schema : Schema) (literal : Literal) : Prop :=
  ∃ type ∈ schema.types, ∃ value, type.Takes value ∧ value.default = some literal

/-- The default of a field of an input object is a default of the schema. -/
theorem Schema.FieldDefault.default {schema : Schema} {literal : Literal}
    (ofField : schema.FieldDefault literal) : schema.Default literal := by
  obtain ⟨name, type, found, field, member, given⟩ := ofField
  exact ⟨_, (mem_of_type? found).1, field, .inputField member, given⟩

/-- Where the defaults of a schema are constants, each of them is. -/
theorem Schema.ConstantDefaults.default {schema : Schema} (constants : schema.ConstantDefaults)
    {literal : Literal} (default : schema.Default literal) : literal.Constant := by
  obtain ⟨type, member, value, takes, given⟩ := default
  exact constants type member value takes literal given

namespace Coercion

open Checks

variable {schema : Schema} {vars : Variables} {supplied : List (String × Literal)}

/-- A literal is in play when arguments are read: it is supplied, it is a default of the schema or
of a variable, or it stands in one of these. -/
inductive InPlay (schema : Schema) (vars : Variables) (supplied : List (String × Literal)) :
    Literal → Prop
  | given {name : String} {literal : Literal} (member : (name, literal) ∈ supplied) :
    InPlay schema vars supplied literal
  | declared {literal : Literal} (default : schema.Default literal) :
    InPlay schema vars supplied literal
  | variable {definition : VariableDefinition} {literal : Literal}
    (member : definition ∈ vars.definitions) (default : definition.default = some literal) :
    InPlay schema vars supplied literal
  | inside {part whole : Literal} (inPlay : InPlay schema vars supplied whole)
    (inside : part.Inside whole) : InPlay schema vars supplied part

/-- A value was read at a type, and what is in it took no more than so many levels: as many as were
left when reading started, and for each variable all levels on top of those around it. -/
inductive ReadFrom (schema : Schema) (vars : Variables) (supplied : List (String × Literal))
    (levels : Nat) (type : TypeRef) (value : Json) : Prop
  | literal {left : Nat} {literal : Literal} {path : InputPath}
    (inPlay : InPlay schema vars supplied literal) (notVar : ∀ name, literal ≠ .var name)
    (enough : left ≤ levels)
    (room : ∀ name depth, literal.HoldsAt name depth → min depth left + allLevels ≤ levels)
    (read : coerceLiteral schema vars left type literal path = .ok value)
  | constant {left : Nat} {literal : Literal} {path : InputPath}
    (inPlay : InPlay schema vars supplied literal) (enough : left ≤ levels)
    (read : coerceConstant schema left type literal path = .ok value)
  | json {left : Nat} {given : Json} {path : InputPath} (enough : left ≤ levels)
    (read : coerceJson schema left type given path = .ok value)
  | absent (enough : 0 < levels) (nullable : type.isNonNull = false) (isNull : value = .null)

namespace ReadFrom

variable {levels : Nat} {type : TypeRef} {value : Json}

/-- What is read with some levels is read with more. -/
theorem mono (read : ReadFrom schema vars supplied levels type value) {more : Nat}
    (enough : levels ≤ more) : ReadFrom schema vars supplied more type value := by
  cases read with
  | literal inPlay notVar own room read =>
    exact .literal inPlay notVar (Nat.le_trans own enough)
      (fun name depth holds => Nat.le_trans (room name depth holds) enough) read
  | constant inPlay own read => exact .constant inPlay (Nat.le_trans own enough) read
  | json own read => exact .json (Nat.le_trans own enough) read
  | absent own nullable isNull => exact .absent (Nat.lt_of_lt_of_le own enough) nullable isNull

/-- Without a level nothing is read. -/
theorem pos (read : ReadFrom schema vars supplied levels type value) : 0 < levels := by
  cases read with
  | literal inPlay notVar enough room read =>
    obtain ⟨left, rfl, -⟩ := coerceLiteral_eq_ok_iff.1 read
    exact Nat.lt_of_lt_of_le (Nat.succ_pos left) enough
  | constant inPlay enough read =>
    obtain ⟨left, rfl, -⟩ := coerceConstant_eq_ok_iff.1 read
    exact Nat.lt_of_lt_of_le (Nat.succ_pos left) enough
  | json enough read =>
    obtain ⟨left, rfl, -⟩ := coerceJson_eq_ok_iff.1 read
    exact Nat.lt_of_lt_of_le (Nat.succ_pos left) enough
  | absent enough => exact enough

/-- What a variable was read as, null where it has no value. -/
theorem of_typed {name : String} {path : InputPath} {given : Option Json}
    (read : vars.typed schema name type path = .ok given) :
    ReadFrom schema vars supplied allLevels type (given.getD .null) := by
  have nullable : given = none → type.isNonNull = false := by
    rintro rfl
    exact (typed_sound schema vars).nullable read
  obtain ⟨definition, known, read⟩ := bind_eq_ok.1 read
  split at read
  · obtain ⟨value, found, same⟩ := bind_eq_ok.1 read
    cases same
    exact .json (Nat.le_refl _) found
  · split at read
    · next literal default =>
      obtain ⟨value, found, same⟩ := bind_eq_ok.1 read
      cases same
      exact .constant (.variable (Variables.mem_of_definition known) default) (Nat.le_refl _) found
    · split at read
      · cases read
      · cases read
        exact .absent (by decide) (nullable rfl) rfl

/-- What a literal was read as, which may be a variable. -/
theorem of_coerceLiteral {literal : Literal} (inPlay : InPlay schema vars supplied literal)
    {left : Nat} {path : InputPath} (enough : left ≤ levels)
    (room : ∀ name depth, literal.HoldsAt name depth → min depth left + allLevels ≤ levels)
    (read : coerceLiteral schema vars left type literal path = .ok value) :
    ReadFrom schema vars supplied levels type value := by
  by_cases isVar : ∃ name, literal = .var name
  · obtain ⟨name, rfl⟩ := isVar
    obtain ⟨rest, rfl, step⟩ := coerceLiteral_eq_ok_iff.1 read
    rw [literalAt] at step
    obtain ⟨given, found, same⟩ := bind_eq_ok.1 step
    cases same
    exact (of_typed found).mono (Nat.le_trans (Nat.le_add_left _ _) (room name 0 .here))
  · exact .literal inPlay (not_exists.1 isVar) enough room read

/-- What a default of the schema was read as. -/
theorem of_default (constants : schema.ConstantDefaults) {literal : Literal}
    (default : schema.Default literal) {left : Nat} {path : InputPath} (enough : left ≤ levels)
    (read : coerceLiteral schema vars left type literal path = .ok value) :
    ReadFrom schema vars supplied levels type value :=
  of_coerceLiteral (.declared default) enough
    (fun _ _ holds => absurd holds (constants.default default).not_holdsAt) read

/-- What is read at a non-null type is read at the type inside. -/
theorem inner (read : ReadFrom schema vars supplied levels (.nonNull type) value) :
    ReadFrom schema vars supplied levels type value := by
  cases read with
  | literal inPlay notVar enough room read =>
    obtain ⟨left, rfl, step⟩ := coerceLiteral_eq_ok_iff.1 read
    exact .literal inPlay notVar enough room
      (coerceLiteral_eq_ok_iff.2 ⟨left, rfl, literalAt_inner notVar step⟩)
  | constant inPlay enough read =>
    obtain ⟨left, rfl, step⟩ := coerceConstant_eq_ok_iff.1 read
    exact .constant inPlay enough
      (coerceConstant_eq_ok_iff.2 ⟨left, rfl, literalAt_inner (ne_var_of_coerceConstant read) step⟩)
  | json enough read =>
    obtain ⟨left, rfl, step⟩ := coerceJson_eq_ok_iff.1 read
    exact .json enough (coerceJson_eq_ok_iff.2 ⟨left, rfl, jsonAt_inner step⟩)
  | absent enough nullable isNull => cases nullable

/-- A part of what was read was read with one level less. -/
theorem part (distinct : schema.DistinctFields) (constants : schema.ConstantDefaults)
    (read : ReadFrom schema vars supplied levels type value) {inner : TypeRef} {part : Json}
    (directly : InputPart schema type value inner part) :
    ∃ rest, levels = rest + 1 ∧ ReadFrom schema vars supplied rest inner part := by
  obtain ⟨rest, rfl⟩ := Nat.exists_eq_add_one_of_ne_zero (Nat.ne_of_gt read.pos)
  refine ⟨rest, rfl, ?_⟩
  cases read with
  | literal inPlay notVar enough room read =>
    obtain ⟨left, rfl, step⟩ := coerceLiteral_eq_ok_iff.1 read
    have enough : left ≤ rest := Nat.le_of_succ_le_succ enough
    rcases literalAt_part distinct notVar step directly with
      ⟨source, place, inside | default, own⟩ | ⟨name, place, given, inside, typed, rfl⟩
    · refine of_coerceLiteral (.inside inPlay inside) enough (fun name depth holds => ?_) own
      have := room name (depth + 1) (.inside holds inside)
      omega
    · exact of_default constants default.default enough own
    · have := room name 1 (.inside .here inside)
      exact (of_typed typed).mono (by omega)
  | constant inPlay enough read =>
    obtain ⟨left, rfl, step⟩ := coerceConstant_eq_ok_iff.1 read
    have enough : left ≤ rest := Nat.le_of_succ_le_succ enough
    rcases literalAt_part distinct (ne_var_of_coerceConstant read) step directly with
      ⟨source, place, inside | default, own⟩ | ⟨name, place, given, inside, typed, rfl⟩
    · exact .constant (.inside inPlay inside) enough own
    · exact .constant (.declared default.default) enough own
    · cases typed
  | json enough read =>
    obtain ⟨left, rfl, step⟩ := coerceJson_eq_ok_iff.1 read
    have enough : left ≤ rest := Nat.le_of_succ_le_succ enough
    rcases jsonAt_part distinct step directly with
      ⟨source, place, own⟩ | ⟨source, place, default, own⟩
    · exact .json enough own
    · exact .constant (.declared default.default) enough own
  | absent enough nullable isNull =>
    subst isNull
    cases directly

/-- All that stands in what was read was read itself, with one level less for each list and input
object around it. -/
theorem of_holds (distinct : schema.DistinctFields) (constants : schema.ConstantDefaults)
    (read : ReadFrom schema vars supplied levels type value) {depth : Nat} {last : TypeRef}
    {place : Json} (holds : InputHolds schema type value depth last place) :
    ∃ rest, levels = depth + rest ∧ ReadFrom schema vars supplied rest last place := by
  induction holds generalizing levels with
  | here => exact ⟨levels, (Nat.zero_add levels).symm, read⟩
  | nonNull inside ih => exact ih read.inner
  | @deeper _ _ _ _ _ _ depth directly inside ih =>
    obtain ⟨rest, rfl, here⟩ := read.part distinct constants directly
    obtain ⟨rest, rfl, last⟩ := ih here
    exact ⟨rest, Nat.add_right_comm depth rest 1, last⟩

/-- What was read fits the levels that there were. -/
theorem fits (distinct : schema.DistinctFields) (constants : schema.ConstantDefaults)
    (read : ReadFrom schema vars supplied levels type value) :
    InputFits schema levels type value := by
  intro depth last place holds
  obtain ⟨rest, rfl, last⟩ := read.of_holds distinct constants holds
  exact Nat.lt_add_of_pos_right last.pos

/-- The value of an argument was read with all levels, and with those on top that stand around the
variables in what is supplied for it. -/
theorem of_coerceArgument (constants : schema.ConstantDefaults) {argument : InputValueDefinition}
    (declared : ∀ literal, argument.default = some literal → schema.Default literal) {around : Nat}
    (room : ∀ literal, given? supplied argument.name = some literal →
      ∀ name depth, literal.HoldsAt name depth → min depth allLevels ≤ around)
    (read : coerceArgument schema vars supplied argument = .ok (some value)) :
    ReadFrom schema vars supplied (around + allLevels) argument.type value := by
  have enough : allLevels ≤ around + allLevels := Nat.le_add_left _ _
  -- a default of the schema brings its own levels
  have ofDefault : ∀ {literal : Literal} {path : InputPath}, argument.default = some literal →
      (some <$> coerceLiteral schema vars allLevels argument.type literal path) =
        Except.ok (some value) →
      ReadFrom schema vars supplied (around + allLevels) argument.type value := by
    intro literal path default read
    obtain ⟨own, found, same⟩ := map_eq_ok.1 read
    cases same
    exact of_default constants (declared literal default) enough found
  unfold coerceArgument at read
  simp only at read
  split at read
  · obtain ⟨given, typed, read⟩ := bind_eq_ok.1 read
    have ofVariable : ReadFrom schema vars supplied (around + allLevels) argument.type
        (given.getD .null) := (of_typed typed).mono enough
    split at read
    · cases read
      exact ofVariable
    · exact ofDefault ‹_› read
    · cases read
      exact ofVariable
  · next literal default notVar given =>
    obtain ⟨⟨key, own⟩, found, rfl⟩ := Option.map_eq_some_iff.1 given
    obtain ⟨result, read, same⟩ := bind_eq_ok.1 read
    cases same
    exact of_coerceLiteral (.given (List.mem_of_find?_eq_some found)) enough
      (fun name depth holds => Nat.add_le_add_right (room own given name depth holds) _) read
  · exact ofDefault ‹_› read
  · split at read
    · cases read
    · cases read

end ReadFrom

/-- The value under the name of an argument is what the argument was read as. -/
theorem coerceArgument_of_member {declared : List InputValueDefinition}
    (distinct : (declared.map (·.name)).Nodup) {arguments : Json.Object}
    (read : coerceDeclared schema vars supplied declared = .ok arguments)
    {argument : InputValueDefinition} (ofField : argument ∈ declared) {value : Json}
    (member : (argument.name, value) ∈ arguments) :
    coerceArgument schema vars supplied argument = .ok (some value) := by
  induction declared generalizing arguments with
  | nil => cases ofField
  | cons first rest ih =>
    obtain ⟨own, here, read⟩ := bind_eq_ok.1 read
    obtain ⟨others, later, read⟩ := bind_eq_ok.1 read
    obtain ⟨fresh, distinct⟩ := List.nodup_cons.1 distinct
    -- the names of the other arguments are not that of the first one
    have named : ∀ {value : Json}, (argument.name, value) ∈ others → argument ∈ rest := by
      intro value member
      rcases List.mem_cons.1 ofField with rfl | inRest
      · have name := (coerceDeclared_sound later).keys_sublist.subset (List.mem_map_of_mem member)
        exact absurd name fresh
      · exact inRest
    cases own with
    | none =>
      cases read
      exact ih distinct later (named member) member
    | some own =>
      cases read
      rcases List.mem_cons.1 member with same | member
      · obtain ⟨sameName, rfl⟩ := Prod.mk.inj same
        rcases List.mem_cons.1 ofField with rfl | inRest
        · exact here
        · exact absurd (List.mem_map.2 ⟨argument, inRest, sameName⟩) fresh
      · exact ih distinct later (named member) member

/-- In an accepted schema, every value in the arguments of a declared field was read. -/
theorem ReadFrom.of_coerceArguments {limit : Nat} {text : String}
    (accepted : Schema.parseWithin limit text = .ok schema) {typeName : String} {type : ObjectType}
    (found : schema.type? typeName = some (.object type)) {field : FieldDefinition}
    (ofType : field ∈ type.fields) {arguments : Json.Object}
    (read : coerceArguments schema vars typeName field supplied = .ok arguments)
    {argument : InputValueDefinition} (ofField : argument ∈ field.arguments) {around : Nat}
    (room : ∀ literal, given? supplied argument.name = some literal →
      ∀ name depth, literal.HoldsAt name depth → min depth allLevels ≤ around)
    {value : Json} (member : (argument.name, value) ∈ arguments) :
    ReadFrom schema vars supplied (around + allLevels) argument.type value := by
  obtain ⟨declared, -⟩ := Schema.mem_of_type? found
  have distinct := (Schema.distinctParts_of_parseWithin accepted declared).2 field ofType
  unfold coerceArguments at read
  split at read
  · cases read
  · exact .of_coerceArgument (Schema.constantDefaults_of_parseWithin accepted)
      (fun literal default => ⟨_, declared, argument, .argument ofType ofField, default⟩) room
      (coerceArgument_of_member distinct read ofField member)

end Coercion

end GraphQL
