import Mathlib
import GraphQL.Proofs.Inputs.Constants
import GraphQL.Proofs.Inputs.Forms

/-!
# Variables in declared scalars

Inside a literal of a declared scalar a variable stands for its value as it is, whatever its type.
The literal is refused just if it holds a variable that has no value and needs one, or that nobody
defines; otherwise it is read as its JSON form with the values of its variables put in
(`Coercion.literalJson_fills`). What holds no variable is taken in its form at once; only variables,
lists and objects are left to be gone through, so that no numeral is ever turned into null for want
of a form.
-/

set_option autoImplicit false

namespace GraphQL

open Relation (ReflTransGen)

namespace Literal

/-- The numerals in a literal are spelled as the grammar of documents has them. -/
inductive Lexical : Literal → Prop
  | null : Lexical .null
  | var {name : String} : Lexical (.var name)
  | bool {b : Bool} : Lexical (.bool b)
  | int {text : String} (h : Decimal.IntText text) : Lexical (.int text)
  | float {text : String} (h : Decimal.FloatText text) : Lexical (.float text)
  | string {s : String} : Lexical (.string s)
  | enum {symbol : String} : Lexical (.enum symbol)
  | list {items : List Literal} (h : ∀ item ∈ items, Lexical item) : Lexical (.list items)
  | object {fields : List (String × Literal)} (h : ∀ field ∈ fields, Lexical field.2) :
    Lexical (.object fields)

/-- A JSON value is the form of a literal in which each variable stands for a value that is given
for it. Of the fields of an object with one name the first one gives the place, and the last one the
value. -/
inductive Denotes (given : String → Json → Prop) : Literal → Json → Prop
  | null : Denotes given .null .null
  | var {name : String} {value : Json} (h : given name value) : Denotes given (.var name) value
  | bool {b : Bool} : Denotes given (.bool b) (.bool b)
  | int {text : String} {value : Json} (h : numberJson? text = some value) :
    Denotes given (.int text) value
  | float {text : String} {value : Json} (h : floatJson? text = some value) :
    Denotes given (.float text) value
  | string {s : String} : Denotes given (.string s) (.string s)
  | enum {symbol : String} : Denotes given (.enum symbol) (.string symbol)
  | list {items : List Literal} {values : List Json}
    (h : List.Forall₂ (Denotes given) items values) :
    Denotes given (.list items) (.array values)
  | object {fields : List (String × Literal)} {values : List Json}
    (h : List.Forall₂ (Denotes given) (fields.map Prod.snd) values) :
    Denotes given (.object fields)
      (.object (Json.Object.ofList ((fields.map Prod.fst).zip values)))

/-- The text of an integer has a JSON form. -/
theorem exists_numberJson? {text : String} (h : Decimal.IntText text) :
    ∃ value, numberJson? text = some value := by
  obtain ⟨d, read⟩ := h.exists_ofText?
  unfold numberJson?
  split
  · exact ⟨_, rfl⟩
  · exact ⟨.ofDecimal d, by rw [read]; rfl⟩

namespace Lexical

/-- The parts of a literal with well-spelled numerals have well-spelled numerals. -/
theorem of_within {part whole : Literal} (within : ReflTransGen Inside part whole)
    (lexical : whole.Lexical) : part.Lexical := by
  induction within using ReflTransGen.head_induction_on with
  | refl => exact lexical
  | head inside _ ih =>
    cases inside with
    | item member =>
      cases ih with
      | list h => exact h _ member
    | field member =>
      cases ih with
      | object h => exact h _ member

/-- A literal without variables has a JSON form. -/
theorem exists_toJson? {literal : Literal} (lexical : literal.Lexical)
    (constant : literal.Constant) : ∃ value, literal.toJson? = some value := by
  induction lexical with
  | var => exact absurd .here (constant _)
  | int h => exact exists_numberJson? h
  | float h => exact exists_floatJson? h
  | list h ih =>
    obtain ⟨values, forms⟩ := exists_itemsToJson? fun item member =>
      ih item member (constant.of_inside (.item member))
    exact ⟨.array values, by rw [toJson?, forms]; rfl⟩
  | object h ih =>
    obtain ⟨members, forms⟩ := exists_fieldsToJson? fun field member =>
      ih field member (constant.of_inside (.field member))
    exact ⟨_, by rw [toJson?, forms]; rfl⟩
  | null | bool | string | enum => exact ⟨_, rfl⟩

/-- What has no JSON form is a variable, or a list or an object with one in it. -/
theorem of_toJson?_eq_none {literal : Literal} (lexical : literal.Lexical)
    (none : literal.toJson? = none) :
    (∃ name, literal = .var name) ∨ (∃ items, literal = .list items) ∨
      ∃ fields, literal = .object fields := by
  have holds : ¬ literal.Constant := by
    intro constant
    obtain ⟨value, form⟩ := lexical.exists_toJson? constant
    rw [none] at form
    cases form
  unfold Constant at holds
  push Not at holds
  obtain ⟨name, holds⟩ := holds
  cases holds with
  | here => exact .inl ⟨name, rfl⟩
  | item => exact .inr (.inl ⟨_, rfl⟩)
  | field => exact .inr (.inr ⟨_, rfl⟩)

end Lexical

end Literal

namespace Coercion

open Checks Literal

section Parts

variable {raw : String → Coerced Json}

/-- Items are filled to the values to which each of them is filled. -/
theorem substituteItems_eq_ok_iff {items : List Literal} {values : List Json} :
    substituteItems raw items = .ok values ↔
      List.Forall₂ (fun item value => substitute raw item = .ok value) items values := by
  induction items generalizing values with
  | nil => simp [substituteItems, eq_comm]
  | cons item rest ih =>
    simp only [substituteItems, bind_eq_ok, ih, List.forall₂_cons_left_iff]
    constructor
    · rintro ⟨value, here, others, later, same⟩
      cases same
      exact ⟨value, others, here, later, rfl⟩
    · rintro ⟨value, others, here, later, rfl⟩
      exact ⟨value, here, others, later, rfl⟩

/-- Fields are filled to members with the same keys, and the values to which theirs are filled. -/
theorem substituteFields_eq_ok_iff {fields : List (String × Literal)} {members : Json.Object} :
    substituteFields raw fields = .ok members ↔
      ∃ values, List.Forall₂ (fun field value => substitute raw field.2 = .ok value) fields values ∧
        members = (fields.map Prod.fst).zip values := by
  induction fields generalizing members with
  | nil => simp [substituteFields, eq_comm]
  | cons field rest ih =>
    obtain ⟨name, literal⟩ := field
    simp only [substituteFields, bind_eq_ok, ih, List.forall₂_cons_left_iff]
    constructor
    · rintro ⟨value, here, _, ⟨others, later, rfl⟩, same⟩
      cases same
      exact ⟨value :: others, ⟨value, others, here, later, rfl⟩, rfl⟩
    · rintro ⟨_, ⟨value, others, here, later, rfl⟩, rfl⟩
      exact ⟨value, here, _, ⟨others, later, rfl⟩, rfl⟩

/-- Lists go together entry by entry if the relation is the same for each entry of the first. -/
theorem forall₂_congr_left {α β : Type} {related related' : α → β → Prop} {list : List α}
    {other : List β} (same : ∀ a ∈ list, ∀ b, related a b ↔ related' a b) :
    List.Forall₂ related list other ↔ List.Forall₂ related' list other := by
  induction list generalizing other with
  | nil => simp
  | cons a rest ih =>
    obtain ⟨here, later⟩ := List.forall_mem_cons.1 same
    simp only [List.forall₂_cons_left_iff, here, ih later]

/-- What a literal is read as, part by part, is its form with the values of its variables. -/
theorem substitute_eq_ok_iff {literal : Literal} (lexical : literal.Lexical) {value : Json} :
    substitute raw literal = .ok value ↔
      literal.Denotes (fun name value => raw name = .ok value) value := by
  -- on the literal: a numeral has a form because it is one, other parts are read by themselves
  induction lexical generalizing value with
  | var =>
    rw [substitute]
    constructor
    · exact fun found => .var found
    · rintro ⟨⟩
      assumption
  | int h =>
    obtain ⟨own, form⟩ := exists_numberJson? h
    rw [substitute, form]
    constructor
    · rintro ⟨⟩
      exact .int form
    · rintro (_ | _ | _ | form')
      rw [form] at form'
      cases form'
      rfl
  | float h =>
    obtain ⟨own, form⟩ := exists_floatJson? h
    rw [substitute, form]
    constructor
    · rintro ⟨⟩
      exact .float form
    · rintro (_ | _ | _ | _ | form')
      rw [form] at form'
      cases form'
      rfl
  | @list items h ih =>
    have parts : ∀ values, substituteItems raw items = .ok values ↔
        List.Forall₂ (Denotes fun name value => raw name = .ok value) items values := by
      intro values
      rw [substituteItems_eq_ok_iff]
      exact forall₂_congr_left fun item member value => ih item member
    rw [substitute, bind_eq_ok]
    constructor
    · rintro ⟨values, read, same⟩
      cases same
      exact .list ((parts values).1 read)
    · rintro (_ | _ | _ | _ | _ | _ | _ | same)
      exact ⟨_, (parts _).2 same, rfl⟩
  | @object fields h ih =>
    have parts : ∀ values,
        List.Forall₂ (fun field value => substitute raw field.2 = .ok value) fields values ↔
          List.Forall₂ (Denotes fun name value => raw name = .ok value) (fields.map Prod.snd)
            values := by
      intro values
      rw [List.forall₂_map_left_iff]
      exact forall₂_congr_left fun field member value => ih field member
    rw [substitute, bind_eq_ok]
    constructor
    · rintro ⟨members, read, same⟩
      cases same
      obtain ⟨values, own, rfl⟩ := substituteFields_eq_ok_iff.1 read
      exact .object ((parts values).1 own)
    · rintro (_ | _ | _ | _ | _ | _ | _ | _ | same)
      exact ⟨_, substituteFields_eq_ok_iff.2 ⟨_, (parts _).2 same, rfl⟩, rfl⟩
  | null | bool | string | enum =>
    rw [substitute]
    constructor
    · rintro ⟨⟩
      constructor
    · rintro ⟨⟩
      rfl

/-- A literal is read if each variable in it is. -/
theorem exists_substitute {literal : Literal} (lexical : literal.Lexical)
    (known : ∀ name, literal.Holds name → ∃ value, raw name = .ok value) :
    ∃ value, substitute raw literal = .ok value := by
  induction lexical with
  | var => exact known _ .here
  | list h ih =>
    choose! own hown using fun item member =>
      ih item member fun name holds => known name (.item member holds)
    have read := substituteItems_eq_ok_iff.2
      (List.forall₂_map_right_iff.2 (List.forall₂_same.2 hown))
    exact ⟨_, by rw [substitute, read]; rfl⟩
  | object h ih =>
    choose! own hown using fun field member =>
      ih field member fun name holds => known name (.field member holds)
    have read := substituteFields_eq_ok_iff.2
      ⟨_, List.forall₂_map_right_iff.2 (List.forall₂_same.2 hown), rfl⟩
    exact ⟨_, by rw [substitute, read]; rfl⟩
  | null | bool | int | float | string | enum =>
    rw [substitute]
    exact ⟨_, rfl⟩

end Parts

end Coercion

namespace Variables

variable {vars : Variables} {name : String}

/-- A variable stands for a value: the one that the request gives, else its default, else null, if
its type allows that. A default without a JSON form counts as null. -/
inductive Fills (vars : Variables) (name : String) : Json → Prop
  | given {definition : VariableDefinition} {value : Json}
    (known : vars.definition name = .ok definition)
    (present : Json.Object.get? vars.values name = some value) : Fills vars name value
  | default {definition : VariableDefinition} {default : Literal}
    (known : vars.definition name = .ok definition)
    (missing : Json.Object.get? vars.values name = none)
    (declared : definition.default = some default) :
    Fills vars name ((default.toJson?).getD .null)
  | null {definition : VariableDefinition} (known : vars.definition name = .ok definition)
    (missing : Json.Object.get? vars.values name = none) (noDefault : definition.default = none)
    (nullable : definition.type.isNonNull = false) : Fills vars name .null

/-- A variable stands for nothing: it is not defined, or it has neither a value nor a default and
may not be null. -/
inductive Lacks (vars : Variables) (name : String) : Prop
  | undefined (unknown : ∀ definition ∈ vars.definitions, definition.name ≠ name)
  | missing {definition : VariableDefinition} (known : vars.definition name = .ok definition)
    (missing : Json.Object.get? vars.values name = none) (noDefault : definition.default = none)
    (nonNull : definition.type.isNonNull = true)

/-- Each variable stands for a value or for nothing. -/
theorem fills_or_lacks : (∃ value, vars.Fills name value) ∨ vars.Lacks name := by
  cases known : vars.definition name with
  | error cause =>
    unfold Variables.definition at known
    split at known
    · cases known
    · next unknown =>
      exact .inr (.undefined (by simpa [List.find?_eq_none] using unknown))
  | ok definition =>
    cases present : Json.Object.get? vars.values name with
    | some value => exact .inl ⟨value, .given known present⟩
    | none =>
      cases declared : definition.default with
      | some default => exact .inl ⟨_, .default known present declared⟩
      | none =>
        cases required : definition.type.isNonNull with
        | true => exact .inr (.missing known present declared required)
        | false => exact .inl ⟨.null, .null known present declared required⟩

/-- The value that a variable stands for is found. -/
theorem raw_of_fills {value : Json} (fills : vars.Fills name value) :
    vars.raw name = .ok value := by
  unfold Variables.raw
  cases fills with
  | given known present =>
    simp only [known, bind, Except.bind, present]
    rfl
  | default known missing declared =>
    simp only [known, bind, Except.bind, missing, declared]
    rfl
  | null known missing noDefault nullable =>
    simp only [known, bind, Except.bind, missing, noDefault, nullable]
    rfl

/-- Looking for the value of a variable that stands for nothing fails. -/
theorem raw_of_lacks (lacks : vars.Lacks name) : ∃ cause, vars.raw name = .error cause := by
  unfold Variables.raw
  cases lacks with
  | undefined unknown =>
    have unknown : vars.definitions.find? (fun definition => definition.name == name) = none := by
      simpa [List.find?_eq_none] using unknown
    exact ⟨.undefinedVariable name, by simp only [Variables.definition, unknown]; rfl⟩
  | @missing definition known missing noDefault nonNull =>
    refine ⟨.missingVariable name definition.type, ?_⟩
    simp only [known, bind, Except.bind, missing, noDefault, nonNull, if_true]

/-- A variable is read as it is just if it stands for a value. -/
theorem raw_eq_ok_iff {value : Json} : vars.raw name = .ok value ↔ vars.Fills name value := by
  refine ⟨fun read => ?_, raw_of_fills⟩
  have known : (∃ own, vars.Fills name own) ∨ vars.Lacks name := vars.fills_or_lacks
  obtain ⟨own, fills⟩ | lacks := known
  · have same := raw_of_fills fills
    rw [read] at same
    cases same
    exact fills
  · obtain ⟨cause, failed⟩ := raw_of_lacks lacks
    rw [read] at failed
    cases failed

end Variables

namespace Coercion

open Checks Literal

variable {vars : Variables} {literal : Literal}

/-- A literal has a JSON form just if it holds no variable. -/
theorem exists_toJson?_iff (lexical : literal.Lexical) :
    (∃ value, literal.toJson? = some value) ↔ literal.Constant := by
  refine ⟨?_, lexical.exists_toJson?⟩
  rintro ⟨value, form⟩ name holds
  have read : substitute Scope.constants.raw literal = .ok value :=
    substitute_of_toJson? literal form
  obtain ⟨_, ⟨⟩⟩ := raw_of_substitute holds read

/-- The JSON form of a literal is what it denotes without any variable. -/
theorem denotes_of_toJson? (lexical : literal.Lexical) {value : Json}
    (form : literal.toJson? = some value) : literal.Denotes (fun _ _ => False) value := by
  have read : substitute Scope.constants.raw literal = .ok value :=
    substitute_of_toJson? literal form
  have nothing : (fun name value => Scope.constants.raw name = .ok value) = fun _ _ => False := by
    funext name value
    simp [Scope.constants]
  rwa [substitute_eq_ok_iff lexical, nothing] at read

/-- A literal is read as it is unless a variable in it stands for nothing. -/
theorem literalJson_eq_error_iff (lexical : literal.Lexical) :
    (∃ cause, literalJson vars.raw literal = .error cause) ↔
      ∃ name, literal.Holds name ∧ vars.Lacks name := by
  rw [literalJson_eq_substitute]
  constructor
  · rintro ⟨cause, failed⟩
    by_contra none
    push Not at none
    have known : ∀ name, literal.Holds name → ∃ value, vars.raw name = .ok value := by
      intro name holds
      obtain ⟨value, fills⟩ := Variables.fills_or_lacks.resolve_right (none name holds)
      exact ⟨value, Variables.raw_of_fills fills⟩
    obtain ⟨value, read⟩ := exists_substitute lexical known
    rw [read] at failed
    cases failed
  · rintro ⟨name, holds, lacks⟩
    cases read : substitute vars.raw literal with
    | error cause => exact ⟨cause, rfl⟩
    | ok value =>
      obtain ⟨own, known⟩ := raw_of_substitute holds read
      obtain ⟨cause, failed⟩ := Variables.raw_of_lacks lacks
      rw [known] at failed
      cases failed

/-- A literal that is read is read as its form with the values of its variables. -/
theorem literalJson_eq_ok_iff (lexical : literal.Lexical) {value : Json} :
    literalJson vars.raw literal = .ok value ↔ literal.Denotes vars.Fills value := by
  have fills : (fun name value => vars.raw name = .ok value) = vars.Fills := by
    funext name value
    exact propext Variables.raw_eq_ok_iff
  rw [literalJson_eq_substitute, substitute_eq_ok_iff lexical, fills]

/-- A literal of a declared scalar is refused just if a variable in it stands for nothing. Otherwise
it is read as its JSON form with the values that its variables stand for, whether a part is taken in
its form at once, which happens to the parts without variables, or gone through; and what is gone
through is a variable, a list or an object. A default that is a constant has a form of its own. -/
theorem literalJson_fills (vars : Variables) {literal : Literal} (lexical : literal.Lexical) :
    ((∃ cause, literalJson vars.raw literal = .error cause) ↔
      ∃ name, literal.Holds name ∧ vars.Lacks name) ∧
    (∀ value, literalJson vars.raw literal = .ok value ↔ literal.Denotes vars.Fills value) ∧
    (∀ part, ReflTransGen Inside part literal →
      ((∃ value, part.toJson? = some value) ↔ part.Constant) ∧
      (∀ value, part.toJson? = some value → part.Denotes vars.Fills value) ∧
      (part.toJson? = none →
        (∃ name, part = .var name) ∨ (∃ items, part = .list items) ∨
          ∃ fields, part = .object fields)) ∧
    ∀ definition ∈ vars.definitions, ∀ default, definition.default = some default →
      default.Constant → default.Lexical →
        ∃ value, default.toJson? = some value ∧ default.Denotes (fun _ _ => False) value := by
  refine ⟨literalJson_eq_error_iff lexical, fun value => literalJson_eq_ok_iff lexical, ?_, ?_⟩
  · intro part within
    have own : part.Lexical := lexical.of_within within
    refine ⟨exists_toJson?_iff own, fun value form => ?_, own.of_toJson?_eq_none⟩
    exact (literalJson_eq_ok_iff own).1 (literalJson_of_toJson? form)
  · intro definition _ default _ constant own
    obtain ⟨value, form⟩ := own.exists_toJson? constant
    exact ⟨value, form, denotes_of_toJson? own form⟩

section Instance

/-- An object with a repeated name and variables in its depth. -/
def filterLiteral : Literal :=
  .object [("range", .list [.var "low", .float "1.50", .var "high"]),
    ("tags", .object [("any", .var "tags"), ("any", .list [.var "tags", .enum "NEW"])]),
    ("range", .object [("from", .var "low"), ("to", .int "-7")])]

/-- Variables of which one is given, one has a default and one is left out. -/
def filterVariables : Variables where
  definitions := [⟨"low", .nonNull (.builtin .int), none⟩, ⟨"high", .builtin .int, none⟩,
    ⟨"tags", .builtin .string, some (.list [.enum "OLD", .int "3"])⟩]
  values := [("low", .object [("at", .bool true)])]

/-- The object with the values of its variables put in. -/
def filterForm : Json :=
  .object [
    ("range", .object [("from", .object [("at", .bool true)]), ("to", .ofInt (-7))]),
    ("tags", .object [("any", .array [.array [.string "OLD", .ofInt 3], .string "NEW"])])]

/-- The numerals of the object are well spelled. -/
theorem lexical_filterLiteral : filterLiteral.Lexical := by
  have price : Decimal.FloatText "1.50" :=
    ⟨false, ['1'], ['.', '5', '0'], [], rfl, ⟨List.cons_ne_nil _ _, by simp⟩, by decide,
      .inr ⟨['5', '0'], ⟨List.cons_ne_nil _ _, by simp⟩, rfl⟩, .inl rfl, .inl (by decide)⟩
  have offset : Decimal.IntText "-7" :=
    ⟨true, ['7'], rfl, ⟨List.cons_ne_nil _ _, by simp⟩, by decide⟩
  refine .object ?_
  simp only [List.forall_mem_cons, List.not_mem_nil, false_implies, implies_true, and_true]
  refine ⟨.list ?_, .object ?_, .object ?_⟩
  · simpa using ⟨.var, .float price, .var⟩
  · simpa using ⟨.var, .list (by simpa using ⟨.var, .enum⟩)⟩
  · simpa using ⟨.var, .int offset⟩

/-- Its variables are put in as they are, wherever they stand. -/
theorem filterLiteral_filled : filterLiteral.Lexical ∧
    literalJson filterVariables.raw filterLiteral = .ok filterForm ∧
    filterLiteral.Denotes filterVariables.Fills filterForm := by
  refine ⟨lexical_filterLiteral, rfl, ?_⟩
  exact ((literalJson_fills filterVariables lexical_filterLiteral).2.1 _).1 rfl

end Instance

end Coercion

end GraphQL
