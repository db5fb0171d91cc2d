import GraphQL.Coercion.Basic
import GraphQL.Proofs.Checks

/-!
# What reading is made of

The readers of literals and of JSON values look at a value as long as there are levels left. A list
is read if each of its items is, and an input object if each of its declared fields is: what comes
out holds what was read of the parts, and what is reported is reported by one of them.
-/

set_option autoImplicit false

namespace GraphQL

namespace Coercion

open Checks

section Levels

variable {schema : Schema} {vars : Variables} {levels : Nat} {type : TypeRef} {literal : Literal}
  {path : InputPath} {result : Json}

/-- A constant is read only if there is a level for it. -/
theorem coerceConstant_eq_ok_iff :
    coerceConstant schema levels type literal path = .ok result ↔
      ∃ rest, levels = rest + 1 ∧
        literalAt schema .constants (coerceConstant schema rest) type literal path = .ok result := by
  cases levels with
  | zero => simp [coerceConstant]
  | succ rest => simp [coerceConstant]

/-- A literal is read only if there is a level for it. -/
theorem coerceLiteral_eq_ok_iff :
    coerceLiteral schema vars levels type literal path = .ok result ↔
      ∃ rest, levels = rest + 1 ∧
        literalAt schema (vars.scope schema) (coerceLiteral schema vars rest) type literal path =
          .ok result := by
  cases levels with
  | zero => simp [coerceLiteral]
  | succ rest => simp [coerceLiteral]

/-- A JSON value is read only if there is a level for it. -/
theorem coerceJson_eq_ok_iff {value : Json} :
    coerceJson schema levels type value path = .ok result ↔
      ∃ rest, levels = rest + 1 ∧
        jsonAt schema (coerceJson schema rest) (coerceConstant schema rest) type value path =
          .ok result := by
  cases levels with
  | zero => simp [coerceJson]
  | succ rest => simp [coerceJson]

end Levels

section Items

variable {Value : Type} {item : Value → InputPath → Coerced Json} {path : InputPath} {i : Nat}
  {values : List Value}

/-- Items are read if each of them is. -/
theorem item_of_items {results : List Json} (read : items item path i values = .ok results)
    {value : Value} (member : value ∈ values) : ∃ place result, item value place = .ok result := by
  induction values generalizing i results with
  | nil => cases member
  | cons first rest ih =>
    obtain ⟨result, here, later⟩ := bind_eq_ok.1 read
    obtain ⟨others, later, -⟩ := bind_eq_ok.1 later
    rcases List.mem_cons.1 member with rfl | member
    · exact ⟨_, result, here⟩
    · exact ih later member

/-- What stands in a list that was read was read of one of the items. -/
theorem exists_value_of_items {results : List Json} (read : items item path i values = .ok results)
    {result : Json} (member : result ∈ results) :
    ∃ value ∈ values, ∃ place, item value place = .ok result := by
  induction values generalizing i results with
  | nil =>
    cases read
    cases member
  | cons first rest ih =>
    obtain ⟨own, here, read⟩ := bind_eq_ok.1 read
    obtain ⟨others, later, read⟩ := bind_eq_ok.1 read
    cases read
    rcases List.mem_cons.1 member with rfl | member
    · exact ⟨first, List.mem_cons_self, _, here⟩
    · obtain ⟨value, inRest, found⟩ := ih later member
      exact ⟨value, List.mem_cons_of_mem _ inRest, found⟩

/-- Reading items of changed sources is reading the sources by a changed reader. -/
theorem items_map {Source : Type} (f : Source → Value) (sources : List Source) :
    items item path i (sources.map f) = items (fun source => item (f source)) path i sources := by
  induction sources generalizing i with
  | nil => rfl
  | cons first rest ih => rw [List.map_cons, items, items, ih]

/-- Items are read alike by readers that read each of them alike. -/
theorem items_eq_of_forall {item' : Value → InputPath → Coerced Json}
    (h : ∀ value ∈ values, ∀ place, item value place = item' value place) :
    items item path i values = items item' path i values := by
  induction values generalizing i with
  | nil => rfl
  | cons first rest ih =>
    rw [items, items, h first List.mem_cons_self,
      ih fun value member => h value (List.mem_cons_of_mem first member)]

/-- Items that are read are read one by one, each at its place. -/
theorem read_of_items {results : List Json}
    (read : items item path i values = .ok results) {n : Nat} {value : Value}
    (there : values[n]? = some value) :
    ∃ result, item value (path.join (.index (i + n))) = .ok result := by
  induction values generalizing i n results with
  | nil => cases there
  | cons first rest ih =>
    obtain ⟨result, here, read⟩ := bind_eq_ok.1 read
    obtain ⟨others, later, -⟩ := bind_eq_ok.1 read
    cases n with
    | zero =>
      cases there
      exact ⟨result, here⟩
    | succ n =>
      obtain ⟨own, found⟩ := ih later there
      exact ⟨own, by rwa [Nat.add_right_comm] at found⟩

/-- What is reported of a list is reported of the first item that is not read. -/
theorem first_of_items_eq_error {cause : CoercionError}
    (failed : items item path i values = .error cause) :
    ∃ n value, values[n]? = some value ∧ item value (path.join (.index (i + n))) = .error cause ∧
      ∀ m < n, ∀ earlier, values[m]? = some earlier →
        ∃ result, item earlier (path.join (.index (i + m))) = .ok result := by
  induction values generalizing i with
  | nil => cases failed
  | cons first rest ih =>
    rcases bind_eq_error.1 failed with here | ⟨own, here, failed⟩
    · exact ⟨0, first, rfl, here, fun m less => absurd less (Nat.not_lt_zero m)⟩
    rcases bind_eq_error.1 failed with later | ⟨others, -, failed⟩
    · obtain ⟨n, value, there, found, before⟩ := ih later
      refine ⟨n + 1, value, there, by rwa [Nat.add_right_comm] at found, fun m less earlier listed => ?_⟩
      cases m with
      | zero =>
        cases listed
        exact ⟨own, here⟩
      | succ m =>
        obtain ⟨result, read⟩ := before m (Nat.lt_of_succ_lt_succ less) earlier listed
        exact ⟨result, by rwa [Nat.add_right_comm] at read⟩
    · cases failed

end Items

section Fields

variable {supplied : InputValueDefinition → InputPath → Coerced (Option Json)}
  {default : TypeRef → Literal → InputPath → Coerced Json} {path : InputPath}

/-- What one field of an input object is read as: what is supplied for it, else its default, else
nothing if it may be null. -/
def fieldValue (supplied : InputValueDefinition → InputPath → Coerced (Option Json))
    (default : TypeRef → Literal → InputPath → Coerced Json) (path : InputPath)
    (field : InputValueDefinition) : Coerced (Option Json) := do
  match ← supplied field (path.join (.key field.name)) with
  | some value => return some value
  | none =>
    match field.default with
    | some literal => some <$> default field.type literal (path.join (.key field.name))
    | none =>
      if field.type.isNonNull then .error (.missingInputField path field.name field.type)
      else return none

/-- The fields of an input object are read one after the other. -/
theorem inputFields_cons (field : InputValueDefinition) (rest : List InputValueDefinition) :
    inputFields supplied default path (field :: rest) = (do
      let value ← fieldValue supplied default path field
      let rest ← inputFields supplied default path rest
      match value with
      | some value => return (field.name, value) :: rest
      | none => return rest) := by
  rw [inputFields, fieldValue]
  cases supplied field (path.join (.key field.name)) with
  | error cause => rfl
  | ok given =>
    cases given with
    | some value => rfl
    | none =>
      cases field.default with
      | some literal =>
        cases default field.type literal (path.join (.key field.name)) <;> rfl
      | none =>
        cases field.type.isNonNull <;> rfl

/-- The value of a field is the one that is supplied, else its default. -/
theorem fieldValue_eq_some_iff {field : InputValueDefinition} {value : Json} :
    fieldValue supplied default path field = .ok (some value) ↔
      supplied field (path.join (.key field.name)) = .ok (some value) ∨
        supplied field (path.join (.key field.name)) = .ok none ∧
          ∃ literal, field.default = some literal ∧
            default field.type literal (path.join (.key field.name)) = .ok value := by
  rw [fieldValue]
  cases supplied field (path.join (.key field.name)) with
  | error cause => simp [bind, Except.bind]
  | ok given =>
    cases given with
    | some own => simp [bind, Except.bind, pure, Except.pure]
    | none =>
      cases field.default with
      | some literal => simp [bind, Except.bind, map_eq_ok]
      | none => cases field.type.isNonNull <;> simp [bind, Except.bind, pure, Except.pure]

/-- A field for which nothing is supplied is left out if it has no default and may be null. -/
theorem fieldValue_eq_none_iff {field : InputValueDefinition} :
    fieldValue supplied default path field = .ok none ↔
      supplied field (path.join (.key field.name)) = .ok none ∧ field.default = none ∧
        field.type.isNonNull = false := by
  rw [fieldValue]
  cases supplied field (path.join (.key field.name)) with
  | error cause => simp [bind, Except.bind]
  | ok given =>
    cases given with
    | some own => simp [bind, Except.bind, pure, Except.pure]
    | none =>
      cases field.default with
      | some literal => simp [bind, Except.bind, map_eq_ok]
      | none => cases field.type.isNonNull <;> simp [bind, Except.bind, pure, Except.pure]

/-- A field is refused for what is supplied for it, for its default, or because nothing is supplied
and there is no default and it must not be null. -/
theorem fieldValue_eq_error_iff {field : InputValueDefinition} {cause : CoercionError} :
    fieldValue supplied default path field = .error cause ↔
      supplied field (path.join (.key field.name)) = .error cause ∨
        supplied field (path.join (.key field.name)) = .ok none ∧
          ((∃ literal, field.default = some literal ∧
              default field.type literal (path.join (.key field.name)) = .error cause) ∨
            field.default = none ∧ field.type.isNonNull = true ∧
              cause = .missingInputField path field.name field.type) := by
  rw [fieldValue]
  cases supplied field (path.join (.key field.name)) with
  | error own => simp [bind, Except.bind]
  | ok given =>
    cases given with
    | some own => simp [bind, Except.bind, pure, Except.pure]
    | none =>
      cases field.default with
      | some literal => simp [bind, Except.bind, map_eq_error]
      | none =>
        cases field.type.isNonNull <;> simp [bind, Except.bind, pure, Except.pure, eq_comm]

/-- A field for which nothing is supplied has its default. -/
theorem fieldValue_of_default {field : InputValueDefinition} {literal : Literal}
    (leftOut : supplied field (path.join (.key field.name)) = .ok none)
    (given : field.default = some literal) :
    fieldValue supplied default path field =
      some <$> default field.type literal (path.join (.key field.name)) := by
  rw [fieldValue, leftOut, given]
  rfl

/-- The member that a field has in an input object, if it is read and has a value. -/
def member? (supplied : InputValueDefinition → InputPath → Coerced (Option Json))
    (default : TypeRef → Literal → InputPath → Coerced Json) (path : InputPath)
    (field : InputValueDefinition) : Option (String × Json) :=
  (fieldValue supplied default path field).toOption.join.map fun value => (field.name, value)

/-- The member for a field has its name and its value. -/
theorem member?_eq_some_iff {field : InputValueDefinition} {key : String} {value : Json} :
    member? supplied default path field = some (key, value) ↔
      field.name = key ∧ fieldValue supplied default path field = .ok (some value) := by
  rw [member?]
  cases fieldValue supplied default path field with
  | error cause => simp [Except.toOption]
  | ok own => cases own <;> simp [Except.toOption]

/-- An input object is read if and only if each of its fields is, and then its members are those of
the fields, in order. -/
theorem inputFields_eq_ok_iff {fields : List InputValueDefinition} {members : Json.Object} :
    inputFields supplied default path fields = .ok members ↔
      (∀ field ∈ fields, ∃ value, fieldValue supplied default path field = .ok value) ∧
        members = fields.filterMap (member? supplied default path) := by
  induction fields generalizing members with
  | nil => simp [inputFields, eq_comm]
  | cons field rest ih =>
    rw [inputFields_cons, List.forall_mem_cons, List.filterMap_cons, member?]
    cases fieldValue supplied default path field with
    | error cause => simp [bind, Except.bind]
    | ok own =>
      simp only [bind_eq_ok, ih]
      cases own with
      | none => simp [Except.toOption, pure, Except.pure, eq_comm]
      | some value => simp [Except.toOption, pure, Except.pure, eq_comm]

/-- What is reported of an input object is reported of the first field that is not read. -/
theorem first_of_inputFields_eq_error {fields : List InputValueDefinition}
    {cause : CoercionError}
    (failed : inputFields supplied default path fields = .error cause) :
    ∃ (n : Nat) (field : InputValueDefinition), fields[n]? = some field ∧
      fieldValue supplied default path field = .error cause ∧
      ∀ m < n, ∀ earlier, fields[m]? = some earlier →
        ∃ value, fieldValue supplied default path earlier = .ok value := by
  induction fields with
  | nil => cases failed
  | cons first rest ih =>
    rw [inputFields_cons] at failed
    rcases bind_eq_error.1 failed with here | ⟨own, here, failed⟩
    · exact ⟨0, first, rfl, here, fun m less => absurd less (Nat.not_lt_zero m)⟩
    rcases bind_eq_error.1 failed with later | ⟨others, -, failed⟩
    · obtain ⟨n, field, there, found, before⟩ := ih later
      refine ⟨n + 1, field, there, found, fun m less earlier listed => ?_⟩
      cases m with
      | zero =>
        cases listed
        exact ⟨own, here⟩
      | succ m => exact before m (Nat.lt_of_succ_lt_succ less) earlier listed
    · cases own <;> cases failed

/-- What is reported of an input object is reported of one of its fields. -/
theorem exists_of_inputFields_eq_error {fields : List InputValueDefinition}
    {cause : CoercionError} (failed : inputFields supplied default path fields = .error cause) :
    ∃ field ∈ fields, fieldValue supplied default path field = .error cause := by
  obtain ⟨n, field, listed, found, -⟩ := first_of_inputFields_eq_error failed
  exact ⟨field, List.mem_of_getElem? listed, found⟩

/-- The fields of an input object are read only if what is supplied for each of them is. -/
theorem supplied_of_inputFields {fields : List InputValueDefinition} {members : Json.Object}
    (read : inputFields supplied default path fields = .ok members) {field : InputValueDefinition}
    (declared : field ∈ fields) :
    ∃ value, supplied field (path.join (.key field.name)) = .ok value := by
  obtain ⟨own, here⟩ := (inputFields_eq_ok_iff.1 read).1 field declared
  obtain ⟨value, read, -⟩ := bind_eq_ok.1 here
  exact ⟨value, read⟩

/-- A field is read alike where the same is supplied for it and its default is read alike. -/
theorem fieldValue_congr {supplied' : InputValueDefinition → InputPath → Coerced (Option Json)}
    {default' : TypeRef → Literal → InputPath → Coerced Json} {field : InputValueDefinition}
    (hsupplied : supplied field (path.join (.key field.name)) =
      supplied' field (path.join (.key field.name)))
    (hdefault : ∀ literal, field.default = some literal → ∀ place,
      default field.type literal place = default' field.type literal place) :
    fieldValue supplied default path field = fieldValue supplied' default' path field := by
  rw [fieldValue, fieldValue, hsupplied]
  cases given : field.default with
  | none => rfl
  | some literal => simp only [hdefault literal given]

/-- Fields are read alike where each of them is. -/
theorem inputFields_eq_of_forall
    {supplied' : InputValueDefinition → InputPath → Coerced (Option Json)}
    {default' : TypeRef → Literal → InputPath → Coerced Json} {fields : List InputValueDefinition}
    (h : ∀ field ∈ fields, fieldValue supplied default path field =
      fieldValue supplied' default' path field) :
    inputFields supplied default path fields = inputFields supplied' default' path fields := by
  induction fields with
  | nil => rfl
  | cons first rest ih =>
    rw [inputFields_cons, inputFields_cons, h first List.mem_cons_self,
      ih fun field member => h field (List.mem_cons_of_mem first member)]

end Fields

section Objects

variable {schema : Schema}

/-- What a JSON object supplies for a field. -/
def jsonField (deeper : TypeRef → Json → InputPath → Coerced Json) (members : Json.Object)
    (field : InputValueDefinition) (path : InputPath) : Coerced (Option Json) :=
  match Json.Object.get? members field.name with
  | some value => some <$> deeper field.type value path
  | none => .ok none

/-- At the name of an input object, a JSON object is read field by field. -/
theorem jsonAt_object {deeper : TypeRef → Json → InputPath → Coerced Json}
    {default : TypeRef → Literal → InputPath → Coerced Json} {name : String}
    {type : InputObjectType} (found : schema.type? name = some (.inputObject type))
    (members : Json.Object) (path : InputPath) :
    jsonAt schema deeper default (.named name) (.object members) path =
      .object <$> inputFields (jsonField deeper members) default path type.fields := by
  simp only [jsonAt, found]
  rfl

/-- At the name of an input object, an object literal is read field by field. -/
theorem literalAt_object {scope : Scope}
    {deeper : TypeRef → Literal → InputPath → Coerced Json} {name : String} {type : InputObjectType}
    (found : schema.type? name = some (.inputObject type)) (fields : List (String × Literal))
    (path : InputPath) :
    literalAt schema scope deeper (.named name) (.object fields) path =
      .object <$> inputFields (literalField scope deeper fields) deeper path type.fields := by
  simp only [literalAt, found]
  rfl

end Objects

end Coercion

end GraphQL
