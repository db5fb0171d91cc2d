import Mathlib
import GraphQL.Proofs.Inputs.Agreement
import GraphQL.Proofs.Inputs.Doubles
import GraphQL.Proofs.Positions.Conformance

/-!
# Outputs as inputs

What a field of a type without objects comes to can be passed to an argument of that type
(`Engine.completed_accepted`). It is read as it is, except that integers at `Float` become doubles:
the nearest ones, since not every integer is a double.
-/

set_option autoImplicit false

namespace GraphQL

/-- A type of built-in scalars, declared scalars or enums, in lists or not. -/
inductive Schema.Leaf (schema : Schema) : TypeRef → Prop
  | builtin {scalar : BuiltinScalar} : Leaf schema (.builtin scalar)
  | scalar {name declared : String} (found : schema.type? name = some (.scalar declared)) :
    Leaf schema (.named name)
  | enum {name : String} {type : EnumType} (found : schema.type? name = some (.enum type)) :
    Leaf schema (.named name)
  | list {item : TypeRef} (h : Leaf schema item) : Leaf schema (.list item)
  | nonNull {inner : TypeRef} (h : Leaf schema inner) : Leaf schema (.nonNull inner)

/-- How many lists are around the innermost type. -/
def TypeRef.listDepth : TypeRef → Nat
  | builtin _ | named _ => 0
  | list item => item.listDepth + 1
  | nonNull inner => inner.listDepth

/-- A value is read at a type as it is, except that integers at `Float` become doubles that are as
near to them as any. -/
def Reread : TypeRef → Json → Json → Prop
  | .nonNull inner, value, result => Reread inner value result
  | .list item, .array values, result =>
    ∃ results, result = .array results ∧ List.Forall₂ (Reread item) values results
  | .builtin .float, .number (.int i), result =>
    ∃ d : Double, result = .number (.float d) ∧ ∀ other : Double, |d.toRat - i| ≤ |other.toRat - i|
  | _, value, result => result = value

/-- Where a double equals an integer, an integer that is read at `Float` becomes that number. -/
theorem Reread.exact {i : Int} {result : Json}
    (reread : Reread (.builtin .float) (.ofInt i) result) {other : Double}
    (same : other.toRat = i) :
    ∃ d : Double, result = .number (.float d) ∧ d.toRat = i := by
  obtain ⟨d, rfl, near⟩ := reread
  have none := near other
  rw [same, sub_self, abs_zero] at none
  exact ⟨d, rfl, sub_eq_zero.1 (abs_eq_zero.1 (le_antisymm none (abs_nonneg _)))⟩

/-- Null is read again as null. -/
theorem reread_null (type : TypeRef) : Reread type .null .null := by
  induction type with
  | builtin scalar => cases scalar <;> rfl
  | named name => rfl
  | list item ih => rfl
  | nonNull inner ih => exact ih

namespace Coercion

open Checks

variable {schema : Schema}

/-- What a built-in scalar is written as, it is read from. -/
theorem builtinJson?_of_holds {scalar : BuiltinScalar} {value : Json} (holds : scalar.Holds value) :
    ∃ result, builtinJson? scalar value = some result ∧ Reread (.builtin scalar) value result := by
  unfold BuiltinScalar.Holds at holds
  split at holds
  · next i =>
    have range : (Json.number (.int i)).int32? = some i := by
      simpa [Json.int32?, Json.Number.toInt?] using holds
    exact ⟨.ofInt i, by rw [builtinJson?, range]; rfl, rfl⟩
  · next n =>
    cases n with
    | int i => exact ⟨_, rfl, _, rfl, Double.nearest_le i⟩
    | float d => exact ⟨_, rfl, rfl⟩
  · exact ⟨_, rfl, rfl⟩
  · exact ⟨_, rfl, rfl⟩
  · exact ⟨_, rfl, rfl⟩
  · exact holds.elim

/-- A list is read if its items are, wherever they are. -/
theorem exists_items {related : Json → Json → Prop} {item : Json → InputPath → Coerced Json}
    {values : List Json} (h : ∀ value ∈ values, ∀ place,
      ∃ result, item value place = .ok result ∧ related value result) (path : InputPath) (i : Nat) :
    ∃ results, items item path i values = .ok results ∧ List.Forall₂ related values results := by
  induction values generalizing i with
  | nil => exact ⟨[], rfl, .nil⟩
  | cons value rest ih =>
    obtain ⟨own, others⟩ := List.forall_mem_cons.1 h
    obtain ⟨result, here, same⟩ := own (path.join (.index i))
    obtain ⟨results, later, sameLater⟩ := ih others (i + 1)
    refine ⟨result :: results, ?_, .cons same sameLater⟩
    exact bind_eq_ok.2 ⟨result, here, bind_eq_ok.2 ⟨results, later, rfl⟩⟩

/-- A null is read as it is at a type that may be null. -/
theorem jsonAt_null {deeper : TypeRef → Json → InputPath → Coerced Json}
    {default : TypeRef → Literal → InputPath → Coerced Json} {type : TypeRef}
    (nullable : type.isNonNull = false) (place : InputPath) :
    jsonAt schema deeper default type .null place = .ok .null := by
  cases type with
  | nonNull inner => cases nullable
  | _ => rfl

/-- A value that conforms to a type without objects is read at it, if there are levels enough for
the lists. -/
theorem jsonAt_of_conforms {type : TypeRef} (leaf : schema.Leaf type) {value : Json}
    (conforms : Conforms schema [] type value) {levels : Nat} (enough : type.listDepth ≤ levels)
    (place : InputPath) : ∃ result,
      jsonAt schema (coerceJson schema levels) (coerceConstant schema levels) type value place =
        .ok result ∧ Reread type value result := by
  -- on the type, each list of which takes one of the levels
  induction leaf generalizing value levels place with
  | @builtin scalar =>
    cases conforms with
    | null nullable => exact ⟨.null, jsonAt_null nullable place, reread_null _⟩
    | builtin holds =>
      obtain ⟨result, read, reread⟩ := builtinJson?_of_holds holds
      refine ⟨result, ?_, reread⟩
      rw [jsonAt, read]
      rintro rfl
      cases scalar <;> exact holds
  | scalar found =>
    cases conforms with
    | null nullable => exact ⟨.null, jsonAt_null nullable place, reread_null _⟩
    | scalar =>
      refine ⟨value, ?_, rfl⟩
      cases value <;> simp only [jsonAt, found]
    | enum other | object other =>
      rw [found] at other
      cases other
  | enum found =>
    cases conforms with
    | null nullable => exact ⟨.null, jsonAt_null nullable place, reread_null _⟩
    | enum same declared =>
      rw [found] at same
      cases same
      refine ⟨_, ?_, rfl⟩
      simp only [jsonAt, found, enumSymbol, List.contains_iff_mem.2 declared, if_true]
    | scalar other | object other =>
      rw [found] at other
      cases other
  | @list item h ih =>
    cases conforms with
    | null nullable => exact ⟨.null, jsonAt_null nullable place, reread_null _⟩
    | list each =>
      obtain ⟨levels, rfl⟩ := Nat.exists_eq_add_of_lt (Nat.lt_of_succ_le enough)
      let reader := coerceJson schema (item.listDepth + levels + 1) item
      have inside : ∀ value ∈ _, ∀ place, ∃ result,
          reader value place = .ok result ∧ Reread item value result :=
        fun value member place => ih (each value member) (Nat.le_add_right _ levels) place
      obtain ⟨results, read, same⟩ := exists_items inside place 0
      exact ⟨.array results, by rw [jsonAt, read]; rfl, results, rfl, same⟩
  | nonNull h ih =>
    cases conforms with
    | null nullable => cases nullable
    | nonNull present inside =>
      obtain ⟨result, read, reread⟩ := ih inside enough place
      exact ⟨result, by rw [jsonAt_nonNull present]; exact read, reread⟩

end Coercion

namespace ExecutionScope

variable {scope : ExecutionScope} {type : TypeRef}

/-- Where there are no objects, it makes no difference what becomes of objects. -/
theorem complete_leaf (leaf : scope.schema.Leaf type) (field : FieldName)
    (object object' : ObjectType → Json → Path → Plan) (value : Json) (path : Path) :
    scope.complete field object type value path = scope.complete field object' type value path := by
  induction leaf generalizing value path with
  | builtin => cases value <;> rfl
  | scalar found => cases value <;> simp only [complete, found]
  | enum found => cases value <;> simp only [complete, found]
  | list h ih =>
    cases value with
    | array values => simp only [complete, ih]
    | _ => rfl
  | nonNull h ih => simp only [complete, ih]

/-- A value of a type without objects is completed to one that conforms. -/
theorem conforms_completeValue (leaf : scope.schema.Leaf type) (field : FieldName)
    (object : ObjectType → Json → Path → Plan) (value : Json) (path : Path)
    (outcome : Call → Outcome) {returned : Json}
    (returns : ((scope.completeValue field object type value path).eval outcome).value =
      some returned) : Conforms scope.schema [] type returned := by
  let m : Marking := { schema := scope.schema, vars := scope.vars, outcome }
  -- the positions of objects of which nothing is selected
  have positions : ∀ nonNull type value path, (m.ofObject [] nonNull type value path).complete =
      ((scope.selectionPlan 0 true [] type value path).eval outcome).settle field path nonNull := by
    intro nonNull type value below
    rw [m.complete_ofObject_settle]
    exact congrArg (Completion.settle field below nonNull)
      (m.complete_ofObject scope.parallel true (Nat.le_refl 0) type value below)
  have same := m.complete_ofValue scope.parallel field positions false type value path
  rw [Marking.eval_completeValue, complete_leaf leaf field object (scope.selectionPlan 0 true []),
    ← Bool.false_or type.isNonNull] at returns
  exact (m.conforms_ofValue field (m.conforms_ofObject []) false type value path
    ((congrArg Completion.value same).trans returns)).1

/-- The plan for a value without objects leads downwards from its path. -/
theorem descends_completeValue (leaf : scope.schema.Leaf type) (field : FieldName)
    (object : ObjectType → Json → Path → Plan) (value : Json) (path : Path) :
    (scope.completeValue field object type value path).Descends false path := by
  unfold completeValue
  rw [complete_leaf leaf field object (scope.selectionPlan 0 true [])]
  exact descends_afterCall (descends_selectionPlan 0 true []) type path (.value value)

end ExecutionScope

namespace Engine

variable {State : Type}

/-- What a value of a type without objects is completed to can be passed to an argument of that
type. It is read as it is, except that integers at `Float` become the doubles nearest to them. -/
theorem completed_accepted (engine : Engine State) (scope : ExecutionScope) {type : TypeRef}
    (leaf : scope.schema.Leaf type) (shallow : type.listDepth ≤ maxInputDepth) (field : FieldName)
    (object : ObjectType → Json → Path → Plan) (value : Json) (path : Path) (state : State)
    (cancelAt : Option Nat) {returned : Json}
    (returns : (engine.run (scope.completeValue field object type value path) state
      cancelAt).2.value = some returned) (place : InputPath) :
    ∃ result, Coercion.coerceJson scope.schema Coercion.allLevels type returned place = .ok result ∧
      Reread type returned result := by
  have run := engine.run_eval (fun _ _ yields =>
    (ExecutionScope.descends_completeValue leaf field object value path).nodup_calls yields) state
    cancelAt
  generalize engine.run _ state cancelAt = result at run returns
  obtain ⟨world, completion⟩ := result
  obtain ⟨completed, -⟩ := run
  simp only at completed returns
  rw [completed] at returns
  exact Coercion.jsonAt_of_conforms leaf
    (ExecutionScope.conforms_completeValue leaf field object value path _ returns) shallow place

/-- The root of a schema with a field that gives numbers, and one that takes some. -/
def readingsRoot : ObjectType where
  name := "Query"
  fields := [
    { name := "out", type := .list (.nonNull (.list (.builtin .float))), arguments := [] },
    { name := "take", type := .builtin .float,
      arguments := [{ name := "x", type := .builtin .float, default := none }] }]

/-- The text of the schema. -/
def readingsText : String :=
  "type Query {out: [[Float]!] take(x: Float): Float}"

/-- The schema of `readingsText`. -/
def readingsSchema : Schema where
  types := BuiltinScalar.all.map .builtin ++ [.object readingsRoot]
  queryRoot := "Query"
  mutationRoot := none

/-- The text is that of the schema of readings. -/
theorem parseWithin_readingsText :
    Schema.parseWithin 64 readingsText = .ok readingsSchema := by
  unfold readingsText
  cbv

/-- What operations without variables depend on in the schema. -/
def readings : ExecutionScope where
  schema := readingsSchema
  vars := {}
  parallel := true

/-- A list with an item that is lost and one that holds an integer is accepted. -/
theorem completed_accepted_readings :
    let value : Json := .array [.bool true, .array [.null, .ofInt 3]]
    let returned : Json := .array [.null, .array [.null, .ofInt 3]]
    let type : TypeRef := .list (.list (.builtin .float))
    let object : ObjectType → Json → Path → Plan := fun _ _ _ => .done (.ok .null)
    (readings.schema.Leaf type ∧ type.listDepth ≤ maxInputDepth ∧
      (sample.run (readings.completeValue ⟨"Query", "out"⟩ object type value []) () none).2.value =
        some returned) ∧
    ∃ result, Coercion.coerceJson readings.schema Coercion.allLevels type returned (.root "x") =
        .ok result ∧ Reread type returned result := by
  intro value returned type object
  have leaf : readings.schema.Leaf type := .list (.list .builtin)
  have shallow : type.listDepth ≤ maxInputDepth := by decide
  have returns : (sample.run (readings.completeValue ⟨"Query", "out"⟩ object type value []) ()
      none).2.value = some returned := by decide +kernel
  exact ⟨⟨leaf, shallow, returns⟩,
    sample.completed_accepted readings leaf shallow _ object value [] () none returns _⟩

/-- The integer after `2 ^ 53` is a value of `Float` as it is, but no double equals it, and it is
read as `2 ^ 53`. -/
theorem completed_rounded :
    let object : ObjectType → Json → Path → Plan := fun _ _ _ => .done (.ok .null)
    let returned : Json := .ofInt 9007199254740993
    Schema.parseWithin 64 readingsText = .ok readings.schema ∧
      readings.schema.Leaf (.builtin .float) ∧
      (sample.run (readings.completeValue ⟨"Query", "take"⟩ object (.builtin .float) returned [])
        () none).2.value = some returned ∧
      ∃ d : Double, Coercion.coerceJson readings.schema Coercion.allLevels (.builtin .float)
          returned (.root "x") = .ok (.number (.float d)) ∧
        d.toRat = 9007199254740992 ∧ ∀ other : Double, other.toRat ≠ 9007199254740993 := by
  intro object returned
  have rounded : (Double.nearest 9007199254740993).toRat = 9007199254740992 := by
    have positive : (Double.nearest 9007199254740993).negative = false := by decide +kernel
    have significand : (Double.nearest 9007199254740993).significand = 2 ^ 52 := by decide +kernel
    have exponent : (Double.nearest 9007199254740993).exponent = 1 := by decide +kernel
    rw [Double.toRat, Double.magnitude, positive, significand, exponent]
    norm_num
  refine ⟨parseWithin_readingsText, .builtin, by decide +kernel, .nearest 9007199254740993, rfl,
    rounded, fun other same => ?_⟩
  have near := Double.nearest_le 9007199254740993 other
  rw [rounded] at near
  push_cast at near
  rw [same] at near
  norm_num at near

end Engine

end GraphQL
