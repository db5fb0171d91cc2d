import Mathlib
import GraphQL.Proofs.Positions.Executed

/-!
# Wire forms

Requests and responses are read back from their wire forms as they were, although parts that are
absent or empty are left out of the form and read with other rules than they are written. The one
exception is a response whose data is null and not absent, since data is always written; neither a
response that was read nor the response of an engine is one (`envelopes_roundTrip`).
-/

set_option autoImplicit false

namespace GraphQL

namespace Request

/-- A request is read back from its wire form. -/
theorem ofJson?_toJson (request : Request) : ofJson? request.toJson = some request := by
  obtain ⟨query, operationName, variableValues⟩ := request
  cases query <;> cases operationName <;> cases variableValues <;> rfl

end Request

namespace ResponseError

/-- A path is read back from its wire form. -/
theorem readPath?_toJson (path : Path) : readPath? (some path.toJson) = some (some path) := by
  show (Path.ofJson? path.toJson).map some = some (some path)
  rw [Path.ofJson?_toJson]
  rfl

/-- An error is read back from its wire form. -/
theorem ofJson?_toJson (error : ResponseError) : ofJson? error.toJson = some error := by
  obtain ⟨message, path, extensions⟩ := error
  cases path with
  | none => cases extensions <;> rfl
  | some path =>
    have located := readPath?_toJson path
    cases extensions with
    | nil => simp [toJson, ofJson?, Json.Object.get?_cons, readMessage?, readExtensions?,
        Json.string?, located]
    | cons => simp [toJson, ofJson?, Json.Object.get?_cons, readMessage?, readExtensions?,
        Json.string?, Json.object?, located]

/-- Errors are read back one by one. -/
theorem mapM_ofJson?_toJson (errors : List ResponseError) :
    (errors.map toJson).mapM ofJson? = some errors := by
  induction errors with
  | nil => rfl
  | cons error rest ih =>
    rw [List.map_cons, List.mapM_cons, ofJson?_toJson, ih]
    rfl

end ResponseError

namespace Response

/-- A response is read back from its wire form, except that data that is null is absent then. -/
theorem ofJson?_toJson (response : Response) :
    ofJson? response.toJson = some { response with data := readData response.data } := by
  obtain ⟨data, errors, extensions⟩ := response
  have written : readData (some (data.getD .null)) = readData data := by
    cases data <;> rfl
  have listed := ResponseError.mapM_ofJson?_toJson errors
  cases none : errors.isEmpty with
  | true =>
    obtain rfl := List.isEmpty_iff.1 none
    cases extensions with
    | nil => simp [toJson, ofJson?, Json.Object.get?_cons, readErrors?,
        ResponseError.readExtensions?, written]
    | cons => simp [toJson, ofJson?, Json.Object.get?_cons, readErrors?,
        ResponseError.readExtensions?, Json.object?, written]
  | false =>
    cases extensions with
    | nil => simp [toJson, ofJson?, Json.Object.get?_cons, readErrors?, none,
        ResponseError.readExtensions?, written, listed]
    | cons => simp [toJson, ofJson?, Json.Object.get?_cons, readErrors?, none,
        ResponseError.readExtensions?, Json.object?, written, listed]

/-- Data that was read is not null: null counts as missing. -/
theorem readData_ne_null (data : Option Json) : readData data ≠ some .null := by
  unfold readData
  split
  · simp
  · next present => exact present

/-- Data is read as it is unless it is null. -/
theorem readData_eq_self_iff (data : Option Json) : readData data = data ↔ data ≠ some .null := by
  constructor
  · intro same
    rw [← same]
    exact readData_ne_null data
  · intro present
    unfold readData
    split
    · exact absurd rfl present
    · rfl

/-- The data of a response that was read is not null. -/
theorem data_ne_null_of_ofJson? {json : Json} {response : Response}
    (read : ofJson? json = some response) : response.data ≠ some .null := by
  cases json with
  | object members =>
    obtain ⟨errors, -, read⟩ := Option.bind_eq_some_iff.1 read
    obtain ⟨extensions, -, read⟩ := Option.bind_eq_some_iff.1 read
    cases read
    exact readData_ne_null _
  | _ => cases read

end Response

namespace ExecutionScope

/-- Whatever its calls come to, an object is complete as an object or has no value. -/
theorem eval_selectionPlan_ne_null (scope : ExecutionScope) (depth : Nat) (serial : Bool)
    (selections : List Selection) (type : ObjectType) (parent : Json) (path : Path)
    (outcome : Call → Outcome) :
    ((scope.selectionPlan depth serial selections type parent path).eval outcome).value ≠
      some .null := by
  cases depth with
  | zero =>
    rw [selectionPlan, Plan.eval]
    rintro ⟨⟩
  | succ depth =>
    rw [selectionPlan, Plan.eval, Completion.ofFields]
    intro null
    obtain ⟨values, -, ⟨⟩⟩ := Option.map_eq_some_iff.1 null

end ExecutionScope

namespace Engine

variable {State : Type}

/-- The data of a response of an engine is not null: it is an object, or it is absent. -/
theorem data_execute_ne_null (engine : Engine State) (request : Request) (state : State)
    (cancelAt : Option Nat) :
    (engine.execute request state cancelAt).response.data ≠ some .null := by
  cases selected : engine.select request with
  | error cause =>
    unfold execute
    rw [selected]
    rintro ⟨⟩
  | ok chosen =>
    obtain ⟨operation, rootType⟩ := chosen
    have run := engine.run_eval (fun _ _ yields => operation.nodup_calls_plan engine.schema
      engine.configuration.parallelSiblings request.variableValues rootType yields) state cancelAt
    rw [execute_of_select engine state cancelAt selected]
    generalize engine.run _ state cancelAt = result at run ⊢
    obtain ⟨world, completion⟩ := result
    obtain ⟨completed, -⟩ := run
    show completion.value ≠ some .null
    rw [completed]
    exact ExecutionScope.eval_selectionPlan_ne_null _ _ _ _ _ _ _ _

end Engine

/-- Requests are read back from their wire forms, and so are just the responses whose data is not
null. No response that was read has such data, and no response of an engine. -/
theorem envelopes_roundTrip :
    (∀ request : Request, Request.ofJson? request.toJson = some request) ∧
    (∀ response : Response,
      Response.ofJson? response.toJson = some response ↔ response.data ≠ some .null) ∧
    (∀ json response, Response.ofJson? json = some response → response.data ≠ some .null) ∧
    ∀ (State : Type) (engine : Engine State) (request : Request) (state : State)
      (cancelAt : Option Nat),
      (engine.execute request state cancelAt).response.data ≠ some .null := by
  refine ⟨Request.ofJson?_toJson, fun response => ?_,
    fun _ _ read => Response.data_ne_null_of_ofJson? read,
    fun _ engine request state cancelAt => engine.data_execute_ne_null request state cancelAt⟩
  rw [Response.ofJson?_toJson, ← Response.readData_eq_self_iff, Option.some.injEq]
  exact ⟨congrArg Response.data, fun same => by rw [same]⟩

/-- A response with an error at an item whose key looks like an index is read back with the key. -/
theorem envelopes_roundTrip_numbered :
    let response : Response :=
      { data := some (.object [("0", .null)])
        errors := [{ message := "gone", path := some [.key "0", .index 0] },
          { path := some [], extensions := [("code", .ofInt 7)] }] }
    response.data ≠ some .null ∧ Response.ofJson? response.toJson = some response := by
  refine ⟨by simp, (envelopes_roundTrip.2.1 _).2 (by simp)⟩

end GraphQL
