import GraphQL.Engine
import GraphQL.Proofs.Jobs.Views
import GraphQL.Proofs.Positions.Marking
import GraphQL.Proofs.Selections.Renamings

/-!
# Responses with renamed keys

What a `Renaming` makes of the paths, values, errors and calls of an execution: keys are mapped,
everything else stays as it is. What positions come to is put together of renamed parts as it is of
the parts (`Renaming.completion_ofFields`, `Renaming.completion_ofItems`). Below the root it is the
renaming of the place that a path leads to (`Renaming.Leads`) that the values there are subject to,
while paths are renamed from the root.
-/

set_option autoImplicit false

namespace GraphQL

namespace Renaming

/-- The path with its keys mapped. -/
def path : Renaming → Path → Path
  | .keep, path => path
  | .keys _ _, [] => []
  | .keys key below, .key name :: rest => .key (key name) :: (below name).path rest
  | .keys key below, .index i :: rest => .index i :: (keys key below).path rest

mutual

/-- The value with the keys of its objects mapped. -/
def json : Renaming → Json → Json
  | .keep, value => value
  | .keys key below, .array items => .array (jsonItems (keys key below) items)
  | .keys key below, .object members => .object (jsonMembers key below members)
  | .keys _ _, value => value

/-- The items of an array with the keys of their objects mapped. -/
def jsonItems : Renaming → List Json → List Json
  | _, [] => []
  | here, value :: rest => here.json value :: here.jsonItems rest

/-- The members of an object with the keys mapped, and those inside their values. -/
def jsonMembers (key : String → String) (below : String → Renaming) :
    List (String × Json) → List (String × Json)
  | [] => []
  | (name, value) :: rest => (key name, (below name).json value) :: jsonMembers key below rest

end

/-- The error with the keys of its path mapped. -/
def error (root : Renaming) (error : ResponseError) : ResponseError :=
  { error with path := error.path.map root.path }

/-- The response with the keys of its data and of the paths of its errors mapped. -/
def response (root : Renaming) (response : Response) : Response :=
  { response with
    data := response.data.map root.json
    errors := response.errors.map root.error }

/-- The call with the keys of its path mapped. -/
def call (root : Renaming) (call : Call) : Call :=
  { call with path := root.path call.path }

/-- What happened to the call with the keys of its path mapped. -/
def event (root : Renaming) : Event → Event
  | .started call => .started (root.call call)
  | .ended call outcome => .ended (root.call call) outcome

/-- The world in which the same happened to calls with the keys of their paths mapped. -/
def world {State : Type} (root : Renaming) (world : World State) : World State :=
  { world with history := world.history.map root.event }

/-- What a position comes to with the keys of its value mapped as they are there, and those of paths
as they are from the root. -/
def completion (root here : Renaming) (completion : Completion) : Completion :=
  { value := completion.value.map here.json
    errors := completion.errors.map root.error }

section Paths

/-- Where keys are kept, paths are. -/
@[simp] theorem path_keep (path : Path) : keep.path path = path := by
  cases path <;> rfl

/-- The root stays where it is. -/
@[simp] theorem path_nil (here : Renaming) : here.path [] = [] := by
  cases here <;> rfl

/-- The index of an item stays as it is, and the items of a list are renamed as the list is. -/
@[simp] theorem path_index (here : Renaming) (i : Nat) (rest : Path) :
    here.path (.index i :: rest) = .index i :: here.path rest := by
  cases here with
  | keep => rw [path_keep, path_keep]
  | keys key below => rfl

/-- A path leads from the root of a renaming to the one at some place, and another path is what
becomes of it. -/
def Leads (root here : Renaming) (base base' : Path) : Prop :=
  ∀ rest, root.path (base ++ rest) = base' ++ here.path rest

/-- The root leads to the root. -/
theorem leads_nil (root : Renaming) : root.Leads root [] [] :=
  fun _ => rfl

variable {root here : Renaming} {base base' : Path}

/-- A path that leads to some place is renamed to the one it becomes. -/
theorem Leads.path_eq (leads : root.Leads here base base') : root.path base = base' := by
  simpa using leads []

/-- The items of a list are subject to the renaming of the list. -/
theorem Leads.index (leads : root.Leads here base base') (i : Nat) :
    root.Leads here (base.join (.index i)) (base'.join (.index i)) := by
  intro rest
  simpa [Path.join] using leads (.index i :: rest)

/-- What is under a key is subject to the renaming below that key. -/
theorem Leads.key {key : String → String} {below : String → Renaming}
    (leads : root.Leads (.keys key below) base base') (name : String) :
    root.Leads (below name) (base.join (.key name)) (base'.join (.key (key name))) := by
  intro rest
  simpa [Path.join, path] using leads (.key name :: rest)

end Paths

section Values

/-- Null has no keys. -/
@[simp] theorem json_null (here : Renaming) : here.json .null = .null := by
  cases here <;> rfl

/-- A string has no keys. -/
@[simp] theorem json_string (here : Renaming) (s : String) : here.json (.string s) = .string s := by
  cases here <;> rfl

/-- A number has no keys. -/
@[simp] theorem json_number (here : Renaming) (n : Json.Number) :
    here.json (.number n) = .number n := by
  cases here <;> rfl

/-- A boolean has no keys. -/
@[simp] theorem json_bool (here : Renaming) (b : Bool) : here.json (.bool b) = .bool b := by
  cases here <;> rfl

/-- The items of a list are renamed one by one. -/
theorem jsonItems_eq_map (here : Renaming) (items : List Json) :
    here.jsonItems items = items.map here.json := by
  induction items with
  | nil => rw [jsonItems, List.map_nil]
  | cons value rest ih => rw [jsonItems, List.map_cons, ih]

/-- Where keys are kept, values stay as they are. -/
@[simp] theorem json_keep (value : Json) : keep.json value = value := by
  cases value <;> rfl

/-- A list is renamed item by item. -/
@[simp] theorem json_array (here : Renaming) (items : List Json) :
    here.json (.array items) = .array (items.map here.json) := by
  cases here with
  | keep =>
    have same : json keep = id := funext json_keep
    rw [same, List.map_id, id]
  | keys key below => rw [json, jsonItems_eq_map]

/-- Renaming makes null of nothing but null. -/
theorem json_eq_null_iff {here : Renaming} {value : Json} :
    here.json value = .null ↔ value = .null := by
  cases here <;> cases value <;> simp [json]

/-- What a built-in scalar is written as has no keys. -/
theorem json_output {scalar : BuiltinScalar} {value written : Json}
    (output : scalar.output? value = some written) (here : Renaming) :
    here.json written = written := by
  unfold BuiltinScalar.output? at output
  split at output
  · cases output
    exact json_string here _
  · obtain ⟨i, -, rfl⟩ := Option.map_eq_some_iff.1 output
    exact json_number here _
  · cases output
    exact json_number here _
  · cases output
    exact json_bool here _
  · cases output
    exact json_string here _
  · cases output
    exact json_string here _
  · cases output

end Values

section Completions

variable {root here : Renaming} {base base' : Path}

/-- What is reported at a path is reported at the renamed one. -/
theorem error_report {α : Type} [Reportable α] (leads : root.Leads here base base') (cause : α) :
    root.error (Reportable.report base cause) = Reportable.report base' cause := by
  rw [← leads.path_eq]
  rfl

/-- The error of a resolver is reported at the renamed path. -/
theorem error_report_field (leads : root.Leads here base base') (error : FieldError) :
    root.error (error.report base) = error.report base' := by
  rw [← leads.path_eq]
  rfl

/-- A value without keys is completed as it is. -/
theorem completion_ok {value : Json} (same : here.json value = value) :
    root.completion here (.ok value) = .ok value := by
  simp [completion, Completion.ok, same]

/-- What is missing is missing with renamed errors. -/
theorem completion_missing (type : TypeRef) (errors : List ResponseError) :
    root.completion here (.missing type errors) = .missing type (errors.map root.error) := by
  simp only [completion, Completion.missing]
  split <;> simp

/-- A value that does not fit its type is reported at the renamed path. -/
theorem completion_invalid (leads : root.Leads here base base') (field : FieldName) (type : TypeRef)
    (value : Json) :
    root.completion here (.invalid field base type value) = .invalid field base' type value := by
  simp [completion, Completion.invalid, error_report leads]

/-- A null that propagates to a place stops there after renaming too. -/
theorem completion_absorb (c : Completion) :
    root.completion here c.absorb = (root.completion here c).absorb := by
  cases value : c.value <;> simp [completion, Completion.absorb, value]

/-- Null is refused at the renamed path. -/
theorem completion_require (leads : root.Leads here base base') (field : FieldName)
    (c : Completion) :
    root.completion here (c.require field base) = (root.completion here c).require field base' := by
  by_cases null : c.value = some .null
  · simp [completion, Completion.require, null, error_report leads]
  · have kept : (root.completion here c).value ≠ some .null := by
      intro mapped
      obtain ⟨value, found, same⟩ := Option.map_eq_some_iff.1 mapped
      exact null (found.trans (congrArg some (json_eq_null_iff.1 same)))
    rw [Completion.require_of_ne null, Completion.require_of_ne kept]

end Completions

section Parts

/-- Parts that are renamed one by one have the values renamed one by one. -/
theorem mapM_value_mapIdx (root : Renaming) (places : Nat → Renaming) (parts : List Completion) :
    (parts.mapIdx fun i => root.completion (places i)).mapM Completion.value =
      (parts.mapM Completion.value).map (List.mapIdx fun i => (places i).json) := by
  induction parts generalizing places with
  | nil => rfl
  | cons part rest ih =>
    rw [List.mapIdx_cons, List.mapM_cons, List.mapM_cons, ih]
    cases value : part.value with
    | none => simp [completion, value]
    | some first =>
      cases rest.mapM Completion.value with
      | none => simp [completion, value]
      | some values => simp [completion, value]

/-- The errors of renamed parts are those of the parts, renamed. -/
theorem flatMap_errors_mapIdx (root : Renaming) (places : Nat → Renaming)
    (parts : List Completion) :
    (parts.mapIdx fun i => root.completion (places i)).flatMap (·.errors) =
      (parts.flatMap (·.errors)).map root.error := by
  induction parts generalizing places with
  | nil => rfl
  | cons part rest ih =>
    rw [List.mapIdx_cons, List.flatMap_cons, List.flatMap_cons, ih, List.map_append]
    rfl

/-- The members of an object whose fields have the given keys. -/
theorem jsonMembers_zip (key : String → String) (below : String → Renaming) (names : List String)
    (values : List Json) :
    jsonMembers key below (names.zip values) =
      (names.map key).zip (values.mapIdx fun i => ((names[i]?).elim keep below).json) := by
  induction names generalizing values with
  | nil => rfl
  | cons name names ih =>
    cases values with
    | nil => rfl
    | cons value values =>
      rw [List.zip_cons_cons, jsonMembers, ih, List.map_cons, List.mapIdx_cons, List.zip_cons_cons]
      rfl

/-- The object of renamed fields, under the mapped keys, is the renamed object. -/
theorem completion_ofFields (root : Renaming) (key : String → String) (below : String → Renaming)
    (names : List String) (parts : List Completion) :
    root.completion (.keys key below) (.ofFields names parts) =
      .ofFields (names.map key)
        (parts.mapIdx fun i => root.completion ((names[i]?).elim keep below)) := by
  have values : ∀ values : List Json, (keys key below).json (.object (names.zip values)) =
      .object ((names.map key).zip
        (values.mapIdx fun i => ((names[i]?).elim keep below).json)) := by
    intro values
    rw [json, jsonMembers_zip]
  rw [Completion.ofFields, Completion.ofFields, mapM_value_mapIdx, flatMap_errors_mapIdx]
  simp [completion, Function.comp_def, values]

/-- The list of renamed items is the renamed list. -/
theorem completion_ofItems (root here : Renaming) (parts : List Completion) :
    root.completion here (.ofItems parts) =
      .ofItems (parts.mapIdx fun _ => root.completion here) := by
  have alike : ∀ values : List Json, values.mapIdx (fun _ => here.json) = values.map here.json := by
    intro values
    apply List.ext_getElem?
    simp
  rw [Completion.ofItems, Completion.ofItems, mapM_value_mapIdx root fun _ => here,
    flatMap_errors_mapIdx root fun _ => here]
  simp [completion, Function.comp_def, alike]

/-- The response with renamed keys. The error of a cancellation has no path. -/
theorem response_respond (root : Renaming) (c : Completion) (aborted : Bool) :
    root.response (Engine.respond c aborted) = Engine.respond (root.completion root c) aborted := by
  cases aborted <;> simp [response, Engine.respond, completion, error, Reportable.report]

end Parts

section Worlds

variable {State : Type}

/-- Worlds, seen with the keys of paths mapped. -/
def view (root : Renaming) : World.View State State where
  see := root.world
  clock instant := instant
  clock_le_iff := Iff.rfl
  see_at := fun _ _ _ => rfl

/-- Renaming the paths in a world leaves the state, the clock and all outcomes as they are. -/
theorem plain_view (root : Renaming) : (root.view : World.View State State).Plain root.call where
  state := fun _ => rfl
  add := fun _ _ => rfl
  write := fun _ _ => rfl
  abort := fun _ => rfl
  started := fun world call => by simp [view, Renaming.world, World.record, event]
  ended := fun world call outcome => by simp [view, Renaming.world, World.record, event]

end Worlds

end Renaming

end GraphQL
