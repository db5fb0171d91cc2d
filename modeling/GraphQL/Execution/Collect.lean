import GraphQL.Operation.Basic

/-!
# Collecting fields

The fields that a selection set selects of an object, grouped by response key in the order of
their first occurrence. Fragments count where their condition is the object's type; a fragment of
some name counts only once in a selection set.
-/

set_option autoImplicit false

namespace GraphQL

/-- The fields that share a response key. The first gives the name and the arguments. -/
structure FieldGroup where
  key : String
  first : Field
  more : List Field := []
  deriving Repr

namespace FieldGroup

/-- The sub-selections of all the fields of a group. -/
def selections (group : FieldGroup) : List Selection :=
  group.first.selections ++ group.more.flatMap (·.selections)

/-- Adds a field to the group of its key, or a new group at the end. -/
def add (field : Field) : List FieldGroup → List FieldGroup
  | [] => [{ key := field.responseKey, first := field }]
  | group :: rest =>
    if group.key == field.responseKey then { group with more := group.more ++ [field] } :: rest
    else group :: add field rest

/-- Adding a field keeps the keys in their places; a new key goes last. -/
theorem map_key_add (field : Field) (groups : List FieldGroup) :
    (add field groups).map (·.key) =
      if field.responseKey ∈ groups.map (·.key) then groups.map (·.key)
      else groups.map (·.key) ++ [field.responseKey] := by
  induction groups with
  | nil => rfl
  | cons group rest ih =>
    by_cases h : group.key = field.responseKey
    · simp [add, h]
    · have hk : field.responseKey ≠ group.key := fun e => h e.symm
      by_cases hm : field.responseKey ∈ rest.map (·.key) <;> simp_all [add]

end FieldGroup

/-- The fields collected so far, and the names of the fragments that were spread. -/
structure Collected where
  groups : List FieldGroup := []
  visited : List String := []

namespace Collected

mutual

/-- Collects a selection of an object of some type. -/
def add (typeName : String) (collected : Collected) : Selection → Collected
  | .field aliasName name arguments selections =>
    let field := { aliasName, name, arguments, selections }
    { collected with groups := FieldGroup.add field collected.groups }
  | .inlineFragment condition selections =>
    if condition.all (· == typeName) then addAll typeName collected selections else collected
  | .fragmentSpread name condition selections =>
    if collected.visited.contains name then collected
    else
      let collected := { collected with visited := name :: collected.visited }
      if condition == typeName then addAll typeName collected selections else collected

/-- Collects selections in order. -/
def addAll (typeName : String) (collected : Collected) : List Selection → Collected
  | [] => collected
  | selection :: rest => addAll typeName (add typeName collected selection) rest

end

end Collected

/-- The fields that a selection set selects of an object of some type. -/
def collectFields (typeName : String) (selections : List Selection) : List FieldGroup :=
  (Collected.addAll typeName {} selections).groups

end GraphQL
