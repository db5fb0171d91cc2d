import GraphQL.Json.Basic

/-!
# Response paths

A path locates a value in a response by the keys of objects and the indices of lists that lead to
it. A key that looks like a number stays a key.
-/

set_option autoImplicit false

namespace GraphQL

/-- One step of a path. -/
inductive PathElement where
  | key (name : String)
  | index (i : Nat)
  deriving DecidableEq, Repr

namespace PathElement

/-- The text of a step. -/
def render : PathElement → String
  | key name => name
  | index i => toString i

/-- A step as JSON: a string or an integer. -/
def toJson : PathElement → Json
  | key name => .string name
  | index i => .ofInt i

/-- Reads a step from JSON. Negative integers and other numbers are no indices. -/
def ofJson? : Json → Option PathElement
  | .string name => some (.key name)
  | .number (.int (.ofNat i)) => some (.index i)
  | _ => none

/-- Reading a step gives back what was written: a key that looks like a number stays a key. -/
@[simp] theorem ofJson?_toJson (element : PathElement) : ofJson? element.toJson = some element := by
  cases element <;> rfl

end PathElement

/-- A path from the root of a response. -/
abbrev Path := List PathElement

namespace Path

/-- The text of a path: a slash before every step. -/
def render (path : Path) : String :=
  String.join (path.map fun element => "/" ++ element.render)

/-- The path that goes one step further. -/
def join (path : Path) (element : PathElement) : Path :=
  path ++ [element]

/-- A path as JSON: the list of its steps. -/
def toJson (path : Path) : Json :=
  .array (path.map PathElement.toJson)

/-- Reads a path from JSON. -/
def ofJson? : Json → Option Path
  | .array items => items.mapM PathElement.ofJson?
  | _ => none

/-- Reading a path gives back what was written. -/
@[simp] theorem ofJson?_toJson (path : Path) : ofJson? path.toJson = some path := by
  simp only [toJson, ofJson?]
  induction path with
  | nil => rfl
  | cons element rest ih => simp [List.mapM_cons, ih]

end Path

end GraphQL
