import GraphQL.Document.Basic

/-!
# Operations

An operation that can be executed. Every spread of a fragment carries what the fragment says, so
that a selection is a finite tree that needs no table of fragments; it keeps the fragment's name,
because one selection set takes the fields of a named fragment only once.
-/

set_option autoImplicit false

namespace GraphQL

/-- An entry of a selection set. -/
inductive Selection where
  | field (aliasName : Option String) (name : String) (arguments : List (String × Literal))
      (selections : List Selection)
  | inlineFragment (condition : Option String) (selections : List Selection)
  | fragmentSpread (name : String) (condition : String) (selections : List Selection)
  deriving Inhabited, Repr

/-- A field that is selected. -/
structure Field where
  aliasName : Option String
  name : String
  arguments : List (String × Literal)
  selections : List Selection
  deriving Repr

namespace Field

/-- The key under which a field is written in the response. -/
def responseKey (field : Field) : String :=
  field.aliasName.getD field.name

end Field

namespace Selection

mutual

/-- How deep fields nest in a selection. -/
def depth : Selection → Nat
  | .field _ _ _ selections => depthAll selections + 1
  | .inlineFragment _ selections => depthAll selections
  | .fragmentSpread _ _ selections => depthAll selections

/-- How deep fields nest in a selection set. -/
def depthAll : List Selection → Nat
  | [] => 0
  | selection :: rest => max selection.depth (depthAll rest)

end

/-- A selection nests no deeper than its selection set. -/
theorem depth_le_depthAll {selection : Selection} {selections : List Selection}
    (h : selection ∈ selections) : selection.depth ≤ depthAll selections := by
  induction selections with
  | nil => simp at h
  | cons first rest ih =>
    simp only [depthAll]
    rcases List.mem_cons.1 h with rfl | member
    · exact Nat.le_max_left _ _
    · exact Nat.le_trans (ih member) (Nat.le_max_right _ _)

/-- Selection sets side by side nest as deep as the deepest of them. -/
theorem depthAll_append (left right : List Selection) :
    depthAll (left ++ right) = max (depthAll left) (depthAll right) := by
  induction left with
  | nil => simp [depthAll]
  | cons first rest ih => simp only [List.cons_append, depthAll, ih, Nat.max_assoc]

mutual

/-- A selection with every spread written as an inline fragment. -/
def expand : Selection → Selection
  | .field aliasName name arguments selections =>
    .field aliasName name arguments (expandAll selections)
  | .inlineFragment condition selections => .inlineFragment condition (expandAll selections)
  | .fragmentSpread _ condition selections =>
    .inlineFragment (some condition) (expandAll selections)

/-- A selection set with every spread written as an inline fragment. -/
def expandAll : List Selection → List Selection
  | [] => []
  | selection :: rest => selection.expand :: expandAll rest

end

end Selection

/-- An operation with the fragments that it spreads. -/
structure Operation where
  kind : OperationKind
  name : Option String
  variableDefinitions : List VariableDefinition
  selections : List Selection
  deriving Repr

end GraphQL
