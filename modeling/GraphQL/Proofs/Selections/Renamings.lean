import GraphQL.Proofs.Schemas.Closed
import GraphQL.Proofs.Selections.Flattened

/-!
# Renamed response keys

Aliases may be added to an operation or changed in it. What that makes of the response keys is a
`Renaming`: a map of keys for each selection set that is executed. `Selection.Renames` says that it
is what the aliases of one operation make of another one, and that keys that are different in a
selection set stay so. The groups that are collected then correspond to each other in their order,
with the same fields, under the keys that are renamed (`forall₂_renamed_collectFields`).
-/

set_option autoImplicit false

namespace GraphQL

/-- What becomes of response keys at some place and below it: there are none, or those of the
objects there are mapped, and below each key there is another renaming. -/
inductive Renaming where
  | keep
  | keys (key : String → String) (below : String → Renaming)

namespace Selection

mutual

/-- Selections that differ in aliases alone. -/
inductive Realiased : Selection → Selection → Prop
  | field {aliasName aliasName' : Option String} {name : String}
    {arguments : List (String × Literal)} {selections renamed : List Selection}
    (h : RealiasedAll selections renamed) :
    Realiased (.field aliasName name arguments selections)
      (.field aliasName' name arguments renamed)
  | inlineFragment {condition : Option String} {selections renamed : List Selection}
    (h : RealiasedAll selections renamed) :
    Realiased (.inlineFragment condition selections) (.inlineFragment condition renamed)
  | fragmentSpread {name condition : String} {selections renamed : List Selection}
    (h : RealiasedAll selections renamed) :
    Realiased (.fragmentSpread name condition selections) (.fragmentSpread name condition renamed)

/-- Selection sets that differ in aliases alone. -/
inductive RealiasedAll : List Selection → List Selection → Prop
  | nil : RealiasedAll [] []
  | cons {selection selection' : Selection} {rest rest' : List Selection}
    (first : Realiased selection selection') (later : RealiasedAll rest rest') :
    RealiasedAll (selection :: rest) (selection' :: rest')

end

/-- The response keys of a selection set, executed for an object of some type, are mapped to those
of another one. So are, for the objects in the fields of each key, those of the merged
sub-selections. Different keys stay different. A field that holds no objects is left alone. -/
inductive Renames (schema : Schema) : Renaming → ObjectType → List Selection → List Selection → Prop
  | keys {key : String → String} {below : String → Renaming} {type : ObjectType}
    {selections renamed : List Selection}
    (mapped : (flattenAll type.name renamed).map (·.responseKey) =
      (flattenAll type.name selections).map fun field => key field.responseKey)
    (distinct : ∀ field ∈ flattenAll type.name selections,
      ∀ other ∈ flattenAll type.name selections,
        key field.responseKey = key other.responseKey → field.responseKey = other.responseKey)
    (leaf : ∀ group ∈ collectFields type.name selections, group.selections = [] →
      below group.key = .keep)
    (inside : ∀ group ∈ collectFields type.name selections, group.selections ≠ [] →
      ∀ group' ∈ collectFields type.name renamed, group'.key = key group.key →
        ∀ definition inner, type.field? group.first.name = some definition →
          schema.object? definition.type.innermost = some inner →
            Renames schema (below group.key) inner group.selections group'.selections) :
    Renames schema (.keys key below) type selections renamed

/-- Selections that are alike but for aliases can be put one after the other. -/
theorem RealiasedAll.append {front front' back back' : List Selection} :
    RealiasedAll front front' → RealiasedAll back back' →
      RealiasedAll (front ++ back) (front' ++ back')
  | .nil, last => last
  | .cons first later, last => .cons first (later.append last)

mutual

/-- Other aliases make a selection nest no deeper. -/
theorem Realiased.depth_eq {selection selection' : Selection} :
    Realiased selection selection' → selection'.depth = selection.depth
  | .field h => by rw [depth, depth, h.depthAll_eq]
  | .inlineFragment h => by rw [depth, depth, h.depthAll_eq]
  | .fragmentSpread h => by rw [depth, depth, h.depthAll_eq]

/-- Aliases make no difference to how deep fields nest. -/
theorem RealiasedAll.depthAll_eq {selections renamed : List Selection} :
    RealiasedAll selections renamed → depthAll renamed = depthAll selections
  | .nil => rfl
  | .cons first later => by rw [depthAll, depthAll, first.depth_eq, later.depthAll_eq]

end

mutual

/-- Other aliases leave as many fields selected. -/
theorem Realiased.length_flatten (typeName : String) {selection selection' : Selection} :
    Realiased selection selection' →
      (selection'.flatten typeName).length = (selection.flatten typeName).length
  | .field _ => by rw [flatten, flatten]; rfl
  | .inlineFragment h => by
    rw [flatten, flatten]
    split
    · exact h.length_flattenAll typeName
    · rfl
  | .fragmentSpread h => by
    rw [flatten, flatten]
    split
    · exact h.length_flattenAll typeName
    · rfl

/-- Aliases make no difference to how many fields are selected. -/
theorem RealiasedAll.length_flattenAll (typeName : String) {selections renamed : List Selection} :
    RealiasedAll selections renamed →
      (flattenAll typeName renamed).length = (flattenAll typeName selections).length
  | .nil => rfl
  | .cons first later => by
    rw [flattenAll, flattenAll, List.length_append, List.length_append,
      first.length_flatten typeName, later.length_flattenAll typeName]

end

end Selection

open Selection

/-- A field differs from another one in aliases alone, and its key is mapped. -/
structure Field.Renamed (key : String → String) (field field' : Field) : Prop where
  key : field'.responseKey = key field.responseKey
  name : field'.name = field.name
  arguments : field'.arguments = field.arguments
  selections : RealiasedAll field.selections field'.selections

/-- The fields of a group differ from those of another one in aliases alone, and its key is
mapped. -/
structure FieldGroup.Renamed (key : String → String) (group group' : FieldGroup) : Prop where
  key : group'.key = key group.key
  name : group'.first.name = group.first.name
  arguments : group'.first.arguments = group.first.arguments
  selections : RealiasedAll group.selections group'.selections

/-- Adding corresponding fields to corresponding groups, under a key that no other one is mapped
to. -/
theorem FieldGroup.forall₂_renamed_add {key : String → String} {field field' : Field}
    (renamed : field.Renamed key field') {groups groups' : List FieldGroup}
    (same : List.Forall₂ (FieldGroup.Renamed key) groups groups')
    (distinct : ∀ group ∈ groups,
      key group.key = key field.responseKey → group.key = field.responseKey) :
    List.Forall₂ (FieldGroup.Renamed key) (add field groups) (add field' groups') := by
  induction same with
  | nil =>
    have alone : RealiasedAll (field.selections ++ []) (field'.selections ++ []) :=
      renamed.selections.append .nil
    exact .cons ⟨renamed.key, renamed.name, renamed.arguments, alone⟩ .nil
  | @cons group group' rest rest' first later ih =>
    obtain ⟨own, others⟩ := List.forall_mem_cons.1 distinct
    by_cases joins : group.key = field.responseKey
    · have joins' : group'.key = field'.responseKey := by rw [first.key, joins, renamed.key]
      have merged := first.selections.append renamed.selections
      rw [add, add, if_pos (beq_iff_eq.2 joins), if_pos (beq_iff_eq.2 joins')]
      refine .cons { first with selections := ?_ } later
      simpa [FieldGroup.selections] using merged
    · have apart : group'.key ≠ field'.responseKey := by
        rw [first.key, renamed.key]
        exact fun together => joins (own together)
      rw [add, add, if_neg (mt beq_iff_eq.1 joins), if_neg (mt beq_iff_eq.1 apart)]
      exact .cons first (ih others)

namespace Collected

/-- What was collected corresponds to what was collected of fields with other aliases. -/
structure Renamed (key : String → String) (names : List String) (collected collected' : Collected) :
    Prop where
  groups : List.Forall₂ (FieldGroup.Renamed key) collected.groups collected'.groups
  visited : collected'.visited = collected.visited
  known : ∀ group ∈ collected.groups, group.key ∈ names

variable {key : String → String} {names : List String} {typeName : String}
  {collected collected' : Collected}

/-- Collecting one more field and its counterpart, under a key of those that stay different. -/
theorem Renamed.addField
    (distinct : ∀ name ∈ names, ∀ other ∈ names, key name = key other → name = other)
    (renamed : Renamed key names collected collected') {field field' : Field}
    (same : field.Renamed key field') (known : field.responseKey ∈ names) :
    Renamed key names { collected with groups := FieldGroup.add field collected.groups }
      { collected' with groups := FieldGroup.add field' collected'.groups } where
  groups := FieldGroup.forall₂_renamed_add same renamed.groups fun group member =>
    distinct _ (renamed.known group member) _ known
  visited := renamed.visited
  known := by
    intro group member
    have listed : group.key ∈ (FieldGroup.add field collected.groups).map (·.key) :=
      List.mem_map_of_mem member
    have before : ∀ name ∈ collected.groups.map (·.key), name ∈ names := by
      intro name member
      obtain ⟨earlier, inside, rfl⟩ := List.mem_map.1 member
      exact renamed.known earlier inside
    rw [FieldGroup.map_key_add] at listed
    split at listed
    · exact before _ listed
    · rcases List.mem_append.1 listed with earlier | new
      · exact before _ earlier
      · exact List.mem_singleton.1 new ▸ known

mutual

/-- Collecting a selection with other aliases collects the renamed groups. -/
theorem Renamed.add
    (distinct : ∀ name ∈ names, ∀ other ∈ names, key name = key other → name = other)
    {selection selection' : Selection} {collected collected' : Collected}
    (renamed : Renamed key names collected collected')
    (mapped : (selection'.flatten typeName).map (·.responseKey) =
      (selection.flatten typeName).map fun field => key field.responseKey)
    (known : ∀ field ∈ selection.flatten typeName, field.responseKey ∈ names) :
    Realiased selection selection' →
      Renamed key names (add typeName collected selection) (add typeName collected' selection')
  | .field h => by
    rw [flatten, flatten] at mapped
    rw [flatten] at known
    rw [Collected.add, Collected.add]
    exact renamed.addField distinct ⟨(List.cons.inj mapped).1, rfl, rfl, h⟩
      (known _ List.mem_cons_self)
  | .inlineFragment h => by
    rw [flatten, flatten] at mapped
    rw [flatten] at known
    rw [Collected.add, Collected.add]
    split
    · next applies =>
      rw [if_pos applies, if_pos applies] at mapped
      rw [if_pos applies] at known
      exact renamed.addAll distinct mapped known h
    · exact renamed
  | @Realiased.fragmentSpread name condition _ _ h => by
    rw [flatten, flatten] at mapped
    rw [flatten] at known
    rw [Collected.add, Collected.add, renamed.visited]
    split
    · exact renamed
    · have spread : Renamed key names { collected with visited := name :: collected.visited }
          { collected' with visited := name :: collected.visited } :=
        { renamed with visited := rfl }
      dsimp only
      split
      · next applies =>
        rw [if_pos applies, if_pos applies] at mapped
        rw [if_pos applies] at known
        exact spread.addAll distinct mapped known h
      · exact spread

/-- Collecting selections that differ in aliases alone, where the keys are mapped. -/
theorem Renamed.addAll
    (distinct : ∀ name ∈ names, ∀ other ∈ names, key name = key other → name = other)
    {selections selections' : List Selection} {collected collected' : Collected}
    (renamed : Renamed key names collected collected')
    (mapped : (flattenAll typeName selections').map (·.responseKey) =
      (flattenAll typeName selections).map fun field => key field.responseKey)
    (known : ∀ field ∈ flattenAll typeName selections, field.responseKey ∈ names) :
    RealiasedAll selections selections' →
      Renamed key names (addAll typeName collected selections)
        (addAll typeName collected' selections')
  | .nil => renamed
  | .cons first later => by
    rw [flattenAll, flattenAll, List.map_append, List.map_append] at mapped
    rw [flattenAll, List.forall_mem_append] at known
    obtain ⟨mapped, mappedRest⟩ := List.append_inj mapped (by
      rw [List.length_map, List.length_map, first.length_flatten typeName])
    rw [Collected.addAll, Collected.addAll]
    exact (renamed.add distinct mapped known.1 first).addAll distinct mappedRest known.2 later

end

end Collected

/-- The groups of a selection set are those of the one with other aliases, in their order, under the
keys that are mapped. -/
theorem forall₂_renamed_collectFields {key : String → String} {typeName : String}
    {selections renamed : List Selection} (aliases : RealiasedAll selections renamed)
    (mapped : (flattenAll typeName renamed).map (·.responseKey) =
      (flattenAll typeName selections).map fun field => key field.responseKey)
    (distinct : ∀ field ∈ flattenAll typeName selections,
      ∀ other ∈ flattenAll typeName selections,
        key field.responseKey = key other.responseKey → field.responseKey = other.responseKey) :
    List.Forall₂ (FieldGroup.Renamed key) (collectFields typeName selections)
      (collectFields typeName renamed) := by
  have nothing : Collected.Renamed key ((flattenAll typeName selections).map (·.responseKey)) {}
      {} := ⟨.nil, rfl, List.forall_mem_nil _⟩
  refine (nothing.addAll ?_ mapped (fun _ => List.mem_map_of_mem) aliases).groups
  intro name member other member' same
  obtain ⟨field, inside, rfl⟩ := List.mem_map.1 member
  obtain ⟨field', inside', rfl⟩ := List.mem_map.1 member'
  exact distinct field inside field' inside' same

end GraphQL
