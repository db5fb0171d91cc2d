import GraphQL.Execution.Collect
import Mathlib.Data.List.Nodup

/-!
# What collecting fields keeps

The groups that are collected from a selection set have distinct keys, in whatever order and
however often the keys are selected. And each group nests less deep than the selection set from
which it is collected, also when fields of several depths are merged in it and when they come out
of fragments: execution goes down one level of fields at a time. A group may be selected alone: its
fields are collected into it again, without the others (`collectFields_fields`).
-/

set_option autoImplicit false

namespace GraphQL

namespace FieldGroup

/-- The sub-selections of a group nest less deep than some bound if those of each field do. -/
theorem depthAll_selections_lt {group : FieldGroup} {bound : Nat}
    (hfirst : Selection.depthAll group.first.selections < bound)
    (hmore : ∀ field ∈ group.more, Selection.depthAll field.selections < bound) :
    Selection.depthAll group.selections < bound := by
  have merged : ∀ fields : List Field,
      (∀ field ∈ fields, Selection.depthAll field.selections < bound) →
      Selection.depthAll (fields.flatMap (·.selections)) < bound := by
    intro fields h
    induction fields with
    | nil =>
      simp only [List.flatMap_nil, Selection.depthAll]
      omega
    | cons field rest ih =>
      rw [List.flatMap_cons, Selection.depthAll_append]
      have h1 := h field (by simp)
      have h2 := ih fun other member => h other (List.mem_cons_of_mem _ member)
      omega
  unfold FieldGroup.selections
  rw [Selection.depthAll_append]
  have := merged group.more hmore
  omega

end FieldGroup

namespace Collected

mutual

/-- Collecting a selection keeps what adding one of its fields keeps. -/
theorem add_keeps {P : List FieldGroup → Prop} {bound : Nat}
    (keeps : ∀ field groups, Selection.depthAll field.selections < bound → P groups →
      P (FieldGroup.add field groups)) (typeName : String) (collected : Collected)
    (h : P collected.groups) : (selection : Selection) → selection.depth ≤ bound →
      P (add typeName collected selection).groups
  | .field aliasName name arguments selections, hdepth => by
    rw [Selection.depth] at hdepth
    exact keeps { aliasName, name, arguments, selections } _ hdepth h
  | .inlineFragment condition selections, hdepth => by
    rw [Selection.depth] at hdepth
    rw [add]
    split
    · exact addAll_keeps keeps typeName collected h selections hdepth
    · exact h
  | .fragmentSpread name condition selections, hdepth => by
    rw [Selection.depth] at hdepth
    rw [add]
    split
    · exact h
    · simp only
      split
      · exact addAll_keeps keeps typeName { collected with visited := name :: collected.visited } h
          selections hdepth
      · exact h

/-- Collecting selections keeps what adding one of their fields keeps. -/
theorem addAll_keeps {P : List FieldGroup → Prop} {bound : Nat}
    (keeps : ∀ field groups, Selection.depthAll field.selections < bound → P groups →
      P (FieldGroup.add field groups)) (typeName : String) (collected : Collected)
    (h : P collected.groups) : (selections : List Selection) →
      Selection.depthAll selections ≤ bound → P (addAll typeName collected selections).groups
  | [], _ => h
  | selection :: rest, hdepth => by
    rw [Selection.depthAll] at hdepth
    rw [addAll]
    exact addAll_keeps keeps typeName _
      (add_keeps keeps typeName collected h selection (by omega)) rest (by omega)

end

end Collected

/-- What holds of no groups and is kept by each field of a selection set holds of the groups that
are collected from it. -/
theorem collectFields_keeps {P : List FieldGroup → Prop} {typeName : String}
    {selections : List Selection} (empty : P [])
    (keeps : ∀ field groups, Selection.depthAll field.selections < Selection.depthAll selections →
      P groups → P (FieldGroup.add field groups)) : P (collectFields typeName selections) :=
  Collected.addAll_keeps keeps typeName {} empty selections (Nat.le_refl _)

/-- The keys of a selection set are distinct. -/
theorem nodup_keys_collectFields (typeName : String) (selections : List Selection) :
    ((collectFields typeName selections).map (·.key)).Nodup := by
  refine collectFields_keeps (P := fun groups => (groups.map (·.key)).Nodup) List.nodup_nil ?_
  intro field groups _ distinct
  rw [FieldGroup.map_key_add]
  split
  · exact distinct
  · next new =>
    rw [List.nodup_append]
    refine ⟨distinct, List.nodup_singleton _, fun a ha b hb same => new ?_⟩
    rw [List.mem_singleton] at hb
    exact hb ▸ same ▸ ha

namespace FieldGroup

/-- The fields of a group all have some property, along with its key. -/
def All (p : String → Field → Prop) (group : FieldGroup) : Prop :=
  p group.key group.first ∧ ∀ field ∈ group.more, p group.key field

/-- A field that has the property may be added to groups whose fields have it. -/
theorem all_add {p : String → Field → Prop} {field : Field} (h : p field.responseKey field)
    {groups : List FieldGroup} (all : ∀ group ∈ groups, group.All p) :
    ∀ group ∈ add field groups, group.All p := by
  induction groups with
  | nil =>
    intro group member
    rw [add, List.mem_singleton] at member
    subst member
    exact ⟨h, by simp⟩
  | cons first rest ih =>
    obtain ⟨here, there⟩ := List.forall_mem_cons.1 all
    rw [add]
    split
    · next same =>
      refine List.forall_mem_cons.2 ⟨⟨here.1, fun other member => ?_⟩, there⟩
      rcases List.mem_append.1 member with member | member
      · exact here.2 other member
      · rw [List.mem_singleton.1 member, eq_of_beq same]
        exact h
    · exact List.forall_mem_cons.2 ⟨here, ih there⟩

end FieldGroup

/-- What holds of each field that nests less deep than a selection set, under its own key, holds of
the fields of each group. -/
theorem all_of_mem_collectFields {p : String → Field → Prop} {typeName : String}
    {selections : List Selection}
    (h : ∀ field : Field, Selection.depthAll field.selections < Selection.depthAll selections →
      p field.responseKey field) {group : FieldGroup}
    (member : group ∈ collectFields typeName selections) : group.All p := by
  refine collectFields_keeps (P := fun groups => ∀ group ∈ groups, group.All p)
    (List.forall_mem_nil _) ?_ group member
  exact fun field groups deeper => FieldGroup.all_add (h field deeper)

/-- A group nests less deep than the selection set from which it is collected. -/
theorem depthAll_lt_of_mem_collectFields {typeName : String} {selections : List Selection}
    {group : FieldGroup} (member : group ∈ collectFields typeName selections) :
    Selection.depthAll group.selections < Selection.depthAll selections := by
  have within : group.All fun _ field =>
      Selection.depthAll field.selections < Selection.depthAll selections :=
    all_of_mem_collectFields (fun _ deeper => deeper) member
  exact FieldGroup.depthAll_selections_lt within.1 within.2

/-- A field, as it is selected. -/
def Field.selection (field : Field) : Selection :=
  .field field.aliasName field.name field.arguments field.selections

/-- Fields with the key of the one group that was collected join it in order. -/
theorem Collected.addAll_joins (typeName : String) (group : FieldGroup) {fields : List Field}
    (same : ∀ field ∈ fields, field.responseKey = group.key) :
    (addAll typeName { groups := [group] } (fields.map Field.selection)).groups =
      [{ group with more := group.more ++ fields }] := by
  induction fields generalizing group with
  | nil =>
    rw [List.append_nil]
    rfl
  | cons field rest ih =>
    obtain ⟨here, there⟩ := List.forall_mem_cons.1 same
    have step : add typeName { groups := [group] } field.selection =
        { groups := [{ group with more := group.more ++ [field] }] } := by
      simp [Field.selection, add, FieldGroup.add, here]
    rw [List.map_cons, addAll, step]
    refine (ih { group with more := group.more ++ [field] } there).trans ?_
    rw [List.append_assoc, List.singleton_append]

/-- The fields of a group, selected without the others, are collected into the group again. -/
theorem collectFields_fields {typeName : String} {selections : List Selection} {group : FieldGroup}
    (member : group ∈ collectFields typeName selections) :
    collectFields typeName ((group.first :: group.more).map Field.selection) = [group] := by
  have keyed : group.All fun key field => field.responseKey = key :=
    all_of_mem_collectFields (fun _ _ => rfl) member
  obtain ⟨first, more⟩ := keyed
  have start : Collected.add typeName {} group.first.selection =
      { groups := [{ group with more := [] }] } := by
    rw [← first]
    rfl
  rw [collectFields, List.map_cons, Collected.addAll, start]
  exact Collected.addAll_joins typeName { group with more := [] } more

/-- Selections that nest no fields collect none. -/
theorem collectFields_eq_nil (typeName : String) {selections : List Selection}
    (flat : Selection.depthAll selections = 0) : collectFields typeName selections = [] := by
  rw [List.eq_nil_iff_forall_not_mem]
  intro group member
  have := depthAll_lt_of_mem_collectFields member
  omega

/-- Induction on selection sets, one level of fields at a time: a selection set has the hypothesis
for the sub-selections of each group that is collected from it. -/
@[elab_as_elim]
theorem collectFields_induction {motive : List Selection → Prop}
    (level : ∀ selections, (∀ typeName, ∀ group ∈ collectFields typeName selections,
      motive group.selections) → motive selections)
    (selections : List Selection) : motive selections := by
  induction hdepth : Selection.depthAll selections using Nat.strongRecOn
    generalizing selections with
  | ind depth ih =>
    subst hdepth
    refine level selections fun typeName group member => ?_
    exact ih _ (depthAll_lt_of_mem_collectFields member) group.selections rfl

end GraphQL
