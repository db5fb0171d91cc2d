import GraphQL.Proofs.Selections.Collected
import GraphQL.Proofs.Selections.Merging

/-!
# Repetitions at any depth

A selection set somewhere in an operation may be changed in two ways: the fields of a response key
are merged, or a copy of a field is added (`Selection.Changes`). The change may stand inside inline
fragments and inside fields. The fields around a selection set decide which groups its fields belong
to, so one follows the groups that are collected on the way down: those of the selection set that is
changed are alike, and those above it differ in their sub-selections alone, in what does the same
(`Selection.Changes.selectionPlan_eq`).
-/

set_option autoImplicit false

namespace GraphQL

namespace Selection

/-- A change in some selections that are a part of all those that are executed for an object of some
type: the fields of a response key are merged, or a copy of a field is added. It is made in the
selections themselves, in an inline fragment that applies, or in a field whose group is executed for
an object. -/
inductive Changes (schema : Schema) :
    ObjectType → List Selection → List Selection → List Selection → Prop
  | merge {type : ObjectType} {whole selections : List Selection} (key : String) :
    Changes schema type whole selections (mergeKey type.name key selections)
  | copy {type : ObjectType} {whole selections changed : List Selection}
    (h : Copies type.name [] selections changed) : Changes schema type whole selections changed
  | fragment {type : ObjectType} {whole selections changed : List Selection}
    {condition : Option String} (front back : List Selection)
    (applies : condition.all (· == type.name) = true)
    (inside : Changes schema type whole selections changed) :
    Changes schema type whole (front ++ .inlineFragment condition selections :: back)
      (front ++ .inlineFragment condition changed :: back)
  | field {type inner : ObjectType} {whole selections changed : List Selection} {group : FieldGroup}
    {aliasName : Option String} {name : String} {arguments : List (String × Literal)}
    {definition : FieldDefinition} (front back : List Selection)
    (collected : group ∈ collectFields type.name whole) (key : group.key = aliasName.getD name)
    (declared : type.field? group.first.name = some definition)
    (object : schema.object? definition.type.innermost = some inner)
    (inside : Changes schema inner group.selections selections changed) :
    Changes schema type whole (front ++ .field aliasName name arguments selections :: back)
      (front ++ .field aliasName name arguments changed :: back)

namespace Changes

variable {schema : Schema} {type : ObjectType} {whole selections changed : List Selection}

/-- A change neither empties a selection set nor fills one. -/
theorem isEmpty_eq (changes : Changes schema type whole selections changed) :
    changed.isEmpty = selections.isEmpty := by
  cases changes with
  | merge key => exact isEmpty_mergeKey _ _ _
  | copy h => exact h.isEmpty_eq
  | fragment front back => cases front <;> rfl
  | field front back => cases front <;> rfl

/-- A change leaves fragments inline. -/
theorem inlineAll (changes : Changes schema type whole selections changed) :
    InlineAll selections → InlineAll changed := by
  induction changes with
  | merge key => exact InlineAll.mergeKey
  | copy h => exact h.inlineAll
  | fragment front back applies inside ih =>
    intro inline
    obtain ⟨before, here, after⟩ := inlineAll_append.1 inline
    rw [Inline] at here
    exact inlineAll_append.2 ⟨before, by rw [Inline]; exact ih here, after⟩
  | field front back collected key declared object inside ih =>
    intro inline
    obtain ⟨before, here, after⟩ := inlineAll_append.1 inline
    rw [Inline] at here
    exact inlineAll_append.2 ⟨before, by rw [Inline]; exact ih here, after⟩

end Changes

/-- A fragment that applies selects what stands in it, in its place. -/
theorem flattenAll_fragment {typeName : String} {condition : Option String}
    (applies : condition.all (· == typeName) = true) (front selections back : List Selection) :
    flattenAll typeName (front ++ .inlineFragment condition selections :: back) =
      flattenAll typeName front ++ flattenAll typeName selections ++ flattenAll typeName back := by
  rw [flattenAll_append, flattenAll, flatten, if_pos applies, List.append_assoc]

/-- A field is selected in its place. -/
theorem flattenAll_field (typeName : String) (field : Field) (front back : List Selection) :
    flattenAll typeName
        (front ++ .field field.aliasName field.name field.arguments field.selections :: back) =
      flattenAll typeName front ++ field :: flattenAll typeName back := by
  rw [flattenAll_append, flattenAll, flatten]
  rfl

/-- The sub-selections of a group that is collected are written with inline fragments too. -/
theorem InlineAll.of_mem_collectFields {typeName : String} {selections : List Selection}
    (inline : InlineAll selections) {group : FieldGroup}
    (member : group ∈ collectFields typeName selections) : InlineAll group.selections := by
  rw [inline.collectFields_eq] at member
  rw [group.selections_eq, FieldGroup.fields_of_mem_ofFields member]
  exact inlineAll_flatMap fun _ inside => inline.of_mem_flattenAll (List.mem_filter.1 inside).1

end Selection

namespace ExecutionScope

variable {scope : ExecutionScope} {type : ObjectType} {depth : Nat}

/-- Groups that do the same to an object of some type, where fields nest at most so deep in their
sub-selections. -/
structure Agree (scope : ExecutionScope) (type : ObjectType) (depth : Nat)
    (group other : FieldGroup) : Prop where
  key : group.key = other.key
  name : group.first.name = other.first.name
  arguments : group.first.arguments = other.first.arguments
  empty : group.selections.isEmpty = other.selections.isEmpty
  below : ∀ definition inner, type.field? group.first.name = some definition →
    scope.schema.object? definition.type.innermost = some inner →
      scope.selectionPlan depth (!scope.parallel) group.selections inner =
        scope.selectionPlan depth (!scope.parallel) other.selections inner

namespace Agree

variable {group other : FieldGroup}

/-- Groups of fields that are alike agree in all scopes. -/
theorem of_alike (alike : group.Alike other) : scope.Agree type depth group other :=
  { alike with
    empty := by rw [alike.selections]
    below := fun _ _ _ _ => by rw [alike.selections] }

/-- A group whose fields are repeated does the same. -/
theorem of_repeats (key : other.key = group.key) (first : other.first = group.first)
    (more : Repeats [group.first] group.more other.more)
    (inline : Selection.InlineAll other.selections) : scope.Agree type depth group other := by
  have fields : Repeats [] (group.first :: group.more) (group.first :: other.more) := .keep more
  have repeats : Repeats [] group.selections other.selections := by
    rw [FieldGroup.selections, FieldGroup.selections, first]
    exact fields.flatMap (·.selections)
  refine ⟨key.symm, by rw [first], by rw [first], repeats.isEmpty_eq, fun _ inner _ _ => ?_⟩
  rw [selectionPlan_expandAll depth _ (inline.carriesAll fun _ => ("", [])) repeats,
    inline.expandAll_eq]

end Agree

/-- The groups of a selection set agree with those of one that selects some fields again. -/
theorem forall₂_agree_repeats {selections changed : List Selection}
    (inline : Selection.InlineAll selections) (inline' : Selection.InlineAll changed)
    (repeats : Repeats [] (Selection.flattenAll type.name selections)
      (Selection.flattenAll type.name changed)) :
    List.Forall₂ (scope.Agree type depth) (collectFields type.name selections)
      (collectFields type.name changed) := by
  have same := FieldGroup.forall₂_ofFields repeats
  rw [← inline.collectFields_eq, ← inline'.collectFields_eq] at same
  have inside := (List.forall₂_and_left _ _).2 ⟨fun _ => inline'.of_mem_collectFields, same.flip⟩
  refine List.Forall₂.flip (inside.imp ?_)
  rintro other group ⟨inside, key, first, more⟩
  exact .of_repeats key first more inside

/-- Where one field has other sub-selections, its group has them in their place and the other groups
stay. -/
theorem forall₂_agree_replaced {front back : List Field} {field : Field} {changed : List Selection}
    (empty : changed.isEmpty = field.selections.isEmpty)
    (below : ∀ group ∈ FieldGroup.ofFields (front ++ field :: back), group.key = field.responseKey →
      ∀ left right, group.selections = left ++ field.selections ++ right →
      ∀ definition inner, type.field? group.first.name = some definition →
        scope.schema.object? definition.type.innermost = some inner →
          scope.selectionPlan depth (!scope.parallel) group.selections inner =
            scope.selectionPlan depth (!scope.parallel) (left ++ changed ++ right) inner) :
    List.Forall₂ (scope.Agree type depth) (FieldGroup.ofFields (front ++ field :: back))
      (FieldGroup.ofFields (front ++ { field with selections := changed } :: back)) := by
  -- response keys stay, so that groups go together and only that of the field is another one
  have keys : (front ++ field :: back).map (·.responseKey) =
      (front ++ { field with selections := changed } :: back).map (·.responseKey) := by
    simp only [List.map_append, List.map_cons, Field.responseKey]
  have groups := (List.forall₂_and_left _ _).2
    ⟨fun _ => id, FieldGroup.forall₂_of_keys (congrArg List.eraseDups keys)⟩
  refine groups.imp ?_
  rintro group other ⟨member, key, fields, others⟩
  by_cases own : field.hasKey group.key = true
  · have own' : Field.hasKey group.key { field with selections := changed } = true := own
    rw [List.filter_append, List.filter_cons_of_pos own] at fields
    rw [List.filter_append, List.filter_cons_of_pos own'] at others
    have first : (group.first :: group.more).head?.map (fun field => (field.name, field.arguments)) =
        (other.first :: other.more).head?.map fun field => (field.name, field.arguments) := by
      rw [fields, others, List.head?_append, List.head?_append, Option.map_or, Option.map_or]
      rfl
    have first := Option.some.inj first
    have merged := group.selections_eq
    have merged' := other.selections_eq
    rw [fields, List.flatMap_append, List.flatMap_cons, ← List.append_assoc] at merged
    rw [others, List.flatMap_append, List.flatMap_cons, ← List.append_assoc] at merged'
    refine ⟨key.symm, congrArg Prod.fst first, congrArg Prod.snd first, ?_,
      fun definition inner declared object => ?_⟩
    · rw [Bool.eq_iff_iff, List.isEmpty_iff, List.isEmpty_iff] at empty ⊢
      simp only [merged, merged', List.append_eq_nil_iff, empty]
    · rw [merged']
      exact below group member (eq_of_beq own) _ _ merged definition inner declared object
  · have own' : ¬ Field.hasKey group.key { field with selections := changed } = true := own
    rw [List.filter_append, List.filter_cons_of_neg own, ← List.filter_append] at fields
    rw [List.filter_append, List.filter_cons_of_neg own', ← List.filter_append, ← fields] at others
    refine .of_alike (.of_fields key ?_)
    rw [others]
    exact .refl _

/-- Selection sets do the same to an object if the groups that are collected from them agree. -/
theorem selectionPlan_congr {selections changed : List Selection}
    (agree : ∀ depth, List.Forall₂ (scope.Agree type depth) (collectFields type.name selections)
      (collectFields type.name changed)) (depth : Nat) (serial : Bool) :
    scope.selectionPlan depth serial selections type =
      scope.selectionPlan depth serial changed type := by
  cases depth with
  | zero => rfl
  | succ depth =>
    funext parent path
    rw [selectionPlan, selectionPlan]
    congr 1
    · refine map_eq_map_of_forall₂ (fun group other same => ?_) (agree depth)
      exact fieldPlan_congr same.key same.name same.arguments same.empty same.below parent path
    · exact congrArg _ (map_eq_map_of_forall₂ (fun _ _ same => same.key) (agree depth))

end ExecutionScope

namespace Selection.Changes

variable {scope : ExecutionScope} {type : ObjectType} {whole selections changed : List Selection}

/-- The groups that are collected agree, whatever else is selected before the selections that are
changed and after them. -/
theorem agree (changes : Changes scope.schema type whole selections changed) :
    ∀ {whole' : List Selection} (front back : List Field) (depth : Nat),
      InlineAll whole → InlineAll selections → InlineAll whole' →
      flattenAll type.name whole = front ++ flattenAll type.name selections ++ back →
      flattenAll type.name whole' = front ++ flattenAll type.name changed ++ back →
      List.Forall₂ (scope.Agree type depth) (collectFields type.name whole)
        (collectFields type.name whole') := by
  induction changes with
  | merge key =>
    intro whole' front back depth inline part inline' split split'
    rw [inline.collectFields_eq, inline'.collectFields_eq, split, split']
    exact (FieldGroup.forall₂_mergeKey key part front back).imp fun _ _ => .of_alike
  | copy copies =>
    intro whole' front back depth inline part inline' split split'
    refine ExecutionScope.forall₂_agree_repeats inline inline' ?_
    rw [split, split']
    exact ((Repeats.refl _ _).append (copies.repeats.mono (List.nil_subset _))).append (.refl _ _)
  | @fragment type _ _ _ _ before after applies inside ih =>
    intro whole' front back depth inline part inline' split split'
    obtain ⟨-, here, -⟩ := inlineAll_append.1 part
    rw [Inline] at here
    rw [flattenAll_fragment applies] at split split'
    refine ih (front ++ flattenAll type.name before) (flattenAll type.name after ++ back) depth
      inline here inline' ?_ ?_
    · rw [split]
      simp only [List.append_assoc]
    · rw [split']
      simp only [List.append_assoc]
  | @field type inner whole selections changed group aliasName name arguments definition before after
      collected key declared object inside ih =>
    intro whole' front back depth inline part inline' split split'
    obtain ⟨-, here, -⟩ := inlineAll_append.1 part
    rw [Inline] at here
    have groups : collectFields type.name whole = _ := inline.collectFields_eq
    rw [split, flattenAll_field type.name ⟨aliasName, name, arguments, selections⟩,
      ← List.append_assoc, List.append_assoc _ _ back, List.cons_append] at groups
    rw [inline'.collectFields_eq, split',
      flattenAll_field type.name ⟨aliasName, name, arguments, changed⟩,
      ← List.append_assoc, List.append_assoc _ _ back, List.cons_append, groups]
    refine ExecutionScope.forall₂_agree_replaced inside.isEmpty_eq ?_
    intro other member own left right merged definition' inner' declared' object'
    -- only one group has the key, and that group is executed for objects of one type
    rw [← groups] at member
    obtain rfl : other = group :=
      List.inj_on_of_nodup_map (nodup_keys_collectFields _ _) member collected (own.trans key.symm)
    cases declared.symm.trans declared'
    cases object.symm.trans object'
    have within := inline.of_mem_collectFields collected
    have within' : InlineAll (left ++ changed ++ right) := by
      rw [merged, inlineAll_append, inlineAll_append] at within
      rw [inlineAll_append, inlineAll_append]
      exact ⟨⟨within.1.1, inside.inlineAll here⟩, within.2⟩
    refine ExecutionScope.selectionPlan_congr (fun depth => ?_) depth _
    refine ih (flattenAll inner.name left) (flattenAll inner.name right) depth within here within'
      ?_ ?_
    · rw [merged, flattenAll_append, flattenAll_append]
    · rw [flattenAll_append, flattenAll_append]

/-- A selection set does the same to an object after a change. -/
theorem selectionPlan_eq (changes : Changes scope.schema type whole whole changed)
    (inline : InlineAll whole) (depth : Nat) (serial : Bool) :
    scope.selectionPlan depth serial whole type = scope.selectionPlan depth serial changed type := by
  refine ExecutionScope.selectionPlan_congr (fun depth => ?_) depth serial
  refine changes.agree [] [] depth inline inline (changes.inlineAll inline) ?_ ?_
  · rw [List.append_nil, List.nil_append]
  · rw [List.append_nil, List.nil_append]

end Selection.Changes

end GraphQL
