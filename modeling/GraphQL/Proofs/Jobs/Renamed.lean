import GraphQL.Proofs.Jobs.Mapped
import GraphQL.Proofs.Positions.Renamed
import GraphQL.Proofs.Visits.Calls

/-!
# Runs with renamed keys

Where the calls of a registry do the same under renamed paths
(`Registry.IgnoresPaths.seen_perform`), a selection set and one with other aliases do the same, and
come to the same with renamed keys (`ExecutionScope.mirrors_selectionPlan`): that is followed
through the completion of a value, the fields of a group and the groups that are collected.
-/

set_option autoImplicit false

namespace GraphQL

/-- The resolvers of the registry do not look at the response path. -/
def Registry.IgnoresPaths {State : Type} (registry : Registry State) : Prop :=
  ∀ binding ∈ registry.bindings, ∀ call path,
    binding.resolver { call with path } = binding.resolver call

/-- Resolvers that ignore paths do the same for a call under other names. -/
theorem Registry.IgnoresPaths.seen_perform {State : Type} {registry : Registry State}
    (ignores : registry.IgnoresPaths) (timeout : Option Duration) (root : Renaming) (call : Call) :
    Job.Seen root.view (registry.perform timeout call)
      (registry.perform timeout (root.call call)) :=
  Registry.seen_perform root.plain_view registry timeout rfl rfl fun binding member =>
    ignores binding member call (root.path call.path)

/-- Whether a field may have its sub-selections does not depend on their aliases. -/
theorem Selection.RealiasedAll.checkSelection_eq {schema : Schema}
    {selections renamed : List Selection} (aliases : RealiasedAll selections renamed)
    (definition : FieldDefinition) :
    schema.checkSelection definition renamed = schema.checkSelection definition selections := by
  unfold Schema.checkSelection
  cases aliases <;> cases schema.object? definition.type.innermost <;> rfl

namespace ExecutionScope

variable {State : Type} {scope : ExecutionScope} {root here : Renaming} {base base' : Path}
  {perform : Call → Job State Outcome}

/-- A value that its type cannot represent is refused with the same error at the renamed path. -/
theorem mirrors_invalid (leads : root.Leads here base base') {field : FieldName} {type : TypeRef}
    {value : Json} {plan : Plan} (same : plan = .done (.invalid field base' type value)) :
    Plan.Mirrors root.view perform perform (root.completion here)
      (.done (.invalid field base type value)) plan := by
  rw [same]
  exact Plan.mirrors_done (Renaming.completion_invalid leads field type value).symm

/-- A value without keys is the same at the renamed path. -/
theorem mirrors_ok {value : Json} (plain : here.json value = value) {plan : Plan}
    (same : plan = .done (.ok value)) :
    Plan.Mirrors root.view perform perform (root.completion here) (.done (.ok value)) plan := by
  rw [same]
  exact Plan.mirrors_done (Renaming.completion_ok plain).symm

/-- Completing a value at a renamed path, where objects come to the same with renamed keys. Where
there are no objects nothing is renamed. -/
theorem mirrors_complete {field : FieldName} {object object' : ObjectType → Json → Path → Plan}
    {type : TypeRef}
    (nested : ∀ inner, scope.schema.object? type.innermost = some inner →
      ∀ value base base', root.Leads here base base' →
        Plan.Mirrors root.view perform perform (root.completion here) (object inner value base)
          (object' inner value base'))
    (leaf : scope.schema.object? type.innermost = none → here = .keep)
    (value : Json) (leads : root.Leads here base base') :
    Plan.Mirrors root.view perform perform (root.completion here)
      (scope.complete field object type value base)
      (scope.complete field object' type value base') := by
  -- along the completion of the value, which the plan with renamed keys goes along too
  fun_induction ExecutionScope.complete scope field object type value base generalizing base' with
  | case1 inner value base ih =>
    rw [complete]
    exact (ih nested leaf leads).map (Renaming.completion_require leads field)
  | case2 type base plain =>
    refine mirrors_ok here.json_null ?_
    cases type with
    | nonNull inner => exact absurd rfl (plain inner)
    | builtin | named | list => simp only [complete]
  | case3 item values base ih =>
    rw [complete]
    refine Plan.mirrors_group ?_ ?_ (Renaming.completion_ofItems root here)
    · rw [List.length_mapIdx, List.length_mapIdx]
    · intro i part part' found found'
      rw [List.getElem?_mapIdx] at found found'
      obtain ⟨value, inside, rfl⟩ := Option.map_eq_some_iff.1 found
      obtain ⟨value', inside', rfl⟩ := Option.map_eq_some_iff.1 found'
      cases inside.symm.trans inside'
      have item := ih i value nested leaf (leads.index i)
      dsimp only
      split
      · exact item
      · exact item.map Renaming.completion_absorb
  | case4 item value base present other =>
    refine mirrors_invalid leads ?_
    cases value with
    | null => exact absurd rfl present
    | array values => exact absurd rfl (other values)
    | bool | number | string | object => simp only [complete]
  | case5 scalar value base present written output =>
    refine mirrors_ok (Renaming.json_output output here) ?_
    simp only [complete, output]
  | case6 scalar value base present output =>
    refine mirrors_invalid leads ?_
    simp only [complete, output]
  | case7 name base type members found =>
    have same : scope.complete field object' (.named name) (.object members) base' =
        object' type (.object members) base' := by
      simp only [complete, found]
    rw [same]
    exact nested type (Schema.object?_eq_some_iff.2 found) _ _ _ leads
  | case8 name base type symbol found listed =>
    refine mirrors_ok (here.json_string symbol) ?_
    simp only [complete, found, if_pos listed]
  | case9 name base type symbol found other =>
    refine mirrors_invalid leads ?_
    simp only [complete, found, if_neg other]
  | case10 name base custom value found =>
    -- nothing is selected of a declared scalar, so that nothing in its value is renamed
    have plain : here = .keep := leaf (by simp only [TypeRef.innermost, Schema.object?, found])
    subst plain
    refine mirrors_ok (Renaming.json_keep value) ?_
    clear nested leaf
    simp_all [complete]
  | case11 name base value notObject notEnum notScalar =>
    refine mirrors_invalid leads ?_
    clear nested leaf
    simp_all [complete]

/-- What follows a call, with its result completed at a renamed path. -/
theorem mirrors_afterCall {field : FieldName} {object object' : ObjectType → Json → Path → Plan}
    {type : TypeRef}
    (nested : ∀ inner, scope.schema.object? type.innermost = some inner →
      ∀ value base base', root.Leads here base base' →
        Plan.Mirrors root.view perform perform (root.completion here) (object inner value base)
          (object' inner value base'))
    (leaf : scope.schema.object? type.innermost = none → here = .keep)
    (leads : root.Leads here base base') (outcome : Outcome) :
    Plan.Mirrors root.view perform perform (root.completion here)
      (scope.afterCall field object type base outcome)
      (scope.afterCall field object' type base' outcome) := by
  have missing : ∀ errors errors', errors.map root.error = errors' →
      Plan.Mirrors root.view perform perform (root.completion here) (.done (.missing type errors))
        (.done (.missing type errors')) := by
    rintro errors _ rfl
    exact Plan.mirrors_done (Renaming.completion_missing type errors).symm
  cases outcome with
  | value value =>
    have completed : Plan.Mirrors root.view perform perform (root.completion here)
        (scope.complete field object type value base)
        (scope.complete field object' type value base') :=
      mirrors_complete nested leaf value leads
    rw [afterCall, afterCall, completeValue, completeValue]
    split
    · exact completed
    · exact completed.map Renaming.completion_absorb
  | failed error =>
    exact missing _ _ (congrArg (fun error => [error]) (Renaming.error_report_field leads error))
  | timedOut after =>
    exact missing _ _ (congrArg (fun error => [error]) (Renaming.error_report leads _))
  | unbound cause =>
    exact missing _ _ (congrArg (fun error => [error]) (Renaming.error_report leads _))
  | aborted => exact missing [] [] rfl

/-- The fields of a group and those of the group with other aliases. -/
theorem mirrors_fieldPlan
    (calls : ∀ call, Job.Seen root.view (perform call) (perform (root.call call)))
    {nested : List Selection → ObjectType → Json → Path → Plan} {type : ObjectType}
    {key : String → String} {below : String → Renaming} {group group' : FieldGroup}
    (same : group.Renamed key group') (leaf : group.selections = [] → below group.key = .keep)
    (inside : group.selections ≠ [] → ∀ definition inner,
      type.field? group.first.name = some definition →
        scope.schema.object? definition.type.innermost = some inner →
          ∀ value base base', root.Leads (below group.key) base base' →
            Plan.Mirrors root.view perform perform (root.completion (below group.key))
              (nested group.selections inner value base)
              (nested group'.selections inner value base'))
    (parent : Json) (leads : root.Leads (.keys key below) base base') :
    Plan.Mirrors root.view perform perform (root.completion (below group.key))
      (scope.fieldPlan nested type parent base group)
      (scope.fieldPlan nested type parent base' group') := by
  have here := same.key ▸ leads.key group.key
  -- a field that is not called is missing at the renamed path, for the same reason
  have refused : ∀ (definition : FieldDefinition) {α : Type} [Reportable α] (cause : α),
      Plan.Mirrors root.view perform perform (root.completion (below group.key))
        (.done (.missing definition.type [Reportable.report (base.join (.key group.key)) cause]))
        (.done (.missing definition.type
          [Reportable.report (base'.join (.key group'.key)) cause])) := by
    intro definition α _ cause
    apply Plan.mirrors_done
    rw [Renaming.completion_missing, List.map_singleton, Renaming.error_report here]
  unfold fieldPlan
  simp only [same.name, same.arguments]
  split
  · exact mirrors_ok (Renaming.json_string _ _) rfl
  · split
    · apply Plan.mirrors_done
      simp [Renaming.completion, Renaming.error_report here]
    · next definition found =>
      have checked : scope.schema.checkSelection definition group'.selections =
          scope.schema.checkSelection definition group.selections :=
        same.selections.checkSelection_eq definition
      rw [checked]
      split
      · exact refused definition _
      · next accepted =>
        split
        · exact refused definition _
        · next arguments coerced =>
          have sub := Marking.checkSelection_eq_none_iff.1 accepted
          refine Plan.mirrors_call ?_ fun outcome => mirrors_afterCall ?_ ?_ here outcome
          · have moved := calls { parent, arguments, path := base.join (.key group.key),
                                  typeName := type.name, fieldName := group.first.name }
            rwa [Renaming.call, here.path_eq] at moved
          · intro inner object
            refine inside (sub.2 ?_) definition inner found object
            rw [object, Option.isSome_some]
          · intro none
            refine leaf (by_contra fun selected => ?_)
            rw [none] at sub
            exact absurd (sub.1 selected) Bool.false_ne_true

/-- A selection set and one with other aliases do the same, and come to the same with renamed
keys. -/
theorem mirrors_selectionPlan
    (calls : ∀ call, Job.Seen root.view (perform call) (perform (root.call call)))
    {type : ObjectType} {selections renamed : List Selection}
    (aliases : Selection.RealiasedAll selections renamed)
    (renames : Selection.Renames scope.schema here type selections renamed) (depth : Nat)
    (serial : Bool) (parent : Json) (leads : root.Leads here base base') :
    Plan.Mirrors root.view perform perform (root.completion here)
      (scope.selectionPlan depth serial selections type parent base)
      (scope.selectionPlan depth serial renamed type parent base') := by
  induction depth generalizing here base base' type selections renamed serial parent with
  | zero => exact Plan.mirrors_done (by cases renames; rfl)
  | succ depth ih =>
    cases renames with
    | @keys key below _ _ _ mapped distinct leaf inside =>
      have groups := forall₂_renamed_collectFields aliases mapped distinct
      have names : (collectFields type.name renamed).map (·.key) =
          ((collectFields type.name selections).map (·.key)).map key := by
        rw [List.map_map, eq_comm, ← List.forall₂_eq_eq_eq]
        exact List.forall₂_map_left_iff.2 (List.forall₂_map_right_iff.2
          (groups.imp fun _ _ same => same.key.symm))
      rw [selectionPlan, selectionPlan, names]
      refine Plan.mirrors_group ?_ ?_ (Renaming.completion_ofFields root key below _)
      · rw [List.length_map, List.length_map, groups.length_eq]
      · intro i part part' found found'
        rw [List.getElem?_map] at found found'
        obtain ⟨group, member, rfl⟩ := Option.map_eq_some_iff.1 found
        obtain ⟨group', member', rfl⟩ := Option.map_eq_some_iff.1 found'
        have place : ((collectFields type.name selections).map (·.key))[i]? = some group.key := by
          rw [List.getElem?_map, member, Option.map_some]
        obtain ⟨bound, rfl⟩ := List.getElem?_eq_some_iff.1 member
        obtain ⟨bound', rfl⟩ := List.getElem?_eq_some_iff.1 member'
        have same := groups.get bound bound'
        rw [place]
        refine mirrors_fieldPlan calls same ?_ ?_ parent leads
        · exact leaf _ (List.getElem_mem bound)
        · intro selected definition inner found object value base base' leads
          exact ih same.selections (inside _ (List.getElem_mem bound) selected _
            (List.getElem_mem bound') same.key definition inner found object) _ value leads

end ExecutionScope

end GraphQL
