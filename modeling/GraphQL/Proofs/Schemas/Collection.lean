import GraphQL.Proofs.Schemas.WellFormed

/-!
# Collecting the definitions of a schema

Definitions are added to a draft one after the other. A draft has distinct names at every point, and
all definitions of a document can be added if and only if they are of the right kinds, there is at
most one schema block, and names are distinct within each type and among the types.
-/

set_option autoImplicit false

namespace GraphQL

namespace Schema

namespace Draft

variable {draft result : Draft}

/-- The types have distinct names, and none has that of a built-in scalar. -/
structure DistinctNames (draft : Draft) : Prop where
  names : (draft.types.map (·.name)).Nodup
  notBuiltin : ∀ type ∈ draft.types, ∀ scalar : BuiltinScalar, type.name ≠ scalar.name

/-- A draft with what a definition adds to it. -/
def extend (draft : Draft) (definition : Definition) : Draft where
  types := draft.types ++ definition.type?.toList
  roots := draft.roots <|> definition.roots?

/-- Fields pass if their names are distinct and new, and so are those of the arguments of each. -/
theorem checkFields_eq_ok_iff {typeName : String} {seen : List String}
    {fields : List FieldDefinition} :
    checkFields typeName seen fields = .ok () ↔
      (fields.map (·.name)).Nodup ∧ (∀ field ∈ fields, field.name ∉ seen) ∧
      ∀ field ∈ fields, (field.arguments.map (·.name)).Nodup := by
  induction fields generalizing seen with
  | nil => simp [checkFields]
  | cons field rest ih =>
    rw [checkFields]
    split
    · next argument repeated =>
      constructor
      · rintro ⟨⟩
      · rintro ⟨-, -, all⟩
        have unique := firstRepeated_nil_eq_none_iff.2 (all field List.mem_cons_self)
        rw [repeated] at unique
        cases unique
    · next unique =>
      have arguments := firstRepeated_nil_eq_none_iff.1 unique
      split
      · next repeated =>
        constructor
        · rintro ⟨⟩
        · rintro ⟨-, fresh, -⟩
          exact absurd (List.contains_iff_mem.1 repeated) (fresh field List.mem_cons_self)
      · next new =>
        have fresh : field.name ∉ seen := fun member => new (List.contains_iff_mem.2 member)
        rw [ih, List.map_cons, List.nodup_cons, List.forall_mem_cons, List.forall_mem_cons]
        simp only [List.mem_cons, not_or, List.mem_map, not_exists, not_and]
        constructor
        · rintro ⟨distinct, off, all⟩
          exact ⟨⟨fun other member => (off other member).1, distinct⟩,
            ⟨fresh, fun other member => (off other member).2⟩, arguments, all⟩
        · rintro ⟨⟨own, distinct⟩, ⟨-, off⟩, -, all⟩
          exact ⟨distinct, fun other member => ⟨own other member, off other member⟩, all⟩

/-- A type is added if the names remain distinct and off those of the built-in scalars. -/
theorem addType_eq_ok_iff (distinct : draft.DistinctNames) {type : TypeDefinition} :
    draft.addType type = .ok result ↔
      result.DistinctNames ∧ result = { draft with types := draft.types ++ [type] } := by
  have builtin : (BuiltinScalar.ofName? type.name).isSome = true ↔
      ∃ scalar : BuiltinScalar, type.name = scalar.name := by
    rw [BuiltinScalar.ofName?, List.find?_isSome]
    constructor
    · rintro ⟨scalar, -, same⟩
      exact ⟨scalar, (eq_of_beq same).symm⟩
    · rintro ⟨scalar, same⟩
      exact ⟨scalar, by cases scalar <;> decide, by simp [same]⟩
  have taken : draft.types.any (·.name == type.name) = true ↔
      type.name ∈ draft.types.map (·.name) := by
    simp [List.any_eq_true, List.mem_map]
  rw [addType]
  split
  · next repeated =>
    rw [Bool.or_eq_true, builtin, taken] at repeated
    constructor
    · rintro ⟨⟩
    · rintro ⟨still, rfl⟩
      rcases repeated with ⟨scalar, same⟩ | member
      · exact absurd same (still.notBuiltin type (by simp) scalar)
      · have nodup := still.names
        rw [List.map_append, List.nodup_append] at nodup
        exact absurd rfl (nodup.2.2 _ member _ (List.mem_singleton_self _))
  · next new =>
    rw [Bool.or_eq_true, builtin, taken, not_or] at new
    obtain ⟨own, new⟩ := new
    constructor
    · rintro ⟨⟩
      refine ⟨⟨?_, ?_⟩, rfl⟩
      · rw [List.map_append, List.map_singleton, ← List.concat_eq_append]
        exact distinct.names.concat new
      · intro other member scalar same
        rcases List.mem_append.1 member with before | last
        · exact distinct.notBuiltin other before scalar same
        · rw [List.mem_singleton.1 last] at same
          exact own ⟨scalar, same⟩
    · rintro ⟨-, rfl⟩
      rfl

/-- A definition of a type is added if its parts have distinct names and it can be added. -/
theorem add_eq_ok_iff_of_type {definition : Definition} {type : TypeDefinition}
    (declares : definition.type? = some type) :
    draft.add definition = .ok result ↔
      type.DistinctParts ∧ draft.addType type = .ok result := by
  cases definition with
  | scalar name =>
    cases declares
    simp [add, TypeDefinition.DistinctParts]
  | object object =>
    cases declares
    rw [add, Checks.then_eq_ok, checkFields_eq_ok_iff]
    simp [TypeDefinition.DistinctParts]
  | enum enum =>
    cases declares
    rw [add, TypeDefinition.DistinctParts, ← firstRepeated_nil_eq_none_iff]
    split <;> simp [*]
  | inputObject inputObject =>
    cases declares
    rw [add, TypeDefinition.DistinctParts, ← firstRepeated_nil_eq_none_iff]
    split <;> simp [*]
  | _ => cases declares

/-- A schema block is added if it is the first one and names no root of subscriptions. -/
theorem add_schema_eq_ok_iff {roots : List (OperationKind × String)} :
    draft.add (.schema roots) = .ok result ↔
      draft.roots = none ∧ (∀ root ∈ roots, root.1 ≠ .subscription) ∧
        result = { draft with roots := some roots } := by
  have subscription : roots.any (·.1 == .subscription) = true ↔
      ∃ root ∈ roots, root.1 = .subscription := by
    simp [List.any_eq_true]
  rw [add]
  split
  · next second =>
    obtain ⟨other, present⟩ := Option.isSome_iff_exists.1 second
    simp [present]
  split
  · next named =>
    obtain ⟨root, member, same⟩ := subscription.1 named
    constructor
    · rintro ⟨⟩
    · rintro ⟨-, all, -⟩
      exact absurd same (all root member)
  · next first allowed =>
    have fresh : draft.roots = none := by simpa using first
    constructor
    · rintro ⟨⟩
      exact ⟨fresh, fun root member same => allowed (subscription.2 ⟨root, member, same⟩), rfl⟩
    · rintro ⟨-, -, rfl⟩
      rfl

/-- What a definition has to be to be added to a draft. -/
theorem add_eq_ok_iff (distinct : draft.DistinctNames) {definition : Definition} :
    draft.add definition = .ok result ↔
      definition.IsTypeSystem ∧
      (∀ roots, definition.roots? = some roots →
        draft.roots = none ∧ ∀ root ∈ roots, root.1 ≠ .subscription) ∧
      (∀ type, definition.type? = some type → type.DistinctParts) ∧
      result.DistinctNames ∧ result = draft.extend definition := by
  cases declares : definition.type? with
  | some type =>
    have noRoots := Definition.roots?_eq_none_of_type? declares
    have extended : draft.extend definition = { draft with types := draft.types ++ [type] } := by
      simp [extend, declares, noRoots]
    rw [add_eq_ok_iff_of_type declares, addType_eq_ok_iff distinct, extended]
    simp [Definition.isTypeSystem_of_type? declares, noRoots]
  | none =>
    cases definition with
    | schema roots =>
      have extended : draft.extend (.schema roots) =
          { draft with roots := draft.roots <|> some roots } := by
        simp [extend, Definition.type?, Definition.roots?]
      rw [add_schema_eq_ok_iff, extended]
      constructor
      · rintro ⟨fresh, all, rfl⟩
        refine ⟨.schema roots, ?_, by simp, ⟨distinct.names, distinct.notBuiltin⟩, by simp [fresh]⟩
        rintro _ ⟨⟩
        exact ⟨fresh, all⟩
      · rintro ⟨-, block, -, -, rfl⟩
        obtain ⟨fresh, all⟩ := block roots rfl
        exact ⟨fresh, all, by simp [fresh]⟩
    | directive =>
      have extended : draft.extend .directive = draft := by
        simp [extend, Definition.type?, Definition.roots?]
      rw [add, extended]
      constructor
      · rintro ⟨⟩
        exact ⟨.directive, by simp [Definition.roots?], by simp, distinct, rfl⟩
      · rintro ⟨-, -, -, -, rfl⟩
        rfl
    | scalar | object | enum | inputObject => cases declares
    | _ =>
      constructor
      · rintro ⟨⟩
      · rintro ⟨⟨⟩, -⟩

/-- What holds of the items behind an optional first one and of it, holds of all. -/
theorem forall_mem_toList_append {α : Type} {first : Option α} {rest : List α} {p : α → Prop} :
    (∀ item ∈ first.toList ++ rest, p item) ↔
      (∀ item, first = some item → p item) ∧ ∀ item ∈ rest, p item := by
  rw [List.forall_mem_append]
  simp

/-- One block more is on record after a definition, if it is the first one. -/
theorem toList_roots_extend {definition : Definition}
    (first : ∀ roots, definition.roots? = some roots → draft.roots = none) :
    (draft.extend definition).roots.toList =
      draft.roots.toList ++ definition.roots?.toList := by
  cases present : definition.roots? with
  | none => simp [extend, present]
  | some roots => simp [extend, present, first roots present]

/-- What the definitions of a document have to be to be added to a draft. -/
theorem addAll_eq_ok_iff (distinct : draft.DistinctNames) (source : Document) :
    draft.addAll source = .ok result ↔
      (∀ definition ∈ source, definition.IsTypeSystem) ∧
      (draft.roots.toList ++ source.schemaBlocks).length ≤ 1 ∧
      (∀ roots ∈ source.schemaBlocks, ∀ root ∈ roots, root.1 ≠ .subscription) ∧
      (∀ type ∈ source.types, type.DistinctParts) ∧ result.DistinctNames ∧
      result = { types := draft.types ++ source.types
                 roots := (draft.roots.toList ++ source.schemaBlocks).head? } := by
  induction source generalizing draft with
  | nil =>
    have length : (draft.roots.toList ++ Document.schemaBlocks []).length ≤ 1 := by
      cases draft.roots <;> simp [Document.schemaBlocks]
    have same : draft = { types := draft.types ++ Document.types []
                          roots := (draft.roots.toList ++ Document.schemaBlocks []).head? } := by
      simp [Document.types, Document.schemaBlocks]
    rw [addAll, ← same]
    simp only [Except.ok.injEq]
    constructor
    · rintro rfl
      exact ⟨by simp, length, by simp [Document.schemaBlocks], by simp [Document.types], distinct,
        rfl⟩
    · rintro ⟨-, -, -, -, -, rfl⟩
      rfl
  | cons definition rest ih =>
    rw [addAll, Checks.bind_eq_ok, List.forall_mem_cons, Document.types_cons,
      Document.schemaBlocks_cons, ← List.append_assoc, ← List.append_assoc]
    rw [forall_mem_toList_append, forall_mem_toList_append]
    constructor
    · rintro ⟨added, here, others⟩
      obtain ⟨typeSystem, block, parts, stillDistinct, rfl⟩ := (add_eq_ok_iff distinct).1 here
      rw [ih stillDistinct, toList_roots_extend fun roots present => (block roots present).1]
        at others
      obtain ⟨typeSystems, blocks, subscriptions, allParts, final, rfl⟩ := others
      exact ⟨⟨typeSystem, typeSystems⟩, blocks,
        ⟨fun roots present => (block roots present).2, subscriptions⟩, ⟨parts, allParts⟩, final,
        rfl⟩
    · rintro ⟨⟨typeSystem, typeSystems⟩, blocks, ⟨subscription, subscriptions⟩, ⟨parts, allParts⟩,
        final, rfl⟩
      have first : ∀ roots, definition.roots? = some roots → draft.roots = none := by
        intro roots present
        cases earlier : draft.roots with
        | none => rfl
        | some other =>
          simp only [present, earlier, Option.toList_some, List.length_append,
            List.length_singleton] at blocks
          omega
      have stillDistinct : (draft.extend definition).DistinctNames := by
        refine ⟨?_, fun type member => final.notBuiltin type (List.mem_append_left _ member)⟩
        have nodup := final.names
        rw [List.map_append] at nodup
        exact nodup.of_append_left
      refine ⟨_, (add_eq_ok_iff distinct).2 ⟨typeSystem, fun roots present =>
        ⟨first roots present, subscription roots present⟩, parts, stillDistinct, rfl⟩, ?_⟩
      rw [ih stillDistinct, toList_roots_extend first]
      exact ⟨typeSystems, blocks, subscriptions, allParts, final, rfl⟩

end Draft

/-- The last root type for a kind of operation is the first one from the back. -/
theorem lastRoot?_eq {roots : List (OperationKind × String)} {kind : OperationKind} :
    lastRoot? roots kind = (roots.reverse.find? fun root => root.1 == kind).map Prod.snd := by
  rw [lastRoot?, List.getLast?_eq_head?_reverse, ← List.filter_reverse, List.head?_filter]

/-- Without a schema block, the root for a kind of operation is there if its type is. -/
theorem root?_of_no_block {source : Document} (noBlock : source.schemaBlocks = [])
    (kind : OperationKind) :
    source.root? kind =
      if source.schema.types.any (·.name == kind.render) then some kind.render else none := by
  have notBuiltin : (BuiltinScalar.all.map TypeDefinition.builtin).any (·.name == kind.render) =
      false := by
    cases kind <;> decide
  rw [Document.root?, noBlock]
  simp only [Document.schema, List.any_append, notBuiltin, Bool.false_or]
  cases found : source.types.find? fun type => type.name == kind.render with
  | none =>
    have absent : source.types.any (·.name == kind.render) = false := by
      simpa using found
    simp [absent]
  | some type =>
    have same := List.find?_some found
    have present : source.types.any (·.name == kind.render) = true :=
      List.any_eq_true.2 ⟨type, List.mem_of_find?_eq_some found, same⟩
    simpa [present] using same

/-- A draft of all definitions is a schema if a query root is named where there is a block. -/
theorem ofDraft_eq_ok_iff {source : Document} {result : Schema} :
    ofDraft { types := source.types, roots := source.schemaBlocks.head? } = .ok result ↔
      (source.schemaBlocks ≠ [] → (source.root? .query).isSome) ∧ result = source.schema := by
  cases blocks : source.schemaBlocks with
  | nil =>
    have name : (source.root? .query).getD OperationKind.query.render = "Query" := by
      rw [root?_of_no_block blocks]
      split <;> rfl
    have same : ofDraft { types := source.types, roots := none } = .ok source.schema := by
      conv_rhs => rw [Document.schema, name, root?_of_no_block blocks]
      rfl
    rw [List.head?_nil, same]
    constructor
    · rintro ⟨⟩
      exact ⟨fun block => absurd rfl block, rfl⟩
    · rintro ⟨-, rfl⟩
      rfl
  | cons roots rest =>
    have root : ∀ kind, source.root? kind = lastRoot? roots kind := by
      intro kind
      rw [Document.root?, blocks, lastRoot?_eq]
    cases last : lastRoot? roots .query with
    | none => simp [ofDraft, root, last]
    | some queryRoot =>
      have same : source.schema =
          { types := BuiltinScalar.all.map .builtin ++ source.types
            queryRoot
            mutationRoot := lastRoot? roots .mutation } := by
        simp [Document.schema, root, last]
      simp only [ofDraft, List.head?_cons, root, last, Option.isSome_some, implies_true, true_and]
      rw [Except.ok.injEq, eq_comm, same]

end Schema

end GraphQL
