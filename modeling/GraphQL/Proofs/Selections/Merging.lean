import GraphQL.Proofs.Selections.Inlining

/-!
# Repeated response keys

The fields of one response key that a selection set selects of an object can be written as one: the
first of them, with the sub-selections of all of them in order (`Selection.mergeKey`). The fields
that are collected then come to groups with the same keys, names and arguments, and the same
sub-selections (`FieldGroup.forall₂_mergeKey`). A copy of a field that a selection set holds already
may be added later on (`Selection.Copies`).
-/

set_option autoImplicit false

namespace GraphQL

namespace Selection

mutual

/-- What is left of a selection without the fields of a response key that it selects of an object of
some type. Fragments that are left with nothing are left out. -/
def without (typeName key : String) : Selection → List Selection
  | .field aliasName name arguments selections =>
    if key == aliasName.getD name then [] else [.field aliasName name arguments selections]
  | .inlineFragment condition selections =>
    if condition.all (· == typeName) then
      match withoutAll typeName key selections with
      | [] => []
      | left => [.inlineFragment condition left]
    else [.inlineFragment condition selections]
  | .fragmentSpread name condition selections => [.fragmentSpread name condition selections]

/-- What is left of a selection set without the fields of a response key. -/
def withoutAll (typeName key : String) : List Selection → List Selection
  | [] => []
  | selection :: rest => without typeName key selection ++ withoutAll typeName key rest

end

mutual

/-- A selection whose first field of a response key has other sub-selections, and that has no other
field of the key. -/
def mergeFirst (typeName key : String) (merged : List Selection) : Selection → Selection
  | .field aliasName name arguments _ => .field aliasName name arguments merged
  | .inlineFragment condition selections =>
    .inlineFragment condition (mergeFirstAll typeName key merged selections)
  | .fragmentSpread name condition selections => .fragmentSpread name condition selections

/-- A selection set whose first field of a response key has other sub-selections, and that has no
other field of the key. -/
def mergeFirstAll (typeName key : String) (merged : List Selection) :
    List Selection → List Selection
  | [] => []
  | selection :: rest =>
    if (selection.flatten typeName).any (Field.hasKey key) then
      mergeFirst typeName key merged selection :: withoutAll typeName key rest
    else selection :: mergeFirstAll typeName key merged rest

end

end Selection

/-- Fields of which the first one of a response key has other sub-selections, and stands for the
later ones of the key. -/
def Field.mergeFirst (key : String) (merged : List Selection) : List Field → List Field
  | [] => []
  | field :: rest =>
    if field.hasKey key then
      { field with selections := merged } :: rest.filter fun other => !other.hasKey key
    else field :: mergeFirst key merged rest

namespace Selection

/-- The sub-selections of all fields of a response key that a selection set selects of an object of
some type, in order. -/
def mergedSelections (typeName key : String) (selections : List Selection) : List Selection :=
  ((flattenAll typeName selections).filter (Field.hasKey key)).flatMap (·.selections)

/-- A selection set in which the first field of a response key stands for all of them, with their
sub-selections put together. -/
def mergeKey (typeName key : String) (selections : List Selection) : List Selection :=
  mergeFirstAll typeName key (mergedSelections typeName key selections) selections

/-- A copy of one of some fields is added to a selection set, or of a field that stands in it
earlier. The copy stands alone or inside inline fragments that apply. -/
inductive Copies (typeName : String) : List Field → List Selection → List Selection → Prop
  | copy {held : List Field} {selection : Selection} {rest : List Selection} {field : Field}
    (known : field ∈ held) (inline : selection.Inline)
    (same : selection.flatten typeName = [field]) :
    Copies typeName held rest (selection :: rest)
  | later {held : List Field} {selection : Selection} {rest changed : List Selection}
    (h : Copies typeName (held ++ selection.flatten typeName) rest changed) :
    Copies typeName held (selection :: rest) (selection :: changed)
  | inside {held : List Field} {condition : Option String} {selections changed : List Selection}
    {rest : List Selection} (applies : condition.all (· == typeName) = true)
    (h : Copies typeName held selections changed) :
    Copies typeName held (.inlineFragment condition selections :: rest)
      (.inlineFragment condition changed :: rest)

section Flattened

variable (typeName key : String)

mutual

/-- Without the fields of a key, the fields of other keys are left. -/
theorem flattenAll_without :
    (selection : Selection) → selection.Inline →
      flattenAll typeName (without typeName key selection) =
        (selection.flatten typeName).filter fun field => !field.hasKey key
  | .field aliasName name arguments selections, _ => by
    rw [without, flatten]
    split
    · next same =>
      rw [List.filter_cons_of_neg (by simpa [Field.hasKey, Field.responseKey] using same)]
      rfl
    · next other =>
      rw [List.filter_cons_of_pos (by simpa [Field.hasKey, Field.responseKey] using other)]
      rfl
  | .inlineFragment condition selections, inline => by
    rw [Inline] at inline
    rw [without, flatten]
    split
    · next applies =>
      rw [← flattenAll_withoutAll selections inline]
      split
      · next none => rw [none]
      · rw [flattenAll, flatten, if_pos applies, flattenAll, List.append_nil]
    · next other =>
      rw [flattenAll, flatten, if_neg other]
      rfl
  | .fragmentSpread _ _ _, inline => (not_inline_spread inline).elim

/-- What is left without a response key selects the fields of the other keys. -/
theorem flattenAll_withoutAll :
    (selections : List Selection) → InlineAll selections →
      flattenAll typeName (withoutAll typeName key selections) =
        (flattenAll typeName selections).filter fun field => !field.hasKey key
  | [], _ => rfl
  | selection :: rest, inline => by
    rw [InlineAll] at inline
    rw [withoutAll, flattenAll_append, flattenAll_without selection inline.1,
      flattenAll_withoutAll rest inline.2, flattenAll, List.filter_append]

end

end Flattened

end Selection

namespace Field

variable {key : String} {merged : List Selection}

/-- Where the fields in front do not have the key, the first one with it is further on. -/
theorem mergeFirst_append (fields others : List Field) :
    mergeFirst key merged (fields ++ others) =
      if fields.any (hasKey key) then
        mergeFirst key merged fields ++ others.filter fun other => !other.hasKey key
      else fields ++ mergeFirst key merged others := by
  induction fields with
  | nil => rfl
  | cons field rest ih =>
    rw [List.cons_append, mergeFirst, mergeFirst, List.any_cons]
    by_cases same : field.hasKey key = true
    · rw [if_pos same, if_pos same, if_pos (by rw [same, Bool.true_or]), List.filter_append]
      rfl
    · rw [if_neg same, if_neg same, Bool.eq_false_iff.2 same, Bool.false_or, ih]
      split <;> rfl

/-- Among the fields of another key nothing changes. -/
theorem filter_mergeFirst_of_ne {other : String} (differs : other ≠ key) (fields : List Field) :
    (mergeFirst key merged fields).filter (hasKey other) = fields.filter (hasKey other) := by
  induction fields with
  | nil => rfl
  | cons field rest ih =>
    rw [mergeFirst]
    split
    · next same =>
      have key : key = field.responseKey := eq_of_beq same
      have mine : ¬ field.hasKey other = true := by simpa [hasKey, ← key] using differs
      have merged : ¬ hasKey other { field with selections := merged } = true := mine
      rw [List.filter_cons_of_neg merged, List.filter_cons_of_neg mine, List.filter_filter]
      apply List.filter_congr
      intro next _
      by_cases same : other = next.responseKey
      · simp [hasKey, ← same, Ne.symm differs]
      · simp [hasKey, same]
    · rw [List.filter_cons, List.filter_cons, ih]

/-- Of the fields of the key the first one is left, with the other sub-selections. -/
theorem filter_mergeFirst (fields : List Field) :
    (mergeFirst key merged fields).filter (hasKey key) =
      (fields.filter (hasKey key)).head?.toList.map fun field =>
        { field with selections := merged } := by
  induction fields with
  | nil => rfl
  | cons field rest ih =>
    rw [mergeFirst]
    by_cases same : field.hasKey key = true
    · have kept : hasKey key { field with selections := merged } = true := same
      rw [if_pos same, List.filter_cons_of_pos kept, List.filter_cons_of_pos same,
        List.filter_filter]
      simp
    · rw [if_neg same, List.filter_cons_of_neg same, List.filter_cons_of_neg same, ih]

/-- The keys are those of the merged fields with repetitions. -/
theorem repeats_keys_mergeFirst (seen : List String) (fields : List Field) :
    Repeats seen ((mergeFirst key merged fields).map (·.responseKey))
      (fields.map (·.responseKey)) := by
  induction fields generalizing seen with
  | nil => exact .nil
  | cons field rest ih =>
    rw [mergeFirst]
    split
    · next same =>
      refine .keep (Repeats.map_filter fun other _ out => ?_)
      have key : key = other.responseKey := by simpa [hasKey] using out
      rw [← key, eq_of_beq same]
      exact List.mem_cons_self
    · exact .keep (ih _)

end Field

namespace Selection

section Merged

variable (typeName key : String) (merged : List Selection)

mutual

/-- Where a selection has fields of a key, its fields are merged as those are that it selects. -/
theorem flatten_mergeFirst :
    (selection : Selection) → selection.Inline →
      (selection.flatten typeName).any (Field.hasKey key) = true →
      (mergeFirst typeName key merged selection).flatten typeName =
        Field.mergeFirst key merged (selection.flatten typeName)
  | .field aliasName name arguments selections, _, has => by
    rw [flatten, List.any_cons, List.any_nil, Bool.or_false] at has
    rw [mergeFirst, flatten, flatten, Field.mergeFirst, if_pos has]
    rfl
  | .inlineFragment condition selections, inline, has => by
    rw [Inline] at inline
    rw [flatten] at has
    split at has
    · next applies =>
      rw [mergeFirst, flatten, if_pos applies, flatten, if_pos applies,
        flattenAll_mergeFirstAll selections inline]
    · cases has
  | .fragmentSpread _ _ _, inline, _ => (not_inline_spread inline).elim

/-- Where the first field of a response key stands for all of them, so it does among the fields that
are selected. -/
theorem flattenAll_mergeFirstAll :
    (selections : List Selection) → InlineAll selections →
      flattenAll typeName (mergeFirstAll typeName key merged selections) =
        Field.mergeFirst key merged (flattenAll typeName selections)
  | [], _ => rfl
  | selection :: rest, inline => by
    rw [InlineAll] at inline
    rw [mergeFirstAll, flattenAll, Field.mergeFirst_append]
    split
    · next has =>
      rw [flattenAll, flatten_mergeFirst selection inline.1 has,
        flattenAll_withoutAll typeName key rest inline.2]
    · rw [flattenAll, flattenAll_mergeFirstAll rest inline.2]

end

end Merged

section Inline

variable {typeName key : String}

mutual

/-- Leaving fields out leaves fragments inline. -/
theorem Inline.without :
    {selection : Selection} → selection.Inline →
      InlineAll (Selection.without typeName key selection)
  | .field _ _ _ _, inline => by
    rw [Selection.without]
    split
    · trivial
    · exact ⟨inline, trivial⟩
  | .inlineFragment _ selections, inline => by
    rw [Selection.without]
    split
    · rw [Inline] at inline
      have left := inline.withoutAll
      split
      · trivial
      · exact ⟨left, trivial⟩
    · exact ⟨inline, trivial⟩
  | .fragmentSpread _ _ _, inline => (not_inline_spread inline).elim

/-- Leaving fields out of a selection set leaves fragments inline. -/
theorem InlineAll.withoutAll :
    {selections : List Selection} → InlineAll selections →
      InlineAll (Selection.withoutAll typeName key selections)
  | [], _ => trivial
  | _ :: _, inline => by
    rw [InlineAll] at inline
    rw [Selection.withoutAll, inlineAll_append]
    exact ⟨inline.1.without, inline.2.withoutAll⟩

end

mutual

/-- Merging into the first field of a key leaves fragments inline. -/
theorem Inline.mergeFirst {merged : List Selection} (written : InlineAll merged) :
    {selection : Selection} → selection.Inline →
      (Selection.mergeFirst typeName key merged selection).Inline
  | .field _ _ _ _, _ => by
    rw [Selection.mergeFirst, Inline]
    exact written
  | .inlineFragment _ _, inline => by
    rw [Inline] at inline
    rw [Selection.mergeFirst, Inline]
    exact InlineAll.mergeFirstAll written inline
  | .fragmentSpread _ _ _, inline => (not_inline_spread inline).elim

/-- Merging into the first field of a key in a selection set leaves fragments inline. -/
theorem InlineAll.mergeFirstAll {merged : List Selection} (written : InlineAll merged) :
    {selections : List Selection} → InlineAll selections →
      InlineAll (Selection.mergeFirstAll typeName key merged selections)
  | [], _ => trivial
  | _ :: _, inline => by
    rw [InlineAll] at inline
    rw [Selection.mergeFirstAll]
    split
    · exact ⟨Inline.mergeFirst written inline.1, inline.2.withoutAll⟩
    · exact ⟨inline.1, InlineAll.mergeFirstAll written inline.2⟩

end

/-- Where the sub-selections of fields have their fragments inline, so have they together. -/
theorem inlineAll_flatMap {fields : List Field} (h : ∀ field ∈ fields, InlineAll field.selections) :
    InlineAll (fields.flatMap (·.selections)) := by
  rw [inlineAll_iff]
  intro selection member
  obtain ⟨field, listed, inside⟩ := List.mem_flatMap.1 member
  exact inlineAll_iff.1 (h field listed) selection inside

/-- Merging a response key leaves fragments inline. -/
theorem InlineAll.mergeKey {selections : List Selection} (inline : InlineAll selections) :
    InlineAll (Selection.mergeKey typeName key selections) :=
  InlineAll.mergeFirstAll (inlineAll_flatMap fun _ member =>
    inline.of_mem_flattenAll (List.mem_filter.1 member).1) inline

end Inline

/-- Merging a response key neither empties a selection set nor fills one. -/
theorem isEmpty_mergeKey (typeName key : String) (selections : List Selection) :
    (mergeKey typeName key selections).isEmpty = selections.isEmpty := by
  unfold mergeKey
  cases selections with
  | nil => rfl
  | cons selection rest =>
    rw [mergeFirstAll]
    split <;> rfl

namespace Copies

variable {typeName : String} {held : List Field} {selections changed : List Selection}

/-- The copy is of a field that is selected before. -/
theorem repeats (copies : Copies typeName held selections changed) :
    Repeats held (flattenAll typeName selections) (flattenAll typeName changed) := by
  induction copies with
  | @copy held selection rest field known inline same =>
    rw [flattenAll, same]
    exact .again known (.refl _ _)
  | @later held selection rest changed h ih =>
    rw [flattenAll, flattenAll]
    refine (Repeats.refl _ _).append (ih.mono ?_)
    exact fun field member => List.mem_append.2 (List.mem_append.1 member).symm
  | inside applies h ih =>
    rw [flattenAll, flattenAll, flatten, flatten, if_pos applies, if_pos applies]
    exact ih.append (.refl _ _)

/-- A selection set with a copy has its fragments inline if the one without it has. -/
theorem inlineAll (copies : Copies typeName held selections changed)
    (inline : InlineAll selections) : InlineAll changed := by
  induction copies with
  | copy known written same => exact ⟨written, inline⟩
  | later h ih => exact ⟨inline.1, ih inline.2⟩
  | inside applies h ih =>
    obtain ⟨here, later⟩ := inline
    rw [Inline] at here
    exact ⟨by rw [Inline]; exact ih here, later⟩

/-- There is a field to copy only where there is one. -/
theorem isEmpty_eq (copies : Copies typeName [] selections changed) :
    changed.isEmpty = selections.isEmpty := by
  cases copies with
  | copy known => cases known
  | later => rfl
  | inside => rfl

end Copies

end Selection

namespace FieldGroup

/-- Where fields have the same keys in order of their first occurrence, their groups go together,
and each has all the fields of its key. -/
theorem forall₂_of_keys {fields others : List Field}
    (keys : (fields.map (·.responseKey)).eraseDups = (others.map (·.responseKey)).eraseDups) :
    List.Forall₂ (fun group other => other.key = group.key ∧
        group.first :: group.more = fields.filter (Field.hasKey group.key) ∧
        other.first :: other.more = others.filter (Field.hasKey group.key))
      (ofFields fields) (ofFields others) := by
  have same : List.Forall₂ (fun group other : FieldGroup => group.key = other.key) (ofFields fields)
      (ofFields others) := by
    rw [← map_key_ofFields, ← map_key_ofFields, ← List.forall₂_eq_eq_eq,
      List.forall₂_map_left_iff, List.forall₂_map_right_iff] at keys
    exact keys
  have left := (List.forall₂_and_left _ _).2 ⟨fun _ => fields_of_mem_ofFields, same⟩
  have both := (List.forall₂_and_left _ _).2 ⟨fun _ => fields_of_mem_ofFields, left.flip⟩
  refine (both.imp ?_).flip
  rintro other group ⟨others, fields, key⟩
  exact ⟨key.symm, fields, key ▸ others⟩

/-- Groups that do the same: they have the same key, their first fields have the same name and the
same arguments, and together their fields have the same sub-selections. -/
structure Alike (group other : FieldGroup) : Prop where
  key : group.key = other.key
  name : group.first.name = other.first.name
  arguments : group.first.arguments = other.first.arguments
  selections : group.selections = other.selections

end FieldGroup

/-- Fields of one key of which the groups are alike. -/
structure Field.Alike (fields others : List Field) : Prop where
  first : fields.head?.map (fun field => (field.name, field.arguments)) =
    others.head?.map fun field => (field.name, field.arguments)
  selections : fields.flatMap (·.selections) = others.flatMap (·.selections)

namespace Field.Alike

variable {fields others fields' others' : List Field}

/-- Fields are alike themselves. -/
theorem refl (fields : List Field) : Alike fields fields :=
  ⟨rfl, rfl⟩

/-- Fields stay alike with others after them that are alike. -/
theorem append (h : Alike fields others) (h' : Alike fields' others') :
    Alike (fields ++ fields') (others ++ others') where
  first := by
    rw [List.head?_append, List.head?_append, Option.map_or, Option.map_or, h.first, h'.first]
  selections := by rw [List.flatMap_append, List.flatMap_append, h.selections, h'.selections]

end Field.Alike

namespace FieldGroup

/-- Groups of one key are alike if their fields are. -/
theorem Alike.of_fields {group other : FieldGroup} (key : other.key = group.key)
    (same : Field.Alike (group.first :: group.more) (other.first :: other.more)) :
    group.Alike other :=
  have first := Option.some.inj same.first
  ⟨key.symm, congrArg Prod.fst first, congrArg Prod.snd first, same.selections⟩

/-- Groups are alike one by one, if keys first occur in the same order and the fields of each key
are alike. -/
theorem forall₂_alike {fields others : List Field}
    (keys : (fields.map (·.responseKey)).eraseDups = (others.map (·.responseKey)).eraseDups)
    (alike : ∀ key, Field.Alike (fields.filter (Field.hasKey key))
      (others.filter (Field.hasKey key))) :
    List.Forall₂ Alike (ofFields fields) (ofFields others) := by
  refine (forall₂_of_keys keys).imp ?_
  rintro group other ⟨key, fields, others⟩
  refine .of_fields key ?_
  rw [fields, others]
  exact alike group.key

end FieldGroup

section MergeKey

open Selection

variable {typeName : String} {selections : List Selection}

/-- Of the fields of the key that is merged the first one is left, with the sub-selections of
all. -/
theorem filter_flattenAll_mergeKey (inline : InlineAll selections) (key : String) :
    (flattenAll typeName (mergeKey typeName key selections)).filter (Field.hasKey key) =
      ((flattenAll typeName selections).filter (Field.hasKey key)).head?.toList.map fun field =>
        { field with selections := mergedSelections typeName key selections } := by
  rw [mergeKey, flattenAll_mergeFirstAll _ _ _ _ inline, Field.filter_mergeFirst]

/-- Merging a key leaves the fields of other keys as they are. -/
theorem filter_flattenAll_mergeKey_of_ne (inline : InlineAll selections) {key other : String}
    (differs : other ≠ key) :
    (flattenAll typeName (mergeKey typeName key selections)).filter (Field.hasKey other) =
      (flattenAll typeName selections).filter (Field.hasKey other) := by
  rw [mergeKey, flattenAll_mergeFirstAll _ _ _ _ inline, Field.filter_mergeFirst_of_ne differs]

/-- The first field of a key stands for all of them. -/
theorem Field.Alike.mergeKey (inline : InlineAll selections) (key other : String) :
    Field.Alike ((flattenAll typeName selections).filter (Field.hasKey other))
      ((flattenAll typeName (Selection.mergeKey typeName key selections)).filter
        (Field.hasKey other)) := by
  by_cases same : other = key
  · subst same
    rw [filter_flattenAll_mergeKey inline, mergedSelections]
    cases (flattenAll typeName selections).filter (Field.hasKey other) with
    | nil => exact .refl []
    | cons field rest => exact ⟨rfl, (List.append_nil _).symm⟩
  · rw [filter_flattenAll_mergeKey_of_ne inline same]
    exact .refl _

/-- Where the fields of a key are merged in a selection set, and whatever is selected before it and
after it, the groups are alike. -/
theorem FieldGroup.forall₂_mergeKey (key : String) (inline : InlineAll selections)
    (front back : List Field) :
    List.Forall₂ Alike (ofFields (front ++ flattenAll typeName selections ++ back))
      (ofFields (front ++ flattenAll typeName (mergeKey typeName key selections) ++ back)) := by
  apply forall₂_alike
  · rw [mergeKey, flattenAll_mergeFirstAll _ _ _ _ inline]
    simp only [List.map_append]
    refine (Repeats.eraseDups_eq ?_).symm
    exact ((Repeats.refl _ _).append (Field.repeats_keys_mergeFirst _ _)).append (.refl _ _)
  · intro other
    simp only [List.filter_append]
    exact ((Field.Alike.refl _).append (.mergeKey inline key other)).append (.refl _)

end MergeKey

end GraphQL
