import GraphQL.Execution.Collect
import GraphQL.Proofs.Checks

/-!
# Later repetitions

A list repeats another one if it is that list with some entries said again later on
(`Repeats`). Whatever looks at first occurrences alone does not tell the two apart: fields that are
grouped by response key come to groups with the same keys and the same first fields, of which the
other fields are repeated in turn (`FieldGroup.forall₂_ofFields`).
-/

set_option autoImplicit false

namespace GraphQL

/-- The second list is the first one with entries repeated: each entry that is added was there
before, in the list itself or among those that were seen earlier. -/
inductive Repeats {α : Type} : List α → List α → List α → Prop
  | nil {seen : List α} : Repeats seen [] []
  | keep {seen short long : List α} {a : α} (h : Repeats (a :: seen) short long) :
    Repeats seen (a :: short) (a :: long)
  | again {seen short long : List α} {a : α} (known : a ∈ seen) (h : Repeats seen short long) :
    Repeats seen short (a :: long)

namespace Repeats

variable {α β : Type} {seen seen' short long short' long' : List α}

/-- More may be repeated where more was seen earlier. -/
theorem mono (h : Repeats seen short long) (le : seen ⊆ seen') : Repeats seen' short long := by
  induction h generalizing seen' with
  | nil => exact .nil
  | keep h ih => exact .keep (ih (List.cons_subset_cons _ le))
  | again known h ih => exact .again (le known) (ih le)

/-- A list repeats itself, with nothing said again. -/
theorem refl (seen list : List α) : Repeats seen list list := by
  induction list generalizing seen with
  | nil => exact .nil
  | cons a rest ih => exact .keep (ih (a :: seen))

/-- A list of entries that were all seen adds nothing. -/
theorem of_subset (h : long ⊆ seen) : Repeats seen [] long := by
  induction long with
  | nil => exact .nil
  | cons a rest ih =>
    obtain ⟨known, others⟩ := List.cons_subset.1 h
    exact .again known (ih others)

/-- Lists repeat each other if their first parts do and their second parts do. -/
theorem append (h : Repeats seen short long) (h' : Repeats (long ++ seen) short' long') :
    Repeats seen (short ++ short') (long ++ long') := by
  induction h with
  | nil => exact h'
  | @keep seen short long a h ih =>
    refine .keep (ih (h'.mono ?_))
    intro b member
    simp only [List.cons_append, List.mem_cons, List.mem_append] at member ⊢
    rcases member with same | inside | earlier
    · exact .inr (.inl same)
    · exact .inl inside
    · exact .inr (.inr earlier)
  | @again seen short long a known h ih =>
    refine .again known (ih (h'.mono ?_))
    intro b member
    simp only [List.cons_append, List.mem_cons, List.mem_append] at member ⊢
    rcases member with rfl | inside | earlier
    · exact .inr known
    · exact .inl inside
    · exact .inr earlier

/-- Repeating a list that repeats another one repeats that one. -/
theorem trans {longer : List α} (h : Repeats seen short long) (h' : Repeats seen long longer) :
    Repeats seen short longer := by
  induction h' generalizing short with
  | nil => exact h
  | @keep seen long longer a h' ih =>
    cases h with
    | keep h => exact .keep (ih h)
    | again known h =>
      exact .again known ((ih (h.mono (List.subset_cons_self _ _))).mono
        (List.cons_subset.2 ⟨known, List.Subset.refl _⟩))
  | again known h' ih => exact .again known (ih h)

/-- The list without its repetitions is part of the one with them, in order. -/
theorem sublist (h : Repeats seen short long) : short.Sublist long := by
  induction h with
  | nil => exact .slnil
  | keep h ih => exact ih.cons_cons _
  | again known h ih => exact ih.cons _

/-- Repetitions are of something. -/
theorem isEmpty_eq (h : Repeats [] short long) : short.isEmpty = long.isEmpty := by
  cases h with
  | nil => rfl
  | keep => rfl
  | again known => cases known

/-- Where every entry becomes some entries, those of a repeated one are repeated. -/
theorem flatMap (h : Repeats seen short long) (f : α → List β) :
    Repeats (seen.flatMap f) (short.flatMap f) (long.flatMap f) := by
  induction h with
  | nil => exact .nil
  | keep h ih =>
    rw [List.flatMap_cons] at ih ⊢
    exact (Repeats.refl _ _).append ih
  | @again seen short long a known h ih =>
    have inside : f a ⊆ seen.flatMap f := fun b member => List.mem_flatMap.2 ⟨a, known, member⟩
    exact (Repeats.of_subset inside).append (ih.mono (List.subset_append_right _ _))

/-- What is kept of the entries is repeated as the entries are. -/
theorem filter (h : Repeats seen short long) (p : α → Bool) :
    Repeats (seen.filter p) (short.filter p) (long.filter p) := by
  induction h with
  | nil => exact .nil
  | @keep seen short long a h ih =>
    rw [List.filter_cons] at ih
    by_cases kept : p a = true
    · rw [if_pos kept] at ih
      rw [List.filter_cons_of_pos kept, List.filter_cons_of_pos kept]
      exact .keep ih
    · rw [if_neg kept] at ih
      rwa [List.filter_cons_of_neg kept, List.filter_cons_of_neg kept]
  | @again seen short long a known h ih =>
    by_cases kept : p a = true
    · rw [List.filter_cons_of_pos kept]
      exact .again (List.mem_filter.2 ⟨known, kept⟩) ih
    · rwa [List.filter_cons_of_neg kept]

/-- Entries that are left out may be repetitions of what they become. -/
theorem map_filter {seen : List β} {f : α → β} {p : α → Bool} {list : List α}
    (h : ∀ a ∈ list, p a = false → f a ∈ seen) :
    Repeats seen ((list.filter p).map f) (list.map f) := by
  induction list generalizing seen with
  | nil => exact .nil
  | cons a rest ih =>
    obtain ⟨here, there⟩ := List.forall_mem_cons.1 h
    by_cases kept : p a = true
    · rw [List.filter_cons_of_pos kept]
      exact .keep (ih fun b member out => List.mem_cons_of_mem _ (there b member out))
    · rw [List.filter_cons_of_neg kept]
      exact .again (here (Bool.eq_false_iff.2 kept)) (ih there)

section Distinct

variable [DecidableEq α]

/-- The first occurrences of what was not seen earlier are the same. -/
theorem eraseDups_filter_eq (h : Repeats seen short long) :
    (short.filter fun a => !seen.contains a).eraseDups =
      (long.filter fun a => !seen.contains a).eraseDups := by
  induction h with
  | nil => rfl
  | @keep seen short long a h ih =>
    by_cases known : a ∈ seen
    · have same : (fun b => !(a :: seen).contains b) = fun b => !seen.contains b := by
        funext b
        by_cases eq : b = a <;> simp [eq, known]
      rw [same] at ih
      simpa [known] using ih
    · have others : (fun b => (!b == a) && !seen.contains b) = fun b => !(a :: seen).contains b := by
        funext b
        by_cases eq : b = a <;> simp [eq]
      have new : (!seen.contains a) = true := by simpa using known
      rw [List.filter_cons, List.filter_cons, if_pos new, if_pos new, List.eraseDups_cons,
        List.eraseDups_cons, List.filter_filter, List.filter_filter, others, ih]
  | @again seen short long a known h ih =>
    rw [ih, List.filter_cons, if_neg (by simpa using known)]

/-- Where entries are repeated, the first occurrences stay the same. -/
theorem eraseDups_eq (h : Repeats [] short long) : short.eraseDups = long.eraseDups := by
  simpa using h.eraseDups_filter_eq

end Distinct

end Repeats

/-- Whether a field has some response key. -/
def Field.hasKey (key : String) (field : Field) : Bool :=
  key == field.responseKey

namespace FieldGroup

/-- The sub-selections of a group are those of its fields, one after the other. -/
theorem selections_eq (group : FieldGroup) :
    group.selections = (group.first :: group.more).flatMap (·.selections) :=
  rfl

/-- Adds fields in order. -/
def addAll (fields : List Field) (groups : List FieldGroup) : List FieldGroup :=
  fields.foldl (fun groups field => add field groups) groups

/-- Fields are grouped in the order in which they stand. -/
theorem addAll_append (fields others : List Field) (groups : List FieldGroup) :
    addAll (fields ++ others) groups = addAll others (addAll fields groups) :=
  List.foldl_append

/-- The groups of some fields. -/
def ofFields (fields : List Field) : List FieldGroup :=
  addAll fields []

/-- Fields that are added join the first group, if they have its key, or go to the others. -/
theorem addAll_cons (fields : List Field) (key : String) (first : Field) (more : List Field)
    (groups : List FieldGroup) :
    addAll fields ({ key, first, more } :: groups) =
      { key, first, more := more ++ fields.filter (Field.hasKey key) } ::
        addAll (fields.filter fun field => !field.hasKey key) groups := by
  induction fields generalizing more groups with
  | nil => simp [addAll]
  | cons field rest ih =>
    have step : addAll (field :: rest) ({ key, first, more } :: groups) =
        addAll rest (add field ({ key, first, more } :: groups)) := rfl
    by_cases same : field.hasKey key = true
    · have joins : add field ({ key, first, more } :: groups) =
          { key, first, more := more ++ [field] } :: groups := if_pos same
      rw [step, joins, ih, List.filter_cons_of_pos same,
        List.filter_cons_of_neg (by simpa using same), List.append_assoc, List.singleton_append]
    · have goes : add field ({ key, first, more } :: groups) =
          { key, first, more } :: add field groups := if_neg same
      rw [step, goes, ih, List.filter_cons_of_neg same,
        List.filter_cons_of_pos (by simpa using same)]
      rfl

/-- The first field opens the first group, in which the fields with its key follow. -/
theorem ofFields_cons (field : Field) (rest : List Field) :
    ofFields (field :: rest) =
      { key := field.responseKey
        first := field
        more := rest.filter (Field.hasKey field.responseKey) } ::
        ofFields (rest.filter fun other => !other.hasKey field.responseKey) :=
  addAll_cons rest field.responseKey field [] []

/-- Induction on fields, one group at a time. -/
@[elab_as_elim]
theorem fields_induction {motive : List Field → Prop} (nil : motive [])
    (cons : ∀ field rest, motive (rest.filter fun other => !other.hasKey field.responseKey) →
      motive (field :: rest)) (fields : List Field) : motive fields := by
  induction hlength : fields.length using Nat.strongRecOn generalizing fields with
  | ind length ih =>
    subst hlength
    cases fields with
    | nil => exact nil
    | cons field rest =>
      have fewer := List.length_filter_le (fun other => !other.hasKey field.responseKey) rest
      exact cons field rest (ih _ (by rw [List.length_cons]; omega) _ rfl)

/-- The keys of the groups are those of the fields, in the order of their first occurrence. -/
theorem map_key_ofFields (fields : List Field) :
    (ofFields fields).map (·.key) = (fields.map (·.responseKey)).eraseDups := by
  induction fields using fields_induction with
  | nil => rfl
  | cons field rest ih =>
    have others : (rest.map (·.responseKey)).filter (fun key => !key == field.responseKey) =
        (rest.filter fun other => !other.hasKey field.responseKey).map (·.responseKey) := by
      rw [List.filter_map]
      congr 1
      apply List.filter_congr
      intro other _
      simp only [Function.comp_apply, Field.hasKey, Bool.beq_comm]
    rw [ofFields_cons, List.map_cons, ih, List.map_cons, List.eraseDups_cons, others]

/-- The fields of a group are those with its key, in order. -/
theorem fields_of_mem_ofFields {fields : List Field} {group : FieldGroup}
    (member : group ∈ ofFields fields) :
    group.first :: group.more = fields.filter (Field.hasKey group.key) := by
  induction fields using fields_induction with
  | nil => cases member
  | cons field rest ih =>
    rw [ofFields_cons, List.mem_cons] at member
    rcases member with rfl | member
    · rw [List.filter_cons_of_pos (by simp [Field.hasKey])]
    · have fields := ih member
      -- the first field of a later group is one that the first group left out
      have left : group.first ∈ (rest.filter fun other => !other.hasKey field.responseKey).filter
          (Field.hasKey group.key) := fields ▸ List.mem_cons_self
      obtain ⟨left, own⟩ := List.mem_filter.1 left
      have other : group.key ≠ field.responseKey := by
        intro same
        have out := (List.mem_filter.1 left).2
        rw [← same, own] at out
        cases out
      rw [fields, List.filter_filter, List.filter_cons_of_neg (by simpa [Field.hasKey] using other)]
      apply List.filter_congr
      intro next _
      by_cases key : group.key = next.responseKey
      · simp [Field.hasKey, ← key, Ne.symm other]
      · simp [Field.hasKey, key]

/-- Groups of fields that are repeated have the same keys and the same first fields, and repeat the
others. -/
theorem forall₂_ofFields {short long : List Field} (h : Repeats [] short long) :
    List.Forall₂ (fun group other => other.key = group.key ∧ other.first = group.first ∧
      Repeats [group.first] group.more other.more) (ofFields short) (ofFields long) := by
  induction long using fields_induction generalizing short with
  | nil =>
    cases h
    exact .nil
  | cons field rest ih =>
    cases h with
    | again known h => cases known
    | @keep _ short _ _ h =>
      rw [ofFields_cons, ofFields_cons]
      refine .cons ⟨rfl, rfl, ?_⟩ (ih ?_)
      · have same := h.filter (Field.hasKey field.responseKey)
        rwa [List.filter_cons_of_pos (by simp [Field.hasKey])] at same
      · have others := h.filter fun other => !other.hasKey field.responseKey
        rwa [List.filter_cons_of_neg (by simp [Field.hasKey])] at others

end FieldGroup

end GraphQL
