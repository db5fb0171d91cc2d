import GraphQL.Proofs.Selections.Repetitions

/-!
# Fragments in full

What a selection set selects when nothing is left out: all fields of all fragments that apply, in
depth-first order (`Selection.flattenAll`). Collecting takes the fields of a named fragment only
where it is spread first, and what it leaves out repeats what was taken (`exists_taken`). For that
every spread of a name has to carry the same fragment, which is so in an operation that was linked
from a document (`Selection.Carries`). A fragment then never is spread inside itself, because it
would be a part of its own.
-/

set_option autoImplicit false

namespace GraphQL

namespace Selection

mutual

/-- The fields that a selection selects of an object of some type, with those of a fragment in its
place if it applies. -/
def flatten (typeName : String) : Selection → List Field
  | .field aliasName name arguments selections => [{ aliasName, name, arguments, selections }]
  | .inlineFragment condition selections =>
    if condition.all (· == typeName) then flattenAll typeName selections else []
  | .fragmentSpread _ condition selections =>
    if condition == typeName then flattenAll typeName selections else []

/-- The fields that a selection set selects of an object of some type, depth first. -/
def flattenAll (typeName : String) : List Selection → List Field
  | [] => []
  | selection :: rest => selection.flatten typeName ++ flattenAll typeName rest

end

/-- Selections are flattened one by one. -/
theorem flattenAll_eq_flatMap (typeName : String) (selections : List Selection) :
    flattenAll typeName selections = selections.flatMap (flatten typeName) := by
  induction selections with
  | nil => rfl
  | cons selection rest ih => rw [flattenAll, ih, List.flatMap_cons]

mutual

/-- Every spread in a selection, however deep, carries the condition and the selections that belong
to its name. -/
def Carries (body : String → String × List Selection) : Selection → Prop
  | .field _ _ _ selections => CarriesAll body selections
  | .inlineFragment _ selections => CarriesAll body selections
  | .fragmentSpread name condition selections =>
    body name = (condition, selections) ∧ CarriesAll body selections

/-- Every spread in a selection set, however deep, carries what belongs to its name. -/
def CarriesAll (body : String → String × List Selection) : List Selection → Prop
  | [] => True
  | selection :: rest => selection.Carries body ∧ CarriesAll body rest

end

mutual

/-- The names of the fragments that are spread in a selection, outside its fields. -/
def spreads : Selection → List String
  | .field _ _ _ _ => []
  | .inlineFragment _ selections => spreadsAll selections
  | .fragmentSpread name _ selections => name :: spreadsAll selections

/-- The names of the fragments that are spread in a selection set, outside its fields. -/
def spreadsAll : List Selection → List String
  | [] => []
  | selection :: rest => selection.spreads ++ spreadsAll rest

end

variable {body : String → String × List Selection}

/-- Selections carry their fragments if each does. -/
theorem carriesAll_iff {selections : List Selection} :
    CarriesAll body selections ↔ ∀ selection ∈ selections, selection.Carries body := by
  induction selections with
  | nil => simp [CarriesAll]
  | cons selection rest ih => rw [CarriesAll, ih, List.forall_mem_cons]

mutual

/-- The selections of a field carry what the selection carries in which it stands. -/
theorem carriesAll_of_mem_flatten {typeName : String} {field : Field} :
    (selection : Selection) → selection.Carries body → field ∈ selection.flatten typeName →
      CarriesAll body field.selections
  | .field _ _ _ _, carries, member => by
    rw [flatten, List.mem_singleton] at member
    subst member
    rwa [Carries] at carries
  | .inlineFragment condition selections, carries, member => by
    rw [Carries] at carries
    rw [flatten] at member
    split at member
    · exact carriesAll_of_mem_flattenAll selections carries member
    · cases member
  | .fragmentSpread name condition selections, carries, member => by
    rw [Carries] at carries
    rw [flatten] at member
    split at member
    · exact carriesAll_of_mem_flattenAll selections carries.2 member
    · cases member

/-- The fields of a selection set whose spreads carry their fragments have such selections in
turn. -/
theorem carriesAll_of_mem_flattenAll {typeName : String} {field : Field} :
    (selections : List Selection) → CarriesAll body selections →
      field ∈ flattenAll typeName selections → CarriesAll body field.selections
  | [], _, member => by
    rw [flattenAll] at member
    cases member
  | selection :: rest, carries, member => by
    rw [CarriesAll] at carries
    rw [flattenAll, List.mem_append] at member
    rcases member with member | member
    · exact carriesAll_of_mem_flatten selection carries.1 member
    · exact carriesAll_of_mem_flattenAll rest carries.2 member

end

mutual

/-- A fragment that is carried is smaller than the selection that spreads it. -/
theorem sizeOf_lt_of_mem_spreads {name : String} :
    (selection : Selection) → selection.Carries body → name ∈ selection.spreads →
      sizeOf (body name).2 < sizeOf selection
  | .field _ _ _ _, _, member => by
    rw [spreads] at member
    cases member
  | .inlineFragment condition selections, carries, member => by
    rw [Carries] at carries
    rw [spreads] at member
    have within := sizeOf_lt_of_mem_spreadsAll selections carries member
    rw [inlineFragment.sizeOf_spec]
    omega
  | .fragmentSpread other condition selections, carries, member => by
    rw [Carries] at carries
    rw [spreads] at member
    rw [fragmentSpread.sizeOf_spec]
    rcases List.mem_cons.1 member with rfl | member
    · rw [carries.1]
      dsimp only
      omega
    · have within := sizeOf_lt_of_mem_spreadsAll selections carries.2 member
      omega

/-- A fragment that is spread in a selection set is a part of it. -/
theorem sizeOf_lt_of_mem_spreadsAll {name : String} :
    (selections : List Selection) → CarriesAll body selections → name ∈ spreadsAll selections →
      sizeOf (body name).2 < sizeOf selections
  | [], _, member => by
    rw [spreadsAll] at member
    cases member
  | selection :: rest, carries, member => by
    rw [CarriesAll] at carries
    rw [spreadsAll, List.mem_append] at member
    rw [List.cons.sizeOf_spec]
    rcases member with member | member
    · have within := sizeOf_lt_of_mem_spreads selection carries.1 member
      omega
    · have within := sizeOf_lt_of_mem_spreadsAll rest carries.2 member
      omega

end

/-- The fields of the fragment with some name. -/
def fragmentFields (body : String → String × List Selection) (typeName name : String) :
    List Field :=
  (fragmentSpread name (body name).1 (body name).2).flatten typeName

end Selection

namespace Collected

open Selection

variable {body : String → String × List Selection} {typeName : String}

/-- What collecting adds to the groups and to the names of the fragments that were spread, when
`seen` are the fields so far and `all` are those that come next: some of them, of which the others
are repetitions. The fields of the fragments are among those that were seen. -/
def Takes (body : String → String × List Selection) (typeName : String) (seen all : List Field)
    (before after : Collected) : Prop :=
  (∃ taken, after.groups = FieldGroup.addAll taken before.groups ∧ Repeats seen taken all) ∧
    ∀ name ∈ after.visited, name ∈ before.visited ∨ fragmentFields body typeName name ⊆ all

/-- What is taken first and what is taken later is taken in all. -/
theorem Takes.trans {seen all others : List Field} {before between after : Collected}
    (first : Takes body typeName seen all before between)
    (later : Takes body typeName (all ++ seen) others between after) :
    Takes body typeName seen (all ++ others) before after := by
  obtain ⟨⟨taken, groups, repeats⟩, visited⟩ := first
  obtain ⟨⟨taken', groups', repeats'⟩, visited'⟩ := later
  refine ⟨⟨taken ++ taken', ?_, repeats.append repeats'⟩, fun name member => ?_⟩
  · rw [groups', groups, FieldGroup.addAll_append]
  · rcases visited' name member with earlier | inside
    · rcases visited name earlier with known | inside
      · exact .inl known
      · exact .inr (List.Subset.trans inside (List.subset_append_left _ _))
    · exact .inr (List.Subset.trans inside (List.subset_append_right _ _))

/-- Nothing is taken where all fields were seen. -/
theorem Takes.nothing {seen all : List Field} (collected : Collected) (known : all ⊆ seen) :
    Takes body typeName seen all collected collected :=
  ⟨⟨[], rfl, .of_subset known⟩, fun _ member => .inl member⟩

mutual

/-- Collecting a selection takes its fields up to repetitions, if the fields of the fragments that
were spread before and are spread in it were seen. -/
theorem takes_add (seen : List Field) (collected : Collected) :
    (selection : Selection) → selection.Carries body →
      (∀ name ∈ collected.visited, name ∈ selection.spreads →
        fragmentFields body typeName name ⊆ seen) →
      Takes body typeName seen (selection.flatten typeName) collected
        (add typeName collected selection)
  | .field aliasName name arguments selections, _, _ => by
    rw [flatten, add]
    exact ⟨⟨_, rfl, .refl _ _⟩, fun _ member => .inl member⟩
  | .inlineFragment condition selections, carries, known => by
    rw [Carries] at carries
    rw [spreads] at known
    rw [flatten, add]
    split
    · exact takes_addAll seen collected selections carries known
    · exact .nothing _ (List.nil_subset _)
  | .fragmentSpread name condition selections, carries, known => by
    rw [Carries] at carries
    obtain ⟨own, carries⟩ := carries
    have fields : fragmentFields body typeName name =
        (fragmentSpread name condition selections).flatten typeName := by
      rw [fragmentFields, own]
    rw [add]
    split
    · next spread =>
      rw [← fields]
      exact .nothing _ (known name (by simpa using spread) List.mem_cons_self)
    · next new =>
      dsimp only
      rw [flatten] at fields ⊢
      split
      · next applies =>
        rw [if_pos applies] at fields
        have inside := takes_addAll seen
          { collected with visited := name :: collected.visited } selections carries (by
            intro other member spread
            rcases List.mem_cons.1 member with rfl | member
            · -- a fragment is not spread in its own body, which would be smaller than it is
              have part := sizeOf_lt_of_mem_spreadsAll selections carries spread
              rw [own] at part
              exact absurd part (Nat.lt_irrefl _)
            · exact known other member (List.mem_cons_of_mem _ spread))
        refine ⟨inside.1, fun other member => ?_⟩
        rcases inside.2 other member with earlier | inside
        · rcases List.mem_cons.1 earlier with rfl | earlier
          · exact .inr (fields ▸ List.Subset.refl _)
          · exact .inl earlier
        · exact .inr inside
      · next differs =>
        rw [if_neg differs] at fields
        refine ⟨⟨[], rfl, .nil⟩, fun other member => ?_⟩
        rcases List.mem_cons.1 member with rfl | member
        · exact .inr (fields ▸ List.Subset.refl _)
        · exact .inl member

/-- Collecting selections takes their fields up to repetitions. -/
theorem takes_addAll (seen : List Field) (collected : Collected) :
    (selections : List Selection) → CarriesAll body selections →
      (∀ name ∈ collected.visited, name ∈ spreadsAll selections →
        fragmentFields body typeName name ⊆ seen) →
      Takes body typeName seen (flattenAll typeName selections) collected
        (addAll typeName collected selections)
  | [], _, _ => by
    rw [flattenAll, addAll]
    exact .nothing _ (List.nil_subset _)
  | selection :: rest, carries, known => by
    rw [CarriesAll] at carries
    rw [flattenAll, addAll]
    have first := takes_add seen collected selection carries.1 fun name member spread =>
      known name member (by rw [spreadsAll]; exact List.mem_append_left _ spread)
    refine first.trans (takes_addAll _ _ rest carries.2 fun name member spread => ?_)
    rcases first.2 name member with earlier | inside
    · have before := known name earlier (by rw [spreadsAll]; exact List.mem_append_right _ spread)
      exact List.Subset.trans before (List.subset_append_right _ _)
    · exact List.Subset.trans inside (List.subset_append_left _ _)

end

end Collected

section Collecting

open Selection

variable {body : String → String × List Selection} {typeName : String}
  {selections full : List Selection}

/-- Selections with repetitions select fields with repetitions. -/
theorem Repeats.flattenAll (repeats : Repeats [] selections full) (typeName : String) :
    Repeats [] (flattenAll typeName selections) (flattenAll typeName full) := by
  rw [flattenAll_eq_flatMap, flattenAll_eq_flatMap]
  exact repeats.flatMap _

/-- What is left of selections whose spreads carry their fragments are such selections. -/
theorem Selection.CarriesAll.of_repeats (carries : CarriesAll body full)
    (repeats : Repeats [] selections full) : CarriesAll body selections :=
  carriesAll_iff.2 fun _ member => carriesAll_iff.1 carries _ (repeats.sublist.subset member)

/-- The groups that are collected are those of fields that are taken from all that are selected, and
the others are repetitions. -/
theorem exists_taken (typeName : String) (carries : CarriesAll body selections) :
    ∃ taken, collectFields typeName selections = FieldGroup.ofFields taken ∧
      Repeats [] taken (flattenAll typeName selections) := by
  have takes : Collected.Takes body typeName [] (Selection.flattenAll typeName selections) {}
      (Collected.addAll typeName {} selections) :=
    Collected.takes_addAll [] {} selections carries (List.forall_mem_nil _)
  exact takes.1

/-- The sub-selections of all fields with one key carry their fragments. -/
theorem FieldGroup.carriesAll_selections (carries : CarriesAll body full) {group : FieldGroup}
    (member : group ∈ FieldGroup.ofFields (flattenAll typeName full)) :
    CarriesAll body group.selections := by
  rw [group.selections_eq, fields_of_mem_ofFields member, carriesAll_iff]
  intro selection inside
  obtain ⟨field, own, inside⟩ := List.mem_flatMap.1 inside
  have selected := (List.mem_filter.1 own).1
  exact carriesAll_iff.1 (carriesAll_of_mem_flattenAll full carries selected) selection inside

/-- A group that is collected stands for one of all fields: it has the key and the first field of
the other one, of whose sub-selections it leaves out no more than repetitions. -/
structure FieldGroup.StandsFor (body : String → String × List Selection)
    (group other : FieldGroup) : Prop where
  key : group.key = other.key
  first : group.first = other.first
  repeats : Repeats [] group.selections other.selections
  carries : CarriesAll body other.selections

/-- The groups that are collected from a selection set stand, one by one, for those of all fields of
a selection set that it leaves out no more than repetitions of. -/
theorem forall₂_collectFields (typeName : String) (carries : CarriesAll body full)
    (repeats : Repeats [] selections full) :
    List.Forall₂ (FieldGroup.StandsFor body) (collectFields typeName selections)
      (FieldGroup.ofFields (flattenAll typeName full)) := by
  obtain ⟨taken, groups, taking⟩ := exists_taken typeName (carries.of_repeats repeats)
  have same := FieldGroup.forall₂_ofFields (taking.trans (repeats.flattenAll typeName))
  have merged := (List.forall₂_and_left _ _).2
    ⟨fun _ => FieldGroup.carriesAll_selections carries, same.flip⟩
  rw [groups]
  refine List.Forall₂.flip (merged.imp ?_)
  rintro other group ⟨carries, key, first, more⟩
  have fields : Repeats [] (group.first :: group.more) (group.first :: other.more) := .keep more
  refine ⟨key.symm, first.symm, ?_, carries⟩
  rw [FieldGroup.selections, FieldGroup.selections, first]
  exact fields.flatMap (·.selections)

/-- The keys that are collected are those of all fields that are selected, each in the place of its
first occurrence. -/
theorem map_key_collectFields (typeName : String) (carries : CarriesAll body full)
    (repeats : Repeats [] selections full) :
    (collectFields typeName selections).map (·.key) =
      ((flattenAll typeName full).map (·.responseKey)).eraseDups := by
  rw [← FieldGroup.map_key_ofFields]
  exact map_eq_map_of_forall₂ (fun _ _ standsFor => standsFor.key)
    (forall₂_collectFields typeName carries repeats)

end Collecting

end GraphQL
