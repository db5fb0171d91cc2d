import Mathlib.Data.List.Forall2
import Mathlib.Data.List.Nodup

/-!
# Checks and look-ups

A check ends with a result or with the reason for which it failed. Checks in sequence succeed if
each of them does, and what is reported is reported by one of them. Where the keys of some items are
distinct, the item that is found under a key is the one that has it. Lists that are related entry by
entry have their keys and their members in common as far as the entries have.
-/

set_option autoImplicit false

namespace GraphQL

/-- Related entries that are mapped to the same make the same list. -/
theorem map_eq_map_of_forall₂ {α β γ : Type} {related : α → β → Prop} {f : α → γ} {g : β → γ}
    (same : ∀ a b, related a b → f a = g b) {list : List α} {other : List β}
    (h : List.Forall₂ related list other) : list.map f = other.map g := by
  rw [← List.forall₂_eq_eq_eq, List.forall₂_map_left_iff, List.forall₂_map_right_iff]
  exact h.imp same

/-- Where lists are related entry by entry, each entry of the first one is related to one of the
second one. -/
theorem exists_mem_of_forall₂ {α β : Type} {related : α → β → Prop} {list : List α}
    {other : List β} (h : List.Forall₂ related list other) {a : α} (member : a ∈ list) :
    ∃ b ∈ other, related a b := by
  induction h with
  | nil => cases member
  | @cons _ b _ _ here _ ih =>
    rcases List.mem_cons.1 member with rfl | member
    · exact ⟨b, List.mem_cons_self, here⟩
    · obtain ⟨b, inside, there⟩ := ih member
      exact ⟨b, List.mem_cons_of_mem _ inside, there⟩

namespace Checks

variable {ε α β : Type}

/-- Two steps succeed if and only if the first does and the second does with its result. -/
theorem bind_eq_ok {x : Except ε α} {f : α → Except ε β} {b : β} :
    (x >>= f) = .ok b ↔ ∃ a, x = .ok a ∧ f a = .ok b := by
  cases x with
  | error cause => simp [bind, Except.bind]
  | ok a => simp [bind, Except.bind]

/-- A step whose result is mapped succeeds if and only if the step does. -/
theorem map_eq_ok {x : Except ε α} {f : α → β} {b : β} :
    (f <$> x) = .ok b ↔ ∃ a, x = .ok a ∧ f a = b := by
  cases x <;> simp [Functor.map, Except.map]

/-- A step whose result is mapped fails as the step does. -/
theorem map_eq_error {x : Except ε α} {f : α → β} {cause : ε} :
    (f <$> x) = .error cause ↔ x = .error cause := by
  cases x <;> simp [Functor.map, Except.map]

/-- Two steps fail if and only if the first does, or the second does with the result of the
first. -/
theorem bind_eq_error {x : Except ε α} {f : α → Except ε β} {cause : ε} :
    (x >>= f) = .error cause ↔ x = .error cause ∨ ∃ a, x = .ok a ∧ f a = .error cause := by
  cases x with
  | error own => simp [bind, Except.bind]
  | ok a => simp [bind, Except.bind]

/-- Where it is an error that nothing is found, a result is what is found. -/
theorem elim_eq_ok_iff {x : Option α} {cause : ε} {a : α} :
    x.elim (.error cause) .ok = (.ok a : Except ε α) ↔ x = some a := by
  cases x with
  | none => simp
  | some own => simp

/-- A step that succeeds has its own result. -/
theorem eq_ok_getD {x : Except ε α} (h : x.isOk = true) (other : α) :
    x = .ok (x.toOption.getD other) := by
  cases x with
  | error cause => cases h
  | ok a => rfl

/-- A check succeeds if and only if it has nothing to say. -/
theorem isOk_eq_true_iff {x : Except ε Unit} : x.isOk = true ↔ x = .ok () := by
  cases x with
  | error cause => simp [Except.isOk, Except.toBool]
  | ok a => simp [Except.isOk, Except.toBool]

/-- A check before a step succeeds together with it if and only if both do. -/
theorem then_eq_ok {x : Except ε Unit} {y : Except ε β} {b : β} :
    (x >>= fun _ => y) = .ok b ↔ x = .ok () ∧ y = .ok b := by
  rw [bind_eq_ok]
  constructor
  · rintro ⟨⟨⟩, first, second⟩
    exact ⟨first, second⟩
  · rintro ⟨first, second⟩
    exact ⟨(), first, second⟩

/-- All items pass a check if each of them does. -/
theorem forM_eq_ok {check : α → Except ε Unit} {items : List α} :
    items.forM check = .ok () ↔ ∀ item ∈ items, check item = .ok () := by
  induction items with
  | nil => exact iff_of_true rfl (List.forall_mem_nil _)
  | cons first rest ih =>
    show (check first >>= fun _ => rest.forM check) = .ok () ↔ _
    rw [then_eq_ok, ih, List.forall_mem_cons]

/-- What is reported of a list of items is what is reported of one of them. -/
theorem exists_of_forM_eq_error {check : α → Except ε Unit} {items : List α} {cause : ε}
    (h : items.forM check = .error cause) : ∃ item ∈ items, check item = .error cause := by
  induction items with
  | nil => cases h
  | cons first rest ih =>
    rcases bind_eq_error.1 (show (check first >>= fun _ => rest.forM check) = .error cause from h)
      with here | ⟨-, -, later⟩
    · exact ⟨first, List.mem_cons_self, here⟩
    · obtain ⟨item, member, found⟩ := ih later
      exact ⟨item, List.mem_cons_of_mem _ member, found⟩

section Reasons

/-- Whatever fails, fails for a reason of some kind. -/
def FailsOnly (P : ε → Prop) (x : Except ε α) : Prop :=
  ∀ cause, x = .error cause → P cause

variable {P : ε → Prop}

/-- What succeeds fails for no reason. -/
theorem failsOnly_ok {a : α} : FailsOnly P (.ok a) := by
  rintro cause ⟨⟩

/-- A failure is for its own reason. -/
theorem failsOnly_error {cause : ε} (h : P cause) : FailsOnly P (.error cause : Except ε α) := by
  rintro _ ⟨⟩
  exact h

/-- Two steps fail for the reasons of either. -/
theorem FailsOnly.bind {x : Except ε α} {f : α → Except ε β} (h : FailsOnly P x)
    (hf : ∀ a, FailsOnly P (f a)) : FailsOnly P (x >>= f) := by
  intro cause failed
  rcases bind_eq_error.1 failed with own | ⟨a, -, later⟩
  · exact h cause own
  · exact hf a cause later

/-- A step whose result is mapped fails for the same reasons. -/
theorem FailsOnly.map {x : Except ε α} {f : α → β} (h : FailsOnly P x) :
    FailsOnly P (f <$> x) := by
  intro cause failed
  cases x with
  | error own =>
    cases failed
    exact h _ rfl
  | ok a => cases failed

/-- A check of items fails for the reasons of the check of each. -/
theorem failsOnly_forM {check : α → Except ε Unit} {items : List α}
    (h : ∀ item ∈ items, FailsOnly P (check item)) : FailsOnly P (items.forM check) := by
  intro cause failed
  obtain ⟨item, member, found⟩ := exists_of_forM_eq_error failed
  exact h item member cause found

end Reasons

section LookUps

variable {κ : Type} [DecidableEq κ] {key : α → κ} {items : List α}

/-- Nothing is found under a key if and only if no item has it. -/
theorem find?_key_eq_none_iff {k : κ} :
    items.find? (fun item => key item == k) = none ↔ ∀ item ∈ items, key item ≠ k := by
  simp [List.find?_eq_none]

/-- Where keys are distinct an item is found under a key if and only if it has it. -/
theorem find?_key_eq_some_iff (distinct : (items.map key).Nodup) {k : κ} {item : α} :
    items.find? (fun item => key item == k) = some item ↔ item ∈ items ∧ key item = k := by
  constructor
  · intro found
    have same := List.find?_some found
    exact ⟨List.mem_of_find?_eq_some found, by simpa using same⟩
  · rintro ⟨member, rfl⟩
    cases found : items.find? (fun other => key other == key item) with
    | none => exact absurd rfl (find?_key_eq_none_iff.1 found item member)
    | some other =>
      have same := List.find?_some found
      have keys : key other = key item := by simpa using same
      have member' := List.mem_of_find?_eq_some found
      rw [List.inj_on_of_nodup_map distinct member' member keys]

/-- What is found under a key depends on one of the entries only if this is the first with the
key. -/
theorem find?_replaced (front rest : List (κ × α)) (k : κ) (before after : α) (other : κ) :
    ((front ++ (k, after) :: rest).find? fun entry => entry.1 == other).map Prod.snd =
        ((front ++ (k, before) :: rest).find? fun entry => entry.1 == other).map Prod.snd ∨
      k = other ∧
        ((front ++ (k, before) :: rest).find? fun entry => entry.1 == other).map Prod.snd =
          some before ∧
        ((front ++ (k, after) :: rest).find? fun entry => entry.1 == other).map Prod.snd =
          some after := by
  induction front with
  | nil =>
    by_cases same : k = other
    · exact .inr ⟨same, by simp [same], by simp [same]⟩
    · exact .inl (by simp [same])
  | cons entry front ih =>
    by_cases same : entry.1 = other
    · exact .inl (by simp [same])
    · simpa [same] using ih

end LookUps

end Checks

end GraphQL
