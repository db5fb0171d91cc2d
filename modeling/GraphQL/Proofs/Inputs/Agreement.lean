import GraphQL.Proofs.Inputs.Limits

/-!
# Readers that agree

One reader agrees with another if it reads to the same whatever the other one reads. Readers of
lists and of input objects agree if the readers of their parts do, and so does a JSON value that is
read with more levels (`Coercion.coerceJson_of_le`).
-/

set_option autoImplicit false

namespace GraphQL

namespace Coercion

open Checks

section Parts

variable {Value Other : Type}

/-- The items of two lists are read to the same if they are so one by one. -/
theorem items_agree {item : Value → InputPath → Coerced Json}
    {item' : Other → InputPath → Coerced Json} {related : Value → Other → Prop}
    (agree : ∀ value other, related value other → ∀ place result,
      item value place = .ok result → item' other place = .ok result)
    {values : List Value} {others : List Other} (same : List.Forall₂ related values others)
    {path : InputPath} {i : Nat} {results : List Json}
    (read : items item path i values = .ok results) : items item' path i others = .ok results := by
  induction same generalizing i results with
  | nil => exact read
  | cons here _ ih =>
    obtain ⟨own, first, read⟩ := bind_eq_ok.1 read
    obtain ⟨more, later, read⟩ := bind_eq_ok.1 read
    rw [items, agree _ _ here _ _ first, ih later]
    exact read

/-- A list that has another item in some place is read to the same if that item is. -/
theorem items_replaced {item : Value → InputPath → Coerced Json} {before after : Value}
    (kept : ∀ place result, item before place = .ok result → item after place = .ok result)
    {front rest : List Value} {path : InputPath} {i : Nat} {results : List Json}
    (read : items item path i (front ++ before :: rest) = .ok results) :
    items item path i (front ++ after :: rest) = .ok results := by
  have same : ∀ values : List Value, List.Forall₂ (fun value other =>
      ∀ place result, item value place = .ok result → item other place = .ok result) values values :=
    fun values => List.forall₂_same.2 fun _ _ _ _ => id
  exact items_agree (fun _ _ agree => agree)
    (List.rel_append (same front) (.cons kept (same rest))) read

variable {supplied supplied' : InputValueDefinition → InputPath → Coerced (Option Json)}
  {default default' : TypeRef → Literal → InputPath → Coerced Json} {path : InputPath}

/-- A field is read to the same if what is supplied for it and its default are. -/
theorem fieldValue_agree {field : InputValueDefinition}
    (hsupplied : ∀ value, supplied field (path.join (.key field.name)) = .ok value →
      supplied' field (path.join (.key field.name)) = .ok value)
    (hdefault : ∀ literal, field.default = some literal → ∀ place value,
      default field.type literal place = .ok value → default' field.type literal place = .ok value)
    {value : Option Json} (read : fieldValue supplied default path field = .ok value) :
    fieldValue supplied' default' path field = .ok value := by
  cases value with
  | none =>
    obtain ⟨own, optional⟩ := fieldValue_eq_none_iff.1 read
    exact fieldValue_eq_none_iff.2 ⟨hsupplied none own, optional⟩
  | some value =>
    rcases fieldValue_eq_some_iff.1 read with own | ⟨leftOut, literal, given, own⟩
    · exact fieldValue_eq_some_iff.2 (.inl (hsupplied (some value) own))
    · exact fieldValue_eq_some_iff.2
        (.inr ⟨hsupplied none leftOut, literal, given, hdefault literal given _ _ own⟩)

/-- An input object is read to the same if each of its fields is. -/
theorem inputFields_agree {fields : List InputValueDefinition}
    (agree : ∀ field ∈ fields, ∀ value, fieldValue supplied default path field = .ok value →
      fieldValue supplied' default' path field = .ok value)
    {members : Json.Object} (read : inputFields supplied default path fields = .ok members) :
    inputFields supplied' default' path fields = .ok members := by
  induction fields generalizing members with
  | nil => exact read
  | cons field rest ih =>
    obtain ⟨here, there⟩ := List.forall_mem_cons.1 agree
    rw [inputFields_cons] at read ⊢
    obtain ⟨own, first, read⟩ := bind_eq_ok.1 read
    obtain ⟨others, later, read⟩ := bind_eq_ok.1 read
    rw [here own first, ih there later]
    exact read

end Parts

section Values

variable {schema : Schema} {deeper deeper' : TypeRef → Json → InputPath → Coerced Json}
  {default default' : TypeRef → Literal → InputPath → Coerced Json}

/-- At a non-null type a value that is not null is read at the type inside. -/
theorem jsonAt_nonNull {inner : TypeRef} {value : Json} (present : value ≠ .null)
    (path : InputPath) :
    jsonAt schema deeper default (.nonNull inner) value path =
      jsonAt schema deeper default inner value path := by
  cases value with
  | null => exact absurd rfl present
  | _ => rfl

/-- A member that is read with few levels is read the same way with more. -/
theorem jsonField_agree {field : InputValueDefinition} {members : Json.Object}
    (hdeeper : ∀ value place result, deeper field.type value place = .ok result →
      deeper' field.type value place = .ok result)
    {path : InputPath} {value : Option Json} (read : jsonField deeper members field path = .ok value) :
    jsonField deeper' members field path = .ok value := by
  unfold jsonField at read ⊢
  split at read
  · obtain ⟨own, read, same⟩ := map_eq_ok.1 read
    exact map_eq_ok.2 ⟨own, hdeeper _ _ _ read, same⟩
  · exact read

/-- A JSON value is read to the same if its parts and the defaults of input fields are. -/
theorem jsonAt_agree
    (hdeeper : ∀ type value place result, deeper type value place = .ok result →
      deeper' type value place = .ok result)
    (hdefault : ∀ literal, schema.FieldDefault literal → ∀ type place result,
      default type literal place = .ok result → default' type literal place = .ok result)
    {type : TypeRef} {value : Json} {path : InputPath} {result : Json}
    (read : jsonAt schema deeper default type value path = .ok result) :
    jsonAt schema deeper' default' type value path = .ok result := by
  fun_induction jsonAt schema deeper default type value path generalizing result with
  | case2 inner value path present ih =>
    rw [jsonAt_nonNull present]
    exact ih read
  | case3 type path nullable =>
    rw [jsonAt]
    · exact read
    · exact nullable
  | case4 item values path =>
    obtain ⟨results, inside, same⟩ := bind_eq_ok.1 read
    have equal : List.Forall₂ Eq values values := List.forall₂_eq_eq_eq ▸ rfl
    rw [jsonAt, items_agree (fun value other same place result =>
      same ▸ hdeeper item value place result) equal inside]
    exact same
  | case6 scalar value path present own found =>
    rw [jsonAt, found]
    · exact read
    · exact present
  | case8 name path type symbol found =>
    simp only [jsonAt, found]
    exact read
  | case9 name path type members found =>
    rw [jsonAt_object found]
    obtain ⟨own, inside, same⟩ := bind_eq_ok.1 read
    refine map_eq_ok.2 ⟨own, inputFields_agree (fun field declared value => ?_) inside, ?_⟩
    · exact fieldValue_agree (fun value => jsonField_agree (hdeeper field.type))
        fun literal given => hdefault literal ⟨name, type, found, field, declared, given⟩ field.type
    · cases same
      rfl
  | case10 name path declared value found present =>
    rw [jsonAt]
    · exact read
    · exact declared
    · exact found
    · exact present
  | case1 | case5 | case7 | case11 => cases read

end Values

/-- A JSON value that is read with some levels is read to the same with more. -/
theorem coerceJson_of_le {schema : Schema} (distinct : schema.DistinctFields) {levels : Nat}
    {type : TypeRef} {value : Json} {path : InputPath} {result : Json}
    (read : coerceJson schema levels type value path = .ok result) {more : Nat}
    (enough : levels ≤ more) : coerceJson schema more type value path = .ok result := by
  induction levels generalizing more type value path result with
  | zero => cases read
  | succ levels ih =>
    obtain ⟨more, rfl⟩ := Nat.exists_eq_succ_of_ne_zero (Nat.ne_zero_of_lt enough)
    have fewer : levels ≤ more := Nat.le_of_succ_le_succ enough
    rw [coerceJson] at read ⊢
    exact jsonAt_agree (fun _ _ _ _ own => ih own fewer)
      (fun literal _ _ place _ own => coerceConstant_of_le distinct own fewer place) read

end Coercion

end GraphQL
