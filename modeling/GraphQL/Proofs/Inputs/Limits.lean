import GraphQL.Proofs.Inputs.Places

/-!
# Reading with other levels

A constant that is read with some number of levels is read to the same value with any other number,
if the value fits it, and else is nested too deeply (`Coercion.coerceConstant_limited`). Where it is
read makes no difference to the value.
-/

set_option autoImplicit false

namespace GraphQL

namespace Coercion

open Checks

/-- A value is read if some condition holds, and is nested too deeply if it does not. -/
structure Limited {α : Type} (fits : Prop) (result : Coerced α) (value : α) : Prop where
  read : fits → result = .ok value
  tooDeep : ¬ fits → ∃ place, result = .error (.tooDeep place)

namespace Limited

variable {α β : Type} {fits fits' : Prop} {result : Coerced α} {value : α}

/-- What is read under its condition is limited by it. -/
theorem of_read (holds : fits) (read : result = .ok value) : Limited fits result value :=
  ⟨fun _ => read, fun beyond => absurd holds beyond⟩

/-- What is nested too deeply without its condition is limited by it. -/
theorem of_beyond (beyond : ¬ fits) {place : InputPath}
    (failed : result = .error (.tooDeep place)) : Limited fits result value :=
  ⟨fun holds => absurd holds beyond, fun _ => ⟨place, failed⟩⟩

/-- Equivalent conditions limit the same. -/
theorem congr (limited : Limited fits result value) (same : fits' ↔ fits) :
    Limited fits' result value :=
  ⟨fun holds => limited.read (same.1 holds), fun beyond => limited.tooDeep (mt same.2 beyond)⟩

/-- Two readings one after the other are limited by both conditions. -/
theorem bind (limited : Limited fits result value) {next : α → Coerced β} {value' : β}
    (later : Limited fits' (next value) value') :
    Limited (fits ∧ fits') (result >>= next) value' := by
  by_cases holds : fits
  · rw [limited.read holds]
    exact later.congr (and_iff_right holds)
  · obtain ⟨place, failed⟩ := limited.tooDeep holds
    rw [failed]
    exact .of_beyond (fun both => holds both.1) rfl

/-- A changed value is limited by the same condition. -/
theorem map (limited : Limited fits result value) (f : α → β) :
    Limited fits (f <$> result) (f value) := by
  by_cases holds : fits
  · rw [limited.read holds]
    exact .of_read holds rfl
  · obtain ⟨place, failed⟩ := limited.tooDeep holds
    rw [failed]
    exact .of_beyond holds rfl

/-- Something is read just if the condition holds. -/
theorem exists_iff (limited : Limited fits result value) :
    (∃ own, result = .ok own) ↔ fits := by
  constructor
  · rintro ⟨own, read⟩
    by_contra beyond
    obtain ⟨place, failed⟩ := limited.tooDeep beyond
    cases read.symm.trans failed
  · exact fun holds => ⟨value, limited.read holds⟩

/-- What is limited fails for its depth alone. -/
theorem eq_tooDeep (limited : Limited fits result value) {cause : CoercionError}
    (failed : result = .error cause) : ∃ place, cause = .tooDeep place := by
  by_cases holds : fits
  · cases failed.symm.trans (limited.read holds)
  · obtain ⟨place, deep⟩ := limited.tooDeep holds
    cases failed.symm.trans deep
    exact ⟨place, rfl⟩

end Limited

variable {schema : Schema}

section Parts

variable {deeper deeper' : TypeRef → Literal → InputPath → Coerced Json}
  {fits : TypeRef → Json → Prop}

/-- A list is limited by what its items are. -/
theorem items_limited {type : TypeRef}
    (limited : ∀ literal path value, deeper type literal path = .ok value →
      ∀ place, Limited (fits type value) (deeper' type literal place) value)
    {values : List Literal} {path : InputPath} {i : Nat} {results : List Json}
    (read : items (deeper type) path i values = .ok results) (place : InputPath) (j : Nat) :
    Limited (∀ result ∈ results, fits type result) (items (deeper' type) place j values)
      results := by
  induction values generalizing i j results with
  | nil =>
    cases read
    exact .of_read (List.forall_mem_nil _) rfl
  | cons first rest ih =>
    obtain ⟨own, here, read⟩ := bind_eq_ok.1 read
    obtain ⟨others, later, read⟩ := bind_eq_ok.1 read
    cases read
    rw [List.forall_mem_cons]
    exact (limited first _ own here _).bind ((ih later _).map _)

/-- An object of constants supplies for a field what it gives for it. -/
theorem literalField_constants {fields : List (String × Literal)} {field : InputValueDefinition}
    {path : InputPath} {value : Option Json}
    (read : literalField .constants deeper fields field path = .ok value) :
    given? fields field.name = none ∧ value = none ∨
      ∃ literal, given? fields field.name = some literal ∧ (∀ name, literal ≠ .var name) ∧
        some <$> deeper field.type literal path = .ok value := by
  rw [literalField_eq_match] at read
  split at read
  · next given =>
    cases read
    exact .inl ⟨given, rfl⟩
  · cases read
  · next literal notVar given => exact .inr ⟨literal, given, notVar, read⟩

/-- A field of an object of constants, supplied or by default. -/
theorem fieldValue_limited
    (limited : ∀ type literal path value, deeper type literal path = .ok value →
      ∀ place, Limited (fits type value) (deeper' type literal place) value)
    {fields : List (String × Literal)} {field : InputValueDefinition} {path : InputPath}
    {value : Option Json}
    (read : fieldValue (literalField .constants deeper fields) deeper path field = .ok value)
    (place : InputPath) :
    Limited (∀ own, value = some own → fits field.type own)
      (fieldValue (literalField .constants deeper' fields) deeper' place field) value := by
  have leftOut : ∀ {path : InputPath} (deeper : TypeRef → Literal → InputPath → Coerced Json),
      given? fields field.name = none →
      literalField .constants deeper fields field path = .ok none := by
    intro path deeper given
    rw [literalField_eq_match, given]
  cases value with
  | none =>
    obtain ⟨supplied, optional⟩ := fieldValue_eq_none_iff.1 read
    refine .of_read (by simp) (fieldValue_eq_none_iff.2 ⟨?_, optional⟩)
    rcases literalField_constants supplied with ⟨given, -⟩ | ⟨literal, -, -, read⟩
    · exact leftOut deeper' given
    · obtain ⟨own, -, same⟩ := map_eq_ok.1 read
      cases same
  | some own =>
    have one : (∀ other, some own = some other → fits field.type other) ↔ fits field.type own := by
      simp
    rcases fieldValue_eq_some_iff.1 read with supplied | ⟨supplied, literal, default, read⟩
    · rcases literalField_constants supplied with ⟨-, same⟩ | ⟨literal, given, notVar, read⟩
      · cases same
      · obtain ⟨value, read, same⟩ := map_eq_ok.1 read
        cases same
        rw [fieldValue, literalField_of_given given notVar]
        refine Limited.congr ?_ (one.trans (and_iff_left trivial).symm)
        exact ((limited _ _ _ _ read _).map some).bind (.of_read trivial rfl)
    · rcases literalField_constants supplied with ⟨given, -⟩ | ⟨literal, -, -, read⟩
      · rw [fieldValue_of_default (leftOut deeper' given) default]
        exact ((limited _ _ _ _ read _).map some).congr one
      · obtain ⟨own, -, same⟩ := map_eq_ok.1 read
        cases same

/-- The fields of an object of constants. -/
theorem inputFields_limited
    (limited : ∀ type literal path value, deeper type literal path = .ok value →
      ∀ place, Limited (fits type value) (deeper' type literal place) value)
    {given : List (String × Literal)} {path : InputPath} {fields : List InputValueDefinition}
    {members : Json.Object}
    (read : inputFields (literalField .constants deeper given) deeper path fields = .ok members)
    (place : InputPath) :
    Limited (∀ field ∈ fields, ∀ value,
        fieldValue (literalField .constants deeper given) deeper path field = .ok (some value) →
        fits field.type value)
      (inputFields (literalField .constants deeper' given) deeper' place fields) members := by
  induction fields generalizing members with
  | nil =>
    cases read
    exact .of_read (List.forall_mem_nil _) rfl
  | cons field rest ih =>
    rw [inputFields_cons] at read ⊢
    obtain ⟨own, here, read⟩ := bind_eq_ok.1 read
    obtain ⟨others, later, read⟩ := bind_eq_ok.1 read
    rw [List.forall_mem_cons]
    simp only [here, Except.ok.injEq]
    refine (fieldValue_limited limited here place).bind ?_
    refine Limited.congr ?_ (and_iff_left trivial).symm
    exact (ih later).bind (.of_read trivial read)

end Parts

section Constants

variable {deeper deeper' : TypeRef → Literal → InputPath → Coerced Json} {levels : Nat}

/-- What is read of a constant is read where the parts may have other levels, if it fits them and
one more. -/
theorem literalAt_limited (distinct : schema.DistinctFields)
    (limited : ∀ type literal path value, deeper type literal path = .ok value →
      ∀ place, Limited (InputFits schema levels type value) (deeper' type literal place) value)
    (type : TypeRef) (literal : Literal) (path : InputPath) {value : Json}
    (read : literalAt schema .constants deeper type literal path = .ok value) (place : InputPath) :
    Limited (InputFits schema (levels + 1) type value)
      (literalAt schema .constants deeper' type literal place) value := by
  -- a value without parts is read whatever the levels of parts are
  have alone : ∀ {type : TypeRef} {result : Coerced Json}, type.isNonNull = false →
      (∀ inner part, ¬ InputPart schema type value inner part) → result = .ok value →
      Limited (InputFits schema (levels + 1) type value) result value :=
    fun nullable noPart same => .of_read (inputFits_of_no_part nullable noPart) same
  fun_induction literalAt schema .constants deeper type literal path with
  | case3 inner literal path notVar notNull ih =>
    rw [literalAt_nonNull notVar notNull]
    exact (ih read).congr inputFits_nonNull_iff
  | case4 type path notNonNull =>
    cases read
    refine alone (TypeRef.isNonNull_eq_false notNonNull) (by rintro _ _ ⟨⟩) ?_
    rw [literalAt]
    exact notNonNull
  | case5 item values path =>
    obtain ⟨results, inside, same⟩ := bind_eq_ok.1 read
    cases same
    rw [literalAt]
    refine ((items_limited (limited item) inside place 0).map _).congr ?_
    rw [inputFits_succ_iff rfl]
    constructor
    · exact fun fits result member => fits item result (.item member)
    · rintro fits _ _ ⟨member⟩
      exact fits _ member
  | case7 scalar literal path notVar notNull own hown =>
    cases read
    refine alone rfl (by rintro _ _ ⟨⟩) ?_
    rw [literalAt, hown] <;> assumption
  | case9 name path type symbol found notVar notNull =>
    unfold enumSymbol at read
    split at read
    · next declared =>
      cases read
      refine alone rfl (by rintro _ _ ⟨⟩) ?_
      simp only [literalAt, found, enumSymbol, declared]
      rfl
    · cases read
  | case10 name path type fields found notVar notNull =>
    obtain ⟨members, inside, same⟩ := bind_eq_ok.1 read
    cases same
    rw [literalAt_object found]
    refine ((inputFields_limited limited inside place).map Json.object).congr ?_
    rw [inputFits_succ_iff rfl]
    constructor
    · intro fits field declared value own
      refine fits field.type value (.field found declared ?_)
      obtain ⟨-, rfl⟩ := inputFields_eq_ok_iff.1 inside
      exact List.mem_filterMap.2 ⟨field, declared, member?_eq_some_iff.2 ⟨rfl, own⟩⟩
    · rintro fits _ _ (_ | ⟨found', declared, member⟩)
      cases found.symm.trans found'
      exact fits _ declared _ (fieldValue_of_member (distinct _ _ found) inside declared member)
  | case11 name path declared literal found notVar notNull =>
    refine alone rfl ?_ ?_
    · rintro _ _ (_ | ⟨found', -, -⟩)
      cases found.symm.trans found'
    · rw [← read, literalAt] <;> assumption
  | case1 | case2 | case6 | case8 | case12 => cases read

/-- A constant that is read with some levels is read to the same value with any others that the
value fits, wherever it is read. With fewer levels it is nested too deeply. -/
theorem coerceConstant_limited (distinct : schema.DistinctFields) {type : TypeRef}
    {literal : Literal} {path : InputPath} {value : Json}
    (read : coerceConstant schema levels type literal path = .ok value) (other : Nat)
    (place : InputPath) :
    Limited (InputFits schema other type value) (coerceConstant schema other type literal place)
      value := by
  induction other generalizing levels type literal path value place with
  | zero => exact .of_beyond not_inputFits_zero rfl
  | succ other ih =>
    obtain ⟨rest, rfl, step⟩ := coerceConstant_eq_ok_iff.1 read
    have parts : ∀ type literal path value,
        coerceConstant schema rest type literal path = .ok value → ∀ place,
        Limited (InputFits schema other type value)
          (coerceConstant schema other type literal place) value :=
      fun type literal path value own place => ih own place
    exact literalAt_limited distinct parts type literal path step place

/-- A constant that was read is read alike with more levels, wherever it stands. -/
theorem coerceConstant_of_le (distinct : schema.DistinctFields) {type : TypeRef}
    {literal : Literal} {path : InputPath} {result : Json}
    (read : coerceConstant schema levels type literal path = .ok result) {more : Nat}
    (enough : levels ≤ more) (place : InputPath) :
    coerceConstant schema more type literal place = .ok result := by
  have fits : InputFits schema levels type result :=
    (coerceConstant_limited distinct read levels path).exists_iff.1 ⟨result, read⟩
  exact (coerceConstant_limited distinct read more place).read fun depth last part holds =>
    Nat.lt_of_lt_of_le (fits depth last part holds) enough

end Constants

end Coercion

end GraphQL
