import GraphQL.Proofs.Inputs.Agreement
import GraphQL.Proofs.Inputs.Culprits

/-!
# The keys of a client's objects

Clients may give the members of an object in any order, and may give members that are no declared
fields. Whether a JSON value is read, and as what, does not depend on either, at any depth
(`Coercion.coerceJson_rekeyed`). Only a declared scalar sees an object as the client wrote it.
-/

set_option autoImplicit false

namespace GraphQL

open Relation (ReflTransGen)

/-- A key is the name of a field of the input object type that is expected. -/
def Schema.Declares (schema : Schema) (type : TypeRef) (key : String) : Prop :=
  ∃ name object, type.unmarked = .named name ∧ schema.type? name = some (.inputObject object) ∧
    ∃ field ∈ object.fields, field.name = key

/-- No part of a value is supplied for a type. -/
def Unread (schema : Schema) (type : TypeRef) (value : Json) : Prop :=
  ∀ step expected part, ¬ SuppliedAt schema type value [step] expected part

/-- A value of some type is changed where it makes no difference, outside declared scalars. The
members of an object are put in another order; members that are no declared fields are added or
removed; and where nothing inside an array or an object is supplied for a type, as where a number is
expected, the array or object is changed to any other like that. -/
inductive Rekeyed (schema : Schema) : TypeRef → Json → Json → Prop
  | permuted {type : TypeRef} {members members' : Json.Object}
    (outside : ¬ type.IsDeclaredScalar schema) (distinct : (Json.Object.keys members).Nodup)
    (perm : members.Perm members') : Rekeyed schema type (.object members) (.object members')
  | added {type : TypeRef} (front rest : Json.Object) {key : String} {value : Json}
    (outside : ¬ type.IsDeclaredScalar schema) (unknown : ¬ schema.Declares type key) :
    Rekeyed schema type (.object (front ++ rest)) (.object (front ++ (key, value) :: rest))
  | removed {type : TypeRef} (front rest : Json.Object) {key : String} {value : Json}
    (outside : ¬ type.IsDeclaredScalar schema) (unknown : ¬ schema.Declares type key) :
    Rekeyed schema type (.object (front ++ (key, value) :: rest)) (.object (front ++ rest))
  | unreadArray {type : TypeRef} {values values' : List Json}
    (outside : ¬ type.IsDeclaredScalar schema) (unread : Unread schema type (.array values))
    (unread' : Unread schema type (.array values')) :
    Rekeyed schema type (.array values) (.array values')
  | unreadObject {type : TypeRef} {members members' : Json.Object}
    (outside : ¬ type.IsDeclaredScalar schema) (unread : Unread schema type (.object members))
    (unread' : Unread schema type (.object members')) :
    Rekeyed schema type (.object members) (.object members')
  | nonNull {inner : TypeRef} {before after : Json} (inside : Rekeyed schema inner before after) :
    Rekeyed schema (.nonNull inner) before after
  | item {item : TypeRef} (front rest : List Json) {before after : Json}
    (inside : Rekeyed schema item before after) :
    Rekeyed schema (.list item) (.array (front ++ before :: rest)) (.array (front ++ after :: rest))
  | member {name : String} {object : InputObjectType} {field : InputValueDefinition}
    (front rest : Json.Object) {before after : Json}
    (found : schema.type? name = some (.inputObject object)) (declared : field ∈ object.fields)
    (inside : Rekeyed schema field.type before after) :
    Rekeyed schema (.named name) (.object (front ++ (field.name, before) :: rest))
      (.object (front ++ (field.name, after) :: rest))

namespace Rekeyed

variable {schema : Schema} {type : TypeRef} {before after : Json}

/-- Changes can be undone. -/
theorem symm (rekeyed : Rekeyed schema type before after) : Rekeyed schema type after before := by
  induction rekeyed with
  | permuted outside distinct perm =>
    exact .permuted outside ((perm.map Prod.fst).nodup_iff.1 distinct) perm.symm
  | added front rest outside unknown => exact .removed front rest outside unknown
  | removed front rest outside unknown => exact .added front rest outside unknown
  | unreadArray outside unread unread' => exact .unreadArray outside unread' unread
  | unreadObject outside unread unread' => exact .unreadObject outside unread' unread
  | nonNull _ ih => exact .nonNull ih
  | item front rest _ ih => exact .item front rest ih
  | member front rest found declared _ ih => exact .member front rest found declared ih

/-- Neither of two values that differ in this way is null. -/
theorem ne_null (rekeyed : Rekeyed schema type before after) : before ≠ .null ∧ after ≠ .null := by
  induction rekeyed with
  | nonNull _ ih => exact ih
  | permuted | added | removed | unreadArray | unreadObject | item | member =>
    exact ⟨Json.noConfusion, Json.noConfusion⟩

end Rekeyed

section Members

variable {key other : String} {value : Json}

/-- A member with another key makes no difference to what is under a key. -/
theorem Json.Object.get?_added (front rest : Object) (different : key ≠ other) :
    get? (front ++ (key, value) :: rest) other = get? (front ++ rest) other := by
  induction front with
  | nil => rw [List.nil_append, List.nil_append, get?_cons, if_neg different]
  | cons member front ih => rw [List.cons_append, List.cons_append, get?_cons, get?_cons, ih]

/-- The order of members with distinct keys makes no difference to what is under a key. -/
theorem Json.Object.get?_perm {members members' : Object} (distinct : (keys members).Nodup)
    (perm : members.Perm members') (key : String) : get? members key = get? members' key := by
  induction perm with
  | nil => rfl
  | cons member _ ih => rw [get?_cons, get?_cons, ih (List.nodup_cons.1 distinct).2]
  | swap member second rest =>
    have different : second.1 ≠ member.1 := by
      simp only [keys, List.map_cons, List.nodup_cons, List.mem_cons, not_or] at distinct
      exact distinct.1.1
    rw [get?_cons, get?_cons, get?_cons, get?_cons]
    by_cases here : member.1 = key
    · rw [if_pos here, if_pos here, if_neg (here ▸ different)]
    · rw [if_neg here, if_neg here]
  | trans first _ ih ih' =>
    rw [ih distinct, ih' ((first.map Prod.fst).nodup_iff.1 distinct)]

end Members

namespace Coercion

open Checks

variable {schema : Schema} {deeper : TypeRef → Json → InputPath → Coerced Json}
  {default : TypeRef → Literal → InputPath → Coerced Json} {type : TypeRef} {path : InputPath}
  {result : Json}

/-- Outside declared scalars, an object is read for what it has for declared fields. -/
theorem jsonAt_of_get? (outside : ¬ type.IsDeclaredScalar schema) {members members' : Json.Object}
    (same : ∀ key, schema.Declares type key →
      Json.Object.get? members key = Json.Object.get? members' key)
    (read : jsonAt schema deeper default type (.object members) path = .ok result) :
    jsonAt schema deeper default type (.object members') path = .ok result := by
  induction type with
  | builtin scalar => cases scalar <;> cases read
  | list item => cases read
  | nonNull inner ih => exact ih outside same read
  | named name =>
    cases found : schema.type? name with
    | none => simp [jsonAt, found] at read
    | some target =>
      cases target with
      | scalar declared => exact absurd ⟨declared, found⟩ outside
      | inputObject object =>
        rw [jsonAt_object found] at read ⊢
        obtain ⟨own, inside, made⟩ := map_eq_ok.1 read
        refine map_eq_ok.2 ⟨own, inputFields_agree (fun field declared value => ?_) inside, made⟩
        refine fieldValue_agree (fun value => ?_) fun _ _ _ _ => id
        rw [jsonField, jsonField, same field.name ⟨name, object, rfl, found, field, declared, rfl⟩]
        exact id
      | _ => simp [jsonAt, found] at read

/-- Outside declared scalars, an array is read only if the types of its items are known. -/
theorem jsonAt_of_unread (outside : ¬ type.IsDeclaredScalar schema) {values values' : List Json}
    (unread : Unread schema type (.array values)) (unread' : Unread schema type (.array values'))
    (read : jsonAt schema deeper default type (.array values) path = .ok result) :
    jsonAt schema deeper default type (.array values') path = .ok result := by
  induction type with
  | builtin scalar => cases scalar <;> cases read
  | nonNull inner ih =>
    exact ih outside (fun step expected part inside => unread step expected part (.nonNull inside))
      (fun step expected part inside => unread' step expected part (.nonNull inside)) read
  | list item =>
    have empty : ∀ {values : List Json}, Unread schema (.list item) (.array values) →
        values = [] := by
      intro values unread
      cases values with
      | nil => rfl
      | cons first rest => exact absurd (.item rfl .here) (unread (.index 0) item first)
    rw [empty unread] at read
    rw [empty unread']
    exact read
  | named name =>
    cases found : schema.type? name with
    | none => simp [jsonAt, found] at read
    | some target =>
      cases target with
      | scalar declared => exact absurd ⟨declared, found⟩ outside
      | _ => simp [jsonAt, found] at read

/-- A part of an object that is read for a type is supplied for it. -/
theorem get?_of_unread {members : Json.Object} (unread : Unread schema type (.object members))
    {key : String} (declares : schema.Declares type key) :
    Json.Object.get? members key = none := by
  obtain ⟨name, object, same, found, field, declared, rfl⟩ := declares
  cases there : Json.Object.get? members field.name with
  | none => rfl
  | some value => exact absurd (.of_field same found declared there .here) (unread _ _ value)

/-- A change that makes no difference keeps what is read. -/
theorem coerceJson_of_rekeyed (distinct : schema.DistinctFields) {before after : Json}
    (rekeyed : Rekeyed schema type before after) {levels : Nat}
    (read : coerceJson schema levels type before path = .ok result) :
    coerceJson schema levels type after path = .ok result := by
  -- on the place of the change: outside of it the value is read as before
  induction rekeyed generalizing levels path result with
  | permuted outside nodup perm =>
    obtain ⟨rest, rfl, step⟩ := coerceJson_eq_ok_iff.1 read
    exact jsonAt_of_get? outside (fun key _ => Json.Object.get?_perm nodup perm key) step
  | added front rest outside unknown =>
    obtain ⟨levels, rfl, step⟩ := coerceJson_eq_ok_iff.1 read
    refine jsonAt_of_get? outside (fun key declares => ?_) step
    refine (Json.Object.get?_added front rest fun same => ?_).symm
    exact unknown (same ▸ declares)
  | removed front rest outside unknown =>
    obtain ⟨levels, rfl, step⟩ := coerceJson_eq_ok_iff.1 read
    refine jsonAt_of_get? outside (fun key declares => ?_) step
    refine Json.Object.get?_added front rest fun same => ?_
    exact unknown (same ▸ declares)
  | unreadArray outside unread unread' =>
    obtain ⟨rest, rfl, step⟩ := coerceJson_eq_ok_iff.1 read
    exact jsonAt_of_unread outside unread unread' step
  | unreadObject outside unread unread' =>
    obtain ⟨rest, rfl, step⟩ := coerceJson_eq_ok_iff.1 read
    refine jsonAt_of_get? outside (fun key declares => ?_) step
    rw [get?_of_unread unread declares, get?_of_unread unread' declares]
  | nonNull inside ih =>
    obtain ⟨rest, rfl, step⟩ := coerceJson_eq_ok_iff.1 read
    rw [coerceJson, jsonAt_nonNull inside.ne_null.2]
    exact ih (coerceJson_eq_ok_iff.2 ⟨rest, rfl, jsonAt_inner step⟩)
  | item front rest inside ih =>
    obtain ⟨levels, rfl, step⟩ := coerceJson_eq_ok_iff.1 read
    obtain ⟨results, step, made⟩ := bind_eq_ok.1 step
    rw [coerceJson, jsonAt]
    exact bind_eq_ok.2 ⟨results, items_replaced (fun place result => ih) step, made⟩
  | @member name object field front rest before after found declared inside ih =>
    obtain ⟨levels, rfl, step⟩ := coerceJson_eq_ok_iff.1 read
    rw [jsonAt_object found] at step
    obtain ⟨own, step, made⟩ := map_eq_ok.1 step
    rw [coerceJson, jsonAt_object found]
    refine map_eq_ok.2 ⟨own, inputFields_agree (fun other listed value => ?_) step, made⟩
    refine fieldValue_agree (fun value => ?_) fun _ _ _ _ => id
    unfold jsonField Json.Object.get?
    rcases find?_replaced front rest field.name before after other.name with same | ⟨key, first, now⟩
    · rw [same]
      exact id
    · -- names are distinct, so that it is read at the type of the very field
      obtain rfl := List.inj_on_of_nodup_map (distinct name object found) declared listed key
      rw [first, now]
      intro supplied
      obtain ⟨own, here, made⟩ := map_eq_ok.1 supplied
      exact map_eq_ok.2 ⟨own, ih here, made⟩

/-- The members of an input object conform to the types of their fields. -/
theorem conforms_of_mem {fields : List InputValueDefinition} {members : Json.Object}
    (conforms : InputFields schema fields members) {key : String} {value : Json}
    (member : (key, value) ∈ members) :
    ∃ field ∈ fields, field.name = key ∧ InputConforms schema field.type value := by
  induction fields generalizing members with
  | nil =>
    cases conforms
    cases member
  | cons field rest ih =>
    cases conforms with
    | given own others =>
      rcases List.mem_cons.1 member with here | member
      · cases here
        exact ⟨field, List.mem_cons_self, rfl, own⟩
      · obtain ⟨other, listed, found⟩ := ih others member
        exact ⟨other, List.mem_cons_of_mem _ listed, found⟩
    | leftOut nullable noDefault others =>
      obtain ⟨other, listed, found⟩ := ih others member
      exact ⟨other, List.mem_cons_of_mem _ listed, found⟩

/-- What conforms holds parts that conform to the types they have in it. -/
theorem conforms_of_holds (distinct : schema.DistinctFields) {value part : Json} {expected : TypeRef}
    {depth : Nat} (conforms : InputConforms schema type value)
    (holds : InputHolds schema type value depth expected part) :
    InputConforms schema expected part := by
  induction holds with
  | here => exact conforms
  | nonNull _ ih =>
    cases conforms with
    | null nullable => cases nullable
    | nonNull inside => exact ih inside
  | deeper directly _ ih =>
    refine ih ?_
    cases directly with
    | item member =>
      cases conforms with
      | list items => exact items _ member
    | field found declared member =>
      cases conforms with
      | scalar found' => cases found.symm.trans found'
      | object found' fields =>
        cases found.symm.trans found'
        obtain ⟨field, listed, same, own⟩ := conforms_of_mem fields member
        cases List.inj_on_of_nodup_map (distinct _ _ found) listed declared same
        exact own

/-- The order in which a client gives the members of objects makes no difference, and neither do
members that are no declared fields.

Where a JSON value is changed in such ways, any number of times and at any depth outside declared
scalars, either both values are refused or both are read to the same. Of what is read, each input
object has the keys of declared fields, in the order of their declaration. -/
theorem coerceJson_rekeyed {limit : Nat} {text : String}
    (accepted : Schema.parseWithin limit text = .ok schema) {before after : Json}
    (changed : ReflTransGen (Rekeyed schema type) before after) (levels : Nat) (path : InputPath) :
    (∃ cause cause', coerceJson schema levels type before path = .error cause ∧
        coerceJson schema levels type after path = .error cause') ∨
      ∃ result, coerceJson schema levels type before path = .ok result ∧
        coerceJson schema levels type after path = .ok result ∧
        InputConforms schema type result ∧
        ∀ depth name object members, InputHolds schema type result depth (.named name)
            (.object members) → schema.type? name = some (.inputObject object) →
          (Json.Object.keys members).Sublist (object.fields.map (·.name)) := by
  have distinct := Schema.distinctFields_of_parseWithin accepted
  have same : ∀ result, coerceJson schema levels type before path = .ok result ↔
      coerceJson schema levels type after path = .ok result := by
    intro result
    induction changed with
    | refl => rfl
    | tail _ step ih =>
      rw [ih]
      exact ⟨coerceJson_of_rekeyed distinct step, coerceJson_of_rekeyed distinct step.symm⟩
  cases read : coerceJson schema levels type before path with
  | error cause =>
    cases read' : coerceJson schema levels type after path with
    | error cause' => exact .inl ⟨cause, cause', rfl, rfl⟩
    | ok result => cases read.symm.trans ((same result).2 read')
  | ok result =>
    have conforms := coerceJson_sound schema levels type before path result read
    refine .inr ⟨result, rfl, (same result).1 read, conforms, ?_⟩
    intro depth name object members holds found
    cases conforms_of_holds distinct conforms holds with
    | scalar found' => cases found.symm.trans found'
    | object found' fields =>
      cases found.symm.trans found'
      exact fields.keys_sublist

/-- A range in a list is read alike with its points first and with a member that ranges do not
have. -/
theorem coerceJson_rekeyed_range :
    let ranges : Json := .array [.object [("start", .ofInt 0), ("points", .array [.ofInt 1])]]
    let others : Json := .array
      [.object [("points", .array [.ofInt 1]), ("note", .array [.bool true]), ("start", .ofInt 0)]]
    coerceJson rangeSchema allLevels (.list (.named "Range")) ranges (.root "ranges") = .ok ranges ∧
      coerceJson rangeSchema allLevels (.list (.named "Range")) others (.root "ranges") =
        .ok ranges := by
  intro ranges others
  have found : rangeSchema.type? "Range" = some (.inputObject rangeType) := rfl
  have outside : ¬ (TypeRef.named "Range").IsDeclaredScalar rangeSchema := by
    rintro ⟨declared, found'⟩
    cases found.symm.trans found'
  have unknown : ¬ rangeSchema.Declares (.named "Range") "note" := by
    rintro ⟨name, object, same, found', field, declared, key⟩
    cases same
    cases found.symm.trans found'
    simp only [rangeType, List.mem_cons, List.not_mem_nil, or_false] at declared
    rcases declared with rfl | rfl <;> simp at key
  have swapped : Rekeyed rangeSchema (.list (.named "Range")) ranges
      (.array [.object [("points", .array [.ofInt 1]), ("start", .ofInt 0)]]) :=
    .item [] [] (.permuted outside (by decide) (.swap _ _ _))
  have noted : Rekeyed rangeSchema (.list (.named "Range"))
      (.array [.object [("points", .array [.ofInt 1]), ("start", .ofInt 0)]]) others :=
    .item [] [] (.added [_] [_] outside unknown)
  have read : coerceJson rangeSchema allLevels (.list (.named "Range")) ranges (.root "ranges") =
      .ok ranges := rfl
  rcases coerceJson_rekeyed parseWithin_rangeText (.tail (.single swapped) noted) allLevels
      (.root "ranges") with ⟨cause, -, failed, -⟩ | ⟨result, first, second, -⟩
  · cases read.symm.trans failed
  · cases read.symm.trans first
    exact ⟨read, second⟩

end Coercion

end GraphQL
