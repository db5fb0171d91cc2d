import Mathlib
import GraphQL.Proofs.Registries.Validation

/-!
# Registries and their history

A registry is filled by requests that may fail, or fail part of the way. Whatever the requests were,
it is a finite map in which the first binding of a field stays, and it is accepted for a schema just
if its fields are those of the schema and their bindings accept the declared arguments
(`Registry.after_firstStays`). The history is kept as the list of all attempts to bind a field, also
of those that failed: what one request does to the registry and to this list keeps them in step
(`Registry.Records.bindEach`), so that looking up a field is searching the list.
-/

set_option autoImplicit false

namespace GraphQL

variable {State : Type}

namespace Binding

/-- What a binding is of. -/
def field (binding : Binding State) : String × String :=
  (binding.typeName, binding.fieldName)

/-- A binding is of the field that it names. -/
theorem isOf_eq (binding : Binding State) (typeName fieldName : String) :
    binding.isOf typeName fieldName = decide (binding.field = (typeName, fieldName)) := by
  rw [isOf, field, Bool.eq_iff_iff]
  simp

/-- A binding is of a field if and only if it names its type and its own name. -/
theorem isOf_iff {binding : Binding State} {typeName fieldName : String} :
    binding.isOf typeName fieldName = true ↔
      binding.typeName = typeName ∧ binding.fieldName = fieldName := by
  simp [isOf]

/-- The binding that reads a property is of the field it is made for, and of no other one. -/
theorem property_isOf_iff {typeName fieldName otherType otherField : String} :
    (property typeName fieldName : Binding State).isOf otherType otherField = true ↔
      otherType = typeName ∧ otherField = fieldName := by
  rw [isOf_iff, eq_comm, eq_comm (a := otherField), property]

end Binding

namespace Registry

/-- A request to a registry. -/
inductive Step (State : Type) where
  | bind (binding : Binding State)
  | bindProperties (typeName : String) (fieldNames : List String)

namespace Step

/-- What a request makes of a registry, and what it answers. -/
def run : Step State → Registry State → Registry State × Except BindingError Unit
  | bind binding, registry =>
    match registry.bind binding with
    | .ok next => (next, .ok ())
    | .error cause => (registry, .error cause)
  | bindProperties typeName fieldNames, registry => registry.bindProperties typeName fieldNames

/-- The bindings that a request is for. -/
def asked : Step State → List (Binding State)
  | bind binding => [binding]
  | bindProperties typeName fieldNames => fieldNames.map (Binding.property typeName)

end Step

/-- The registry after some requests, at first empty. -/
def after (steps : List (Step State)) : Registry State :=
  steps.foldl (fun registry step => (step.run registry).1) {}

/-- Earlier attempts, and those to make some bindings in order up to the first that is of a field
tried before. That one fails, and what follows it is not tried. -/
def tryEach (earlier : List (Binding State)) : List (Binding State) → List (Binding State)
  | [] => earlier
  | binding :: rest =>
    if earlier.any fun other => other.isOf binding.typeName binding.fieldName then
      earlier ++ [binding]
    else tryEach (earlier ++ [binding]) rest

/-- All attempts to bind a field in the course of some requests. -/
def attempts (steps : List (Step State)) : List (Binding State) :=
  steps.foldl (fun earlier step => tryEach earlier step.asked) []

/-- Some resolver is bound to the field. -/
def Bound (registry : Registry State) (typeName fieldName : String) : Prop :=
  ∃ binding, registry.lookup typeName fieldName = .ok binding

/-- What binding properties comes to: the fields before some field are bound, as they were free and
differ, and that field, if there is one, is bound already and is what the answer reports. -/
structure KeepsUpTo (registry : Registry State) (typeName : String) (kept rest : List String)
    (result : Registry State × Except BindingError Unit) : Prop where
  nodup : kept.Nodup
  free : ∀ fieldName ∈ kept, ¬registry.Bound typeName fieldName
  lookup? : ∀ otherType fieldName, result.1.lookup? otherType fieldName =
    if otherType = typeName ∧ fieldName ∈ kept then some (.property typeName fieldName)
    else registry.lookup? otherType fieldName
  answer : (rest = [] ∧ result.2 = .ok ()) ∨
    ∃ fieldName more, rest = fieldName :: more ∧
      (registry.Bound typeName fieldName ∨ fieldName ∈ kept) ∧
      result.2 = .error (.duplicate typeName fieldName)

/-- The registry is a finite map from fields to bindings. The binding of a field is the first that
was attempted, and no later request changes it. -/
structure FirstStays (registry : Registry State) (tried : List (Binding State)) : Prop where
  lookup : ∀ typeName fieldName, registry.lookup typeName fieldName =
    (tried.find? fun binding => binding.isOf typeName fieldName).elim
      (.error (.notFound typeName fieldName)) .ok
  size : ∃ fields : Finset (String × String), registry.size = fields.card ∧
    ∀ typeName fieldName, (typeName, fieldName) ∈ fields ↔ registry.Bound typeName fieldName
  bind_bound : ∀ binding, registry.Bound binding.typeName binding.fieldName →
    (Step.bind binding).run registry =
      (registry, .error (.duplicate binding.typeName binding.fieldName))
  bind_free : ∀ binding, ¬registry.Bound binding.typeName binding.fieldName →
    ∃ next, (Step.bind binding).run registry = (next, .ok ()) ∧
      ∀ typeName fieldName, next.lookup? typeName fieldName =
        if binding.isOf typeName fieldName then some binding
        else registry.lookup? typeName fieldName
  bindProperties : ∀ typeName fieldNames, ∃ kept rest, fieldNames = kept ++ rest ∧
    registry.KeepsUpTo typeName kept rest
      ((Step.bindProperties typeName fieldNames).run registry)

/-! ## One binding -/

section Binding

variable {registry : Registry State} {binding : Binding State} {typeName fieldName : String}

/-- What is not found is reported with the names that were looked up. -/
theorem lookup_eq (registry : Registry State) (typeName fieldName : String) :
    registry.lookup typeName fieldName =
      (registry.lookup? typeName fieldName).elim (.error (.notFound typeName fieldName)) .ok := by
  rw [lookup]
  cases registry.lookup? typeName fieldName <;> rfl

/-- Looking up succeeds with a binding if and only if this binding is found. -/
theorem lookup_eq_ok_iff :
    registry.lookup typeName fieldName = .ok binding ↔
      registry.lookup? typeName fieldName = some binding := by
  rw [lookup_eq, Checks.elim_eq_ok_iff]

/-- A field is bound if and only if a binding is found for it. -/
theorem bound_iff : registry.Bound typeName fieldName ↔
    (registry.lookup? typeName fieldName).isSome = true := by
  simp [Bound, lookup_eq_ok_iff, Option.isSome_iff_exists]

/-- Placing a binding adds it to the bindings, somewhere. -/
theorem place_perm (binding : Binding State) (bindings : List (Binding State)) :
    (place binding bindings).Perm (binding :: bindings) := by
  induction bindings with
  | nil => exact .refl _
  | cons first rest ih =>
    rw [place]
    split
    · exact .swap binding first rest
    · exact (ih.cons first).trans (.swap binding first rest)

/-- Where a binding is placed makes no difference to a search that passes over it. -/
theorem find?_place_of_not {p : Binding State → Bool} (passed : ¬p binding)
    (bindings : List (Binding State)) : (place binding bindings).find? p = bindings.find? p := by
  induction bindings with
  | nil => simp [place, passed]
  | cons first rest ih =>
    simp only [place]
    split <;> simp [List.find?_cons, passed, ih]

/-- A search that finds nothing finds the binding once it is placed. -/
theorem find?_place_of_none {p : Binding State → Bool} (found : p binding)
    {bindings : List (Binding State)} (missing : bindings.find? p = none) :
    (place binding bindings).find? p = some binding := by
  induction bindings with
  | nil => simp [place, found]
  | cons first rest ih =>
    obtain ⟨passed, missing⟩ : p first = false ∧ rest.find? p = none := by simpa using missing
    simp only [place]
    split <;> simp [passed, found, ih missing]

/-- A field that is bound is not bound again. -/
theorem bind_of_bound (binding : Binding State)
    (bound : registry.Bound binding.typeName binding.fieldName) :
    registry.bind binding = .error (.duplicate binding.typeName binding.fieldName) := by
  rw [bind, if_pos (bound_iff.1 bound)]

/-- What binding a free field does: the binding is placed and then found under its field. -/
theorem bind_of_not_bound (binding : Binding State)
    (free : ¬registry.Bound binding.typeName binding.fieldName) :
    ∃ next, registry.bind binding = .ok next ∧
      next.bindings = place binding registry.bindings ∧
      ∀ typeName fieldName, next.lookup? typeName fieldName =
        if binding.isOf typeName fieldName then some binding
        else registry.lookup? typeName fieldName := by
  rw [bound_iff] at free
  refine ⟨_, if_neg free, rfl, fun typeName fieldName => ?_⟩
  split
  next same =>
    obtain ⟨rfl, rfl⟩ := Binding.isOf_iff.1 same
    exact find?_place_of_none same (Option.not_isSome_iff_eq_none.1 free)
  next other => exact find?_place_of_not other _

end Binding

/-! ## A list of bindings -/

section Bindings

variable {registry : Registry State}

/-- Makes bindings in order up to the first that fails. -/
def bindEach (registry : Registry State) :
    List (Binding State) → Registry State × Except BindingError Unit
  | [] => (registry, .ok ())
  | binding :: rest =>
    match registry.bind binding with
    | .ok next => next.bindEach rest
    | .error cause => (registry, .error cause)

/-- Binding properties makes one binding for each field, in order. -/
theorem bindProperties_eq (registry : Registry State) (typeName : String)
    (fieldNames : List String) : registry.bindProperties typeName fieldNames =
      registry.bindEach (fieldNames.map (Binding.property typeName)) := by
  induction fieldNames generalizing registry with
  | nil => rfl
  | cons fieldName rest ih =>
    rw [bindProperties, List.map_cons, bindEach]
    cases registry.bind (.property typeName fieldName) with
    | ok next => exact ih next
    | error cause => rfl

/-- Each request is for some bindings, which it makes in order up to the first that fails. -/
theorem Step.run_eq (step : Step State) (registry : Registry State) :
    step.run registry = registry.bindEach step.asked := by
  cases step with
  | bind binding => simp only [run, asked, bindEach]
  | bindProperties typeName fieldNames => exact bindProperties_eq registry typeName fieldNames

/-- Where a first field is bound before others, it is kept as they are. -/
theorem KeepsUpTo.cons {next : Registry State} {typeName first : String} {kept rest : List String}
    {result : Registry State × Except BindingError Unit}
    (found : ∀ otherType fieldName, next.lookup? otherType fieldName =
      if (Binding.property typeName first : Binding State).isOf otherType fieldName then
        some (.property typeName first)
      else registry.lookup? otherType fieldName)
    (free : ¬registry.Bound typeName first) (later : next.KeepsUpTo typeName kept rest result) :
    registry.KeepsUpTo typeName (first :: kept) rest result := by
  simp only [Binding.property_isOf_iff] at found
  have bound : ∀ fieldName, next.Bound typeName fieldName ↔
      fieldName = first ∨ registry.Bound typeName fieldName := by
    intro fieldName
    rw [bound_iff, found, bound_iff]
    by_cases same : fieldName = first <;> simp [same]
  constructor
  · have new : first ∉ kept := fun again => later.free first again ((bound first).2 (.inl rfl))
    exact List.nodup_cons.2 ⟨new, later.nodup⟩
  · rintro fieldName (_ | ⟨_, member⟩)
    · exact free
    · exact fun own => later.free fieldName member ((bound fieldName).2 (.inr own))
  · intro otherType fieldName
    rw [later.lookup?, found]
    by_cases same : otherType = typeName ∧ fieldName = first
    · simp [same]
    · rw [if_neg same]
      simp only [List.mem_cons, and_or_left, same, false_or]
  · refine later.answer.imp id ?_
    rintro ⟨fieldName, more, rfl, taken, answer⟩
    refine ⟨fieldName, more, rfl, ?_, answer⟩
    rw [bound] at taken
    simp only [List.mem_cons]
    tauto

/-- Properties are bound up to the first field that is taken, which is reported. -/
theorem keepsUpTo_bindProperties (registry : Registry State) (typeName : String)
    (fieldNames : List String) : ∃ kept rest, fieldNames = kept ++ rest ∧
      registry.KeepsUpTo typeName kept rest (registry.bindProperties typeName fieldNames) := by
  induction fieldNames generalizing registry with
  | nil => exact ⟨[], [], rfl, by simp, by simp, by simp [bindProperties], .inl ⟨rfl, rfl⟩⟩
  | cons first others ih =>
    rw [bindProperties]
    by_cases bound : registry.Bound typeName first
    · rw [bind_of_bound (.property typeName first) bound]
      exact ⟨[], first :: others, rfl, by simp, by simp, by simp,
        .inr ⟨first, others, rfl, .inl bound, rfl⟩⟩
    · obtain ⟨next, made, -, found⟩ := bind_of_not_bound (.property typeName first) bound
      obtain ⟨kept, rest, rfl, later⟩ := ih next
      rw [made]
      exact ⟨first :: kept, rest, rfl, later.cons found bound⟩

end Bindings

/-! ## Histories -/

section Histories

variable {registry : Registry State} {tried : List (Binding State)}

/-- A registry and the attempts that led to it: no field is bound twice, and what is bound to a
field is the first that was attempted. -/
structure Records (registry : Registry State) (tried : List (Binding State)) : Prop where
  distinct : (registry.bindings.map Binding.field).Nodup
  lookup? : ∀ typeName fieldName, registry.lookup? typeName fieldName =
    tried.find? fun binding => binding.isOf typeName fieldName

namespace Records

/-- In the beginning nothing was attempted and nothing is bound. -/
theorem empty : Records ({} : Registry State) [] where
  distinct := List.nodup_nil
  lookup? _ _ := rfl

/-- A field is bound if and only if there was an attempt at it. -/
theorem any_eq_true_iff (records : registry.Records tried) {typeName fieldName : String} :
    (tried.any fun binding => binding.isOf typeName fieldName) = true ↔
      registry.Bound typeName fieldName := by
  rw [bound_iff, records.lookup?, List.find?_isSome, List.any_eq_true]

/-- An attempt at a bound field is recorded and changes nothing. -/
theorem failed (records : registry.Records tried) {binding : Binding State}
    (bound : registry.Bound binding.typeName binding.fieldName) :
    registry.Records (tried ++ [binding]) where
  distinct := records.distinct
  lookup? typeName fieldName := by
    rw [List.find?_append, ← records.lookup?]
    by_cases same : binding.isOf typeName fieldName
    · obtain ⟨rfl, rfl⟩ := Binding.isOf_iff.1 same
      rw [Option.or_of_isSome (bound_iff.1 bound)]
    · simp [same]

/-- An attempt at a free field succeeds. -/
theorem made (records : registry.Records tried) {binding : Binding State}
    (free : ¬registry.Bound binding.typeName binding.fieldName) :
    ∃ next, registry.bind binding = .ok next ∧ next.Records (tried ++ [binding]) := by
  obtain ⟨next, made, placed, found⟩ := bind_of_not_bound binding free
  have unbound : registry.lookup? binding.typeName binding.fieldName = none := by
    simpa [bound_iff] using free
  refine ⟨next, made, ?_, fun typeName fieldName => ?_⟩
  · have new : binding.field ∉ registry.bindings.map Binding.field := by
      intro again
      obtain ⟨other, member, same⟩ := List.mem_map.1 again
      have found : other.isOf binding.typeName binding.fieldName = true :=
        (other.isOf_eq _ _).trans (decide_eq_true same)
      exact List.find?_eq_none.1 unbound other member found
    rw [placed, ((place_perm binding _).map _).nodup_iff]
    exact List.nodup_cons.2 ⟨new, records.distinct⟩
  · rw [found, List.find?_append, ← records.lookup?]
    split
    next same =>
      obtain ⟨rfl, rfl⟩ := Binding.isOf_iff.1 same
      simp [unbound, same]
    next other => simp [other]

/-- Making bindings in order keeps the registry in step with the attempts. -/
theorem bindEach (records : registry.Records tried) (bindings : List (Binding State)) :
    (registry.bindEach bindings).1.Records (tryEach tried bindings) := by
  induction bindings generalizing registry tried with
  | nil => exact records
  | cons binding rest ih =>
    rw [Registry.bindEach, tryEach]
    by_cases bound : registry.Bound binding.typeName binding.fieldName
    · rw [bind_of_bound binding bound, if_pos (records.any_eq_true_iff.2 bound)]
      exact records.failed bound
    · obtain ⟨next, made, further⟩ := records.made bound
      rw [made, if_neg (mt records.any_eq_true_iff.1 bound)]
      exact ih further

end Records

/-- Every history leads to a registry in step with its attempts. -/
theorem records_after (steps : List (Step State)) : (after steps).Records (attempts steps) := by
  induction steps using List.reverseRecOn with
  | nil => exact .empty
  | append_singleton steps step ih =>
    rw [after, attempts, List.foldl_concat, List.foldl_concat, Step.run_eq]
    exact ih.bindEach step.asked

end Histories

/-! ## Validation -/

section Validation

variable {registry : Registry State} {tried : List (Binding State)} {source : Document}

/-- The binding of a field is the one there is that names it. -/
theorem Records.lookup_eq_ok_iff (records : registry.Records tried) {binding : Binding State}
    {typeName fieldName : String} : registry.lookup typeName fieldName = .ok binding ↔
      binding ∈ registry.bindings ∧ binding.typeName = typeName ∧ binding.fieldName = fieldName := by
  rw [Registry.lookup_eq_ok_iff, Registry.lookup?]
  simp only [Binding.isOf_eq]
  refine (Checks.find?_key_eq_some_iff records.distinct).trans ?_
  rw [Binding.field, Prod.mk.injEq]

/-- There are as many bindings as fields that are bound. -/
theorem Records.size_eq (records : registry.Records tried) :
    ∃ fields : Finset (String × String), registry.size = fields.card ∧
      ∀ typeName fieldName, (typeName, fieldName) ∈ fields ↔
        registry.Bound typeName fieldName := by
  refine ⟨(registry.bindings.map Binding.field).toFinset, ?_, fun typeName fieldName => ?_⟩
  · rw [List.toFinset_card_of_nodup records.distinct, List.length_map, size]
  · simp [Bound, records.lookup_eq_ok_iff, Binding.field]

/-- A registry in step with some attempts is a finite map in which the first of them stay. -/
theorem Records.firstStays (records : registry.Records tried) :
    registry.FirstStays tried where
  lookup typeName fieldName := by rw [lookup_eq, records.lookup?]
  size := records.size_eq
  bind_bound binding bound := by rw [Step.run, bind_of_bound binding bound]
  bind_free binding free := by
    obtain ⟨next, made, -, found⟩ := bind_of_not_bound binding free
    exact ⟨next, by rw [Step.run, made], found⟩
  bindProperties := keepsUpTo_bindProperties registry

/-- A registry in step with some attempts fits an accepted schema if and only if its fields are
those that the schema declares and the bindings accept the arguments declared for them. -/
theorem Records.fits_iff (records : registry.Records tried) (wellFormed : source.WellFormedSchema) :
    registry.Fits source.schema ↔
      (∀ typeName fieldName, registry.Bound typeName fieldName ↔
        ∃ field, source.schema.DeclaresField typeName field ∧ field.name = fieldName) ∧
      ∀ typeName field binding, source.schema.DeclaresField typeName field →
        registry.lookup typeName field.name = .ok binding →
          ∀ argument ∈ field.arguments, argument.name ∈ binding.arguments := by
  constructor
  · intro fits
    constructor
    · intro typeName fieldName
      constructor
      · rintro ⟨binding, looked⟩
        obtain ⟨member, rfl, rfl⟩ := records.lookup_eq_ok_iff.1 looked
        obtain ⟨field, declared, name, -⟩ := wellFormed.fits_iff.1 (fits.declared binding member)
        exact ⟨field, declared, name⟩
      · rintro ⟨field, ⟨type, listed, rfl, member⟩, rfl⟩
        exact fits.bound type listed field member
    · intro typeName field binding declared looked
      obtain ⟨member, rfl, sameName⟩ := records.lookup_eq_ok_iff.1 looked
      obtain ⟨own, ownDeclared, ownName, accepts⟩ :=
        wellFormed.fits_iff.1 (fits.declared binding member)
      rwa [wellFormed.declaresField_unique declared ownDeclared (sameName.symm.trans ownName.symm)]
  · rintro ⟨same, accept⟩
    constructor
    · intro binding member
      have looked : registry.lookup binding.typeName binding.fieldName = .ok binding :=
        records.lookup_eq_ok_iff.2 ⟨member, rfl, rfl⟩
      obtain ⟨field, declared, name⟩ := (same _ _).1 ⟨binding, looked⟩
      rw [← name] at looked
      exact wellFormed.fits_iff.2 ⟨field, declared, name, accept _ field binding declared looked⟩
    · exact fun type listed field member =>
        (same _ _).2 ⟨field, ⟨type, listed, rfl, member⟩, rfl⟩

end Validation

/-- Whatever was asked of a registry, at first empty, it is a finite map in which the first binding
of a field stays. It is accepted for a schema if and only if its fields are those that the schema
declares and their bindings accept the arguments declared for them. -/
theorem after_firstStays (steps : List (Step State)) :
    (after steps).FirstStays (attempts steps) ∧
      ∀ limit text schema, Schema.parseWithin limit text = .ok schema →
        ((after steps).validate schema = .ok () ↔
          (∀ typeName fieldName, (after steps).Bound typeName fieldName ↔
            ∃ field, schema.DeclaresField typeName field ∧ field.name = fieldName) ∧
          ∀ typeName field binding, schema.DeclaresField typeName field →
            (after steps).lookup typeName field.name = .ok binding →
              ∀ argument ∈ field.arguments, argument.name ∈ binding.arguments) := by
  have records := records_after steps
  refine ⟨records.firstStays, fun limit text schema accepted => ?_⟩
  obtain ⟨source, -, wellFormed, rfl⟩ :=
    (Schema.parseWithin_ok_iff_wellFormedSchema limit text schema).1 accepted
  rw [validate_eq_ok_iff, records.fits_iff wellFormed]

/-- Requests for greetings: of three properties the second one is bound to a resolver already, so
the third is not reached. -/
def greetingSteps : List (Step Unit) :=
  [.bind { typeName := "Query", fieldName := "greet", arguments := ["person", "tone"]
           resolver := .compute fun _ => .ok (.string "Hello") },
    .bindProperties "Query" ["name", "greet", "age"]]

/-- The schema of greetings. -/
def greetingSchema : Schema where
  types := BuiltinScalar.all.map .builtin ++
    [.object { name := "Query"
               fields :=
                [{ name := "greet", type := .builtin .string
                   arguments := [{ name := "person", type := .builtin .string, default := none }] },
                  { name := "name", type := .builtin .string, arguments := [] }] }]
  queryRoot := "Query"
  mutationRoot := none

/-- What is bound before the request fails is what the schema of greetings declares. -/
theorem after_firstStays_greetings :
    Schema.parseWithin 64 "type Query {greet(person: String): String name: String}" =
        .ok greetingSchema ∧
      (after greetingSteps).FirstStays (attempts greetingSteps) ∧
      (attempts greetingSteps).map Binding.field =
        [("Query", "greet"), ("Query", "name"), ("Query", "greet")] ∧
      (after greetingSteps).size = 2 ∧ (after greetingSteps).validate greetingSchema = .ok () ∧
      ∀ typeName fieldName, (after greetingSteps).Bound typeName fieldName ↔
        ∃ field, greetingSchema.DeclaresField typeName field ∧ field.name = fieldName := by
  have accepted : Schema.parseWithin 64 "type Query {greet(person: String): String name: String}" =
      .ok greetingSchema := by
    cbv
  have valid : (after greetingSteps).validate greetingSchema = .ok () := by rfl
  obtain ⟨firstStays, valid_iff⟩ := after_firstStays greetingSteps
  exact ⟨accepted, firstStays, rfl, rfl, valid, ((valid_iff _ _ _ accepted).1 valid).1⟩

end Registry

end GraphQL
