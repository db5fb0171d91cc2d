import GraphQL.Document.Parser

/-!
# References to types in documents

A document refers to a built-in scalar as such, and never by its name as to a declared type. This is
so of every type reference that is read, and therefore of the fields, arguments and input fields of
every type that a document declares.

What a reader can give is shown with a rule for each way of putting readers together; what is left
of the tokens does not matter. Whatever holds of each type reference and of each argument or input
field that is read holds of all of them in a document (`Document.carries_of_parse?`).
-/

set_option autoImplicit false

namespace GraphQL

namespace TypeRef

/-- No built-in scalar is referred to by its name. -/
def Canonical : TypeRef → Prop
  | builtin _ => True
  | named name => ∀ scalar : BuiltinScalar, name ≠ scalar.name
  | list item => item.Canonical
  | nonNull inner => inner.Canonical

/-- A type that is written as a name is a built-in scalar where the name is that of one. -/
theorem canonical_ofName (name : String) : (ofName name).Canonical := by
  unfold ofName
  split
  · trivial
  · next unknown =>
    rintro scalar rfl
    have absent := List.find?_eq_none.1 unknown scalar (by cases scalar <;> decide)
    simp at absent

end TypeRef

namespace TypeDefinition

/-- The fields, arguments and input fields of a type refer to built-in scalars as such. -/
def Canonical : TypeDefinition → Prop
  | .object type => ∀ field ∈ type.fields, field.type.Canonical ∧
    ∀ argument ∈ field.arguments, argument.type.Canonical
  | .inputObject type => ∀ field ∈ type.fields, field.type.Canonical
  | .builtin _ | .scalar _ | .enum _ => True

end TypeDefinition

namespace Definition

/-- A definition of a type refers to built-in scalars as such. -/
def Canonical : Definition → Prop
  | .object type => (TypeDefinition.object type).Canonical
  | .inputObject type => (TypeDefinition.inputObject type).Canonical
  | _ => True

/-- The types of the fields of a definition have some property, and the arguments and input fields
have another one. -/
def Carries (output : TypeRef → Prop) (input : InputValueDefinition → Prop) : Definition → Prop
  | .object type => ∀ field ∈ type.fields, output field.type ∧
    ∀ argument ∈ field.arguments, input argument
  | .inputObject type => ∀ field ∈ type.fields, input field
  | _ => True

end Definition

namespace Reader

variable {α β : Type}

/-- Whatever a reader gives has some property. -/
def Gives (reader : Reader α) (post : α → Prop) : Prop :=
  ∀ tokens result rest, reader tokens = some (result, rest) → post result

variable {P : α → Prop} {Q : β → Prop}

/-- A reader gives something. -/
theorem gives_any (reader : Reader α) : reader.Gives fun _ => True :=
  fun _ _ _ _ => trivial

/-- A reader that reads nothing gives its own result. -/
theorem gives_pure {result : α} (h : P result) : (pure result : Reader α).Gives P := by
  intro tokens other rest read
  cases read
  exact h

/-- A reader that always fails gives nothing. -/
theorem gives_failure : (failure : Reader α).Gives P := by
  intro tokens result rest read
  cases read

/-- A reader after another one gives what it gives after any result of that. -/
theorem Gives.bind {reader : Reader α} (h : reader.Gives P) {next : α → Reader β}
    (hnext : ∀ result, P result → (next result).Gives Q) : (reader >>= next).Gives Q := by
  intro tokens result rest read
  obtain ⟨⟨first, later⟩, hfirst, hlater⟩ := Option.bind_eq_some_iff.1 read
  exact hnext first (h tokens first later hfirst) later result rest hlater

/-- A reader after another one, of which nothing is known. -/
theorem gives_after {reader : Reader α} {next : α → Reader β}
    (hnext : ∀ result, (next result).Gives Q) : (reader >>= next).Gives Q :=
  reader.gives_any.bind fun result _ => hnext result

/-- What may be left out is as it should be if it is there. -/
theorem gives_optionally {token : Token} {item : Reader α} (h : item.Gives P) :
    (optionally token item).Gives fun found => ∀ result, found = some result → P result := by
  unfold optionally
  refine gives_after fun here => ?_
  split
  · refine h.bind fun result hresult => gives_pure ?_
    rintro _ ⟨⟩
    exact hresult
  · exact gives_pure (by simp)

/-- What stands in brackets is as it would be outside. -/
theorem gives_between {left right : Char} {content : Reader α} (h : content.Gives P) :
    (between left right content).Gives P := by
  unfold between
  exact gives_after fun _ => h.bind fun _ hresult => gives_after fun _ => gives_pure hresult

/-- Each of the items that are read in some steps is as it should be. -/
theorem gives_manySteps {starts : Token → Bool} {item : Reader α} (h : item.Gives P) (fuel : Nat) :
    (manySteps starts item fuel).Gives fun results => ∀ result ∈ results, P result := by
  induction fuel with
  | zero => exact gives_pure (by simp)
  | succ fuel ih =>
    unfold manySteps
    refine gives_after fun front => ?_
    split
    · split
      · refine h.bind fun first hfirst => ih.bind fun more hmore => gives_pure ?_
        exact List.forall_mem_cons.2 ⟨hfirst, hmore⟩
      · exact gives_pure (by simp)
    · exact gives_pure (by simp)

/-- Each of the items that are read is as it should be. -/
theorem gives_many {starts : Token → Bool} {item : Reader α} (h : item.Gives P) :
    (many starts item).Gives fun results => ∀ result ∈ results, P result :=
  gives_after fun tokens => gives_manySteps h tokens.length

/-- Each of the items, of which there is at least one, is as it should be. -/
theorem gives_many1 {starts : Token → Bool} {item : Reader α} (h : item.Gives P) :
    (many1 starts item).Gives fun results => ∀ result ∈ results, P result := by
  unfold many1
  refine (gives_many h).bind fun results hresults => ?_
  split
  · exact gives_failure
  · exact gives_pure hresults

end Reader

namespace Document

open Reader

/-- A type reference is canonical if the one inside its brackets is. -/
theorem gives_typeWith {nested : Reader TypeRef} (h : nested.Gives TypeRef.Canonical) :
    (typeWith nested).Gives TypeRef.Canonical := by
  unfold typeWith
  refine Gives.bind (P := TypeRef.Canonical) ?_ fun result hresult => gives_after fun nonNull => ?_
  · refine gives_after fun token => ?_
    split
    · exact gives_pure (TypeRef.canonical_ofName _)
    · exact h.bind fun item hitem => gives_after fun _ => gives_pure hitem
    · exact gives_failure
  · split
    · exact gives_pure hresult
    · exact gives_pure hresult

/-- Type references that are read are canonical, at any depth. -/
theorem gives_typeRef (levels : Nat) : Reader.Gives (typeRef levels) TypeRef.Canonical := by
  induction levels with
  | zero => exact gives_typeWith gives_failure
  | succ levels ih => exact gives_typeWith ih

/-- The type before a default is canonical. -/
theorem gives_typeAndDefault (levels : Nat) :
    (typeAndDefault levels).Gives fun result => result.1.Canonical := by
  unfold typeAndDefault
  refine gives_after fun _ => Gives.bind (gives_typeRef levels) fun type htype => ?_
  exact gives_after fun _ => gives_after fun _ => gives_pure htype

/-- The type of an input value that is read is canonical. -/
theorem gives_inputValue (levels : Nat) :
    (inputValue levels).Gives fun value => value.type.Canonical := by
  unfold inputValue
  refine gives_after fun _ => gives_after fun name => ?_
  exact (gives_typeAndDefault levels).bind fun result hresult => gives_pure hresult

section Carried

variable {levels : Nat} {output : TypeRef → Prop} {input : InputValueDefinition → Prop}

/-- Each argument of a declaration is as input values are that are read. -/
theorem gives_declaredArguments (hinput : (inputValue levels).Gives input) :
    (declaredArguments levels).Gives fun arguments => ∀ argument ∈ arguments, input argument := by
  unfold declaredArguments
  refine (gives_optionally (gives_between (gives_many1 hinput))).bind
    fun found hfound => gives_pure ?_
  cases found with
  | none => simp
  | some arguments => exact hfound arguments rfl

/-- The type of a field is as types are that are read, and its arguments as input values are. -/
theorem gives_fieldDefinition (houtput : Reader.Gives (typeRef levels) output)
    (hinput : (inputValue levels).Gives input) :
    (fieldDefinition levels).Gives fun field => output field.type ∧
      ∀ argument ∈ field.arguments, input argument := by
  unfold fieldDefinition
  refine gives_after fun _ => gives_after fun name => ?_
  refine (gives_declaredArguments hinput).bind fun arguments harguments => gives_after fun _ => ?_
  refine Gives.bind houtput fun type htype => gives_after fun _ => ?_
  exact gives_pure ⟨htype, harguments⟩

/-- Each item in the braces of a definition is as it should be, if there are braces. -/
theorem gives_body {α : Type} {item : Reader α} {P : α → Prop} (h : item.Gives P) :
    (body item).Gives fun found => ∀ result ∈ found.getD [], P result := by
  intro tokens found rest read
  have all := gives_optionally (gives_between (gives_many1 h)) tokens found rest read
  cases found with
  | none => simp
  | some results => exact all results rfl

/-- The definition of a type carries types and input values as they are read. -/
theorem gives_typeSystemDefinition (houtput : Reader.Gives (typeRef levels) output)
    (hinput : (inputValue levels).Gives input) (word : String) :
    (typeSystemDefinition levels word).Gives (Definition.Carries output input) := by
  unfold typeSystemDefinition
  split
  · exact gives_after fun _ => gives_after fun roots => gives_pure trivial
  split
  · exact gives_after fun name => gives_after fun _ => gives_pure trivial
  split
  · refine gives_after fun name => gives_after fun _ => gives_after fun _ => ?_
    exact (gives_body (gives_fieldDefinition houtput hinput)).bind
      fun fields hfields => gives_pure hfields
  split
  · refine gives_after fun name => gives_after fun _ => gives_after fun _ => ?_
    exact gives_after fun _ => gives_pure trivial
  split
  · refine gives_after fun name => gives_after fun _ => gives_after fun _ => gives_pure trivial
  split
  · refine gives_after fun name => gives_after fun _ => gives_after fun values => gives_pure trivial
  split
  · refine gives_after fun name => gives_after fun _ => ?_
    exact (gives_body hinput).bind fun fields hfields => gives_pure hfields
  split
  · exact gives_after fun _ => gives_pure trivial
  · exact gives_failure

/-- A definition carries types and input values as they are read. -/
theorem gives_definition (houtput : Reader.Gives (typeRef levels) output)
    (hinput : (inputValue levels).Gives input) :
    (definition levels).Gives (Definition.Carries output input) := by
  unfold definition
  refine gives_after fun front => ?_
  split
  · exact gives_after fun _ => gives_after fun word =>
      gives_typeSystemDefinition houtput hinput word
  · exact gives_after fun selections => gives_pure trivial
  · refine gives_after fun word => ?_
    split
    · exact gives_after fun operation => gives_pure trivial
    · split
      · exact gives_after fun fragment => gives_pure trivial
      split
      · exact gives_after fun _ => gives_pure trivial
      · exact gives_typeSystemDefinition houtput hinput word

/-- What holds of each type reference and of each argument or input field that is read, holds of all
of them in a document. -/
theorem carries_of_parse? (houtput : ∀ levels, Reader.Gives (typeRef levels) output)
    (hinput : ∀ levels, (inputValue levels).Gives input) {limit : Nat} {text : String}
    {source : Document} (read : parse? limit text = some source) :
    ∀ definition ∈ source, definition.Carries output input := by
  unfold parse? at read
  obtain ⟨tokens, -, read⟩ := Option.bind_eq_some_iff.1 read
  obtain ⟨⟨found, rest⟩, definitions, read⟩ := Option.bind_eq_some_iff.1 read
  simp only [Option.ite_none_right_eq_some, Option.some.injEq] at read
  obtain ⟨-, rfl⟩ := read
  exact gives_many1 (gives_definition (houtput _) (hinput _)) _ _ _ definitions

end Carried

/-- Every definition of a document refers to built-in scalars as such. -/
theorem canonical_of_parse? {limit : Nat} {text : String} {source : Document}
    (read : parse? limit text = some source) :
    ∀ definition ∈ source, definition.Canonical := by
  intro definition member
  have carries := carries_of_parse? gives_typeRef gives_inputValue read definition member
  cases definition with
  | object | inputObject => exact carries
  | _ => trivial

end Document

end GraphQL
