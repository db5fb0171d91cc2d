import GraphQL.Execution.Plan
import Mathlib.Data.List.Nodup

/-!
# Positions of a response

A position is a place in a response: a response key of an object, or an index of a list. Here the
positions of a response form a tree, marked with what the own step of each comes to before any null
propagates. What the marks mean for the response is a second pass: `Position.FailsAlong` says which
failures reach a position from below, and `Position.complete` what the position comes to.

The main statement is `Position.complete_at?`: walking through the data and through the tree along
one path, the value that is found is the one that the position comes to.
-/

set_option autoImplicit false

namespace GraphQL

namespace Json

/-- The value under a key of an object, or at an index of an array. -/
def part? : Json → PathElement → Option Json
  | .array items, .index i => items[i]?
  | .object members, .key key => Object.get? members key
  | _, _ => none

/-- The value that a path leads to. -/
def at? (value : Json) : Path → Option Json
  | [] => some value
  | step :: rest => (value.part? step).bind fun part => part.at? rest

/-- A path is followed by following its first part and then the other one. -/
theorem at?_append (value : Json) (path rest : Path) :
    value.at? (path ++ rest) = (value.at? path).bind (·.at? rest) := by
  induction path generalizing value with
  | nil => rfl
  | cons step path ih =>
    rw [List.cons_append, at?, at?]
    cases value.part? step with
    | none => rfl
    | some part => exact ih part

end Json

/-- How the parts of a position are told apart: by index, or by the keys given in order. -/
inductive Shape where
  | items
  | fields (keys : List String)

namespace Shape

/-- The place of a part, counted in order. -/
def index? : Shape → PathElement → Option Nat
  | items, .index i => some i
  | fields keys, .key key => keys.idxOf? key
  | _, _ => none

/-- The value that is made of the values of the parts. -/
def build : Shape → List Json → Json
  | items, values => .array values
  | fields keys, values => .object (keys.zip values)

/-- The completion that is made of the completions of the parts. -/
def assemble : Shape → List Completion → Completion
  | items, parts => .ofItems parts
  | fields keys, parts => .ofFields keys parts

/-- Each of a number of parts has a key of its own, where keys tell them apart. -/
def Fits : Shape → Nat → Prop
  | items, _ => True
  | fields keys, count => keys.Nodup ∧ keys.length = count

/-- There is a value if all parts have theirs, and it is made of these. -/
theorem value_assemble (shape : Shape) (parts : List Completion) :
    (shape.assemble parts).value = (parts.mapM Completion.value).map shape.build := by
  cases shape <;> rfl

/-- The errors are those of the parts, in order. -/
theorem errors_assemble (shape : Shape) (parts : List Completion) :
    (shape.assemble parts).errors = parts.flatMap (·.errors) := by
  cases shape <;> rfl

/-- A value that is made of parts is not null. -/
theorem build_ne_null (shape : Shape) (values : List Json) : shape.build values ≠ .null := by
  cases shape <;> simp [build]

/-- The value under a key is the one at its place. -/
theorem get?_zip (keys : List String) (values : List Json) (key : String) :
    Json.Object.get? (keys.zip values) key = (keys.idxOf? key).bind (values[·]?) := by
  induction keys generalizing values with
  | nil => rfl
  | cons first rest ih =>
    cases values with
    | nil => cases (first :: rest).idxOf? key <;> rfl
    | cons value values =>
      rw [List.zip_cons_cons, Json.Object.get?_cons, List.idxOf?_cons]
      by_cases h : first = key
      · simp [h]
      · simp only [h, if_false, beq_iff_eq, ih values]
        cases rest.idxOf? key <;> rfl

/-- The part at a step is the value at the place of the step. -/
theorem part?_build (shape : Shape) (values : List Json) (step : PathElement) :
    (shape.build values).part? step = (shape.index? step).bind (values[·]?) := by
  cases shape <;> cases step <;> first | rfl | exact get?_zip _ _ _

/-- The step of a key leads to its own place only. -/
theorem index?_fields_iff {keys : List String} (distinct : keys.Nodup) {key : String} {i : Nat} :
    (fields keys).index? (.key key) = some i ↔ keys[i]? = some key := by
  rw [index?, List.idxOf?_eq_some_iff]
  constructor
  · rintro ⟨hi, same, -⟩
    rw [List.getElem?_eq_getElem hi, same]
  · intro h
    obtain ⟨hi, rfl⟩ := List.getElem?_eq_some_iff.1 h
    refine ⟨hi, rfl, fun j less same => ?_⟩
    have := (List.Nodup.getElem_inj_iff distinct).1 same
    omega

/-- Each part is reached by some step. -/
theorem exists_step {shape : Shape} {count i : Nat} (fits : shape.Fits count) (h : i < count) :
    ∃ step, shape.index? step = some i := by
  cases shape with
  | items => exact ⟨.index i, rfl⟩
  | fields keys =>
    obtain ⟨distinct, length⟩ := fits
    exact ⟨.key keys[i], (index?_fields_iff distinct).2 (List.getElem?_eq_getElem (length ▸ h))⟩

end Shape

/-- A position of a response with the positions in it, before any null propagates. `nonNull` says
whether its type is non-null. The own step of a position fails, with an error unless its call was
given up, or it gives a value with no positions in it, or one that is made of other positions. -/
inductive Position where
  | failed (nonNull : Bool) (error : Option ResponseError)
  | leaf (nonNull : Bool) (value : Json)
  | inner (nonNull : Bool) (shape : Shape) (parts : List Position)

namespace Position

/-- Whether the type of a position is non-null. -/
def nonNull : Position → Bool
  | failed nonNull _ | leaf nonNull _ | inner nonNull _ _ => nonNull

/-- The own step of the position fails. -/
def IsFailed : Position → Prop
  | failed _ _ => True
  | _ => False

/-- The place of a part among the parts. -/
def index? : Position → PathElement → Option Nat
  | inner _ shape _, step => shape.index? step
  | _, _ => none

/-- The position that a step leads to. -/
def part? : Position → PathElement → Option Position
  | inner _ shape parts, step => (shape.index? step).bind (parts[·]?)
  | _, _ => none

/-- The position that a path leads to. -/
def at? (position : Position) : Path → Option Position
  | [] => some position
  | step :: rest => (position.part? step).bind fun part => part.at? rest

/-- The positions along a path are followed in the same way. -/
theorem at?_append (position : Position) (path rest : Path) :
    position.at? (path ++ rest) = (position.at? path).bind (·.at? rest) := by
  induction path generalizing position with
  | nil => rfl
  | cons step path ih =>
    rw [List.cons_append, at?, at?]
    cases position.part? step with
    | none => rfl
    | some part => exact ih part

/-- A path leads down to a failed position, and every position on the way, the failed one included,
is of non-null type. The position at which the path starts is not looked at, unless it is the failed
one. -/
def FailsAlong (position : Position) : Path → Prop
  | [] => position.IsFailed
  | step :: rest => ∃ part, position.part? step = some part ∧ part.nonNull = true ∧
      part.FailsAlong rest

mutual

/-- What a position comes to when nulls propagate. -/
def complete : Position → Completion
  | failed nonNull error =>
    { value := if nonNull then none else some .null, errors := error.toList }
  | leaf _ value => .ok value
  | inner nonNull shape parts =>
    if nonNull then shape.assemble (completeAll parts)
    else (shape.assemble (completeAll parts)).absorb

/-- What positions come to when nulls propagate. -/
def completeAll : List Position → List Completion
  | [] => []
  | position :: rest => position.complete :: completeAll rest

end

/-- Positions are completed one by one. -/
theorem completeAll_eq_map (positions : List Position) :
    completeAll positions = positions.map complete := by
  induction positions with
  | nil => rfl
  | cons position rest ih => rw [completeAll, ih, List.map_cons]

/-- Induction on positions; a position that is made of others has the hypothesis for each. -/
@[elab_as_elim]
theorem induction {motive : Position → Prop}
    (failed : ∀ nonNull error, motive (.failed nonNull error))
    (leaf : ∀ nonNull value, motive (.leaf nonNull value))
    (inner : ∀ nonNull shape parts, (∀ part ∈ parts, motive part) →
      motive (.inner nonNull shape parts))
    (position : Position) : motive position := by
  refine @Position.rec motive (fun parts => ∀ part ∈ parts, motive part) failed leaf inner ?_ ?_
    position
  · intro part member
    cases member
  · intro first rest hfirst hrest part member
    rcases List.mem_cons.1 member with rfl | member
    · exact hfirst
    · exact hrest part member

/-- A part is reached by the step that has its place. -/
theorem part?_inner_eq_some {nonNull : Bool} {shape : Shape} {parts : List Position}
    {step : PathElement} {part : Position}
    (h : (inner nonNull shape parts).part? step = some part) :
    ∃ i, shape.index? step = some i ∧ parts[i]? = some part :=
  Option.bind_eq_some_iff.1 h

/-- What is reached by a step is one of the parts. -/
theorem mem_of_part? {nonNull : Bool} {shape : Shape} {parts : List Position} {step : PathElement}
    {part : Position} (h : (inner nonNull shape parts).part? step = some part) : part ∈ parts := by
  obtain ⟨i, -, hi⟩ := part?_inner_eq_some h
  exact List.mem_of_getElem? hi

/-- A path is followed from the part that its first step reaches. -/
theorem at?_cons {position part : Position} {step : PathElement} {rest : Path}
    (h : position.part? step = some part) : position.at? (step :: rest) = part.at? rest := by
  rw [at?, h, Option.bind_some]

/-- Each part of a position is reached by some step. -/
theorem exists_part? (nonNull : Bool) {shape : Shape} {parts : List Position} {part : Position}
    (fits : shape.Fits parts.length) (member : part ∈ parts) :
    ∃ step, (inner nonNull shape parts).part? step = some part := by
  obtain ⟨i, hi, rfl⟩ := List.getElem_of_mem member
  obtain ⟨step, hstep⟩ := Shape.exists_step fits hi
  exact ⟨step, Option.bind_eq_some_iff.2 ⟨i, hstep, List.getElem?_eq_getElem hi⟩⟩

/-- The positions at and below some path are in their places: a failed position has an error with
its own path, unless it was given up, which may be only if `aborted` holds; and keys that tell
positions apart are distinct. -/
inductive WellFormed (aborted : Prop) : Path → Position → Prop
  | failed {path : Path} {nonNull : Bool} {error : ResponseError}
    (located : error.path = some path) : WellFormed aborted path (.failed nonNull (some error))
  | aborted {path : Path} {nonNull : Bool} (h : aborted) :
    WellFormed aborted path (.failed nonNull none)
  | leaf {path : Path} {nonNull : Bool} {value : Json} :
    WellFormed aborted path (.leaf nonNull value)
  | inner {path : Path} {nonNull : Bool} {shape : Shape} {parts : List Position}
    (fits : shape.Fits parts.length)
    (each : ∀ step part, (inner nonNull shape parts).part? step = some part →
      WellFormed aborted (path.join step) part) :
    WellFormed aborted path (.inner nonNull shape parts)

/-- Positions that are well-formed stay so where more calls may be given up. -/
theorem WellFormed.mono {aborted aborted' : Prop} (le : aborted → aborted') {path : Path}
    {position : Position} (wf : position.WellFormed aborted path) :
    position.WellFormed aborted' path := by
  induction wf with
  | failed located => exact .failed located
  | aborted h => exact .aborted (le h)
  | leaf => exact .leaf
  | inner fits each ih => exact .inner fits ih

/-- Each part of a position that is in its place is reached by a step and in its place as well. -/
theorem WellFormed.of_mem {aborted : Prop} {path : Path} {nonNull : Bool} {shape : Shape}
    {parts : List Position} (wf : (Position.inner nonNull shape parts).WellFormed aborted path)
    {part : Position} (member : part ∈ parts) :
    ∃ step below, (Position.inner nonNull shape parts).part? step = some part ∧
      part.WellFormed aborted below := by
  cases wf with
  | inner fits each =>
    obtain ⟨step, hstep⟩ := exists_part? nonNull fits member
    exact ⟨step, _, hstep, each step part hstep⟩

/-- Whatever is reached from a well-formed position is well-formed at its own path. -/
theorem WellFormed.of_at? {aborted : Prop} {base path : Path} {position below : Position}
    (wf : position.WellFormed aborted base) (h : position.at? path = some below) :
    below.WellFormed aborted (base ++ path) := by
  induction path generalizing base position with
  | nil =>
    cases h
    rwa [List.append_nil]
  | cons step rest ih =>
    obtain ⟨part, hpart, hrest⟩ := Option.bind_eq_some_iff.1 h
    cases wf with
    | failed | aborted | leaf => cases hpart
    | inner fits each =>
      have := ih (each step part hpart) hrest
      rwa [Path.join, List.append_assoc, List.singleton_append] at this

/-- The parts of a position come to no value together if and only if a failure reaches the position
through them: the part without a value is the first on the way. -/
theorem WellFormed.assemble_value_eq_none_iff {aborted : Prop} {base : Path} {nonNull : Bool}
    {shape : Shape} {parts : List Position}
    (wf : (Position.inner nonNull shape parts).WellFormed aborted base)
    (hparts : ∀ part ∈ parts, ∀ below, part.WellFormed aborted below →
      (part.complete.value = none ↔ part.nonNull = true ∧ ∃ path, part.FailsAlong path)) :
    (shape.assemble (completeAll parts)).value = none ↔
      ∃ path, (Position.inner nonNull shape parts).FailsAlong path := by
  rw [Shape.value_assemble, Option.map_eq_none_iff, Completion.mapM_value_eq_none_iff,
    completeAll_eq_map]
  constructor
  · rintro ⟨_, member, hnone⟩
    obtain ⟨part, hpart, rfl⟩ := List.mem_map.1 member
    obtain ⟨step, below, hstep, placed⟩ := wf.of_mem hpart
    obtain ⟨strict, path, fails⟩ := (hparts part hpart below placed).1 hnone
    exact ⟨step :: path, part, hstep, strict, fails⟩
  · rintro ⟨_ | ⟨step, rest⟩, fails⟩
    · exact absurd fails id
    · obtain ⟨part, hstep, strict, fails⟩ := fails
      have member := mem_of_part? hstep
      obtain ⟨-, below, -, placed⟩ := wf.of_mem member
      exact ⟨part.complete, List.mem_map.2 ⟨part, member, rfl⟩,
        (hparts part member below placed).2 ⟨strict, rest, fails⟩⟩

/-- Where nothing fails no failure comes from below. -/
theorem not_failsAlong_leaf (nonNull : Bool) (value : Json) (path : Path) :
    ¬ (leaf nonNull value).FailsAlong path := by
  cases path with
  | nil => exact id
  | cons step rest =>
    rintro ⟨part, hpart, -⟩
    cases hpart

/-- A position comes to no value if and only if its type is non-null and a failure reaches it. -/
theorem complete_value_eq_none_iff {aborted : Prop} {path : Path} {position : Position}
    (wf : position.WellFormed aborted path) : position.complete.value = none ↔
      position.nonNull = true ∧ ∃ path, position.FailsAlong path := by
  induction position using Position.induction generalizing path with
  | failed nonNull error =>
    have own : ∃ path, (failed nonNull error).FailsAlong path := ⟨[], trivial⟩
    cases nonNull <;> simp [complete, Position.nonNull, own]
  | leaf nonNull value =>
    simp only [complete, Completion.ok, reduceCtorEq, false_iff, not_and, not_exists]
    exact fun _ => not_failsAlong_leaf nonNull value
  | inner nonNull shape parts ih =>
    have through := wf.assemble_value_eq_none_iff fun part member below placed =>
      ih part member placed
    cases nonNull with
    | true => simpa [complete, Position.nonNull] using through
    | false => simp [complete, Position.nonNull, Completion.absorb]

/-- A failed position that comes to a value may be null, and null it is. -/
theorem eq_null_of_complete_failed {nonNull : Bool} {error : Option ResponseError} {value : Json}
    (h : (failed nonNull error).complete.value = some value) : nonNull = false ∧ value = .null := by
  cases nonNull with
  | true => cases h
  | false => exact ⟨rfl, (Option.some.inj h).symm⟩

/-- The value of a position that is made of others is made of their values, unless it is null, which
its type allows. -/
theorem exists_values_of_complete {nonNull : Bool} {shape : Shape} {parts : List Position}
    {value : Json} (h : (inner nonNull shape parts).complete.value = some value) :
    (nonNull = false ∧ value = .null) ∨ ∃ values, value = shape.build values ∧
      parts.map (fun part => part.complete.value) = values.map some := by
  have made : ∀ built, (shape.assemble (completeAll parts)).value = some built →
      ∃ values, built = shape.build values ∧
        parts.map (fun part => part.complete.value) = values.map some := by
    intro built assembled
    rw [Shape.value_assemble, completeAll_eq_map] at assembled
    obtain ⟨values, hvalues, rfl⟩ := Option.map_eq_some_iff.1 assembled
    rw [Completion.mapM_value_eq_some_iff, List.map_map] at hvalues
    exact ⟨values, rfl, hvalues⟩
  cases nonNull with
  | true => exact Or.inr (made value (by simpa [complete] using h))
  | false =>
    simp only [complete, Completion.absorb, Bool.false_eq_true, if_false, Option.some.injEq] at h
    cases hvalue : (shape.assemble (completeAll parts)).value with
    | none =>
      rw [hvalue, Option.getD_none] at h
      exact Or.inl ⟨rfl, h.symm⟩
    | some built =>
      rw [hvalue, Option.getD_some] at h
      exact Or.inr (h ▸ made built hvalue)

/-- In a value that is no null, the part of a position is found where the position has it. -/
theorem complete_part? {position part : Position} {value : Json} {step : PathElement}
    (h : position.complete.value = some value) (present : value ≠ .null)
    (hpart : position.part? step = some part) :
    ∃ inside, value.part? step = some inside ∧ part.complete.value = some inside := by
  cases position with
  | failed nonNull error => cases hpart
  | leaf nonNull value => cases hpart
  | inner nonNull shape parts =>
    rcases exists_values_of_complete h with ⟨-, isNull⟩ | ⟨values, rfl, same⟩
    · exact absurd isNull present
    obtain ⟨i, hi, hparts⟩ := part?_inner_eq_some hpart
    have at_i := congrArg (·[i]?) same
    simp only [List.getElem?_map, hparts, Option.map_some] at at_i
    obtain ⟨inside, hinside, hvalue⟩ := Option.map_eq_some_iff.1 at_i.symm
    refine ⟨inside, ?_, hvalue.symm⟩
    rw [Shape.part?_build, hi, Option.bind_some, hinside]

/-- Along one path, the value that is found in the data is the one that the position comes to. -/
theorem complete_at? {position below : Position} {value found : Json} {path : Path}
    (h : position.complete.value = some value) (hbelow : position.at? path = some below)
    (hfound : value.at? path = some found) : below.complete.value = some found := by
  induction path generalizing position value with
  | nil =>
    cases hbelow
    cases hfound
    exact h
  | cons step rest ih =>
    obtain ⟨part, hpart, hrest⟩ := Option.bind_eq_some_iff.1 hbelow
    obtain ⟨inside, hinside, hvalue⟩ := Option.bind_eq_some_iff.1 hfound
    have present : value ≠ .null := by
      rintro rfl
      cases hinside
    obtain ⟨inside', hinside', hcomes⟩ := complete_part? h present hpart
    rw [hinside] at hinside'
    cases hinside'
    exact ih hcomes hrest hvalue

/-- A value is the one that a position has when no null reaches it: the value of a leaf, and for a
position that is made of others a list or an object of as many values. -/
def Keeps : Position → Json → Prop
  | failed _ _, _ => False
  | leaf _ own, value => value = own
  | inner _ shape parts, value =>
    ∃ values, value = shape.build values ∧ values.length = parts.length

/-- A position that may be null comes to null if and only if its own value is null or a failure
reaches it. -/
theorem complete_value_eq_null_iff {aborted : Prop} {path : Path} {position : Position}
    (wf : position.WellFormed aborted path) (nullable : position.nonNull = false) {value : Json}
    (h : position.complete.value = some value) :
    value = .null ↔ position = .leaf false .null ∨ ∃ path, position.FailsAlong path := by
  cases position with
  | failed nonNull error =>
    cases nullable
    have own : ∃ path, (failed false error).FailsAlong path := ⟨[], trivial⟩
    simp only [own, or_true, iff_true]
    exact (Option.some.inj h).symm
  | leaf nonNull own =>
    cases nullable
    rw [← Option.some.inj h]
    simp [not_failsAlong_leaf]
  | inner nonNull shape parts =>
    cases nullable
    have through := wf.assemble_value_eq_none_iff fun part member below placed =>
      complete_value_eq_none_iff placed
    simp only [reduceCtorEq, false_or, ← through]
    rw [Shape.value_assemble]
    constructor
    · rintro rfl
      by_contra present
      obtain ⟨built, hbuilt⟩ := Option.ne_none_iff_exists'.1 present
      obtain ⟨values, -, rfl⟩ := Option.map_eq_some_iff.1 hbuilt
      simp only [complete, Completion.absorb, Shape.value_assemble, hbuilt, Bool.false_eq_true,
        if_false, Option.getD_some, Option.some.injEq] at h
      exact Shape.build_ne_null shape values h
    · intro lost
      simpa [complete, Completion.absorb, Shape.value_assemble, lost] using h.symm

/-- A position that comes to a value keeps its own, unless it may be null and a failure reaches
it. -/
theorem keeps_of_complete {aborted : Prop} {path : Path} {position : Position}
    (wf : position.WellFormed aborted path) {value : Json}
    (h : position.complete.value = some value)
    (unreached : position.nonNull = true ∨ ¬ ∃ path, position.FailsAlong path) :
    position.Keeps value := by
  cases position with
  | failed nonNull error =>
    rcases unreached with rfl | unreached
    · exact absurd h (by simp [complete])
    · exact absurd ⟨[], trivial⟩ unreached
  | leaf nonNull own => exact (Option.some.inj h).symm
  | inner nonNull shape parts =>
    rcases exists_values_of_complete h with ⟨rfl, isNull⟩ | ⟨values, rfl, same⟩
    · rcases (complete_value_eq_null_iff wf rfl h).1 isNull with hleaf | reached
      · cases hleaf
      · exact absurd reached (unreached.resolve_left Bool.false_ne_true)
    · have length := congrArg List.length same
      rw [List.length_map, List.length_map] at length
      exact ⟨values, rfl, length.symm⟩

end Position

end GraphQL
