import GraphQL.Proofs.Positions.ErrorAccounting

/-!
# Replacing one position

Two responses whose positions are the same but for one (`Position.ReplacedAt`) come to the same data
but for one place. Nulls propagate from the position up to the nearest one around it that may be
null (`Position.nearest?`), and whatever happens below that place, the data around it stays: what is
replaced in the data is the value there (`Position.ReplacedAt.complete_value`). Errors away from the
position are the same, in the same order.
-/

set_option autoImplicit false

namespace GraphQL

namespace Json

/-- Changes the value under the first member of a key, if there is one. -/
def Object.modify (key : String) (f : Json → Json) : Object → Object
  | [] => []
  | member :: rest =>
    if member.1 = key then (member.1, f member.2) :: rest else member :: modify key f rest

/-- Changes the value under a key of an object, or at an index of an array, if there is one. -/
def modifyPart (step : PathElement) (f : Json → Json) : Json → Json
  | .array items =>
    match step with
    | .index i => .array (items.modify i f)
    | .key _ => .array items
  | .object members =>
    match step with
    | .key key => .object (Object.modify key f members)
    | .index _ => .object members
  | value => value

/-- Puts a value in the place that a path leads to, where there is one. -/
def setAt (new : Json) : Path → Json → Json
  | [], _ => new
  | step :: rest, value => value.modifyPart step (setAt new rest)

/-- A change under one key is seen under this key alone. -/
theorem Object.get?_modify (key : String) (f : Json → Json) (members : Object) (other : String) :
    get? (modify key f members) other =
      if other = key then (get? members key).map f else get? members other := by
  induction members with
  | nil =>
    rw [modify, get?_nil, get?_nil]
    split <;> rfl
  | cons member rest ih =>
    by_cases here : member.1 = key
    · rw [modify, if_pos here, get?_cons, get?_cons, get?_cons]
      by_cases same : other = key
      · simp [here, same]
      · have away : ¬ member.1 = other := fun h => same (h.symm.trans here)
        simp [away, same]
    · rw [modify, if_neg here, get?_cons, ih, get?_cons, get?_cons, if_neg here]
      by_cases same : other = key
      · simp [same, here]
      · simp only [same, if_false]

/-- A change of one part is seen at the step to this part alone. -/
theorem part?_modifyPart (step : PathElement) (f : Json → Json) (value : Json)
    (other : PathElement) :
    (value.modifyPart step f).part? other =
      if other = step then (value.part? step).map f else value.part? other := by
  cases value with
  | null | bool | number | string => cases step <;> cases other <;> simp [modifyPart, part?]
  | array items =>
    cases step with
    | key name => cases other <;> simp [modifyPart, part?]
    | index i =>
      cases other with
      | key name => simp [modifyPart, part?]
      | index j =>
        simp only [modifyPart, part?, List.getElem?_modify, PathElement.index.injEq]
        by_cases same : i = j
        · simp [same]
        · have away : ¬ j = i := fun h => same h.symm
          cases items[j]? <;> simp [same, away]
  | object members =>
    cases step with
    | index i => cases other <;> simp [modifyPart, part?]
    | key name =>
      cases other with
      | index j => simp [modifyPart, part?]
      | key other => simp [modifyPart, part?, Object.get?_modify]

/-- Away from the place, neither above nor below it, nothing changes. -/
theorem at?_setAt {new : Json} {path other : Path} (h : ¬ path <+: other) (h' : ¬ other <+: path)
    (value : Json) : (setAt new path value).at? other = value.at? other := by
  induction path generalizing other value with
  | nil => exact absurd List.nil_prefix h
  | cons step rest ih =>
    cases other with
    | nil => exact absurd List.nil_prefix h'
    | cons step' rest' =>
      rw [setAt, at?, at?, part?_modifyPart]
      by_cases same : step' = step
      · subst same
        rw [if_pos rfl]
        cases value.part? step' with
        | none => rfl
        | some part =>
          exact ih (fun on => h (List.cons_prefix_cons.2 ⟨rfl, on⟩))
            (fun on => h' (List.cons_prefix_cons.2 ⟨rfl, on⟩)) part
      · rw [if_neg same]

/-- Data that is the same but for one place is the same away from that place. -/
theorem at?_eq_of_setAt_eq {new : Json} {path other : Path} {first second : Option Json}
    (same : second.map (setAt new path) = first.map (setAt new path)) (h : ¬ path <+: other)
    (h' : ¬ other <+: path) : second.bind (·.at? other) = first.bind (·.at? other) := by
  have unmoved : ∀ data : Option Json,
      (data.map (setAt new path)).bind (·.at? other) = data.bind (·.at? other) := by
    intro data
    cases data with
    | none => rfl
    | some data => exact at?_setAt h h' data
  rw [← unmoved, same, unmoved]

/-- Two changes under one key are one. -/
theorem Object.modify_modify (key : String) (f g : Json → Json) (members : Object) :
    modify key f (modify key g members) = modify key (f ∘ g) members := by
  induction members with
  | nil => rfl
  | cons member rest ih =>
    by_cases here : member.1 = key
    · simp [modify, here]
    · simp [modify, here, ih]

/-- Two changes of one part are one. -/
theorem modifyPart_modifyPart (step : PathElement) (f g : Json → Json) (value : Json) :
    (value.modifyPart step g).modifyPart step f = value.modifyPart step (f ∘ g) := by
  cases value <;> cases step <;>
    simp [modifyPart, Object.modify_modify, List.modify_modify_eq, Function.comp_def]

/-- What is put in a place later is what stays. -/
theorem setAt_setAt (new old : Json) (path : Path) (value : Json) :
    setAt new path (setAt old path value) = setAt new path value := by
  induction path generalizing value with
  | nil => rfl
  | cons step rest ih =>
    rw [setAt, setAt, setAt, modifyPart_modifyPart]
    congr 1
    exact funext ih

end Json

namespace Shape

/-- A change under a key is one at the place of the key. -/
theorem modify_zip {keys : List String} {key : String} {i : Nat} (h : keys.idxOf? key = some i)
    (f : Json → Json) (values : List Json) :
    Json.Object.modify key f (keys.zip values) = keys.zip (values.modify i f) := by
  induction keys generalizing values i with
  | nil => cases h
  | cons first rest ih =>
    cases values with
    | nil => simp [Json.Object.modify]
    | cons value values =>
      rw [List.idxOf?_cons] at h
      by_cases here : first = key
      · simp only [here, beq_self_eq_true, if_true, Option.some.injEq] at h
        subst h
        simp [Json.Object.modify, here]
      · simp only [here, beq_iff_eq, if_false, Option.map_eq_some_iff] at h
        obtain ⟨j, hj, rfl⟩ := h
        simp [Json.Object.modify, here, ih hj]

/-- A change at a step is one at the place of the step, before the parts are put together. -/
theorem modifyPart_build {shape : Shape} {step : PathElement} {i : Nat}
    (h : shape.index? step = some i) (f : Json → Json) (values : List Json) :
    (shape.build values).modifyPart step f = shape.build (values.modify i f) := by
  cases shape with
  | items =>
    cases step with
    | key name => cases h
    | index j =>
      cases h
      rfl
  | fields keys =>
    cases step with
    | index j => cases h
    | key name => exact congrArg Json.object (modify_zip h f values)

/-- Only one step leads to a place. -/
theorem step_eq {shape : Shape} {step step' : PathElement} {i : Nat}
    (h : shape.index? step = some i) (h' : shape.index? step' = some i) : step = step' := by
  cases shape with
  | items =>
    cases step <;> cases step' <;> cases h <;> cases h'
    rfl
  | fields keys =>
    cases step <;> cases step' <;> try (first | cases h | cases h')
    rw [index?, List.idxOf?_eq_some_iff] at h h'
    obtain ⟨hi, rfl, -⟩ := h
    obtain ⟨-, rfl, -⟩ := h'
    rfl

/-- Changing the value of one part changes the value that is made of the parts in its place. -/
theorem value_assemble_set {shape : Shape} {step : PathElement} {i : Nat}
    (place : shape.index? step = some i) {parts : List Completion} {old new : Completion}
    (part : parts[i]? = some old) {f : Json → Json} (h : new.value = old.value.map f) :
    (shape.assemble (parts.set i new)).value =
      (shape.assemble parts).value.map (Json.modifyPart step f) := by
  have values : (parts.set i new).mapM Completion.value =
      (parts.mapM Completion.value).map (·.modify i f) := by
    clear place
    induction parts generalizing i with
    | nil => cases part
    | cons first rest ih =>
      cases i with
      | zero =>
        cases part
        cases hold : old.value <;> cases hrest : rest.mapM Completion.value <;>
          simp [List.mapM_cons, h, hold, hrest]
      | succ i =>
        have later := ih part
        cases hfirst : first.value <;> cases hrest : rest.mapM Completion.value <;>
          simp [List.mapM_cons, later, hfirst, hrest]
  rw [value_assemble, value_assemble, values, Option.map_map, Option.map_map]
  congr 1
  funext values
  exact (modifyPart_build place f values).symm

end Shape

/-- Whether an error is at or below some path. -/
def ResponseError.isWithin (error : ResponseError) (path : Path) : Bool :=
  error.path.any fun place => path.isPrefixOf place

namespace Position

/-- Two positions are the same but for one in them, at the end of a path. That one may be null in
both or in neither. -/
inductive ReplacedAt : Path → Position → Position → Prop
  | here {old new : Position} (same : new.nonNull = old.nonNull) : ReplacedAt [] old new
  | inside {nonNull : Bool} {shape : Shape} {parts : List Position} {i : Nat} {step : PathElement}
    {rest : Path} {old new : Position} (place : shape.index? step = some i)
    (part : parts[i]? = some old) (h : ReplacedAt rest old new) :
    ReplacedAt (step :: rest) (.inner nonNull shape parts) (.inner nonNull shape (parts.set i new))

/-- The nearest position at or above the end of a path that may be null. -/
def nearest? (position : Position) : Path → Option Path
  | [] => if position.nonNull then none else some []
  | step :: rest =>
    match (position.part? step).bind fun part => part.nearest? rest with
    | some below => some (step :: below)
    | none => if position.nonNull then none else some []

/-- Putting an item where it is makes no difference. -/
theorem set_getElem?_self {α : Type} {items : List α} {i : Nat} {item : α}
    (h : items[i]? = some item) : items.set i item = items := by
  obtain ⟨hi, rfl⟩ := List.getElem?_eq_some_iff.1 h
  exact List.set_getElem_self hi

/-- The part at a step is the one at the place of the step. -/
theorem part?_inner_eq {nonNull : Bool} {shape : Shape} {parts : List Position} {i : Nat}
    {step : PathElement} {part : Position} (place : shape.index? step = some i)
    (h : parts[i]? = some part) : (inner nonNull shape parts).part? step = some part :=
  Option.bind_eq_some_iff.2 ⟨i, place, h⟩

/-- A part that is replaced is found at its own step alone. -/
theorem part?_inner_set {nonNull : Bool} {shape : Shape} {parts : List Position} {i : Nat}
    {old : Position} (part : parts[i]? = some old) (new : Position) (step : PathElement) :
    (inner nonNull shape (parts.set i new)).part? step =
      if shape.index? step = some i then some new else (inner nonNull shape parts).part? step := by
  have hi := (List.getElem?_eq_some_iff.1 part).1
  simp only [part?]
  cases shape.index? step with
  | none => simp
  | some j =>
    by_cases same : i = j
    · subst same
      simp [hi]
    · have away : ¬ j = i := fun h => same h.symm
      simp [same, away]

namespace ReplacedAt

/-- A position that is there may be replaced by itself. -/
theorem refl {position below : Position} {path : Path} (h : position.at? path = some below) :
    ReplacedAt path position position := by
  induction path generalizing position with
  | nil => exact .here rfl
  | cons step rest ih =>
    obtain ⟨part, hpart, hrest⟩ := Option.bind_eq_some_iff.1 h
    cases position with
    | failed | leaf => cases hpart
    | inner nonNull shape parts =>
      obtain ⟨i, place, hi⟩ := part?_inner_eq_some hpart
      have same : ReplacedAt (step :: rest) (.inner nonNull shape parts)
          (.inner nonNull shape (parts.set i part)) := .inside place hi (ih hrest)
      rwa [set_getElem?_self hi] at same

/-- What is replaced below a position does not change whether it may be null. -/
theorem nonNull_eq {path : Path} {old new : Position} (h : ReplacedAt path old new) :
    new.nonNull = old.nonNull := by
  cases h with
  | here same => exact same
  | inside => rfl

/-- At a place above the end of the path, the positions there are the same but for one. -/
theorem at_prefix {path rest : Path} {old new : Position} (h : ReplacedAt (path ++ rest) old new) :
    ∃ before after, old.at? path = some before ∧ new.at? path = some after ∧
      ReplacedAt rest before after ∧ ReplacedAt path old new := by
  induction path generalizing old new with
  | nil => exact ⟨old, new, rfl, rfl, h, .here h.nonNull_eq⟩
  | cons step path ih =>
    cases h with
    | @inside nonNull shape parts i _ _ old new place part h =>
      obtain ⟨before, after, hbefore, hafter, below, upTo⟩ := ih h
      refine ⟨before, after, ?_, ?_, below, .inside place part upTo⟩
      · rw [at?_cons (part?_inner_eq place part), hbefore]
      · rw [at?, part?_inner_set part, if_pos place, Option.bind_some, hafter]

/-- Where both positions at the end of the path come to a value, so that no null propagates from
there, the value in that place is all that changes in the data. -/
theorem complete_value {path : Path} {old new before after : Position} {lost value : Json}
    (h : ReplacedAt path old new) (hbefore : old.at? path = some before)
    (hafter : new.at? path = some after) (held : before.complete.value = some lost)
    (holds : after.complete.value = some value) :
    new.complete.value = old.complete.value.map (Json.setAt value path) := by
  induction h with
  | @here old new same =>
    cases hbefore
    cases hafter
    rw [held, holds]
    rfl
  | @inside nonNull shape parts i step rest old new place part h ih =>
    have inPart : new.complete.value = old.complete.value.map (Json.setAt value rest) := by
      apply ih
      · rwa [at?_cons (part?_inner_eq place part)] at hbefore
      · rwa [at?, part?_inner_set part, if_pos place, Option.bind_some] at hafter
    have assembled : (shape.assemble (completeAll (parts.set i new))).value =
        (shape.assemble (completeAll parts)).value.map (Json.setAt value (step :: rest)) := by
      rw [completeAll_eq_map, completeAll_eq_map, List.map_set]
      refine Shape.value_assemble_set place ?_ inPart
      rw [List.getElem?_map, part, Option.map_some]
    cases nonNull with
    | true => exact assembled
    | false =>
      simp only [complete, Bool.false_eq_true, if_false, Completion.absorb, assembled]
      cases (shape.assemble (completeAll parts)).value <;> rfl

/-- Errors that are not at or below the end of the path are the same, in the same order. -/
theorem complete_errors {aborted : Prop} {base path : Path} {old new : Position}
    (h : ReplacedAt path old new) (wf : old.WellFormed aborted base)
    (wf' : new.WellFormed aborted base) :
    new.complete.errors.filter (fun error => !error.isWithin (base ++ path)) =
      old.complete.errors.filter (fun error => !error.isWithin (base ++ path)) := by
  induction h generalizing base with
  | @here old new same =>
    -- all errors of a position are at or below its path, whatever stands there
    have within : ∀ {position : Position}, position.WellFormed aborted base →
        position.complete.errors.filter (fun error => !error.isWithin (base ++ [])) = [] := by
      intro position wf
      rw [List.filter_eq_nil_iff]
      intro error member
      obtain ⟨path, nonNull, located, -⟩ := exists_path_of_mem_complete_errors wf member
      simp [ResponseError.isWithin, located]
    rw [within wf, within wf']
  | @inside nonNull shape parts i step rest old new place part h ih =>
    have hpart : (inner nonNull shape parts).part? step = some old := part?_inner_eq place part
    have hpart' : (inner nonNull shape (parts.set i new)).part? step = some new := by
      rw [part?_inner_set part, if_pos place]
    have inPart : new.complete.errors.filter (fun error => !error.isWithin (base ++ step :: rest)) =
        old.complete.errors.filter (fun error => !error.isWithin (base ++ step :: rest)) := by
      have further : base ++ step :: rest = base.join step ++ rest := by simp [Path.join]
      cases wf with
      | inner fits each =>
        cases wf' with
        | inner fits' each' =>
          rw [further]
          exact ih (each step old hpart) (each' step new hpart')
    rw [complete_inner_errors, complete_inner_errors, List.filter_flatMap, List.filter_flatMap,
      List.flatMap_def, List.flatMap_def]
    congr 1
    apply List.ext_getElem?
    intro j
    by_cases same : i = j
    · subst same
      obtain ⟨hi, rfl⟩ := List.getElem?_eq_some_iff.1 part
      simp [hi, inPart]
    · simp [same]

end ReplacedAt

/-- A position that may be null comes to some value. -/
theorem exists_complete_value {position : Position} (nullable : position.nonNull = false) :
    ∃ value, position.complete.value = some value := by
  cases position <;> cases nullable <;> exact ⟨_, rfl⟩

/-- The place from which a null stops is on the way, and the position there may be null. -/
theorem at?_nearest? {position : Position} {path place : Path}
    (h : position.nearest? path = some place) :
    ∃ rest below, path = place ++ rest ∧ position.at? place = some below ∧
      below.nonNull = false := by
  induction path generalizing position place with
  | nil =>
    rw [nearest?] at h
    split at h
    · cases h
    · next nullable =>
      cases h
      exact ⟨[], position, rfl, rfl, eq_false_of_ne_true nullable⟩
  | cons step path ih =>
    rw [nearest?] at h
    split at h
    · next below found =>
      cases h
      obtain ⟨part, hpart, hbelow⟩ := Option.bind_eq_some_iff.1 found
      obtain ⟨rest, inside, rfl, hinside, nullable⟩ := ih hbelow
      exact ⟨rest, inside, rfl, (at?_cons hpart).trans hinside, nullable⟩
    · split at h
      · cases h
      · next nullable =>
        cases h
        exact ⟨step :: path, position, rfl, rfl, eq_false_of_ne_true nullable⟩

/-- The failure of a position reaches the nearest one around it that may be null; where there is
none, it reaches the position at the start of the path, which is of non-null type then. -/
theorem failsAlong_nearest? {position : Position} {path : Path} {nonNull : Bool}
    {error : Option ResponseError} (h : position.at? path = some (.failed nonNull error)) :
    (position.nearest? path = none → position.nonNull = true ∧ position.FailsAlong path) ∧
      ∀ place, position.nearest? path = some place → ∃ rest below, path = place ++ rest ∧
        position.at? place = some below ∧ below.nonNull = false ∧ below.FailsAlong rest := by
  induction path generalizing position with
  | nil =>
    cases h
    cases nonNull with
    | true => exact ⟨fun _ => ⟨rfl, trivial⟩, fun place found => by cases found⟩
    | false =>
      refine ⟨fun missing => (by cases missing), fun place found => ?_⟩
      cases found
      exact ⟨[], _, rfl, rfl, rfl, trivial⟩
  | cons step path ih =>
    obtain ⟨part, hpart, hrest⟩ := Option.bind_eq_some_iff.1 h
    obtain ⟨through, stops⟩ := ih hrest
    rw [nearest?, hpart, Option.bind_some]
    cases found : part.nearest? path with
    | some below =>
      refine ⟨fun missing => (by cases missing), fun place same => ?_⟩
      cases same
      obtain ⟨rest, inside, rfl, hinside, nullable, fails⟩ := stops below found
      exact ⟨rest, inside, rfl, (at?_cons hpart).trans hinside, nullable, fails⟩
    | none =>
      obtain ⟨strict, fails⟩ := through found
      have reaches : position.FailsAlong (step :: path) := ⟨part, hpart, strict, fails⟩
      cases own : position.nonNull with
      | true => exact ⟨fun _ => ⟨rfl, reaches⟩, fun place same => by cases same⟩
      | false =>
        refine ⟨fun missing => (by cases missing), fun place same => ?_⟩
        cases same
        exact ⟨step :: path, position, rfl, rfl, own, reaches⟩

namespace ReplacedAt

/-- The place from which a null would stop is the same for both, except below the position that is
replaced. -/
theorem nearest?_eq {path other : Path} {old new : Position} (h : ReplacedAt path old new)
    (notBelow : path <+: other → other = path) : new.nearest? other = old.nearest? other := by
  induction h generalizing other with
  | here same =>
    rw [notBelow List.nil_prefix, nearest?, nearest?, same]
  | @inside nonNull shape parts i step rest old new place part h ih =>
    cases other with
    | nil => rfl
    | cons step' rest' =>
      rw [nearest?, nearest?]
      by_cases same : shape.index? step' = some i
      · obtain rfl := Shape.step_eq place same
        have inPart : new.nearest? rest' = old.nearest? rest' := by
          apply ih
          intro on
          exact (List.cons.inj (notBelow (List.cons_prefix_cons.2 ⟨rfl, on⟩))).2
        rw [part?_inner_eq place part, part?_inner_set part, if_pos place, Option.bind_some,
          Option.bind_some, inPart]
        rfl
      · rw [part?_inner_set part, if_neg same]
        rfl

/-- The data around the nearest position that may be null is the same for both. -/
theorem complete_value_around {path place : Path} {old new : Position}
    (h : ReplacedAt path old new) (hplace : old.nearest? path = some place) :
    new.complete.value.map (Json.setAt .null place) =
      old.complete.value.map (Json.setAt .null place) := by
  obtain ⟨rest, below, rfl, hbelow, nullable⟩ := at?_nearest? hplace
  obtain ⟨before, after, hbefore, hafter, inside, upTo⟩ := h.at_prefix
  rw [hbefore] at hbelow
  cases hbelow
  obtain ⟨lost, held⟩ := exists_complete_value nullable
  obtain ⟨value, holds⟩ := exists_complete_value (inside.nonNull_eq.trans nullable)
  rw [upTo.complete_value hbefore hafter held holds, Option.map_map]
  congr 1
  funext data
  exact Json.setAt_setAt _ _ _ _

/-- A position that fails leaves a null in the nearest place that may be null, and takes the data as
a whole where there is none. Nothing else changes. -/
theorem complete_value_of_failed {path : Path} {old new : Position} (h : ReplacedAt path old new)
    {aborted : Prop} {base : Path} (wf : new.WellFormed aborted base) {nonNull : Bool}
    {error : Option ResponseError} (failed : new.at? path = some (.failed nonNull error)) :
    new.complete.value =
      (old.nearest? path).bind fun place => old.complete.value.map (Json.setAt .null place) := by
  obtain ⟨through, stops⟩ := failsAlong_nearest? failed
  rw [h.nearest?_eq fun _ => rfl] at through stops
  cases hplace : old.nearest? path with
  | none =>
    obtain ⟨strict, fails⟩ := through hplace
    exact (complete_value_eq_none_iff wf).2 ⟨strict, path, fails⟩
  | some place =>
    obtain ⟨rest, after, rfl, hafter, nullable, fails⟩ := stops place hplace
    obtain ⟨before, _, hbefore, hafter', inside, upTo⟩ := h.at_prefix
    rw [hafter] at hafter'
    cases hafter'
    obtain ⟨value, holds⟩ := exists_complete_value nullable
    obtain ⟨lost, held⟩ := exists_complete_value (inside.nonNull_eq.symm.trans nullable)
    have isNull : value = .null :=
      (complete_value_eq_null_iff (wf.of_at? hafter) nullable holds).2 (Or.inr ⟨rest, fails⟩)
    rw [upTo.complete_value hbefore hafter held holds, isNull]
    rfl

end ReplacedAt

end Position

end GraphQL
