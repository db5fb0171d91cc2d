import GraphQL.Proofs.Positions.Executed

/-!
# Error accounting

The errors of a response that have a path are those of its failed positions: one for each, at its
own path, in the order of the document. No failed position is in another one, so that no path of an
error goes on from that of another. What is reported can be seen in the data, where a null is met on
the way to the position, and data that is missing is accounted for. `Engine.execute_errors` says so
for every run; the one error without a path is that of a cancellation.
-/

set_option autoImplicit false

namespace GraphQL

namespace Position

/-- One path comes before another one in the order of the document: where they diverge, it takes the
step to an earlier part. -/
def Precedes (position : Position) (first second : Path) : Prop :=
  ∃ common fork step step' i j, position.at? common = some fork ∧
    fork.index? step = some i ∧ fork.index? step' = some j ∧ i < j ∧
    common.join step <+: first ∧ common.join step' <+: second

/-- A path that diverges from another one does not go on from it, nor the other way round. -/
theorem Precedes.not_isPrefix {position : Position} {first second : Path}
    (h : position.Precedes first second) : ¬ first <+: second ∧ ¬ second <+: first := by
  obtain ⟨common, fork, step, step', i, j, -, hi, hj, less, below, below'⟩ := h
  have different : step ≠ step' := by
    rintro rfl
    rw [hi] at hj
    cases hj
    exact Nat.lt_irrefl _ less
  exact ⟨fun on => different (Path.step_eq_of_isPrefix (below.trans on) below'),
    fun on => different (Path.step_eq_of_isPrefix below (below'.trans on))⟩

/-- Paths in a part are in the order in which the part has them. -/
theorem Precedes.cons {position part : Position} {step : PathElement} {first second : Path}
    (hpart : position.part? step = some part) (h : part.Precedes first second) :
    position.Precedes (step :: first) (step :: second) := by
  obtain ⟨common, fork, left, right, i, j, hfork, hi, hj, less, below, below'⟩ := h
  refine ⟨step :: common, fork, left, right, i, j, ?_, hi, hj, less, ?_, ?_⟩
  · rw [at?_cons hpart, hfork]
  · exact List.cons_prefix_cons.2 ⟨rfl, below⟩
  · exact List.cons_prefix_cons.2 ⟨rfl, below'⟩

/-- The errors at a list or an object are those of its parts, in order. -/
theorem complete_inner_errors (nonNull : Bool) (shape : Shape) (parts : List Position) :
    (inner nonNull shape parts).complete.errors =
      parts.flatMap fun part => part.complete.errors := by
  have assembled : (shape.assemble (completeAll parts)).errors =
      parts.flatMap fun part => part.complete.errors := by
    rw [Shape.errors_assemble, completeAll_eq_map, List.flatMap_map]
  cases nonNull <;> exact assembled

/-- A path that is found in a position without parts leads to the position itself. -/
theorem eq_self_of_at? {position below : Position} {path : Path}
    (none : ∀ step, position.part? step = none) (h : position.at? path = some below) :
    below = position := by
  cases path with
  | nil =>
    cases h
    rfl
  | cons step rest =>
    rw [at?, none step] at h
    cases h

/-- The errors of a position are those of the failed positions in it. -/
theorem mem_complete_errors_iff {aborted : Prop} {base : Path} {position : Position}
    (wf : position.WellFormed aborted base) {error : ResponseError} :
    error ∈ position.complete.errors ↔
      ∃ path nonNull, position.at? path = some (.failed nonNull (some error)) := by
  induction wf with
  | @failed base nonNull own located =>
    rw [complete, Option.toList_some, List.mem_singleton]
    constructor
    · rintro rfl
      exact ⟨[], nonNull, rfl⟩
    · rintro ⟨path, nonNull', h⟩
      cases eq_self_of_at? (fun step => rfl) h
      rfl
  | aborted | leaf =>
    refine ⟨fun member => absurd member List.not_mem_nil, ?_⟩
    rintro ⟨path, nonNull, h⟩
    cases eq_self_of_at? (fun step => rfl) h
  | @inner base nonNull shape parts fits each ih =>
    rw [complete_inner_errors, List.mem_flatMap]
    constructor
    · rintro ⟨part, member, reported⟩
      obtain ⟨step, hpart⟩ := exists_part? nonNull fits member
      obtain ⟨path, nonNull', h⟩ := (ih step part hpart).1 reported
      exact ⟨step :: path, nonNull', (at?_cons hpart).trans h⟩
    · rintro ⟨_ | ⟨step, rest⟩, nonNull', h⟩
      · cases h
      · obtain ⟨part, hpart, h⟩ := Option.bind_eq_some_iff.1 h
        exact ⟨part, mem_of_part? hpart, (ih step part hpart).2 ⟨rest, nonNull', h⟩⟩

/-- An error of a position has the path of a failed position in it. -/
theorem exists_path_of_mem_complete_errors {aborted : Prop} {base : Path} {position : Position}
    (wf : position.WellFormed aborted base) {error : ResponseError}
    (member : error ∈ position.complete.errors) :
    ∃ path nonNull, error.path = some (base ++ path) ∧
      position.at? path = some (.failed nonNull (some error)) := by
  obtain ⟨path, nonNull, h⟩ := (mem_complete_errors_iff wf).1 member
  cases wf.of_at? h with
  | failed located => exact ⟨path, nonNull, located, h⟩

/-- The errors of a position are in the order of the document. -/
theorem pairwise_complete_errors {aborted : Prop} {base : Path} {position : Position}
    (wf : position.WellFormed aborted base) :
    position.complete.errors.Pairwise fun first second => ∃ path path',
      first.path = some (base ++ path) ∧ second.path = some (base ++ path') ∧
        position.Precedes path path' := by
  induction wf with
  | failed located => exact List.pairwise_singleton _ _
  | aborted | leaf => exact List.Pairwise.nil
  | @inner base nonNull shape parts fits each ih =>
    have below : ∀ step path, base.join step ++ path = base ++ step :: path := by simp [Path.join]
    rw [complete_inner_errors, List.pairwise_flatMap]
    constructor
    · intro part member
      obtain ⟨step, hpart⟩ := exists_part? nonNull fits member
      refine (ih step part hpart).imp ?_
      rintro first second ⟨path, path', hfirst, hsecond, precedes⟩
      rw [below] at hfirst hsecond
      exact ⟨_, _, hfirst, hsecond, precedes.cons hpart⟩
    · -- errors of different parts diverge at this position
      rw [List.pairwise_iff_getElem]
      intro i j hi hj less first hfirst second hsecond
      obtain ⟨step, hstep⟩ := Shape.exists_step fits hi
      obtain ⟨step', hstep'⟩ := Shape.exists_step fits hj
      have hpart : (inner nonNull shape parts).part? step = some parts[i] :=
        Option.bind_eq_some_iff.2 ⟨i, hstep, List.getElem?_eq_getElem hi⟩
      have hpart' : (inner nonNull shape parts).part? step' = some parts[j] :=
        Option.bind_eq_some_iff.2 ⟨j, hstep', List.getElem?_eq_getElem hj⟩
      obtain ⟨path, -, located, -⟩ :=
        exists_path_of_mem_complete_errors (each step _ hpart) hfirst
      obtain ⟨path', -, located', -⟩ :=
        exists_path_of_mem_complete_errors (each step' _ hpart') hsecond
      rw [below] at located located'
      refine ⟨_, _, located, located', [], _, step, step', i, j, rfl, hstep, hstep', less, ?_, ?_⟩
      · exact ⟨path, rfl⟩
      · exact ⟨path', rfl⟩

/-- On the way to a failed position a null is met. -/
theorem exists_null_of_failed {position : Position} {path : Path} {nonNull : Bool}
    {error : Option ResponseError} (h : position.at? path = some (.failed nonNull error)) :
    ∃ before, before <+: path ∧
      (position.complete.value.getD .null).at? before = some .null := by
  induction path generalizing position with
  | nil =>
    cases h
    refine ⟨[], List.nil_prefix, ?_⟩
    cases nonNull <;> rfl
  | cons step rest ih =>
    by_cases isNull : position.complete.value.getD .null = .null
    · exact ⟨[], List.nil_prefix, by rw [isNull]; rfl⟩
    obtain ⟨part, hpart, hrest⟩ := Option.bind_eq_some_iff.1 h
    obtain ⟨before, on, met⟩ := ih hrest
    cases hvalue : position.complete.value with
    | none =>
      rw [hvalue] at isNull
      exact absurd rfl isNull
    | some value =>
      rw [hvalue, Option.getD_some] at isNull
      obtain ⟨inside, hinside, hcomes⟩ := complete_part? hvalue isNull hpart
      refine ⟨step :: before, List.cons_prefix_cons.2 ⟨rfl, on⟩, ?_⟩
      rw [hcomes, Option.getD_some] at met
      rw [Option.getD_some, Json.at?, hinside, Option.bind_some, met]

/-- A failure that reaches a position is that of a position in it. -/
theorem FailsAlong.exists_failed {position : Position} {path : Path}
    (h : position.FailsAlong path) :
    ∃ nonNull error, position.at? path = some (.failed nonNull error) := by
  induction path generalizing position with
  | nil =>
    cases position with
    | failed nonNull error => exact ⟨nonNull, error, rfl⟩
    | leaf | inner => cases h
  | cons step rest ih =>
    obtain ⟨part, hpart, -, fails⟩ := h
    obtain ⟨nonNull, error, hfailed⟩ := ih fails
    exact ⟨nonNull, error, (at?_cons hpart).trans hfailed⟩

end Position

namespace Engine

variable {State : Type}

/-- The errors of a response are accounted for: those of its failed positions, and the error of a
cancellation that gave up a call. Which positions fail is up to what became of the calls, and that
is what their resolvers give under the time limit, unless no resolver is bound or the operation was
cancelled. -/
theorem execute_errors (engine : Engine State) {request : Request} (state : State)
    (cancelAt : Option Nat) {operation : Operation} {rootType : ObjectType}
    (selected : engine.select request = .ok (operation, rootType)) :
    let execution := engine.execute request state cancelAt
    let root := engine.positions request operation rootType execution.world.outcome
    ∃ located,
      execution.response.errors = located ++ (if execution.world.aborted then
        [Reportable.report none ExecutionError.cancelled] else []) ∧
      (∀ call ∈ engine.calls request operation rootType execution.world.outcome,
        engine.Due execution.world call (execution.world.outcome call)) ∧
      (∀ path nonNull error, root.at? path = some (.failed nonNull (some error)) →
        error.path = some path ∧ error ∈ located) ∧
      (∀ path nonNull, root.at? path = some (.failed nonNull none) →
        execution.world.aborted = true) ∧
      (∀ error ∈ located, ∃ path nonNull, error.path = some path ∧
        root.at? path = some (.failed nonNull (some error)) ∧
        ∃ before, before <+: path ∧
          (execution.response.data.getD .null).at? before = some .null) ∧
      located.Pairwise (fun first second => ∃ path path', first.path = some path ∧
        second.path = some path' ∧ root.Precedes path path' ∧
        ¬ path <+: path' ∧ ¬ path' <+: path) ∧
      (execution.response.data = none → execution.response.errors ≠ []) := by
  intro execution root
  obtain ⟨response, wf, -⟩ := engine.execute_selected state cancelAt selected
  have data : execution.response.data = root.complete.value := congrArg Response.data response
  have errors := congrArg Response.errors response
  have reported : ∀ path nonNull error, root.at? path = some (.failed nonNull (some error)) →
      error.path = some path ∧ error ∈ root.complete.errors := by
    intro path nonNull error h
    refine ⟨?_, (Position.mem_complete_errors_iff wf).2 ⟨path, nonNull, h⟩⟩
    cases wf.of_at? h with
    | failed located => exact located
  -- failed without an error is what was given up, and nothing else
  have given : ∀ path nonNull, root.at? path = some (.failed nonNull none) →
      execution.world.aborted = true := by
    intro path nonNull h
    cases wf.of_at? h with
    | aborted given => exact given
  refine ⟨root.complete.errors, errors, (engine.execute_due state cancelAt selected).2.2, reported,
    given, ?_, ?_, ?_⟩
  · intro error member
    obtain ⟨path, nonNull, located, h⟩ := Position.exists_path_of_mem_complete_errors wf member
    refine ⟨path, nonNull, located, h, ?_⟩
    rw [data]
    exact Position.exists_null_of_failed h
  · refine (Position.pairwise_complete_errors wf).imp ?_
    rintro first second ⟨path, path', hfirst, hsecond, precedes⟩
    exact ⟨path, path', hfirst, hsecond, precedes, precedes.not_isPrefix⟩
  · -- the failure that reached the root is reported, unless it is that of a call given up
    intro missing unreported
    rw [data, Position.complete_value_eq_none_iff wf] at missing
    obtain ⟨-, path, fails⟩ := missing
    obtain ⟨nonNull, error, h⟩ := fails.exists_failed
    obtain ⟨noErrors, noCancellation⟩ := List.append_eq_nil_iff.1 (errors.symm.trans unreported)
    cases error with
    | some error =>
      have member := (reported path nonNull error h).2
      rw [noErrors] at member
      cases member
    | none =>
      rw [if_pos (given path nonNull h)] at noCancellation
      cases noCancellation

/-- The error of the field that is declared non-null is that of its position. -/
theorem execute_errors_sample :
    let request : Request := { query := some "{strict lenient}" }
    ∃ operation rootType, sample.select request = .ok (operation, rootType) ∧
      ∃ error path nonNull, error ∈ (sample.execute request () none).response.errors ∧
        error.path = some path ∧
        (sample.positions request operation rootType
          (sample.execute request () none).world.outcome).at? path =
            some (.failed nonNull (some error)) := by
  intro request
  have missing : (sample.execute request () none).response.data = none := by decide +kernel
  have kept : (sample.execute request () none).world.aborted = false := by decide +kernel
  obtain ⟨operation, rootType, selected⟩ :
      ∃ operation rootType, sample.select request = .ok (operation, rootType) :=
    exists_selected (by decide +kernel)
  obtain ⟨located, errors, -, -, -, places, -, reported⟩ := sample.execute_errors () none selected
  rw [kept, if_neg Bool.false_ne_true, List.append_nil] at errors
  obtain ⟨error, member⟩ := List.exists_mem_of_ne_nil _ (reported missing)
  obtain ⟨path, nonNull, hpath, failed, -⟩ := places error (errors ▸ member)
  exact ⟨operation, rootType, selected, error, path, nonNull, member, hpath, failed⟩

end Engine

end GraphQL
