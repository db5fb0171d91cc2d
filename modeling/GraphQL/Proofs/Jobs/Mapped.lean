import GraphQL.Proofs.Jobs.Entries
import GraphQL.Proofs.Jobs.Views

/-!
# Runs with other results

Two plans may do the same with results that look different. `Plan.Mirrors` says so: the second plan
does what the first one does, in worlds as they are seen, and comes to the mapped result. Jobs that
are put together and mapped one by one are the jobs that are mapped and put together
(`Job.inOrder_mapIdx`, `Job.together_mapIdx`), and so groups mirror each other if their parts do
(`Plan.mirrors_group`).
-/

set_option autoImplicit false

namespace GraphQL

namespace Progress

variable {State α β γ δ : Type}

/-- What follows a changed result may change the result itself. -/
theorem bind_map (progress : Progress State α) (f : α → β) (next : β → Job State γ) :
    (progress.map f).bind next = progress.bind fun a => next (f a) := by
  induction progress with
  | done world result => rfl
  | paused world wake resume ih =>
    rw [map, bind, bind]
    congr 1
    funext later
    exact ih later

/-- A paused computation beside another one may be mapped on both sides. -/
theorem map_besidePaused (f : α → γ) (g : β → δ) (wake : Nat)
    {left : World State → Job State β → Progress State (α × β)}
    {left' : World State → Job State δ → Progress State (γ × δ)}
    (hleft : ∀ world right, (left world right).map (Prod.map f g) = left' world (right.map g))
    (progress : Progress State β) :
    (besidePaused wake left progress).map (Prod.map f g) =
      besidePaused wake left' (progress.map g) := by
  induction progress with
  | done world result =>
    rw [besidePaused, map, map, besidePaused]
    congr 1
    funext later
    exact hleft later _
  | paused world rightWake resume ih =>
    rw [besidePaused, map, map, besidePaused]
    congr 1
    funext later
    by_cases wakes : later.wakes wake = true
    · simp only [if_pos wakes]
      rw [hleft]
      congr 1
      funext last
      rw [Job.map]
      split <;> rfl
    · simp only [if_neg wakes]
      exact ih later

/-- The results of two jobs side by side can be changed one by one. -/
theorem map_beside (f : α → γ) (g : β → δ) (progress : Progress State α) (right : Job State β) :
    (progress.beside right).map (Prod.map f g) = (progress.map f).beside (right.map g) := by
  induction progress generalizing right with
  | done world result =>
    show ((right world).map _).map _ = ((right world).map g).map _
    rw [map_map, map_map]
    rfl
  | paused world wake resume ih => exact map_besidePaused f g wake ih (right world)

end Progress

namespace Job

variable {State α β : Type}

/-- Jobs one after the other, with their results mapped one by one. -/
theorem inOrder_mapIdx (f : Nat → α → β) (jobs : List (Job State α)) :
    (inOrder jobs).map (List.mapIdx f) = inOrder (jobs.mapIdx fun i job => job.map (f i)) := by
  induction jobs generalizing f with
  | nil => rfl
  | cons job rest ih =>
    have later : ∀ result, ((inOrder rest).map (result :: ·)).map (List.mapIdx f) =
        (inOrder (rest.mapIdx fun i job => job.map (f (i + 1)))).map (f 0 result :: ·) := by
      intro result
      rw [← ih]
      funext world
      show ((inOrder rest world).map _).map _ = ((inOrder rest world).map _).map _
      rw [Progress.map_map, Progress.map_map]
      congr 1
      funext results
      exact List.mapIdx_cons
    rw [List.mapIdx_cons, inOrder, inOrder]
    funext world
    show ((job world).bind _).map _ = ((job world).map (f 0)).bind _
    rw [Progress.map_bind, Progress.bind_map]
    congr 1
    funext result
    exact later result

/-- Jobs side by side, with their results mapped one by one. -/
theorem together_mapIdx (f : Nat → α → β) (jobs : List (Job State α)) :
    (together jobs).map (List.mapIdx f) = together (jobs.mapIdx fun i job => job.map (f i)) := by
  induction jobs generalizing f with
  | nil => rfl
  | cons job rest ih =>
    rw [List.mapIdx_cons, together, together, ← ih]
    funext world
    show (((job world).beside (together rest)).map _).map _ =
      Progress.map _ (((job world).map (f 0)).beside _)
    rw [← Progress.map_beside, Progress.map_map, Progress.map_map]
    congr 1
    funext results
    exact List.mapIdx_cons

end Job

namespace Plan

variable {State Other : Type}

/-- The second plan does what the first one does, in worlds as they are seen, and comes to the
mapped result. -/
def Mirrors (view : World.View State Other) (perform : Call → Job State Outcome)
    (perform' : Call → Job Other Outcome) (f : Completion → Completion)
    (plan plan' : Plan) : Prop :=
  Job.Seen view ((plan.start perform).map f) (plan'.start perform')

variable {view : World.View State Other} {perform : Call → Job State Outcome}
  {perform' : Call → Job Other Outcome} {f : Completion → Completion}

/-- A result mirrors another one if it is the mapped one. -/
theorem mirrors_done {completion completion' : Completion} (same : completion' = f completion) :
    Mirrors view perform perform' f (.done completion) (.done completion') := by
  subst same
  exact Job.seen_pure (f completion)

/-- Calls that are seen alike mirror each other if what follows them does. -/
theorem mirrors_call {call call' : Call} {next next' : Outcome → Plan}
    (made : Job.Seen view (perform call) (perform' call'))
    (h : ∀ outcome, Mirrors view perform perform' f (next outcome) (next' outcome)) :
    Mirrors view perform perform' f (.call call next) (.call call' next') := by
  intro world
  show Progress.Seen view (((perform call world).bind _).map f) _
  rw [Progress.map_bind]
  exact (made world).bind h

/-- Plans that mirror each other end the same, also where they are cancelled at one instant. -/
theorem Mirrors.finish {plan plan' : Plan} (h : Mirrors view perform perform' f plan plan')
    (world : World State) (cancelAt : Option Nat) :
    (plan'.start perform' (view.see world)).finish (cancelAt.map view.clock) =
      (view.see ((plan.start perform world).finish cancelAt).1,
        f ((plan.start perform world).finish cancelAt).2) := by
  have seen := (h world).finish cancelAt
  rwa [Job.map, Progress.finish_map] at seen

/-- A plan whose result is changed in the end mirrors another one if the changes agree. -/
theorem Mirrors.map {plan plan' : Plan} (h : Mirrors view perform perform' f plan plan')
    {change change' : Completion → Completion} (agree : ∀ c, f (change c) = change' (f c)) :
    Mirrors view perform perform' f (plan.map change) (plan'.map change') := by
  intro world
  rw [start_map, start_map]
  show Progress.Seen view (((plan.start perform world).map change).map f) _
  have both : f ∘ change = change' ∘ f := funext agree
  rw [Progress.map_map, both, ← Progress.map_map]
  exact (h world).map change'

/-- Results that are put together alike, after they have been mapped one by one. -/
theorem seen_map_finish {job : Job State (List Completion)} {job' : Job Other (List Completion)}
    {finish finish' : List Completion → Completion} {each : Nat → Completion → Completion}
    (h : Job.Seen view (job.map (List.mapIdx each)) job')
    (agree : ∀ results, f (finish results) = finish' (results.mapIdx each)) :
    Job.Seen view ((job.map finish).map f) (job'.map finish') := by
  intro world
  show Progress.Seen view (((job world).map finish).map f) _
  have both : f ∘ finish = finish' ∘ List.mapIdx each := funext agree
  rw [Progress.map_map, both, ← Progress.map_map]
  exact (h world).map finish'

/-- Groups mirror each other if their parts do, one by one, and the results are put together
alike. -/
theorem mirrors_group {serial : Bool} {parts parts' : List Plan}
    {finish finish' : List Completion → Completion} {each : Nat → Completion → Completion}
    (length : parts'.length = parts.length)
    (h : ∀ i part part', parts[i]? = some part → parts'[i]? = some part' →
      Mirrors view perform perform' (each i) part part')
    (agree : ∀ results, f (finish results) = finish' (results.mapIdx each)) :
    Mirrors view perform perform' f (.group serial parts finish)
      (.group serial parts' finish') := by
  have jobs : List.Forall₂ (Job.Seen view)
      ((startAll perform parts).mapIdx fun i job => job.map (each i))
      (startAll perform' parts') := by
    rw [startAll_eq_map, startAll_eq_map, List.forall₂_iff_get]
    refine ⟨by simp [length], fun i hi hi' => ?_⟩
    simp only [List.length_mapIdx, List.length_map] at hi hi'
    simp only [List.get_eq_getElem, List.getElem_mapIdx, List.getElem_map]
    exact h i _ _ (List.getElem?_eq_getElem hi) (List.getElem?_eq_getElem hi')
  rw [Mirrors, start, start]
  split
  · refine seen_map_finish ?_ agree
    rw [Job.inOrder_mapIdx]
    exact Job.seen_inOrder jobs
  · refine seen_map_finish ?_ agree
    rw [Job.together_mapIdx]
    exact Job.seen_together jobs

end Plan

end GraphQL
