import GraphQL.Execution.Run

/-!
# Invariants of runs

Something that holds of the world all along a run: whenever a job goes on in a world of which the
invariant holds, the invariant holds of the world that it leaves. In between others may have gone
on, of which is known that they kept the invariant too, and that the world only grew
(`World.Grows`): its history became longer and a cancellation was not taken back. So what a job has
seen happen stays true, and it may rely on it later.

`Progress.Keeps` says that a computation does its part. The rules below follow the ways in which
jobs are put together, up to the plan of an operation (`Plan.safe_group`) and its run
(`Progress.KeepsFrom.finish`).
-/

set_option autoImplicit false

namespace GraphQL

namespace World

variable {State : Type}

/-- A world that another one may become: more happened, and a cancellation stays. -/
structure Grows (before after : World State) : Prop where
  history : before.history <+: after.history
  cancelled : before.cancelled = true → after.cancelled = true

/-- A world may stay as it is. -/
theorem Grows.refl (world : World State) : world.Grows world :=
  ⟨List.prefix_rfl, id⟩

/-- A world that grows twice has grown. -/
theorem Grows.trans {first second third : World State} (h : first.Grows second)
    (h' : second.Grows third) : first.Grows third :=
  ⟨h.history.trans h'.history, fun hc => h'.cancelled (h.cancelled hc)⟩

end World

namespace Progress

variable {State α β : Type} {inv : World State → Prop}

/-- While the computation is paused others may keep the invariant and let the world grow; it does so
whenever it goes on, and `post` holds of the world in which it ends and of its result. -/
def Keeps (inv : World State → Prop) (post : World State → α → Prop) : Progress State α → Prop
  | done world result => post world result
  | paused world _ resume => ∀ later, world.Grows later → inv later →
      later.Grows (resume later).world ∧ inv (resume later).world ∧ (resume later).Keeps inv post

/-- A computation that went on in some world kept the invariant so far and will keep it. -/
structure KeepsFrom (world : World State) (inv : World State → Prop)
    (post : World State → α → Prop) (progress : Progress State α) : Prop where
  grows : world.Grows progress.world
  holds : inv progress.world
  keeps : progress.Keeps inv post

/-- Growth that came before counts too. -/
theorem KeepsFrom.of_grows {post : World State → α → Prop} {before after : World State}
    {progress : Progress State α} (grows : before.Grows after)
    (h : progress.KeepsFrom after inv post) : progress.KeepsFrom before inv post :=
  ⟨grows.trans h.grows, h.holds, h.keeps⟩

/-- A computation that pauses at once keeps the invariant as it does when it goes on. -/
theorem keepsFrom_paused {post : World State → α → Prop} {world : World State} {wake : Nat}
    {resume : World State → Progress State α} (holds : inv world)
    (h : ∀ later, world.Grows later → inv later → (resume later).KeepsFrom later inv post) :
    (paused world wake resume).KeepsFrom world inv post := by
  refine ⟨World.Grows.refl world, holds, fun later grows holds => ?_⟩
  obtain ⟨grows', holds', keeps⟩ := h later grows holds
  exact ⟨grows', holds', keeps⟩

/-- A computation whose result is mapped does the same to the world. -/
theorem Keeps.map {post : World State → α → Prop} {post' : World State → β → Prop} {f : α → β}
    (imp : ∀ world result, post world result → post' world (f result))
    {progress : Progress State α} (h : progress.Keeps inv post) :
    (progress.map f).Keeps inv post' ∧ (progress.map f).world = progress.world := by
  induction progress with
  | done world result => exact ⟨imp world result h, rfl⟩
  | paused world wake resume ih =>
    refine ⟨fun later grows holds => ?_, rfl⟩
    obtain ⟨grows', holds', keeps⟩ := h later grows holds
    obtain ⟨mapped, same⟩ := ih later keeps
    rw [same]
    exact ⟨grows', holds', mapped⟩

/-- A computation whose result is mapped keeps the invariant as before. -/
theorem KeepsFrom.map {post : World State → α → Prop} {post' : World State → β → Prop} {f : α → β}
    (imp : ∀ world result, post world result → post' world (f result)) {world : World State}
    {progress : Progress State α} (h : progress.KeepsFrom world inv post) :
    (progress.map f).KeepsFrom world inv post' := by
  obtain ⟨mapped, same⟩ := h.keeps.map imp
  exact ⟨same ▸ h.grows, same ▸ h.holds, mapped⟩

/-- What follows the result may rely on what is known when it is there. -/
theorem KeepsFrom.bind {post : World State → α → Prop} {post' : World State → β → Prop}
    {next : α → Job State β} {world : World State} {progress : Progress State α}
    (h : progress.KeepsFrom world inv post)
    (hnext : ∀ later result, world.Grows later → inv later → post later result →
      (next result later).KeepsFrom later inv post') :
    (progress.bind next).KeepsFrom world inv post' := by
  obtain ⟨grows, holds, keeps⟩ := h
  induction progress generalizing world with
  | done later result => exact (hnext later result grows holds keeps).of_grows grows
  | paused own wake resume ih =>
    refine KeepsFrom.of_grows grows (keepsFrom_paused holds fun later grows' holds' => ?_)
    obtain ⟨further, holds'', keeps'⟩ := keeps later grows' holds'
    exact ih later (fun last result grown => hnext last result ((grows.trans grows').trans grown))
      further holds'' keeps'

end Progress

namespace Job

variable {State α β : Type} {inv : World State → Prop}

/-- Started in a world that grew out of a given one, the job keeps the invariant. -/
def KeepsAfter (world : World State) (inv : World State → Prop) (post : World State → α → Prop)
    (job : Job State α) : Prop :=
  ∀ later, world.Grows later → inv later → (job later).KeepsFrom later inv post

/-- The job keeps the invariant, whatever its result is. -/
abbrev Safe (world : World State) (inv : World State → Prop) (job : Job State α) : Prop :=
  job.KeepsAfter world inv fun _ _ => True

/-- A job that keeps the invariant from some world on keeps it from a later one on. -/
theorem KeepsAfter.of_grows {post : World State → α → Prop} {before after : World State}
    {job : Job State α} (h : job.KeepsAfter before inv post) (grows : before.Grows after) :
    job.KeepsAfter after inv post :=
  fun later grown => h later (grows.trans grown)

/-- A job that has its result already does nothing to the invariant. -/
theorem safe_pure (world : World State) (result : α) : (Job.pure result).Safe world inv :=
  fun later _ holds => ⟨World.Grows.refl later, holds, trivial⟩

/-- A job whose result is mapped keeps the invariant. -/
theorem Safe.map {world : World State} {job : Job State α} (f : α → β) (h : job.Safe world inv) :
    (job.map f).Safe world inv :=
  fun later grows holds => (h later grows holds).map fun _ _ _ => trivial

/-- Two jobs of which one follows the result of the other keep the invariant if both do. -/
theorem Safe.bind {world : World State} {job : Job State α} {next : α → Job State β}
    (h : job.Safe world inv) (hnext : ∀ result, (next result).Safe world inv) :
    (job.bind next).Safe world inv :=
  fun later grows holds => (h later grows holds).bind fun last result grown holds' _ =>
    hnext result last (grows.trans grown) holds'

/-- Jobs one after the other keep the invariant if each does. -/
theorem safe_inOrder {world : World State} {jobs : List (Job State α)}
    (h : ∀ job ∈ jobs, job.Safe world inv) : (inOrder jobs).Safe world inv := by
  induction jobs with
  | nil => exact safe_pure world []
  | cons job rest ih =>
    obtain ⟨first, others⟩ := List.forall_mem_cons.1 h
    exact first.bind fun result => (ih others).map (result :: ·)

end Job

namespace Progress

variable {State α β : Type} {inv : World State → Prop}

/-- A paused computation beside another one that has come to something. -/
theorem Keeps.besidePaused (wake : Nat) {left : World State → Job State β → Progress State (α × β)}
    {base : World State}
    (hleft : ∀ later right, base.Grows later → inv later → right.Safe later inv →
      (left later right).KeepsFrom later inv fun _ _ => True)
    {progress : Progress State β} (grows : base.Grows progress.world)
    (h : progress.Keeps inv fun _ _ => True) :
    (besidePaused wake left progress).Keeps inv (fun _ _ => True) ∧
      (besidePaused wake left progress).world = progress.world := by
  induction progress with
  | done world result =>
    refine ⟨fun later grown holds => ?_, rfl⟩
    have right : Job.Safe later inv fun world => Progress.done world result :=
      fun last _ holds => ⟨World.Grows.refl last, holds, trivial⟩
    obtain ⟨grows', holds', keeps⟩ := hleft later _ (grows.trans grown) holds right
    exact ⟨grows', holds', keeps⟩
  | paused world rightWake resume ih =>
    refine ⟨fun later grown holds => ?_, rfl⟩
    by_cases wakes : later.wakes wake = true
    · simp only [wakes, if_true]
      have right : Job.Safe later inv fun world =>
          if world.wakes rightWake then resume world else .paused world rightWake resume := by
        intro last grown' holds'
        dsimp only
        split
        · obtain ⟨grows', holds'', keeps⟩ := h last (grown.trans grown') holds'
          exact ⟨grows', holds'', keeps⟩
        · exact ⟨World.Grows.refl last, holds',
            fun further grown'' => h further ((grown.trans grown').trans grown'')⟩
      obtain ⟨grows', holds', keeps⟩ := hleft later _ (grows.trans grown) holds right
      exact ⟨grows', holds', keeps⟩
    · simp only [wakes]
      obtain ⟨grows', holds', keeps⟩ := h later grown holds
      obtain ⟨both, same⟩ := ih later ((grows.trans grown).trans grows') keeps
      refine ⟨?_, ?_, both⟩
      · exact same ▸ grows'
      · exact same ▸ holds'

/-- A computation beside a job that takes its turn after it. -/
theorem KeepsFrom.beside {world : World State} {progress : Progress State α} {right : Job State β}
    (h : progress.KeepsFrom world inv fun _ _ => True) (hright : right.Safe world inv) :
    (progress.beside right).KeepsFrom world inv fun _ _ => True := by
  obtain ⟨grows, holds, keeps⟩ := h
  induction progress generalizing world right with
  | done own result =>
    exact ((hright own grows holds).map fun _ _ _ => trivial).of_grows grows
  | paused own wake resume ih =>
    have other := hright own grows holds
    have hleft : ∀ later (right : Job State β), own.Grows later → inv later →
        right.Safe later inv →
        ((resume later).beside right).KeepsFrom later inv fun _ _ => True := by
      intro later right grown holds' safe
      obtain ⟨grows', holds'', keeps'⟩ := keeps later grown holds'
      exact ih later safe grows' holds'' keeps'
    obtain ⟨both, same⟩ := Keeps.besidePaused wake hleft other.grows other.keeps
    exact ⟨same ▸ grows.trans other.grows, same ▸ other.holds, both⟩

/-- In an operation that is cancelled the clock stands still. -/
theorem Keeps.finish_cancelled {progress : Progress State α}
    (h : progress.Keeps inv fun _ _ => True) (holds : inv progress.world)
    (cancelled : progress.world.cancelled = true) (cancelAt : Option Nat) :
    inv (progress.finish cancelAt).1 := by
  induction progress with
  | done world result => exact holds
  | paused world wake resume ih =>
    have here : world.cancelled = true := cancelled
    obtain ⟨grows, holds', keeps⟩ := h world (World.Grows.refl world) holds
    rw [finish, if_pos here]
    exact ih world keeps holds' (grows.cancelled here)

/-- The invariant holds at the end of a run, if passing time and a cancellation from outside keep
it. -/
theorem KeepsFrom.finish {world : World State} {cancelAt : Option Nat}
    (time : ∀ later wake, inv later → later.cancelled = false →
      cancelAt.any (· ≤ wake) = false → inv { later with now := wake })
    (cancel : ∀ later, ∀ instant ∈ cancelAt, inv later →
      inv { later with now := instant, cancelled := true })
    {progress : Progress State α} (h : progress.KeepsFrom world inv fun _ _ => True) :
    inv (progress.finish cancelAt).1 := by
  obtain ⟨-, holds, keeps⟩ := h
  induction progress with
  | done world result => exact holds
  | paused world wake resume ih =>
    rw [Progress.finish]
    split
    · obtain ⟨-, holds', keeps'⟩ := keeps world (World.Grows.refl world) holds
      exact ih world holds' keeps'
    · next uncancelled =>
      split
      · next late =>
        have given : cancelAt.getD wake ∈ cancelAt := by
          cases cancelAt with
          | none => cases late
          | some instant => rfl
        obtain ⟨grows, holds', keeps'⟩ := keeps
          { world with now := cancelAt.getD wake, cancelled := true }
          ⟨List.prefix_rfl, fun _ => rfl⟩ (cancel world _ given holds)
        exact keeps'.finish_cancelled holds' (grows.cancelled rfl) none
      · next early =>
        obtain ⟨-, holds', keeps'⟩ := keeps { world with now := wake } ⟨List.prefix_rfl, id⟩
          (time world wake holds (eq_false_of_ne_true uncancelled) (eq_false_of_ne_true early))
        exact ih _ holds' keeps'

end Progress

namespace Job

variable {State α : Type} {inv : World State → Prop}

/-- Jobs side by side keep the invariant if each does. -/
theorem safe_together {world : World State} {jobs : List (Job State α)}
    (h : ∀ job ∈ jobs, job.Safe world inv) : (together jobs).Safe world inv := by
  induction jobs with
  | nil => exact safe_pure world []
  | cons job rest ih =>
    obtain ⟨first, others⟩ := List.forall_mem_cons.1 h
    intro later grows holds
    have both := (first later grows holds).beside ((ih others).of_grows grows)
    exact both.map fun _ _ _ => trivial

end Job

namespace Plan

variable {State : Type} {inv : World State → Prop}

/-- A group keeps an invariant if its parts do. -/
theorem safe_group {perform : Call → Job State Outcome} {world : World State} {serial : Bool}
    {parts : List Plan} {finish : List Completion → Completion}
    (h : ∀ part ∈ parts, (part.start perform).Safe world inv) :
    ((Plan.group serial parts finish).start perform).Safe world inv := by
  have each : ∀ job ∈ startAll perform parts, job.Safe world inv := by
    intro job member
    rw [startAll_eq_map] at member
    obtain ⟨part, hpart, rfl⟩ := List.mem_map.1 member
    exact h part hpart
  rw [start]
  split
  · exact (Job.safe_inOrder each).map finish
  · exact (Job.safe_together each).map finish

end Plan

end GraphQL
