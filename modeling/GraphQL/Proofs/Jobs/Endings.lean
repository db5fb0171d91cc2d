import GraphQL.Proofs.Jobs.Answers

/-!
# When jobs end

`Progress.Ends` says that a computation has a certain result at a certain instant, whatever other
jobs do while it is paused, unless the operation is cancelled. It never pauses beyond that instant,
so that the clock does not jump over it. One after the other, jobs take the sum of their times; side
by side they take the longest of them (`Job.Lasts.inOrder_cons`, `Job.Lasts.together_cons`), and the
clock of a whole run shows the time that its job takes (`Progress.Ends.finish`).
-/

set_option autoImplicit false

namespace GraphQL

namespace World

variable {State : Type}

/-- A world in which a job goes on that paused in an earlier one until some instant. -/
structure Resumes (wake : Nat) (before later : World State) : Prop where
  due : later.Due wake
  cancelled : before.cancelled = true → later.cancelled = true

/-- An operation that is not cancelled was not cancelled before. -/
theorem live_of_imp {before after : World State}
    (grows : before.cancelled = true → after.cancelled = true) (live : after.cancelled = false) :
    before.cancelled = false := by
  rw [← Bool.not_eq_true] at live ⊢
  exact fun given => live (grows given)

/-- In an operation that is not cancelled a job goes on at the instant until which it paused. -/
theorem Resumes.now {wake : Nat} {before later : World State} (h : Resumes wake before later)
    (live : later.cancelled = false) : later.now = wake :=
  h.due.resolve_left (by simp [live])

/-- Of two jobs that paused, one whose instant has come goes on at just that instant, since both are
woken when the earlier one has come. -/
theorem Due.of_wakes {wake other : Nat} {world : World State} (due : world.Due (min other wake))
    (wakes : world.wakes wake = true) : world.Due wake := by
  simp only [World.wakes, Bool.or_eq_true, decide_eq_true_eq] at wakes
  rcases due with given | now
  · exact Or.inl given
  · exact wakes.imp id fun come => by omega

/-- A paused job does not go on before its instant in an operation that is not cancelled. -/
theorem not_wakes_iff {wake : Nat} {world : World State} :
    world.wakes wake = false ↔ world.cancelled = false ∧ world.now < wake := by
  simp [World.wakes]

end World

namespace Progress

variable {State α β : Type}

/-- Unless the operation is cancelled, the computation has its result at some instant, and it never
pauses beyond that. -/
def Ends (instant : Nat) (result : α) : Progress State α → Prop
  | done world r => world.cancelled = false → r = result ∧ instant ≤ world.now
  | paused world wake resume =>
    (world.cancelled = false → world.now ≤ wake ∧ wake ≤ instant) ∧
      ∀ later, World.Resumes wake world later →
        later.Follows (resume later).world ∧ (resume later).Ends instant result

/-- What a job that went on in some world has come to ends at some instant. -/
def EndsFrom (world : World State) (instant : Nat) (result : α) (progress : Progress State α) :
    Prop :=
  world.Follows progress.world ∧ progress.Ends instant result

/-- What ends when it goes on in a later world ends when it goes on in this one. -/
theorem EndsFrom.of_follows {world later : World State} {instant : Nat} {result : α}
    {progress : Progress State α} (follows : world.Follows later)
    (h : progress.EndsFrom later instant result) : progress.EndsFrom world instant result :=
  ⟨follows.trans h.1, h.2⟩

/-- A job that pauses at once ends when it does after it went on. -/
theorem endsFrom_paused {world : World State} {wake instant : Nat} {result : α}
    {resume : World State → Progress State α} (bounds : world.now ≤ wake ∧ wake ≤ instant)
    (h : ∀ later, World.Resumes wake world later → (resume later).EndsFrom later instant result) :
    (paused world wake resume).EndsFrom world instant result :=
  ⟨.refl world, fun _ => bounds, h⟩

/-- Nothing is said of when a computation ends in an operation that is cancelled. -/
theorem Ends.of_cancelled {instant instant' : Nat} {result result' : α}
    {progress : Progress State α} (h : progress.Ends instant result)
    (given : progress.world.cancelled = true) : progress.Ends instant' result' := by
  have dead : progress.world.cancelled ≠ false := by simp [given]
  induction progress with
  | done world r => exact fun live => absurd live dead
  | paused world wake resume ih =>
    refine ⟨fun live => absurd live dead, fun later resumes => ?_⟩
    obtain ⟨follows, ends⟩ := h.2 later resumes
    have still := follows.cancelled (resumes.cancelled given)
    exact ⟨follows, ih later ends still (by simp [still])⟩

/-- Changing a result takes no time. -/
theorem Ends.map {instant : Nat} {result : α} {progress : Progress State α} (f : α → β)
    (h : progress.Ends instant result) : (progress.map f).Ends instant (f result) := by
  induction progress with
  | done world r => exact fun live => ⟨congrArg f (h live).1, (h live).2⟩
  | paused world wake resume ih =>
    refine ⟨h.1, fun later resumes => ?_⟩
    obtain ⟨follows, ends⟩ := h.2 later resumes
    exact ⟨by rwa [world_map], ih later ends⟩

/-- What a computation that goes on has come to is not late, if the computation was not. -/
theorem Ends.now_le {instant wake : Nat} {result : α} {world later : World State}
    {resume : World State → Progress State α} (h : (paused world wake resume).Ends instant result)
    (resumes : World.Resumes wake world later) (follows : later.Follows (resume later).world)
    (live : (resume later).world.cancelled = false) :
    world.cancelled = false ∧ (resume later).world.now = wake ∧ wake ≤ instant := by
  have liveLater := World.live_of_imp follows.cancelled live
  have liveWorld := World.live_of_imp resumes.cancelled liveLater
  exact ⟨liveWorld, follows.now.trans (resumes.now liveLater), (h.1 liveWorld).2⟩

/-- An instant that has come already makes no difference. -/
theorem Ends.max_of_le {instant passed : Nat} {result : α} {progress : Progress State α}
    (h : progress.Ends instant result)
    (come : progress.world.cancelled = false → passed ≤ progress.world.now) :
    progress.Ends (max passed instant) result := by
  induction progress with
  | done world r => exact fun live => ⟨(h live).1, Nat.max_le.2 ⟨come live, (h live).2⟩⟩
  | paused world wake resume ih =>
    refine ⟨fun live => ⟨(h.1 live).1, Nat.le_trans (h.1 live).2 (Nat.le_max_right _ _)⟩, ?_⟩
    intro later resumes
    obtain ⟨follows, ends⟩ := h.2 later resumes
    refine ⟨follows, ih later ends fun live => ?_⟩
    obtain ⟨liveWorld, now, -⟩ := h.now_le resumes follows live
    rw [now]
    exact Nat.le_trans (come liveWorld) (h.1 liveWorld).1

end Progress

namespace Job

variable {State α β : Type}

/-- The job is started in a world that follows a given one, and ends at some instant. -/
def EndsAfter (world : World State) (instant : Nat) (result : α) (job : Job State α) : Prop :=
  ∀ later, world.Follows later → (job later).EndsFrom later instant result

/-- Wherever and whenever the job is started, it takes some time and has some result, unless the
operation is cancelled. -/
def Lasts (span : Nat) (result : α) (job : Job State α) : Prop :=
  ∀ world, (job world).EndsFrom world (world.now + span) result

/-- A job takes as long whenever it starts. -/
theorem Lasts.after {span : Nat} {result : α} {job : Job State α} (h : job.Lasts span result)
    (world : World State) : job.EndsAfter world (world.now + span) result :=
  fun later follows => follows.now ▸ h later

/-- The job that has its result at once takes no time. -/
theorem lasts_pure (result : α) : (Job.pure result : Job State α).Lasts 0 result :=
  fun world => ⟨.refl world, fun _ => ⟨rfl, Nat.le_refl _⟩⟩

/-- A job with a changed result takes as long. -/
theorem Lasts.map {span : Nat} {result : α} {job : Job State α} (f : α → β)
    (h : job.Lasts span result) : (job.map f).Lasts span (f result) := by
  intro world
  obtain ⟨follows, ends⟩ := h world
  exact ⟨by rwa [Job.map, Progress.world_map], ends.map f⟩

end Job

namespace Progress

variable {State α β : Type}

/-- What follows the result starts at the instant at which the result is there. -/
theorem Ends.bind {instant : Nat} {a : α} {span : α → Nat} {value : α → β} {next : α → Job State β}
    (hnext : ∀ r, (next r).Lasts (span r) (value r)) {progress : Progress State α}
    (h : progress.Ends instant a)
    (early : progress.world.cancelled = false → progress.world.now ≤ instant) :
    (progress.bind next).EndsFrom progress.world (instant + span a) (value a) := by
  induction progress with
  | done world r =>
    obtain ⟨follows, ends⟩ := hnext r world
    refine ⟨follows, ?_⟩
    cases live : world.cancelled with
    | false =>
      obtain ⟨rfl, late⟩ := h live
      rwa [Nat.le_antisymm late (early live)]
    | true => exact ends.of_cancelled (follows.cancelled live)
  | paused world wake resume ih =>
    refine ⟨.refl _, fun live => ?_, fun later resumes => ?_⟩
    · exact ⟨(h.1 live).1, Nat.le_trans (h.1 live).2 (Nat.le_add_right _ _)⟩
    · obtain ⟨follows, ends⟩ := h.2 later resumes
      refine EndsFrom.of_follows follows (ih later ends fun live => ?_)
      obtain ⟨-, now, bounded⟩ := h.now_le resumes follows live
      rwa [now]

/-- A paused computation beside another one that has come to something. `hleft` is when the paused
one ends beside any job when it goes on. -/
theorem Ends.besidePaused {instant other wake : Nat} {a : α} {b : β} {before : World State}
    {left : World State → Job State β → Progress State (α × β)}
    (bounded : before.cancelled = false → wake ≤ instant)
    (hleft : ∀ (later : World State) (right : Job State β), World.Resumes wake before later →
      right.EndsAfter later other b →
        (left later right).EndsFrom later (max instant other) (a, b))
    {progress : Progress State β}
    (cancelled : before.cancelled = true → progress.world.cancelled = true)
    (early : progress.world.cancelled = false → progress.world.now ≤ wake)
    (h : progress.Ends other b) :
    (Progress.besidePaused wake left progress).EndsFrom progress.world (max instant other)
      (a, b) := by
  induction progress with
  | done world result =>
    refine ⟨.refl world, fun live => ⟨early live, ?_⟩, fun later resumes => ?_⟩
    · have inTime := bounded (World.live_of_imp cancelled live)
      omega
    refine hleft later _ ⟨resumes.due, fun given => resumes.cancelled (cancelled given)⟩ ?_
    refine fun last follows => ⟨.refl last, fun live => ?_⟩
    have liveLater := World.live_of_imp follows.cancelled live
    have liveWorld := World.live_of_imp resumes.cancelled liveLater
    obtain ⟨rfl, late⟩ := h liveWorld
    refine ⟨rfl, ?_⟩
    rw [follows.now, resumes.now liveLater]
    exact Nat.le_trans late (early liveWorld)
  | paused world rightWake resume ih =>
    refine ⟨.refl world, fun live => ?_, fun later resumes => ?_⟩
    · obtain ⟨now, inTime⟩ := h.1 live
      exact ⟨Nat.le_min.2 ⟨early live, now⟩, by omega⟩
    -- the pair woke because one of the two does: its wake is the earlier one
    by_cases wakes : later.wakes wake = true
    · have due : later.Due wake := .of_wakes (Nat.min_comm _ _ ▸ resumes.due) wakes
      simp only [wakes, if_true]
      refine hleft later _ ⟨due, fun given => resumes.cancelled (cancelled given)⟩ ?_
      intro last follows
      have kept : world.cancelled = true → last.cancelled = true :=
        fun given => follows.cancelled (resumes.cancelled given)
      by_cases wakesRight : last.wakes rightWake = true
      · simp only [wakesRight, if_true]
        exact h.2 last ⟨.of_wakes (resumes.due.of_follows follows) wakesRight, kept⟩
      · rw [Bool.not_eq_true] at wakesRight
        simp only [wakesRight, Bool.false_eq_true, if_false]
        refine ⟨.refl last, fun live => ⟨?_, (h.1 (World.live_of_imp kept live)).2⟩, ?_⟩
        · exact Nat.le_of_lt (World.not_wakes_iff.1 wakesRight).2
        · exact fun later' resumes' =>
            h.2 later' ⟨resumes'.due, fun given => resumes'.cancelled (kept given)⟩
    · rw [Bool.not_eq_true] at wakes
      obtain ⟨live, notYet⟩ := World.not_wakes_iff.1 wakes
      have now := resumes.now live
      have resumesRight : World.Resumes rightWake world later :=
        ⟨Or.inr (by omega), resumes.cancelled⟩
      obtain ⟨follows, ends⟩ := h.2 later resumesRight
      simp only [wakes, Bool.false_eq_true, if_false]
      refine EndsFrom.of_follows follows (ih later ?_ (fun _ => ?_) ends)
      · exact fun given => follows.cancelled (resumes.cancelled (cancelled given))
      · rw [follows.now]
        exact Nat.le_of_lt notYet

/-- A computation beside a job that takes its turn after it ends when both have ended. -/
theorem Ends.beside {instant other : Nat} {a : α} {b : β} {progress : Progress State α}
    {right : Job State β} (h : progress.Ends instant a)
    (hright : right.EndsAfter progress.world other b) :
    (progress.beside right).EndsFrom progress.world (max instant other) (a, b) := by
  induction progress generalizing right with
  | done world result =>
    obtain ⟨follows, ends⟩ := hright world (.refl world)
    refine ⟨by rwa [Progress.beside, world_map], ?_⟩
    cases live : world.cancelled with
    | false =>
      obtain ⟨rfl, late⟩ := h live
      exact (ends.max_of_le fun _ => by rwa [follows.now]).map _
    | true =>
      refine (ends.map (result, ·)).of_cancelled ?_
      rw [world_map]
      exact follows.cancelled live
  | paused world wake resume ih =>
    obtain ⟨follows, ends⟩ := hright world (.refl world)
    refine .of_follows follows (Ends.besidePaused (fun live => (h.1 live).2) ?_ follows.cancelled
      (fun live => ?_) ends)
    · intro later right resumes hafter
      obtain ⟨first, rest⟩ := h.2 later resumes
      exact .of_follows first (ih later rest fun last hl => hafter last (first.trans hl))
    · rw [follows.now]
      exact (h.1 (World.live_of_imp follows.cancelled live)).1

/-- The clock of a run that is not cancelled shows when its computation ends. -/
theorem Ends.finish {instant : Nat} {result : α} {progress : Progress State α}
    (h : progress.Ends instant result)
    (early : progress.world.cancelled = false → progress.world.now ≤ instant)
    (cancelAt : Option Nat) :
    (progress.world.cancelled = true → (progress.finish cancelAt).1.cancelled = true) ∧
      ((progress.finish cancelAt).1.cancelled = false →
        (progress.finish cancelAt).1.now = instant ∧ (progress.finish cancelAt).2 = result) := by
  induction progress generalizing cancelAt with
  | done world r =>
    refine ⟨id, fun live => ?_⟩
    obtain ⟨rfl, late⟩ := h live
    exact ⟨Nat.le_antisymm (early live) late, rfl⟩
  | paused world wake resume ih =>
    -- the run goes on in a later world, and a cancellation of that lasts
    have go : ∀ (later : World State) (cancelAt : Option Nat), World.Resumes wake world later →
        (later.cancelled = true → ((resume later).finish cancelAt).1.cancelled = true) ∧
          (((resume later).finish cancelAt).1.cancelled = false →
            ((resume later).finish cancelAt).1.now = instant ∧
              ((resume later).finish cancelAt).2 = result) := by
      intro later cancelAt resumes
      obtain ⟨follows, ends⟩ := h.2 later resumes
      obtain ⟨lasts, atEnd⟩ := ih later ends (fun live => by
        obtain ⟨-, now, bounded⟩ := h.now_le resumes follows live
        rwa [now]) cancelAt
      exact ⟨fun given => lasts (follows.cancelled given), atEnd⟩
    simp only [Progress.finish]
    split
    · next given =>
      obtain ⟨lasts, atEnd⟩ := go world cancelAt ⟨Or.inl given, id⟩
      exact ⟨lasts, atEnd⟩
    · next live =>
      split
      · obtain ⟨-, atEnd⟩ := go { world with now := cancelAt.getD wake, cancelled := true } none
          ⟨Or.inl rfl, fun _ => rfl⟩
        exact ⟨fun given => absurd given live, atEnd⟩
      · obtain ⟨-, atEnd⟩ := go { world with now := wake } cancelAt ⟨Or.inr rfl, id⟩
        exact ⟨fun given => absurd given live, atEnd⟩

end Progress

namespace Job

variable {State α β : Type}

/-- A job and what follows its result take the sum of their times. -/
theorem Lasts.bind {first : Nat} {a : α} {span : α → Nat} {value : α → β} {job : Job State α}
    {next : α → Job State β} (h : job.Lasts first a)
    (hnext : ∀ r, (next r).Lasts (span r) (value r)) :
    (job.bind next).Lasts (first + span a) (value a) := by
  intro world
  obtain ⟨follows, ends⟩ := h world
  rw [← Nat.add_assoc]
  refine .of_follows follows (ends.bind hnext fun _ => ?_)
  rw [follows.now]
  exact Nat.le_add_right _ _

/-- One after the other, jobs take the sum of their times. -/
theorem Lasts.inOrder_cons {first others : Nat} {result : α} {results : List α}
    {job : Job State α} {rest : List (Job State α)} (h : job.Lasts first result)
    (hrest : (inOrder rest).Lasts others results) :
    (inOrder (job :: rest)).Lasts (first + others) (result :: results) :=
  h.bind fun r => hrest.map (r :: ·)

/-- Side by side, jobs take the longest of their times. -/
theorem Lasts.together_cons {first others : Nat} {result : α} {results : List α}
    {job : Job State α} {rest : List (Job State α)} (h : job.Lasts first result)
    (hrest : (together rest).Lasts others results) :
    (together (job :: rest)).Lasts (max first others) (result :: results) := by
  intro world
  obtain ⟨follows, ends⟩ := h world
  have hafter := hrest.after (job world).world
  rw [follows.now] at hafter
  obtain ⟨both, ends⟩ := ends.beside hafter
  rw [← Nat.add_max_add_left]
  refine .of_follows follows ⟨by rwa [together, Progress.world_map], ?_⟩
  exact ends.map fun both : α × List α => both.1 :: both.2

end Job

namespace Outcome

/-- The time that passes in a call whose resolver takes some time: all of it, or the time limit in
whole ticks of the clock if that is less. -/
def timeWithin (timeout : Option Duration) (delay : Nat) : Nat :=
  match timeout with
  | some span => min delay span.ceilMilliseconds
  | none => delay

/-- The instant at which a call ends whose resolver ends at some instant. -/
def endBy (deadline : Option Deadline) (instant : Nat) : Nat :=
  match deadline with
  | some limit => min instant limit.instant
  | none => instant

/-- A call ends after the time that it takes under its limit. -/
theorem endBy_after (timeout : Option Duration) (now delay : Nat) :
    endBy (timeout.map fun span => .after span now) (now + delay) =
      now + timeWithin timeout delay := by
  cases timeout with
  | none => rfl
  | some span => exact Nat.add_min_add_left now delay span.ceilMilliseconds

end Outcome

namespace Action

variable {State : Type}

/-- A call whose outcome is known ends at once. -/
theorem settle_ends (call : Call) (outcome : Outcome) {world : World State} {instant : Nat}
    (come : instant ≤ world.now) :
    (settle call outcome world).EndsFrom world instant outcome :=
  ⟨⟨rfl, id⟩, fun _ => ⟨rfl, come⟩⟩

/-- A call that is given up ends in an operation that is cancelled. -/
theorem abort_ends (call : Call) {world : World State} (given : world.cancelled = true)
    (instant : Nat) (outcome : Outcome) :
    (abort call world).EndsFrom world instant outcome :=
  ⟨⟨rfl, id⟩, fun live => absurd (given.symm.trans live) Bool.noConfusion⟩

/-- A resolver that is done in time ends its call at once. -/
theorem run_done_ends (result : Except FieldError Json) (call : Call) {deadline : Option Deadline}
    {world : World State} (inTime : ∀ limit ∈ deadline, world.now ≤ limit.instant) :
    ((Action.done result).run call deadline world).EndsFrom world
      (Outcome.endBy deadline world.now) (.byDeadline deadline world.now result) := by
  have outcome : Outcome.byDeadline deadline world.now result = .ofResult result := by
    cases deadline with
    | none => rfl
    | some limit => exact if_neg (Nat.not_lt.2 (inTime limit rfl))
  have come : Outcome.endBy deadline world.now ≤ world.now := by
    cases deadline with
    | none => exact Nat.le_refl _
    | some limit => exact Nat.min_le_left _ _
  rw [outcome]
  cases result with
  | ok value => exact settle_ends call (.value value) come
  | error error => exact settle_ends call (.failed error) come

/-- Once the time limit is over, a call whose resolver is not done ends with the limit. -/
theorem settle_timedOut_ends (call : Call) {limit : Deadline} {instant : Nat}
    {result : Except FieldError Json} {world : World State} (early : limit.instant < instant)
    (past : limit.instant ≤ world.now) :
    (settle call (.timedOut limit.span) world).EndsFrom world (Outcome.endBy (some limit) instant)
      (.byDeadline (some limit) instant result) := by
  have outcome : Outcome.byDeadline (some limit) instant result = .timedOut limit.span :=
    if_pos early
  rw [outcome]
  exact settle_ends call _ (Nat.le_trans (Nat.min_le_right _ _) past)

/-- A call that waits ends when it does after the wait, or with the time limit if that is over
before. -/
theorem run_wait_ends (call : Call) {deadline : Option Deadline} {milliseconds instant : Nat}
    {result : Except FieldError Json} {next : Action State} {world : World State}
    (inTime : ∀ limit ∈ deadline, world.now ≤ limit.instant)
    (enough : world.now + milliseconds ≤ instant)
    (resumed : ∀ later : World State, later.now = world.now + milliseconds →
      (∀ limit ∈ deadline, later.now ≤ limit.instant) →
        (next.run call deadline later).EndsFrom later (Outcome.endBy deadline instant)
          (.byDeadline deadline instant result)) :
    ((Action.wait milliseconds next).run call deadline world).EndsFrom world
      (Outcome.endBy deadline instant) (.byDeadline deadline instant result) := by
  simp only [Action.run]
  split
  · next zero => exact resumed world (by omega) inTime
  · next positive =>
    cases deadline with
    | none =>
      refine Progress.endsFrom_paused ⟨Nat.le_add_right _ _, enough⟩ fun later resumes => ?_
      by_cases given : later.cancelled = true
      · rw [if_pos given]
        exact abort_ends call given _ _
      · rw [if_neg given]
        exact resumed later (resumes.due.resolve_left given) (by simp)
    | some limit =>
      have before := inTime limit rfl
      simp only
      split
      · next late => exact settle_timedOut_ends call (by omega) late
      · next notYet =>
        refine Progress.endsFrom_paused ⟨?_, ?_⟩ fun later resumes => ?_
        · exact Nat.le_min.2 ⟨Nat.le_add_right _ _, before⟩
        · exact Nat.le_min.2 ⟨by omega, Nat.min_le_right _ _⟩
        by_cases given : later.cancelled = true
        · rw [if_pos given]
          exact abort_ends call given _ _
        · have now := resumes.due.resolve_left given
          rw [if_neg given]
          -- the wait and the limit: whichever is over first woke the call
          split
          · next ready =>
            refine resumed later (by omega) fun limit' same => ?_
            cases same
            omega
          · next notReady => exact settle_timedOut_ends call (by omega) (by omega)

/-- A call ends with its resolver, or with the time limit if that is over before. -/
theorem Takes.run {result : Except FieldError Json} {delay : Nat} {action : Action State}
    (takes : action.Takes result delay) (call : Call) (deadline : Option Deadline)
    (world : World State) (inTime : ∀ limit ∈ deadline, world.now ≤ limit.instant) :
    (action.run call deadline world).EndsFrom world (Outcome.endBy deadline (world.now + delay))
      (.byDeadline deadline (world.now + delay) result) := by
  induction takes generalizing world with
  | done => exact run_done_ends result call inTime
  | read h ih => exact ih world.state world inTime
  | @write delay state next h ih =>
    have follows : world.Follows (world.write state) := ⟨rfl, id⟩
    exact .of_follows follows (ih (world.write state) inTime)
  | @cancel delay next h ih =>
    have follows : world.Follows { world with cancelled := true } := ⟨rfl, fun _ => rfl⟩
    exact .of_follows follows (ih { world with cancelled := true } inTime)
  | @wait delay milliseconds next h ih =>
    refine run_wait_ends call inTime (by omega) fun later now hlimit => ?_
    rw [← Nat.add_assoc, ← now]
    exact ih later hlimit

end Action

end GraphQL
