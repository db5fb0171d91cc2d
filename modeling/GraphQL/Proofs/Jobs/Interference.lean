import GraphQL.Execution.Progress

/-!
# Jobs under interference

While a job is paused, other jobs of the same operation change the world. A job goes on in a world
of which only two things are known: the clock shows the instant until which it paused, or the
operation is cancelled. In return it leaves the clock alone, never takes a cancellation back, and
does nothing to the history but add events to it.

`Progress.Ensures` says what is true of the events that a job adds and of its result, whatever
the others do in between. The rules below derive it for jobs that are put together from what
their parts ensure: one after the other the events of the parts follow each other, side by side
they are shuffled. `Progress.Ensures.finish` carries it to the run of a whole operation.
-/

set_option autoImplicit false

namespace GraphQL

/-- Whether an event is a call that was given up because of the cancellation. -/
def Event.isAbort : Event → Bool
  | .ended _ .aborted => true
  | _ => false

namespace World

variable {State : Type}

/-- A job that paused until some instant may go on: the clock shows it, or the operation is
cancelled. -/
def Due (wake : Nat) (world : World State) : Prop :=
  world.cancelled = true ∨ world.now = wake

/-- A world that another one becomes without time passing. -/
structure Follows (before after : World State) : Prop where
  now : after.now = before.now
  cancelled : before.cancelled = true → after.cancelled = true

/-- A world that another one becomes when some events happen. Calls are given up only in an
operation that is cancelled, and `World.aborted` says whether one was. -/
structure Records (events : List Event) (before after : World State) : Prop where
  history : after.history = before.history ++ events
  cancelled : before.cancelled = true → after.cancelled = true
  aborted : after.aborted = (before.aborted || events.any Event.isAbort)
  cancelled_of_abort : events.any Event.isAbort = true → after.cancelled = true

/-- What a job does to the world before it rests: events happen, and no time passes. -/
structure Leads (events : List Event) (before after : World State) : Prop
    extends Records events before after where
  now : after.now = before.now

/-- A world may stay as it is. -/
theorem Follows.refl (world : World State) : world.Follows world :=
  ⟨rfl, id⟩

/-- A world that follows one that follows a third follows the third. -/
theorem Follows.trans {first second third : World State} (h : first.Follows second)
    (h' : second.Follows third) : first.Follows third :=
  ⟨h'.now.trans h.now, fun hc => h'.cancelled (h.cancelled hc)⟩

/-- What a job does before it rests takes no time. -/
theorem Leads.follows {events : List Event} {before after : World State}
    (h : Leads events before after) : before.Follows after :=
  ⟨h.now, h.cancelled⟩

/-- Who may go on in a world may go on in one that follows. -/
theorem Due.of_follows {wake : Nat} {before after : World State} (h : before.Due wake)
    (hf : before.Follows after) : after.Due wake := by
  rcases h with hc | hn
  · exact Or.inl (hf.cancelled hc)
  · exact Or.inr (hf.now.trans hn)

/-- Nothing may happen to a world. -/
theorem Records.refl (world : World State) : Records [] world world :=
  ⟨by simp, id, by simp, by simp⟩

/-- What happens first and what happens then happens, one after the other. -/
theorem Records.trans {first second : List Event} {before middle after : World State}
    (h : Records first before middle) (h' : Records second middle after) :
    Records (first ++ second) before after where
  history := by rw [h'.history, h.history, List.append_assoc]
  cancelled hc := h'.cancelled (h.cancelled hc)
  aborted := by rw [h'.aborted, h.aborted, List.any_append, Bool.or_assoc]
  cancelled_of_abort ha := by
    rw [List.any_append, Bool.or_eq_true] at ha
    rcases ha with ha | ha
    · exact h'.cancelled (h.cancelled_of_abort ha)
    · exact h'.cancelled_of_abort ha

/-- A job that does nothing leaves the world as it is. -/
theorem Leads.refl (world : World State) : Leads [] world world :=
  { Records.refl world with now := rfl }

/-- What a job does in two steps is what it does in the first and then in the second. -/
theorem Leads.trans {first second : List Event} {before middle after : World State}
    (h : Leads first before middle) (h' : Leads second middle after) :
    Leads (first ++ second) before after :=
  { h.toRecords.trans h'.toRecords with now := h'.now.trans h.now }

end World

namespace Progress

variable {State α β : Type}

/-- Whatever other jobs do while this one is paused, some postcondition holds of the events that
it adds from now on and of its result. -/
def Ensures (post : List Event → α → Prop) : Progress State α → Prop
  | done _ result => post [] result
  | paused _ wake resume => ∀ world : World State, world.Due wake →
      ∃ events, World.Leads events world (resume world).world ∧
        (resume world).Ensures fun later => post (events ++ later)

/-- What a job that went on in some world has come to, with the events since then counted in. -/
def EnsuresFrom (world : World State) (post : List Event → α → Prop)
    (progress : Progress State α) : Prop :=
  ∃ events, World.Leads events world progress.world ∧
    progress.Ensures fun later => post (events ++ later)

/-- A computation ensures whatever follows from what it ensures. -/
theorem Ensures.mono {post post' : List Event → α → Prop} {progress : Progress State α}
    (h : progress.Ensures post) (imp : ∀ events result, post events result → post' events result) :
    progress.Ensures post' := by
  induction progress generalizing post post' with
  | done world result => exact imp _ _ h
  | paused world wake resume ih =>
    intro world due
    obtain ⟨events, leads, later⟩ := h world due
    exact ⟨events, leads, ih world later fun more result => imp (events ++ more) result⟩

/-- A computation that went on ensures whatever follows from what it ensures. -/
theorem EnsuresFrom.mono {post post' : List Event → α → Prop} {world : World State}
    {progress : Progress State α} (h : progress.EnsuresFrom world post)
    (imp : ∀ events result, post events result → post' events result) :
    progress.EnsuresFrom world post' := by
  obtain ⟨events, leads, later⟩ := h
  exact ⟨events, leads, later.mono fun more result => imp (events ++ more) result⟩

/-- A job that pauses at once ensures what it ensures when it goes on. -/
theorem ensuresFrom_paused {post : List Event → α → Prop} {world : World State} {wake : Nat}
    {resume : World State → Progress State α}
    (h : ∀ later, World.Due wake later → (resume later).EnsuresFrom later post) :
    (paused world wake resume).EnsuresFrom world post :=
  ⟨[], World.Leads.refl world, h⟩

/-- Looking at a computation from an earlier world counts earlier events in. -/
theorem EnsuresFrom.of_leads {post : List Event → α → Prop} {events : List Event}
    {before after : World State} {progress : Progress State α}
    (leads : World.Leads events before after)
    (h : progress.EnsuresFrom after fun later => post (events ++ later)) :
    progress.EnsuresFrom before post := by
  obtain ⟨more, leads', later⟩ := h
  refine ⟨events ++ more, leads.trans leads', later.mono fun rest result hp => ?_⟩
  rwa [List.append_assoc]

end Progress

namespace Job

variable {State α β : Type}

/-- Wherever and whenever the job is started, some postcondition holds of the events that it adds
and of its result. -/
def Ensures (post : List Event → α → Prop) (job : Job State α) : Prop :=
  ∀ world, (job world).EnsuresFrom world post

/-- The job is started in a world that follows a given one. -/
def EnsuresAfter (world : World State) (post : List Event → α → Prop) (job : Job State α) : Prop :=
  ∀ later, world.Follows later → (job later).EnsuresFrom later post

/-- A job ensures whatever follows from what it ensures. -/
theorem Ensures.mono {post post' : List Event → α → Prop} {job : Job State α}
    (h : job.Ensures post) (imp : ∀ events result, post events result → post' events result) :
    job.Ensures post' :=
  fun world => (h world).mono imp

/-- What a job ensures anywhere it ensures after any world. -/
theorem Ensures.after {post : List Event → α → Prop} {job : Job State α} (h : job.Ensures post)
    (world : World State) : job.EnsuresAfter world post :=
  fun later _ => h later

/-- What a job ensures after a world it ensures after a later one. -/
theorem EnsuresAfter.of_follows {post : List Event → α → Prop} {job : Job State α}
    {world later : World State} (h : job.EnsuresAfter world post) (hf : world.Follows later) :
    job.EnsuresAfter later post :=
  fun last hl => h last (hf.trans hl)

/-- A job that has its result already adds no event. -/
theorem ensures_pure (result : α) :
    (Job.pure result : Job State α).Ensures fun events r => events = [] ∧ r = result :=
  fun world => ⟨[], World.Leads.refl world, rfl, rfl⟩

end Job

namespace Progress

variable {State α β : Type}

/-- Mapping the result leaves the world as it is. -/
@[simp] theorem world_map (f : α → β) (progress : Progress State α) :
    (progress.map f).world = progress.world := by
  cases progress <;> rfl

/-- A computation with a changed result ensures the same of the result before the change. -/
theorem Ensures.map {post : List Event → α → Prop} {progress : Progress State α} (f : α → β)
    (h : progress.Ensures post) :
    (progress.map f).Ensures fun events b => ∃ a, b = f a ∧ post events a := by
  induction progress generalizing post with
  | done world result => exact ⟨result, rfl, h⟩
  | paused world wake resume ih =>
    intro world due
    obtain ⟨events, leads, later⟩ := h world due
    refine ⟨events, ?_, ih world later⟩
    rwa [world_map]

/-- The events of a computation come before those of what follows it. -/
theorem Ensures.bind {first : List Event → α → Prop} {second : α → List Event → β → Prop}
    {next : α → Job State β} (hnext : ∀ a, (next a).Ensures (second a))
    {progress : Progress State α} (h : progress.Ensures first) :
    (progress.bind next).EnsuresFrom progress.world fun events b =>
      ∃ a before after, events = before ++ after ∧ first before a ∧ second a after b := by
  induction progress generalizing first with
  | done world result =>
    exact (hnext result world).mono fun events b hb => ⟨result, [], events, rfl, h, hb⟩
  | paused world wake resume ih =>
    refine ensuresFrom_paused fun world due => ?_
    obtain ⟨events, leads, later⟩ := h world due
    refine EnsuresFrom.of_leads leads ((ih world later).mono ?_)
    rintro more b ⟨a, before, after, rfl, ha, hb⟩
    exact ⟨a, events ++ before, after, (List.append_assoc _ _ _).symm, ha, hb⟩

end Progress

namespace Job

variable {State α β : Type}

/-- A job with a changed result ensures the same of the result before the change. -/
theorem Ensures.map {post : List Event → α → Prop} {job : Job State α} (f : α → β)
    (h : job.Ensures post) : (job.map f).Ensures fun events b => ∃ a, b = f a ∧ post events a := by
  intro world
  obtain ⟨events, leads, later⟩ := h world
  exact ⟨events, by rwa [Job.map, Progress.world_map], later.map f⟩

/-- The events of a job come before those of what follows it. -/
theorem Ensures.bind {first : List Event → α → Prop} {second : α → List Event → β → Prop}
    {job : Job State α} {next : α → Job State β} (h : job.Ensures first)
    (hnext : ∀ a, (next a).Ensures (second a)) :
    (job.bind next).Ensures fun events b =>
      ∃ a before after, events = before ++ after ∧ first before a ∧ second a after b := by
  intro world
  obtain ⟨events, leads, later⟩ := h world
  refine Progress.EnsuresFrom.of_leads leads ((later.bind hnext).mono ?_)
  rintro more b ⟨a, before, after, rfl, ha, hb⟩
  exact ⟨a, events ++ before, after, (List.append_assoc _ _ _).symm, ha, hb⟩

/-- Jobs one after the other: the events of the first come before those of the others. -/
theorem Ensures.inOrder_cons {first : List Event → α → Prop} {others : List Event → List α → Prop}
    {job : Job State α} {rest : List (Job State α)} (h : job.Ensures first)
    (hrest : (inOrder rest).Ensures others) :
    (inOrder (job :: rest)).Ensures fun events results =>
      ∃ result results' before after, results = result :: results' ∧ events = before ++ after ∧
        first before result ∧ others after results' := by
  refine (h.bind fun result => hrest.map (result :: ·)).mono ?_
  rintro events results ⟨result, before, after, rfl, hb, results', rfl, ha⟩
  exact ⟨result, results', before, after, rfl, rfl, hb, ha⟩

end Job

/-- Postconditions side by side: the events of the two are shuffled. -/
def Shuffled {α β : Type} (left : List Event → α → Prop) (right : List Event → β → Prop)
    (events : List Event) (results : α × β) : Prop :=
  ∃ before after, events.Perm (before ++ after) ∧ left before results.1 ∧ right after results.2

/-- Events of the first part may come before all others. -/
theorem Shuffled.left {α β : Type} {left : List Event → α → Prop} {right : List Event → β → Prop}
    {first events : List Event} {results : α × β}
    (h : Shuffled (fun later => left (first ++ later)) right events results) :
    Shuffled left right (first ++ events) results := by
  obtain ⟨before, after, perm, hl, hr⟩ := h
  refine ⟨first ++ before, after, ?_, hl, hr⟩
  rw [List.append_assoc]
  exact perm.append_left first

/-- Events of the second part may come before all others. -/
theorem Shuffled.right {α β : Type} {left : List Event → α → Prop}
    {right : List Event → β → Prop} {first events : List Event} {results : α × β}
    (h : Shuffled left (fun later => right (first ++ later)) events results) :
    Shuffled left right (first ++ events) results := by
  obtain ⟨before, after, perm, hl, hr⟩ := h
  refine ⟨before, first ++ after, (perm.append_left first).trans ?_, hl, hr⟩
  rw [← List.append_assoc, ← List.append_assoc]
  exact List.perm_append_comm.append_right after

namespace Progress

variable {State α β : Type}

/-- A paused computation beside another one that has come to something. `hleft` is what the paused
one ensures beside any job when it goes on. -/
theorem Ensures.besidePaused {post : List Event → α → Prop} {wake : Nat}
    {left : World State → Job State β → Progress State (α × β)}
    (hleft : ∀ (world : World State) (right : Job State β) (other : List Event → β → Prop),
      world.Due wake → right.EnsuresAfter world other →
        (left world right).EnsuresFrom world (Shuffled post other))
    {other : List Event → β → Prop} {progress : Progress State β} (h : progress.Ensures other) :
    (besidePaused wake left progress).Ensures (Shuffled post other) ∧
      (besidePaused wake left progress).world = progress.world := by
  induction progress generalizing other with
  | done world result =>
    refine ⟨fun later due => ?_, rfl⟩
    exact hleft later _ other due fun last _ => ⟨[], World.Leads.refl last, h⟩
  | paused world rightWake resume ih =>
    refine ⟨fun later due => ?_, rfl⟩
    -- the pair woke because one of the two does: its wake is the earlier one
    by_cases wakes : later.wakes wake = true
    · have dueLeft : later.Due wake := by
        rcases due with hc | hn
        · exact Or.inl hc
        · simp only [World.wakes, Bool.or_eq_true, decide_eq_true_eq] at wakes
          exact wakes.imp id fun hw => by omega
      simp only [wakes, if_true]
      refine hleft later _ other dueLeft fun last follows => ?_
      by_cases wakesRight : last.wakes rightWake = true
      · simp only [wakesRight, if_true]
        refine h last ?_
        rcases due.of_follows follows with hc | hn
        · exact Or.inl hc
        · simp only [World.wakes, Bool.or_eq_true, decide_eq_true_eq] at wakesRight
          exact wakesRight.imp id fun hw => by omega
      · simp only [wakesRight]
        exact ⟨[], World.Leads.refl last, h⟩
    · have dueRight : later.Due rightWake := by
        simp only [World.wakes, Bool.or_eq_true, decide_eq_true_eq, not_or] at wakes
        rcases due with hc | hn
        · exact absurd hc wakes.1
        · exact Or.inr (by omega)
      obtain ⟨events, leads, more⟩ := h later dueRight
      obtain ⟨both, same⟩ := ih later more
      simp only [wakes]
      refine ⟨events, ?_, both.mono fun _ _ => Shuffled.right⟩
      rwa [← same] at leads

/-- A computation beside a job that takes its turn after it: their events are shuffled. -/
theorem Ensures.beside {post : List Event → α → Prop} {other : List Event → β → Prop}
    {progress : Progress State α} {right : Job State β} (h : progress.Ensures post)
    (hright : right.EnsuresAfter progress.world other) :
    (progress.beside right).EnsuresFrom progress.world (Shuffled post other) := by
  induction progress generalizing post other right with
  | done world result =>
    obtain ⟨events, leads, later⟩ := hright world (World.Follows.refl world)
    refine ⟨events, by rwa [Progress.beside, world_map], (later.map _).mono ?_⟩
    rintro more _ ⟨b, rfl, hb⟩
    exact ⟨[], events ++ more, List.Perm.refl _, h, hb⟩
  | paused world wake resume ih =>
    obtain ⟨events, leads, later⟩ := hright world (World.Follows.refl world)
    have hleft : ∀ (later : World State) (right : Job State β) (other : List Event → β → Prop),
        later.Due wake → right.EnsuresAfter later other →
          ((resume later).beside right).EnsuresFrom later (Shuffled post other) := by
      intro later right other due hafter
      obtain ⟨first, leads, rest⟩ := h later due
      have both := ih later rest (hafter.of_follows leads.follows)
      exact EnsuresFrom.of_leads leads (both.mono fun _ _ => Shuffled.left)
    obtain ⟨both, same⟩ := Ensures.besidePaused hleft later
    refine ⟨events, ?_, both.mono fun _ _ => Shuffled.right⟩
    rwa [← same] at leads

/-- What a computation ensures holds of its run to the end, and what happens in the run is in the
history. Time passes, and a cancellation may come from outside. -/
theorem Ensures.finish {post : List Event → α → Prop} {progress : Progress State α}
    (h : progress.Ensures post) (cancelAt : Option Nat) :
    ∃ events, World.Records events progress.world (progress.finish cancelAt).1 ∧
      post events (progress.finish cancelAt).2 := by
  induction progress generalizing post cancelAt with
  | done world result => exact ⟨[], World.Records.refl world, h⟩
  | paused world wake resume ih =>
    -- the clock and the cancellation are all that changes before the computation goes on
    have go : ∀ (later : World State) (cancelAt : Option Nat), World.Records [] world later →
        later.Due wake → ∃ events, World.Records events world ((resume later).finish cancelAt).1 ∧
          post events ((resume later).finish cancelAt).2 := by
      intro later cancelAt idle due
      obtain ⟨first, leads, rest⟩ := h later due
      obtain ⟨more, records, hpost⟩ := ih later rest cancelAt
      exact ⟨first ++ more, idle.trans (leads.toRecords.trans records), hpost⟩
    simp only [Progress.finish]
    split
    · next hc => exact go world cancelAt (World.Records.refl world) (Or.inl hc)
    · split
      · exact go _ none ⟨by simp, fun _ => rfl, by simp, by simp⟩ (Or.inl rfl)
      · exact go _ cancelAt ⟨by simp, id, by simp, by simp⟩ (Or.inr rfl)

end Progress

namespace Job

variable {State α : Type}

/-- Jobs side by side: the events of the first and of the others are shuffled. -/
theorem Ensures.together_cons {first : List Event → α → Prop}
    {others : List Event → List α → Prop} {job : Job State α} {rest : List (Job State α)}
    (h : job.Ensures first) (hrest : (together rest).Ensures others) :
    (together (job :: rest)).Ensures fun events results =>
      ∃ result results' before after, results = result :: results' ∧
        events.Perm (before ++ after) ∧ first before result ∧ others after results' := by
  intro world
  obtain ⟨events, leads, later⟩ := h world
  have both := Progress.EnsuresFrom.of_leads leads
    ((later.beside (hrest.after _)).mono fun _ _ => Shuffled.left)
  obtain ⟨all, leadsAll, last⟩ := both
  refine ⟨all, by rwa [together, Progress.world_map], (last.map _).mono ?_⟩
  rintro more results ⟨⟨result, results'⟩, rfl, before, after, perm, hb, ha⟩
  exact ⟨result, results', before, after, rfl, perm, hb, ha⟩

end Job

end GraphQL
