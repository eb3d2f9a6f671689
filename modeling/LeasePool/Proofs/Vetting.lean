import LeasePool.Proofs.Histories
import LeasePool.Proofs.Taking

/-!
Vetting. An idle resource is looked at when an acquisition takes its slot: it is lent only if it is
past no limit at that moment and the factory, if the pool is configured so, then says that it is
valid. The limits are measured from the instants at which the resource was made and last released,
however often it was lent in between.
-/

namespace LeasePool

variable {id : PoolId} {entry : IdleResource}

namespace Pool

variable {now : Instant}

theorem lt_of_reached_eq_false {limit : Option UInt64} {since : Instant} {ms : UInt64}
    (h : reached limit (now - since) = false) (hlimit : limit = some ms) :
    now < since + Duration.ofMillis ms.toNat := by
  subst hlimit
  simp only [reached, decide_eq_false_iff_not] at h
  exact Nat.lt_of_not_le fun hle => h (Nat.le_sub_of_add_le' hle)

end Pool

namespace World

variable {world middle : World} {owner : Owner} {purpose : Purpose} {slot : Slot}
  {result : World × Progress}

/-- An idle resource of the pool that is past no limit. -/
structure Offers (world : World) (id : PoolId) (entry : IdleResource) : Prop where
  mem : .idle entry ∈ (world.pool id).free
  fresh : (world.pool id).isExpired world.clock entry = false

theorem Offers.of_stows (h : middle.Offers id entry) (stows : Stows id none world middle) :
    world.Offers id entry := by
  refine ⟨(stows.pool.idle entry h.mem).resolve_right nofun, ?_⟩
  rw [← stows.clock_eq, ← Pool.isExpired_congr stows.pool.config_eq]
  exact h.fresh

/-- An operation that takes a slot comes to a resource that was on offer: it lends it at once if the
pool checks none, and asks for a check of it else. -/
structure Vets (id : PoolId) (world : World) (result : World × Progress) : Prop where
  lent : ∀ lease, result.2.lent? = some lease →
    (world.pool id).config.testOnCheckout = false ∧ ∃ entry, world.Offers id entry ∧
      lease.resource = entry.resource ∧ lease.createdAt = entry.createdAt
  validating : ∀ pool owner entry purpose,
    result.2 = .pending (.validating pool owner entry purpose) → world.Offers id entry

theorem vets_of_none (h : result.2.slotOwner? = none) : Vets id world result := by
  constructor
  · intro lease hlent
    rw [Progress.slotOwner?_of_lent? hlent] at h
    cases h
  · intro pool owner entry purpose hvalidating
    rw [hvalidating] at h
    cases h

theorem Vets.of_stows (h : Vets id middle result) (stows : Stows id none world middle) :
    Vets id world result := by
  constructor
  · intro lease hlent
    obtain ⟨htest, entry, hoffers, hsame⟩ := h.lent lease hlent
    rw [← stows.pool.config_eq]
    exact ⟨htest, entry, hoffers.of_stows stows, hsame⟩
  · intro pool owner entry purpose hvalidating
    exact (h.validating pool owner entry purpose hvalidating).of_stows stows

theorem not_validating_lend (lease : Lease) {pool : PoolId} {validator : Owner}
    {later : Purpose} :
    (world.lend id lease purpose).2 ≠ .pending (.validating pool validator entry later) := by
  cases purpose <;> exact nofun

theorem length_created (kind : String) :
    (world.created id owner purpose kind).1.resources.length = world.resources.length + 1 := by
  cases purpose <;> exact length_addResource

theorem takeSlot_vets (hslot : slot ∈ (world.pool id).free) :
    Vets id world (world.takeSlot id slot purpose) := by
  cases slot with
  | vacant => exact ⟨nofun, nofun⟩
  | idle entry =>
      cases hexpired : (world.pool id).isExpired world.clock entry with
      | true =>
          rw [takeSlot_expired hexpired]
          exact ⟨nofun, nofun⟩
      | false =>
          have hoffers : world.Offers id entry := ⟨hslot, hexpired⟩
          rw [takeSlot_fresh hexpired]
          cases htest : (world.pool id).config.testOnCheckout with
          | true =>
              refine ⟨nofun, ?_⟩
              rintro pool owner other purpose ⟨⟩
              exact hoffers
          | false =>
              refine ⟨fun lease hlent => ?_, fun pool owner other later hvalidating => ?_⟩
              · have hsame := Option.some_inj.1 ((lent?_reuse entry).symm.trans hlent)
                exact ⟨htest, entry, hoffers, by rw [← hsame], by rw [← hsame]⟩
              · exact absurd hvalidating (not_validating_lend _)

theorem awaitSlot_vets (patience : Patience) (since : Instant) :
    Vets id world (world.awaitSlot id patience since purpose) := by
  unfold World.awaitSlot
  split
  · next hfree =>
    apply takeSlot_vets
    simp [hfree]
  · split <;> exact vets_of_none rfl
  · exact vets_of_none rfl

theorem acquire_vets (patience : Patience) :
    Vets id world (world.acquire id patience purpose) := by
  have henqueue : Stows id none (world.checkOwner id)
      ((world.checkOwner id).modifyPool id Pool.enqueue) :=
    .modifyPool_of_free (fun _ => rfl) fun _ => rfl
  exact (awaitSlot_vets patience _).of_stows (Stows.checkOwner.trans henqueue)

theorem afterDiscard_vets (sequel : Sequel) : Vets id world (world.afterDiscard id sequel) := by
  cases sequel with
  | finish => exact vets_of_none rfl
  | retry policy retries failure =>
      simp only [World.afterDiscard]
      split
      · exact vets_of_none rfl
      · split
        · exact (acquire_vets _).of_stows (.note _)
        · exact vets_of_none rfl

theorem awaitAttempt_vets (due : Instant) (policy : RetryPolicy) (retries : UInt32) :
    Vets id world (world.awaitAttempt id due policy retries) := by
  simp only [World.awaitAttempt]
  split
  · exact acquire_vets _
  · exact vets_of_none rfl

theorem discard_vets (lease : Lease) (sequel : Sequel) :
    Vets id world (world.discard id lease sequel) := by
  have hforget : Stows id none world (world.forget lease.resource) := .of_pools rfl rfl
  simp only [World.discard]
  split
  · exact (afterDiscard_vets sequel).of_stows hforget
  · split
    · exact (afterDiscard_vets sequel).of_stows ((Stows.note _).trans (.letGo _))
    · exact vets_of_none rfl

theorem discarded_vets (resource : ResourceId) (sequel : Sequel) (failure : Option Failure) :
    Vets id world (world.discarded id owner resource sequel failure) :=
  (afterDiscard_vets sequel).of_stows
    ((Stows.noteClose resource failure).trans ((Stows.letGo resource).trans (.restoreVacant owner)))

theorem begin_vets (call : Call) : Vets id world (world.begin id call) := by
  cases call with
  | acquire | run => exact acquire_vets _
  | release | invalidate => exact vets_of_none rfl
  | discard lease =>
      have hpart : Stows id none world (world.part lease) := .of_pools rfl rfl
      exact (discard_vets lease .finish).of_stows hpart
  | disconnectAll => exact vets_of_none (slotOwner?_disconnectNext _ _ _)
  | closeIdle | evictExpired => exact vets_of_none (slotOwner?_sweepNext _ _)

/-- An operation without a slot comes to a resource only by taking a slot. -/
theorem resume_vets {task : Task} {reply : Reply} (hnone : task.acquiring? = none)
    (h : world.resume task reply = some result) : Vets task.pool world result := by
  unfold World.resume at h
  split at h <;> cases h
  · cases hnone
  · cases hnone
  · cases hnone
  · cases hnone
  · exact vets_of_none rfl
  · simp only [World.broke]
    split
    · exact discard_vets _ _
    · exact vets_of_none rfl
  · exact discarded_vets _ _ _
  · exact vets_of_none (slotOwner?_disconnectNext _ _ _)
  · exact vets_of_none (slotOwner?_sweepNext _ _)

/-- An operation that has a slot does not come to another idle resource. -/
theorem resume_not_validating {task : Task} {reply : Reply} {pool : PoolId} {validator : Owner}
    {later : Purpose} (hacquiring : task.acquiring? = some owner)
    (h : world.resume task reply = some result) :
    result.2 ≠ .pending (.validating pool validator entry later) := by
  unfold World.resume at h
  split at h <;> cases h
  · simp only [World.validated]
    split
    · exact not_validating_lend _
    · exact nofun
  · exact nofun
  · exact not_validating_lend _
  · exact nofun
  · cases hacquiring
  · cases hacquiring
  · cases hacquiring
  · cases hacquiring
  · cases hacquiring

theorem wake_vets {task : Task} (h : world.wake task = some result) :
    Vets task.pool world result := by
  unfold World.wake at h
  split at h <;> cases h
  · exact awaitSlot_vets _ _
  · exact awaitAttempt_vets _ _ _

end World

namespace System

variable {system next start final popped middle : System} {event : Event} {events : List Event}
  {task? : Option Task} {first progress : Progress} {lease : Lease} {owner : Owner} {task : Task}
  {book : Book}

/-- An operation that comes to a slot in a turn takes what the pool had on offer before it. -/
theorem Turn.vets (turn : system.Turn id event task? next progress)
    (hnone : task?.bind Task.acquiring? = none) :
    World.Vets id system.world (next.world, progress) := by
  cases turn with
  | @call id call result h =>
      obtain rfl := World.eq_begin_of_call h
      have hvets : World.Vets id system.world (system.world.begin id call) :=
        World.begin_vets call
      exact ⟨hvets.lent, hvets.validating⟩
  | reply htask h =>
      have hvets := World.resume_vets hnone h
      exact ⟨hvets.lent, hvets.validating⟩
  | wake htask h =>
      have hvets := World.wake_vets h
      exact ⟨hvets.lent, hvets.validating⟩

/-- With the event the factory says of the idle resource of a lease that it is valid. -/
def Accepts (system : System) (task : Task) (event : Event) (lease : Lease) : Prop :=
  ∃ pool owner entry purpose place, task = .validating pool owner entry purpose ∧
    system.tasks[place]? = some task ∧ event = .reply place (.valid true) ∧
    lease.resource = entry.resource ∧ lease.createdAt = entry.createdAt

def Makes (system : System) (task : Task) (event : Event) (lease : Lease) : Prop :=
  ∃ owner purpose place kind, task = .creating lease.owner.pool owner purpose ∧
    system.tasks[place]? = some task ∧ event = .reply place (.created kind) ∧
    lease.resource = system.world.resources.length ∧ lease.createdAt = system.world.clock

/-- An acquisition that has its slot lends a resource when the factory accepts or makes one. -/
theorem Turn.accepts_or_makes (turn : system.Turn id event (some task) next progress)
    (reach : system.Reachable) (hacquiring : task.acquiring? = some owner)
    (hlent : progress.lent? = some lease) :
    system.Accepts task event lease ∨ system.Makes task event lease ∧
      system.world.resources.length < next.world.resources.length := by
  have hplace := pool_of_acquiring reach turn.mem_before hacquiring
  cases turn with
  | wake htask h =>
      cases task with
      | validating | replacing | creating => cases h
      | waiting | working | discarding | pausing | disconnecting | sweeping => cases hacquiring
  | @reply place reply task result htask h =>
      cases task with
      | validating pool maker entry purpose =>
          cases reply with
          | valid isValid =>
              cases h
              cases isValid with
              | true =>
                  have hsame := Option.some_inj.1 ((World.lent?_reuse entry).symm.trans hlent)
                  subst hsame
                  exact .inl ⟨pool, maker, entry, purpose, place, rfl, htask, rfl, rfl, rfl⟩
              | false => cases hlent
          | created | notCreated | closed | worked | broke => cases h
      | replacing =>
          cases reply with
          | closed =>
              cases h
              cases hlent
          | created | notCreated | valid | worked | broke => cases h
      | creating pool maker purpose =>
          cases hacquiring
          cases reply with
          | created kind =>
              cases h
              have hsame := Option.some_inj.1 ((World.lent?_created kind).symm.trans hlent)
              subst hsame
              subst hplace
              refine .inr ⟨⟨owner, purpose, place, kind, rfl, htask, rfl, rfl, rfl⟩, ?_⟩
              rw [world_settle, World.length_created]
              exact Nat.lt_succ_self _
          | notCreated =>
              cases h
              cases hlent
          | closed | valid | worked | broke => cases h
      | waiting | working | discarding | pausing | disconnecting | sweeping => cases hacquiring

theorem Turn.not_validating {pool : PoolId} {validator : Owner} {later : Purpose}
    (turn : system.Turn id event (some task) next progress)
    (hacquiring : task.acquiring? = some owner) :
    progress ≠ .pending (.validating pool validator entry later) := by
  cases turn with
  | reply htask h => exact World.resume_not_validating hacquiring h
  | wake htask h =>
      cases task with
      | validating | replacing | creating => cases h
      | waiting | working | discarding | pausing | disconnecting | sweeping => cases hacquiring

/-- A turn without a slot comes to a resource that was idle, with the instant of its making. -/
theorem Turn.exists_idle_of_lent (turn : system.Turn id event task? next progress)
    (hnone : task?.bind Task.acquiring? = none) (hlent : progress.lent? = some lease) :
    ∃ entry, .idle entry ∈ (system.world.pool id).free ∧ lease.resource = entry.resource ∧
      lease.createdAt = entry.createdAt := by
  obtain ⟨-, entry, hoffers, hsame⟩ := (turn.vets hnone).lent lease hlent
  exact ⟨entry, hoffers.mem, hsame⟩

/-- The lease that a turn comes to carries the instant in the book. -/
theorem Turn.made_of_lent (turn : system.Turn id event task? next progress)
    (reach : system.Reachable) (h : system.Recorded book)
    (hlent : progress.lent? = some lease) :
    (book.enter system event next).made lease.resource = some lease.createdAt := by
  have hentered := h.enter reach turn.step?
  cases hacquiring : task?.bind Task.acquiring? with
  | none =>
      obtain ⟨entry, hidle, hresource, hcreated⟩ := turn.exists_idle_of_lent hacquiring hlent
      rw [hresource, hcreated]
      exact (hentered.idle id (turn.lt reach) entry hidle).1
  | some owner =>
      obtain ⟨task, rfl, howner⟩ := Option.bind_eq_some_iff.1 hacquiring
      rcases turn.accepts_or_makes reach howner hlent with
        ⟨pool, maker, entry, purpose, place, rfl, htask, -, hresource, hcreated⟩ |
        ⟨⟨maker, purpose, place, kind, -, -, -, hresource, hcreated⟩, hlonger⟩
      · rw [hresource, hcreated]
        exact hentered.validating pool maker entry purpose (List.mem_of_getElem? htask)
      · rw [hresource, hcreated]
        exact if_pos ⟨Nat.le_refl _, hlonger⟩

theorem Turn.agent?_eq (turn : system.Turn id event task? next progress) :
    system.agent? event = some id := by
  cases turn with
  | call h => rfl
  | reply htask h | wake htask h => simp [agent?, htask]

theorem Turn.recorded (turn : system.Turn id event task? next progress)
    (reach : system.Reachable) (h : system.Recorded book) :
    next.Recorded (book.enter system event next) := by
  have hentered := h.enter reach turn.step?
  have hclock : next.world.clock = system.world.clock := turn.stows.clock_eq
  constructor
  · intro other hother entry hentry
    have hlength := step?_length_pools (reachable_fits reach) turn.step?
    by_cases heq : other = id
    · subst heq
      rcases turn.stows.pool.idle entry hentry with hbefore | hadded
      · exact hentered.idle other (turn.lt reach) entry hbefore
      · obtain ⟨lease, hreleased, rfl⟩ := Option.map_eq_some_iff.1 hadded
        have hmem := mem_leases_of_released? turn.step? hreleased
        refine ⟨hentered.lent lease hmem, ?_⟩
        exact if_pos (congrArg (Option.map (·.resource)) hreleased)
    · have hagent : system.agent? event ≠ some other := by
        rw [turn.agent?_eq]
        exact fun hsome => heq (Option.some_inj.1 hsome).symm
      rw [step?_pool_of_ne reach turn.step? hagent] at hentry
      exact hentered.idle other (hlength ▸ hother) entry hentry
  · intro lease hmem
    rcases turn.mem_leases_or hmem with hbefore | hlent
    · exact hentered.lent lease hbefore
    · exact turn.made_of_lent reach h hlent
  · intro pool owner entry purpose hmem
    rcases turn.mem_tasks_or hmem with hbefore | hprogress
    · exact hentered.validating pool owner entry purpose hbefore
    · cases hacquiring : task?.bind Task.acquiring? with
      | none =>
          have hoffers := (turn.vets hacquiring).validating pool owner entry purpose hprogress
          exact (hentered.idle id (turn.lt reach) entry hoffers.mem).1
      | some other =>
          obtain ⟨task, rfl, howner⟩ := Option.bind_eq_some_iff.1 hacquiring
          exact absurd hprogress (turn.not_validating howner)
  · rw [hclock]
    exact hentered.made_le
  · rw [hclock]
    exact hentered.released_le

/-- What happens outside all operations takes no time back. -/
theorem clock_le_of_agent?_eq_none (reach : system.Reachable)
    (hstep : system.step? event = some next) (hagent : system.agent? event = none) :
    system.world.clock ≤ next.world.clock := by
  cases step?_passage (hosted_of_fits (reachable_fits reach)) hstep with
  | moves _ hsome =>
      rw [hsome] at hagent
      cases hagent
  | invalidate | disconnect => cases hagent
  | drop _ hscene =>
      have hworld : next.world = system.world.dropLease _ := congrArg Scene.world hscene
      rw [hworld, World.dropLease, World.letGo_clock]
      exact Nat.le_refl _
  | fork _ hscene =>
      have hworld : next.world = system.world.fork _ _ := congrArg Scene.world hscene
      rw [hworld]
      exact Nat.le_refl _
  | advance hscene =>
      have hworld : next.world = system.world.advance _ := congrArg Scene.world hscene
      rw [hworld]
      exact Nat.le_add_right _ _

theorem step?_recorded (reach : system.Reachable) (h : system.Recorded book)
    (hstep : system.step? event = some next) :
    next.Recorded (book.enter system event next) := by
  rcases turn_or_of_step? hstep with ⟨id, task?, progress, -, turn⟩ | ⟨hagent, htasks, hheld⟩
  · exact turn.recorded reach h
  · have hentered := h.enter reach hstep
    have hpools := step?_pools_eq (hosted_of_fits (reachable_fits reach)) hstep hagent
    have hclock := clock_le_of_agent?_eq_none reach hstep hagent
    constructor
    · intro id hid entry hentry
      rw [World.pool_congr hpools] at hentry
      exact hentered.idle id (hpools ▸ hid) entry hentry
    · intro lease hmem
      rw [leases, htasks, hheld] at hmem
      rcases List.mem_append.1 hmem with htaken | hworking
      · exact hentered.lent lease (List.mem_append_left _ (mem_of_mem_taken htaken))
      · exact hentered.lent lease (List.mem_append_right _ hworking)
    · rw [htasks]
      exact hentered.validating
    · intro resource instant hmade
      exact Nat.le_trans (hentered.made_le resource instant hmade) hclock
    · intro resource instant hreleased
      exact Nat.le_trans (hentered.released_le resource instant hreleased) hclock

/-- In every state of a run, the instants that travel with resources are those in its book. -/
theorem run?_recorded {pids : List Pid} {pools : List (ProcessId × Config)}
    (hrun : (init pids pools).run? events = some system) :
    system.Recorded ((init pids pools).book events) := by
  have hinit : (init pids pools).Reachable := ⟨pids, pools, [], rfl⟩
  induction events using List.reverseRecOn generalizing system with
  | nil =>
      cases hrun
      constructor
      · intro id hid entry hentry
        obtain ⟨config, process, hpool⟩ :=
          init_each_pool pids pools id _ (World.getElem?_pools hid)
        rw [hpool] at hentry
        cases (List.mem_replicate.1 hentry).2
      · intro lease hmem
        rw [leases, init_held] at hmem
        cases hmem
      · intro id owner entry purpose hmem
        cases hmem
      · intro resource instant hmade
        cases hmade
      · intro resource instant hreleased
        cases hreleased
  | append_singleton events event ih =>
      obtain ⟨middle, hmiddle, hstep⟩ :=
        Option.bind_eq_some_iff.1 ((run?_concat _ events event).symm.trans hrun)
      rw [book_concat hmiddle hstep]
      exact step?_recorded (hinit.run? hmiddle) (ih hmiddle) hstep

/-- The factory says in answer to the acquisition that its idle resource is valid, and with that the
acquisition lends it. -/
def AcceptsWithin (popped : System) (first : Progress) (events : List Event)
    (resource : ResourceId) : Prop :=
  ∃ earlier middle pool owner entry purpose place,
    Course IsAcquiring popped first earlier middle
      (.pending (.validating pool owner entry purpose)) ∧
      events = earlier ++ [.reply place (.valid true)] ∧
      middle.tasks[place]? = some (.validating pool owner entry purpose) ∧
      entry.resource = resource

/-- An idle resource that an acquisition has asked about is the one it came to at first. -/
theorem Course.eq_first_of_validating {pool : PoolId} {purpose : Purpose}
    (course : Course IsAcquiring popped first events final
      (.pending (.validating pool owner entry purpose))) :
    first = .pending (.validating pool owner entry purpose) := by
  generalize hprogress : Progress.pending (.validating pool owner entry purpose) = progress
    at course
  induction course with
  | here => rfl
  | waits before hacquiring hstep hstays ih => exact ih hprogress
  | goesOn before hacquiring turn ih =>
      obtain ⟨other, hother⟩ := Option.isSome_iff_exists.1 hacquiring
      exact absurd hprogress.symm (turn.not_validating hother)

/-- An operation whose course is followed beyond where it stood at first stood at a task to
follow. -/
theorem Course.eq_or_follows {follows : Task → Prop}
    (course : Course follows start first events final progress) :
    progress = first ∨ ∃ task, first = .pending task ∧ follows task := by
  induction course with
  | here => exact .inl rfl
  | waits before hfollows hstep hstays ih | goesOn before hfollows turn ih =>
      refine .inr ?_
      rcases ih with rfl | hfirst
      · exact ⟨_, rfl, hfollows⟩
      · exact hfirst

theorem Lends.tookSlot (hlends : popped.Lends first events final lease)
    (reach : system.Reachable) (turn : system.Turn id event task? popped first)
    (hnone : task?.bind Task.acquiring? = none) : popped.TookSlot id first := by
  refine ⟨system, event, task?, reach, turn, hnone, ?_⟩
  obtain ⟨progress, course, hlent⟩ := hlends
  rcases course.eq_or_follows with rfl | ⟨task, rfl, hacquiring⟩
  · rw [Progress.slotOwner?_of_lent? hlent]
    rfl
  · obtain ⟨owner, howner⟩ := Option.isSome_iff_exists.1 hacquiring
    rw [slotOwner?_of_isAcquiring howner]
    rfl

/-- An acquisition lends at once what it came to, or it lends what it asked about once the factory
accepts it, or the factory makes a resource for it. -/
theorem Lends.cases (hlends : popped.Lends first events final lease) (reach : popped.Reachable)
    (hpool : lease.owner.pool = id) :
    first.lent? = some lease ∨
      (∃ pool owner entry purpose, first = .pending (.validating pool owner entry purpose) ∧
        lease.resource = entry.resource ∧ lease.createdAt = entry.createdAt ∧
        popped.AcceptsWithin first events lease.resource) ∨
      popped.MakesWithin id first events lease.resource := by
  obtain ⟨progress, course, hlent⟩ := hlends
  cases course with
  | here => exact .inl hlent
  | waits before hacquiring =>
      rw [lent?_of_isAcquiring hacquiring] at hlent
      cases hlent
  | goesOn before hacquiring turn =>
      obtain ⟨owner, howner⟩ := Option.isSome_iff_exists.1 hacquiring
      rcases turn.accepts_or_makes (reach.run? before.run?) howner hlent with
        ⟨pool, maker, entry, purpose, place, rfl, htask, rfl, hresource, hcreated⟩ |
        ⟨⟨maker, purpose, place, kind, rfl, htask, rfl, hresource, -⟩, -⟩
      · exact .inr (.inl ⟨pool, maker, entry, purpose, before.eq_first_of_validating, hresource,
          hcreated, _, _, pool, maker, entry, purpose, place, before, rfl, htask, hresource.symm⟩)
      · rw [hpool] at before htask
        exact .inr (.inr ⟨_, _, maker, purpose, place, kind, before, rfl, htask, hresource⟩)

/-- What an acquisition lends that was not made for it was on offer when it took its slot, and was
accepted if the pool checks its resources. -/
theorem Lends.exists_offer (hlends : popped.Lends first events final lease)
    (reach : system.Reachable) (turn : system.Turn id event task? popped first)
    (hnone : task?.bind Task.acquiring? = none)
    (hmade : ¬ popped.MakesWithin id first events lease.resource) :
    ∃ entry, system.world.Offers id entry ∧ lease.resource = entry.resource ∧
      lease.createdAt = entry.createdAt ∧
      ((system.world.pool id).config.testOnCheckout = true →
        popped.AcceptsWithin first events lease.resource) := by
  have hpopped : popped.Reachable := reach.step? turn.step?
  have hid : id < popped.world.pools.length := reach.lt_of_step? (turn.lt reach) turn.step?
  have hpool : lease.owner.pool = id :=
    (hlends.backed (hlends.tookSlot reach turn hnone) hpopped hid).2.1
  rcases hlends.cases hpopped hpool with
    hlent | ⟨pool, owner, entry, purpose, rfl, hresource, hcreated, haccepts⟩ | hmakes
  · obtain ⟨htest, entry, hoffers, hresource, hcreated⟩ := (turn.vets hnone).lent lease hlent
    refine ⟨entry, hoffers, hresource, hcreated, fun htested => ?_⟩
    rw [htest] at htested
    cases htested
  · exact ⟨entry, (turn.vets hnone).validating pool owner entry purpose rfl, hresource, hcreated,
      fun _ => haccepts⟩
  · exact absurd hmakes hmade

/-- Nothing expired is lent. All leases and idle entries carry the instant at which their resource
was made, and idle entries that of its last release. An acquisition that lends a resource which was
not made for it finds it, in the turn in which it takes its slot, below the age and the idle time
that the pool allows, counted from those two instants; and if the pool checks its resources, the
factory accepted it within the acquisition. -/
theorem lent_within_limits {pids : List Pid} {pools : List (ProcessId × Config)}
    {process : ProcessId} {config : Config} {history : List Event}
    (hpool : pools[id]? = some (process, config))
    (hrun : (init pids pools).run? history = some system) :
    let book := (init pids pools).book history
    (∀ lease ∈ system.leases, book.made lease.resource = some lease.createdAt) ∧
    (∀ entry, .idle entry ∈ (system.world.pool id).free →
      book.made entry.resource = some entry.createdAt ∧
        book.released entry.resource = some entry.idleSince) ∧
    ∀ event task? popped first events final lease, system.Turn id event task? popped first →
      task?.bind Task.acquiring? = none → popped.Lends first events final lease →
      ¬ popped.MakesWithin id first events lease.resource →
        ∃ made released, book.made lease.resource = some made ∧
          book.released lease.resource = some released ∧ lease.createdAt = made ∧
          made ≤ system.world.clock ∧ released ≤ system.world.clock ∧
          (∀ ms, config.maxLifetime = some ms →
            system.world.clock < made + Duration.ofMillis ms.toNat) ∧
          (∀ ms, config.idleTimeout = some ms →
            system.world.clock < released + Duration.ofMillis ms.toNat) ∧
          (config.testOnCheckout = true →
            popped.AcceptsWithin first events lease.resource) := by
  have hinit : (init pids pools).Reachable := ⟨pids, pools, [], rfl⟩
  have reach : system.Reachable := hinit.run? hrun
  have hid : id < system.world.pools.length := hinit.lt_of_run? (init_pool pids hpool).1 hrun
  have hconfig : (system.world.pool id).config = config := (run?_slots hpool hrun).1
  have hrecorded := run?_recorded hrun
  refine ⟨hrecorded.lent, hrecorded.idle id hid, ?_⟩
  intro event task? popped first events final lease turn hnone hlends hmade
  obtain ⟨entry, hoffers, hresource, hcreated, haccepts⟩ :=
    hlends.exists_offer reach turn hnone hmade
  obtain ⟨hmadeAt, hreleasedAt⟩ := hrecorded.idle id hid entry hoffers.mem
  have hfresh := hoffers.fresh
  rw [Pool.isExpired, Bool.or_eq_false_iff, hconfig] at hfresh
  rw [hconfig] at haccepts
  rw [hresource]
  exact ⟨entry.createdAt, entry.idleSince, hmadeAt, hreleasedAt, hcreated,
    hrecorded.made_le _ _ hmadeAt, hrecorded.released_le _ _ hreleasedAt,
    fun ms => Pool.lt_of_reached_eq_false hfresh.2,
    fun ms => Pool.lt_of_reached_eq_false hfresh.1, hresource ▸ haccepts⟩

/-- A resource that was made eight milliseconds ago and came back three milliseconds ago is lent,
once it was accepted, by a pool that allows ten and four. -/
theorem lent_within_limits_after_check : ∃ system,
    (init [7] [(0, { Config.ofSize 1 with
        maxLifetime := some 10, idleTimeout := some 4, testOnCheckout := true })]).run?
      [.call 0 (.acquire none), .reply 0 (.created "db"), .advance (Duration.ofMillis 5),
        .call 0 (.release ⟨0, ⟨0, 7, 0⟩, 0⟩), .advance (Duration.ofMillis 3)] = some system ∧
      ∃ popped first final, system.Turn 0 (.call 0 (.acquire none)) none popped first ∧
        popped.Lends first [.reply 0 (.valid true)] final ⟨0, ⟨0, 7, 0⟩, 0⟩ ∧
        ¬ popped.MakesWithin 0 first [.reply 0 (.valid true)] 0 ∧
        popped.AcceptsWithin first [.reply 0 (.valid true)] 0 ∧
        ∃ released, system.world.clock < 0 + Duration.ofMillis 10 ∧
          system.world.clock < released + Duration.ofMillis 4 := by
  refine exists_run? rfl fun system hrun => ?_
  obtain ⟨popped, first, final, turn, hlends⟩ : ∃ popped first final,
      system.Turn 0 (.call 0 (.acquire none)) none popped first ∧
        popped.Lends first [.reply 0 (.valid true)] final ⟨0, ⟨0, 7, 0⟩, 0⟩ := by
    cases hrun
    exact ⟨_, _, _, .call rfl, _, .goesOn .here rfl (.reply rfl rfl), rfl⟩
  have hmade : ¬ popped.MakesWithin 0 first [.reply 0 (.valid true)] 0 := by
    rintro ⟨earlier, middle, owner, purpose, place, kind, -, hevents, -⟩
    have hlast := congrArg List.getLast? hevents
    simp at hlast
  have hpool : [((0 : ProcessId), { Config.ofSize 1 with
      maxLifetime := some 10, idleTimeout := some 4, testOnCheckout := true })][0]? =
    some (0, { Config.ofSize 1 with
      maxLifetime := some 10, idleTimeout := some 4, testOnCheckout := true }) := rfl
  obtain ⟨-, -, hlimits⟩ := lent_within_limits hpool hrun
  obtain ⟨made, released, hmadeAt, -, rfl, -, -, hlife, hidle, haccepts⟩ :=
    hlimits _ none popped first _ final _ turn rfl hlends hmade
  exact ⟨popped, first, final, turn, hlends, hmade, haccepts rfl, released, hlife 10 rfl,
    hidle 4 rfl⟩

end System
end LeasePool
