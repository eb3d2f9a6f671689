import LeasePool.Proofs.Conservation
import LeasePool.Proofs.Courses
import LeasePool.Proofs.Custody

/-!
Fates of resources. Between operations every resource ever made lies idle in the pool that made it,
is held by one lease, was destroyed once, or was forgotten, and it is in one of these conditions
only. It is forgotten if it lies idle when its pool notices another process, or if it comes back in
another process than the one it was lent in.
-/

namespace LeasePool

namespace Pool

variable {pool : Pool}

theorem notedPid_push (slot : Slot) : (pool.push slot).notedPid = pool.notedPid := by
  obtain ⟨free, heq⟩ := pool.push_eq slot
  rw [heq]

theorem notedPid_restoreVacant (owner : Owner) :
    (pool.restoreVacant owner).notedPid = pool.notedPid := by
  obtain ⟨free, leased, stale, heq⟩ := pool.restoreVacant_eq owner
  rw [heq]

theorem notedPid_reclaim (owner : Owner) : (pool.reclaim owner).notedPid = pool.notedPid := by
  unfold reclaim
  split
  · exact notedPid_push .vacant
  · rfl

theorem notedPid_enroll (owner : Owner) (alive : ResourceId → Bool) (resource : ResourceId) :
    (pool.enroll owner alive resource).notedPid = pool.notedPid := by
  unfold enroll
  dsimp only
  split <;> rfl

end Pool

namespace World

variable {world middle after : World} {id : PoolId} {owner : Owner} {purpose : Purpose}
  {resource : ResourceId} {result : World × Progress} {lease : Lease}

/-- Nothing was forgotten, and the pool noticed no other process. -/
structure Retains (id : PoolId) (world after : World) : Prop where
  noted : (after.pool id).notedPid = (world.pool id).notedPid
  forgotten : ∀ resource, after.isForgotten resource = true → world.isForgotten resource = true

namespace Retains

theorem refl (world : World) : Retains id world world := ⟨rfl, fun _ h => h⟩

theorem trans (first : Retains id world middle) (second : Retains id middle after) :
    Retains id world after :=
  ⟨second.noted.trans first.noted, fun _ h => first.forgotten _ (second.forgotten _ h)⟩

theorem emit (signal : Signal) : Retains id world (world.emit signal) := ⟨rfl, fun _ h => h⟩

theorem note (notice : Notice) : Retains id world (world.note notice) := emit _

theorem modifyPool {change : Pool → Pool} (h : ∀ pool, (change pool).notedPid = pool.notedPid) :
    Retains id world (world.modifyPool id change) :=
  ⟨view_modifyPool Pool.notedPid h, fun _ h => h⟩

theorem letGo (resource : ResourceId) : Retains id world (world.letGo resource) :=
  ⟨congrArg Pool.notedPid (pool_congr letGo_pools), fun _ h => isForgotten_letGo.symm.trans h⟩

theorem letGoAll (resources : List ResourceId) : Retains id world (world.letGoAll resources) :=
  ⟨congrArg Pool.notedPid (pool_congr letGoAll_pools),
    fun _ h => isForgotten_letGoAll.symm.trans h⟩

theorem noteClose (resource : ResourceId) (failure : Option Failure) :
    Retains id world (world.noteClose resource failure) := by
  cases failure <;> exact ⟨rfl, fun _ h => h⟩

theorem noteReturn (owner : Owner) : Retains id world (world.noteReturn id owner) := by
  unfold World.noteReturn
  split
  · exact emit _
  · exact refl world

theorem lend (lease : Lease) : Retains id world (world.lend id lease purpose).1 := by
  cases purpose <;> exact ⟨rfl, fun _ h => h⟩

theorem reuse (entry : IdleResource) : Retains id world (world.reuse id owner entry purpose).1 :=
  (note _).trans (lend ⟨entry.resource, owner, entry.createdAt⟩)

theorem takeSlot (slot : Slot) : Retains id world (world.takeSlot id slot purpose).1 := by
  have htake : Retains id world (world.modifyPool id Pool.take) := modifyPool fun _ => rfl
  have htaken := htake.trans (emit (.slotTaken ((world.modifyPool id Pool.take).pool id).owner))
  cases slot with
  | vacant => exact htaken
  | idle entry =>
      unfold World.takeSlot
      dsimp only
      split
      · exact htaken.trans (note _)
      · split
        · exact htaken
        · exact htaken.trans (reuse entry)

theorem awaitSlot (patience : Patience) (since : Instant) :
    Retains id world (world.awaitSlot id patience since purpose).1 := by
  unfold World.awaitSlot
  split
  · exact takeSlot _
  · split
    · have hgiveUp : Retains id world (world.modifyPool id Pool.giveUp) := modifyPool fun _ => rfl
      exact hgiveUp.trans (note _)
    · exact refl world
  · exact refl world

theorem acquire (patience : Patience) :
    Retains id (world.checkOwner id) (world.acquire id patience purpose).1 := by
  have henqueue : Retains id (world.checkOwner id)
      ((world.checkOwner id).modifyPool id Pool.enqueue) := modifyPool fun _ => rfl
  exact henqueue.trans (awaitSlot patience _)

theorem validated (entry : IdleResource) (isValid : Bool) :
    Retains id world (world.validated id owner entry purpose isValid).1 := by
  unfold World.validated
  split
  · exact reuse entry
  · exact ⟨rfl, fun _ h => h⟩

theorem replaced (resource : ResourceId) (failure : Option Failure) :
    Retains id world (world.replaced id owner resource purpose failure).1 :=
  (noteClose resource failure).trans (letGo resource)

theorem created (kind : String) :
    Retains id world (world.created id owner purpose kind).1 := by
  have hadd : Retains id world (world.addResource kind owner) :=
    ⟨rfl, fun _ h => isForgotten_addResource.symm.trans h⟩
  have henroll : Retains id (world.addResource kind owner)
      ((world.addResource kind owner).modifyPool id fun pool =>
        pool.enroll owner (world.addResource kind owner).isAlive world.resources.length) :=
    modifyPool fun pool => pool.notedPid_enroll _ _ _
  exact (hadd.trans henroll).trans ((note _).trans (lend _))

theorem restoreVacant (owner : Owner) : Retains id world (world.restoreVacant id owner) :=
  (emit (.slotReturned owner)).trans (modifyPool fun pool => pool.notedPid_restoreVacant owner)

theorem notCreated (failure : Failure) :
    Retains id world (world.notCreated id owner failure).1 := by
  have hcount : Retains id world (world.modifyPool id Pool.countFailure) := modifyPool fun _ => rfl
  exact hcount.trans ((note _).trans (restoreVacant owner))

theorem disconnectNext (free rest : List ResourceId) (closed : Nat) :
    Retains id world (world.disconnectNext id free closed rest).1 := by
  induction rest with
  | nil => exact (letGoAll free).trans (note _)
  | cons resource rest ih =>
      unfold World.disconnectNext
      split
      · exact ⟨rfl, fun _ h => isForgotten_hold.symm.trans h⟩
      · exact ih

theorem disconnectAll : Retains id (world.checkOwner id) (world.disconnectAll id).1 := by
  have htear : Retains id (world.checkOwner id)
      ((world.checkOwner id).modifyPool id Pool.tearDown) := modifyPool fun _ => rfl
  exact htear.trans (disconnectNext _ _ _)

theorem disconnected (resource : ResourceId) (rest free : List ResourceId) (closed : Nat)
    (failure : Option Failure) :
    Retains id world (world.disconnected id resource rest free closed failure).1 :=
  ((noteClose resource failure).trans (letGo resource)).trans (disconnectNext _ _ _)

theorem sweepNext (taken rest : List ResourceId) :
    Retains id world (world.sweepNext id taken rest).1 := by
  cases rest with
  | nil =>
      unfold World.sweepNext
      dsimp only
      split
      · exact letGoAll taken
      · exact (note _).trans (letGoAll taken)
  | cons => exact refl world

theorem sweep (takes : Pool → IdleResource → Bool) :
    Retains id (world.checkOwner id) (world.sweep id takes).1 := by
  have hvacate : Retains id (world.checkOwner id) ((world.checkOwner id).modifyPool id
      fun pool => pool.vacate (takes pool)) := modifyPool fun _ => rfl
  exact hvacate.trans (sweepNext _ _)

theorem swept (resource : ResourceId) (rest taken : List ResourceId) (failure : Option Failure) :
    Retains id world (world.swept id resource rest taken failure).1 :=
  (noteClose resource failure).trans (sweepNext taken rest)

end Retains

/-- The resource lay idle in the pool when the pool noticed another process, or it came back with a
lease of another process. -/
def Forsakes (id : PoolId) (returned : Option Lease) (world after : World)
    (resource : ResourceId) : Prop :=
  (resource ∈ (world.pool id).idle ∧ (world.pool id).notedPid ≠ world.currentPid id ∧
      (after.pool id).notedPid = world.currentPid id) ∨
    ∃ lease, returned = some lease ∧ lease.resource = resource ∧
      lease.owner.pid ≠ world.currentPid id

/-- What was forgotten on the way was forsaken. -/
def Explains (id : PoolId) (returned : Option Lease) (world after : World) : Prop :=
  ∀ resource, after.isForgotten resource = true →
    world.isForgotten resource = true ∨ Forsakes id returned world after resource

variable {returned : Option Lease}

theorem isForgotten_invalidate :
    (world.invalidate id).isForgotten resource = world.isForgotten resource := by
  rw [invalidate, reset, if_neg Bool.false_ne_true, isForgotten_letGoAll]
  rfl

theorem isForgotten_or_eq_of_forget {asked : ResourceId}
    (h : (world.forget resource).isForgotten asked = true) :
    world.isForgotten asked = true ∨ asked = resource := by
  by_cases hlt : resource < world.resources.length
  · rw [isForgotten_forget hlt, Bool.or_eq_true, decide_eq_true_eq] at h
    exact h.symm
  · rw [forget, List.modify_eq_self (Nat.le_of_not_lt hlt)] at h
    exact .inl h

theorem isForgotten_or_mem_of_forgetAll {resources : List ResourceId} {asked : ResourceId}
    (h : (world.forgetAll resources).isForgotten asked = true) :
    world.isForgotten asked = true ∨ asked ∈ resources := by
  induction resources generalizing world with
  | nil => exact .inl h
  | cons resource rest ih =>
      rcases ih h with hforgotten | hrest
      · rcases isForgotten_or_eq_of_forget hforgotten with hold | rfl
        · exact .inl hold
        · exact .inr List.mem_cons_self
      · exact .inr (List.mem_cons_of_mem _ hrest)

namespace Explains

theorem of_retains (h : Retains id world after) : Explains id returned world after :=
  fun resource hforgotten => .inl (h.forgotten resource hforgotten)

/-- The pool checks its process first. -/
theorem of_checkOwner (hid : id < world.pools.length)
    (hnoted : (after.pool id).notedPid = ((world.checkOwner id).pool id).notedPid)
    (hforgotten : ∀ resource, after.isForgotten resource = true →
      (world.checkOwner id).isForgotten resource = true ∨ ∃ lease, returned = some lease ∧
        lease.resource = resource ∧ lease.owner.pid ≠ world.currentPid id) :
    Explains id returned world after := by
  intro resource hafter
  rcases hforgotten resource hafter with hchecked | hreturned
  · by_cases hpid : world.currentPid id = (world.pool id).notedPid
    · rw [checkOwner_of_eq hpid] at hchecked
      exact .inl hchecked
    · have hnow : (after.pool id).notedPid = world.currentPid id := by
        rw [hnoted, checkOwner_notedPid hid, currentPid_checkOwner hid]
      rw [checkOwner_of_ne hpid, reset, if_pos rfl] at hchecked
      rcases isForgotten_or_mem_of_forgetAll hchecked with hold | hidle
      · exact .inl hold
      · exact .inr (.inl ⟨hidle, Ne.symm hpid, hnow⟩)
  · exact .inr (.inr hreturned)

theorem of_retains_checkOwner (hid : id < world.pools.length)
    (h : Retains id (world.checkOwner id) after) : Explains id returned world after :=
  of_checkOwner hid h.noted fun resource hafter => .inl (h.forgotten resource hafter)

/-- Before the operation nothing happened that matters to the pool. -/
theorem of_before (h : Explains id returned middle after)
    (hidle : (middle.pool id).idle = (world.pool id).idle)
    (hnoted : (middle.pool id).notedPid = (world.pool id).notedPid)
    (hcurrent : middle.currentPid id = world.currentPid id)
    (hforgotten : ∀ resource, middle.isForgotten resource = true →
      world.isForgotten resource = true ∨ ∃ lease, returned = some lease ∧
        lease.resource = resource ∧ lease.owner.pid ≠ world.currentPid id) :
    Explains id returned world after := by
  intro resource hafter
  rcases h resource hafter with hmiddle | ⟨hmem, hpending, hnow⟩ | ⟨lease, hlease, heq, hpid⟩
  · rcases hforgotten resource hmiddle with hold | hreturned
    · exact .inl hold
    · exact .inr (.inr hreturned)
  · rw [hidle] at hmem
    rw [hnoted, hcurrent] at hpending
    rw [hcurrent] at hnow
    exact .inr (.inl ⟨hmem, hpending, hnow⟩)
  · rw [hcurrent] at hpid
    exact .inr (.inr ⟨lease, hlease, heq, hpid⟩)

theorem acquire (hid : id < world.pools.length) (patience : Patience) :
    Explains id returned world (world.acquire id patience purpose).1 :=
  of_retains_checkOwner hid (.acquire patience)

/-- The same with all pools and pids untouched. -/
theorem of_pools (h : Explains id returned middle after) (hpools : middle.pools = world.pools)
    (hpids : middle.pids = world.pids)
    (hforgotten : ∀ resource, middle.isForgotten resource = true →
      world.isForgotten resource = true ∨ ∃ lease, returned = some lease ∧
        lease.resource = resource ∧ lease.owner.pid ≠ world.currentPid id) :
    Explains id returned world after := by
  refine h.of_before ?_ ?_ ?_ hforgotten
  · rw [pool_congr hpools]
  · rw [pool_congr hpools]
  · exact currentPid_congr hpids (congrArg Pool.process (pool_congr hpools))

theorem afterDiscard (hid : id < world.pools.length) (sequel : Sequel) :
    Explains id returned world (world.afterDiscard id sequel).1 := by
  cases sequel with
  | finish => exact of_retains (.refl world)
  | retry policy retries failure =>
      unfold World.afterDiscard
      dsimp only
      split
      · exact of_retains (.refl world)
      · split
        · refine of_pools (acquire ?_ _) rfl rfl fun _ => .inl
          exact hid
        · exact of_retains (.note _)

theorem awaitAttempt (hid : id < world.pools.length) (due : Instant) (policy : RetryPolicy)
    (retries : UInt32) :
    Explains id returned world (world.awaitAttempt id due policy retries).1 := by
  unfold World.awaitAttempt
  split
  · exact acquire hid _
  · exact of_retains (.refl world)

theorem discard (hid : id < world.pools.length) (lease : Lease) (sequel : Sequel) :
    Explains id (some lease) world (world.discard id lease sequel).1 := by
  unfold World.discard
  split
  · next hpid =>
    have hid' : id < (world.forget lease.resource).pools.length := hid
    refine (afterDiscard hid' sequel).of_pools rfl rfl fun resource hforgotten => ?_
    rcases isForgotten_or_eq_of_forget hforgotten with hold | rfl
    · exact .inl hold
    · exact .inr ⟨lease, rfl, rfl, hpid⟩
  · split
    · have hletGo : Retains id world _ :=
        (Retains.note (.foreignDiscarded id lease.owner.pool)).trans (.letGo lease.resource)
      refine of_pools (afterDiscard ?_ sequel) letGo_pools letGo_pids
        fun resource hforgotten => .inl (hletGo.forgotten resource hforgotten)
      rw [letGo_pools]
      exact hid
    · exact of_retains (.note _)

theorem restoreVacant (h : Explains id returned (world.restoreVacant id owner) after) :
    Explains id returned world after := by
  have hretains : Retains id world (world.restoreVacant id owner) := .restoreVacant owner
  refine h.of_before ?_ hretains.noted ?_
    fun resource hforgotten => .inl (hretains.forgotten resource hforgotten)
  · refine view_modifyPool Pool.idle fun pool => ?_
    rw [Pool.idle, Pool.idleFromBottom_restoreVacant, Pool.idle]
  · refine currentPid_congr rfl (view_modifyPool Pool.process fun pool => ?_)
    obtain ⟨free, leased, stale, heq⟩ := pool.restoreVacant_eq owner
    rw [heq]

/-- A discarded resource is let go and its slot comes back before the operation goes on. -/
theorem discarded (hid : id < world.pools.length) (resource : ResourceId) (sequel : Sequel)
    (failure : Option Failure) :
    Explains id returned world (world.discarded id owner resource sequel failure).1 := by
  have hclosed : Retains id world ((world.noteClose resource failure).letGo resource) :=
    (Retains.noteClose resource failure).trans (.letGo resource)
  have hpools : ((world.noteClose resource failure).letGo resource).pools = world.pools :=
    letGo_pools.trans noteClose_pools
  have hpids : ((world.noteClose resource failure).letGo resource).pids = world.pids := by
    rw [letGo_pids]
    cases failure <;> rfl
  refine of_pools (restoreVacant (afterDiscard ?_ sequel)) hpools hpids
    fun asked hforgotten => .inl (hclosed.forgotten asked hforgotten)
  rw [World.restoreVacant, length_modifyPool, World.emit, hpools]
  exact hid

/-- Only a lease of another process is forgotten when it is released. -/
theorem release (hosts : world.Hosts id) (lease : Lease) :
    Explains id (some lease) world (world.release id lease) := by
  have hnow : ((world.checkOwner id).pool id).owner.pid = world.currentPid id :=
    hosts.owner_pid_checkOwner.trans (currentPid_checkOwner hosts.lt)
  have hreturn : Retains id (world.checkOwner id)
      ((world.checkOwner id).noteReturn id lease.owner) := .noteReturn lease.owner
  unfold World.release
  dsimp only
  split
  · by_cases hpid : lease.owner.pid =
        (((world.checkOwner id).noteReturn id lease.owner).pool id).owner.pid
    · obtain ⟨notice, haway⟩ := turnAway_of_pid_eq _ id hpid
      rw [haway]
      exact of_retains_checkOwner hosts.lt (hreturn.trans
        ((Retains.modifyPool fun pool => pool.notedPid_reclaim _).trans
          ((Retains.note notice).trans (.letGo lease.resource))))
    · obtain ⟨notice, haway⟩ := turnAway_of_pid_ne _ id hpid
      rw [haway]
      rw [pool_noteReturn, hnow] at hpid
      refine of_checkOwner hosts.lt hreturn.noted fun resource hforgotten => ?_
      rcases isForgotten_or_eq_of_forget hforgotten with hold | rfl
      · exact .inl (hreturn.forgotten resource hold)
      · exact .inr ⟨lease, rfl, rfl, hpid⟩
  · split
    · exact of_retains_checkOwner hosts.lt
        (hreturn.trans (.modifyPool fun pool => Pool.notedPid_push _))
    · have hleased : Retains id ((world.checkOwner id).noteReturn id lease.owner)
          (((world.checkOwner id).noteReturn id lease.owner).modifyPool id
            fun pool => { pool with leased := pool.leased - 1 }) := .modifyPool fun _ => rfl
      exact of_retains_checkOwner hosts.lt
        (hreturn.trans (hleased.trans ((Retains.note _).trans (.letGo lease.resource))))

theorem broke (hosts : world.Hosts id) (lease : Lease) (policy : RetryPolicy) (retries : UInt32)
    (failure : Failure) :
    Explains id (some lease) world (world.broke id lease policy retries failure).1 := by
  unfold World.broke
  split
  · exact discard hosts.lt lease _
  · exact release hosts lease

theorem begin (hosts : world.Hosts id) (call : Call) :
    Explains id call.lease? world (world.begin id call).1 := by
  cases call with
  | acquire | run => exact acquire hosts.lt _
  | release lease => exact (release (hosts.part lease) lease).of_pools rfl rfl fun _ => .inl
  | discard lease =>
      exact (discard (hosts.part lease).lt lease .finish).of_pools rfl rfl fun _ => .inl
  | disconnectAll => exact of_retains_checkOwner hosts.lt .disconnectAll
  | invalidate =>
      exact fun resource hforgotten => .inl (isForgotten_invalidate.symm.trans hforgotten)
  | closeIdle | evictExpired => exact of_retains_checkOwner hosts.lt (.sweep _)

theorem resume {task : Task} {reply : Reply} (hosts : world.Hosts task.pool)
    (h : world.resume task reply = some result) :
    Explains task.pool task.lease? world result.1 := by
  unfold World.resume at h
  split at h <;> cases h
  · exact of_retains (.validated _ _)
  · exact of_retains (.replaced _ _)
  · exact of_retains (.created _)
  · exact of_retains (.notCreated _)
  · exact release hosts _
  · exact broke hosts _ _ _ _
  · exact discarded hosts.lt _ _ _
  · exact of_retains (.disconnected _ _ _ _ _)
  · exact of_retains (.swept _ _ _ _)

theorem wake {task : Task} (hosts : world.Hosts task.pool)
    (h : world.wake task = some result) : Explains task.pool none world result.1 := by
  unfold World.wake at h
  split at h <;> cases h
  · exact of_retains (.awaitSlot _ _)
  · exact awaitAttempt hosts.lt _ _ _

end Explains

end World

namespace System

variable {system next final : System} {event : Event} {events : List Event} {id : PoolId}
  {resource : ResourceId} {lease : Lease} {task? : Option Task} {progress : Progress}

/-- The lease that comes back with an event: a call gives it back, or the work on it ends. -/
def returned? (system : System) : Event → Option Lease
  | .call _ call => call.lease?
  | .reply place _ => system.tasks[place]?.bind Task.lease?
  | _ => none

/-- A resource is forgotten in a step of an operation that forsakes it. -/
theorem step?_forsakes (reach : system.Reachable) (hstep : system.step? event = some next)
    (hbefore : system.world.isForgotten resource = false)
    (hafter : next.world.isForgotten resource = true) : ∃ id, system.agent? event = some id ∧
      World.Forsakes id (system.returned? event) system.world next.world resource := by
  have hosted := hosted_of_fits (reachable_fits reach)
  have hnew : ∀ {id returned}, World.Explains id returned system.world next.world →
      World.Forsakes id returned system.world next.world resource := by
    intro id returned hexplains
    rcases hexplains resource hafter with hold | hforsakes
    · rw [hbefore] at hold
      cases hold
    · exact hforsakes
  have hsame : system.world.isForgotten resource ≠ true := by
    rw [hbefore]
    exact Bool.false_ne_true
  cases event with
  | call id call =>
      refine ⟨id, rfl, hnew ?_⟩
      rw [world_of_call hstep]
      exact .begin (hosted.pools id (of_call hstep).1) call
  | reply place reply =>
      obtain ⟨task, htask, h⟩ := Option.bind_eq_some_iff.1 hstep
      obtain ⟨result, hresume, rfl⟩ := Option.map_eq_some_iff.1 h
      have hosts := hosted.tasks task (List.mem_of_getElem? htask)
      refine ⟨task.pool, by rw [agent?, htask, Option.map_some], hnew ?_⟩
      rw [returned?, htask, Option.bind_some, world_settle]
      exact .resume hosts hresume
  | wake place =>
      obtain ⟨task, htask, h⟩ := Option.bind_eq_some_iff.1 hstep
      obtain ⟨result, hwake, rfl⟩ := Option.map_eq_some_iff.1 h
      have hosts := hosted.tasks task (List.mem_of_getElem? htask)
      refine ⟨task.pool, by rw [agent?, htask, Option.map_some], hnew ?_⟩
      rw [world_settle]
      exact .wake hosts hwake
  | drop lease =>
      simp only [step?, Option.ite_none_right_eq_some] at hstep
      obtain ⟨-, ⟨⟩⟩ := hstep
      exact absurd (World.isForgotten_letGo.symm.trans hafter) hsame
  | fork | advance =>
      cases hstep
      exact absurd hafter hsame

/-- What becomes true along a run does so in one of its steps. -/
theorem exists_step (holds : System → Prop) (hrun : system.run? events = some final)
    (hstart : ¬ holds system) (hend : holds final) : ∃ earlier event later before next,
      events = earlier ++ event :: later ∧ system.run? earlier = some before ∧
        before.step? event = some next ∧ ¬ holds before ∧ holds next := by
  induction events generalizing system with
  | nil =>
      cases hrun
      exact absurd hend hstart
  | cons event rest ih =>
      obtain ⟨middle, hstep, hrest⟩ := Option.bind_eq_some_iff.1 hrun
      by_cases hmiddle : holds middle
      · exact ⟨[], event, rest, system, middle, rfl, rfl, hstep, hstart, hmiddle⟩
      · obtain ⟨earlier, last, later, before, next, rfl, hbefore, hlast⟩ := ih hrest hmiddle
        exact ⟨event :: earlier, last, later, before, next, rfl,
          (run?_cons hstep earlier).trans hbefore, hlast⟩

/-- The resources of idle entries and of leases are in their places. -/
theorem idle_add_leases_le_owned (system : System) :
    system.world.idle + ↑(system.leases.map (·.resource)) ≤ system.scene.owned := by
  have htasks : ∀ tasks : List Task, (↑((tasks.filterMap Task.lease?).map (·.resource)) :
      Multiset ResourceId) ≤ (handOf tasks).filterMap Holding.owned? := by
    intro tasks
    induction tasks with
    | nil => exact Multiset.zero_le _
    | cons task rest ih =>
        have hhand : handOf (task :: rest) = task.holdings + handOf rest := rfl
        rw [hhand, Multiset.filterMap_add]
        cases task with
        | working pool lease policy retries =>
            exact add_le_add (Multiset.le_iff_count.2 fun _ => Nat.le_refl _) ih
        | waiting | validating | replacing | creating | discarding | pausing | disconnecting
        | sweeping => exact ih.trans (Multiset.le_add_left _ _)
  rw [leases, List.map_append, ← Multiset.coe_add, Scene.owned]
  exact add_le_add_right (add_le_add_right (htasks system.tasks) _) _

/-- An acquisition lends a resource that lies nowhere idle and that no other lease lends. -/
theorem Turn.lent_once (reach : system.Reachable) (turn : system.Turn id event task? next progress)
    (hlent : progress.lent? = some lease) :
    next.world.idle.count lease.resource = 0 ∧
      (next.leases.map (·.resource)).count lease.resource = 1 ∧
      next.world.destructions lease.resource = 0 ∧
      next.world.isForgotten lease.resource = false := by
  have kept : next.world.Kept next.scene.owned next.scene.gripped :=
    reachable_kept (reach.step? turn.step?)
  have hplaces := Multiset.le_iff_count.1 (idle_add_leases_le_owned next) lease.resource
  have hlease : 0 < (next.leases.map (·.resource)).count lease.resource :=
    List.count_pos_iff.2 (List.mem_map_of_mem (turn.mem_leases hlent))
  have hsingle := kept.single lease.resource
  have hholders := kept.holders lease.resource
  rw [Multiset.count_add, Multiset.coe_count] at hplaces
  refine ⟨by omega, by omega, kept.destructions_eq_zero (by omega), ?_⟩
  exact kept.isForgotten_eq_false (Multiset.count_pos.1 (by omega))

/-- Between operations a resource is in one condition. -/
theorem one_fate (reach : system.Reachable) (hquiet : system.IsQuiet)
    (hlt : resource < system.world.resources.length) :
    system.world.idle.count resource + (system.world.held.map (·.resource)).count resource +
      system.world.destructions resource +
      (if system.world.isForgotten resource then 1 else 0) = 1 := by
  have hhand : handOf system.tasks = 0 := by
    rw [hquiet]
    rfl
  have kept : system.world.Kept system.scene.owned system.scene.gripped := reachable_kept reach
  have howned : system.scene.owned.count resource = system.world.idle.count resource +
      (system.world.held.map (·.resource)).count resource := by
    rw [Scene.owned, scene, hhand, Multiset.filterMap_zero, add_zero, Multiset.count_add,
      Multiset.coe_count]
  have hgripped : system.scene.gripped.count resource = 0 := by
    rw [Scene.gripped, scene, hhand, Multiset.filterMap_zero, Multiset.count_zero]
  have hholders := kept.holders resource
  have hsingle := kept.single resource
  have hdestroyed := kept.destroyed resource
  rw [howned] at hholders hsingle
  rw [hgripped, Nat.add_zero] at hholders
  by_cases hnone : system.world.holdersOf resource = 0
  · rw [if_pos ⟨hlt, hnone⟩] at hdestroyed
    omega
  · rw [if_neg (fun h => hnone h.2)] at hdestroyed
    omega

/-- Exclusive ownership. Between operations each resource is idle in one slot of the pool that made
it, or held by one lease, or destroyed, once, or forgotten, and that in a step that forsakes it; and
whenever a resource is lent, it lies nowhere idle and no other lease lends it. -/
theorem fates {pids : List Pid} {pools : List (ProcessId × Config)}
    (hrun : (init pids pools).run? events = some system) :
    (system.IsQuiet → ∀ resource < system.world.resources.length,
      system.world.idle.count resource + (system.world.held.map (·.resource)).count resource +
          system.world.destructions resource +
          (if system.world.isForgotten resource then 1 else 0) = 1 ∧
        (∀ id < system.world.pools.length, resource ∈ (system.world.pool id).idle →
          system.world.Made id resource) ∧
        (system.world.isForgotten resource = true → ∃ earlier event later before next id,
          events = earlier ++ event :: later ∧ (init pids pools).run? earlier = some before ∧
            before.step? event = some next ∧ before.agent? event = some id ∧
            World.Forsakes id (before.returned? event) before.world next.world resource)) ∧
    ∀ id event task? next progress lease, system.Turn id event task? next progress →
      progress.lent? = some lease →
        next.world.idle.count lease.resource = 0 ∧
          (next.leases.map (·.resource)).count lease.resource = 1 ∧
          next.world.destructions lease.resource = 0 ∧
          next.world.isForgotten lease.resource = false := by
  have hinit : (init pids pools).Reachable := ⟨pids, pools, [], rfl⟩
  have reach : system.Reachable := ⟨pids, pools, events, hrun⟩
  refine ⟨fun hquiet resource hlt => ⟨one_fate reach hquiet hlt, ?_, ?_⟩, ?_⟩
  · intro id hid hidle
    have hfits := (reachable_fits reach).pools.pool hid
    exact ⟨_, hfits.idle resource hidle, hfits.pool_eq⟩
  · intro hforgotten
    have hstart : ¬ (init pids pools).world.isForgotten resource = true := by
      rw [World.isForgotten, init_resources]
      exact Bool.false_ne_true
    obtain ⟨earlier, event, later, before, next, heq, hbefore, hstep, hnot, hnow⟩ :=
      exists_step (fun current => current.world.isForgotten resource = true) hrun hstart hforgotten
    obtain ⟨id, hagent, hforsakes⟩ := step?_forsakes (hinit.run? hbefore) hstep
      (Bool.eq_false_iff.2 hnot) hnow
    exact ⟨earlier, event, later, before, next, id, heq, hbefore, hstep, hagent, hforsakes⟩
  · exact fun id event task? next progress lease turn hlent => turn.lent_once reach hlent

/-- An idle resource is forgotten when the pool notices another process. -/
theorem fates_of_fork : ∃ system,
    (init [7] [(0, Config.ofSize 1)]).run?
        [.call 0 (.acquire none), .reply 0 (.created "db"),
          .call 0 (.release ⟨0, ⟨0, 7, 0⟩, 0⟩), .fork 0 8, .call 0 .closeIdle] = some system ∧
      system.world.isForgotten 0 = true ∧ system.world.destructions 0 = 0 := by
  refine exists_run? rfl fun system hrun => ?_
  have hquiet : system.IsQuiet := by
    cases hrun
    rfl
  have hlt : 0 < system.world.resources.length := by
    cases hrun
    decide
  have hforgotten : system.world.isForgotten 0 = true := by
    cases hrun
    decide
  have hone := ((fates hrun).1 hquiet 0 hlt).1
  rw [if_pos hforgotten] at hone
  exact ⟨hforgotten, by omega⟩

end System
end LeasePool
