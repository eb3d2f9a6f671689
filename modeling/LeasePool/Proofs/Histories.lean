import LeasePool.Proofs.Counters
import LeasePool.Proofs.Dialogues
import LeasePool.Proofs.Provenance

/-!
Histories of resources. A book is kept along a run of when each resource was made and when it was
last released. The instants that travel with a resource through leases and idle entries are those in
the book: the instant of its making is handed on unchanged, and the instant since when it lies idle
is that of the release that put it there.
-/

namespace LeasePool

variable {id : PoolId}

/-- The entry of a free list that a lease becomes when it is released. -/
def Lease.asIdle (lease : Lease) (now : Instant) : IdleResource :=
  ⟨lease.resource, lease.createdAt, now⟩

def Call.released? : Call → Option Lease
  | .release lease => some lease
  | _ => none

/-- The lease that a unit of work releases when it is done, or failed without harm to the
resource. -/
def Task.released? : Task → Reply → Option Lease
  | .working _ lease _ _, .worked _ => some lease
  | .working _ lease policy _, .broke failure =>
      if policy.shouldDiscard failure then none else some lease
  | _, _ => none

def System.released? (system : System) : Event → Option Lease
  | .call _ call => call.released?
  | .reply place reply => system.tasks[place]?.bind fun task => task.released? reply
  | _ => none

/-- The idle resources of the pool were there before, apart from one that was perhaps put away. -/
structure Pool.Stows (added : Option IdleResource) (pool after : Pool) : Prop where
  idle : ∀ entry, .idle entry ∈ after.free → .idle entry ∈ pool.free ∨ added = some entry
  config_eq : after.config = pool.config

namespace Pool

variable {pool after : Pool} {added : Option IdleResource}

theorem Stows.of_free (hfree : after.free = pool.free) (hconfig : after.config = pool.config) :
    pool.Stows added after :=
  ⟨fun _ hmem => .inl (hfree ▸ hmem), hconfig⟩

theorem stows_push (pool : Pool) (slot : Slot) : pool.Stows slot.idle? (pool.push slot) := by
  unfold push
  split
  · refine ⟨fun entry hmem => ?_, rfl⟩
    rcases List.mem_cons.1 hmem with rfl | hold
    · exact .inr rfl
    · exact .inl hold
  · exact .of_free rfl rfl

theorem stows_reclaim (pool : Pool) (owner : Owner) : pool.Stows none (pool.reclaim owner) := by
  unfold reclaim
  split
  · have hpush := stows_push { pool with staleLeased := pool.staleLeased - 1 } .vacant
    exact ⟨hpush.idle, hpush.config_eq⟩
  · exact .of_free rfl rfl

theorem stows_giveBack (pool : Pool) (slot : Slot) :
    pool.Stows slot.idle? (pool.giveBack slot) := by
  have hpush := stows_push { pool with leased := pool.leased - 1 } slot
  exact ⟨hpush.idle, hpush.config_eq⟩

theorem stows_restoreVacant (pool : Pool) (owner : Owner) :
    pool.Stows none (pool.restoreVacant owner) := by
  unfold restoreVacant
  split
  · exact stows_giveBack pool .vacant
  · exact stows_reclaim pool owner

theorem stows_take (pool : Pool) : pool.Stows none pool.take :=
  ⟨fun _ hmem => .inl (List.mem_of_mem_tail hmem), rfl⟩

theorem stows_vacate (pool : Pool) (takes : IdleResource → Bool) :
    pool.Stows none (pool.vacate takes) := by
  refine ⟨fun entry hmem => .inl ?_, rfl⟩
  obtain ⟨slot, hslot, heq⟩ := List.mem_map.1 hmem
  cases slot with
  | vacant => cases heq
  | idle other =>
      dsimp only at heq
      split at heq <;> cases heq
      exact hslot

theorem stows_reset (pool : Pool) (owner : Owner) (inherited : Bool) :
    pool.Stows none (pool.reset owner inherited) := by
  refine ⟨fun entry hmem => ?_, rfl⟩
  cases (List.mem_replicate.1 hmem).2

end Pool

namespace World

variable {world middle after : World} {added : Option IdleResource} {owner : Owner}
  {purpose : Purpose} {result : World × Progress} {lease : Lease}

/-- The pool put nothing away but `added`, and no time passed. -/
structure Stows (id : PoolId) (added : Option IdleResource) (world after : World) : Prop where
  pool : (world.pool id).Stows added (after.pool id)
  clock_eq : after.clock = world.clock

namespace Stows

theorem of_pools (hpools : after.pools = world.pools) (hclock : after.clock = world.clock) :
    Stows id added world after :=
  ⟨.of_free (congrArg Pool.free (pool_congr hpools)) (congrArg Pool.config (pool_congr hpools)),
    hclock⟩

theorem refl (world : World) : Stows id added world world := of_pools rfl rfl

theorem trans (first : Stows id none world middle) (second : Stows id added middle after) :
    Stows id added world after := by
  refine ⟨⟨fun entry hmem => ?_, second.pool.config_eq.trans first.pool.config_eq⟩,
    second.clock_eq.trans first.clock_eq⟩
  rcases second.pool.idle entry hmem with hmiddle | hadded
  · exact .inl ((first.pool.idle entry hmiddle).resolve_right nofun)
  · exact .inr hadded

/-- Afterwards nothing more is put away. -/
theorem before (first : Stows id added world middle) (second : Stows id none middle after) :
    Stows id added world after := by
  refine ⟨⟨fun entry hmem => ?_, second.pool.config_eq.trans first.pool.config_eq⟩,
    second.clock_eq.trans first.clock_eq⟩
  exact first.pool.idle entry ((second.pool.idle entry hmem).resolve_right nofun)

theorem modifyPool {change : Pool → Pool} (h : ∀ pool : Pool, pool.Stows added (change pool)) :
    Stows id added world (world.modifyPool id change) := by
  by_cases hid : id < world.pools.length
  · refine ⟨?_, rfl⟩
    rw [pool_modifyPool_self hid]
    exact h _
  · refine of_pools ?_ rfl
    exact List.modify_eq_self (Nat.le_of_not_lt hid)

theorem modifyPool_of_free {change : Pool → Pool} (hfree : ∀ pool, (change pool).free = pool.free)
    (hconfig : ∀ pool, (change pool).config = pool.config) :
    Stows id none world (world.modifyPool id change) :=
  modifyPool fun pool => .of_free (hfree pool) (hconfig pool)

theorem emit (signal : Signal) : Stows id added world (world.emit signal) := of_pools rfl rfl

theorem note (notice : Notice) : Stows id added world (world.note notice) := of_pools rfl rfl

theorem letGo (resource : ResourceId) : Stows id added world (world.letGo resource) :=
  of_pools letGo_pools letGo_clock

theorem letGoAll (resources : List ResourceId) : Stows id added world (world.letGoAll resources) :=
  of_pools letGoAll_pools letGoAll_clock

theorem noteClose (resource : ResourceId) (failure : Option Failure) :
    Stows id added world (world.noteClose resource failure) := by
  cases failure <;> exact of_pools rfl rfl

theorem noteReturn (owner : Owner) : Stows id added world (world.noteReturn id owner) := by
  unfold World.noteReturn
  split <;> exact of_pools rfl rfl

theorem checkOwner : Stows id none world (world.checkOwner id) := by
  by_cases hid : id < world.pools.length
  · refine ⟨?_, checkOwner_clock⟩
    rw [pool_checkOwner hid]
    split
    · exact .of_free rfl rfl
    · exact Pool.stows_reset _ _ _
  · refine of_pools ?_ checkOwner_clock
    rw [checkOwner_pools]
    exact List.modify_eq_self (Nat.le_of_not_lt hid)

theorem invalidate : Stows id none world (world.invalidate id) := by
  have hreset : Stows id none world (world.modifyPool id fun pool =>
      pool.reset pool.owner.nextEpoch false) := modifyPool fun pool => pool.stows_reset _ _
  exact hreset.trans (of_pools invalidate_pools invalidate_clock)

theorem lend (lease : Lease) : Stows id none world (world.lend id lease purpose).1 := by
  cases purpose <;> exact of_pools rfl rfl

theorem reuse (entry : IdleResource) :
    Stows id none world (world.reuse id owner entry purpose).1 :=
  (note _).trans (lend _)

theorem takeSlot (slot : Slot) : Stows id none world (world.takeSlot id slot purpose).1 := by
  have htake : Stows id none world (world.modifyPool id Pool.take) := modifyPool Pool.stows_take
  have htaken : Stows id none world ((world.modifyPool id Pool.take).emit
      (.slotTaken ((world.modifyPool id Pool.take).pool id).owner)) := htake.trans (emit _)
  cases slot with
  | vacant => exact htaken
  | idle entry =>
      simp only [World.takeSlot]
      split
      · exact htaken.trans (note _)
      · split
        · exact htaken
        · exact htaken.trans (reuse entry)

theorem awaitSlot (patience : Patience) (since : Instant) :
    Stows id none world (world.awaitSlot id patience since purpose).1 := by
  unfold World.awaitSlot
  split
  · exact takeSlot _
  · split
    · have hgiveUp : Stows id none world (world.modifyPool id Pool.giveUp) :=
        modifyPool_of_free (fun _ => rfl) fun _ => rfl
      exact hgiveUp.trans (note _)
    · exact refl world
  · exact refl world

theorem acquire (patience : Patience) :
    Stows id none world (world.acquire id patience purpose).1 := by
  have henqueue : Stows id none (world.checkOwner id)
      ((world.checkOwner id).modifyPool id Pool.enqueue) :=
    modifyPool_of_free (fun _ => rfl) fun _ => rfl
  exact checkOwner.trans (henqueue.trans (awaitSlot patience _))

theorem validated (entry : IdleResource) (isValid : Bool) :
    Stows id none world (world.validated id owner entry purpose isValid).1 := by
  unfold World.validated
  split
  · exact reuse entry
  · exact note _

theorem replaced (resource : ResourceId) (failure : Option Failure) :
    Stows id none world (world.replaced id owner resource purpose failure).1 :=
  (noteClose resource failure).trans (letGo resource)

theorem created (kind : String) :
    Stows id none world (world.created id owner purpose kind).1 := by
  have henroll : Stows id none (world.addResource kind owner)
      ((world.addResource kind owner).modifyPool id fun pool =>
        pool.enroll owner (world.addResource kind owner).isAlive world.resources.length) :=
    modifyPool fun pool => .of_free (pool.free_enroll _ _ _) (Pool.Steady.enroll _ _ _).config_eq
  have hadd : Stows id none world (world.addResource kind owner) := of_pools rfl rfl
  exact hadd.trans (henroll.trans ((note _).trans (lend _)))

theorem restoreVacant (owner : Owner) : Stows id none world (world.restoreVacant id owner) :=
  (emit (.slotReturned owner)).trans (modifyPool fun pool => pool.stows_restoreVacant owner)

theorem notCreated (failure : Failure) :
    Stows id none world (world.notCreated id owner failure).1 := by
  have hcount : Stows id none world (world.modifyPool id Pool.countFailure) :=
    modifyPool_of_free (fun _ => rfl) fun _ => rfl
  exact hcount.trans ((note _).trans (restoreVacant owner))

theorem turnAway (lease : Lease) : Stows id none world (world.turnAway id lease) := by
  by_cases hpid : lease.owner.pid = (world.pool id).owner.pid
  · obtain ⟨notice, haway⟩ := turnAway_of_pid_eq world id hpid
    have hreclaim : Stows id none world
        (world.modifyPool id fun pool => pool.reclaim lease.owner) :=
      modifyPool fun pool => pool.stows_reclaim lease.owner
    rw [haway]
    exact hreclaim.trans ((note notice).trans (letGo _))
  · obtain ⟨notice, haway⟩ := turnAway_of_pid_ne world id hpid
    rw [haway]
    exact of_pools rfl rfl

/-- A release puts the resource of the lease away, if anything. -/
theorem release (lease : Lease) :
    Stows id (some (lease.asIdle world.clock)) world (world.release id lease) := by
  have hchecked : Stows id none world ((world.checkOwner id).noteReturn id lease.owner) :=
    checkOwner.trans (noteReturn lease.owner)
  simp only [World.release]
  split
  · exact hchecked.trans ((refl _).before (turnAway lease))
  · split
    · rw [hchecked.clock_eq]
      exact hchecked.trans
        (modifyPool fun pool => pool.stows_giveBack (.idle (lease.asIdle world.clock)))
    · have hleased : Stows id none ((world.checkOwner id).noteReturn id lease.owner)
          (((world.checkOwner id).noteReturn id lease.owner).modifyPool id
            fun pool => { pool with leased := pool.leased - 1 }) :=
        modifyPool_of_free (fun _ => rfl) fun _ => rfl
      exact hchecked.trans (hleased.trans ((note _).trans (letGo _)))

theorem afterDiscard (sequel : Sequel) :
    Stows id none world (world.afterDiscard id sequel).1 := by
  cases sequel with
  | finish => exact refl world
  | retry policy retries failure =>
      simp only [World.afterDiscard]
      split
      · exact refl world
      · split
        · exact (note _).trans (acquire _)
        · exact note _

theorem awaitAttempt (due : Instant) (policy : RetryPolicy) (retries : UInt32) :
    Stows id none world (world.awaitAttempt id due policy retries).1 := by
  simp only [World.awaitAttempt]
  split
  · exact acquire _
  · exact refl world

theorem discard (lease : Lease) (sequel : Sequel) :
    Stows id none world (world.discard id lease sequel).1 := by
  have hforget : Stows id none world (world.forget lease.resource) := of_pools rfl rfl
  simp only [World.discard]
  split
  · exact hforget.trans (afterDiscard sequel)
  · split
    · exact (note _).trans ((letGo _).trans (afterDiscard sequel))
    · exact note _

theorem discarded (resource : ResourceId) (sequel : Sequel) (failure : Option Failure) :
    Stows id none world (world.discarded id owner resource sequel failure).1 :=
  (noteClose resource failure).trans
    ((letGo resource).trans ((restoreVacant owner).trans (afterDiscard sequel)))

theorem disconnectNext (free rest : List ResourceId) (closed : Nat) :
    Stows id none world (world.disconnectNext id free closed rest).1 := by
  induction rest with
  | nil => exact (letGoAll free).trans (note _)
  | cons resource rest ih =>
      simp only [World.disconnectNext]
      split
      · exact of_pools rfl rfl
      · exact ih

theorem disconnectAll : Stows id none world (world.disconnectAll id).1 := by
  have htear : Stows id none (world.checkOwner id)
      ((world.checkOwner id).modifyPool id Pool.tearDown) :=
    modifyPool fun pool => ⟨fun _ hmem => absurd hmem List.not_mem_nil, rfl⟩
  exact checkOwner.trans (htear.trans (disconnectNext _ _ _))

theorem sweepNext (taken rest : List ResourceId) :
    Stows id none world (world.sweepNext id taken rest).1 := by
  cases rest with
  | cons resource rest => exact refl world
  | nil =>
      simp only [World.sweepNext]
      split
      · exact letGoAll taken
      · exact (note _).trans (letGoAll taken)

theorem sweep (takes : Pool → IdleResource → Bool) :
    Stows id none world (world.sweep id takes).1 := by
  have hvacate : Stows id none (world.checkOwner id) ((world.checkOwner id).modifyPool id
      fun pool => pool.vacate (takes pool)) := modifyPool fun pool => pool.stows_vacate _
  exact checkOwner.trans (hvacate.trans (sweepNext _ _))

theorem broke (lease : Lease) (policy : RetryPolicy) (retries : UInt32) (failure : Failure) :
    Stows id (((Task.working id lease policy retries).released? (.broke failure)).map
      (·.asIdle world.clock)) world (world.broke id lease policy retries failure).1 := by
  simp only [World.broke, Task.released?]
  split
  · exact discard lease _
  · exact release lease

theorem begin (call : Call) :
    Stows id (call.released?.map (·.asIdle world.clock)) world (world.begin id call).1 := by
  cases call with
  | acquire | run => exact acquire _
  | release lease =>
      have hpart : Stows id none world (world.part lease) := of_pools rfl rfl
      have hrelease : Stows id (some (lease.asIdle (world.part lease).clock)) (world.part lease)
          ((world.part lease).release id lease) := release lease
      exact hpart.trans hrelease
  | discard lease =>
      have hpart : Stows id none world (world.part lease) := of_pools rfl rfl
      exact hpart.trans (discard lease .finish)
  | disconnectAll => exact disconnectAll
  | invalidate => exact invalidate
  | closeIdle | evictExpired => exact sweep _

theorem resume {task : Task} {reply : Reply} (h : world.resume task reply = some result) :
    Stows task.pool ((task.released? reply).map (·.asIdle world.clock)) world result.1 := by
  unfold World.resume at h
  split at h <;> cases h
  · exact validated _ _
  · exact replaced _ _
  · exact created _
  · exact notCreated _
  · exact release _
  · exact broke _ _ _ _
  · exact discarded _ _ _
  · exact (noteClose _ _).trans ((letGo _).trans (disconnectNext _ _ _))
  · exact (noteClose _ _).trans (sweepNext _ _)

theorem wake {task : Task} (h : world.wake task = some result) :
    Stows task.pool none world result.1 := by
  unfold World.wake at h
  split at h <;> cases h
  · exact awaitSlot _ _
  · exact awaitAttempt _ _ _

end Stows
end World

namespace System

variable {system next start : System} {event : Event} {events : List Event}
  {task? : Option Task} {progress : Progress} {lease : Lease} {entry : IdleResource}

/-- With a turn the pool puts away what the turn releases, and nothing else. -/
theorem Turn.stows (turn : system.Turn id event task? next progress) :
    World.Stows id ((system.released? event).map (·.asIdle system.world.clock)) system.world
      next.world := by
  cases turn with
  | @call id call result h =>
      obtain rfl := World.eq_begin_of_call h
      rw [world_settle]
      exact .begin call
  | reply htask h =>
      rw [world_settle, released?, htask, Option.bind_some]
      exact .resume h
  | wake htask h =>
      rw [world_settle]
      exact .wake h

/-- Only a lease that someone has is released. -/
theorem mem_leases_of_released? (hstep : system.step? event = some next)
    (hreleased : system.released? event = some lease) : lease ∈ system.leases := by
  cases event with
  | call id call =>
      cases call with
      | release given =>
          cases hreleased
          exact List.mem_append_left _ ((of_call hstep).2.1 lease rfl)
      | acquire | discard | disconnectAll | invalidate | closeIdle | evictExpired | run =>
          cases hreleased
  | reply place reply =>
      obtain ⟨task, htask, hlease⟩ := Option.bind_eq_some_iff.1 hreleased
      have hworking : task.lease? = some lease := by
        unfold Task.released? at hlease
        split at hlease
        · exact hlease
        · split at hlease
          · cases hlease
          · exact hlease
        · cases hlease
      exact List.mem_append_right _
        (List.mem_filterMap.2 ⟨task, List.mem_of_getElem? htask, hworking⟩)
  | wake | drop | fork | advance => cases hreleased

/-- A resource that someone has a lease of does not lie idle. -/
theorem resource_ne_of_idle (reach : system.Reachable) (hid : id < system.world.pools.length)
    (hidle : .idle entry ∈ (system.world.pool id).free) (hmem : lease ∈ system.leases) :
    entry.resource ≠ lease.resource := by
  intro heq
  have kept : system.world.Kept system.scene.owned system.scene.gripped := reachable_kept reach
  have hplaces := Multiset.le_iff_count.1 (idle_add_leases_le_owned system) lease.resource
  have hsingle := kept.single lease.resource
  have hlease : 0 < (system.leases.map (·.resource)).count lease.resource :=
    List.count_pos_iff.2 (List.mem_map_of_mem hmem)
  have hentry : 0 < system.world.idle.count lease.resource := by
    apply Multiset.count_pos.2
    apply World.mem_idle.2
    refine ⟨_, List.mem_of_getElem? (World.getElem?_pools hid), ?_⟩
    rw [← heq]
    exact List.mem_filterMap.2 ⟨_, List.mem_reverse.2 hidle, rfl⟩
  rw [Multiset.count_add, Multiset.coe_count] at hplaces
  omega

/-- The tasks after a turn are others that were there before and what is left of the operation. -/
theorem Turn.mem_tasks_or {task : Task} (turn : system.Turn id event task? next progress)
    (hmem : task ∈ next.tasks) : task ∈ system.tasks ∨ progress = .pending task := by
  have hsettle : ∀ {others result}, task ∈ (settle others result).tasks →
      task ∈ others ∨ result.2 = .pending task := by
    intro others result hmem
    obtain ⟨world, _ | left⟩ := result
    · exact .inl hmem
    · rcases List.mem_cons.1 hmem with rfl | hothers
      · exact .inr rfl
      · exact .inl hothers
  cases turn with
  | call h => exact hsettle hmem
  | reply htask h | wake htask h => exact (hsettle hmem).imp_left List.mem_of_mem_eraseIdx

theorem mem_of_mem_taken {held : List Lease} (hmem : lease ∈ event.taken?.elim held held.erase) :
    lease ∈ held := by
  cases htaken : event.taken? with
  | none => rwa [htaken] at hmem
  | some taken =>
      rw [htaken] at hmem
      exact List.mem_of_mem_erase hmem

/-- The leases after a turn are some from before and the one that the turn came to. -/
theorem Turn.mem_leases_or (turn : system.Turn id event task? next progress)
    (hmem : lease ∈ next.leases) : lease ∈ system.leases ∨ progress.lent? = some lease := by
  rcases List.mem_append.1 hmem with hheld | hworking
  · rw [turn.delivers.held_eq] at hheld
    rcases List.mem_append.1 hheld with hdelivered | hbefore
    · refine .inr ?_
      unfold Progress.delivered at hdelivered
      split at hdelivered
      · next heq =>
        rw [List.mem_singleton.1 hdelivered]
        exact congrArg Progress.lent? heq
      · cases hdelivered
    · exact .inl (List.mem_append_left _ (mem_of_mem_taken hbefore))
  · obtain ⟨task, htask, hlease⟩ := List.mem_filterMap.1 hworking
    rcases turn.mem_tasks_or htask with hbefore | rfl
    · exact .inl (List.mem_append_right _ (List.mem_filterMap.2 ⟨task, hbefore, hlease⟩))
    · refine .inr ?_
      cases task with
      | working => exact hlease
      | waiting | validating | replacing | creating | discarding | pausing | disconnecting
      | sweeping => cases hlease

/-- The instants at which resources were made and at which they were last released. -/
structure Book where
  made : ResourceId → Option Instant
  released : ResourceId → Option Instant

/-- The book after an event: the instant is entered for a resource that the event makes and for one
that it releases. -/
def Book.enter (book : Book) (before : System) (event : Event) (after : System) : Book where
  made resource :=
    if before.world.resources.length ≤ resource ∧ resource < after.world.resources.length then
      some before.world.clock
    else book.made resource
  released resource :=
    if (before.released? event).map (·.resource) = some resource then some before.world.clock
    else book.released resource

/-- The book after some events, if it was `book` before them. -/
def keepBook (book : Book) (system : System) : List Event → Book
  | [] => book
  | event :: rest =>
      match system.step? event with
      | some next => next.keepBook (book.enter system event next) rest
      | none => book

def book (system : System) (events : List Event) : Book :=
  system.keepBook ⟨fun _ => none, fun _ => none⟩ events

theorem book_concat {middle : System} (hrun : start.run? events = some middle)
    (hstep : middle.step? event = some next) :
    start.book (events ++ [event]) = (start.book events).enter middle event next := by
  have hkeep : ∀ book : Book, start.keepBook book (events ++ [event]) =
      (start.keepBook book events).enter middle event next := by
    induction events generalizing start with
    | nil =>
        cases hrun
        intro book
        simp [keepBook, hstep]
    | cons first rest ih =>
        obtain ⟨second, hfirst, hrest⟩ := Option.bind_eq_some_iff.1 hrun
        intro book
        simp only [List.cons_append, keepBook, hfirst]
        exact ih hrest _
  exact hkeep _

/-- The instants that go with resources are those in the book. -/
structure Recorded (system : System) (book : Book) : Prop where
  idle : ∀ id < system.world.pools.length, ∀ entry, .idle entry ∈ (system.world.pool id).free →
    book.made entry.resource = some entry.createdAt ∧
      book.released entry.resource = some entry.idleSince
  lent : ∀ lease ∈ system.leases, book.made lease.resource = some lease.createdAt
  validating : ∀ id owner entry purpose, .validating id owner entry purpose ∈ system.tasks →
    book.made entry.resource = some entry.createdAt
  made_le : ∀ resource instant, book.made resource = some instant → instant ≤ system.world.clock
  released_le : ∀ resource instant, book.released resource = some instant →
    instant ≤ system.world.clock

variable {book : Book} {resource : ResourceId}

theorem Book.made_enter_of_lt (hlt : resource < system.world.resources.length) :
    (book.enter system event next).made resource = book.made resource :=
  if_neg fun h => Nat.not_le_of_lt hlt h.1

theorem Book.released_enter_of_ne
    (hne : ∀ lease, system.released? event = some lease → lease.resource ≠ resource) :
    (book.enter system event next).released resource = book.released resource := by
  apply if_neg
  intro hsome
  obtain ⟨lease, hreleased, heq⟩ := Option.map_eq_some_iff.1 hsome
  exact hne lease hreleased heq

/-- Whatever happens, the entries for what is there before the event stay. -/
theorem Recorded.enter (h : system.Recorded book) (reach : system.Reachable)
    (hstep : system.step? event = some next) : system.Recorded (book.enter system event next) := by
  have fits := reachable_fits reach
  constructor
  · intro id hid entry hentry
    have hidle : entry.resource ∈ idleFromBottom (system.world.pool id).free :=
      List.mem_filterMap.2 ⟨_, List.mem_reverse.2 hentry, rfl⟩
    have hlt := World.lt_of_makerOf? ((fits.pools.pool hid).idle _ hidle)
    rw [Book.made_enter_of_lt hlt, Book.released_enter_of_ne]
    · exact h.idle id hid entry hentry
    · intro lease hreleased
      exact (resource_ne_of_idle reach hid hentry (mem_leases_of_released? hstep hreleased)).symm
  · intro lease hmem
    rw [Book.made_enter_of_lt (World.lt_of_makerOf? (makerOf?_of_mem_leases reach hmem))]
    exact h.lent lease hmem
  · intro id owner entry purpose htask
    have hhand : Holding.lease id owner entry.resource ∈ handOf system.tasks :=
      mem_handOf.2 ⟨_, htask, Multiset.mem_singleton_self _⟩
    rw [Book.made_enter_of_lt (World.lt_of_makerOf? (fits.hand _ hhand).2.2)]
    exact h.validating id owner entry purpose htask
  · intro resource instant hmade
    simp only [Book.enter] at hmade
    split at hmade
    · exact Nat.le_of_eq (Option.some_inj.1 hmade).symm
    · exact h.made_le resource instant hmade
  · intro resource instant hreleased
    simp only [Book.enter] at hreleased
    split at hreleased
    · exact Nat.le_of_eq (Option.some_inj.1 hreleased).symm
    · exact h.released_le resource instant hreleased

end System
end LeasePool
