import LeasePool.Proofs.Dialogues
import LeasePool.Proofs.Epochs
import LeasePool.Proofs.Provenance

/-!
Generations of owners. What a pool goes by, its owner, the pid it noted and the number of its
resets, changes in three ways only: by a reset for another process, by an invalidation, and by a
teardown. Each of them begins an epoch, so an owner that a pool has lost never comes back, even if
its pid does. A pool looks at its process when an operation begins on it, and at no other time.
-/

namespace LeasePool

/-- What a pool goes by. -/
structure Generation where
  owner : Owner
  /-- The pid that the pool noted last. -/
  notedPid : Pid
  resets : Nat
deriving DecidableEq

def Pool.generation (pool : Pool) : Generation := ⟨pool.owner, pool.notedPid, pool.resets⟩

namespace Generation

variable {generation : Generation} {pid : Pid}

/-- The pool looks at its process: it is reset if that has another pid than the one it noted. -/
def look (generation : Generation) (pid : Pid) : Generation :=
  if pid = generation.notedPid then generation
  else ⟨generation.owner.withPid pid, pid, generation.resets + 1⟩

/-- The pool is invalidated: it is reset, whatever its process is. -/
def invalidate (generation : Generation) : Generation :=
  ⟨generation.owner.nextEpoch, generation.owner.pid, generation.resets + 1⟩

def tearDown (generation : Generation) : Generation :=
  { generation with owner := generation.owner.nextEpoch }

@[simp] theorem epoch_invalidate (generation : Generation) :
    generation.invalidate.owner.epoch = generation.owner.epoch + 1 := rfl

@[simp] theorem resets_invalidate (generation : Generation) :
    generation.invalidate.resets = generation.resets + 1 := rfl

@[simp] theorem epoch_tearDown (generation : Generation) :
    generation.tearDown.owner.epoch = generation.owner.epoch + 1 := rfl

@[simp] theorem resets_tearDown (generation : Generation) :
    generation.tearDown.resets = generation.resets := rfl

theorem look_of_eq (h : pid = generation.notedPid) : generation.look pid = generation := if_pos h

theorem notedPid_look (generation : Generation) (pid : Pid) :
    (generation.look pid).notedPid = pid := by
  unfold look
  split
  · next h => exact h.symm
  · rfl

@[simp] theorem look_look (generation : Generation) (pid : Pid) :
    (generation.look pid).look pid = generation.look pid :=
  look_of_eq (notedPid_look generation pid).symm

theorem resets_look (generation : Generation) (pid : Pid) : (generation.look pid).resets =
    generation.resets + if pid = generation.notedPid then 0 else 1 := by
  unfold look
  split <;> rfl

/-- Each reset begins an epoch. -/
theorem epoch_look_add (generation : Generation) (pid : Pid) :
    (generation.look pid).owner.epoch + generation.resets =
      generation.owner.epoch + (generation.look pid).resets := by
  unfold look
  split
  · rfl
  · simp [Owner.withPid]
    omega

end Generation

variable {id agent : PoolId} {scene next : Scene}

theorem Pool.Steady.generation_eq {pool after : Pool} (h : pool.Steady after) :
    after.generation = pool.generation := by
  rw [Pool.generation, h.owner_eq, h.noted_eq, h.resets_eq, Pool.generation]

theorem World.generation_checkOwner {world : World} (hid : id < world.pools.length) :
    ((world.checkOwner id).pool id).generation =
      (world.pool id).generation.look (world.currentPid id) := by
  rw [World.pool_checkOwner hid, Generation.look]
  split <;> next h => simp [Pool.generation, h, Pool.reset, Owner.withPid]

/-- In a move, a pool may look at its process, and that is all that changes what it goes by. -/
theorem Move.generation_eq_or (move : Move id scene next) (h : scene.Accounted)
    (hid : id < scene.world.pools.length) :
    next.world.currentPid id = scene.world.currentPid id ∧
      ((next.world.pool id).generation = (scene.world.pool id).generation ∨
        (next.world.pool id).generation =
          (scene.world.pool id).generation.look (scene.world.currentPid id)) := by
  rcases move.steady_or_reset h hid with hsteady | ⟨hne, hreset⟩
  · exact ⟨World.currentPid_congr move.pids_eq hsteady.process_eq, .inl hsteady.generation_eq⟩
  · refine ⟨World.currentPid_congr move.pids_eq (by rw [hreset, Pool.reset]), .inr ?_⟩
    rw [hreset]
    exact (if_neg hne).symm

theorem Moves.generation_eq_or (moves : Moves id scene next) (fits : scene.Fits)
    (h : scene.Accounted) (hid : id < scene.world.pools.length) :
    next.world.currentPid id = scene.world.currentPid id ∧
      ((next.world.pool id).generation = (scene.world.pool id).generation ∨
        (next.world.pool id).generation =
          (scene.world.pool id).generation.look (scene.world.currentPid id)) := by
  induction moves with
  | refl => exact ⟨rfl, .inl rfl⟩
  | tail earlier move ih =>
      have hid' := (Moves.length_pools earlier).symm ▸ hid
      obtain ⟨hpid, hbefore⟩ := ih
      obtain ⟨hpid', hafter⟩ :=
        move.generation_eq_or (lasting_accounted.moves earlier fits h) hid'
      refine ⟨hpid'.trans hpid, ?_⟩
      rw [hpid] at hafter
      -- a second look sees what the first one saw
      rcases hbefore with hsame | hlooked
      · rwa [hsame] at hafter
      · rw [hlooked, Generation.look_look, or_self] at hafter
        exact .inr hafter

/-- The work that failed is tried again at once. -/
def Sequel.retriesAtOnce : Sequel → Bool
  | .finish => false
  | .retry policy retries _ =>
      decide (¬ policy.maxRetries ≤ retries) && decide ((policy.backoff.delay retries).toNat = 0)

/-- The call begins with a look at the process: it lends, takes back, tears down or sweeps. -/
def Call.looks : Call → Bool
  | .discard _ | .invalidate => false
  | .acquire _ | .release _ | .disconnectAll | .closeIdle | .evictExpired | .run _ => true

/-- The pool asks its factory to close the resource of a lease that is discarded. -/
def World.closesOnDiscard (world : World) (id : PoolId) (lease : Lease) : Bool :=
  decide (lease.owner.pid = world.currentPid id) && decide (lease.owner.pool = id)

/-- With the answer a lease is taken back, or an acquisition for the next attempt begins. -/
def World.looksOnReply (world : World) : Task → Reply → Bool
  | .working .., .worked _ => true
  | .working id lease policy retries, .broke failure =>
      if policy.shouldDiscard failure then
        !world.closesOnDiscard id lease && (Sequel.retry policy retries failure).retriesAtOnce
      else true
  | .discarding _ _ _ sequel, .closed _ => sequel.retriesAtOnce
  | _, _ => false

/-- The time of the next attempt has come, and an acquisition for it begins. -/
def World.looksOnWake (world : World) : Task → Bool
  | .pausing _ due _ _ => decide (due ≤ world.clock)
  | _ => false

/-- With the event an acquisition, a return, a teardown or a sweep begins on the pool. -/
def System.looks (system : System) (id : PoolId) : Event → Bool
  | .call agent call => decide (agent = id) && call.looks
  | .reply place reply => system.tasks[place]?.any fun task =>
      decide (task.pool = id) && system.world.looksOnReply task reply
  | .wake place => system.tasks[place]?.any fun task =>
      decide (task.pool = id) && system.world.looksOnWake task
  | _ => false

namespace World

variable {world after : World} {owner : Owner} {result : World × Progress}

/-- The pool noted the pid of its process if it looked, and else it noted nothing. -/
def Notes (id : PoolId) (looked : Bool) (world after : World) : Prop :=
  (after.pool id).notedPid = if looked then world.currentPid id else (world.pool id).notedPid

namespace Notes

theorem of_retains (h : Retains id world after) : Notes id false world after := h.noted

theorem of_checkOwner (hid : id < world.pools.length)
    (h : (after.pool id).notedPid = ((world.checkOwner id).pool id).notedPid) :
    Notes id true world after := by
  rw [checkOwner_notedPid hid, currentPid_checkOwner hid] at h
  exact h

theorem of_retains_checkOwner (hid : id < world.pools.length)
    (h : Retains id (world.checkOwner id) after) : Notes id true world after :=
  of_checkOwner hid h.noted

/-- Before, nothing happened that the pool noted. -/
theorem of_before {middle : World} {looked : Bool} (h : Notes id looked middle after)
    (hnoted : (middle.pool id).notedPid = (world.pool id).notedPid)
    (hpid : middle.currentPid id = world.currentPid id) : Notes id looked world after := by
  rwa [Notes, hnoted, hpid] at h

theorem of_pools {middle : World} {looked : Bool} (h : Notes id looked middle after)
    (hpools : middle.pools = world.pools) (hpids : middle.pids = world.pids) :
    Notes id looked world after := by
  have hpool : middle.pool id = world.pool id := pool_congr hpools
  exact h.of_before (congrArg Pool.notedPid hpool)
    (currentPid_congr hpids (congrArg Pool.process hpool))

theorem acquire (hid : id < world.pools.length) (patience : Patience) (purpose : Purpose) :
    Notes id true world (world.acquire id patience purpose).1 :=
  of_retains_checkOwner hid (.acquire patience)

theorem afterDiscard (hid : id < world.pools.length) (sequel : Sequel) :
    Notes id sequel.retriesAtOnce world (world.afterDiscard id sequel).1 := by
  cases sequel with
  | finish => exact of_retains (.refl world)
  | retry policy retries failure =>
      unfold World.afterDiscard Sequel.retriesAtOnce
      by_cases hlast : policy.maxRetries ≤ retries
      · simpa [hlast] using of_retains (.refl world)
      · by_cases hdelay : (policy.backoff.delay retries).toNat = 0
        · simp only [hlast, hdelay, if_false, if_true, not_false_eq_true, decide_true,
            Bool.and_self]
          refine of_pools (acquire ?_ _ _) rfl rfl
          exact hid
        · simpa [hlast, hdelay] using of_retains (.note _)

theorem awaitAttempt (hid : id < world.pools.length) (due : Instant) (policy : RetryPolicy)
    (retries : UInt32) : Notes id (decide (due ≤ world.clock)) world
      (world.awaitAttempt id due policy retries).1 := by
  unfold World.awaitAttempt
  by_cases hdue : due ≤ world.clock
  · simpa [hdue] using acquire hid (world.usualPatience id) (.attempt policy retries)
  · simpa [hdue] using of_retains (.refl world)

theorem discard (hid : id < world.pools.length) (lease : Lease) (sequel : Sequel) :
    Notes id (!world.closesOnDiscard id lease && sequel.retriesAtOnce) world
      (world.discard id lease sequel).1 := by
  unfold World.discard closesOnDiscard
  by_cases hpid : lease.owner.pid = world.currentPid id
  · by_cases hpool : lease.owner.pool = id
    · simpa [hpid, hpool] using of_retains (.note _)
    · have hid' : id < ((world.note (.foreignDiscarded id lease.owner.pool)).letGo
          lease.resource).pools.length := by rwa [letGo_pools]
      have hlater : Notes id sequel.retriesAtOnce world _ :=
        (afterDiscard hid' sequel).of_pools letGo_pools letGo_pids
      simpa [hpid, hpool] using hlater
  · have hid' : id < (world.forget lease.resource).pools.length := hid
    have hlater : Notes id sequel.retriesAtOnce world _ :=
      (afterDiscard hid' sequel).of_pools rfl rfl
    simpa [hpid] using hlater

theorem discarded (hid : id < world.pools.length) (owner : Owner) (resource : ResourceId)
    (sequel : Sequel) (failure : Option Failure) : Notes id sequel.retriesAtOnce world
      (world.discarded id owner resource sequel failure).1 := by
  have hpools : ((world.noteClose resource failure).letGo resource).pools = world.pools :=
    letGo_pools.trans noteClose_pools
  have hpids : ((world.noteClose resource failure).letGo resource).pids = world.pids := by
    rw [letGo_pids]
    cases failure <;> rfl
  have hid' : id < (((world.noteClose resource failure).letGo resource).restoreVacant id
      owner).pools.length := by
    rwa [restoreVacant, length_modifyPool, emit, hpools]
  refine of_pools ((afterDiscard hid' sequel).of_before ?_ ?_) hpools hpids
  · exact (Retains.restoreVacant owner).noted
  · refine currentPid_congr rfl (view_modifyPool Pool.process fun pool => ?_)
    obtain ⟨free, leased, stale, heq⟩ := pool.restoreVacant_eq owner
    rw [heq]

theorem release (hid : id < world.pools.length) (lease : Lease) :
    Notes id true world (world.release id lease) := by
  have hreturn : Retains id (world.checkOwner id)
      ((world.checkOwner id).noteReturn id lease.owner) := .noteReturn lease.owner
  apply of_checkOwner hid
  rw [← hreturn.noted]
  unfold World.release
  dsimp only
  split
  · by_cases hpid : lease.owner.pid =
        (((world.checkOwner id).noteReturn id lease.owner).pool id).owner.pid
    · obtain ⟨notice, haway⟩ := turnAway_of_pid_eq _ id hpid
      have hreclaim : Retains id ((world.checkOwner id).noteReturn id lease.owner)
          (((world.checkOwner id).noteReturn id lease.owner).modifyPool id
            fun pool => pool.reclaim lease.owner) :=
        .modifyPool fun pool => pool.notedPid_reclaim lease.owner
      rw [haway]
      exact (hreclaim.trans ((Retains.note notice).trans (.letGo lease.resource))).noted
    · obtain ⟨notice, haway⟩ := turnAway_of_pid_ne _ id hpid
      rw [haway]
      rfl
  · split
    · exact view_modifyPool Pool.notedPid fun pool => Pool.notedPid_push _
    · rw [pool_congr letGo_pools]
      exact view_modifyPool Pool.notedPid fun pool => rfl

theorem broke (hid : id < world.pools.length) (lease : Lease) (policy : RetryPolicy)
    (retries : UInt32) (failure : Failure) :
    Notes id (world.looksOnReply (.working id lease policy retries) (.broke failure)) world
      (world.broke id lease policy retries failure).1 := by
  simp only [World.broke, looksOnReply]
  split
  · exact discard hid lease _
  · exact release hid lease

theorem begin (hosts : world.Hosts id) {call : Call} (hcall : call ≠ .invalidate) :
    Notes id call.looks world (world.begin id call).1 := by
  cases call with
  | acquire | run => exact acquire hosts.lt _ _
  | release lease => exact (release (hosts.part lease).lt lease).of_pools rfl rfl
  | discard lease =>
      have hdiscard := discard (hosts.part lease).lt lease .finish
      rw [Sequel.retriesAtOnce, Bool.and_false] at hdiscard
      exact hdiscard.of_pools rfl rfl
  | disconnectAll => exact of_retains_checkOwner hosts.lt .disconnectAll
  | invalidate => exact absurd rfl hcall
  | closeIdle | evictExpired => exact of_retains_checkOwner hosts.lt (.sweep _)

theorem resume {task : Task} {reply : Reply} (hid : task.pool < world.pools.length)
    (h : world.resume task reply = some result) :
    Notes task.pool (world.looksOnReply task reply) world result.1 := by
  unfold World.resume at h
  split at h <;> cases h
  · exact of_retains (.validated _ _)
  · exact of_retains (.replaced _ _)
  · exact of_retains (.created _)
  · exact of_retains (.notCreated _)
  · exact release hid _
  · exact broke hid _ _ _ _
  · exact discarded hid _ _ _ _
  · exact of_retains (.disconnected _ _ _ _ _)
  · exact of_retains (.swept _ _ _ _)

theorem wake {task : Task} (hid : task.pool < world.pools.length)
    (h : world.wake task = some result) :
    Notes task.pool (world.looksOnWake task) world result.1 := by
  unfold World.wake at h
  split at h <;> cases h
  · exact of_retains (.awaitSlot _ _)
  · exact awaitAttempt hid _ _ _

end Notes
end World

def Event.tearsDown (id : PoolId) : Event → Bool
  | .call agent .disconnectAll => decide (agent = id)
  | _ => false

namespace System

variable {system final : System} {event : Event} {events : List Event}

/-- What an event does to what a pool goes by: the pool looks at its process if an operation begins
on it that lends, takes back, tears down or sweeps; a teardown and an invalidation begin an epoch;
and nothing else changes it. -/
structure Renews (id : PoolId) (system : System) (event : Event) (next : System) : Prop where
  looked : system.looks id event = true → event.tearsDown id = false →
    (next.world.pool id).generation =
      (system.world.pool id).generation.look (system.world.currentPid id)
  tornDown : event.tearsDown id = true → (next.world.pool id).generation =
    ((system.world.pool id).generation.look (system.world.currentPid id)).tearDown
  invalidated : event = .call id .invalidate →
    (next.world.pool id).generation = (system.world.pool id).generation.invalidate
  kept : system.looks id event = false → event ≠ .call id .invalidate →
    (next.world.pool id).generation = (system.world.pool id).generation

/-- A pool that an operation goes on with looked at its process, or did not. -/
theorem step?_notes (reach : system.Reachable) (hstep : system.step? event = some final)
    (hagent : system.agent? event = some id) (hevent : event ≠ .call id .invalidate) :
    World.Notes id (system.looks id event) system.world final.world := by
  have hosted := hosted_of_fits (reachable_fits reach)
  obtain ⟨task?, progress, turn⟩ := exists_turn hagent hstep
  have hid := turn.lt reach
  cases turn with
  | @call id call result h =>
      have hcall : call ≠ .invalidate := by
        rintro rfl
        exact hevent rfl
      rw [world_of_call hstep, System.looks, decide_eq_true rfl, Bool.true_and]
      exact .begin (hosted.pools id hid) hcall
  | reply htask h =>
      rw [world_settle, System.looks, htask, Option.any_some, decide_eq_true rfl, Bool.true_and]
      exact .resume hid h
  | wake htask h =>
      rw [world_settle, System.looks, htask, Option.any_some, decide_eq_true rfl, Bool.true_and]
      exact .wake hid h

/-- An event looks at the process of a pool only if it lets an operation on the pool go on. -/
theorem agent?_of_looks (h : system.looks id event = true) : system.agent? event = some id := by
  cases event with
  | call agent call =>
      simp only [looks, Bool.and_eq_true, decide_eq_true_eq] at h
      rw [agent?, h.1]
  | reply place reply =>
      simp only [looks, Option.any_eq_true, Bool.and_eq_true, decide_eq_true_eq] at h
      obtain ⟨task, htask, hpool, -⟩ := h
      rw [agent?, htask, Option.map_some, hpool]
  | wake place =>
      simp only [looks, Option.any_eq_true, Bool.and_eq_true, decide_eq_true_eq] at h
      obtain ⟨task, htask, hpool, -⟩ := h
      rw [agent?, htask, Option.map_some, hpool]
  | drop | fork | advance => cases h

theorem tearsDown_eq_true_iff : event.tearsDown id = true ↔ event = .call id .disconnectAll := by
  constructor
  · intro h
    unfold Event.tearsDown at h
    split at h
    · rw [of_decide_eq_true h]
    · cases h
  · rintro rfl
    exact decide_eq_true rfl

/-- Which moves a pool made is told by what it noted. -/
theorem generation_eq_of_moves (reach : system.Reachable) (hid : id < system.world.pools.length)
    (moves : Moves id system.scene final.scene) {looked : Bool}
    (hnotes : World.Notes id looked system.world final.world) :
    (final.world.pool id).generation = if looked then
      (system.world.pool id).generation.look (system.world.currentPid id)
      else (system.world.pool id).generation := by
  have heither : (final.world.pool id).generation = (system.world.pool id).generation ∨
      (final.world.pool id).generation =
        (system.world.pool id).generation.look (system.world.currentPid id) :=
    (Moves.generation_eq_or moves (reachable_fits reach) (reachable_accounted reach) hid).2
  cases looked with
  | true =>
      rcases heither with hsame | hlooked
      · have hpid : system.world.currentPid id = (system.world.pool id).generation.notedPid :=
          hnotes.symm.trans (congrArg Generation.notedPid hsame)
        rw [if_pos rfl, Generation.look_of_eq hpid, hsame]
      · exact hlooked
  | false =>
      rcases heither with hsame | hlooked
      · exact hsame
      · have hnow := congrArg Generation.notedPid hlooked
        rw [Generation.notedPid_look] at hnow
        have hpid : system.world.currentPid id = (system.world.pool id).generation.notedPid :=
          hnow.symm.trans hnotes
        rw [hlooked, Generation.look_of_eq hpid, if_neg Bool.false_ne_true]

theorem step?_renews (reach : system.Reachable) (hid : id < system.world.pools.length)
    (hstep : system.step? event = some final) : Renews id system event final := by
  have fits := reachable_fits reach
  have accounted := reachable_accounted reach
  by_cases hagent : system.agent? event = some id
  · cases step?_passage (hosted_of_fits fits) hstep with
    | moves hagent' hsome hplain hmoves =>
        obtain rfl := Option.some_inj.1 (hagent.symm.trans hsome)
        have hinvalidate : event ≠ .call id .invalidate := by
          rintro rfl
          exact hplain _ _ rfl
        have hgeneration := generation_eq_of_moves reach hid hmoves
          (step?_notes reach hstep hagent hinvalidate)
        refine ⟨fun hlooks _ => ?_, fun htears => ?_, fun heq => absurd heq hinvalidate,
          fun hlooks _ => ?_⟩
        · rw [hgeneration, if_pos hlooks]
        · cases tearsDown_eq_true_iff.1 htears
          exact (hplain _ _ rfl).elim
        · rw [hgeneration, hlooks, if_neg Bool.false_ne_true]
    | @invalidate _ agent _ hscene =>
        obtain rfl : agent = id := Option.some_inj.1 hagent
        have hworld : final.world = system.world.invalidate agent := congrArg Scene.world hscene
        refine ⟨fun hlooks => ?_, nofun, fun _ => ?_, fun _ hne => absurd rfl hne⟩
        · simp [looks, Call.looks] at hlooks
        · rw [hworld, World.pool_invalidate_self hid]
          rfl
    | @disconnect _ agent _ hmoves =>
        obtain rfl : agent = id := Option.some_inj.1 hagent
        have fresh : Scene.Fresh ⟨system.world.checkOwner agent, handOf system.tasks⟩ agent :=
          .checkOwner fits accounted hid
        refine ⟨fun _ htears => ?_, fun _ => ?_, nofun, fun hlooks => ?_⟩
        · simp [Event.tearsDown] at htears
        · rw [← World.generation_checkOwner hid]
          exact (Moves.steady_tearDown fresh hmoves).generation_eq
        · simp [looks, Call.looks] at hlooks
    | drop | fork | advance => cases hagent
  · have hlooks : system.looks id event ≠ true := fun h => hagent (agent?_of_looks h)
    refine ⟨fun h => absurd h hlooks, fun htears => ?_, ?_, fun _ _ => ?_⟩
    · cases tearsDown_eq_true_iff.1 htears
      exact absurd rfl hagent
    · rintro rfl
      exact absurd rfl hagent
    · rw [step?_pool_of_ne reach hstep hagent]

/-- An epoch begins with each reset and with each teardown. -/
theorem Renews.epoch_add (h : Renews id system event final) :
    (final.world.pool id).owner.epoch + (system.world.pool id).resets =
      (system.world.pool id).owner.epoch + (final.world.pool id).resets +
        (if event.tearsDown id then 1 else 0) := by
  have hlook := (system.world.pool id).generation.epoch_look_add (system.world.currentPid id)
  change (final.world.pool id).generation.owner.epoch + (system.world.pool id).generation.resets =
    (system.world.pool id).generation.owner.epoch + (final.world.pool id).generation.resets + _
  by_cases htears : event.tearsDown id = true
  · rw [h.tornDown htears, if_pos htears, Generation.epoch_tearDown, Generation.resets_tearDown]
    omega
  · rw [if_neg htears]
    by_cases hevent : event = .call id .invalidate
    · rw [h.invalidated hevent, Generation.epoch_invalidate, Generation.resets_invalidate]
      omega
    · cases hlooks : system.looks id event with
      | true =>
          rw [h.looked hlooks (Bool.eq_false_iff.2 htears)]
          exact hlook
      | false => rw [h.kept hlooks hevent, Nat.add_zero]

/-- The event resets the pool: it invalidates it, or the pool looks at its process and finds another
pid than the one it noted. -/
def Resets (id : PoolId) (system : System) (event : Event) : Prop :=
  event = .call id .invalidate ∨
    system.looks id event = true ∧ system.world.currentPid id ≠ (system.world.pool id).notedPid

/-- The counter goes up with each reset and with nothing else. -/
theorem Renews.resets_ne_iff (h : Renews id system event final) :
    (final.world.pool id).resets ≠ (system.world.pool id).resets ↔ Resets id system event := by
  change (final.world.pool id).generation.resets ≠ (system.world.pool id).generation.resets ↔ _
  by_cases hevent : event = .call id .invalidate
  · rw [h.invalidated hevent, Generation.resets_invalidate]
    exact ⟨fun _ => .inl hevent, fun _ => Nat.succ_ne_self _⟩
  · have hresets : Resets id system event ↔ system.looks id event = true ∧
        system.world.currentPid id ≠ (system.world.pool id).generation.notedPid :=
      or_iff_right hevent
    rw [hresets]
    cases hlooks : system.looks id event with
    | false => simp [h.kept hlooks hevent]
    | true =>
        have hlooked : (final.world.pool id).generation.resets =
            ((system.world.pool id).generation.look (system.world.currentPid id)).resets := by
          cases htears : event.tearsDown id with
          | true => rw [h.tornDown htears, Generation.resets_tearDown]
          | false => rw [h.looked hlooks htears]
        rw [hlooked, Generation.resets_look]
        simp

/-- A pool starts over with a teardown, with an invalidation, and when it finds itself in another
process. -/
theorem startsOver_iff (reach : system.Reachable) (hid : id < system.world.pools.length)
    (hstep : system.step? event = some final) : system.StartsOver id event final ↔
      event = .call id .disconnectAll ∨ Resets id system event :=
  or_congr_right (step?_renews reach hid hstep).resets_ne_iff

/-- The counter stays as it is in a run without resets, and in no other. -/
theorem run?_resets_eq_iff (reach : system.Reachable) (hid : id < system.world.pools.length)
    (hrun : system.run? events = some final) :
    (final.world.pool id).resets = (system.world.pool id).resets ↔
      system.Throughout (fun middle event => ¬ Resets id middle event) events := by
  induction events generalizing system with
  | nil =>
      cases hrun
      exact ⟨fun _ => throughout_nil, fun _ => rfl⟩
  | cons event rest ih =>
      obtain ⟨middle, hstep, hrest⟩ := Option.bind_eq_some_iff.1 hrun
      have hid' : id < middle.world.pools.length := reach.lt_of_step? hid hstep
      have hfirst := (step?_renews reach hid hstep).resets_ne_iff
      have hle := step?_resets_le reach hid hstep
      have hlater := run?_resets_le (reach.step? hstep) hid' hrest
      rw [throughout_cons_iff hstep, ← hfirst, not_not, ← ih (reach.step? hstep) hid' hrest]
      omega

/-- A pool is torn down if it was and no reset came after. -/
theorem tornDown_iff (reach : system.Reachable) (hid : id < system.world.pools.length)
    (hrun : system.run? events = some final) : system.TornDown events final id ↔
      ∃ earlier later torn, events = earlier ++ .call id .disconnectAll :: later ∧
        system.run? (earlier ++ [.call id .disconnectAll]) = some torn ∧
        torn.Throughout (fun middle event => ¬ Resets id middle event) later := by
  refine exists_congr fun earlier => exists_congr fun later => exists_congr fun torn =>
    and_congr_right fun heq => and_congr_right fun htorn => ?_
  have hlater : torn.run? later = some final := by
    rw [heq, List.append_cons, run?_append, htorn] at hrun
    exact hrun
  exact run?_resets_eq_iff (reach.run? htorn) (reach.lt_of_run? hid htorn) hlater

/-- The epoch counts the resets and the teardowns. -/
theorem epoch_eq_resets_add {pids : List Pid} {pools : List (ProcessId × Config)}
    {process : ProcessId} {config : Config} (hpool : pools[id]? = some (process, config))
    (hrun : (init pids pools).run? events = some system) :
    (system.world.pool id).owner.epoch =
      (system.world.pool id).resets + events.countP (Event.tearsDown id) := by
  have hinit : (init pids pools).Reachable := ⟨pids, pools, [], rfl⟩
  obtain ⟨hid, hnew⟩ := init_pool pids hpool
  induction events using List.reverseRecOn generalizing system with
  | nil =>
      cases hrun
      rw [hnew]
      rfl
  | append_singleton events event ih =>
      obtain ⟨middle, hmiddle, hstep⟩ :=
        Option.bind_eq_some_iff.1 ((run?_concat _ events event).symm.trans hrun)
      have hbefore := ih hmiddle
      have hepoch := (step?_renews (hinit.run? hmiddle) (hinit.lt_of_run? hid hmiddle)
        hstep).epoch_add
      rw [List.countP_append, List.countP_singleton]
      omega

/-- Generations of owners. In every state the noted pid is that of the owner, the owner names its
pool, and its epoch counts resets and teardowns. An owner that changes moves to a later epoch, and
no later owner equals it. An event renews what the pool goes by as `Renews` says: a call that lends,
takes back, tears down or sweeps looks at the process once, and the owner has its pid then; a
discard does not look, and statistics are read off the pool without an event. -/
theorem owner_generations {pids : List Pid} {pools : List (ProcessId × Config)}
    {process : ProcessId} {config : Config} (hpool : pools[id]? = some (process, config))
    (hrun : (init pids pools).run? events = some system) :
    let pool := system.world.pool id
    (pool.notedPid = pool.owner.pid ∧ pool.owner.pool = id ∧
      pool.owner.epoch = pool.resets + events.countP (Event.tearsDown id)) ∧
    (∀ later final, system.run? later = some final → (final.world.pool id).owner ≠ pool.owner →
      pool.owner.epoch < (final.world.pool id).owner.epoch ∧
        ∀ rest last, final.run? rest = some last → (last.world.pool id).owner ≠ pool.owner) ∧
    ∀ event next, system.step? event = some next → Renews id system event next ∧
      (system.looks id event = true →
        (next.world.pool id).owner.pid = system.world.currentPid id) := by
  have hinit : (init pids pools).Reachable := ⟨pids, pools, [], rfl⟩
  have reach : system.Reachable := hinit.run? hrun
  have hid : id < system.world.pools.length := hinit.lt_of_run? (init_pool pids hpool).1 hrun
  have hfits := (reachable_fits reach).pools.pool hid
  refine ⟨⟨hfits.pid_eq, hfits.pool_eq, epoch_eq_resets_add hpool hrun⟩, ?_, ?_⟩
  · intro later final hlater hne
    have hadvances := run?_advances reach hid hlater
    have hlt : (system.world.pool id).owner.epoch < (final.world.pool id).owner.epoch :=
      Nat.lt_of_le_of_ne hadvances.epoch_le fun heq => hne (hadvances.owner_eq heq.symm)
    refine ⟨hlt, fun rest last hrest heq => ?_⟩
    have hle := (run?_advances (reach.run? hlater) (reach.lt_of_run? hid hlater) hrest).epoch_le
    rw [heq] at hle
    exact absurd hle (Nat.not_le_of_lt hlt)
  · intro event next hstep
    refine ⟨step?_renews reach hid hstep, fun hlooks => ?_⟩
    have hevent : event ≠ .call id .invalidate := by
      rintro rfl
      simp [looks, Call.looks] at hlooks
    have hnotes : (next.world.pool id).notedPid = system.world.currentPid id :=
      (step?_notes reach hstep (agent?_of_looks hlooks) hevent).trans (if_pos hlooks)
    have hafter : (next.world.pool id).notedPid = (next.world.pool id).owner.pid :=
      ((reachable_fits (reach.step? hstep)).pools.pool (reach.lt_of_step? hid hstep)).pid_eq
    exact hafter.symm.trans hnotes

/-- A process that forks twice and gets its first pid back: the owner does not come back with it. -/
theorem owner_generations_of_forks : ∃ system,
    (init [7] [(0, Config.ofSize 1)]).run?
        [.fork 0 8, .call 0 .closeIdle, .fork 0 7, .call 0 .evictExpired, .call 0 .disconnectAll,
          .call 0 .invalidate] = some system ∧
      (system.world.pool 0).owner.pid = 7 ∧ (system.world.pool 0).owner.epoch = 4 := by
  refine exists_run? rfl fun system hrun => ?_
  have hpool : [((0 : ProcessId), Config.ofSize 1)][0]? = some (0, Config.ofSize 1) := rfl
  obtain ⟨⟨hpid, -, hepoch⟩, -, -⟩ := owner_generations hpool hrun
  have hnoted : (system.world.pool 0).notedPid = 7 := by
    cases hrun
    rfl
  have hresets : (system.world.pool 0).resets = 3 := by
    cases hrun
    rfl
  rw [hresets] at hepoch
  exact ⟨hpid.symm.trans hnoted, hepoch⟩

end System
end LeasePool
