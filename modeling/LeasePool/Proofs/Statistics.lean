import LeasePool.Proofs.Tallies

/-!
Statistics. Along every run the counters of a pool are the numbers of the turns in which its factory
made a resource, made none, or an acquisition gave up; and the number of those who wait is that of
the acquisitions under way that wait. So each acquisition that is over is counted once: it got a
resource, or it failed in one of the two ways that are counted.
-/

namespace LeasePool

section Queue

variable {world after : World} {id : PoolId} {hand left : Multiset Holding} {change : Pool → Pool}

/-- Every pool counts those who wait for a slot of it. -/
def Scene.Queued (scene : Scene) : Prop :=
  scene.world.EachPool fun id pool => pool.waiting = scene.hand.count (.turn id)

/-- Resources in hand are no places among those who wait. -/
theorem count_turn_map {other : PoolId} {resources : List ResourceId}
    (holding : ResourceId → Holding) (hne : ∀ resource, holding resource ≠ .turn other) :
    Multiset.count (.turn other) (↑(resources.map holding) : Multiset Holding) = 0 := by
  refine Multiset.count_eq_zero_of_notMem fun hmem => ?_
  obtain ⟨resource, -, heq⟩ := List.mem_map.1 (Multiset.mem_coe.1 hmem)
  exact hne resource heq

namespace Scene.Queued

theorem shift (h : Queued ⟨world, hand⟩) (hpools : after.pools = (world.modifyPool id change).pools)
    (hchange : ∀ pool : Pool, pool.waiting = hand.count (.turn id) →
      (change pool).waiting = left.count (.turn id))
    (hothers : ∀ other, other ≠ id → left.count (.turn other) = hand.count (.turn other)) :
    Queued ⟨after, left⟩ := by
  have heach : (world.modifyPool id change).EachPool
      fun id pool => pool.waiting = left.count (.turn id) := by
    refine World.EachPool.modify h (fun pool _ hwaiting => hchange pool hwaiting) ?_
    intro other pool hne hwaiting
    rw [hwaiting, hothers other hne]
  intro other pool hget
  rw [hpools] at hget
  exact heach other pool hget

theorem keep (h : Queued ⟨world, hand⟩) (hpools : after.pools = (world.modifyPool id change).pools)
    (hchange : ∀ pool, (change pool).waiting = pool.waiting)
    (hturns : ∀ other, left.count (.turn other) = hand.count (.turn other)) :
    Queued ⟨after, left⟩ :=
  h.shift hpools (fun pool hwaiting => by rw [hchange, hwaiting, hturns])
    fun other _ => hturns other

theorem spare (h : Queued ⟨world, hand⟩) (hpools : after.pools = world.pools)
    (hturns : ∀ other, left.count (.turn other) = hand.count (.turn other)) :
    Queued ⟨after, left⟩ := by
  have hsame : world.modifyPool 0 (fun pool => pool) = world := World.modifyPool_eq_self rfl
  exact h.keep (hpools.trans (congrArg World.pools hsame.symm)) (fun _ => rfl) hturns

end Scene.Queued

theorem Pool.waiting_push (pool : Pool) (slot : Slot) :
    (pool.push slot).waiting = pool.waiting := by
  unfold push
  split <;> rfl

theorem Pool.waiting_restoreVacant (pool : Pool) (owner : Owner) :
    (pool.restoreVacant owner).waiting = pool.waiting := by
  obtain ⟨free, leased, stale, hpool⟩ := pool.restoreVacant_eq owner
  rw [hpool]

theorem Pool.waiting_enroll (pool : Pool) (owner : Owner) (alive : ResourceId → Bool)
    (resource : ResourceId) : (pool.enroll owner alive resource).waiting = pool.waiting := by
  unfold enroll
  dsimp only
  split <;> rfl

/-- Who begins to wait, gives up or takes a slot changes the number with its place in hand. -/
theorem Move.queued {scene next : Scene} (move : Move id scene next) (h : scene.Queued) :
    next.Queued := by
  have hturn : ∀ {other}, other ≠ id → Holding.turn other ≠ .turn id := by simp
  cases move with
  | tell | lend => exact h.spare rfl fun _ => rfl
  | keep | part | handIn | accept | detach | skip | closed | pause | resume | refuse | disown
  | grasp =>
      exact h.spare rfl fun _ => by simp
  | shed | letGo | ungrasp =>
      exact h.spare World.letGo_pools fun _ => by simp
  | refresh =>
      refine h.keep World.checkOwner_pools (fun pool => ?_) fun _ => rfl
      split <;> rfl
  | countFailure => exact h.keep rfl (fun _ => rfl) fun _ => rfl
  | enqueue =>
      refine h.shift rfl (fun pool hwaiting => ?_) fun other hne => ?_
      · rw [Multiset.count_cons_self, ← hwaiting]
        rfl
      · exact Multiset.count_cons_of_ne (hturn hne) _
  | giveUp =>
      refine h.shift rfl (fun pool hwaiting => ?_) fun other hne => ?_
      · rw [Multiset.count_cons_self] at hwaiting
        exact Nat.sub_eq_of_eq_add hwaiting
      · exact (Multiset.count_cons_of_ne (hturn hne) _).symm
  | @take _ _ slot _ _ =>
      have hslot : ∀ other owner, Holding.turn other ≠ slot.holding id owner := by
        cases slot <;> simp [Slot.holding]
      refine h.shift rfl (fun pool hwaiting => ?_) fun other hne => ?_
      · rw [Multiset.count_cons_self] at hwaiting
        rw [Multiset.count_cons_of_ne (hslot id _)]
        exact Nat.sub_eq_of_eq_add hwaiting
      · rw [Multiset.count_cons_of_ne (hslot other _),
          Multiset.count_cons_of_ne (hturn hne)]
  | make owner kind =>
      exact h.keep rfl (fun pool => pool.waiting_enroll owner _ _) fun _ => by simp
  | shelve entry =>
      exact h.keep rfl (fun pool => Pool.waiting_push _ (.idle entry)) fun _ => by simp
  | @restore _ _ owner =>
      exact h.keep rfl (fun pool => pool.waiting_restoreVacant owner) fun _ => by simp
  | vacate =>
      refine h.keep rfl (fun _ => rfl) fun other => ?_
      rw [Multiset.count_add, Multiset.count_add, count_turn_map (.loose id) (by simp),
        count_turn_map (.mention id) (by simp), Nat.zero_add, Nat.zero_add]

theorem lasting_queued : Scene.Lasting Scene.Queued where
  move _ move h := move.queued h
  tearDown {_ _ id} _ _ h := by
    refine h.keep rfl (fun _ => rfl) fun other => ?_
    rw [Multiset.count_add, Multiset.count_add, count_turn_map (.listed id) (by simp),
      count_turn_map (.loose id) (by simp), Nat.zero_add, Nat.zero_add]
  invalidate _ _ h := h.keep World.invalidate_pools (fun _ => rfl) fun _ => rfl
  drop _ _ h := h.spare World.letGo_pools fun _ => rfl
  fork h := h.spare rfl fun _ => rfl
  advance h := h.spare rfl fun _ => rfl

end Queue

namespace System

variable {system next : System} {id : PoolId} {event : Event} {task? : Option Task}
  {progress : Progress}

/-- A task has a place among those who wait exactly if it waits for a slot. -/
theorem count_turn_holdings (task : Task) :
    task.holdings.count (.turn id) = if task.pool = id ∧ task.awaitsSlot then 1 else 0 := by
  cases task with
  | waiting agent =>
      rw [Task.holdings, Multiset.count_singleton]
      simp [Task.pool, Task.awaitsSlot, eq_comm]
  | validating | replacing | creating | working | discarding | pausing =>
      simp [Task.holdings, Task.awaitsSlot]
  | disconnecting =>
      rw [Task.holdings, Multiset.count_cons_of_ne (by simp), Multiset.count_add,
        count_turn_map _ (by simp), count_turn_map _ (by simp)]
      simp [Task.awaitsSlot]
  | sweeping =>
      rw [Task.holdings, Multiset.count_add, count_turn_map _ (by simp),
        count_turn_map _ (by simp)]
      simp [Task.awaitsSlot]

theorem count_turn_handOf (tasks : List Task) : (handOf tasks).count (.turn id) =
    (tasks.filter fun task => task.pool = id).countP Task.awaitsSlot := by
  induction tasks with
  | nil => rfl
  | cons task rest ih =>
      rw [handOf, List.map_cons, List.sum_cons, Multiset.count_add, count_turn_holdings]
      change _ + (handOf rest).count _ = _
      rw [ih, List.countP_filter, List.countP_filter, List.countP_cons, Nat.add_comm]
      simp [and_comm]

/-- The number of those who wait for a slot of a pool is that of the acquisitions that do. -/
theorem waiting_eq (reach : system.Reachable) (hid : id < system.world.pools.length) :
    (system.world.pool id).waiting = (system.tasksOn id).countP Task.awaitsSlot := by
  obtain ⟨pids, pools, events, hrun⟩ := reach
  have hinit : (init pids pools).scene.Queued := by
    intro id pool hget
    obtain ⟨config, process, rfl⟩ := init_each_pool pids pools id pool hget
    rfl
  have hqueued : system.scene.Queued := lasting_queued.run? (init_fits pids pools) hinit hrun
  exact (hqueued.pool hid).trans (count_turn_handOf system.tasks)

/-- The turn that an event lets an operation take. -/
def act? (system : System) : Event → Option Act
  | .call pool call => do
      let result ← system.world.call pool call
      some ⟨system, none, .call pool call, settle system.tasks result, result.2⟩
  | .reply place reply => do
      let task ← system.tasks[place]?
      let result ← system.world.resume task reply
      some ⟨system, some task, .reply place reply, settle (system.tasks.eraseIdx place) result,
        result.2⟩
  | .wake place => do
      let task ← system.tasks[place]?
      let result ← system.world.wake task
      some ⟨system, some task, .wake place, settle (system.tasks.eraseIdx place) result, result.2⟩
  | _ => none

/-- The turns that the operations on the pool `id` take in a run. -/
def turns (id : PoolId) (system : System) : List Event → List Act
  | [] => []
  | event :: rest =>
      (if system.agent? event = some id then (system.act? event).toList else []) ++
        match system.step? event with
        | some next => turns id next rest
        | none => []

theorem Turn.act?_eq (turn : system.Turn id event task? next progress) :
    system.act? event = some ⟨system, task?, event, next, progress⟩ := by
  cases turn with
  | call h => rw [act?, h, Option.bind_eq_bind, Option.bind_some]
  | reply htask h | wake htask h =>
      rw [act?, htask, Option.bind_eq_bind, Option.bind_some, h, Option.bind_eq_bind,
        Option.bind_some]

/-- What the turns of operations on a pool add up to. -/
structure Ledger (id : PoolId) (start : System) (acts : List Act) (final : System) : Prop where
  counts_eq : (final.world.pool id).counts =
    ((start.world.pool id).created + acts.countP Act.makes,
      (start.world.pool id).creationFailures + acts.countP Act.makesNone,
      (start.world.pool id).timeouts + acts.countP Act.exhausts)
  /-- An acquisition that is over has ended in one way. -/
  ends_once : ∀ act ∈ acts,
    act.completes.toNat = act.lends.toNat + act.makesNone.toNat + act.exhausts.toNat
  begins_eq : acts.countP Act.begins + (start.tasksOn id).countP Task.isAcquisition =
    acts.countP Act.completes + (final.tasksOn id).countP Task.isAcquisition

theorem Ledger.append {middle final : System} {acts later : List Act}
    (first : Ledger id system acts middle) (second : Ledger id middle later final) :
    Ledger id system (acts ++ later) final := by
  obtain ⟨hcreated, hfailures, htimeouts⟩ := (Pool.counts_eq_iff _).1 first.counts_eq
  have hbegins := first.begins_eq
  have hbegins' := second.begins_eq
  refine ⟨?_, ?_, ?_⟩
  · simp only [List.countP_append]
    rw [second.counts_eq, hcreated, hfailures, htimeouts, Nat.add_assoc, Nat.add_assoc,
      Nat.add_assoc]
  · exact List.forall_mem_append.2 ⟨first.ends_once, second.ends_once⟩
  · simp only [List.countP_append]
    omega

theorem countP_cons_act (view : Act → Bool) (act : Act) (acts : List Act) :
    (act :: acts).countP view = acts.countP view + (view act).toNat := by
  rw [List.countP_cons]
  cases view act <;> rfl

theorem countP_singleton_act (view : Act → Bool) (act : Act) :
    [act].countP view = (view act).toNat := by
  rw [countP_cons_act, List.countP_nil, Nat.zero_add]

/-- Acquisitions that end in one way each are as many as the ways in which they end. -/
theorem countP_completes {acts : List Act} (h : ∀ act ∈ acts,
      act.completes.toNat = act.lends.toNat + act.makesNone.toNat + act.exhausts.toNat) :
    acts.countP Act.completes =
      acts.countP Act.lends + acts.countP Act.makesNone + acts.countP Act.exhausts := by
  induction acts with
  | nil => rfl
  | cons act rest ih =>
      obtain ⟨hact, hrest⟩ := List.forall_mem_cons.1 h
      rw [countP_cons_act, countP_cons_act, countP_cons_act, countP_cons_act, ih hrest, hact]
      omega

/-- A turn of an operation on the pool. -/
theorem Turn.ledger (turn : system.Turn id event task? next progress)
    (hid : id < system.world.pools.length) :
    Ledger id system [⟨system, task?, event, next, progress⟩] next := by
  have tallies := turn.tallies hid
  obtain ⟨others, hbefore, hafter⟩ := turn.tasksOn_eq
  have hview : ∀ task? : Option Task,
      task?.toList.countP Task.isAcquisition = (task?.any Task.isAcquisition).toNat := by
    rintro (_ | task)
    · rfl
    · rw [Option.toList_some, List.countP_singleton, Option.any_some]
      cases task.isAcquisition <;> rfl
  have hbegins := tallies.begins_eq
  refine ⟨?_, ?_, ?_⟩
  · simp only [countP_singleton_act]
    exact tallies.counts_eq
  · exact List.forall_mem_singleton.2 tallies.completes_eq
  · rw [countP_singleton_act, countP_singleton_act, hbefore.countP_eq, hafter,
      List.countP_append, List.countP_append, hview, hview]
    change _ = _ + (progress.isAcquisition.toNat + _)
    dsimp only at hbegins
    omega

/-- What happens elsewhere adds nothing. -/
theorem ledger_of_aside (reach : system.Reachable) (hstep : system.step? event = some next)
    (hagent : system.agent? event ≠ some id) : Ledger id system [] next := by
  have htasks : (next.tasksOn id).Perm (system.tasksOn id) := by
    rcases turn_or_of_step? hstep with ⟨agent, task?, progress, hsome, turn⟩ | ⟨-, htasks, -⟩
    · refine turn.tasksOn_perm_of_ne ?_
      rintro rfl
      exact hagent hsome
    · rw [tasksOn, htasks, tasksOn]
  refine ⟨?_, List.forall_mem_nil _, ?_⟩
  · rw [step?_pool_of_ne reach hstep hagent]
    rfl
  · rw [htasks.countP_eq]
    rfl

/-- The turns of operations on a pool add up along every run. -/
theorem ledger_of_run {events : List Event} (reach : system.Reachable)
    (hid : id < system.world.pools.length) (hrun : system.run? events = some next) :
    Ledger id system (system.turns id events) next := by
  induction events generalizing system with
  | nil =>
      cases hrun
      exact ⟨rfl, List.forall_mem_nil _, rfl⟩
  | cons event rest ih =>
      obtain ⟨middle, hstep, hrest⟩ := Option.bind_eq_some_iff.1 hrun
      have hlater := ih (reach.step? hstep) (reach.lt_of_step? hid hstep) hrest
      rw [turns, hstep]
      refine .append ?_ hlater
      split
      · next hagent =>
        obtain ⟨task?, progress, turn⟩ := exists_turn hagent hstep
        rw [turn.act?_eq]
        exact turn.ledger hid
      · next hagent => exact ledger_of_aside reach hstep hagent

/-- The counters of a pool have gone up, or stayed. -/
structure CountsOn (pool after : Pool) : Prop where
  created_le : pool.created ≤ after.created
  creationFailures_le : pool.creationFailures ≤ after.creationFailures
  timeouts_le : pool.timeouts ≤ after.timeouts
  resets_le : pool.resets ≤ after.resets

/-- The statistics of a pool tell the turns that were taken on it. -/
structure Recounts (system : System) (id : PoolId) (acts : List Act) : Prop where
  created_eq : (system.world.pool id).created = acts.countP Act.makes
  creationFailures_eq : (system.world.pool id).creationFailures = acts.countP Act.makesNone
  timeouts_eq : (system.world.pool id).timeouts = acts.countP Act.exhausts
  waiting_eq : (system.world.pool id).waiting = (system.tasksOn id).countP Task.awaitsSlot
  /-- The statistics show these numbers. -/
  stats_eq : (system.world.pool id).stats = { (system.world.pool id).stats with
    created := .ofNat (acts.countP Act.makes)
    creationFailures := .ofNat (acts.countP Act.makesNone)
    timeouts := .ofNat (acts.countP Act.exhausts)
    waiting := .ofNat ((system.tasksOn id).countP Task.awaitsSlot) }
  /-- An acquisition that is over has ended in one way, … -/
  ends_once : ∀ act ∈ acts,
    act.completes.toNat = act.lends.toNat + act.makesNone.toNat + act.exhausts.toNat
  /-- … so that all that are over are accounted for; -/
  completes_eq : acts.countP Act.completes = acts.countP Act.lends +
    (system.world.pool id).creationFailures + (system.world.pool id).timeouts
  /-- the others that began are under way. -/
  begins_eq : acts.countP Act.begins =
    acts.countP Act.completes + (system.tasksOn id).countP Task.isAcquisition
  /-- When nothing is under way, nobody waits and all that began is over. -/
  quiet : system.IsQuiet → (system.world.pool id).waiting = 0 ∧
    acts.countP Act.begins = acts.countP Act.completes

theorem countsOn_of_run? {events : List Event} (reach : system.Reachable)
    (hid : id < system.world.pools.length) (hrun : system.run? events = some next) :
    CountsOn (system.world.pool id) (next.world.pool id) := by
  have ledger := ledger_of_run reach hid hrun
  obtain ⟨hcreated, hfailures, htimeouts⟩ := (Pool.counts_eq_iff _).1 ledger.counts_eq
  exact ⟨Nat.le.intro hcreated.symm, Nat.le.intro hfailures.symm, Nat.le.intro htimeouts.symm,
    run?_resets_le reach hid hrun⟩

/-- In every run the statistics of a pool match what happened, and no counter ever goes down. -/
theorem statistics_match {pids : List Pid} {pools : List (ProcessId × Config)}
    {events : List Event} (hrun : (init pids pools).run? events = some system)
    (hid : id < system.world.pools.length) :
    Recounts system id ((init pids pools).turns id events) ∧
      ∀ later final, system.run? later = some final →
        CountsOn (system.world.pool id) (final.world.pool id) := by
  have reached : (init pids pools).Reachable := ⟨pids, pools, [], rfl⟩
  have reach : system.Reachable := ⟨pids, pools, events, hrun⟩
  have hstart : id < (init pids pools).world.pools.length := by
    rwa [← run?_length_pools reached hrun]
  obtain ⟨config, process, hnew⟩ := (init_each_pool pids pools).pool hstart
  have ledger := ledger_of_run reached hstart hrun
  obtain ⟨hcreated, hfailures, htimeouts⟩ := (Pool.counts_eq_iff _).1 ledger.counts_eq
  rw [hnew] at hcreated hfailures htimeouts
  have hcreated' := hcreated.trans (Nat.zero_add _)
  have hfailures' := hfailures.trans (Nat.zero_add _)
  have htimeouts' := htimeouts.trans (Nat.zero_add _)
  have hcompletes := countP_completes ledger.ends_once
  have hbegins : _ + 0 = _ := ledger.begins_eq
  have hwaiting := waiting_eq reach hid
  refine ⟨⟨hcreated', hfailures', htimeouts', hwaiting, ?_, ledger.ends_once, ?_, hbegins, ?_⟩, ?_⟩
  · rw [← hcreated', ← hfailures', ← htimeouts', ← hwaiting]
    rfl
  · rw [hfailures', htimeouts']
    exact hcompletes
  · intro hquiet
    have hnone : system.tasksOn id = [] := by rw [tasksOn, hquiet, List.filter_nil]
    rw [hnone] at hwaiting hbegins
    exact ⟨hwaiting, hbegins⟩
  · intro later final hlater
    exact countsOn_of_run? reach hid hlater

/-- A creation fails for want of a slot elsewhere, another one outlives an invalidation, the process
changes, and a unit of work asks its own full pool for a second resource. -/
theorem statistics_match_nested : ∃ events system,
    (init [7] [(0, Config.ofSize 1)]).run? events = some system ∧ system.IsQuiet ∧
      (system.world.pool 0).created = 2 ∧ (system.world.pool 0).creationFailures = 1 ∧
      (system.world.pool 0).timeouts = 2 ∧
      ((init [7] [(0, Config.ofSize 1)]).turns 0 events).countP Act.begins = 5 ∧
      ((init [7] [(0, Config.ofSize 1)]).turns 0 events).countP Act.lends = 2 ∧
      Recounts system 0 ((init [7] [(0, Config.ofSize 1)]).turns 0 events) := by
  refine ⟨[.call 0 (.acquire none), .reply 0 (.notCreated (.poolExhausted 1 0)),
    .call 0 (.acquire none), .call 0 .invalidate, .reply 0 (.created "db"),
    .call 0 (.acquire (some (.within 0))), .fork 0 8, .call 0 (.run .usual),
    .reply 0 (.created "db"), .call 0 (.acquire (some (.within 0))), .reply 0 (.worked .null)],
    exists_run? rfl fun system hrun => ?_⟩
  have hid : 0 < system.world.pools.length := by
    cases hrun
    decide
  refine ⟨?_, ?_, ?_, ?_, rfl, rfl, (statistics_match hrun hid).1⟩
  · cases hrun
    rfl
  · cases hrun
    rfl
  · cases hrun
    rfl
  · cases hrun
    rfl

end System

end LeasePool
