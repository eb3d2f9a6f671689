import LeasePool.Proofs.Capacity

/-!
Sweeps. A sweep makes the slots of the idle resources it takes vacant before it closes the first of
them, and lets go of them after it closed the last one. In between their slots count twice, so the
pool may come to have more resources than its size, by as many as its sweeps have in hand.
-/

namespace LeasePool

/-- Every slot that a sweep takes a resource out of is vacant. -/
theorem Pool.count_vacant_vacate (pool : Pool) (takes : IdleResource → Bool) :
    (pool.vacate takes).free.count .vacant =
      pool.free.count .vacant + (pool.selected takes).length := by
  have hbefore := pool.card_idle_add_vacant
  have hafter := (pool.vacate takes).card_idle_add_vacant
  have htaken := congrArg Multiset.card (pool.idle_vacate_add_selected takes)
  rw [Multiset.card_add, Multiset.coe_card] at htaken
  rw [Pool.length_vacate] at hafter
  omega

variable {world : World} {id : PoolId} {hand : Multiset Holding} {taken rest : List ResourceId}

/-- The live resources of a pool and those that it may make in its vacant slots. -/
def World.extentOf (world : World) (id : PoolId) : Nat :=
  world.liveOf id + (world.pool id).free.count .vacant

/-- What a calm pool has and may make exceeds its size by what is apart from its slots at most. -/
theorem Scene.Calm.extentOf_le (calm : Calm id ⟨world, hand⟩) (fits : Fits ⟨world, hand⟩)
    (accounted : Accounted ⟨world, hand⟩) (paid : Paid id ⟨world, hand⟩)
    (hid : id < world.pools.length) :
    world.extentOf id ≤ (world.pool id).maxSize + looseOf hand id := by
  have hfree := (world.pool id).card_idle_add_vacant
  have hout := calm.outOf_eq fits accounted hid
  have hslots := (accounted.pools.pool hid).slots_le
  simp only [Pool.slots] at hslots
  simp only [Paid] at paid
  rw [World.extentOf]
  omega

/-- A sweep that takes resources out leaves them alive and their slots vacant. -/
theorem World.extentOf_vacate (hid : id < world.pools.length) (takes : IdleResource → Bool) :
    (world.modifyPool id fun pool => pool.vacate takes).extentOf id =
      world.extentOf id + ((world.pool id).selected takes).length := by
  have hpool : (world.modifyPool id fun pool => pool.vacate takes).pool id =
      (world.pool id).vacate takes := World.pool_modifyPool_self hid
  have hlive : (world.modifyPool id fun pool => pool.vacate takes).liveOf id =
      world.liveOf id := rfl
  rw [extentOf, hpool, hlive, Pool.count_vacant_vacate, ← Nat.add_assoc, extentOf]

/-- The pool is calm, and all resources are in their places. -/
structure Scene.Orderly (id : PoolId) (scene : Scene) : Prop where
  calm : scene.Calm id
  fits : scene.Fits
  kept : scene.Kept

theorem Scene.Orderly.tell (h : Orderly id ⟨world, hand⟩) (notice : Notice) :
    Orderly id ⟨world.note notice, hand⟩ := by
  have move : Move id ⟨world, hand⟩ ⟨world.note notice, hand⟩ := .tell notice
  exact ⟨⟨h.calm.noted, h.calm.floor, h.calm.ungripped⟩, move.fits h.fits,
    move.kept h.fits h.kept⟩

/-- What a sweep has in hand is destroyed when it lets go of it, for no teardown grips it. -/
theorem Scene.Orderly.extentOf_letGoAll
    (h : Orderly id ⟨world, ↑(taken.map (Holding.loose id)) + hand⟩) :
    (world.letGoAll taken).extentOf id + taken.length = world.extentOf id := by
  have hmade : ∀ resource ∈ taken, world.Made id resource ∧
      (gripped ⟨world, ↑(taken.map (Holding.loose id)) + hand⟩).count resource = 0 := by
    intro resource hmem
    have hloose : Holding.loose id resource ∈ (↑(taken.map (Holding.loose id)) + hand) :=
      Multiset.mem_add.2 (.inl (Multiset.mem_coe.2 (List.mem_map_of_mem hmem)))
    have hmine := (h.fits.hand _ hloose).2
    exact ⟨hmine, h.calm.count_gripped h.fits hmine⟩
  have kept := h.kept
  rw [Kept, owned_add_loose] at kept
  have hlive : (world.letGoAll taken).liveOf id + taken.length = world.liveOf id :=
    World.liveOf_letGoAll kept hmade
  have hpool : (world.letGoAll taken).pool id = world.pool id :=
    World.pool_congr World.letGoAll_pools
  rw [World.extentOf, World.extentOf, hpool]
  omega

/-- What is left of a sweep that took `taken` and still has to close `rest`. -/
def sweepsLeft (id : PoolId) (taken : List ResourceId) : List ResourceId → List Task
  | [] => []
  | resource :: rest => [.sweeping id resource rest taken]

/-- The resources that a call takes out of the pool, if it begins a sweep. -/
def World.sweptBy? (world : World) (id : PoolId) : Call → Option (List ResourceId)
  | .closeIdle => some ((world.pool id).selected fun _ => true)
  | .evictExpired => some ((world.pool id).selected ((world.pool id).isExpired world.clock))
  | _ => none

theorem settle_sweepNext (others : List Task) (taken rest : List ResourceId) :
    System.settle others (world.sweepNext id taken rest) =
      ⟨(world.sweepNext id taken rest).1, sweepsLeft id taken rest ++ others⟩ := by
  cases rest with
  | nil => rfl
  | cons resource rest => rfl

/-- A sweep lets go of what it took when nothing is left to close, and not before. -/
theorem Scene.Orderly.extentOf_sweepNext
    (h : Orderly id ⟨world, ↑(taken.map (Holding.loose id)) + hand⟩) (rest : List ResourceId) :
    (world.sweepNext id taken rest).1.extentOf id + (if rest = [] then taken.length else 0) =
      world.extentOf id := by
  cases rest with
  | cons resource rest => rfl
  | nil =>
      by_cases hnone : taken.isEmpty
      · simp only [World.sweepNext, hnone, if_true]
        exact h.extentOf_letGoAll
      · simp only [World.sweepNext, hnone, if_false, if_true, Bool.false_eq_true]
        exact (h.tell _).extentOf_letGoAll

theorem Scene.Orderly.extentOf_swept
    (h : Orderly id ⟨world, ↑(taken.map (Holding.loose id)) + hand⟩) (resource : ResourceId)
    (rest : List ResourceId) (failure : Option Failure) :
    (world.swept id resource rest taken failure).1.extentOf id +
      (if rest = [] then taken.length else 0) = world.extentOf id := by
  cases failure with
  | none => exact h.extentOf_sweepNext rest
  | some failure => exact (h.tell _).extentOf_sweepNext rest

theorem World.sweepNext_self (taken : List ResourceId) :
    (world.sweepNext id taken taken).1 = world := by
  cases taken with
  | nil => rfl
  | cons resource rest => rfl

/-- A sweep of a pool that knows its process begins with the pool as it is. -/
theorem Scene.Calm.sweep_eq (calm : Calm id ⟨world, hand⟩) (takes : Pool → IdleResource → Bool) :
    world.sweep id takes =
      (world.modifyPool id fun pool => pool.vacate (takes (world.pool id))).sweepNext id
        ((world.pool id).selected (takes (world.pool id)))
        ((world.pool id).selected (takes (world.pool id))) := by
  have hvacate : (world.modifyPool id fun pool => pool.vacate (takes pool)) =
      world.modifyPool id fun pool => pool.vacate (takes (world.pool id)) :=
    World.modifyPool_congr rfl
  rw [World.sweep, World.checkOwner_of_eq calm.noted.symm, hvacate]

/-- A sweep begins: what it takes out stays alive, and its slots are vacant. -/
theorem Scene.Calm.begin_sweep (calm : Calm id ⟨world, hand⟩) (hid : id < world.pools.length)
    {call : Call} (hswept : world.sweptBy? id call = some taken) (others : List Task) :
    (System.settle others (world.begin id call)).tasks = sweepsLeft id taken taken ++ others ∧
      (System.settle others (world.begin id call)).world.extentOf id =
        world.extentOf id + taken.length := by
  have hsweep : ∃ takes : Pool → IdleResource → Bool,
      world.begin id call = world.sweep id takes ∧
        taken = (world.pool id).selected (takes (world.pool id)) := by
    cases call with
    | closeIdle => exact ⟨fun _ _ => true, rfl, (Option.some_inj.1 hswept).symm⟩
    | evictExpired =>
        exact ⟨fun pool entry => pool.isExpired world.clock entry, rfl,
          (Option.some_inj.1 hswept).symm⟩
    | acquire | release | discard | disconnectAll | invalidate | run => cases hswept
  obtain ⟨takes, hbegin, rfl⟩ := hsweep
  rw [hbegin, calm.sweep_eq, settle_sweepNext, World.sweepNext_self]
  exact ⟨rfl, World.extentOf_vacate hid _⟩

/-- How many resources the sweep of a task has taken out of a pool and still holds. -/
def Task.sweptOf (id : PoolId) : Task → Nat
  | .sweeping pool _ _ taken => if pool = id then taken.length else 0
  | _ => 0

/-- How many resources the sweeps among tasks have taken out of a pool and still hold. -/
def sweptOf (id : PoolId) : List Task → Nat
  | [] => 0
  | task :: rest => task.sweptOf id + sweptOf id rest

/-- What a task has in hand apart from slots, if it is no teardown of the pool, a sweep took. -/
theorem looseOf_holdings {task : Task}
    (hopen : ∀ holding ∈ task.holdings, holding.isTeardown id = false) :
    looseOf task.holdings id = task.sweptOf id := by
  cases task with
  | waiting | validating | replacing | creating | working | discarding | pausing => rfl
  | disconnecting pool resource rest free closed =>
      have hother : (pool == id) = false :=
        hopen (.grip pool resource) (by simp [Task.holdings])
      apply Multiset.countP_eq_zero.2
      intro holding hmem
      simp only [Task.holdings, Multiset.mem_cons, Multiset.mem_add, Multiset.mem_coe,
        List.mem_map] at hmem
      rcases hmem with rfl | ⟨other, -, rfl⟩ | ⟨other, -, rfl⟩
      · simp [Holding.isLoose]
      · simp [Holding.isLoose]
      · simp [Holding.isLoose, hother]
  | sweeping pool resource rest taken =>
      have hnames : looseOf (↑((resource :: rest).map (Holding.mention pool))) id = 0 := by
        apply Multiset.countP_eq_zero.2
        intro holding hmem
        obtain ⟨other, -, rfl⟩ := List.mem_map.1 (Multiset.mem_coe.1 hmem)
        simp [Holding.isLoose]
      rw [Task.holdings, Task.sweptOf]
      by_cases hpool : pool = id
      · rw [hpool] at hnames ⊢
        rw [looseOf_add_loose, hnames, if_pos rfl, Nat.zero_add]
      · rw [looseOf_add, hnames, if_neg hpool]
        intro holding hmem
        obtain ⟨other, -, rfl⟩ := List.mem_map.1 (Multiset.mem_coe.1 hmem)
        exact beq_false_of_ne hpool

theorem looseOf_handOf {tasks : List Task}
    (hopen : ∀ holding ∈ handOf tasks, holding.isTeardown id = false) :
    looseOf (handOf tasks) id = sweptOf id tasks := by
  induction tasks with
  | nil => rfl
  | cons task rest ih =>
      have hhand : handOf (task :: rest) = task.holdings + handOf rest := List.sum_cons
      rw [hhand] at hopen ⊢
      have hfirst := looseOf_holdings fun holding hmem =>
        hopen holding (Multiset.mem_add.2 (.inl hmem))
      have hrest := ih fun holding hmem => hopen holding (Multiset.mem_add.2 (.inr hmem))
      rw [sweptOf, ← hfirst, ← hrest]
      exact Multiset.countP_add _ _ _

namespace System

variable {system next : System} {process : ProcessId}

/-- The resources that a pool made and that were not destroyed, and those that it may make in its
vacant slots. -/
def extent (system : System) (id : PoolId) : Nat :=
  (system.survivors id).length + (system.world.pool id).free.count .vacant

theorem extent_eq (reach : system.Reachable) : system.extent id = system.world.extentOf id := by
  rw [extent, length_survivors reach, World.extentOf]

/-- While a sweep waits, what it took is in its hand. -/
theorem orderly_of_sweeping (reach : system.Reachable) (calm : system.scene.Calm id) {place : Nat}
    {resource : ResourceId}
    (htask : system.tasks[place]? = some (.sweeping id resource rest taken)) :
    Scene.Orderly id ⟨system.world, ↑(taken.map (Holding.loose id)) +
      (↑((resource :: rest).map (Holding.mention id)) +
        handOf (system.tasks.eraseIdx place))⟩ := by
  have orderly : system.scene.Orderly id := ⟨calm, reachable_fits reach, reachable_kept reach⟩
  rwa [scene, handOf_eraseIdx htask, Task.holdings, add_assoc] at orderly

/-- A pool that is neither torn down nor taken to another process is calm, and its live resources
are paid for. -/
theorem calm_of_run {pids : List Pid} {pools : List (ProcessId × Config)} {events : List Event}
    {config : Config} (hpool : pools[id]? = some (process, config))
    (hrun : (init pids pools).run? events = some system)
    (hfork : ∀ pid, .fork process pid ∉ events) (hteardown : .call id .disconnectAll ∉ events) :
    system.scene.Calm id ∧ system.scene.Paid id := by
  obtain ⟨hid, hnew⟩ := init_pool pids hpool
  obtain ⟨hcalm, hpaid⟩ := init_paid pids hpool
  have hprocess : ((init pids pools).world.pool id).process = process := by
    rw [hnew, Pool.new]
  apply run?_paid ⟨pids, pools, [], rfl⟩ hid hprocess hrun ?_ hcalm hpaid
  intro event hmem
  constructor
  · rintro rfl
    exact hteardown hmem
  · rintro pid rfl
    exact hfork pid hmem

/-- Live resources and vacant slots exceed the size of a pool by what its sweeps have in hand, at
most. A sweep makes the slots of all it takes vacant when it begins, and what it took is destroyed
only with the last answer: as long as it waits for answers, the sum is larger than before by the
number of resources taken. -/
theorem extent_in_sweeps {pids : List Pid} {pools : List (ProcessId × Config)}
    {events : List Event} {config : Config} (hpool : pools[id]? = some (process, config))
    (hrun : (init pids pools).run? events = some system)
    (hfork : ∀ pid, .fork process pid ∉ events) (hteardown : .call id .disconnectAll ∉ events) :
    system.extent id ≤ config.maxSize.toNat + sweptOf id system.tasks ∧
      (∀ call taken, system.world.sweptBy? id call = some taken →
        ∃ next, system.step? (.call id call) = some next ∧
          next.tasks = sweepsLeft id taken taken ++ system.tasks ∧
          next.extent id = system.extent id + taken.length) ∧
      ∀ place resource rest taken failure,
        system.tasks[place]? = some (.sweeping id resource rest taken) →
        ∃ next, system.step? (.reply place (.closed failure)) = some next ∧
          next.tasks = sweepsLeft id taken rest ++ system.tasks.eraseIdx place ∧
          next.extent id + (if rest = [] then taken.length else 0) = system.extent id := by
  have reach : system.Reachable := ⟨pids, pools, events, hrun⟩
  obtain ⟨calm, paid⟩ := calm_of_run hpool hrun hfork hteardown
  have hid : id < system.world.pools.length := by
    rw [run?_length_pools ⟨pids, pools, [], rfl⟩ hrun]
    exact (init_pool pids hpool).1
  rw [extent_eq reach]
  refine ⟨?_, ?_, ?_⟩
  · have hle := calm.extentOf_le (reachable_fits reach) (reachable_accounted reach) paid hid
    rw [Pool.maxSize, (run?_slots hpool hrun).1, looseOf_handOf calm.ungripped] at hle
    exact hle
  · intro call taken hswept
    have hstep : system.step? (.call id call) =
        some (settle system.tasks (system.world.begin id call)) := by
      cases call with
      | closeIdle | evictExpired => simp [step?, World.call, hid, Call.lease?]
      | acquire | release | discard | disconnectAll | invalidate | run => cases hswept
    rw [hstep]
    refine ⟨_, rfl, ?_⟩
    rw [extent_eq (reach.step? hstep)]
    exact calm.begin_sweep hid hswept _
  · intro place resource rest taken failure htask
    have hstep : system.step? (.reply place (.closed failure)) =
        some (settle (system.tasks.eraseIdx place)
          (system.world.swept id resource rest taken failure)) := by
      simp [step?, htask, World.resume]
    rw [hstep]
    refine ⟨_, rfl, ?_⟩
    rw [extent_eq (reach.step? hstep), World.swept, settle_sweepNext]
    exact ⟨rfl, (orderly_of_sweeping reach calm htask).extentOf_swept resource rest failure⟩

/-- A sweep of a pool whose only resource is idle. -/
theorem extent_in_sweeps_of_idle : ∃ system next,
    (init [7] [(0, Config.ofSize 1)]).run?
        [.call 0 (.acquire none), .reply 0 (.created "db"),
          .call 0 (.release ⟨0, ⟨0, 7, 0⟩, 0⟩)] = some system ∧
      system.extent 0 ≤ 1 + sweptOf 0 system.tasks ∧
      system.step? (.call 0 .closeIdle) = some next ∧ next.extent 0 = system.extent 0 + 1 := by
  have hpool : [((0 : ProcessId), Config.ofSize 1)][0]? = some (0, Config.ofSize 1) := rfl
  obtain ⟨system, hrun, hswept⟩ : ∃ system, (init [7] [(0, Config.ofSize 1)]).run?
      [.call 0 (.acquire none), .reply 0 (.created "db"),
        .call 0 (.release ⟨0, ⟨0, 7, 0⟩, 0⟩)] = some system ∧
      system.world.sweptBy? 0 .closeIdle = some [0] := ⟨_, rfl, rfl⟩
  obtain ⟨hextent, hbegin, -⟩ := extent_in_sweeps hpool hrun (by simp) (by simp)
  obtain ⟨next, hstep, -, hnext⟩ := hbegin .closeIdle [0] hswept
  exact ⟨system, next, hrun, hextent, hstep, hnext⟩

/-- The factory is asked to close the only resource that the pool may have, which is alive, and the
pool has a vacant slot. -/
theorem vacant_slot_in_sweep : ∃ system,
    (init [7] [(0, Config.ofSize 1)]).run?
        [.call 0 (.acquire none), .reply 0 (.created "db"),
          .call 0 (.release ⟨0, ⟨0, 7, 0⟩, 0⟩), .call 0 .closeIdle] = some system ∧
      system.tasks.map Task.question? = [some (.close 0 0)] ∧
      (Config.ofSize 1).maxSize.toNat < (system.survivors 0).length +
        (system.world.pool 0).free.count .vacant :=
  ⟨_, rfl, rfl, by decide⟩

end System
end LeasePool
