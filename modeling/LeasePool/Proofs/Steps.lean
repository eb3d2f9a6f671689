import LeasePool.Proofs.Operations

/-!
Steps. An event of a system makes moves for one pool, or it is one of the few changes that are no
moves: an invalidation, the state change of a teardown, a dropped lease, a change of a pid, or the
passing of time. `System.Passage` lists these cases; invariants of runs follow it.
-/

namespace LeasePool

def Task.pool : Task → PoolId
  | .waiting id .. | .validating id .. | .replacing id .. | .creating id .. | .working id ..
  | .discarding id .. | .pausing id .. | .disconnecting id .. | .sweeping id .. => id

/-- The call neither tears the pool down nor invalidates it. -/
def Call.IsPlain : Call → Prop
  | .disconnectAll | .invalidate => False
  | _ => True

def handOf (tasks : List Task) : Multiset Holding := (tasks.map Task.holdings).sum

theorem handOf_eraseIdx {tasks : List Task} {place : Nat} {task : Task}
    (h : tasks[place]? = some task) :
    handOf tasks = task.holdings + handOf (tasks.eraseIdx place) := by
  obtain ⟨hlt, rfl⟩ := List.getElem?_eq_some_iff.1 h
  exact ((List.getElem_cons_eraseIdx_perm hlt).map Task.holdings).sum_eq.symm

theorem mem_handOf {tasks : List Task} {holding : Holding} :
    holding ∈ handOf tasks ↔ ∃ task ∈ tasks, holding ∈ task.holdings := by
  induction tasks with
  | nil => simp [handOf]
  | cons task rest ih =>
      rw [handOf, List.map_cons, List.sum_cons, Multiset.mem_add]
      simpa [handOf] using or_congr_right ih

def System.scene (system : System) : Scene := ⟨system.world, handOf system.tasks⟩

theorem scene_settle (others : List Task) (result : World × Progress) :
    (System.settle others result).scene = sceneOf result (handOf others) := by
  obtain ⟨world, progress⟩ := result
  cases progress with
  | done outcome => simp [System.settle, System.scene]
  | pending task => rfl

theorem world_settle (others : List Task) (result : World × Progress) :
    (System.settle others result).world = result.1 := by
  obtain ⟨world, progress⟩ := result
  cases progress <;> rfl

/-- A teardown of a pool: its idle resources and the names in its registry are taken out. -/
def Scene.tearDown (scene : Scene) (id : PoolId) : Scene :=
  ⟨scene.world.modifyPool id Pool.tearDown,
    ↑((scene.world.pool id).registry.map (Holding.listed id)) +
      (↑((idleFromBottom (scene.world.pool id).free).map (Holding.loose id)) + scene.hand)⟩

theorem Scene.length_tearDown (scene : Scene) (id : PoolId) :
    (scene.tearDown id).world.pools.length = scene.world.pools.length :=
  World.length_modifyPool

namespace World

variable {world : World} {id : PoolId} {hand : Multiset Holding} {result : World × Progress}

theorem resume_moves {task : Task} {reply : Reply} (h : world.resume task reply = some result)
    (hosts : world.Hosts task.pool) :
    Moves task.pool ⟨world, task.holdings + hand⟩ (sceneOf result hand) := by
  unfold World.resume at h
  split at h <;> cases h
  · exact validated_moves _ _ _ _
  · exact replaced_moves _ _ _ _
  · exact created_moves _ _ _
  · exact notCreated_moves _ _
  · exact worked_moves hosts _ _
  · exact broke_moves hosts _ _ _ _
  · exact discarded_moves hosts.lt _ _ _ _
  · exact disconnected_moves _ _ _ _ _
  · exact swept_moves _ _ _ _

theorem wake_moves {task : Task} (h : world.wake task = some result)
    (hosts : world.Hosts task.pool) :
    Moves task.pool ⟨world, task.holdings + hand⟩ (sceneOf result hand) := by
  unfold World.wake at h
  split at h <;> cases h
  · exact awaitSlot_moves _ _ _
  · exact awaitAttempt_moves hosts.lt _ _ _

/-- A call that is made begins. -/
theorem eq_begin_of_call {call : Call} (h : world.call id call = some result) :
    result = world.begin id call := by
  rw [World.call, Option.ite_none_right_eq_some] at h
  exact (Option.some_inj.1 h.2).symm

theorem Hosts.part (hosts : world.Hosts id) (lease : Lease) : (world.part lease).Hosts id :=
  ⟨hosts.lt, hosts.pool_eq, hosts.pid_eq⟩

/-- All calls but teardowns and invalidations make moves only. -/
theorem begin_moves (hosts : world.Hosts id) {call : Call}
    (hheld : ∀ lease, call.lease? = some lease → lease ∈ world.held)
    (hplain : call.IsPlain) :
    Moves id ⟨world, hand⟩ (sceneOf (world.begin id call) hand) := by
  cases call with
  | acquire patience => exact acquire_moves hosts.lt _ _
  | release lease =>
      rw [World.begin, sceneOf_done]
      exact .head (.part (hheld lease rfl)) (release_moves (hosts.part lease) lease)
  | discard lease =>
      exact .head (.part (hheld lease rfl)) (discard_moves (hosts.part lease).lt lease _)
  | disconnectAll => exact hplain.elim
  | invalidate => exact hplain.elim
  | closeIdle => exact sweep_moves hosts.lt _
  | evictExpired => exact sweep_moves hosts.lt _
  | run policy => exact acquire_moves hosts.lt _ _

theorem disconnectAll_moves : Moves id (Scene.tearDown ⟨world.checkOwner id, hand⟩ id)
    (sceneOf (world.disconnectAll id) hand) :=
  disconnectNext_moves _ _ _

end World

namespace System

variable {system next : System} {event : Event}

/-- The pool on which an event lets an operation go on. -/
def agent? (system : System) : Event → Option PoolId
  | .call id _ => some id
  | .reply place _ => system.tasks[place]?.map Task.pool
  | .wake place => system.tasks[place]?.map Task.pool
  | _ => none

/-- What an event does to a system. -/
inductive Passage (system : System) : Event → System → Prop where
  | moves {event next id} (hid : id < system.world.pools.length)
      (hagent : system.agent? event = some id)
      (hplain : ∀ pool call, event = .call pool call → call.IsPlain)
      (hmoves : Moves id system.scene next.scene) : Passage system event next
  | invalidate {next id} (hid : id < system.world.pools.length)
      (hscene : next.scene = ⟨system.world.invalidate id, handOf system.tasks⟩) :
      Passage system (.call id .invalidate) next
  | disconnect {next id} (hid : id < system.world.pools.length)
      (hmoves : Moves id
        (Scene.tearDown ⟨system.world.checkOwner id, handOf system.tasks⟩ id) next.scene) :
      Passage system (.call id .disconnectAll) next
  | drop {next lease} (hheld : lease ∈ system.world.held)
      (hscene : next.scene = ⟨system.world.dropLease lease, handOf system.tasks⟩) :
      Passage system (.drop lease) next
  | fork {next process pid} (htasks : next.tasks = system.tasks)
      (hscene : next.scene = ⟨system.world.fork process pid, handOf system.tasks⟩) :
      Passage system (.fork process pid) next
  | advance {next time}
      (hscene : next.scene = ⟨system.world.advance time, handOf system.tasks⟩) :
      Passage system (.advance time) next

/-- All pools of a system, and those that its tasks work on, can be worked on. -/
structure Hosted (system : System) : Prop where
  pools : ∀ id < system.world.pools.length, system.world.Hosts id
  tasks : ∀ task ∈ system.tasks, system.world.Hosts task.pool

/-- A call that can be made begins. -/
theorem of_call {id : PoolId} {call : Call} (h : system.step? (.call id call) = some next) :
    id < system.world.pools.length ∧
      (∀ lease, call.lease? = some lease → lease ∈ system.world.held) ∧
      next = settle system.tasks (system.world.begin id call) := by
  obtain ⟨result, hcall, rfl⟩ := Option.map_eq_some_iff.1 h
  rw [World.call, Option.ite_none_right_eq_some, Bool.and_eq_true, decide_eq_true_eq,
    Option.all_eq_true] at hcall
  obtain ⟨⟨hid, hheld⟩, ⟨⟩⟩ := hcall
  exact ⟨hid, fun lease hlease => List.contains_iff_mem.1 (hheld lease hlease), rfl⟩

theorem world_of_call {id : PoolId} {call : Call}
    (h : system.step? (.call id call) = some next) :
    next.world = (system.world.begin id call).1 := by
  rw [(of_call h).2.2]
  exact world_settle _ _

theorem call_passage (hosted : system.Hosted) {id : PoolId} {call : Call}
    (h : system.step? (.call id call) = some next) : system.Passage (.call id call) next := by
  obtain ⟨hid, hheld, rfl⟩ := of_call h
  have hbegin : call.IsPlain → system.Passage (.call id call)
      (settle system.tasks (system.world.begin id call)) := by
    intro hplain
    refine .moves hid rfl ?_ ?_
    · rintro pool _ ⟨⟩
      exact hplain
    · rw [scene_settle]
      exact World.begin_moves (hosted.pools id hid) hheld hplain
  cases call with
  | invalidate =>
      refine .invalidate hid ?_
      rw [scene_settle, World.begin, sceneOf_done]
  | disconnectAll =>
      refine .disconnect hid ?_
      rw [scene_settle]
      exact World.disconnectAll_moves
  | acquire | release | discard | closeIdle | evictExpired | run => exact hbegin trivial

theorem task_passage (hosted : system.Hosted) {place : Nat} {task : Task}
    {result : World × Progress} (htask : system.tasks[place]? = some task)
    (hagent : system.agent? event = some task.pool) (hcall : ∀ id call, event ≠ .call id call)
    (hmoves : ∀ hand, system.world.Hosts task.pool →
      Moves task.pool ⟨system.world, task.holdings + hand⟩ (sceneOf result hand)) :
    system.Passage event (settle (system.tasks.eraseIdx place) result) := by
  have hosts := hosted.tasks task (List.mem_of_getElem? htask)
  refine .moves hosts.lt hagent (fun id call heq => absurd heq (hcall id call)) ?_
  rw [scene_settle, scene, handOf_eraseIdx htask]
  exact hmoves _ hosts

/-- The cases of a step. -/
theorem step?_passage (hosted : system.Hosted) (h : system.step? event = some next) :
    system.Passage event next := by
  cases event with
  | call id call => exact call_passage hosted h
  | reply place reply =>
      obtain ⟨task, htask, h⟩ := Option.bind_eq_some_iff.1 h
      obtain ⟨result, hresume, rfl⟩ := Option.map_eq_some_iff.1 h
      refine task_passage hosted htask ?_ nofun fun _ => World.resume_moves hresume
      rw [agent?, htask, Option.map_some]
  | wake place =>
      obtain ⟨task, htask, h⟩ := Option.bind_eq_some_iff.1 h
      obtain ⟨result, hwake, rfl⟩ := Option.map_eq_some_iff.1 h
      refine task_passage hosted htask ?_ nofun fun _ => World.wake_moves hwake
      rw [agent?, htask, Option.map_some]
  | drop lease =>
      simp only [step?, Option.ite_none_right_eq_some] at h
      obtain ⟨hheld, ⟨⟩⟩ := h
      exact .drop hheld rfl
  | fork process pid =>
      cases h
      exact .fork rfl rfl
  | advance time =>
      cases h
      exact .advance rfl

/-- What happens outside all operations changes no pool. -/
theorem step?_pools_eq (hosted : system.Hosted) (h : system.step? event = some next)
    (hagent : system.agent? event = none) : next.world.pools = system.world.pools := by
  cases step?_passage hosted h with
  | moves _ hsome =>
      rw [hsome] at hagent
      cases hagent
  | invalidate | disconnect => cases hagent
  | @drop _ lease _ hscene =>
      have hworld : next.world = system.world.dropLease lease := congrArg Scene.world hscene
      rw [hworld, World.dropLease, World.letGo_pools, World.part]
  | @fork _ process pid _ hscene =>
      have hworld : next.world = system.world.fork process pid := congrArg Scene.world hscene
      rw [hworld, World.fork]
  | @advance _ time hscene =>
      have hworld : next.world = system.world.advance time := congrArg Scene.world hscene
      rw [hworld, World.advance]

/-- What steps keep, runs keep. -/
theorem run?_induction {holds : System → Prop}
    (hstep : ∀ system event next, holds system → system.step? event = some next → holds next)
    {events : List Event} (hstart : holds system) (hrun : system.run? events = some next) :
    holds next := by
  induction events generalizing system with
  | nil =>
      cases hrun
      exact hstart
  | cons event rest ih =>
      obtain ⟨middle, hmiddle, hrest⟩ := Option.bind_eq_some_iff.1 hrun
      exact ih (hstep system event middle hstart hmiddle) hrest

theorem run?_append (system : System) (events later : List Event) :
    system.run? (events ++ later) = (system.run? events).bind fun next => next.run? later := by
  induction events generalizing system with
  | nil => rfl
  | cons event rest ih =>
      rw [List.cons_append, run?, run?, Option.bind_assoc]
      exact Option.bind_congr fun next _ => ih next

theorem run?_concat (system : System) (events : List Event) (event : Event) :
    system.run? (events ++ [event]) = (system.run? events).bind fun next => next.step? event := by
  rw [run?_append]
  refine Option.bind_congr fun next _ => ?_
  rw [run?]
  cases next.step? event <;> rfl

theorem run?_cons (hstep : system.step? event = some next) (rest : List Event) :
    system.run? (event :: rest) = next.run? rest := by
  rw [run?, hstep, Option.bind_some]

/-- Something holds of every event of a run and the state that it happens in. -/
def Throughout (start : System) (holds : System → Event → Prop) (events : List Event) : Prop :=
  ∀ earlier event later middle, events = earlier ++ event :: later →
    start.run? earlier = some middle → holds middle event

theorem throughout_nil {holds : System → Event → Prop} : system.Throughout holds [] := by
  intro earlier event later middle heq
  cases earlier <;> cases heq

theorem Throughout.cons {holds : System → Event → Prop} {events : List Event}
    (hstep : system.step? event = some next) (hfirst : holds system event)
    (hrest : next.Throughout holds events) : system.Throughout holds (event :: events) := by
  intro earlier last later middle heq hrun
  cases earlier with
  | nil =>
      cases hrun
      exact (List.cons.inj heq).1 ▸ hfirst
  | cons first earlier =>
      obtain ⟨rfl, rfl⟩ := List.cons.inj heq
      rw [run?_cons hstep] at hrun
      exact hrest earlier last later middle rfl hrun

theorem throughout_cons_iff {holds : System → Event → Prop} {events : List Event}
    (hstep : system.step? event = some next) :
    system.Throughout holds (event :: events) ↔
      holds system event ∧ next.Throughout holds events := by
  refine ⟨fun h => ⟨h [] event events system rfl rfl, ?_⟩, fun h => .cons hstep h.1 h.2⟩
  rintro earlier last later middle rfl hrun
  exact h (event :: earlier) last later middle rfl ((run?_cons hstep _).trans hrun)

/-- What holds throughout a run holds of its last event, and throughout the run before it. -/
theorem Throughout.of_concat {holds : System → Event → Prop} {events : List Event}
    (h : system.Throughout holds (events ++ [event])) (hrun : system.run? events = some next) :
    system.Throughout holds events ∧ holds next event := by
  constructor
  · rintro earlier last later middle rfl
    exact h earlier last (later ++ [event]) middle (by simp)
  · exact h events event [] next rfl hrun

/-- Events that can happen lead to a state with what holds after all runs of them. -/
theorem exists_run? {events : List Event} {holds : System → Prop}
    (hsome : (system.run? events).isSome)
    (h : ∀ next, system.run? events = some next → holds next) :
    ∃ next, system.run? events = some next ∧ holds next := by
  obtain ⟨next, hrun⟩ := Option.isSome_iff_exists.1 hsome
  exact ⟨next, hrun, h next hrun⟩

theorem Reachable.run? {events : List Event} (h : system.Reachable)
    (hrun : system.run? events = some next) : next.Reachable := by
  obtain ⟨pids, pools, earlier, hearlier⟩ := h
  refine ⟨pids, pools, earlier ++ events, ?_⟩
  rw [run?_append, hearlier]
  exact hrun

theorem Reachable.step? (h : system.Reachable) (hstep : system.step? event = some next) :
    next.Reachable :=
  h.run? (run?_cons hstep [])

theorem foldl_addPool (world : World) (pools : List (ProcessId × Config)) :
    let after := pools.foldl (fun world pool => world.addPool pool.1 pool.2) world
    after.pools = world.pools ++ pools.mapIdx (fun place pool =>
        Pool.new pool.2 pool.1 ⟨world.pools.length + place, world.pidOf pool.1, 0⟩) ∧
      after.pids = world.pids ∧ after.resources = world.resources ∧ after.held = world.held ∧
      ∀ signal ∈ after.journal, signal ∈ world.journal ∨ ∃ notice, signal = .notice notice := by
  induction pools generalizing world with
  | nil => exact ⟨(List.append_nil _).symm, rfl, rfl, rfl, fun _ => .inl⟩
  | cons pool rest ih =>
      obtain ⟨hpools, hpids, hresources, hheld, hjournal⟩ := ih (world.addPool pool.1 pool.2)
      refine ⟨?_, hpids, hresources, hheld, ?_⟩
      · rw [List.foldl_cons, hpools]
        simp [World.addPool, World.note, World.emit, World.pidOf, List.mapIdx_cons,
          Nat.add_assoc, Nat.add_comm 1]
      · intro signal hmem
        rcases hjournal signal hmem with hold | hnew
        · rcases List.mem_cons.1 hold with rfl | hold
          · exact .inr ⟨_, rfl⟩
          · exact .inl hold
        · exact .inr hnew

/-- The pools of a system that nothing happened in yet. -/
theorem init_pools (pids : List Pid) (pools : List (ProcessId × Config)) :
    (init pids pools).world.pools = pools.mapIdx fun id pool =>
      Pool.new pool.2 pool.1 ⟨id, pids.getD pool.1 0, 0⟩ := by
  obtain ⟨hpools, -⟩ := foldl_addPool (World.ofPids pids) pools
  simpa [init, World.ofPids, World.pidOf] using hpools

theorem init_each_pool (pids : List Pid) (pools : List (ProcessId × Config)) :
    (init pids pools).world.EachPool fun id pool =>
      ∃ config process, pool = Pool.new config process ⟨id, pids.getD process 0, 0⟩ := by
  intro id pool hget
  rw [init_pools, List.getElem?_mapIdx] at hget
  obtain ⟨⟨process, config⟩, -, rfl⟩ := Option.map_eq_some_iff.1 hget
  exact ⟨config, process, rfl⟩

/-- The pool that was built for an entry of the list. -/
theorem init_pool (pids : List Pid) {pools : List (ProcessId × Config)} {id : PoolId}
    {process : ProcessId} {config : Config} (hpool : pools[id]? = some (process, config)) :
    id < (init pids pools).world.pools.length ∧
      (init pids pools).world.pool id = Pool.new config process ⟨id, pids.getD process 0, 0⟩ := by
  have hget : (init pids pools).world.pools[id]? =
      some (Pool.new config process ⟨id, pids.getD process 0, 0⟩) := by
    rw [init_pools, List.getElem?_mapIdx, hpool]
    rfl
  have hid := (List.getElem?_eq_some_iff.1 hget).1
  exact ⟨hid, Option.some_inj.1 ((World.getElem?_pools hid).symm.trans hget)⟩

theorem init_pids (pids : List Pid) (pools : List (ProcessId × Config)) :
    (init pids pools).world.pids = pids :=
  (foldl_addPool (World.ofPids pids) pools).2.1

theorem init_resources (pids : List Pid) (pools : List (ProcessId × Config)) :
    (init pids pools).world.resources = [] :=
  (foldl_addPool (World.ofPids pids) pools).2.2.1

theorem init_held (pids : List Pid) (pools : List (ProcessId × Config)) :
    (init pids pools).world.held = [] :=
  (foldl_addPool (World.ofPids pids) pools).2.2.2.1

theorem init_journal (pids : List Pid) (pools : List (ProcessId × Config)) :
    ∀ signal ∈ (init pids pools).world.journal, ∃ notice, signal = .notice notice := by
  intro signal hmem
  obtain ⟨-, -, -, -, hjournal⟩ := foldl_addPool (World.ofPids pids) pools
  exact (hjournal signal hmem).resolve_left List.not_mem_nil

end System
end LeasePool
