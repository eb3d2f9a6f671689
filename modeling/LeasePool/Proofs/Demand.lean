import LeasePool.Proofs.Stocks
import Mathlib.Order.Bounds.Basic

/-!
Demand. What a pool without limits of time and without checks made so far is the most that was out
at one time, as long as it only lends and takes back. Each event that concerns it takes its stock
one step on, and a run follows.
-/

namespace LeasePool

variable {id : PoolId}

namespace System

variable {system next final start : System} {event : Event} {events : List Event}
  {task? : Option Task} {progress : Progress} {lease : Lease} {config : Config}

def stock (system : System) (id : PoolId) : Stock where
  free := (system.world.pool id).free
  lent := (system.heldFrom id).length
  making := (system.tasksOn id).countP Task.creates
  created := (system.world.pool id).created

theorem Spared.stock_eq (h : Spared id system next) : next.stock id = system.stock id := by
  rw [stock, h.pool_eq, h.held_perm.length_eq, h.tasks_perm.countP_eq, stock]

/-- A pool without limits of time runs in the process that it knows, all its leases are of its
owner, and nothing is under way on it but acquisitions. -/
structure Lending (system : System) (id : PoolId) : Prop where
  reach : system.Reachable
  lt : id < system.world.pools.length
  noted : (system.world.pool id).notedPid = system.world.currentPid id
  plain : (system.world.pool id).config.IsPlain
  held : ∀ lease ∈ system.heldFrom id, lease.owner = (system.world.pool id).owner
  tasks : ∀ task ∈ system.tasksOn id, task.Acquires id (system.world.pool id).owner

/-- The event is an acquisition from the pool or the return of one of its leases, or an acquisition
goes on, or the event does not concern the pool. Leases return while no resource is being made, and
the process of the pool keeps its pid. -/
inductive Serves (id : PoolId) (system : System) : Event → Prop where
  | acquire (patience : Option Patience) : Serves id system (.call id (.acquire patience))
  | release (lease : Lease) (hpool : lease.owner.pool = id)
      (hidle : ∀ task ∈ system.tasksOn id, task.creates = false) :
      Serves id system (.call id (.release lease))
  | reply (place : Nat) (reply : Reply)
      (hagent : system.agent? (.reply place reply) = some id) :
      Serves id system (.reply place reply)
  | wake (place : Nat) (hagent : system.agent? (.wake place) = some id) :
      Serves id system (.wake place)
  | aside (event : Event) (spares : Spares id system event)
      (hfork : ∀ process pid, event = .fork process pid →
        process ≠ (system.world.pool id).process) : Serves id system event

/-- A turn of an operation on the pool takes its stock one step on. -/
structure Advances (id : PoolId) (system next : System) (progress : Progress) : Prop where
  step : Stock.Step (system.stock id) (next.stock id)
  held : ∀ lease ∈ next.heldFrom id, lease ∈ system.heldFrom id ∨
    lease.owner = (system.world.pool id).owner
  tasks : ∀ task, progress = .pending task → task.Acquires id (system.world.pool id).owner

/-- A turn that takes no lease. -/
theorem Turn.advances (turn : system.Turn id event task? next progress) (reach : system.Reachable)
    (htaken : event.taken? = none)
    (hstep : ∀ lent making, Stock.Step
      ⟨(system.world.pool id).free, lent, task?.toList.countP Task.creates + making,
        (system.world.pool id).created⟩
      ⟨(next.world.pool id).free, progress.delivered.length + lent,
        progress.task?.toList.countP Task.creates + making, (next.world.pool id).created⟩)
    (howner : ∀ lease ∈ progress.delivered, lease.owner = (system.world.pool id).owner)
    (htasks : ∀ task, progress = .pending task → task.Acquires id (system.world.pool id).owner) :
    Advances id system next progress := by
  obtain ⟨others, hbefore, hafter⟩ := turn.tasksOn_eq
  have hheld := turn.heldFrom_eq reach htaken
  refine ⟨?_, fun lease hmem => ?_, htasks⟩
  · rw [stock, stock, hbefore.countP_eq, hafter, hheld, List.countP_append, List.countP_append,
      List.length_append]
    exact hstep _ _
  · rw [hheld] at hmem
    exact (List.mem_append.1 hmem).symm.imp_right (howner lease)

/-- A turn of an acquisition that has no slot yet. -/
theorem Turn.advances_of_draws (turn : system.Turn id event task? next progress)
    (reach : system.Reachable) (htaken : event.taken? = none)
    (htask : ∀ task ∈ task?, task.creates = false)
    (draws : Draws id (system.world.pool id).owner (system.world.pool id).free
      (next.world.pool id).free progress)
    (hcreated : (next.world.pool id).created = (system.world.pool id).created) :
    Advances id system next progress := by
  have hnone : task?.toList.countP Task.creates = 0 :=
    List.countP_eq_zero.2 fun task hmem => by simp [htask task (Option.mem_toList.1 hmem)]
  refine turn.advances reach htaken (fun lent making => ?_) draws.owner_eq draws.acquires
  rw [hnone, Nat.zero_add, hcreated]
  exact draws.step lent making _

/-- A turn of a pool that knows its process does not reset it. -/
theorem Turn.steady (turn : system.Turn id event task? next progress) (reach : system.Reachable)
    (hid : id < system.world.pools.length)
    (hnoted : (system.world.pool id).notedPid = system.world.currentPid id)
    (hplain : ∀ pool call, event = .call pool call → call.IsPlain) :
    (system.world.pool id).Steady (next.world.pool id) ∧
      (next.world.pool id).notedPid = next.world.currentPid id := by
  have fits := reachable_fits reach
  cases step?_passage (hosted_of_fits fits) turn.step? with
  | moves _ _ _ hmoves => exact Moves.steady hmoves fits (reachable_accounted reach) hid hnoted
  | invalidate | disconnect => exact absurd (hplain _ _ rfl) not_false
  | drop | fork | advance => cases turn

/-- A pool that stays as it is runs in the same process, unless that process changes its pid. -/
theorem step?_currentPid (reach : system.Reachable) (hstep : system.step? event = some next)
    (hpool : next.world.pool id = system.world.pool id)
    (hfork : ∀ process pid, event = .fork process pid →
      process ≠ (system.world.pool id).process) :
    next.world.currentPid id = system.world.currentPid id := by
  have hprocess := congrArg Pool.process hpool
  cases step?_passage (hosted_of_fits (reachable_fits reach)) hstep with
  | moves _ _ _ hmoves => exact World.currentPid_congr (Moves.pids_eq hmoves) hprocess
  | invalidate _ hscene =>
      have hpids := congrArg (fun scene => scene.world.pids) hscene
      exact World.currentPid_congr (hpids.trans World.invalidate_pids) hprocess
  | drop _ hscene =>
      have hpids := congrArg (fun scene => scene.world.pids) hscene
      exact World.currentPid_congr (hpids.trans World.letGo_pids) hprocess
  | advance hscene =>
      have hpids := congrArg (fun scene => scene.world.pids) hscene
      exact World.currentPid_congr hpids hprocess
  | disconnect _ hmoves =>
      exact World.currentPid_congr ((Moves.pids_eq hmoves).trans World.checkOwner_pids) hprocess
  | @fork _ process pid _ hscene =>
      have hworld : next.world = system.world.fork process pid := congrArg Scene.world hscene
      rw [hworld]
      exact World.currentPid_fork_of_ne (hfork process pid rfl)

namespace Lending

/-- An acquisition begins. -/
theorem advances_of_acquire {patience : Option Patience} (h : system.Lending id)
    (turn : system.Turn id (.call id (.acquire patience)) task? next progress) :
    Advances id system next progress := by
  have hpool : (system.world.modifyPool id Pool.enqueue).pool id =
      (system.world.pool id).enqueue := World.pool_modifyPool_self h.lt
  have hid : id < (system.world.modifyPool id Pool.enqueue).pools.length := by
    rw [World.length_modifyPool]
    exact h.lt
  have hplain : ((system.world.modifyPool id Pool.enqueue).pool id).config.IsPlain := by
    rw [hpool]
    exact h.plain
  have hturn := turn
  cases turn with
  | call hcall =>
      obtain rfl := World.eq_begin_of_call hcall
      have hbegin : system.world.begin id (.acquire patience) = _ :=
        World.acquire_of_noted h.noted
      rw [hbegin] at hturn ⊢
      obtain ⟨draws, hcreated⟩ := World.awaitSlot_draws hid hplain
        (patience.getD (system.world.usualPatience id)) system.world.clock
      rw [← world_settle system.tasks] at draws hcreated
      rw [hpool] at draws hcreated
      exact hturn.advances_of_draws h.reach rfl (by simp) draws hcreated

/-- What an acquisition on the pool left waits for a slot, or makes a resource. -/
theorem acquires_of_mem {task : Task} (h : system.Lending id) (hmem : task ∈ system.tasks)
    (hpool : task.pool = id) : task.Acquires id (system.world.pool id).owner :=
  h.tasks task (List.mem_filter.2 ⟨hmem, decide_eq_true hpool⟩)

/-- An acquisition that waits for a slot looks again. -/
theorem advances_of_wake {place : Nat} (h : system.Lending id)
    (turn : system.Turn id (.wake place) task? next progress) :
    Advances id system next progress := by
  have hturn := turn
  cases turn with
  | @wake place task result htask hwake =>
      rcases h.acquires_of_mem (List.mem_of_getElem? htask) rfl with
        ⟨patience, since, hwaits⟩ | hcreates
      · rw [hwaits] at hwake hturn
        cases hwake
        obtain ⟨draws, hcreated⟩ := World.awaitSlot_draws h.lt h.plain patience since
        rw [← world_settle (system.tasks.eraseIdx place)] at draws hcreated
        refine hturn.advances_of_draws h.reach rfl ?_ draws hcreated
        rintro _ ⟨⟩
        rfl
      · rw [hcreates] at hwake
        cases hwake

/-- The factory made a resource, or it failed to. -/
theorem advances_of_reply {place : Nat} {reply : Reply} (h : system.Lending id)
    (turn : system.Turn id (.reply place reply) task? next progress) :
    Advances id system next progress := by
  have hturn := turn
  cases turn with
  | @reply place reply task result htask hresume =>
      have hmem := List.mem_of_getElem? htask
      rcases h.acquires_of_mem hmem rfl with ⟨patience, since, hwaits⟩ | hcreates
      · rw [hwaits] at hresume
        cases hresume
      · generalize task.pool = id at h hcreates hturn ⊢
        subst hcreates
        cases reply with
        | closed | valid | worked | broke => cases hresume
        | created kind =>
            cases hresume
            obtain ⟨alive, hpool⟩ := World.pool_created (system.world.pool id).owner .lend kind h.lt
            refine hturn.advances h.reach rfl (fun lent making => ?_) (fun lease hlease => ?_) nofun
            · rw [world_settle, hpool, Pool.free_enroll, Pool.created_enroll]
              change Stock.Step ⟨_, lent, 1 + making, _⟩ ⟨_, 1 + lent, 0 + making, _⟩
              rw [Nat.add_comm 1 making, Nat.add_comm 1 lent, Nat.zero_add]
              exact .make _ _ _ _
            · rw [List.mem_singleton.1 hlease]
        | notCreated failure =>
            cases hresume
            have hfree := ((takesBack_notCreated h.reach h.lt hmem failure).current rfl).2.2.1
            refine hturn.advances h.reach rfl (fun lent making => ?_) nofun nofun
            rw [world_settle, hfree, World.created_notCreated h.lt]
            change Stock.Step ⟨_, lent, 1 + making, _⟩ ⟨_, 0 + lent, 0 + making, _⟩
            rw [Nat.add_comm 1 making, Nat.zero_add, Nat.zero_add]
            exact .fail _ _ _ _

/-- A lease comes back while no resource is being made. -/
theorem advances_of_release (h : system.Lending id) (hpool : lease.owner.pool = id)
    (hidle : ∀ task ∈ system.tasksOn id, task.creates = false)
    (hstep : system.step? (.call id (.release lease)) = some next) :
    Advances id system next (.done .finished) := by
  obtain ⟨-, hheld, rfl⟩ := of_call hstep
  have hmem : lease ∈ system.world.held := hheld lease rfl
  have hnext : (settle system.tasks (system.world.begin id (.release lease))).heldFrom id =
      (system.world.held.erase lease).filter fun lease => lease.owner.pool = id :=
    congrArg (List.filter _) World.release_held
  have hperm : (system.heldFrom id).Perm
      (lease :: (settle system.tasks (system.world.begin id (.release lease))).heldFrom id) := by
    rw [hnext, ← List.filter_cons_of_pos (by simpa using hpool)]
    exact (List.perm_cons_erase hmem).filter _
  have hsame : (system.world.part lease).checkOwner id = system.world.part lease :=
    World.checkOwner_of_eq h.noted.symm
  have hready : ((system.world.part lease).checkOwner id).pool id = system.world.pool id := by
    rw [hsame]
    rfl
  have htakes := takesBack_release_of_held h.reach h.lt hmem
  simp only [hready] at htakes
  obtain ⟨-, -, hfree, -⟩ := htakes.current (h.held lease (hperm.mem_iff.2 List.mem_cons_self))
  have hcreated : (((system.world.part lease).release id lease).pool id).created = _ :=
    World.created_release h.lt
  rw [hready] at hcreated
  have hmaking : (system.tasksOn id).countP Task.creates = 0 :=
    List.countP_eq_zero.2 fun task htask => by simp [hidle task htask]
  refine ⟨?_, fun other hother => .inl (hperm.mem_iff.2 (List.mem_cons_of_mem _ hother)), nofun⟩
  rw [stock, hperm.length_eq, hmaking, List.length_cons]
  change Stock.Step _ ⟨(((system.world.part lease).release id lease).pool id).free, _,
    (system.tasksOn id).countP Task.creates,
    (((system.world.part lease).release id lease).pool id).created⟩
  rw [hfree, hcreated, hmaking]
  exact .shelve _ _ _ _

/-- A turn leaves an acquisition that waits, or makes a resource, or nothing. -/
theorem of_turn (h : system.Lending id) (turn : system.Turn id event task? next progress)
    (hplain : ∀ pool call, event = .call pool call → call.IsPlain)
    (advances : Advances id system next progress) : next.Lending id := by
  obtain ⟨hsteady, hnoted⟩ := turn.steady h.reach h.lt h.noted hplain
  obtain ⟨others, hbefore, hafter⟩ := turn.tasksOn_eq
  refine ⟨h.reach.step? turn.step?, h.reach.lt_of_step? h.lt turn.step?, hnoted, ?_,
    fun lease hmem => ?_, fun task hmem => ?_⟩
  · rw [hsteady.config_eq]
    exact h.plain
  · rw [hsteady.owner_eq]
    exact (advances.held lease hmem).elim (h.held lease) fun howner => howner
  · rw [hsteady.owner_eq]
    rw [hafter] at hmem
    rcases List.mem_append.1 hmem with hnew | hold
    · cases progress with
      | done outcome => exact absurd hnew List.not_mem_nil
      | pending last =>
          obtain rfl := List.mem_singleton.1 hnew
          exact advances.tasks task rfl
    · exact h.tasks task (hbefore.mem_iff.2 (List.mem_append_right _ hold))

/-- What does not concern the pool. -/
theorem of_spares (h : system.Lending id) (spares : Spares id system event)
    (hfork : ∀ process pid, event = .fork process pid → process ≠ (system.world.pool id).process)
    (hstep : system.step? event = some next) : next.Lending id := by
  have spared := spares.step? h.reach hstep
  refine ⟨h.reach.step? hstep, h.reach.lt_of_step? h.lt hstep, ?_, ?_, fun lease hmem => ?_,
    fun task hmem => ?_⟩
  · rw [spared.pool_eq, step?_currentPid h.reach hstep spared.pool_eq hfork]
    exact h.noted
  · rw [spared.pool_eq]
    exact h.plain
  · rw [spared.pool_eq]
    exact h.held lease (spared.held_perm.mem_iff.1 hmem)
  · rw [spared.pool_eq]
    exact h.tasks task (spared.tasks_perm.mem_iff.1 hmem)

/-- Whatever happens to a pool that only lends takes its stock one step on at most. -/
theorem step? (h : system.Lending id) (serves : Serves id system event)
    (hstep : system.step? event = some next) :
    next.Lending id ∧ Stock.Step (system.stock id) (next.stock id) := by
  cases serves with
  | acquire patience =>
      have turn := turn_of_step? hstep
      have advances := h.advances_of_acquire turn
      exact ⟨h.of_turn turn (by rintro _ _ ⟨⟩; trivial) advances, advances.step⟩
  | release lease hpool hidle =>
      have advances := h.advances_of_release hpool hidle hstep
      exact ⟨h.of_turn (turn_of_step? hstep) (by rintro _ _ ⟨⟩; trivial) advances, advances.step⟩
  | reply place reply hagent =>
      obtain ⟨task?, progress, turn⟩ := exists_turn hagent hstep
      have advances := h.advances_of_reply turn
      exact ⟨h.of_turn turn nofun advances, advances.step⟩
  | wake place hagent =>
      obtain ⟨task?, progress, turn⟩ := exists_turn hagent hstep
      have advances := h.advances_of_wake turn
      exact ⟨h.of_turn turn nofun advances, advances.step⟩
  | aside event spares hfork =>
      refine ⟨h.of_spares spares hfork hstep, ?_⟩
      rw [(spares.step? h.reach hstep).stock_eq]
      exact .rest _

end Lending

/-- Nothing happens to the pool in a run but that it lends and takes back. -/
def OnlyLends (start : System) (id : PoolId) (events : List Event) : Prop :=
  ∀ earlier event later middle, events = earlier ++ event :: later →
    start.run? earlier = some middle → Serves id middle event

theorem onlyLends_nil : start.OnlyLends id [] := throughout_nil

theorem OnlyLends.cons (hstep : start.step? event = some next) (hfirst : Serves id start event)
    (hrest : next.OnlyLends id events) : start.OnlyLends id (event :: events) :=
  Throughout.cons hstep hfirst hrest

/-- How many leases of the pool were out at some time of a run. -/
def lentCounts (start : System) (id : PoolId) (events : List Event) : Set Nat :=
  {count | ∃ earlier later middle, events = earlier ++ later ∧
    start.run? earlier = some middle ∧ (middle.heldFrom id).length = count}

theorem lentCounts_nil : start.lentCounts id [] = {(start.heldFrom id).length} := by
  ext count
  constructor
  · rintro ⟨earlier, later, middle, heq, hrun, rfl⟩
    obtain ⟨rfl, rfl⟩ := List.append_eq_nil_iff.1 heq.symm
    cases hrun
    rfl
  · rintro rfl
    exact ⟨[], [], start, rfl, rfl, rfl⟩

theorem lentCounts_concat (hrun : start.run? (events ++ [event]) = some final) :
    start.lentCounts id (events ++ [event]) =
      insert (final.heldFrom id).length (start.lentCounts id events) := by
  ext count
  constructor
  · rintro ⟨earlier, later, middle, heq, hmiddle, rfl⟩
    rcases List.eq_nil_or_concat later with rfl | ⟨rest, last, rfl⟩
    · rw [heq, List.append_nil, hmiddle] at hrun
      cases hrun
      exact .inl rfl
    · rw [List.concat_eq_append, ← List.append_assoc] at heq
      exact .inr ⟨earlier, rest, middle, (List.append_inj' heq rfl).1, hmiddle, rfl⟩
  · rintro (rfl | ⟨earlier, later, middle, rfl, hmiddle, rfl⟩)
    · exact ⟨events ++ [event], [], final, by simp, hrun, rfl⟩
    · exact ⟨earlier, later ++ [event], middle, by simp, hmiddle, rfl⟩

theorem init_lending {pids : List Pid} {pools : List (ProcessId × Config)} {process : ProcessId}
    (hpool : pools[id]? = some (process, config)) (hplain : config.IsPlain) :
    (init pids pools).Lending id ∧ ((init pids pools).stock id).Stacked ∧
      ((init pids pools).world.pool id).created = ((init pids pools).heldFrom id).length := by
  obtain ⟨hid, hnew⟩ := init_pool pids hpool
  have hnone : (init pids pools).heldFrom id = [] := by
    rw [heldFrom, init_held, List.filter_nil]
  refine ⟨⟨⟨pids, pools, [], rfl⟩, hid, ?_, ?_, ?_, ?_⟩, ?_, ?_⟩
  · rw [World.currentPid, World.pidOf, init_pids, hnew]
    rfl
  · rw [hnew]
    exact hplain
  · rw [hnone]
    exact fun lease hmem => absurd hmem List.not_mem_nil
  · exact fun task hmem => absurd (List.mem_filter.1 hmem).1 List.not_mem_nil
  · rw [stock, hnone, hnew]
    exact ⟨[], config.maxSize.toNat, rfl, rfl, fun hpos => absurd hpos (Nat.lt_irrefl 0)⟩
  · rw [hnone, hnew]
    rfl

/-- In a run the number of resources made is always the most that were out at one time. -/
theorem run?_lending {pids : List Pid} {pools : List (ProcessId × Config)} {process : ProcessId}
    (hpool : pools[id]? = some (process, config)) (hplain : config.IsPlain)
    (hrun : (init pids pools).run? events = some system)
    (honly : (init pids pools).OnlyLends id events) :
    system.Lending id ∧ (system.stock id).Stacked ∧
      IsGreatest ((init pids pools).lentCounts id events) (system.world.pool id).created := by
  induction events using List.reverseRecOn generalizing system with
  | nil =>
      cases hrun
      obtain ⟨lending, stacked, hcreated⟩ :
          (init pids pools).Lending id ∧ ((init pids pools).stock id).Stacked ∧
            ((init pids pools).world.pool id).created = ((init pids pools).heldFrom id).length :=
        init_lending hpool hplain
      rw [lentCounts_nil, hcreated]
      exact ⟨lending, stacked, isGreatest_singleton⟩
  | append_singleton events event ih =>
      obtain ⟨middle, hmiddle, hstep⟩ :=
        Option.bind_eq_some_iff.1 ((run?_concat _ events event).symm.trans hrun)
      obtain ⟨hbefore, hlast⟩ := Throughout.of_concat honly hmiddle
      obtain ⟨lending, stacked, hgreatest⟩ := ih hmiddle hbefore
      obtain ⟨hlending, step⟩ := lending.step? hlast hstep
      have hmax : (system.world.pool id).created =
          max (system.heldFrom id).length (middle.world.pool id).created :=
        step.created_eq_max stacked
      rw [lentCounts_concat hrun, hmax]
      exact ⟨hlending, step.stacked stacked, hgreatest.insert _⟩

/-- A pool without limits of time that only lends and takes back has made as many resources as were
out at one time, and no more. -/
theorem madeBy_isGreatest_lent {pids : List Pid} {pools : List (ProcessId × Config)}
    {process : ProcessId} (hpool : pools[id]? = some (process, config)) (hplain : config.IsPlain)
    (hrun : (init pids pools).run? events = some system)
    (honly : (init pids pools).OnlyLends id events) :
    IsGreatest ((init pids pools).lentCounts id events) (system.world.madeBy id) ∧
      (system.world.pool id).created = system.world.madeBy id := by
  obtain ⟨lending, -, hgreatest⟩ := run?_lending hpool hplain hrun honly
  have hcreated := created_eq_madeBy lending.reach lending.lt
  rw [← hcreated]
  exact ⟨hgreatest, rfl⟩

/-- Two leases are out, one creation fails, one lease comes back and is lent again. -/
theorem madeBy_isGreatest_lent_two : ∃ system,
    (init [7] [(0, Config.ofSize 3)]).run?
        [.call 0 (.acquire none), .reply 0 (.created "db"), .call 0 (.acquire none),
          .reply 0 (.created "db"), .call 0 (.acquire none), .reply 0 (.notCreated (.other "full")),
          .call 0 (.release ⟨0, ⟨0, 7, 0⟩, 0⟩), .call 0 (.acquire none)] = some system ∧
      system.world.madeBy 0 = 2 ∧ IsGreatest ((init [7] [(0, Config.ofSize 3)]).lentCounts 0
        [.call 0 (.acquire none), .reply 0 (.created "db"), .call 0 (.acquire none),
          .reply 0 (.created "db"), .call 0 (.acquire none), .reply 0 (.notCreated (.other "full")),
          .call 0 (.release ⟨0, ⟨0, 7, 0⟩, 0⟩), .call 0 (.acquire none)])
        (system.world.madeBy 0) := by
  refine exists_run? rfl fun system hrun => ⟨?_, ?_⟩
  · cases hrun
    decide
  · have hpool : [((0 : ProcessId), Config.ofSize 3)][0]? = some (0, Config.ofSize 3) := rfl
    refine (madeBy_isGreatest_lent hpool ⟨rfl, rfl, rfl⟩ hrun ?_).1
    refine .cons rfl (.acquire none) ?_
    refine .cons rfl (.reply 0 _ rfl) ?_
    refine .cons rfl (.acquire none) ?_
    refine .cons rfl (.reply 0 _ rfl) ?_
    refine .cons rfl (.acquire none) ?_
    refine .cons rfl (.reply 0 _ rfl) ?_
    refine .cons rfl (.release _ rfl nofun) ?_
    exact .cons rfl (.acquire none) onlyLends_nil

end System
end LeasePool
