import LeasePool.Proofs.Conservation
import LeasePool.Proofs.Custody

/-!
Isolation of processes. As long as pids change between operations only, all that an operation has in
hand was made in the process that its pool runs in. So no factory is asked about a resource of
another process, and none is destroyed; those that come from there are forgotten for good.
-/

namespace LeasePool

variable {world after : World} {id agent : PoolId} {hand : Multiset Holding}
  {scene next : Scene} {resource : ResourceId}

def World.MadeHere (world : World) (id : PoolId) (resource : ResourceId) : Prop :=
  ∃ owner, world.makerOf? resource = some owner ∧ owner.pid = world.currentPid id

/-- The pool runs in the same process still, and it did not lose sight of it. -/
structure World.Stays (world after : World) (id : PoolId) : Prop where
  current : after.currentPid id = world.currentPid id
  noted : (world.pool id).notedPid = world.currentPid id →
    (after.pool id).notedPid = after.currentPid id

theorem World.Stays.of_eq (hpids : after.pids = world.pids)
    (hprocess : (after.pool id).process = (world.pool id).process)
    (hnoted : (after.pool id).notedPid = (world.pool id).notedPid) : world.Stays after id := by
  have hcurrent := World.currentPid_congr hpids hprocess
  refine ⟨hcurrent, fun hpid => ?_⟩
  rw [hnoted, hpid, hcurrent]

theorem World.MadeHere.mono (h : world.MadeHere id resource) (hmaker : world.KeepsMakers after)
    (stays : world.Stays after id) : after.MadeHere id resource := by
  obtain ⟨owner, howner, hpid⟩ := h
  exact ⟨owner, hmaker _ _ howner, hpid.trans stays.current.symm⟩

def Holding.pool? : Holding → Option PoolId
  | .turn id | .pause id | .slot id _ | .lease id _ _ | .loose id _ | .grip id _ | .listed id _
  | .mention id _ => some id
  | .handed .. => none

/-- What an operation has in hand is of the process that its pool runs in. -/
def Holding.Local (world : World) : Holding → Prop
  | .turn id => (world.pool id).notedPid = world.currentPid id
  | .slot id owner | .lease id owner _ => owner.pid = world.currentPid id
  | .loose id resource | .grip id resource | .listed id resource | .mention id resource =>
      world.MadeHere id resource
  | .handed .. | .pause _ => True

def Scene.Local (scene : Scene) : Prop := ∀ holding ∈ scene.hand, holding.Local scene.world

theorem Holding.Fits.lt {holding : Holding} (h : holding.Fits world)
    (hpool : holding.pool? = some id) : id < world.pools.length := by
  cases holding with
  | handed => cases hpool
  | turn | pause =>
      cases hpool
      exact h
  | slot | lease | loose | grip | listed | mention =>
      cases hpool
      exact h.1

theorem Holding.Local.mono {holding : Holding} (h : holding.Local world)
    (hmaker : world.KeepsMakers after)
    (hstays : ∀ id, holding.pool? = some id → world.Stays after id) : holding.Local after := by
  cases holding with
  | turn => exact (hstays _ rfl).noted h
  | slot | lease => exact Eq.trans h (hstays _ rfl).current.symm
  | loose | grip | listed | mention => exact World.MadeHere.mono h hmaker (hstays _ rfl)
  | handed | pause => trivial

theorem Scene.Local.mono (h : Local ⟨world, hand⟩) (fits : Fits ⟨world, hand⟩)
    (hmaker : world.KeepsMakers after)
    (hstays : ∀ id < world.pools.length, world.Stays after id) : Local ⟨after, hand⟩ :=
  fun holding hmem => (h holding hmem).mono hmaker fun id hpool =>
    hstays id ((fits.hand holding hmem).lt hpool)

theorem Move.stays (move : Move agent scene next) (h : scene.Accounted)
    (hid : id < scene.world.pools.length) : scene.world.Stays next.world id :=
  ⟨World.currentPid_congr move.pids_eq (move.drifts h hid).process_eq,
    fun hpid => (move.steady h hid hpid).2⟩

theorem Move.local (move : Move agent scene next) (fits : scene.Fits) (h : scene.Accounted)
    (here : scene.Local) : next.Local := by
  have hstays : ∀ id < scene.world.pools.length, scene.world.Stays next.world id :=
    fun id hid => move.stays h hid
  have hmaker := move.keepsMakers
  have hold : ∀ holding ∈ scene.hand, holding.Local next.world := here.mono fits hmaker hstays
  cases move with
  | tell | refresh | countFailure | lend => exact hold
  | giveUp | keep | shelve | restore | refuse | disown | shed | letGo | ungrasp | skip | closed
  | resume => exact (Multiset.forall_mem_cons.1 hold).2
  | enqueue hid hpid => exact Multiset.forall_mem_cons.2 ⟨(hstays _ hid).noted hpid, hold⟩
  | @take world hand slot rest hfree =>
      obtain ⟨hturn, hold⟩ := Multiset.forall_mem_cons.1 hold
      have hid : agent < world.pools.length := fits.hand (.turn agent) (Multiset.mem_cons_self _ _)
      have hnoted : (world.pool agent).notedPid = world.currentPid agent :=
        here (.turn agent) (Multiset.mem_cons_self _ _)
      have hpid : (world.pool agent).owner.pid = world.currentPid agent :=
        (fits.pools.pool hid).pid_eq.symm.trans hnoted
      refine Multiset.forall_mem_cons.2 ⟨?_, hold⟩
      cases slot with
      | vacant => exact hpid.trans (hstays agent hid).current.symm
      | idle entry => exact hpid.trans (hstays agent hid).current.symm
  | make | grasp =>
      obtain ⟨hhere, hold⟩ := Multiset.forall_mem_cons.1 hold
      exact Multiset.forall_mem_cons.2 ⟨hhere, hold⟩
  | part | pause => exact Multiset.forall_mem_cons.2 ⟨trivial, hold⟩
  | handIn => exact Multiset.forall_mem_cons.2 ⟨trivial, (Multiset.forall_mem_cons.1 hold).2⟩
  | accept hpool hpid =>
      exact Multiset.forall_mem_cons.2 ⟨hpid, (Multiset.forall_mem_cons.1 hold).2⟩
  | @detach world hand owner resource =>
      obtain ⟨hpid, hold⟩ := Multiset.forall_mem_cons.1 hold
      obtain ⟨-, -, hmade⟩ := fits.hand _ (Multiset.mem_cons_self _ _)
      have hloose : world.MadeHere agent resource := ⟨owner, hmade, hpid⟩
      exact Multiset.forall_mem_cons.2 ⟨hpid, Multiset.forall_mem_cons.2 ⟨hloose, hold⟩⟩
  | @vacate world hand hid takes hpid =>
      have hpool := fits.pools.pool hid
      have hselected : ∀ resource ∈ (world.pool agent).selected takes,
          (world.modifyPool agent fun pool => pool.vacate takes).MadeHere agent resource := by
        intro resource hmem
        have hidle := hpool.idle resource (Pool.mem_idle_of_mem_selected hmem)
        have hhere : world.MadeHere agent resource := ⟨_, hidle, hpool.pid_eq.symm.trans hpid⟩
        exact hhere.mono hmaker (hstays agent hid)
      intro holding hmem
      simp only [Multiset.mem_add, Multiset.mem_coe, List.mem_map] at hmem
      rcases hmem with ⟨resource, hmem, rfl⟩ | ⟨resource, hmem, rfl⟩ | hmem
      · exact hselected resource hmem
      · exact hselected resource hmem
      · exact hold holding hmem

theorem Moves.local (moves : Moves agent scene next) (fits : scene.Fits) (h : scene.Accounted)
    (here : scene.Local) : next.Local := by
  induction moves with
  | refl => exact here
  | tail earlier move ih =>
      exact move.local (Moves.fits earlier fits) (lasting_accounted.moves earlier fits h) ih

/-- What a teardown of a pool that knows its process takes out was made there. -/
theorem Scene.Local.tearDown (here : Local ⟨world, hand⟩) (fresh : Fresh ⟨world, hand⟩ id) :
    (Scene.tearDown ⟨world, hand⟩ id).Local := by
  have hpool : Pool.Fits world id (world.pool id) := fresh.fits.pools.pool fresh.lt
  have hstays : ∀ other, world.Stays (world.modifyPool id Pool.tearDown) other := by
    intro other
    by_cases hother : other = id
    · subst hother
      refine .of_eq rfl ?_ ?_
      · rw [World.pool_modifyPool_self fresh.lt, Pool.tearDown]
      · rw [World.pool_modifyPool_self fresh.lt, Pool.tearDown]
    · refine .of_eq rfl ?_ ?_
      · rw [World.pool_modifyPool_of_ne hother]
      · rw [World.pool_modifyPool_of_ne hother]
  have hmaker : world.KeepsMakers (world.modifyPool id Pool.tearDown) := .of_eq fun _ => rfl
  have hhere : ∀ resource, world.makerOf? resource = some (world.pool id).owner →
      (world.modifyPool id Pool.tearDown).MadeHere id resource := by
    intro resource hmade
    have hbefore : world.MadeHere id resource :=
      ⟨_, hmade, hpool.pid_eq.symm.trans fresh.noted⟩
    exact hbefore.mono hmaker (hstays id)
  intro holding hmem
  simp only [Scene.tearDown, Multiset.mem_add, Multiset.mem_coe, List.mem_map] at hmem
  rcases hmem with ⟨resource, hmem, rfl⟩ | ⟨resource, hmem, rfl⟩ | hmem
  · exact hhere resource (hpool.registry resource hmem)
  · exact hhere resource (hpool.idle resource hmem)
  · exact here.mono fresh.fits hmaker (fun other _ => hstays other) holding hmem

theorem Move.destroyed (move : Move agent scene next) (fits : scene.Fits) (here : scene.Local)
    (hgone : .destroyed resource ∈ next.world.journal) :
    .destroyed resource ∈ scene.world.journal ∨ scene.world.MadeHere agent resource := by
  cases move with
  | tell | take | lend | shelve | restore | refuse =>
      rcases List.mem_cons.1 hgone with heq | hold
      · cases heq
      · exact .inl hold
  | refresh => exact .inl (World.destroyed_checkOwner hgone)
  | @shed world hand owner other hpool hpid =>
      obtain ⟨-, hmade⟩ := fits.hand _ (Multiset.mem_cons_self _ _)
      rcases World.destroyed_letGo hgone with hold | rfl
      · exact .inl hold
      · exact .inr ⟨owner, hmade, hpid⟩
  | letGo | ungrasp =>
      have hhere := here _ (Multiset.mem_cons_self _ _)
      rcases World.destroyed_letGo hgone with hold | rfl
      · exact .inl hold
      · exact .inr hhere
  | _ => exact .inl hgone

/-- Operations destroy resources of the process they run in only. -/
theorem Moves.destroyed (moves : Moves agent scene next) (fits : scene.Fits) (h : scene.Accounted)
    (here : scene.Local) (hid : agent < scene.world.pools.length)
    (hgone : .destroyed resource ∈ next.world.journal) :
    .destroyed resource ∈ scene.world.journal ∨ next.world.MadeHere agent resource := by
  induction moves with
  | refl => exact .inl hgone
  | tail earlier move ih =>
      have hfits := Moves.fits earlier fits
      have haccounted := lasting_accounted.moves earlier fits h
      have hstays := move.stays haccounted ((Moves.length_pools earlier).symm ▸ hid)
      rcases move.destroyed hfits (Moves.local earlier fits h here) hgone with hgone | hhere
      · rcases ih hgone with hold | hhere
        · exact .inl hold
        · exact .inr (hhere.mono move.keepsMakers hstays)
      · exact .inr (hhere.mono move.keepsMakers hstays)

theorem Move.isForgotten (move : Move agent scene next)
    (h : scene.world.isForgotten resource = true) : next.world.isForgotten resource = true := by
  cases move with
  | refresh => exact World.isForgotten_checkOwner h
  | make => exact World.isForgotten_addResource.trans h
  | refuse | disown => exact World.isForgotten_forget_of_isForgotten h
  | shed | letGo | ungrasp => exact World.isForgotten_letGo.trans h
  | grasp => exact World.isForgotten_hold.trans h
  | _ => exact h

theorem lasting_forgotten (resource : ResourceId) :
    Scene.Lasting fun scene => scene.world.isForgotten resource = true where
  move _ move h := move.isForgotten h
  tearDown _ _ h := h
  invalidate _ _ h := World.isForgotten_reset h
  drop _ _ h := World.isForgotten_letGo.trans h
  fork h := h
  advance h := h

/-- An idle resource in a pool that has not noticed its process yet stays there or is forgotten. -/
theorem Move.idle_or_forgotten (move : Move id scene next) (fits : scene.Fits) (here : scene.Local)
    (hid : id < scene.world.pools.length)
    (hother : (scene.world.pool id).notedPid ≠ scene.world.currentPid id)
    (hidle : resource ∈ (scene.world.pool id).idle) :
    resource ∈ (next.world.pool id).idle ∨ next.world.isForgotten resource = true := by
  cases move with
  | @refresh world hand =>
      have hlt := World.lt_of_makerOf? ((fits.pools.pool hid).idle resource hidle)
      exact .inr (World.isForgotten_checkOwner_of_idle hother.symm hlt hidle)
  | enqueue _ hpid => exact absurd hpid hother
  | vacate _ takes hpid => exact absurd hpid hother
  | take => exact absurd (here (.turn id) (Multiset.mem_cons_self _ _)) hother
  | giveUp | countFailure =>
      exact .inl (World.mem_idle_modifyPool (fun _ => rfl) hidle)
  | make =>
      exact .inl (World.mem_idle_modifyPool (fun pool => pool.idle_enroll _ _ _) hidle)
  | @shelve world hand owner entry howner hpool hroom =>
      have hback : ((world.emit (.slotReturned owner)).modifyPool id
          fun pool => pool.giveBack (.idle entry)).pool id =
          (world.pool id).giveBack (.idle entry) := World.pool_modifyPool_self hid
      refine .inl ?_
      rw [hback, Pool.idle_giveBack entry hroom]
      exact Multiset.mem_cons_of_mem hidle
  | restore =>
      refine .inl (World.mem_idle_modifyPool ?_ hidle)
      intro pool
      rw [Pool.idle, Pool.idleFromBottom_restoreVacant, Pool.idle]
  | shed | letGo | ungrasp =>
      refine .inl ?_
      rw [World.pool_congr World.letGo_pools]
      exact hidle
  | _ => exact .inl hidle

/-- When a pool notices another process, the idle resources it had are forgotten. -/
theorem Moves.forgets (moves : Moves id scene next) (fits : scene.Fits) (h : scene.Accounted)
    (here : scene.Local) (hid : id < scene.world.pools.length)
    (hnoted : (next.world.pool id).notedPid ≠ (scene.world.pool id).notedPid)
    (hidle : resource ∈ (scene.world.pool id).idle) : next.world.isForgotten resource = true := by
  by_cases hpid : (scene.world.pool id).notedPid = scene.world.currentPid id
  · exact absurd (Moves.steady moves fits h hid hpid).1.noted_eq hnoted
  -- Until the pool notices, it keeps its idle resources.
  have hwaits : next.world.isForgotten resource = true ∨
      (next.world.pool id).notedPid = (scene.world.pool id).notedPid ∧
        next.world.currentPid id = scene.world.currentPid id ∧
        resource ∈ (next.world.pool id).idle := by
    clear hnoted
    induction moves with
    | refl => exact .inr ⟨rfl, rfl, hidle⟩
    | @tail middle last earlier move ih =>
        rcases ih with hforgotten | ⟨hnoted, hcurrent, hidle⟩
        · exact .inl (move.isForgotten hforgotten)
        · have hid' := (Moves.length_pools earlier).symm ▸ hid
          have hfits := Moves.fits earlier fits
          have haccounted := lasting_accounted.moves earlier fits h
          have hother : (middle.world.pool id).notedPid ≠ middle.world.currentPid id := by
            rw [hnoted, hcurrent]
            exact hpid
          have hlocal := Moves.local earlier fits h here
          rcases move.idle_or_forgotten hfits hlocal hid' hother hidle with hidle | hforgotten
          · rcases move.steady_or_reset haccounted hid' with hsteady | ⟨-, hreset⟩
            · refine .inr ⟨hsteady.noted_eq.trans hnoted, ?_, hidle⟩
              exact (World.currentPid_congr move.pids_eq hsteady.process_eq).trans hcurrent
            · rw [hreset, Pool.idle, Pool.reset, idleFromBottom_replicate_vacant] at hidle
              exact absurd hidle (Multiset.notMem_zero resource)
          · exact .inl hforgotten
  rcases hwaits with hforgotten | ⟨hsame, -⟩
  · exact hforgotten
  · exact absurd hsame hnoted

theorem Moves.isForgotten (moves : Moves agent scene next) (fits : scene.Fits)
    (h : scene.world.isForgotten resource = true) : next.world.isForgotten resource = true :=
  (lasting_forgotten resource).moves moves fits h

theorem Moves.pool_of_ne (moves : Moves agent scene next) (hne : id ≠ agent) :
    next.world.pool id = scene.world.pool id := by
  induction moves with
  | refl => rfl
  | tail _ move ih => rw [move.pool_of_ne hne, ih]

namespace World

variable {lease : Lease}

theorem isForgotten_forget_self {owner : Owner} (hmade : world.makerOf? resource = some owner) :
    (world.forget resource).isForgotten resource = true := by
  rw [isForgotten_forget (lt_of_makerOf? hmade), decide_eq_true rfl, Bool.true_or]

/-- A lease of another process is forgotten when it is released. -/
theorem isForgotten_release (hosts : world.Hosts id)
    (hmade : world.makerOf? lease.resource = some lease.owner)
    (hpid : lease.owner.pid ≠ world.currentPid id) :
    (world.release id lease).isForgotten lease.resource = true := by
  have hnow : ((world.checkOwner id).pool id).owner.pid = world.currentPid id :=
    hosts.owner_pid_checkOwner.trans (currentPid_checkOwner hosts.lt)
  have hstale : lease.owner ≠ ((world.checkOwner id).pool id).owner := by
    intro heq
    exact hpid ((congrArg Owner.pid heq).trans hnow)
  have hpid' : lease.owner.pid ≠
      (((world.checkOwner id).noteReturn id lease.owner).pool id).owner.pid := by
    rw [pool_noteReturn, hnow]
    exact hpid
  obtain ⟨notice, haway⟩ := turnAway_of_pid_ne _ id hpid'
  rw [release]
  dsimp only
  rw [if_pos hstale, haway]
  exact isForgotten_forget_self (makerOf?_noteReturn.trans (makerOf?_checkOwner.trans hmade))

/-- A lease of another process is forgotten when it is discarded. -/
theorem isForgotten_discard (hmade : world.makerOf? lease.resource = some lease.owner)
    (hpid : lease.owner.pid ≠ world.currentPid id) :
    (world.discard id lease .finish).1.isForgotten lease.resource = true := by
  rw [discard, if_pos hpid, afterDiscard]
  exact isForgotten_forget_self hmade

end World

/-- A task has the resource in hand that it asks the factory about. -/
theorem Task.holding_of_question (task : Task)
    (h : task.question? = some (.close id resource) ∨
      task.question? = some (.isValid id resource)) : ∃ holding ∈ task.holdings,
    (∃ owner, holding = .lease id owner resource) ∨ holding = .grip id resource ∨
      holding = .mention id resource := by
  cases task with
  | waiting | creating | working | pausing => rcases h with h | h <;> cases h
  | validating | replacing | discarding =>
      rcases h with h | h <;> cases h
      exact ⟨_, Multiset.mem_singleton_self _, .inl ⟨_, rfl⟩⟩
  | disconnecting =>
      rcases h with h | h <;> cases h
      exact ⟨.grip id resource, by simp [holdings], .inr (.inl rfl)⟩
  | sweeping =>
      rcases h with h | h <;> cases h
      exact ⟨.mention id resource, by simp [holdings], .inr (.inr rfl)⟩

theorem Task.pool?_of_mem_holdings {task : Task} {holding : Holding}
    (hmem : holding ∈ task.holdings) : holding.pool? = some task.pool := by
  cases task with
  | waiting | validating | replacing | creating | working | discarding | pausing =>
      rw [Multiset.mem_singleton.1 hmem]
      rfl
  | disconnecting =>
      simp only [Task.holdings, Multiset.mem_cons, Multiset.mem_add, Multiset.mem_coe,
        List.mem_map] at hmem
      rcases hmem with rfl | ⟨other, -, rfl⟩ | ⟨other, -, rfl⟩ <;> rfl
  | sweeping =>
      simp only [Task.holdings, Multiset.mem_add, Multiset.mem_coe, List.mem_map] at hmem
      rcases hmem with ⟨other, -, rfl⟩ | ⟨other, -, rfl⟩ <;> rfl

namespace System

variable {system final : System} {event : Event} {lease : Lease}

/-- No operation is under way on a pool of the process. -/
def QuietAt (system : System) (process : ProcessId) : Prop :=
  ∀ task ∈ system.tasks, (system.world.pool task.pool).process ≠ process

/-- A process changes its pid only while no operation is under way on its pools. -/
def ForksApart (system : System) (events : List Event) : Prop :=
  ∀ earlier process pid later middle, events = earlier ++ .fork process pid :: later →
    system.run? earlier = some middle → middle.QuietAt process

theorem forksApart_nil : system.ForksApart [] := by
  intro earlier process pid later middle heq
  cases earlier <;> cases heq

theorem forksApart_cons {events : List Event} : system.ForksApart (event :: events) ↔
    (∀ process pid, event = .fork process pid → system.QuietAt process) ∧
      ∀ next, system.step? event = some next → next.ForksApart events := by
  constructor
  · intro h
    constructor
    · rintro process pid rfl
      exact h [] process pid events system rfl rfl
    · intro next hstep earlier process pid later middle heq hrun
      apply h (event :: earlier) process pid later middle (congrArg (event :: ·) heq)
      rw [run?_cons hstep, hrun]
  · rintro ⟨hquiet, hrest⟩ earlier process pid later middle heq hrun
    cases earlier with
    | nil =>
        cases hrun
        exact hquiet process pid (List.cons.inj heq).1
    | cons first earlier =>
        obtain ⟨rfl, rfl⟩ := List.cons.inj heq
        obtain ⟨next, hstep, hrun⟩ := Option.bind_eq_some_iff.1 hrun
        exact hrest next hstep earlier process pid later middle rfl hrun

theorem step?_local (reach : system.Reachable) (hstep : system.step? event = some final)
    (hquiet : ∀ process pid, event = .fork process pid → system.QuietAt process)
    (here : system.scene.Local) : final.scene.Local := by
  have fits := reachable_fits reach
  have accounted := reachable_accounted reach
  cases step?_passage (hosted_of_fits fits) hstep with
  | moves _ _ _ hmoves => exact Moves.local hmoves fits accounted here
  | @invalidate _ agent hagent hscene =>
      rw [hscene]
      refine here.mono fits (.of_eq fun _ => World.makerOf?_invalidate) fun id hid => ?_
      by_cases heq : id = agent
      · subst heq
        refine .of_eq World.invalidate_pids ?_ ?_
        · rw [World.pool_invalidate_self hid, Pool.reset]
        · rw [World.pool_invalidate_self hid]
          exact (fits.pools.pool hid).pid_eq.symm
      · have hsame : (system.world.invalidate agent).pool id = system.world.pool id :=
          World.pool_invalidate_of_ne heq
        exact .of_eq World.invalidate_pids (congrArg _ hsame) (congrArg _ hsame)
  | @disconnect _ agent hagent hmoves =>
      have move : Move agent system.scene ⟨system.world.checkOwner agent, handOf system.tasks⟩ :=
        .refresh hagent
      have fresh : Scene.Fresh ⟨system.world.checkOwner agent, handOf system.tasks⟩ agent :=
        .checkOwner fits accounted hagent
      exact Moves.local hmoves fresh.fits_tearDown fresh.accounted_tearDown
        ((move.local fits accounted here).tearDown fresh)
  | @drop _ lease hheld hscene =>
      rw [hscene]
      refine here.mono fits (.of_eq fun _ => World.makerOf?_letGo) fun id _ => ?_
      have hsame : (system.world.dropLease lease).pool id = system.world.pool id :=
        World.pool_congr World.letGo_pools
      exact .of_eq World.letGo_pids (congrArg _ hsame) (congrArg _ hsame)
  | @fork _ process pid _ hscene =>
      rw [hscene]
      intro holding hmem
      obtain ⟨task, htask, hholding⟩ := mem_handOf.1 hmem
      refine (here holding hmem).mono (.of_eq fun _ => rfl) fun id hpool => ?_
      obtain rfl : task.pool = id :=
        Option.some_inj.1 ((Task.pool?_of_mem_holdings hholding).symm.trans hpool)
      have hother := (hquiet process pid rfl task htask).symm
      have hcurrent : (system.world.fork process pid).currentPid task.pool =
          system.world.currentPid task.pool := World.currentPid_fork_of_ne hother
      exact ⟨hcurrent, fun hnoted => hnoted.trans hcurrent.symm⟩
  | advance hscene =>
      rw [hscene]
      exact here.mono fits (.of_eq fun _ => rfl) fun id _ => .of_eq rfl rfl rfl

theorem run?_local {events : List Event} (reach : system.Reachable)
    (hrun : system.run? events = some final) (hforks : system.ForksApart events)
    (here : system.scene.Local) : final.scene.Local := by
  induction events generalizing system with
  | nil =>
      cases hrun
      exact here
  | cons event rest ih =>
      obtain ⟨middle, hstep, hrest⟩ := Option.bind_eq_some_iff.1 hrun
      obtain ⟨hquiet, hforks⟩ := forksApart_cons.1 hforks
      exact ih (reach.step? hstep) hrest (hforks middle hstep)
        (step?_local reach hstep hquiet here)

/-- Operations destroy resources of the process that their pool runs in only. -/
theorem step?_destroyed (reach : system.Reachable) (here : system.scene.Local)
    (hstep : system.step? event = some final) (hagent : system.agent? event = some id)
    (hevent : event ≠ .call id .invalidate)
    (hgone : .destroyed resource ∈ final.world.journal) :
    .destroyed resource ∈ system.world.journal ∨ final.world.MadeHere id resource := by
  have fits := reachable_fits reach
  have accounted := reachable_accounted reach
  cases step?_passage (hosted_of_fits fits) hstep with
  | moves hid hagent' _ hmoves =>
      obtain rfl := Option.some_inj.1 (hagent.symm.trans hagent')
      exact Moves.destroyed hmoves fits accounted here hid hgone
  | invalidate =>
      obtain rfl := Option.some_inj.1 hagent
      exact absurd rfl hevent
  | @disconnect _ agent hid hmoves =>
      obtain rfl : agent = id := Option.some_inj.1 hagent
      have move : Move agent system.scene ⟨system.world.checkOwner agent, handOf system.tasks⟩ :=
        .refresh hid
      have fresh : Scene.Fresh ⟨system.world.checkOwner agent, handOf system.tasks⟩ agent :=
        .checkOwner fits accounted hid
      have hid' : agent < (Scene.tearDown ⟨system.world.checkOwner agent, handOf system.tasks⟩
          agent).world.pools.length := by
        rwa [Scene.length_tearDown, World.length_checkOwner]
      rcases Moves.destroyed hmoves fresh.fits_tearDown fresh.accounted_tearDown
        ((move.local fits accounted here).tearDown fresh) hid' hgone with hold | hhere
      · exact .inl (World.destroyed_checkOwner hold)
      · exact .inr hhere
  | drop | fork | advance => cases hagent

/-- A step in which a pool notices another process forgets the idle resources it had. -/
theorem step?_forgets (reach : system.Reachable) (here : system.scene.Local)
    (hstep : system.step? event = some final) (hid : id < system.world.pools.length)
    (hnoted : (final.world.pool id).notedPid ≠ (system.world.pool id).notedPid)
    (hidle : resource ∈ (system.world.pool id).idle) :
    final.world.isForgotten resource = true := by
  have fits := reachable_fits reach
  have accounted := reachable_accounted reach
  cases step?_passage (hosted_of_fits fits) hstep with
  | @moves _ _ agent _ _ _ hmoves =>
      by_cases heq : id = agent
      · subst heq
        exact Moves.forgets hmoves fits accounted here hid hnoted hidle
      · exact absurd (congrArg Pool.notedPid (Moves.pool_of_ne hmoves heq)) hnoted
  | @invalidate _ agent hagent hscene =>
      have hworld : final.world = system.world.invalidate agent := congrArg Scene.world hscene
      refine absurd ?_ hnoted
      rw [hworld]
      by_cases heq : id = agent
      · subst heq
        rw [World.pool_invalidate_self hid]
        exact (fits.pools.pool hid).pid_eq.symm
      · rw [World.pool_invalidate_of_ne heq]
  | @disconnect _ agent hagent hmoves =>
      have fresh : Scene.Fresh ⟨system.world.checkOwner agent, handOf system.tasks⟩ agent :=
        .checkOwner fits accounted hagent
      by_cases heq : id = agent
      · subst heq
        by_cases hpid : system.world.currentPid id = (system.world.pool id).notedPid
        · refine absurd ?_ hnoted
          have hsteady := Moves.steady_tearDown fresh hmoves
          rw [World.checkOwner_of_eq hpid] at hsteady
          exact hsteady.noted_eq
        · have hlt := World.lt_of_makerOf? ((fits.pools.pool hid).idle resource hidle)
          exact Moves.isForgotten hmoves fresh.fits_tearDown
            (World.isForgotten_checkOwner_of_idle hpid hlt hidle)
      · have move : Move agent system.scene
            ⟨system.world.checkOwner agent, handOf system.tasks⟩ := .refresh hagent
        refine absurd (congrArg Pool.notedPid ?_) hnoted
        apply (Moves.pool_of_ne hmoves heq).trans
        exact (World.pool_modifyPool_of_ne heq).trans (move.pool_of_ne heq)
  | drop | fork | advance =>
      have hpools := step?_pools_eq (hosted_of_fits fits) hstep rfl
      exact absurd (congrArg Pool.notedPid (World.pool_congr hpools)) hnoted

/-- The resource was given up, and nothing that can still happen destroys it. -/
def Abandons (system : System) (resource : ResourceId) : Prop :=
  system.world.isForgotten resource = true ∧
    ∀ events final, system.run? events = some final →
      .destroyed resource ∉ final.world.journal

theorem abandons_of_isForgotten (reach : system.Reachable)
    (h : system.world.isForgotten resource = true) : system.Abandons resource := by
  refine ⟨h, fun events final hrun hgone => ?_⟩
  have hforgotten : final.world.isForgotten resource = true :=
    (lasting_forgotten resource).run? (reachable_fits reach) h hrun
  have kept := reachable_kept (reach.run? hrun)
  have hholders : final.world.holdersOf resource = _ := kept.holders resource
  have hpos : 0 < final.world.holdersOf resource := by
    rw [hholders, scene, hforgotten, if_pos rfl]
    exact Nat.succ_pos _
  have hnone : final.world.destructions resource = 0 := kept.destructions_eq_zero hpos
  exact List.count_eq_zero.1 hnone hgone

/-- A lease of another process is forgotten when it comes back. -/
theorem isForgotten_of_return {call : Call} (reach : system.Reachable)
    (hcall : call = .release lease ∨ call = .discard lease)
    (hstep : system.step? (.call id call) = some final)
    (hpid : lease.owner.pid ≠ system.world.currentPid id) :
    final.world.isForgotten lease.resource = true := by
  have fits := reachable_fits reach
  obtain ⟨hid, hheld, -⟩ := of_call hstep
  rw [world_of_call hstep]
  rcases hcall with rfl | rfl
  · have hosts := (fits.hosts hid).part lease
    exact World.isForgotten_release hosts (fits.held lease (hheld lease rfl)).2 hpid
  · exact World.isForgotten_discard (fits.held lease (hheld lease rfl)).2 hpid

/-- The operations on a pool keep to the process that it runs in. -/
structure Isolated (system : System) : Prop where
  /-- Factories close and judge resources of the process only. -/
  asked : ∀ task ∈ system.tasks, ∀ id resource,
    task.question? = some (.close id resource) ∨ task.question? = some (.isValid id resource) →
      system.world.MadeHere id resource
  /-- All that is destroyed, but for invalidations and dropped leases, is of the process. -/
  destroyed : ∀ event next id resource, system.step? event = some next →
    system.agent? event = some id → event ≠ .call id .invalidate →
      .destroyed resource ∈ next.world.journal →
        .destroyed resource ∈ system.world.journal ∨ next.world.MadeHere id resource
  /-- A pool that notices another process is full of vacant slots. -/
  emptied : ∀ id < system.world.pools.length,
    (system.world.pool id).notedPid ≠ system.world.currentPid id →
      ((system.world.checkOwner id).pool id).free =
        List.replicate (system.world.pool id).maxSize .vacant
  /-- The idle resources it had from there are given up. -/
  inherited : ∀ event next id resource, system.step? event = some next →
    id < system.world.pools.length →
      (next.world.pool id).notedPid ≠ (system.world.pool id).notedPid →
        resource ∈ (system.world.pool id).idle → next.Abandons resource
  /-- So is a lease that comes back from another process. -/
  returned : ∀ lease call id next, call = .release lease ∨ call = .discard lease →
    system.step? (.call id call) = some next →
      lease.owner.pid ≠ system.world.currentPid id → next.Abandons lease.resource

theorem madeHere_of_question {task : Task} (reach : system.Reachable) (here : system.scene.Local)
    (htask : task ∈ system.tasks)
    (hquestion : task.question? = some (.close id resource) ∨
      task.question? = some (.isValid id resource)) : system.world.MadeHere id resource := by
  obtain ⟨holding, hmem, hholding⟩ := task.holding_of_question hquestion
  have hhand : holding ∈ system.scene.hand := mem_handOf.2 ⟨task, htask, hmem⟩
  rcases hholding with ⟨owner, rfl⟩ | rfl | rfl
  · obtain ⟨-, -, hmade⟩ := (reachable_fits reach).hand _ hhand
    exact ⟨owner, hmade, here _ hhand⟩
  · exact here _ hhand
  · exact here _ hhand

/-- If pids change between operations only, then processes are isolated from each other. -/
theorem isolated_of_forksApart {pids : List Pid} {pools : List (ProcessId × Config)}
    {events : List Event} (hrun : (init pids pools).run? events = some system)
    (hforks : (init pids pools).ForksApart events) : system.Isolated := by
  have reach : system.Reachable := ⟨pids, pools, events, hrun⟩
  have hstart : (init pids pools).scene.Local :=
    fun holding hmem => absurd hmem (Multiset.notMem_zero holding)
  have here : system.scene.Local := run?_local ⟨pids, pools, [], rfl⟩ hrun hforks hstart
  refine ⟨?_, ?_, ?_, ?_, ?_⟩
  · exact fun task htask id resource => madeHere_of_question reach here htask
  · exact fun event next id resource hstep hagent hevent =>
      step?_destroyed reach here hstep hagent hevent
  · intro id hid hpid
    rw [World.pool_checkOwner hid, if_neg hpid.symm]
    rfl
  · intro event next id resource hstep hid hnoted hidle
    exact abandons_of_isForgotten (reach.step? hstep)
      (step?_forgets reach here hstep hid hnoted hidle)
  · intro lease call id next hcall hstep hpid
    exact abandons_of_isForgotten (reach.step? hstep)
      (isForgotten_of_return reach hcall hstep hpid)

/-- A lease is out while the pid changes. -/
theorem isolated_of_lease_out : ∃ system,
    (init [7] [(0, Config.ofSize 2)]).run?
        [.call 0 (.acquire none), .reply 0 (.created "db"), .fork 0 8] = some system ∧
      system.Isolated := by
  refine exists_run? rfl fun system hrun => isolated_of_forksApart hrun ?_
  refine forksApart_cons.2 ⟨nofun, fun first hfirst => ?_⟩
  cases hfirst
  refine forksApart_cons.2 ⟨nofun, fun second hsecond => ?_⟩
  cases hsecond
  refine forksApart_cons.2 ⟨?_, fun _ _ => forksApart_nil⟩
  intro process pid _ task htask
  cases htask

end System
end LeasePool
