import LeasePool.Proofs.Accounts

/-!
Conservation of slots. Free slots, slots that are out and slots that are out under earlier owners
add up to the size of the pool in every state of every run, except between a teardown and the next
reset: there the pool has no slots.
-/

namespace LeasePool

variable {id agent : PoolId} {scene next : Scene} {system final : System} {event : Event}

/-- The pool changed without a reset or a teardown. -/
structure Pool.Steady (before after : Pool) : Prop where
  config_eq : after.config = before.config
  process_eq : after.process = before.process
  owner_eq : after.owner = before.owner
  noted_eq : after.notedPid = before.notedPid
  floor_eq : after.reclaimFloor = before.reclaimFloor
  resets_eq : after.resets = before.resets
  slots_eq : after.slots = before.slots

/-- Only resets changed the number of slots, and they filled the pool. -/
structure Pool.Drifts (before after : Pool) : Prop where
  config_eq : after.config = before.config
  process_eq : after.process = before.process
  resets_le : before.resets ≤ after.resets
  slots_eq : after.resets = before.resets → after.slots = before.slots
  slots_reset : after.resets ≠ before.resets → after.slots = after.maxSize

namespace Pool

variable {pool middle after : Pool}

theorem Steady.refl (pool : Pool) : pool.Steady pool := ⟨rfl, rfl, rfl, rfl, rfl, rfl, rfl⟩

theorem Steady.trans (first : pool.Steady middle) (second : middle.Steady after) :
    pool.Steady after :=
  ⟨second.config_eq.trans first.config_eq, second.process_eq.trans first.process_eq,
    second.owner_eq.trans first.owner_eq, second.noted_eq.trans first.noted_eq,
    second.floor_eq.trans first.floor_eq, second.resets_eq.trans first.resets_eq,
    second.slots_eq.trans first.slots_eq⟩

theorem Steady.giveBack {out : Multiset Owner} (h : pool.Balanced (pool.owner ::ₘ out))
    (slot : Slot) : pool.Steady (pool.giveBack slot) := by
  have hslots := h.slots_giveBack slot
  obtain ⟨free, heq⟩ := push_eq { pool with leased := pool.leased - 1 } slot
  rw [Pool.giveBack, heq] at hslots ⊢
  exact ⟨rfl, rfl, rfl, rfl, rfl, rfl, hslots⟩

theorem Steady.restoreVacant {owner : Owner} {out : Multiset Owner}
    (h : pool.Balanced (owner ::ₘ out)) : pool.Steady (pool.restoreVacant owner) := by
  have hslots := h.slots_restoreVacant
  obtain ⟨free, leased, stale, heq⟩ := pool.restoreVacant_eq owner
  rw [heq] at hslots ⊢
  exact ⟨rfl, rfl, rfl, rfl, rfl, rfl, hslots⟩

theorem Steady.enroll (owner : Owner) (alive : ResourceId → Bool) (resource : ResourceId) :
    pool.Steady (pool.enroll owner alive resource) := by
  unfold Pool.enroll
  dsimp only
  split <;> exact ⟨rfl, rfl, rfl, rfl, rfl, rfl, rfl⟩

theorem Steady.vacate (takes : IdleResource → Bool) : pool.Steady (pool.vacate takes) := by
  refine ⟨rfl, rfl, rfl, rfl, rfl, rfl, ?_⟩
  rw [slots, length_vacate, slots]
  rfl

theorem Steady.drifts (h : pool.Steady after) : pool.Drifts after :=
  ⟨h.config_eq, h.process_eq, h.resets_eq.ge, fun _ => h.slots_eq,
    fun hne => absurd h.resets_eq hne⟩

/-- A reset that fills the pool. -/
theorem Drifts.of_reset (hconfig : after.config = pool.config)
    (hprocess : after.process = pool.process) (hresets : after.resets = pool.resets + 1)
    (hslots : after.slots = after.maxSize) : pool.Drifts after :=
  ⟨hconfig, hprocess, by omega, fun h => absurd h (by omega), fun _ => hslots⟩

theorem Drifts.trans (first : pool.Drifts middle) (second : middle.Drifts after) :
    pool.Drifts after := by
  refine ⟨second.config_eq.trans first.config_eq, second.process_eq.trans first.process_eq,
    Nat.le_trans first.resets_le second.resets_le, ?_, ?_⟩
  · intro heq
    have hfirst := first.resets_le
    have hsecond := second.resets_le
    rw [second.slots_eq (by omega), first.slots_eq (by omega)]
  · intro hne
    by_cases hlast : after.resets = middle.resets
    · rw [second.slots_eq hlast, first.slots_reset (hlast ▸ hne), maxSize, maxSize,
        second.config_eq]
    · exact second.slots_reset hlast

end Pool

/-- The statistics of a pool that has no more slots than its size count all of them. -/
theorem Pool.stats_slots {pool : Pool} (h : pool.slots ≤ pool.maxSize) :
    pool.stats.idle.toNat + pool.stats.active.toNat + pool.stats.vacant.toNat = pool.slots := by
  have hsize : pool.maxSize < UInt64.size := pool.config.maxSize.toNat_lt
  have hidle : pool.idleCount ≤ pool.free.length := List.countP_le_length
  simp only [Pool.slots] at h ⊢
  simp only [Pool.stats]
  rw [UInt64.toNat_ofNat_of_lt' (by omega), UInt64.toNat_ofNat_of_lt' (by omega),
    UInt64.toNat_ofNat_of_lt' (by omega)]
  omega

theorem Move.pids_eq (move : Move agent scene next) : next.world.pids = scene.world.pids := by
  cases move with
  | refresh _ => exact World.checkOwner_pids
  | shed | letGo | ungrasp => exact World.letGo_pids
  | _ => rfl

theorem Moves.pids_eq (moves : Moves agent scene next) :
    next.world.pids = scene.world.pids := by
  induction moves with
  | refl => rfl
  | tail _ move ih => exact move.pids_eq.trans ih

/-- A move changes no other pool. -/
theorem Move.pool_of_ne (move : Move agent scene next) (hne : id ≠ agent) :
    next.world.pool id = scene.world.pool id := by
  cases move with
  | refresh _ =>
      exact (World.pool_congr World.checkOwner_pools).trans (World.pool_modifyPool_of_ne hne)
  | shed | letGo | ungrasp => exact World.pool_congr World.letGo_pools
  | enqueue | giveUp | countFailure | shelve | restore | vacate =>
      exact World.pool_modifyPool_of_ne hne
  | take => exact World.pool_modifyPool_of_ne hne
  | make => exact World.pool_modifyPool_of_ne hne
  | _ => rfl

/-- A move of an operation on a pool changes it without a reset, unless it lets the pool notice that
it runs in another process. -/
theorem Move.steady_or_reset (move : Move id scene next) (h : scene.Accounted)
    (hid : id < scene.world.pools.length) :
    (scene.world.pool id).Steady (next.world.pool id) ∨
      scene.world.currentPid id ≠ (scene.world.pool id).notedPid ∧
        next.world.pool id = (scene.world.pool id).reset
          ((scene.world.pool id).owner.withPid (scene.world.currentPid id)) true := by
  cases move with
  | @refresh world hand _ =>
      by_cases hpid : world.currentPid id = (world.pool id).notedPid
      · rw [World.checkOwner_of_eq hpid]
        exact .inl (.refl _)
      · refine .inr ⟨hpid, ?_⟩
        rw [World.pool_checkOwner hid, if_neg hpid]
  | enqueue | giveUp | countFailure =>
      rw [World.pool_modifyPool_self hid]
      exact .inl ⟨rfl, rfl, rfl, rfl, rfl, rfl, rfl⟩
  | @take world hand slot rest hfree =>
      have hpool : ((world.modifyPool id Pool.take).emit
          (.slotTaken (world.pool id).owner)).pool id = (world.pool id).take :=
        World.pool_modifyPool_self hid
      have hsome : (world.pool id).free ≠ [] := hfree ▸ List.cons_ne_nil slot rest
      rw [hpool]
      exact .inl ⟨rfl, rfl, rfl, rfl, rfl, rfl, Pool.slots_take hsome⟩
  | @make world hand owner kind =>
      have hid' : id < (world.addResource kind owner).pools.length := hid
      rw [World.pool_modifyPool_self hid']
      exact .inl (.enroll _ _ _)
  | @shelve world hand owner entry howner hpool hroom =>
      have hcons := h.balanced_cons hid (Scene.mem_units (Multiset.mem_cons_self _ _) rfl)
      have hid' : id < (world.emit (.slotReturned owner)).pools.length := hid
      rw [World.pool_modifyPool_self hid']
      subst howner
      exact .inl (.giveBack hcons _)
  | @restore world hand owner =>
      have hcons := h.balanced_cons hid (Scene.mem_units (Multiset.mem_cons_self _ _) rfl)
      have hid' : id < (world.emit (.slotReturned owner)).pools.length := hid
      rw [World.restoreVacant, World.pool_modifyPool_self hid']
      exact .inl (.restoreVacant hcons)
  | vacate _ takes hpid =>
      rw [World.pool_modifyPool_self hid]
      exact .inl (.vacate takes)
  | shed | letGo | ungrasp =>
      rw [World.pool_congr World.letGo_pools]
      exact .inl (.refl _)
  | tell | lend | keep | part | handIn | accept | detach | refuse | disown | grasp | skip
  | closed | pause | resume => exact .inl (.refl _)

theorem Move.drifts (move : Move agent scene next) (h : scene.Accounted)
    (hid : id < scene.world.pools.length) :
    (scene.world.pool id).Drifts (next.world.pool id) := by
  by_cases hagent : id = agent
  · subst hagent
    rcases move.steady_or_reset h hid with hsteady | ⟨-, hreset⟩
    · exact hsteady.drifts
    · rw [hreset]
      exact .of_reset rfl rfl rfl (Pool.slots_refresh _)
  · rw [move.pool_of_ne hagent]
    exact (Pool.Steady.refl _).drifts

theorem Moves.drifts (moves : Moves agent scene next) (fits : scene.Fits) (h : scene.Accounted)
    (hid : id < scene.world.pools.length) :
    (scene.world.pool id).Drifts (next.world.pool id) := by
  induction moves with
  | refl => exact (Pool.Steady.refl _).drifts
  | tail earlier move ih =>
      have hid' := (Moves.length_pools earlier).symm ▸ hid
      exact ih.trans (move.drifts (lasting_accounted.moves earlier fits h) hid')

theorem World.currentPid_congr {first second : World} (hpids : first.pids = second.pids)
    (hprocess : (first.pool id).process = (second.pool id).process) :
    first.currentPid id = second.currentPid id := by
  rw [currentPid, currentPid, pidOf, pidOf, hpids, hprocess]

/-- A move does not reset a pool that knows the pid of its process, and it goes on to know it. -/
theorem Move.steady (move : Move agent scene next) (h : scene.Accounted)
    (hid : id < scene.world.pools.length)
    (hpid : (scene.world.pool id).notedPid = scene.world.currentPid id) :
    (scene.world.pool id).Steady (next.world.pool id) ∧
      (next.world.pool id).notedPid = next.world.currentPid id := by
  have hsteady : (scene.world.pool id).Steady (next.world.pool id) := by
    by_cases hagent : id = agent
    · subst hagent
      rcases move.steady_or_reset h hid with hsteady | ⟨hne, -⟩
      · exact hsteady
      · exact absurd hpid.symm hne
    · rw [move.pool_of_ne hagent]
      exact .refl _
  have hcurrent := World.currentPid_congr move.pids_eq hsteady.process_eq
  exact ⟨hsteady, by rw [hsteady.noted_eq, hpid, hcurrent]⟩

theorem Moves.steady (moves : Moves agent scene next) (fits : scene.Fits) (h : scene.Accounted)
    (hid : id < scene.world.pools.length)
    (hpid : (scene.world.pool id).notedPid = scene.world.currentPid id) :
    (scene.world.pool id).Steady (next.world.pool id) ∧
      (next.world.pool id).notedPid = next.world.currentPid id := by
  induction moves with
  | refl => exact ⟨.refl _, hpid⟩
  | tail earlier move ih =>
      have hid' := (Moves.length_pools earlier).symm ▸ hid
      obtain ⟨hsteady, hnoted⟩ := move.steady (lasting_accounted.moves earlier fits h) hid' ih.2
      exact ⟨ih.1.trans hsteady, hnoted⟩

/-- A teardown leaves its pool without slots, until the next reset. -/
theorem Moves.steady_tearDown (fresh : scene.Fresh id) (moves : Moves id (scene.tearDown id) next) :
    (scene.world.pool id).tearDown.Steady (next.world.pool id) := by
  have hpool : (scene.tearDown id).world.pool id = (scene.world.pool id).tearDown :=
    World.pool_modifyPool_self fresh.lt
  have hid : id < (scene.tearDown id).world.pools.length := by
    rw [scene.length_tearDown]
    exact fresh.lt
  have hpid : ((scene.tearDown id).world.pool id).notedPid =
      (scene.tearDown id).world.currentPid id := by
    have hcurrent : (scene.tearDown id).world.currentPid id = scene.world.currentPid id := by
      refine World.currentPid_congr rfl ?_
      rw [hpool, Pool.tearDown]
    rw [hcurrent, hpool]
    exact fresh.noted
  rw [← hpool]
  exact (Moves.steady moves fresh.fits_tearDown fresh.accounted_tearDown hid hpid).1

namespace System

/-- What an event does to a pool: only a teardown and resets change the number of its slots. -/
theorem step?_drifts_or_tearDown (fits : system.scene.Fits) (h : system.scene.Accounted)
    (hid : id < system.world.pools.length) (hstep : system.step? event = some final) :
    (event ≠ .call id .disconnectAll ∧ (system.world.pool id).Drifts (final.world.pool id)) ∨
      (event = .call id .disconnectAll ∧ (final.world.pool id).slots = 0 ∧
        (final.world.pool id).config = (system.world.pool id).config ∧
        (system.world.pool id).resets ≤ (final.world.pool id).resets) := by
  cases step?_passage (hosted_of_fits fits) hstep with
  | moves _ hagent hplain hmoves =>
      refine .inl ⟨?_, Moves.drifts hmoves fits h hid⟩
      rintro rfl
      exact hplain _ _ rfl
  | @invalidate _ agent hagent hscene =>
      have hworld : final.world = system.world.invalidate agent := congrArg Scene.world hscene
      refine .inl ⟨by simp, ?_⟩
      rw [hworld]
      by_cases heq : id = agent
      · subst heq
        rw [World.pool_invalidate_self hid]
        exact .of_reset rfl rfl rfl (h.pools.pool hid).slots_invalidate
      · rw [World.pool_invalidate_of_ne heq]
        exact (Pool.Steady.refl _).drifts
  | @disconnect _ agent hagent hmoves =>
      have move : Move agent system.scene ⟨system.world.checkOwner agent, handOf system.tasks⟩ :=
        .refresh hagent
      have hdrifts := move.drifts h hid
      have fresh : Scene.Fresh ⟨system.world.checkOwner agent, handOf system.tasks⟩ agent :=
        .checkOwner fits h hagent
      by_cases heq : id = agent
      · subst heq
        have hsteady := Moves.steady_tearDown fresh hmoves
        exact .inr ⟨rfl, hsteady.slots_eq.trans Pool.slots_tearDown,
          hsteady.config_eq.trans hdrifts.config_eq, hdrifts.resets_le.trans hsteady.resets_eq.ge⟩
      · have hsame : (Scene.tearDown ⟨system.world.checkOwner agent, handOf system.tasks⟩
            agent).world.pool id = (system.world.checkOwner agent).pool id :=
          World.pool_modifyPool_of_ne heq
        have hid' : id < (Scene.tearDown ⟨system.world.checkOwner agent, handOf system.tasks⟩
            agent).world.pools.length := by
          rwa [Scene.length_tearDown, World.length_checkOwner]
        have hlater := Moves.drifts hmoves fresh.fits_tearDown fresh.accounted_tearDown hid'
        rw [hsame] at hlater
        refine .inl ⟨?_, hdrifts.trans hlater⟩
        rintro ⟨⟩
        exact heq rfl
  | drop | fork | advance =>
      refine .inl ⟨by simp, ?_⟩
      rw [World.pool_congr (step?_pools_eq (hosted_of_fits fits) hstep rfl)]
      exact (Pool.Steady.refl _).drifts

theorem step?_length_pools (fits : system.scene.Fits) (hstep : system.step? event = some final) :
    final.world.pools.length = system.world.pools.length := by
  cases step?_passage (hosted_of_fits fits) hstep with
  | moves _ _ _ hmoves => exact Moves.length_pools hmoves
  | invalidate _ hscene =>
      have hworld : final.world = system.world.invalidate _ := congrArg Scene.world hscene
      rw [hworld, World.invalidate_pools, World.length_modifyPool]
  | disconnect _ hmoves =>
      apply (Moves.length_pools hmoves).trans
      rw [Scene.tearDown, World.length_modifyPool, World.length_checkOwner]
  | drop | fork | advance => rw [step?_pools_eq (hosted_of_fits fits) hstep rfl]

theorem run?_length_pools {events : List Event} (h : system.Reachable)
    (hrun : system.run? events = some final) :
    final.world.pools.length = system.world.pools.length := by
  induction events generalizing system with
  | nil =>
      cases hrun
      rfl
  | cons event rest ih =>
      obtain ⟨middle, hstep, hrest⟩ := Option.bind_eq_some_iff.1 hrun
      rw [ih (h.step? hstep) hrest, step?_length_pools (reachable_fits h) hstep]

theorem Reachable.lt_of_step? (h : system.Reachable) (hid : id < system.world.pools.length)
    (hstep : system.step? event = some final) : id < final.world.pools.length := by
  rwa [step?_length_pools (reachable_fits h) hstep]

theorem Reachable.lt_of_run? {events : List Event} (h : system.Reachable)
    (hid : id < system.world.pools.length) (hrun : system.run? events = some final) :
    id < final.world.pools.length := by
  rwa [run?_length_pools h hrun]

theorem step?_resets_le (h : system.Reachable) (hid : id < system.world.pools.length)
    (hstep : system.step? event = some final) :
    (system.world.pool id).resets ≤ (final.world.pool id).resets := by
  rcases step?_drifts_or_tearDown (reachable_fits h) (reachable_accounted h) hid hstep with
    ⟨-, hdrifts⟩ | ⟨-, -, -, hresets⟩
  · exact hdrifts.resets_le
  · exact hresets

theorem run?_resets_le {events : List Event} (h : system.Reachable)
    (hid : id < system.world.pools.length) (hrun : system.run? events = some final) :
    (system.world.pool id).resets ≤ (final.world.pool id).resets := by
  induction events generalizing system with
  | nil =>
      cases hrun
      exact Nat.le_refl _
  | cons event rest ih =>
      obtain ⟨middle, hstep, hrest⟩ := Option.bind_eq_some_iff.1 hrun
      exact Nat.le_trans (step?_resets_le h hid hstep)
        (ih (h.step? hstep) (h.lt_of_step? hid hstep) hrest)

/-- A teardown of the pool took effect in a run, and the pool was not reset since. -/
def TornDown (start : System) (events : List Event) (final : System) (id : PoolId) : Prop :=
  ∃ earlier later torn, events = earlier ++ .call id .disconnectAll :: later ∧
    start.run? (earlier ++ [.call id .disconnectAll]) = some torn ∧
    (final.world.pool id).resets = (torn.world.pool id).resets

/-- Other events leave a pool torn down unless they reset it. -/
theorem tornDown_concat_iff {start middle : System} {events : List Event} (h : start.Reachable)
    (hid : id < start.world.pools.length) (hrun : start.run? events = some middle)
    (hstep : middle.step? event = some final) (hevent : event ≠ .call id .disconnectAll) :
    start.TornDown (events ++ [event]) final id ↔ start.TornDown events middle id ∧
      (final.world.pool id).resets = (middle.world.pool id).resets := by
  constructor
  · rintro ⟨earlier, later, torn, heq, htorn, hresets⟩
    rcases List.eq_nil_or_concat later with rfl | ⟨rest, last, rfl⟩
    · obtain ⟨-, hlast⟩ := List.append_inj' heq rfl
      exact absurd (List.singleton_inj.1 hlast) hevent
    · rw [List.concat_eq_append, ← List.cons_append, ← List.append_assoc] at heq
      obtain ⟨rfl, -⟩ := List.append_inj' heq rfl
      have hrest : torn.run? rest = some middle := by
        rw [List.append_cons, run?_append, htorn] at hrun
        exact hrun
      have hfirst := run?_resets_le (h.run? htorn) (h.lt_of_run? hid htorn) hrest
      have hsecond := step?_resets_le (h.run? hrun) (h.lt_of_run? hid hrun) hstep
      exact ⟨⟨earlier, rest, torn, rfl, htorn, by omega⟩, by omega⟩
  · rintro ⟨⟨earlier, later, torn, rfl, htorn, hresets⟩, hlast⟩
    refine ⟨earlier, later ++ [event], torn, ?_, htorn, hlast.trans hresets⟩
    rw [List.append_assoc, List.cons_append]

/-- A pool keeps its configuration, and all its slots unless it is torn down: then it has none. -/
theorem run?_slots {pids : List Pid} {pools : List (ProcessId × Config)} {events : List Event}
    {process : ProcessId} {config : Config} (hpool : pools[id]? = some (process, config))
    (hrun : (init pids pools).run? events = some system) :
    (system.world.pool id).config = config ∧
      ((init pids pools).TornDown events system id → (system.world.pool id).slots = 0) ∧
      (¬ (init pids pools).TornDown events system id →
        (system.world.pool id).slots = config.maxSize.toNat) := by
  have hinit : (init pids pools).Reachable := ⟨pids, pools, [], rfl⟩
  obtain ⟨hid, hnew⟩ := init_pool pids hpool
  induction events using List.reverseRecOn generalizing system with
  | nil =>
      cases hrun
      rw [hnew]
      refine ⟨rfl, ?_, ?_⟩
      · rintro ⟨earlier, later, torn, heq, -⟩
        exact absurd heq (by simp)
      · simp [Pool.slots, Pool.new]
  | append_singleton events event ih =>
      obtain ⟨middle, hmiddle, hstep⟩ :=
        Option.bind_eq_some_iff.1 ((run?_concat _ events event).symm.trans hrun)
      obtain ⟨hconfig, htorn, hfull⟩ := ih hmiddle
      have hreach := hinit.run? hmiddle
      have hid' := hinit.lt_of_run? hid hmiddle
      rcases step?_drifts_or_tearDown (reachable_fits hreach) (reachable_accounted hreach) hid'
        hstep with ⟨hevent, hdrifts⟩ | ⟨rfl, hslots, hsame, -⟩
      · rw [tornDown_concat_iff hinit hid hmiddle hstep hevent]
        have hnow : (system.world.pool id).config = config := hdrifts.config_eq.trans hconfig
        refine ⟨hnow, ?_, ?_⟩
        · rintro ⟨hbefore, hresets⟩
          rw [hdrifts.slots_eq hresets, htorn hbefore]
        · intro hnot
          by_cases hresets : (system.world.pool id).resets = (middle.world.pool id).resets
          · have hbefore : ¬ (init pids pools).TornDown events middle id :=
              fun hbefore => hnot ⟨hbefore, hresets⟩
            rw [hdrifts.slots_eq hresets, hfull hbefore]
          · rw [hdrifts.slots_reset hresets, Pool.maxSize, hnow]
      · have hnow : (init pids pools).TornDown (events ++ [.call id .disconnectAll]) system id :=
          ⟨events, [], system, rfl, hrun, rfl⟩
        exact ⟨hsame.trans hconfig, fun _ => hslots, fun hnot => absurd hnow hnot⟩

/-- Conservation of slots. -/
theorem slots_conserved {pids : List Pid} {pools : List (ProcessId × Config)} {events : List Event}
    {process : ProcessId} {config : Config} (hpool : pools[id]? = some (process, config))
    (hrun : (init pids pools).run? events = some system) :
    let pool := system.world.pool id
    let stats := pool.stats
    (¬ (init pids pools).TornDown events system id →
        pool.free.length + pool.leased + pool.staleLeased = config.maxSize.toNat ∧
          stats.idle.toNat + stats.active.toNat + stats.vacant.toNat = config.maxSize.toNat) ∧
      ((init pids pools).TornDown events system id →
        pool.free.length + pool.leased + pool.staleLeased = 0 ∧
          stats.idle.toNat + stats.active.toNat + stats.vacant.toNat = 0) ∧
      ∀ owner inherited, (pool.reset owner inherited).staleLeased ≤ config.maxSize.toNat := by
  obtain ⟨hconfig, htorn, hfull⟩ := run?_slots hpool hrun
  have hid : id < system.world.pools.length := by
    have hinit : (init pids pools).Reachable := ⟨pids, pools, [], rfl⟩
    rw [run?_length_pools hinit hrun]
    exact (init_pool pids hpool).1
  have hreach : system.Reachable := ⟨pids, pools, events, hrun⟩
  have hle : (system.world.pool id).slots ≤ (system.world.pool id).maxSize :=
    ((reachable_accounted hreach).pools.pool hid).slots_le
  have hstats := Pool.stats_slots hle
  refine ⟨?_, ?_, ?_⟩
  · intro hnot
    exact ⟨hfull hnot, hstats.trans (hfull hnot)⟩
  · intro hnow
    exact ⟨htorn hnow, hstats.trans (htorn hnow)⟩
  · intro owner inherited
    rw [Pool.slots, Pool.maxSize, hconfig] at hle
    cases inherited with
    | true => exact Nat.zero_le _
    | false =>
        change (system.world.pool id).staleLeased + (system.world.pool id).leased ≤ _
        omega

/-- A pool of two slots is full after an acquisition and an invalidation. -/
theorem slots_conserved_invalidated : ∃ system,
    (init [7] [(0, Config.ofSize 2)]).run?
        [.call 0 (.acquire none), .reply 0 (.created "db"), .call 0 .invalidate] = some system ∧
      (system.world.pool 0).free.length + (system.world.pool 0).leased +
        (system.world.pool 0).staleLeased = 2 := by
  refine exists_run? rfl fun system hrun => ?_
  have hpool : [((0 : ProcessId), Config.ofSize 2)][0]? = some (0, Config.ofSize 2) := rfl
  refine ((slots_conserved hpool hrun).1 ?_).1
  rintro ⟨earlier, later, torn, heq, -⟩
  have hmem : Event.call 0 .disconnectAll ∈ earlier ++ .call 0 .disconnectAll :: later := by simp
  rw [← heq] at hmem
  simp at hmem

end System
end LeasePool
