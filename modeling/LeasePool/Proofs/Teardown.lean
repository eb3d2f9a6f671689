import LeasePool.Proofs.Courses
import LeasePool.Proofs.Epochs
import LeasePool.Proofs.Returns

/-!
Teardowns. From a teardown to the next reset a pool has no slots at all: nobody takes one, and
whoever asks for one waits until its patience ends and is refused. The reset fills the pool, and
leases from before the teardown never add a slot to it, since the floor of the pool lies above
their epochs.
-/

namespace LeasePool

/-- How long a call that acquires a resource waits for a slot. -/
def Call.patience? (pool : Pool) : Call → Option Patience
  | .acquire patience => some (patience.getD (.within pool.acquireTimeout))
  | .run _ => some (.within pool.acquireTimeout)
  | _ => none

/-- An acquisition from the pool that waits for a slot since an instant, or that was refused when
its patience ended. -/
def Progress.IsUnserved (id : PoolId) (config : Config) (patience : Patience) (since : Instant)
    (progress : Progress) : Prop :=
  (∃ purpose, progress = .pending (.waiting id patience since purpose)) ∨
    ∃ timeout, patience = .within timeout ∧
      progress = .done (.failed (.poolExhausted config.maxSize.toNat timeout))

namespace World

variable {world : World} {id : PoolId} {purpose : Purpose} {patience : Patience} {since : Instant}

theorem slotOwner?_takeSlot (slot : Slot) :
    (world.takeSlot id slot purpose).2.slotOwner?.isSome = true := by
  cases slot with
  | vacant => rfl
  | idle entry =>
      unfold World.takeSlot
      dsimp only
      split
      · rfl
      · split
        · rfl
        · rw [Progress.slotOwner?_of_lent? (lent?_reuse entry)]
          rfl

/-- An acquisition that does not come to a slot waits on, or it gives up. -/
theorem isUnserved_awaitSlot
    (hnone : (world.awaitSlot id patience since purpose).2.slotOwner? = none) :
    (world.awaitSlot id patience since purpose).2.IsUnserved id
      ((world.awaitSlot id patience since purpose).1.pool id).config patience since := by
  unfold World.awaitSlot at hnone ⊢
  split at hnone
  · next slot rest hfree =>
    have hsome : (world.takeSlot id slot purpose).2.slotOwner?.isSome = true :=
      slotOwner?_takeSlot slot
    rw [hnone] at hsome
    cases hsome
  · next timeout hfree =>
    split
    · have hconfig : ((world.exhaust id timeout).1.pool id).config = (world.pool id).config :=
        view_modifyPool Pool.config fun _ => rfl
      rw [hconfig]
      exact .inr ⟨timeout, rfl, rfl⟩
    · exact .inl ⟨purpose, rfl⟩
  · exact .inl ⟨purpose, rfl⟩

/-- A call that does not come to a slot waits for one since it was made, or it gives up. -/
theorem isUnserved_begin {call : Call} (hcall : call.patience? (world.pool id) = some patience)
    (hnone : (world.begin id call).2.slotOwner? = none) :
    (world.begin id call).2.IsUnserved id ((world.begin id call).1.pool id).config patience
      world.clock := by
  have hclock : ((world.checkOwner id).modifyPool id Pool.enqueue).clock = world.clock :=
    checkOwner_clock
  rw [← hclock]
  cases call with
  | acquire | run =>
      cases hcall
      exact isUnserved_awaitSlot hnone
  | release | discard | disconnectAll | invalidate | closeIdle | evictExpired => cases hcall

end World

/-- Nothing that was lent under `owner` adds a slot to the pool when it comes back. -/
structure World.Ignores (world : World) (id : PoolId) (owner : Owner) : Prop where
  /-- A caller gives a lease back. -/
  released : ∀ lease, lease.owner = owner →
    ((world.part lease).release id lease).pool id = (world.checkOwner id).pool id
  /-- The work on a lease ends. -/
  worked : ∀ lease, lease.owner = owner →
    (world.release id lease).pool id = (world.checkOwner id).pool id
  /-- The resource of a discarded lease is closed. -/
  discarded : ∀ resource sequel failure,
    let vacated := world.vacate id owner resource failure
    world.discarded id owner resource sequel failure = vacated.afterDiscard id sequel ∧
      vacated.pool id = world.pool id
  /-- No resource was made for an acquisition. -/
  notCreated : ∀ failure,
    (world.notCreated id owner failure).1.pool id = (world.pool id).countFailure

section Late

variable {world : World} {pool : Pool} {id : PoolId} {owner : Owner} {lease : Lease}
  {out : Multiset Owner}

theorem Pool.not_holdsSlot_of_lt (hlt : owner.epoch < pool.reclaimFloor) :
    ¬ pool.HoldsSlot owner :=
  fun hholds => absurd hholds.2.1 (Nat.not_le_of_lt hlt)

theorem Pool.Balanced.ne_owner_of_lt (h : pool.Balanced out)
    (hlt : owner.epoch < pool.reclaimFloor) : owner ≠ pool.owner := by
  rintro rfl
  exact absurd h.floor_le (Nat.not_le_of_lt hlt)

theorem Pool.Balanced.restoreVacant_of_lt (h : pool.Balanced out)
    (hlt : owner.epoch < pool.reclaimFloor) : pool.restoreVacant owner = pool := by
  rw [Pool.restoreVacant, if_neg (h.ne_owner_of_lt hlt).symm,
    Pool.reclaim_of_not_holdsSlot (Pool.not_holdsSlot_of_lt hlt)]

/-- A lease of an epoch below the floor is turned away. -/
theorem World.pool_release_of_lt (hid : id < world.pools.length)
    (h : ((world.checkOwner id).pool id).Balanced out)
    (hlt : lease.owner.epoch < ((world.checkOwner id).pool id).reclaimFloor) :
    (world.release id lease).pool id = (world.checkOwner id).pool id := by
  have hid' : id < ((world.checkOwner id).noteReturn id lease.owner).pools.length := by
    rwa [World.length_noteReturn, World.length_checkOwner]
  rw [World.release]
  dsimp only
  rw [if_pos (h.ne_owner_of_lt hlt), World.pool_turnAway hid', World.pool_noteReturn,
    Pool.reclaim_of_not_holdsSlot (Pool.not_holdsSlot_of_lt hlt)]

/-- A pool ignores the leases of epochs below its floor. -/
theorem Scene.Accounted.ignores {hand : Multiset Holding} (h : Accounted ⟨world, hand⟩)
    (fits : Fits ⟨world, hand⟩) (hid : id < world.pools.length)
    (hlt : owner.epoch < (world.pool id).reclaimFloor) : world.Ignores id owner := by
  have move : Move id ⟨world, hand⟩ ⟨world.checkOwner id, hand⟩ := .refresh hid
  have hid' : id < (world.checkOwner id).pools.length := by rwa [World.length_checkOwner]
  have hready : ((world.checkOwner id).pool id).Balanced (world.checkOwner id).unreturned :=
    (move.accounted fits h).pools.pool hid'
  have hfloor : owner.epoch < ((world.checkOwner id).pool id).reclaimFloor :=
    Nat.lt_of_lt_of_le hlt (move.advances h hid).floor_le
  have hbalanced : (world.pool id).Balanced world.unreturned := h.pools.pool hid
  constructor
  · rintro lease rfl
    have hsame : ((world.part lease).checkOwner id).pool id = (world.checkOwner id).pool id :=
      (World.pool_checkOwner (by exact hid)).trans (World.pool_checkOwner hid).symm
    rw [← hsame] at hready hfloor ⊢
    exact World.pool_release_of_lt hid hready hfloor
  · rintro lease rfl
    exact World.pool_release_of_lt hid hready hfloor
  · intro resource sequel failure
    refine ⟨World.discarded_eq owner resource sequel failure, ?_⟩
    rw [World.pool_vacate hid, hbalanced.restoreVacant_of_lt hlt]
  · intro failure
    have hcounted : (world.pool id).countFailure.Balanced world.unreturned :=
      hbalanced.congr rfl rfl rfl rfl rfl rfl
    rw [World.pool_notCreated hid, hcounted.restoreVacant_of_lt hlt]

end Late

namespace System

variable {system next start final : System} {id : PoolId} {config : Config} {event : Event}
  {events : List Event} {task? : Option Task} {first progress : Progress} {owner : Owner}
  {patience : Patience} {since : Instant}

/-- The pool has no slots, neither free nor out. -/
structure Shut (system : System) (id : PoolId) (config : Config) : Prop where
  reach : system.Reachable
  lt : id < system.world.pools.length
  config_eq : (system.world.pool id).config = config
  slots_eq : (system.world.pool id).slots = 0

/-- Only a reset gives slots to a pool that has none. -/
theorem Shut.step? (h : system.Shut id config) (hstep : system.step? event = some final)
    (hresets : (final.world.pool id).resets = (system.world.pool id).resets) :
    final.Shut id config := by
  refine ⟨h.reach.step? hstep, h.reach.lt_of_step? h.lt hstep, ?_, ?_⟩
  all_goals
    rcases step?_drifts_or_tearDown (reachable_fits h.reach) (reachable_accounted h.reach) h.lt
      hstep with ⟨-, hdrifts⟩ | ⟨-, hslots, hconfig, -⟩
  · exact hdrifts.config_eq.trans h.config_eq
  · exact hconfig.trans h.config_eq
  · exact (hdrifts.slots_eq hresets).trans h.slots_eq
  · exact hslots

theorem Shut.run? (h : system.Shut id config) (hrun : system.run? events = some final)
    (hresets : (final.world.pool id).resets = (system.world.pool id).resets) :
    final.Shut id config := by
  induction events generalizing system with
  | nil =>
      cases hrun
      exact h
  | cons event rest ih =>
      obtain ⟨middle, hstep, hrest⟩ := Option.bind_eq_some_iff.1 hrun
      have hreach := h.reach.step? hstep
      have hfirst := step?_resets_le h.reach h.lt hstep
      have hlater := run?_resets_le hreach (h.reach.lt_of_step? h.lt hstep) hrest
      have hmiddle : middle.Shut id config := h.step? hstep (by omega)
      exact ih hmiddle hrest (by omega)

/-- The slot that an operation came to is out. -/
theorem Turn.mem_units (turn : system.Turn id event task? next progress)
    (howner : progress.slotOwner? = some owner) : owner ∈ next.scene.units := by
  cases progress with
  | done outcome =>
      cases outcome with
      | lent lease =>
          cases howner
          have hheld : lease ∈ next.world.held := turn.grants.held lease rfl
          exact Multiset.mem_add.2 (.inr (List.mem_map.2 ⟨lease, hheld, rfl⟩))
      | finished | failed | swept | worked => cases howner
  | pending task =>
      have hhand : ∀ holding ∈ task.holdings, holding ∈ next.scene.hand :=
        fun holding hmem => mem_handOf.2 ⟨task, turn.mem_tasks, hmem⟩
      cases task with
      | validating | replacing | creating | working =>
          cases howner
          exact Scene.mem_units (hhand _ (Multiset.mem_singleton_self _)) rfl
      | waiting | discarding | pausing | disconnecting | sweeping => cases howner

/-- Nobody takes a slot of a pool that has none. -/
theorem Shut.slotOwner?_eq_none (h : next.Shut id config)
    (turn : system.Turn id event task? next progress)
    (htask : task?.bind Task.acquiring? = none) : progress.slotOwner? = none := by
  by_contra hsome
  obtain ⟨owner, howner⟩ := Option.ne_none_iff_exists'.1 hsome
  have hgrants := turn.grants
  rw [htask] at hgrants
  obtain rfl : owner = (next.world.pool id).owner := hgrants.owner_eq owner howner
  have hout : (next.world.pool id).owner ∈ next.world.unreturned :=
    Multiset.mem_of_le (reachable_accounted h.reach).backed (turn.mem_units howner)
  have hleased := ((h.reach.balanced h.lt).room_of_owner hout).1
  have hslots := h.slots_eq
  unfold Pool.slots at hslots
  omega

theorem Shut.isUnserved_of_call {call : Call} (h : next.Shut id config)
    (turn : system.Turn id (.call id call) none next first)
    (hcall : call.patience? (system.world.pool id) = some patience) :
    first.IsUnserved id config patience system.world.clock := by
  have hnone := h.slotOwner?_eq_none turn rfl
  rw [← h.config_eq]
  cases turn with
  | @call id call result hbegin =>
      obtain rfl := World.eq_begin_of_call hbegin
      rw [world_settle]
      exact World.isUnserved_begin hcall hnone

/-- An acquisition that waits and takes its turn waits on, or is refused. -/
theorem Shut.isUnserved_of_waiting {agent : PoolId} {purpose : Purpose} (h : next.Shut id config)
    (turn : system.Turn agent event (some (.waiting id patience since purpose)) next progress) :
    progress.IsUnserved id config patience since := by
  have hnone : progress.slotOwner? = none := by
    obtain rfl : id = agent := turn.pool_eq
    exact h.slotOwner?_eq_none turn rfl
  rw [← h.config_eq]
  cases turn with
  | reply htask hresume => cases hresume
  | wake htask hwake =>
      cases hwake
      rw [world_settle]
      exact World.isUnserved_awaitSlot hnone

/-- In a run without a reset of the pool there is none before the last step. -/
theorem Shut.of_last_step (h : start.Shut id config) (hrun : start.run? events = some system)
    (hstep : system.step? event = some next)
    (hresets : (next.world.pool id).resets = (start.world.pool id).resets) :
    (system.world.pool id).resets = (start.world.pool id).resets ∧ next.Shut id config := by
  have hreach : system.Reachable := h.reach.run? hrun
  have hbefore := run?_resets_le h.reach h.lt hrun
  have hlast := step?_resets_le hreach (h.reach.lt_of_run? h.lt hrun) hstep
  have hsame : (system.world.pool id).resets = (start.world.pool id).resets := by omega
  exact ⟨hsame, (h.run? hrun hsame).step? hstep (by omega)⟩

/-- An acquisition from a pool that has no slots never comes to one. -/
theorem Shut.isUnserved_of_course {follows : Task → Prop} (h : start.Shut id config)
    (hfirst : first.IsUnserved id config patience since)
    (course : Course follows start first events final progress)
    (hresets : (final.world.pool id).resets = (start.world.pool id).resets) :
    progress.IsUnserved id config patience since := by
  induction course with
  | here => exact hfirst
  | waits before hfollows hstep hstays ih =>
      exact ih (h.of_last_step before.run? hstep hresets).1
  | goesOn before hfollows turn ih =>
      obtain ⟨hsame, hnext⟩ := h.of_last_step before.run? turn.step? hresets
      obtain ⟨purpose, hwaits⟩ | ⟨timeout, -, hdone⟩ := ih hsame
      · cases hwaits
        exact hnext.isUnserved_of_waiting turn
      · cases hdone

/-- An acquisition whose time has come gives up when it looks again. -/
theorem Shut.exhausted {place : Nat} {timeout : Duration} {purpose : Purpose}
    (h : system.Shut id config)
    (htask : system.tasks[place]? = some (.waiting id (.within timeout) since purpose))
    (hdue : since + timeout ≤ system.world.clock) :
    ∃ next, system.Turn id (.wake place) (some (.waiting id (.within timeout) since purpose)) next
      (.done (.failed (.poolExhausted config.maxSize.toNat timeout))) := by
  have hfree : (system.world.pool id).free = [] := by
    have hslots := h.slots_eq
    unfold Pool.slots at hslots
    exact List.length_eq_zero_iff.1 (by omega)
  have hgives : system.world.awaitSlot id (.within timeout) since purpose =
      system.world.exhaust id timeout := by
    unfold World.awaitSlot
    simp only [hfree, if_pos hdue]
  have hwake : system.world.wake (.waiting id (.within timeout) since purpose) =
      some (system.world.exhaust id timeout) := congrArg some hgives
  have turn := Turn.wake htask hwake
  rw [← h.config_eq]
  exact ⟨_, turn⟩

/-- The pool, torn down and not reset since, stays empty until it is reset. -/
structure StaysEmpty (system : System) (id : PoolId) (config : Config) : Prop where
  empty : (system.world.pool id).free = [] ∧ (system.world.pool id).leased = 0 ∧
    (system.world.pool id).staleLeased = 0
  /-- No operation comes to a slot. -/
  untaken : ∀ event task? next progress, system.Turn id event task? next progress →
    task?.bind Task.acquiring? = none →
    (next.world.pool id).resets = (system.world.pool id).resets → progress.slotOwner? = none
  /-- A call that acquires a resource waits for a slot, whatever happens meanwhile, and all that can
  come of it is a refusal; the factory is not asked. -/
  refused : ∀ call patience start first events final progress,
    call.patience? (system.world.pool id) = some patience →
    system.Turn id (.call id call) none start first →
    Course (fun _ => True) start first events final progress →
    (final.world.pool id).resets = (system.world.pool id).resets →
    progress.IsUnserved id config patience system.world.clock
  /-- The refusal comes when the time of the acquisition has come; without a limit it waits on. -/
  exhausted : ∀ place timeout since purpose,
    system.tasks[place]? = some (.waiting id (.within timeout) since purpose) →
    since + timeout ≤ system.world.clock →
    ∃ next, system.Turn id (.wake place) (some (.waiting id (.within timeout) since purpose)) next
      (.done (.failed (.poolExhausted config.maxSize.toNat timeout)))
  /-- The next reset fills the pool, unless a teardown did it that empties the pool again. -/
  refilled : ∀ event next, event ≠ .call id .disconnectAll → system.step? event = some next →
    (next.world.pool id).resets ≠ (system.world.pool id).resets →
    (next.world.pool id).free.length + (next.world.pool id).leased +
      (next.world.pool id).staleLeased = config.maxSize.toNat

theorem Shut.staysEmpty (h : system.Shut id config) : system.StaysEmpty id config := by
  constructor
  · have hslots := h.slots_eq
    unfold Pool.slots at hslots
    refine ⟨List.length_eq_zero_iff.1 ?_, ?_, ?_⟩ <;> omega
  · intro event task? next progress turn htask hresets
    exact (h.step? turn.step? hresets).slotOwner?_eq_none turn htask
  · intro call patience start first events final progress hcall turn course hresets
    have hid : id < start.world.pools.length := h.reach.lt_of_step? h.lt turn.step?
    have hbegin := step?_resets_le h.reach h.lt turn.step?
    have hlater := run?_resets_le (h.reach.step? turn.step?) hid course.run?
    have hstart : start.Shut id config := h.step? turn.step? (by omega)
    exact hstart.isUnserved_of_course (hstart.isUnserved_of_call turn hcall) course (by omega)
  · intro place timeout since purpose
    exact h.exhausted
  · intro event next hevent hstep hresets
    rcases step?_drifts_or_tearDown (reachable_fits h.reach) (reachable_accounted h.reach) h.lt
      hstep with ⟨-, hdrifts⟩ | ⟨hteardown, -⟩
    · have hfull := hdrifts.slots_reset hresets
      rwa [Pool.maxSize, hdrifts.config_eq, h.config_eq] at hfull
    · exact absurd hteardown hevent

/-- What was lent before a teardown is ignored ever after. -/
theorem ignores_of_disconnectAll {before torn : System} (reach : before.Reachable)
    (hid : id < before.world.pools.length)
    (hstep : before.step? (.call id .disconnectAll) = some torn)
    (hrun : torn.run? events = some system) (hout : owner ∈ before.world.unreturned)
    (hpool : owner.pool = id) : system.world.Ignores id owner := by
  have htorn : torn.Reachable := reach.step? hstep
  have hreach : system.Reachable := htorn.run? hrun
  have hid' : id < torn.world.pools.length := reach.lt_of_step? hid hstep
  have hissued : owner.epoch ≤ (before.world.pool id).owner.epoch :=
    ((reach.balanced hid).issued owner hout (hpool.trans (reach.owner_pool hid).symm)).1
  have hlt : owner.epoch < (system.world.pool id).reclaimFloor :=
    calc owner.epoch ≤ (before.world.pool id).owner.epoch := hissued
      _ < (torn.world.pool id).reclaimFloor := epoch_lt_floor_of_disconnectAll reach hstep
      _ ≤ (system.world.pool id).reclaimFloor := (run?_advances htorn hid' hrun).floor_le
  exact (reachable_accounted hreach).ignores (reachable_fits hreach)
    (htorn.lt_of_run? hid' hrun) hlt

/-- A pool that was torn down stays empty until it is reset, and what was lent before a teardown
never adds a slot to the pool again. -/
theorem staysEmpty_of_tornDown {pids : List Pid} {pools : List (ProcessId × Config)}
    {process : ProcessId} (hpool : pools[id]? = some (process, config))
    (hrun : (init pids pools).run? events = some system) :
    ((init pids pools).TornDown events system id → system.StaysEmpty id config) ∧
    ∀ earlier later before owner, events = earlier ++ .call id .disconnectAll :: later →
      (init pids pools).run? earlier = some before → owner ∈ before.world.unreturned →
      owner.pool = id → system.world.Ignores id owner := by
  have hinit : (init pids pools).Reachable := ⟨pids, pools, [], rfl⟩
  have hid := (init_pool pids hpool).1
  constructor
  · intro htorn
    obtain ⟨hconfig, hslots, -⟩ := run?_slots hpool hrun
    have hshut : system.Shut id config :=
      ⟨hinit.run? hrun, hinit.lt_of_run? hid hrun, hconfig, hslots htorn⟩
    exact hshut.staysEmpty
  · rintro earlier later before owner rfl hearlier hout hplace
    rw [run?_append, hearlier, Option.bind_some] at hrun
    obtain ⟨torn, hstep, hlater⟩ := Option.bind_eq_some_iff.1 hrun
    exact ignores_of_disconnectAll (hinit.run? hearlier)
      (hinit.lt_of_run? hid hearlier) hstep hlater hout hplace

/-- A pool of one slot is torn down while its resource is lent. -/
theorem staysEmpty_of_lease_out : ∃ system,
    (init [7] [(0, Config.ofSize 1)]).run?
        [.call 0 (.acquire none), .reply 0 (.created "db"), .call 0 .disconnectAll,
          .reply 0 (.closed none)] = some system ∧
      system.StaysEmpty 0 (Config.ofSize 1) ∧ system.world.Ignores 0 ⟨0, 7, 0⟩ := by
  refine exists_run? rfl fun system hrun => ?_
  have hpool : [((0 : ProcessId), Config.ofSize 1)][0]? = some (0, Config.ofSize 1) := rfl
  obtain ⟨hempty, hignores⟩ := staysEmpty_of_tornDown hpool hrun
  refine ⟨hempty ?_, ?_⟩
  · cases hrun
    exact ⟨[.call 0 (.acquire none), .reply 0 (.created "db")], [.reply 0 (.closed none)], _, rfl,
      rfl, rfl⟩
  · exact hignores [.call 0 (.acquire none), .reply 0 (.created "db")] _ _ _ rfl rfl
      (Multiset.mem_singleton_self _) rfl

end System
end LeasePool
