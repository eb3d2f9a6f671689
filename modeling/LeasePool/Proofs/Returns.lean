import LeasePool.Proofs.Accounts

/-!
Returns. A lease of the present owner that comes back is counted and finds room, and so does a lease
of an earlier owner that still holds a slot; every other lease leaves the slots as they are. The
leases that never come back stay unreturned.
-/

namespace LeasePool

variable {world : World} {id : PoolId} {hand : Multiset Holding} {lease : Lease}

/-- How a pool takes back the slot of a lease: the slot of a lease of its owner comes back as
`slot`, that of an earlier lease that still holds one comes back vacant, and no other adds a
slot. -/
structure Pool.TakesBack (pool : Pool) (owner : Owner) (slot : Slot) (after : Pool) : Prop where
  current : owner = pool.owner →
    1 ≤ pool.leased ∧ pool.free.length < pool.maxSize ∧ after.free = slot :: pool.free ∧
      after.leased = pool.leased - 1 ∧ after.staleLeased = pool.staleLeased
  stale : pool.HoldsSlot owner →
    1 ≤ pool.staleLeased ∧ pool.free.length < pool.maxSize ∧ after.free = .vacant :: pool.free ∧
      after.leased = pool.leased ∧ after.staleLeased = pool.staleLeased - 1
  other : owner ≠ pool.owner → ¬ pool.HoldsSlot owner →
    after.free = pool.free ∧ after.leased = pool.leased ∧ after.staleLeased = pool.staleLeased

namespace Pool.Balanced

variable {pool : Pool} {owner : Owner} {out : Multiset Owner}

theorem takesBack_giveBack (h : pool.Balanced (pool.owner ::ₘ out)) (slot : Slot) :
    pool.TakesBack pool.owner slot (pool.giveBack slot) := by
  obtain ⟨hleased, hroom⟩ := h.room_of_owner (Multiset.mem_cons_self _ _)
  rw [Pool.giveBack, push_of_lt (by exact hroom)]
  refine ⟨?_, ?_, ?_⟩
  · intro _
    exact ⟨hleased, hroom, rfl, rfl, rfl⟩
  · intro hholds
    exact absurd hholds pool.not_holdsSlot_owner
  · intro hne
    exact absurd rfl hne

theorem takesBack_reclaim (h : pool.Balanced (owner ::ₘ out)) (hne : owner ≠ pool.owner)
    (slot : Slot) : pool.TakesBack owner slot (pool.reclaim owner) := by
  have hmem : owner ∈ owner ::ₘ out := Multiset.mem_cons_self _ _
  refine ⟨?_, ?_, ?_⟩
  · intro heq
    exact absurd heq hne
  · intro hholds
    obtain ⟨hstale, hroom⟩ := h.room_of_holdsSlot hmem hholds
    rw [h.reclaim_of_holdsSlot hmem hholds]
    exact ⟨hstale, hroom, rfl, rfl, rfl⟩
  · intro _ hholds
    rw [reclaim_of_not_holdsSlot hholds]
    exact ⟨rfl, rfl, rfl⟩

theorem takesBack_restoreVacant (h : pool.Balanced (owner ::ₘ out)) :
    pool.TakesBack owner .vacant (pool.restoreVacant owner) := by
  by_cases howner : pool.owner = owner
  · subst howner
    rw [Pool.restoreVacant, if_pos rfl]
    exact h.takesBack_giveBack .vacant
  · rw [Pool.restoreVacant, if_neg howner]
    exact h.takesBack_reclaim (Ne.symm howner) .vacant

end Pool.Balanced

namespace World

theorem pool_turnAway (hid : id < world.pools.length) :
    (world.turnAway id lease).pool id = (world.pool id).reclaim lease.owner := by
  by_cases hpid : lease.owner.pid = (world.pool id).owner.pid
  · obtain ⟨notice, haway⟩ := turnAway_of_pid_eq world id hpid
    rw [haway, pool_congr letGo_pools]
    exact pool_modifyPool_self hid
  · obtain ⟨notice, haway⟩ := turnAway_of_pid_ne world id hpid
    rw [haway, Pool.reclaim_of_pid_ne hpid]
    rfl

theorem unreturned_turnAway : (world.turnAway id lease).unreturned = world.unreturned := by
  by_cases hpid : lease.owner.pid = (world.pool id).owner.pid
  · obtain ⟨notice, haway⟩ := turnAway_of_pid_eq world id hpid
    rw [haway, unreturned_letGo]
    rfl
  · obtain ⟨notice, haway⟩ := turnAway_of_pid_ne world id hpid
    rw [haway]
    rfl

theorem unreturned_noteReturn (owner : Owner) : (world.noteReturn id owner).unreturned =
    if owner.pool = id then world.unreturned.erase owner else world.unreturned := by
  unfold noteReturn
  split <;> rfl

/-- A release returns the slot of the lease if the pool issued it. -/
theorem unreturned_release : (world.release id lease).unreturned =
    if lease.owner.pool = id then world.unreturned.erase lease.owner else world.unreturned := by
  have hnote : ((world.checkOwner id).noteReturn id lease.owner).unreturned =
      if lease.owner.pool = id then world.unreturned.erase lease.owner else world.unreturned := by
    rw [unreturned_noteReturn, unreturned_checkOwner]
  rw [← hnote, World.release]
  dsimp only
  split
  · exact unreturned_turnAway
  · split
    · rfl
    · exact unreturned_letGo

/-- A release changes only the slots of the pool, once the pool has looked at its process. -/
theorem pool_release_eq (hid : id < world.pools.length) : ∃ free leased stale,
    (world.release id lease).pool id = { (world.checkOwner id).pool id with
      free := free, leased := leased, staleLeased := stale } := by
  have hnoted : id < ((world.checkOwner id).noteReturn id lease.owner).pools.length := by
    rwa [length_noteReturn, length_checkOwner]
  unfold release
  dsimp only
  split
  · next hstale =>
    have hrestore := ((world.checkOwner id).pool id).restoreVacant_eq lease.owner
    rw [Pool.restoreVacant, if_neg (Ne.symm hstale)] at hrestore
    rw [pool_turnAway hnoted, pool_noteReturn]
    exact hrestore
  · split
    · rw [pool_modifyPool_self hnoted, pool_noteReturn]
      obtain ⟨free, hpush⟩ := Pool.push_eq { (world.checkOwner id).pool id with
        leased := ((world.checkOwner id).pool id).leased - 1 }
        (.idle ⟨lease.resource, lease.createdAt,
          ((world.checkOwner id).noteReturn id lease.owner).clock⟩)
      exact ⟨free, _, _, hpush⟩
    · have hpool : ∀ change, (((world.checkOwner id).noteReturn id lease.owner).modifyPool id
          change).pool id = change ((world.checkOwner id).pool id) := by
        intro change
        rw [pool_modifyPool_self hnoted, pool_noteReturn]
      rw [pool_congr letGo_pools]
      exact ⟨_, _, _, hpool _⟩

theorem pool_notCreated {owner : Owner} {failure : Failure} (hid : id < world.pools.length) :
    (world.notCreated id owner failure).1.pool id =
      (world.pool id).countFailure.restoreVacant owner := by
  have hid' : id < (world.modifyPool id Pool.countFailure).pools.length := by
    rwa [length_modifyPool]
  have hpool : (world.notCreated id owner failure).1.pool id =
      ((world.modifyPool id Pool.countFailure).pool id).restoreVacant owner :=
    pool_modifyPool_self hid'
  rw [hpool, pool_modifyPool_self hid]

/-- The world when a discarded resource was closed and let go, and its slot came back vacant. -/
def vacate (world : World) (id : PoolId) (owner : Owner) (resource : ResourceId)
    (failure : Option Failure) : World :=
  ((world.noteClose resource failure).letGo resource).restoreVacant id owner

theorem discarded_eq (owner : Owner) (resource : ResourceId) (sequel : Sequel)
    (failure : Option Failure) : world.discarded id owner resource sequel failure =
      (world.vacate id owner resource failure).afterDiscard id sequel := rfl

theorem length_vacate {owner : Owner} {resource : ResourceId} {failure : Option Failure} :
    (world.vacate id owner resource failure).pools.length = world.pools.length := by
  rw [vacate, restoreVacant, length_modifyPool, emit, letGo_pools, noteClose_pools]

theorem pool_vacate (hid : id < world.pools.length) (owner : Owner) (resource : ResourceId)
    (failure : Option Failure) :
    (world.vacate id owner resource failure).pool id = (world.pool id).restoreVacant owner := by
  have hpools : ((world.noteClose resource failure).letGo resource).pools = world.pools :=
    letGo_pools.trans noteClose_pools
  have hpool : (world.vacate id owner resource failure).pool id =
      (((world.noteClose resource failure).letGo resource).pool id).restoreVacant owner :=
    pool_modifyPool_self (hpools.symm ▸ hid)
  rw [hpool, pool_congr hpools]

end World

/-- A released lease finds its slot counted and room for it. -/
theorem Scene.Accounted.takesBack_release {resource : ResourceId}
    (fits : Fits ⟨world, .handed lease.owner resource ::ₘ hand⟩)
    (h : Accounted ⟨world, .handed lease.owner resource ::ₘ hand⟩)
    (hid : id < world.pools.length) :
    ((world.checkOwner id).pool id).TakesBack lease.owner
      (.idle ⟨lease.resource, lease.createdAt, (world.checkOwner id).clock⟩)
      ((world.release id lease).pool id) := by
  have hid' : id < (world.checkOwner id).pools.length := by rwa [World.length_checkOwner]
  have hready : Accounted ⟨world.checkOwner id, .handed lease.owner resource ::ₘ hand⟩ :=
    Move.accounted (.refresh hid) fits h
  have hbalanced := hready.balanced_cons hid' (mem_units (Multiset.mem_cons_self _ _) rfl)
  rw [World.release]
  generalize world.checkOwner id = ready at hid' hbalanced
  dsimp only
  by_cases howner : lease.owner = (ready.pool id).owner
  · rw [howner] at hbalanced
    obtain ⟨-, hroom⟩ := hbalanced.room_of_owner (Multiset.mem_cons_self _ _)
    have hid'' : id < (ready.noteReturn id lease.owner).pools.length := by
      rwa [World.length_noteReturn]
    rw [if_neg (not_not.2 howner), if_pos hroom, World.pool_modifyPool_self hid'',
      World.pool_noteReturn, World.clock_noteReturn]
    nth_rewrite 1 [howner]
    exact hbalanced.takesBack_giveBack _
  · have hid'' : id < (ready.noteReturn id lease.owner).pools.length := by
      rwa [World.length_noteReturn]
    rw [if_pos howner, World.pool_turnAway hid'', World.pool_noteReturn]
    exact hbalanced.takesBack_reclaim howner _

namespace System

variable {system next : System}

theorem handOf_of_mem {tasks : List Task} {task : Task} (h : task ∈ tasks) :
    ∃ others, handOf tasks = task.holdings + others := by
  obtain ⟨place, hplace⟩ := List.mem_iff_getElem?.1 h
  exact ⟨_, handOf_eraseIdx hplace⟩

/-- A lease that a caller gives back, or one that a unit of work ends with, is in hand when its pool
takes it back. -/
theorem takesBack_release_of_held (h : system.Reachable) (hid : id < system.world.pools.length)
    (hheld : lease ∈ system.world.held) :
    let parted := system.world.part lease
    ((parted.checkOwner id).pool id).TakesBack lease.owner
      (.idle ⟨lease.resource, lease.createdAt, (parted.checkOwner id).clock⟩)
      ((parted.release id lease).pool id) := by
  have move : Move id system.scene
      ⟨system.world.part lease, .handed lease.owner lease.resource ::ₘ handOf system.tasks⟩ :=
    .part hheld
  have fits := move.fits (reachable_fits h)
  have accounted := move.accounted (reachable_fits h) (reachable_accounted h)
  exact accounted.takesBack_release fits hid

theorem takesBack_release_of_working (h : system.Reachable)
    (hid : id < system.world.pools.length) {policy : RetryPolicy} {retries : UInt32}
    (htask : .working id lease policy retries ∈ system.tasks) :
    ((system.world.checkOwner id).pool id).TakesBack lease.owner
      (.idle ⟨lease.resource, lease.createdAt, (system.world.checkOwner id).clock⟩)
      ((system.world.release id lease).pool id) := by
  obtain ⟨others, hhand⟩ := handOf_of_mem htask
  have move : Move id system.scene
      ⟨system.world, .handed lease.owner lease.resource ::ₘ others⟩ := by
    rw [scene, hhand, Task.holdings, Multiset.singleton_add]
    exact .handIn
  have fits := move.fits (reachable_fits h)
  have accounted := move.accounted (reachable_fits h) (reachable_accounted h)
  exact accounted.takesBack_release fits hid

/-- The slot of a task is counted when it comes back. -/
theorem balanced_of_task {task : Task} {owner : Owner} {holding : Holding} (h : system.Reachable)
    (hid : id < system.world.pools.length) (htask : task ∈ system.tasks)
    (hholdings : holding ∈ task.holdings) (hunit : holding.unit? = some owner) :
    (system.world.pool id).Balanced (owner ::ₘ system.world.unreturned.erase owner) :=
  (reachable_accounted h).balanced_cons hid
    (Scene.mem_units (mem_handOf.2 ⟨task, htask, hholdings⟩) hunit)

theorem takesBack_notCreated {owner : Owner} {purpose : Purpose} (h : system.Reachable)
    (hid : id < system.world.pools.length) (htask : .creating id owner purpose ∈ system.tasks)
    (failure : Failure) :
    (system.world.pool id).TakesBack owner .vacant
      ((system.world.notCreated id owner failure).1.pool id) := by
  have hbalanced := balanced_of_task h hid htask (Multiset.mem_singleton_self _) rfl
  have hcounted : (system.world.pool id).countFailure.Balanced
      (owner ::ₘ system.world.unreturned.erase owner) :=
    hbalanced.congr rfl rfl rfl rfl rfl rfl
  have htakes := hcounted.takesBack_restoreVacant
  rw [World.pool_notCreated hid]
  exact ⟨htakes.current, htakes.stale, htakes.other⟩

theorem takesBack_discarded {owner : Owner} {resource : ResourceId} {sequel : Sequel}
    (h : system.Reachable) (hid : id < system.world.pools.length)
    (htask : .discarding id owner resource sequel ∈ system.tasks) (failure : Option Failure) :
    (system.world.pool id).TakesBack owner .vacant
      ((system.world.vacate id owner resource failure).pool id) := by
  have hbalanced := balanced_of_task h hid htask (Multiset.mem_singleton_self _) rfl
  rw [World.pool_vacate hid]
  exact hbalanced.takesBack_restoreVacant

/-- A lease that is dropped stays unreturned. -/
theorem unreturned_drop (hstep : system.step? (.drop lease) = some next) :
    next.world.unreturned = system.world.unreturned := by
  simp only [System.step?, Option.ite_none_right_eq_some] at hstep
  obtain ⟨-, ⟨⟩⟩ := hstep
  exact World.unreturned_letGo

/-- A lease that is released to another pool stays unreturned. -/
theorem unreturned_release_foreign (hforeign : lease.owner.pool ≠ id)
    (hstep : system.step? (.call id (.release lease)) = some next) :
    next.world.unreturned = system.world.unreturned := by
  rw [world_of_call hstep, World.begin, World.unreturned_release, if_neg hforeign]
  rfl

/-- A lease that is discarded elsewhere than in its pool and its process stays unreturned. -/
theorem unreturned_discard_foreign
    (hforeign : lease.owner.pool ≠ id ∨ lease.owner.pid ≠ system.world.currentPid id)
    (hstep : system.step? (.call id (.discard lease)) = some next) :
    next.world.unreturned = system.world.unreturned := by
  rw [world_of_call hstep, World.begin, World.discard]
  by_cases hpid : lease.owner.pid ≠ (system.world.part lease).currentPid id
  · rw [if_pos hpid]
    rfl
  · have hpool : lease.owner.pool ≠ id := hforeign.resolve_right hpid
    rw [if_neg hpid, if_pos hpool]
    exact World.unreturned_letGo

/-- Exact accounting of leases. All leases that callers and tasks have are unreturned; the counts of
a pool are those of its unreturned leases; whatever gives a slot back finds it counted and finds
room; and a lease that is lost to its pool stays unreturned. -/
theorem leases_accounted (h : system.Reachable) (hid : id < system.world.pools.length) :
    let world := system.world
    let pool := world.pool id
    system.scene.units ≤ world.unreturned ∧
    pool.leased = world.unreturned.count pool.owner ∧
    pool.staleLeased = world.unreturned.countP (fun owner => owner.pool = id ∧
      pool.reclaimFloor ≤ owner.epoch ∧ owner.epoch < pool.owner.epoch) ∧
    (∀ lease ∈ world.held, let parted := world.part lease
      ((parted.checkOwner id).pool id).TakesBack lease.owner
        (.idle ⟨lease.resource, lease.createdAt, (parted.checkOwner id).clock⟩)
        ((parted.release id lease).pool id)) ∧
    (∀ lease policy retries, .working id lease policy retries ∈ system.tasks →
      ((world.checkOwner id).pool id).TakesBack lease.owner
        (.idle ⟨lease.resource, lease.createdAt, (world.checkOwner id).clock⟩)
        ((world.release id lease).pool id)) ∧
    (∀ lease, (world.release id lease).unreturned =
      if lease.owner.pool = id then world.unreturned.erase lease.owner else world.unreturned) ∧
    (∀ owner purpose failure, .creating id owner purpose ∈ system.tasks →
      pool.TakesBack owner .vacant ((world.notCreated id owner failure).1.pool id)) ∧
    (∀ owner resource sequel failure, .discarding id owner resource sequel ∈ system.tasks →
      let vacated := world.vacate id owner resource failure
      world.discarded id owner resource sequel failure = vacated.afterDiscard id sequel ∧
        pool.TakesBack owner .vacant (vacated.pool id)) ∧
    (∀ lease next, system.step? (.drop lease) = some next →
      next.world.unreturned = world.unreturned) ∧
    (∀ lease next, lease.owner.pool ≠ id → system.step? (.call id (.release lease)) = some next →
      next.world.unreturned = world.unreturned) ∧
    (∀ lease next, lease.owner.pool ≠ id ∨ lease.owner.pid ≠ world.currentPid id →
      system.step? (.call id (.discard lease)) = some next →
      next.world.unreturned = world.unreturned) := by
  have accounted := reachable_accounted h
  have hbalanced : (system.world.pool id).Balanced system.world.unreturned :=
    accounted.pools.pool hid
  have hplace : (system.world.pool id).owner.pool = id :=
    ((reachable_fits h).pools.pool hid).pool_eq
  refine ⟨accounted.backed, hbalanced.leased_eq, ?_, ?_, ?_, ?_, ?_, ?_, ?_, ?_, ?_⟩
  · rw [hbalanced.stale_eq]
    refine Multiset.countP_congr rfl fun owner _ => ?_
    rw [Pool.HoldsSlot, hplace]
  · exact fun lease => takesBack_release_of_held h hid
  · exact fun lease policy retries => takesBack_release_of_working h hid
  · exact fun lease => World.unreturned_release
  · exact fun owner purpose failure htask => takesBack_notCreated h hid htask failure
  · exact fun owner resource sequel failure htask =>
      ⟨World.discarded_eq owner resource sequel failure, takesBack_discarded h hid htask failure⟩
  · exact fun lease next => unreturned_drop
  · exact fun lease next => unreturned_release_foreign
  · exact fun lease next => unreturned_discard_foreign

/-- A lease that is lent when its pool is invalidated is counted as one of an earlier owner. -/
theorem leases_accounted_invalidated : ∃ system,
    (init [7] [(0, Config.ofSize 2)]).run?
        [.call 0 (.acquire none), .reply 0 (.created "db"), .call 0 .invalidate] = some system ∧
      (system.world.pool 0).staleLeased = system.world.unreturned.countP fun owner =>
        owner.pool = 0 ∧ (system.world.pool 0).reclaimFloor ≤ owner.epoch ∧
          owner.epoch < (system.world.pool 0).owner.epoch := by
  refine exists_run? rfl fun system hrun => ?_
  have hid : 0 < system.world.pools.length := by
    cases hrun
    decide
  exact (leases_accounted ⟨_, _, _, hrun⟩ hid).2.2.1

end System
end LeasePool
