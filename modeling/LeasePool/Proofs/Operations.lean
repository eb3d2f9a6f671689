import LeasePool.Proofs.Moves

/-!
Operations as moves: acquisitions, returns, teardowns and sweeps, one lemma for each operation. The
lemma says which moves lead from what the operation has in hand to what its result leaves in hand.
-/

namespace LeasePool

/-- What a task has in hand while it waits. -/
def Task.holdings : Task → Multiset Holding
  | .waiting id _ _ _ => {.turn id}
  | .validating id owner entry _ => {.lease id owner entry.resource}
  | .replacing id owner resource _ => {.lease id owner resource}
  | .creating id owner _ => {.slot id owner}
  | .working id lease _ _ => {.lease id lease.owner lease.resource}
  | .discarding id owner resource _ => {.lease id owner resource}
  | .pausing id _ _ _ => {.pause id}
  | .disconnecting id resource rest free _ =>
      .grip id resource ::ₘ (↑(rest.map (Holding.listed id)) + ↑(free.map (Holding.loose id)))
  | .sweeping id resource rest taken =>
      ↑(taken.map (Holding.loose id)) + ↑((resource :: rest).map (Holding.mention id))

def Progress.holdings : Progress → Multiset Holding
  | .done _ => 0
  | .pending task => task.holdings

/-- The scene after a call came to a result, with what others have in hand. -/
def sceneOf (result : World × Progress) (hand : Multiset Holding) : Scene :=
  ⟨result.1, result.2.holdings + hand⟩

@[simp] theorem sceneOf_done {world : World} {outcome : Outcome} {hand : Multiset Holding} :
    sceneOf (world, .done outcome) hand = ⟨world, hand⟩ := by
  simp [sceneOf, Progress.holdings]

@[simp] theorem sceneOf_pending {world : World} {task : Task} {hand : Multiset Holding} :
    sceneOf (world, .pending task) hand = ⟨world, task.holdings + hand⟩ := rfl

namespace World

variable {world : World} {id : PoolId} {hand : Multiset Holding}

theorem lend_moves (lease : Lease) (purpose : Purpose) :
    Moves id ⟨world, .lease id lease.owner lease.resource ::ₘ hand⟩
      (sceneOf (world.lend id lease purpose) hand) := by
  cases purpose with
  | lend =>
      rw [World.lend, sceneOf_done]
      exact .head (.lend lease) (.single (.keep lease))
  | attempt policy retries =>
      rw [World.lend, sceneOf_pending, Task.holdings, Multiset.singleton_add]
      exact .single (.lend lease)

theorem reuse_moves (owner : Owner) (entry : IdleResource) (purpose : Purpose) :
    Moves id ⟨world, .lease id owner entry.resource ::ₘ hand⟩
      (sceneOf (world.reuse id owner entry purpose) hand) :=
  .head (.tell _) (lend_moves ⟨entry.resource, owner, entry.createdAt⟩ purpose)

theorem replace_moves (owner : Owner) (resource : ResourceId) (purpose : Purpose) :
    Moves id ⟨world, .lease id owner resource ::ₘ hand⟩
      (sceneOf (world.replace id owner resource purpose) hand) := by
  rw [World.replace, sceneOf_pending, Task.holdings, Multiset.singleton_add]
  exact .single (.tell _)

theorem lt_of_free_eq_cons {slot : Slot} {rest : List Slot}
    (hfree : (world.pool id).free = slot :: rest) : id < world.pools.length := by
  by_contra hle
  have hdefault : world.pool id = default := by
    simp [pool, List.getD_eq_getElem?_getD, List.getElem?_eq_none (Nat.le_of_not_lt hle)]
  rw [hdefault] at hfree
  exact absurd hfree (List.cons_ne_nil slot rest).symm

theorem takeSlot_moves {slot : Slot} {rest : List Slot}
    (hfree : (world.pool id).free = slot :: rest) (purpose : Purpose) :
    Moves id ⟨world, .turn id ::ₘ hand⟩ (sceneOf (world.takeSlot id slot purpose) hand) := by
  have howner : ((world.modifyPool id Pool.take).pool id).owner = (world.pool id).owner := by
    rw [pool_modifyPool_self (lt_of_free_eq_cons hfree), Pool.take]
  refine .head (.take hfree) ?_
  simp only [World.takeSlot, howner]
  cases slot with
  | vacant =>
      simp only [sceneOf_pending, Task.holdings, Multiset.singleton_add]
      exact .refl
  | idle entry =>
      dsimp only
      split
      · exact replace_moves _ _ purpose
      · split
        · simp only [sceneOf_pending, Task.holdings, Multiset.singleton_add]
          exact .refl
        · exact reuse_moves _ entry purpose

theorem exhaust_moves (hfree : (world.pool id).free = []) (timeout : Duration) :
    Moves id ⟨world, .turn id ::ₘ hand⟩ (sceneOf (world.exhaust id timeout) hand) := by
  rw [World.exhaust, sceneOf_done]
  exact .head (.giveUp hfree) (.single (.tell _))

theorem awaitSlot_moves (patience : Patience) (since : Instant) (purpose : Purpose) :
    Moves id ⟨world, .turn id ::ₘ hand⟩
      (sceneOf (world.awaitSlot id patience since purpose) hand) := by
  unfold World.awaitSlot
  split
  · next hfree => exact takeSlot_moves hfree purpose
  · next hfree =>
    split
    · exact exhaust_moves hfree _
    · exact .refl
  · exact .refl

theorem acquire_moves (hid : id < world.pools.length) (patience : Patience) (purpose : Purpose) :
    Moves id ⟨world, hand⟩ (sceneOf (world.acquire id patience purpose) hand) := by
  have hid' : id < (world.checkOwner id).pools.length := by rwa [length_checkOwner]
  exact .head (.refresh hid)
    (.head (.enqueue hid' (checkOwner_notedPid hid)) (awaitSlot_moves _ _ purpose))

theorem noteClose_moves (resource : ResourceId) (failure : Option Failure) :
    Moves id ⟨world, hand⟩ ⟨world.noteClose resource failure, hand⟩ := by
  cases failure with
  | none => exact .refl
  | some failure => exact .single (.tell _)

@[simp] theorem noteClose_pools {resource : ResourceId} {failure : Option Failure} :
    (world.noteClose resource failure).pools = world.pools := by
  cases failure <;> rfl

theorem noteClose_resources {resource : ResourceId} {failure : Option Failure} :
    (world.noteClose resource failure).resources = world.resources := by
  cases failure <;> rfl

theorem validated_moves (owner : Owner) (entry : IdleResource) (purpose : Purpose)
    (isValid : Bool) :
    Moves id ⟨world, .lease id owner entry.resource ::ₘ hand⟩
      (sceneOf (world.validated id owner entry purpose isValid) hand) := by
  unfold World.validated
  split
  · exact reuse_moves owner entry purpose
  · exact replace_moves owner entry.resource purpose

theorem replaced_moves (owner : Owner) (resource : ResourceId) (purpose : Purpose)
    (failure : Option Failure) :
    Moves id ⟨world, .lease id owner resource ::ₘ hand⟩
      (sceneOf (world.replaced id owner resource purpose failure) hand) := by
  refine .trans (noteClose_moves resource failure) ?_
  refine .head .detach ?_
  rw [Multiset.cons_swap, World.replaced, sceneOf_pending, Task.holdings,
    Multiset.singleton_add]
  exact .single .letGo

theorem created_moves (owner : Owner) (purpose : Purpose) (kind : String) :
    Moves id ⟨world, .slot id owner ::ₘ hand⟩
      (sceneOf (world.created id owner purpose kind) hand) := by
  unfold World.created
  exact .head (.make owner kind)
    (.head (.tell _) (lend_moves ⟨world.resources.length, owner, world.clock⟩ purpose))

theorem notCreated_moves (owner : Owner) (failure : Failure) :
    Moves id ⟨world, .slot id owner ::ₘ hand⟩
      (sceneOf (world.notCreated id owner failure) hand) := by
  rw [World.notCreated, sceneOf_done]
  exact .head .countFailure (.head (.tell _) (.single .restore))

/-- A lease that this pool issued in this process comes back: it is judged, its slot goes back and
its resource is let go. -/
theorem returned_moves {owner : Owner} {resource : ResourceId} (hpool : owner.pool = id)
    (hpid : owner.pid = world.currentPid id) (notice : Notice) :
    Moves id ⟨world, .handed owner resource ::ₘ hand⟩
      ⟨((world.restoreVacant id owner).note notice).letGo resource, hand⟩ :=
  .head (.accept hpool hpid)
    (.head .detach (.head .restore (.head (.tell notice) (.single .letGo))))

theorem turnAway_of_pid_eq (world : World) (id : PoolId) {lease : Lease}
    (hpid : lease.owner.pid = (world.pool id).owner.pid) : ∃ notice, world.turnAway id lease =
      ((world.modifyPool id fun pool => pool.reclaim lease.owner).note notice).letGo
        lease.resource := by
  refine ⟨if lease.owner.pool = id then .staleReleased lease.owner.pid lease.owner.epoch
    else .foreignReleased id lease.owner.pool, ?_⟩
  simp [World.turnAway, hpid]

theorem turnAway_of_pid_ne (world : World) (id : PoolId) {lease : Lease}
    (hpid : lease.owner.pid ≠ (world.pool id).owner.pid) : ∃ notice, world.turnAway id lease =
      (world.note notice).forget lease.resource := by
  refine ⟨if lease.owner.pool = id then .staleReleased lease.owner.pid lease.owner.epoch
    else .foreignReleased id lease.owner.pool, ?_⟩
  simp [World.turnAway, hpid]

/-- A lease that a pool has no use for: the pool and the process that issued it each are those it
comes back to, or not. -/
theorem turnAway_moves {lease : Lease} (hpool : (world.pool id).owner.pool = id)
    (hpid : (world.pool id).owner.pid = world.currentPid id)
    (hstale : lease.owner ≠ (world.pool id).owner) :
    Moves id ⟨world, .handed lease.owner lease.resource ::ₘ hand⟩
      ⟨(world.noteReturn id lease.owner).turnAway id lease, hand⟩ := by
  by_cases hown : lease.owner.pool = id
  · rw [World.noteReturn, if_pos hown]
    by_cases hsame : lease.owner.pid = (world.pool id).owner.pid
    · obtain ⟨notice, haway⟩ := turnAway_of_pid_eq
        (world.emit (.slotReturned lease.owner)) id hsame
      have hrestore : world.restoreVacant id lease.owner =
          (world.emit (.slotReturned lease.owner)).modifyPool id
            fun pool => pool.reclaim lease.owner := by
        apply modifyPool_congr
        exact if_neg hstale.symm
      rw [haway, ← hrestore]
      exact returned_moves hown (hsame.trans hpid) notice
    · obtain ⟨notice, haway⟩ := turnAway_of_pid_ne
        (world.emit (.slotReturned lease.owner)) id hsame
      have hother : lease.owner.pid ≠ world.currentPid id := hpid ▸ hsame
      rw [haway]
      exact .head (.refuse hown hpid hother) (.single (.tell notice))
  · rw [World.noteReturn, if_neg hown]
    by_cases hsame : lease.owner.pid = (world.pool id).owner.pid
    · obtain ⟨notice, haway⟩ := turnAway_of_pid_eq world id hsame
      have hnone : (world.modifyPool id fun pool => pool.reclaim lease.owner) = world := by
        refine modifyPool_eq_self (Pool.reclaim_of_not_holdsSlot ?_)
        exact fun hholds => hown (hholds.1.trans hpool)
      rw [haway, hnone]
      exact .head (.tell notice) (.single (.shed hown (hsame.trans hpid)))
    · obtain ⟨notice, haway⟩ := turnAway_of_pid_ne world id hsame
      have hother : lease.owner.pid ≠ world.currentPid id := hpid ▸ hsame
      rw [haway]
      exact .head (.tell notice) (.single (.disown hother))

theorem release_moves (hosts : world.Hosts id) (lease : Lease) :
    Moves id ⟨world, .handed lease.owner lease.resource ::ₘ hand⟩
      ⟨world.release id lease, hand⟩ := by
  refine .head (.refresh hosts.lt) ?_
  have hosts' := hosts.checkOwner
  have hnow := hosts.owner_pid_checkOwner
  rw [World.release]
  generalize world.checkOwner id = world at hosts' hnow
  dsimp only
  split
  · next hstale => exact turnAway_moves hosts'.pool_eq hnow hstale
  · next howner =>
    have howner : lease.owner = (world.pool id).owner := not_not.1 howner
    have hpool : lease.owner.pool = id := howner ▸ hosts'.pool_eq
    rw [World.noteReturn, if_pos hpool]
    split
    · next hroom =>
      exact .single (.shelve ⟨lease.resource, lease.createdAt, world.clock⟩ howner.symm hpool hroom)
    · next hfull =>
      have hrestore : world.restoreVacant id lease.owner =
          (world.emit (.slotReturned lease.owner)).modifyPool id
            fun pool => { pool with leased := pool.leased - 1 } := by
        apply modifyPool_congr
        exact (if_pos howner.symm).trans (if_neg hfull)
      rw [← hrestore]
      exact returned_moves hpool (howner ▸ hnow) _

theorem afterDiscard_moves (hid : id < world.pools.length) (sequel : Sequel) :
    Moves id ⟨world, hand⟩ (sceneOf (world.afterDiscard id sequel) hand) := by
  cases sequel with
  | finish => rw [World.afterDiscard, sceneOf_done]
  | retry policy retries failure =>
      rw [World.afterDiscard]
      by_cases hlast : policy.maxRetries ≤ retries
      · rw [if_pos hlast, sceneOf_done]
      · rw [if_neg hlast]
        dsimp only
        split
        · refine .head (.tell _) (acquire_moves ?_ _ _)
          exact hid
        · exact .head (.tell _) (.single (.pause hid))

theorem awaitAttempt_moves (hid : id < world.pools.length) (due : Instant) (policy : RetryPolicy)
    (retries : UInt32) :
    Moves id ⟨world, .pause id ::ₘ hand⟩
      (sceneOf (world.awaitAttempt id due policy retries) hand) := by
  unfold World.awaitAttempt
  split
  · exact .head .resume (acquire_moves hid _ _)
  · exact .refl

theorem discard_moves (hid : id < world.pools.length) (lease : Lease) (sequel : Sequel) :
    Moves id ⟨world, .handed lease.owner lease.resource ::ₘ hand⟩
      (sceneOf (world.discard id lease sequel) hand) := by
  unfold World.discard
  split
  · next hpid =>
    refine .head (.disown hpid) (afterDiscard_moves ?_ sequel)
    exact hid
  · next hpid =>
    have hpid : lease.owner.pid = world.currentPid id := not_not.1 hpid
    split
    · next hpool =>
      refine .head (.tell _) (.head (.shed hpool hpid) (afterDiscard_moves ?_ sequel))
      rw [letGo_pools]
      exact hid
    · next hpool =>
      exact .head (.tell _) (.single (.accept (not_not.1 hpool) hpid))

theorem discarded_moves (hid : id < world.pools.length) (owner : Owner) (resource : ResourceId)
    (sequel : Sequel) (failure : Option Failure) :
    Moves id ⟨world, .lease id owner resource ::ₘ hand⟩
      (sceneOf (world.discarded id owner resource sequel failure) hand) := by
  refine .trans (noteClose_moves resource failure) (.head .detach ?_)
  rw [Multiset.cons_swap]
  refine .head .letGo (.head .restore (afterDiscard_moves ?_ sequel))
  rw [restoreVacant, length_modifyPool, emit, letGo_pools, noteClose_pools]
  exact hid

theorem worked_moves (hosts : world.Hosts id) (lease : Lease) (value : Json) :
    Moves id ⟨world, .lease id lease.owner lease.resource ::ₘ hand⟩
      (sceneOf (world.worked id lease value) hand) := by
  rw [World.worked, sceneOf_done]
  exact .head .handIn (release_moves hosts lease)

theorem broke_moves (hosts : world.Hosts id) (lease : Lease) (policy : RetryPolicy)
    (retries : UInt32) (failure : Failure) :
    Moves id ⟨world, .lease id lease.owner lease.resource ::ₘ hand⟩
      (sceneOf (world.broke id lease policy retries failure) hand) := by
  refine .head .handIn ?_
  unfold World.broke
  split
  · exact discard_moves hosts.lt lease _
  · rw [sceneOf_done]
    exact release_moves hosts lease

theorem letGoAll_moves (resources : List ResourceId) :
    Moves id ⟨world, ↑(resources.map (Holding.loose id)) + hand⟩
      ⟨world.letGoAll resources, hand⟩ := by
  induction resources generalizing world with
  | nil =>
      rw [List.map_nil, Multiset.coe_nil, zero_add]
      exact .refl
  | cons resource rest ih =>
      rw [List.map_cons, ← Multiset.cons_coe, Multiset.cons_add]
      exact .head .letGo ih

theorem disconnectNext_moves (free : List ResourceId) (closed : Nat) (rest : List ResourceId) :
    Moves id ⟨world, ↑(rest.map (Holding.listed id)) + (↑(free.map (Holding.loose id)) + hand)⟩
      (sceneOf (world.disconnectNext id free closed rest) hand) := by
  induction rest generalizing world with
  | nil =>
      rw [World.disconnectNext, sceneOf_done, List.map_nil, Multiset.coe_nil, zero_add]
      exact .tail (letGoAll_moves free) (.tell _)
  | cons resource rest ih =>
      rw [List.map_cons, ← Multiset.cons_coe, Multiset.cons_add, World.disconnectNext]
      split
      · next halive =>
        rw [sceneOf_pending, Task.holdings, Multiset.cons_add, add_assoc]
        exact .single (.grasp halive)
      · exact .head .skip ih

theorem disconnected_moves (resource : ResourceId) (rest free : List ResourceId) (closed : Nat)
    (failure : Option Failure) :
    Moves id ⟨world, (Task.disconnecting id resource rest free closed).holdings + hand⟩
      (sceneOf (world.disconnected id resource rest free closed failure) hand) := by
  rw [Task.holdings, Multiset.cons_add, add_assoc]
  exact .trans (noteClose_moves resource failure)
    (.head .ungrasp (disconnectNext_moves free (closed + 1) rest))

theorem sweepNext_moves (taken rest : List ResourceId) :
    Moves id ⟨world, ↑(taken.map (Holding.loose id)) + (↑(rest.map (Holding.mention id)) + hand)⟩
      (sceneOf (world.sweepNext id taken rest) hand) := by
  cases rest with
  | nil =>
      rw [World.sweepNext, sceneOf_done, List.map_nil, Multiset.coe_nil, zero_add]
      split
      · exact letGoAll_moves taken
      · exact .head (.tell _) (letGoAll_moves taken)
  | cons resource rest =>
      rw [World.sweepNext, sceneOf_pending, Task.holdings, add_assoc]

theorem swept_moves (resource : ResourceId) (rest taken : List ResourceId)
    (failure : Option Failure) :
    Moves id ⟨world, (Task.sweeping id resource rest taken).holdings + hand⟩
      (sceneOf (world.swept id resource rest taken failure) hand) := by
  rw [Task.holdings, List.map_cons, ← Multiset.cons_coe, Multiset.add_cons, Multiset.cons_add,
    add_assoc]
  exact .trans (noteClose_moves resource failure) (.head .closed (sweepNext_moves taken rest))

theorem sweep_moves (hid : id < world.pools.length) (takes : Pool → IdleResource → Bool) :
    Moves id ⟨world, hand⟩ (sceneOf (world.sweep id takes) hand) := by
  have hid' : id < (world.checkOwner id).pools.length := by rwa [length_checkOwner]
  refine .head (.refresh hid) ?_
  have hvacate : ((world.checkOwner id).modifyPool id fun pool => pool.vacate (takes pool)) =
      (world.checkOwner id).modifyPool id
        fun pool => pool.vacate (takes ((world.checkOwner id).pool id)) := modifyPool_congr rfl
  rw [World.sweep, hvacate]
  exact .head (.vacate hid' _ (checkOwner_notedPid hid)) (sweepNext_moves _ _)

end World
end LeasePool
