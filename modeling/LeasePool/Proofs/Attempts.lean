import LeasePool.Proofs.Stocks
import LeasePool.Proofs.Vetting

/-!
Attempts. A unit of work is tried on one lease after the other, as long as each attempt ends with a
failure that discards its resource and the policy allows a retry. The acquisition for an attempt
goes on from task to task and comes to a call of the work in a bounded number of turns, or it fails,
and then the failure is counted by the pool.
-/

namespace LeasePool

/-- How one attempt at a unit of work ended. -/
inductive Attempt where
  /-- No resource could be acquired for it. -/
  | unserved (failure : Failure)
  /-- The work was called with a lease, after `retries` retries, and it was done. -/
  | worked (lease : Lease) (retries : UInt32) (value : Json)
  | broke (lease : Lease) (retries : UInt32) (failure : Failure)

namespace Attempt

def outcome : Attempt → Outcome
  | .unserved failure | .broke _ _ failure => .failed failure
  | .worked _ _ value => .worked value

def call? : Attempt → Option (Lease × UInt32)
  | .unserved _ => none
  | .worked lease retries _ | .broke lease retries _ => some (lease, retries)

end Attempt

/-- Each of the attempts calls for another one: it ended with a failure that discards its resource,
and there were fewer retries before it than the policy allows. -/
inductive RetryPolicy.Requests (policy : RetryPolicy) : List Attempt → Prop where
  | start : policy.Requests []
  | again {attempts lease retries failure} (before : policy.Requests attempts)
      (hdiscard : policy.shouldDiscard failure = true)
      (hmore : attempts.length < policy.maxRetries.toNat) :
      policy.Requests (attempts ++ [.broke lease retries failure])

/-- What the acquisition is for that a task belongs to. -/
def Task.purpose? : Task → Option Purpose
  | .waiting _ _ _ purpose | .validating _ _ _ purpose | .replacing _ _ _ purpose
  | .creating _ _ purpose => some purpose
  | .working _ _ policy retries | .pausing _ _ policy retries => some (.attempt policy retries)
  | .discarding .. | .disconnecting .. | .sweeping .. => none

/-- Where a unit of work stands after some attempts. -/
inductive RetryPolicy.Stands (policy : RetryPolicy) (id : PoolId) :
    List Attempt → Progress → Prop where
  /-- All attempts so far called for another one, and it is under way. -/
  | trying {attempts task retries} (before : policy.Requests attempts)
      (hcount : retries.toNat = attempts.length)
      (hmax : attempts.length ≤ policy.maxRetries.toNat)
      (hpurpose : task.purpose? = some (.attempt policy retries)) :
      policy.Stands id attempts (.pending task)
  /-- The resource of the last attempt is closed. -/
  | discarding {earlier lease retries failure} (before : policy.Requests earlier)
      (hcount : retries.toNat = earlier.length)
      (hmax : earlier.length ≤ policy.maxRetries.toNat)
      (hdiscard : policy.shouldDiscard failure = true) :
      policy.Stands id (earlier ++ [.broke lease retries failure])
        (.pending (.discarding id lease.owner lease.resource (.retry policy retries failure)))
  /-- The last attempt called for no other one. -/
  | ended {earlier last} (before : policy.Requests earlier)
      (hmax : earlier.length ≤ policy.maxRetries.toNat)
      (hlast : ¬ policy.Requests (earlier ++ [last])) :
      policy.Stands id (earlier ++ [last]) (.done last.outcome)

namespace RetryPolicy.Requests

variable {policy : RetryPolicy} {attempts : List Attempt} {attempt : Attempt}

theorem of_concat (h : policy.Requests (attempts ++ [attempt])) :
    policy.Requests attempts ∧ attempts.length < policy.maxRetries.toNat ∧
      ∃ lease retries failure, attempt = .broke lease retries failure ∧
        policy.shouldDiscard failure = true := by
  generalize heq : attempts ++ [attempt] = all at h
  cases h with
  | start => exact absurd heq (by simp)
  | again before hdiscard hmore =>
      obtain ⟨rfl, hlast⟩ := List.append_inj' heq rfl
      obtain rfl := List.singleton_inj.1 hlast
      exact ⟨before, hmore, _, _, _, rfl, hdiscard⟩

/-- Each attempt that calls for another one called the work. -/
theorem length_calls (h : policy.Requests attempts) :
    (attempts.filterMap Attempt.call?).length = attempts.length := by
  induction h with
  | start => rfl
  | again _ _ _ ih =>
      rw [List.filterMap_append, List.length_append, ih, List.length_append]
      rfl

end RetryPolicy.Requests

def Pool.refusals (pool : Pool) : Nat := pool.timeouts + pool.creationFailures

/-- The pool still has its configuration, and no acquisition failed. -/
structure Pool.Unrefused (before after : Pool) : Prop where
  config_eq : after.config = before.config
  refusals_eq : after.refusals = before.refusals

/-- A failed acquisition fails with what the factory said, or since it had to wait too long. -/
def Pool.Refuses (pool : Pool) (event : Event) (failure : Failure) : Prop :=
  (∃ place, event = .reply place (.notCreated failure)) ∨
    failure = .poolExhausted pool.maxSize pool.acquireTimeout

theorem Pool.Unrefused.trans {pool middle after : Pool} (first : pool.Unrefused middle)
    (second : middle.Unrefused after) : pool.Unrefused after :=
  ⟨second.config_eq.trans first.config_eq, second.refusals_eq.trans first.refusals_eq⟩

theorem Pool.Unrefused.restoreVacant {pool : Pool} (owner : Owner) :
    pool.Unrefused (pool.restoreVacant owner) := by
  obtain ⟨free, leased, stale, heq⟩ := pool.restoreVacant_eq owner
  rw [heq]
  exact ⟨rfl, rfl⟩

/-- How many turns an operation has yet to take for one attempt, at most. -/
def Task.rank : Task → Nat
  | .discarding .. => 8
  | .pausing .. => 7
  | .waiting .. => 6
  | .validating .. => 5
  | .replacing .. => 4
  | .creating .. => 3
  | .working .. => 2
  | .disconnecting .. | .sweeping .. => 0

def Progress.rank : Progress → Nat
  | .done _ => 7
  | .pending task => task.rank

def Task.patience? : Task → Option Patience
  | .waiting _ patience _ _ => some patience
  | _ => none

/-- The acquisition for an attempt goes on, with a task of a rank of at most `bound`, or it
fails. -/
inductive Engages (id : PoolId) (policy : RetryPolicy) (retries : UInt32) (pool : Pool)
    (event : Event) (bound : Nat) (result : World × Progress) : Prop where
  | trying (task : Task) (hprogress : result.2 = .pending task)
      (hpurpose : task.purpose? = some (.attempt policy retries))
      (hpatience : ∀ patience ∈ task.patience?, patience = .within pool.acquireTimeout)
      (hrank : task.rank ≤ bound) (unrefused : pool.Unrefused (result.1.pool id))
  | refused (failure : Failure) (hprogress : result.2 = .done (.failed failure))
      (hfailure : pool.Refuses event failure)
      (hrefusals : (result.1.pool id).refusals = pool.refusals + 1)

theorem Engages.of_unrefused {id : PoolId} {policy : RetryPolicy} {retries : UInt32}
    {pool middle : Pool} {event : Event} {bound : Nat} {result : World × Progress}
    (h : Engages id policy retries middle event bound result) (before : pool.Unrefused middle) :
    Engages id policy retries pool event bound result := by
  have htimeout : middle.acquireTimeout = pool.acquireTimeout := by
    rw [Pool.acquireTimeout, before.config_eq, Pool.acquireTimeout]
  have hsize : middle.maxSize = pool.maxSize := by
    rw [Pool.maxSize, before.config_eq, Pool.maxSize]
  cases h with
  | trying task hprogress hpurpose hpatience hrank unrefused =>
      rw [htimeout] at hpatience
      exact .trying task hprogress hpurpose hpatience hrank (before.trans unrefused)
  | refused failure hprogress hfailure hrefusals =>
      rw [Pool.Refuses, hsize, htimeout] at hfailure
      rw [before.refusals_eq] at hrefusals
      exact .refused failure hprogress hfailure hrefusals

theorem Engages.mono {id : PoolId} {policy : RetryPolicy} {retries : UInt32} {pool : Pool}
    {event : Event} {bound more : Nat} {result : World × Progress}
    (h : Engages id policy retries pool event bound result) (hle : bound ≤ more) :
    Engages id policy retries pool event more result := by
  cases h with
  | trying task hprogress hpurpose hpatience hrank unrefused =>
      exact .trying task hprogress hpurpose hpatience (hrank.trans hle) unrefused
  | refused failure hprogress hfailure hrefusals =>
      exact .refused failure hprogress hfailure hrefusals

namespace World

variable {world after : World} {id : PoolId} {policy : RetryPolicy} {retries : UInt32}
  {event : Event} {owner : Owner} {entry : IdleResource} {lease : Lease} {patience : Patience}

theorem unrefused_of_pools (h : after.pools = world.pools) :
    (world.pool id).Unrefused (after.pool id) := by
  rw [pool_congr h]
  exact ⟨rfl, rfl⟩

theorem unrefused_checkOwner (hid : id < world.pools.length) :
    (world.pool id).Unrefused ((world.checkOwner id).pool id) := by
  rw [pool_checkOwner hid]
  split <;> exact ⟨rfl, rfl⟩

theorem unrefused_modifyPool {change : Pool → Pool}
    (h : ∀ pool : Pool, pool.Unrefused (change pool)) :
    (world.pool id).Unrefused ((world.modifyPool id change).pool id) :=
  ⟨view_modifyPool Pool.config fun pool => (h pool).config_eq,
    view_modifyPool Pool.refusals fun pool => (h pool).refusals_eq⟩

theorem lend_engages (lease : Lease) :
    Engages id policy retries (world.pool id) event 2
      (world.lend id lease (.attempt policy retries)) :=
  .trying _ rfl rfl nofun (Nat.le_refl 2) ⟨rfl, rfl⟩

theorem reuse_engages (entry : IdleResource) :
    Engages id policy retries (world.pool id) event 2
      (world.reuse id owner entry (.attempt policy retries)) :=
  (lend_engages _).of_unrefused (unrefused_of_pools rfl)

theorem replace_engages (resource : ResourceId) :
    Engages id policy retries (world.pool id) event 4
      (world.replace id owner resource (.attempt policy retries)) :=
  .trying _ rfl rfl nofun (Nat.le_refl 4) ⟨rfl, rfl⟩

theorem takeSlot_engages (slot : Slot) :
    Engages id policy retries (world.pool id) event 5
      (world.takeSlot id slot (.attempt policy retries)) := by
  have hafter : (world.pool id).Unrefused ((world.afterTake id).pool id) :=
    unrefused_modifyPool fun _ => ⟨rfl, rfl⟩
  cases slot with
  | vacant =>
      rw [takeSlot_vacant]
      exact .trying _ rfl rfl nofun (by decide : 3 ≤ 5) hafter
  | idle entry =>
      cases hexpired : (world.pool id).isExpired world.clock entry with
      | true =>
          rw [takeSlot_expired hexpired]
          exact ((replace_engages entry.resource).of_unrefused hafter).mono (by decide)
      | false =>
          rw [takeSlot_fresh hexpired]
          split
          · exact .trying _ rfl rfl nofun (Nat.le_refl 5) hafter
          · exact ((reuse_engages entry).of_unrefused hafter).mono (by decide)

/-- An acquisition for an attempt gets on, or it waits for a slot. -/
theorem awaitSlot_engages (hid : id < world.pools.length) (since : Instant)
    (hpatience : patience = .within (world.pool id).acquireTimeout) :
    Engages id policy retries (world.pool id) event 5
        (world.awaitSlot id patience since (.attempt policy retries)) ∨
      world.awaitSlot id patience since (.attempt policy retries) =
        (world, .pending (.waiting id patience since (.attempt policy retries))) := by
  cases hfree : (world.pool id).free with
  | cons slot rest =>
      rw [awaitSlot_of_free hfree]
      exact .inl (takeSlot_engages slot)
  | nil =>
      unfold awaitSlot
      rw [hfree, hpatience]
      dsimp only
      split
      · have hpool : ((world.exhaust id (world.pool id).acquireTimeout).1.pool id) =
            (world.pool id).giveUp := pool_modifyPool_self hid
        refine .inl (.refused _ rfl (.inr rfl) ?_)
        rw [hpool]
        exact Nat.add_right_comm _ _ _
      · exact .inr rfl

/-- An acquisition for an attempt that waits for a slot. -/
theorem waiting_engages (since : Instant)
    (hpatience : patience = .within (world.pool id).acquireTimeout) :
    Engages id policy retries (world.pool id) event 6
      (world, .pending (.waiting id patience since (.attempt policy retries))) := by
  refine .trying _ rfl rfl ?_ (Nat.le_refl 6) ⟨rfl, rfl⟩
  rintro _ ⟨⟩
  exact hpatience

theorem acquire_engages (hid : id < world.pools.length) :
    Engages id policy retries (world.pool id) event 6
      (world.acquire id (world.usualPatience id) (.attempt policy retries)) := by
  have hid' : id < ((world.checkOwner id).modifyPool id Pool.enqueue).pools.length := by
    rwa [length_modifyPool, length_checkOwner]
  have hready : (world.pool id).Unrefused
      (((world.checkOwner id).modifyPool id Pool.enqueue).pool id) :=
    (unrefused_checkOwner hid).trans (unrefused_modifyPool fun _ => ⟨rfl, rfl⟩)
  have hpatience : world.usualPatience id = .within
      (((world.checkOwner id).modifyPool id Pool.enqueue).pool id).acquireTimeout := by
    rw [usualPatience, Pool.acquireTimeout, Pool.acquireTimeout, hready.config_eq]
  rw [acquire]
  rcases awaitSlot_engages hid' _ hpatience with hengages | hwaits
  · exact (hengages.of_unrefused hready).mono (by decide)
  · rw [hwaits]
    exact (waiting_engages _ hpatience).of_unrefused hready

/-- After a discard the last attempt decides the call, or another attempt follows. -/
theorem afterDiscard_engages (hid : id < world.pools.length) (failure : Failure) :
    (policy.maxRetries ≤ retries ∧ world.afterDiscard id (.retry policy retries failure) =
        (world, .done (.failed failure))) ∨
      (retries < policy.maxRetries ∧ Engages id policy (retries + 1) (world.pool id) event 7
        (world.afterDiscard id (.retry policy retries failure))) := by
  unfold afterDiscard
  dsimp only
  split
  · next hlast => exact .inl ⟨hlast, rfl⟩
  · next hmore =>
    refine .inr ⟨UInt32.not_le.1 hmore, ?_⟩
    split
    · have hid' : id < (world.note (.retrying (retries.toNat + 1) policy.maxRetries.toNat
          (policy.backoff.delay retries).toNat failure)).pools.length := hid
      exact ((acquire_engages hid').of_unrefused (unrefused_of_pools rfl)).mono (by decide)
    · exact .trying _ rfl rfl nofun (Nat.le_refl 7) ⟨rfl, rfl⟩

theorem unrefused_release (hid : id < world.pools.length) :
    (world.pool id).Unrefused ((world.release id lease).pool id) := by
  obtain ⟨free, leased, stale, hpool⟩ := @pool_release_eq world id lease hid
  refine (unrefused_checkOwner hid).trans ?_
  rw [hpool]
  exact ⟨rfl, rfl⟩

theorem unrefused_created (hid : id < world.pools.length) (kind : String) :
    (world.pool id).Unrefused
      ((world.created id owner (.attempt policy retries) kind).1.pool id) := by
  obtain ⟨alive, hpool⟩ := pool_created owner (.attempt policy retries) kind hid
  rw [hpool, Pool.enroll]
  split <;> exact ⟨rfl, rfl⟩

theorem refusals_notCreated (hid : id < world.pools.length) (failure : Failure) :
    ((world.notCreated id owner failure).1.pool id).refusals = (world.pool id).refusals + 1 := by
  rw [pool_notCreated hid, (Pool.Unrefused.restoreVacant owner).refusals_eq]
  rfl

/-- An acquisition for an attempt goes on with an answer to its question. -/
theorem resume_engages {task : Task} {reply : Reply} {result : World × Progress} {place : Nat}
    (hid : task.pool < world.pools.length)
    (hpurpose : task.purpose? = some (.attempt policy retries)) (hlease : task.lease? = none)
    (h : world.resume task reply = some result) :
    Engages task.pool policy retries (world.pool task.pool) (.reply place reply) (task.rank - 1)
      result := by
  unfold World.resume at h
  split at h <;> cases h <;> try cases hpurpose
  · unfold World.validated
    split
    · exact (reuse_engages _).mono (by decide : 2 ≤ 4)
    · exact replace_engages _
  · exact .trying _ rfl rfl nofun (Nat.le_refl 3)
      (unrefused_of_pools (letGo_pools.trans noteClose_pools))
  · exact .trying _ rfl rfl nofun (Nat.le_refl 2) (unrefused_created hid _)
  · exact .refused _ rfl (.inl ⟨_, rfl⟩) (refusals_notCreated hid _)
  · cases hlease
  · cases hlease

theorem broke_of_discards {failure : Failure} (h : policy.shouldDiscard failure = true) :
    world.broke id lease policy retries failure =
      world.discard id lease (.retry policy retries failure) := if_pos h

theorem broke_of_keeps {failure : Failure} (h : ¬ policy.shouldDiscard failure = true) :
    world.broke id lease policy retries failure =
      (world.release id lease, .done (.failed failure)) := if_neg h

/-- A discard waits until its resource is closed, or it goes on at once. -/
theorem discard_cases (world : World) (id : PoolId) (lease : Lease) (sequel : Sequel) :
    (∃ notice, world.discard id lease sequel =
        (world.note notice, .pending (.discarding id lease.owner lease.resource sequel))) ∨
      ∃ after : World, after.pools = world.pools ∧
        world.discard id lease sequel = after.afterDiscard id sequel := by
  unfold discard
  split
  · exact .inr ⟨world.forget lease.resource, rfl, rfl⟩
  · split
    · exact .inr ⟨(world.note (.foreignDiscarded id lease.owner.pool)).letGo lease.resource,
        letGo_pools, rfl⟩
    · exact .inl ⟨_, rfl⟩

end World

end LeasePool
