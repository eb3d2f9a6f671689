import LeasePool.Proofs.Counters
import LeasePool.Proofs.Dialogues
import LeasePool.Proofs.Returns
import LeasePool.Proofs.Taking

/-!
Stocks. Of a pool that only lends and takes back no more matters than its free slots and three
numbers. Idle resources stay on top of vacant slots, so that a resource is made only when all that
the pool has are out.
-/

namespace LeasePool

variable {world : World} {id : PoolId}

/-- What matters of a pool that only lends: its free slots, the leases that are out, the resources
that are being made, and the number of those that were made. -/
structure Stock where
  free : List Slot
  lent : Nat
  making : Nat
  created : Nat

namespace Stock

/-- What lending and taking back do to a stock. -/
inductive Step : Stock → Stock → Prop where
  | rest (stock : Stock) : Step stock stock
  /-- The idle resource on top is lent. -/
  | reuse (entry : IdleResource) (free : List Slot) (lent making created : Nat) :
      Step ⟨.idle entry :: free, lent, making, created⟩ ⟨free, lent + 1, making, created⟩
  /-- A resource is to be made in the slot on top. -/
  | start (free : List Slot) (lent making created : Nat) :
      Step ⟨.vacant :: free, lent, making, created⟩ ⟨free, lent, making + 1, created⟩
  /-- A resource was made and is lent. -/
  | make (free : List Slot) (lent making created : Nat) :
      Step ⟨free, lent, making + 1, created⟩ ⟨free, lent + 1, making, created + 1⟩
  /-- No resource was made. -/
  | fail (free : List Slot) (lent making created : Nat) :
      Step ⟨free, lent, making + 1, created⟩ ⟨.vacant :: free, lent, making, created⟩
  /-- A resource comes back while none is being made. -/
  | shelve (entry : IdleResource) (free : List Slot) (lent created : Nat) :
      Step ⟨free, lent + 1, 0, created⟩ ⟨.idle entry :: free, lent, 0, created⟩

/-- Idle resources lie on top of vacant slots, and with the leases they are all that was made. While
one is being made none is idle. -/
def Stacked (stock : Stock) : Prop :=
  ∃ (entries : List IdleResource) (vacant : Nat),
    stock.free = entries.map .idle ++ List.replicate vacant .vacant ∧
    stock.created = stock.lent + entries.length ∧ (0 < stock.making → entries = [])

variable {before after : Stock}

theorem Stacked.lent_le (h : before.Stacked) : before.lent ≤ before.created := by
  obtain ⟨entries, vacant, -, hcreated, -⟩ := h
  omega

theorem Step.stacked (step : Step before after) (h : before.Stacked) : after.Stacked := by
  obtain ⟨entries, vacant, hfree, hcreated, hmaking⟩ := h
  cases step with
  | rest => exact ⟨entries, vacant, hfree, hcreated, hmaking⟩
  | reuse entry free lent making created =>
      cases entries with
      | nil => cases vacant <;> cases hfree
      | cons first entries =>
          obtain ⟨-, rfl⟩ := List.cons.inj hfree
          refine ⟨entries, vacant, rfl, ?_, fun hpos => ?_⟩
          · rw [hcreated, List.length_cons]
            dsimp only
            omega
          · cases hmaking hpos
  | start free lent making created =>
      cases entries with
      | cons first entries => cases hfree
      | nil =>
          cases vacant with
          | zero => cases hfree
          | succ vacant =>
              obtain ⟨-, rfl⟩ := List.cons.inj hfree
              exact ⟨[], vacant, rfl, hcreated, fun _ => rfl⟩
  | make free lent making created =>
      obtain rfl := hmaking (Nat.succ_pos _)
      exact ⟨[], vacant, hfree, congrArg (· + 1) hcreated, fun _ => rfl⟩
  | fail free lent making created =>
      obtain rfl := hmaking (Nat.succ_pos _)
      exact ⟨[], vacant + 1, congrArg (Slot.vacant :: ·) hfree, hcreated, fun _ => rfl⟩
  | shelve entry free lent created =>
      refine ⟨entry :: entries, vacant, congrArg (Slot.idle entry :: ·) hfree, ?_,
        fun hpos => absurd hpos (Nat.lt_irrefl 0)⟩
      rw [hcreated, List.length_cons]
      dsimp only
      omega

/-- A resource is made only when more leases are out than resources were made before. -/
theorem Step.created_eq_max (step : Step before after) (h : before.Stacked) :
    after.created = max after.lent before.created := by
  have hafter := (step.stacked h).lent_le
  have hbefore := h.lent_le
  obtain ⟨entries, vacant, -, hcreated, hmaking⟩ := h
  cases step with
  | make free lent making created =>
      obtain rfl := hmaking (Nat.succ_pos _)
      simp only [List.length_nil] at hcreated ⊢
      omega
  | rest | reuse | start | fail | shelve => exact (max_eq_right hafter).symm

end Stock

def Task.creates : Task → Bool
  | .creating .. => true
  | _ => false

/-- The task is an acquisition that waits for a slot, or that makes a resource under `owner`. -/
def Task.Acquires (id : PoolId) (owner : Owner) (task : Task) : Prop :=
  (∃ patience since, task = .waiting id patience since .lend) ∨ task = .creating id owner .lend

/-- A resource may lie idle and be old, and it is lent again without a check. -/
structure Config.IsPlain (config : Config) : Prop where
  idle : config.idleTimeout = none
  lifetime : config.maxLifetime = none
  untested : config.testOnCheckout = false

theorem Pool.isExpired_of_isPlain {pool : Pool} (h : pool.config.IsPlain) (now : Instant)
    (entry : IdleResource) : pool.isExpired now entry = false := by
  rw [isExpired, h.idle, h.lifetime]
  rfl

/-- What an acquisition does to a free list, and where it stands then. -/
inductive Draws (id : PoolId) (owner : Owner) : List Slot → List Slot → Progress → Prop where
  | unserved {free progress} (hnone : progress.delivered = [])
      (hwaits : ∀ task, progress = .pending task →
        ∃ patience since, task = .waiting id patience since .lend) :
      Draws id owner free free progress
  | start (free) : Draws id owner (.vacant :: free) free (.pending (.creating id owner .lend))
  | reuse (entry free) : Draws id owner (.idle entry :: free) free
      (.done (.lent ⟨entry.resource, owner, entry.createdAt⟩))

namespace Draws

variable {owner : Owner} {before rest : List Slot} {progress : Progress}

theorem step (draws : Draws id owner before rest progress) (lent making created : Nat) :
    Stock.Step ⟨before, lent, making, created⟩ ⟨rest, progress.delivered.length + lent,
      progress.task?.toList.countP Task.creates + making, created⟩ := by
  cases draws with
  | unserved hnone hwaits =>
      have hcount : progress.task?.toList.countP Task.creates = 0 := by
        cases progress with
        | done outcome => rfl
        | pending task =>
            obtain ⟨patience, since, rfl⟩ := hwaits task rfl
            rfl
      rw [hnone, hcount, List.length_nil, Nat.zero_add, Nat.zero_add]
      exact .rest _
  | start =>
      have hnone : (Progress.pending (.creating id owner .lend)).delivered = [] := rfl
      rw [Nat.add_comm _ making, hnone, List.length_nil, Nat.zero_add]
      exact .start _ _ _ _
  | reuse entry =>
      rw [Nat.add_comm _ lent, Progress.task?, Option.toList_none, List.countP_nil, Nat.zero_add]
      exact .reuse entry _ _ _ _

theorem owner_eq (draws : Draws id owner before rest progress) :
    ∀ lease ∈ progress.delivered, lease.owner = owner := by
  intro lease hmem
  cases draws with
  | unserved hnone =>
      rw [hnone] at hmem
      exact absurd hmem List.not_mem_nil
  | start => exact absurd hmem List.not_mem_nil
  | reuse entry => rw [List.mem_singleton.1 hmem]

theorem acquires (draws : Draws id owner before rest progress) :
    ∀ task, progress = .pending task → task.Acquires id owner := by
  intro task htask
  cases draws with
  | unserved hnone hwaits => exact .inl (hwaits task htask)
  | start => exact .inr (Progress.pending.inj htask).symm
  | reuse => cases htask

end Draws

theorem World.takeSlot_draws {slot : Slot} {free : List Slot} (hid : id < world.pools.length)
    (hplain : (world.pool id).config.IsPlain) (hfree : (world.pool id).free = slot :: free) :
    Draws id (world.pool id).owner (slot :: free)
        ((world.takeSlot id slot .lend).1.pool id).free (world.takeSlot id slot .lend).2 ∧
      ((world.takeSlot id slot .lend).1.pool id).created = (world.pool id).created := by
  have hpool : (world.afterTake id).pool id = (world.pool id).take := pool_modifyPool_self hid
  have hrest : ((world.afterTake id).pool id).free = free := by
    rw [hpool, Pool.take, hfree, List.tail_cons]
  cases slot with
  | vacant =>
      rw [takeSlot_vacant, hrest, hpool]
      exact ⟨.start free, rfl⟩
  | idle entry =>
      rw [takeSlot_fresh (Pool.isExpired_of_isPlain hplain _ entry), hplain.untested,
        if_neg Bool.false_ne_true, pool_congr (reuse_pools entry), hrest, hpool]
      exact ⟨.reuse entry free, rfl⟩

theorem World.awaitSlot_draws (hid : id < world.pools.length)
    (hplain : (world.pool id).config.IsPlain) (patience : Patience) (since : Instant) :
    Draws id (world.pool id).owner (world.pool id).free
        ((world.awaitSlot id patience since .lend).1.pool id).free
        (world.awaitSlot id patience since .lend).2 ∧
      ((world.awaitSlot id patience since .lend).1.pool id).created =
        (world.pool id).created := by
  cases hfree : (world.pool id).free with
  | cons slot free =>
      rw [awaitSlot_of_free hfree]
      exact takeSlot_draws hid hplain hfree
  | nil =>
      have hempty :
          (∃ timeout, world.awaitSlot id patience since .lend = world.exhaust id timeout) ∨
            world.awaitSlot id patience since .lend = _ := awaitSlot_of_empty hfree
      rcases hempty with ⟨timeout, hgives⟩ | hwaits
      · have hpool : (world.exhaust id timeout).1.pool id = (world.pool id).giveUp :=
          pool_modifyPool_self hid
        rw [hgives, hpool, Pool.giveUp, hfree]
        exact ⟨.unserved rfl nofun, rfl⟩
      · rw [hwaits, hfree]
        exact ⟨.unserved rfl fun task htask => ⟨_, _, (Progress.pending.inj htask).symm⟩, rfl⟩

theorem World.pool_created (owner : Owner) (purpose : Purpose) (kind : String)
    (hid : id < world.pools.length) : ∃ alive, (world.created id owner purpose kind).1.pool id =
      (world.pool id).enroll owner alive world.resources.length := by
  cases purpose <;> exact ⟨_, pool_modifyPool_self (by exact hid)⟩

theorem World.created_notCreated {owner : Owner} {failure : Failure}
    (hid : id < world.pools.length) :
    ((world.notCreated id owner failure).1.pool id).created = (world.pool id).created := by
  rw [pool_notCreated hid, Pool.created_restoreVacant]
  rfl

/-- A return makes nothing. -/
theorem World.created_release {lease : Lease} (hid : id < world.pools.length) :
    ((world.release id lease).pool id).created = ((world.checkOwner id).pool id).created := by
  obtain ⟨free, leased, stale, hpool⟩ := pool_release_eq hid
  rw [hpool]

end LeasePool
