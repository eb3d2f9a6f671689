import LeasePool.Proofs.Counters
import LeasePool.Proofs.Refusals

/-!
Tallies. A pool counts what becomes of its acquisitions: the resources that its factory made, the
times that it made none, and the times that no slot came free. Each acquisition ends in one of these
ways or with an idle resource, and no operation takes a count back.
-/

namespace LeasePool

/-- A unit of work is tried again, and at once. -/
def RetryPolicy.retriesAtOnce (policy : RetryPolicy) (retries : UInt32) : Bool :=
  decide (retries < policy.maxRetries) && decide ((policy.backoff.delay retries).toNat = 0)

/-- The call is for an acquisition, or begins with one. -/
def Call.acquires : Call → Bool
  | .acquire _ | .run _ => true
  | _ => false

def Sequel.acquires : Sequel → Bool
  | .finish => false
  | .retry policy retries _ => policy.retriesAtOnce retries

/-- A discard does not close the resource: it comes from another process, or from another pool. -/
def World.forgoes (world : World) (id : PoolId) (lease : Lease) : Bool :=
  decide (lease.owner.pid ≠ world.currentPid id) || decide (lease.owner.pool ≠ id)

def Task.awaitsSlot : Task → Bool
  | .waiting .. => true
  | _ => false

/-- The task is an acquisition that has no resource yet. -/
def Task.isAcquisition : Task → Bool
  | .waiting .. | .validating .. | .replacing .. | .creating .. => true
  | _ => false

def Progress.isAcquisition (progress : Progress) : Bool := progress.task?.any Task.isAcquisition

/-- An operation failed as if for want of a slot. -/
def Progress.isExhausted : Progress → Bool
  | .done (.failed (.poolExhausted ..)) => true
  | _ => false

namespace Act

/-- An acquisition begins in the turn: a caller asks for a resource, or an attempt at a unit of work
begins. -/
def begins (act : Act) : Bool :=
  match act.task?, act.event with
  | none, .call _ call => call.acquires
  | some (.pausing _ due _ _), _ => decide (due ≤ act.before.world.clock)
  | some (.discarding _ _ _ sequel), _ => sequel.acquires
  | some (.working id lease policy retries), .reply _ (.broke failure) =>
      policy.shouldDiscard failure && (act.before.world.forgoes id lease &&
        policy.retriesAtOnce retries)
  | _, _ => false

def seeks (act : Act) : Bool := act.begins || act.task?.any Task.awaitsSlot

def completes (act : Act) : Bool :=
  (act.begins || act.task?.any Task.isAcquisition) && !act.progress.isAcquisition

/-- The factory made a resource when it was asked to. -/
def makes (act : Act) : Bool :=
  match act.task?, act.event with
  | some (.creating ..), .reply _ (.created _) => true
  | _, _ => false

/-- The factory made no resource when it was asked to. -/
def makesNone (act : Act) : Bool :=
  match act.task?, act.event with
  | some (.creating ..), .reply _ (.notCreated _) => true
  | _, _ => false

/-- An acquisition gives up for want of a slot. -/
def exhausts (act : Act) : Bool := act.seeks && act.progress.isExhausted

def lends (act : Act) : Bool := act.progress.lent?.isSome

end Act

/-- What a pool counts of its acquisitions: resources made, resources not made, and refusals. -/
def Pool.counts (pool : Pool) : Nat × Nat × Nat :=
  (pool.created, pool.creationFailures, pool.timeouts)

namespace Pool

variable (pool : Pool) (owner : Owner) (slot : Slot)

theorem counts_eq_iff {created failures timeouts : Nat} :
    pool.counts = (created, failures, timeouts) ↔
      pool.created = created ∧ pool.creationFailures = failures ∧ pool.timeouts = timeouts := by
  simp [counts]

theorem counts_push : (pool.push slot).counts = pool.counts := by
  unfold push
  split <;> rfl

theorem counts_giveBack : (pool.giveBack slot).counts = pool.counts := counts_push _ slot

theorem counts_reclaim : (pool.reclaim owner).counts = pool.counts := by
  unfold reclaim
  split
  · exact counts_push _ .vacant
  · rfl

theorem counts_restoreVacant : (pool.restoreVacant owner).counts = pool.counts := by
  unfold restoreVacant
  split
  · exact pool.counts_giveBack .vacant
  · exact pool.counts_reclaim owner

theorem counts_enroll (alive : ResourceId → Bool) (resource : ResourceId) :
    (pool.enroll owner alive resource).counts =
      (pool.created + 1, pool.creationFailures, pool.timeouts) := by
  unfold enroll
  dsimp only
  split <;> rfl

end Pool

section Operations

variable {world middle : World} {id : PoolId} {result : World × Progress} {patience : Patience}
  {since : Instant} {purpose : Purpose} {slot : Slot} {lease : Lease} {sequel : Sequel}
  {policy : RetryPolicy} {retries : UInt32}

/-- An operation looked for a slot, and its acquisition has a resource, has given up, or goes on. -/
structure Seeks (id : PoolId) (world : World) (result : World × Progress) : Prop where
  counts_eq : (result.1.pool id).counts = ((world.pool id).created,
    (world.pool id).creationFailures, (world.pool id).timeouts + result.2.isExhausted.toNat)
  once : result.2.lent?.isSome.toNat + result.2.isExhausted.toNat +
    result.2.isAcquisition.toNat = 1

/-- An operation counted nothing, and is no acquisition. -/
structure Passes (id : PoolId) (world : World) (result : World × Progress) : Prop where
  counts_eq : (result.1.pool id).counts = (world.pool id).counts
  not_lent : result.2.lent?.isSome = false
  not_acquisition : result.2.isAcquisition = false

theorem Seeks.of_counts (hcounts : (middle.pool id).counts = (world.pool id).counts)
    (h : Seeks id middle result) : Seeks id world result := by
  obtain ⟨hcreated, hfailures, htimeouts⟩ := (Pool.counts_eq_iff _).1 hcounts
  refine ⟨?_, h.once⟩
  rw [h.counts_eq, hcreated, hfailures, htimeouts]

theorem Passes.of_counts (hcounts : (middle.pool id).counts = (world.pool id).counts)
    (h : Passes id middle result) : Passes id world result :=
  ⟨h.counts_eq.trans hcounts, h.not_lent, h.not_acquisition⟩

namespace World

theorem counts_congr {after : World} (hpools : after.pools = world.pools) :
    (after.pool id).counts = (world.pool id).counts := by
  rw [pool_congr hpools]

theorem counts_modifyPool {change : Pool → Pool}
    (hsame : ∀ pool, (change pool).counts = pool.counts) :
    ((world.modifyPool id change).pool id).counts = (world.pool id).counts :=
  view_modifyPool Pool.counts hsame

theorem counts_checkOwner : ((world.checkOwner id).pool id).counts = (world.pool id).counts := by
  rw [pool_congr checkOwner_pools]
  refine counts_modifyPool fun pool => ?_
  split <;> rfl

theorem counts_invalidate : ((world.invalidate id).pool id).counts = (world.pool id).counts := by
  rw [pool_congr invalidate_pools]
  exact counts_modifyPool fun _ => rfl

/-- An acquisition that has taken a slot counts nothing. -/
theorem takeSlot_seeks (hid : id < world.pools.length) :
    Seeks id world (world.takeSlot id slot purpose) := by
  obtain ⟨htaken, takes⟩ := takeSlot_takes hid slot purpose
  have honce : (world.takeSlot id slot purpose).2.isExhausted = false ∧
      (world.takeSlot id slot purpose).2.lent?.isSome.toNat +
        (world.takeSlot id slot purpose).2.isAcquisition.toNat = 1 := by
    generalize (world.takeSlot id slot purpose).2 = progress at takes
    cases takes with
    | vacant | expired | checked => exact ⟨rfl, rfl⟩
    | reused => cases purpose <;> exact ⟨rfl, rfl⟩
  refine ⟨?_, ?_⟩
  · rw [htaken, honce.1]
    rfl
  · rw [honce.1]
    exact honce.2

theorem awaitSlot_seeks (hid : id < world.pools.length) :
    Seeks id world (world.awaitSlot id patience since purpose) := by
  cases hfree : (world.pool id).free with
  | cons slot rest =>
      rw [awaitSlot_of_free hfree]
      exact takeSlot_seeks hid
  | nil =>
      have hempty : (∃ timeout, world.awaitSlot id patience since purpose =
          world.exhaust id timeout) ∨ world.awaitSlot id patience since purpose = _ :=
        awaitSlot_of_empty hfree
      rcases hempty with ⟨timeout, hgives⟩ | hwaits
      · rw [hgives]
        refine ⟨?_, rfl⟩
        have hgiven : (world.exhaust id timeout).1.pool id = (world.pool id).giveUp :=
          pool_modifyPool_self hid
        rw [hgiven]
        rfl
      · rw [hwaits]
        exact ⟨rfl, rfl⟩

theorem acquire_seeks (hid : id < world.pools.length) :
    Seeks id world (world.acquire id patience purpose) := by
  have henqueue : (((world.checkOwner id).modifyPool id Pool.enqueue).pool id).counts =
      ((world.checkOwner id).pool id).counts := counts_modifyPool fun _ => rfl
  have hid' : id < ((world.checkOwner id).modifyPool id Pool.enqueue).pools.length := by
    rwa [length_modifyPool, length_checkOwner]
  exact (awaitSlot_seeks hid').of_counts (henqueue.trans counts_checkOwner)

/-- After a discard an acquisition begins, or nothing more is asked of the pool. -/
theorem afterDiscard_seeks (hid : id < world.pools.length) (hacquires : sequel.acquires = true) :
    Seeks id world (world.afterDiscard id sequel) := by
  cases sequel with
  | finish => cases hacquires
  | retry policy retries failure =>
      obtain ⟨hretries, hdelay⟩ := Bool.and_eq_true_iff.1 hacquires
      have hmore : ¬ policy.maxRetries ≤ retries := UInt32.not_le.2 (of_decide_eq_true hretries)
      unfold afterDiscard
      dsimp only
      rw [if_neg hmore, if_pos (of_decide_eq_true hdelay)]
      refine Seeks.of_counts ?_ (acquire_seeks ?_)
      · rfl
      · exact hid

theorem afterDiscard_passes (hacquires : sequel.acquires = false) :
    Passes id world (world.afterDiscard id sequel) := by
  cases sequel with
  | finish => exact ⟨rfl, rfl, rfl⟩
  | retry policy retries failure =>
      unfold afterDiscard
      dsimp only
      split
      · exact ⟨rfl, rfl, rfl⟩
      · next hmore =>
        have hless : retries < policy.maxRetries := UInt32.not_le.1 hmore
        have hdelay : (policy.backoff.delay retries).toNat ≠ 0 := by
          intro hzero
          rw [Sequel.acquires, RetryPolicy.retriesAtOnce, decide_eq_true hless,
            decide_eq_true hzero] at hacquires
          cases hacquires
        rw [if_neg hdelay]
        exact ⟨rfl, rfl, rfl⟩

theorem counts_letGo {resource : ResourceId} :
    ((world.letGo resource).pool id).counts = (world.pool id).counts := counts_congr letGo_pools

theorem counts_noteClose {resource : ResourceId} {failure : Option Failure} :
    ((world.noteClose resource failure).pool id).counts = (world.pool id).counts :=
  counts_congr noteClose_pools

theorem counts_restoreVacant {owner : Owner} :
    ((world.restoreVacant id owner).pool id).counts = (world.pool id).counts :=
  (counts_modifyPool fun pool => pool.counts_restoreVacant owner).trans rfl

theorem counts_release (hid : id < world.pools.length) :
    ((world.release id lease).pool id).counts = (world.pool id).counts := by
  obtain ⟨free, leased, stale, hpool⟩ := @pool_release_eq world id lease hid
  rw [← @counts_checkOwner world id, hpool]
  rfl

/-- A resource of another process or pool is given up at once. -/
theorem discard_of_forgoes (hforgoes : world.forgoes id lease = true) :
    ∃ after : World, after.pools = world.pools ∧
      world.discard id lease sequel = after.afterDiscard id sequel := by
  unfold discard
  split
  · exact ⟨world.forget lease.resource, rfl, rfl⟩
  · next hpid =>
    split
    · exact ⟨(world.note (.foreignDiscarded id lease.owner.pool)).letGo lease.resource,
        letGo_pools, rfl⟩
    · next hpool =>
      rw [forgoes, decide_eq_false hpid, decide_eq_false hpool] at hforgoes
      cases hforgoes

theorem discard_of_not_forgoes (hforgoes : world.forgoes id lease = false) :
    Passes id world (world.discard id lease sequel) := by
  obtain ⟨hpid, hpool⟩ := Bool.or_eq_false_iff.1 hforgoes
  unfold discard
  rw [if_neg (of_decide_eq_false hpid), if_neg (of_decide_eq_false hpool)]
  exact ⟨rfl, rfl, rfl⟩

theorem discard_passes (hacquires : sequel.acquires = false) :
    Passes id world (world.discard id lease sequel) := by
  cases hforgoes : world.forgoes id lease with
  | true =>
      obtain ⟨after, hpools, hgoes⟩ := discard_of_forgoes hforgoes
      rw [hgoes]
      exact (afterDiscard_passes hacquires).of_counts (counts_congr hpools)
  | false => exact discard_of_not_forgoes hforgoes

theorem disconnectNext_passes {free rest : List ResourceId} {closed : Nat} :
    Passes id world (world.disconnectNext id free closed rest) := by
  induction rest with
  | nil =>
      have hpools : ((world.letGoAll free).note (.disconnected closed)).pools = world.pools :=
        letGoAll_pools
      exact ⟨counts_congr hpools, rfl, rfl⟩
  | cons resource rest ih =>
      unfold disconnectNext
      split
      · exact ⟨rfl, rfl, rfl⟩
      · exact ih

theorem sweepNext_passes {taken rest : List ResourceId} :
    Passes id world (world.sweepNext id taken rest) := by
  cases rest with
  | cons => exact ⟨rfl, rfl, rfl⟩
  | nil =>
      unfold sweepNext
      dsimp only
      refine ⟨counts_congr (letGoAll_pools.trans ?_), rfl, rfl⟩
      split <;> rfl

theorem sweep_passes {takes : Pool → IdleResource → Bool} :
    Passes id world (world.sweep id takes) := by
  refine sweepNext_passes.of_counts (Eq.trans ?_ counts_checkOwner)
  exact counts_modifyPool fun _ => rfl

theorem disconnectAll_passes : Passes id world (world.disconnectAll id) := by
  refine disconnectNext_passes.of_counts (Eq.trans ?_ counts_checkOwner)
  exact counts_modifyPool fun _ => rfl

theorem begin_seeks {call : Call} (hid : id < world.pools.length)
    (hacquires : call.acquires = true) : Seeks id world (world.begin id call) := by
  cases call with
  | acquire | run => exact acquire_seeks hid
  | release | discard | disconnectAll | invalidate | closeIdle | evictExpired => cases hacquires

theorem begin_passes {call : Call} (hid : id < world.pools.length)
    (hacquires : call.acquires = false) : Passes id world (world.begin id call) := by
  cases call with
  | acquire | run => cases hacquires
  | release lease => exact ⟨counts_release hid, rfl, rfl⟩
  | discard lease =>
      have hends : Sequel.acquires .finish = false := rfl
      obtain ⟨hcounts, hlent, hacquisition⟩ := discard_passes hends
      exact ⟨hcounts, hlent, hacquisition⟩
  | disconnectAll => exact disconnectAll_passes
  | invalidate => exact ⟨counts_invalidate, rfl, rfl⟩
  | closeIdle =>
      rw [begin, closeIdle]
      exact sweep_passes
  | evictExpired =>
      rw [begin, evictExpired]
      exact sweep_passes

/-- A unit of work failed on its resource, and its next attempt begins at once. -/
theorem broke_seeks {failure : Failure} (hid : id < world.pools.length)
    (hdiscard : policy.shouldDiscard failure = true) (hforgoes : world.forgoes id lease = true)
    (hretries : policy.retriesAtOnce retries = true) :
    Seeks id world (world.broke id lease policy retries failure) := by
  have hacquires : Sequel.acquires (.retry policy retries failure) = true := hretries
  obtain ⟨after, hpools, hgoes⟩ := discard_of_forgoes hforgoes
  rw [broke_of_discards hdiscard, hgoes]
  exact (afterDiscard_seeks (hpools ▸ hid) hacquires).of_counts (counts_congr hpools)

/-- A unit of work failed on its resource, which is taken back, or closed before anything else. -/
theorem broke_passes {failure : Failure} (hid : id < world.pools.length)
    (hstays : (policy.shouldDiscard failure &&
      (world.forgoes id lease && policy.retriesAtOnce retries)) = false) :
    Passes id world (world.broke id lease policy retries failure) := by
  by_cases hdiscard : policy.shouldDiscard failure = true
  · rw [broke_of_discards hdiscard]
    rw [hdiscard, Bool.true_and] at hstays
    rcases Bool.and_eq_false_iff.1 hstays with hforgoes | hretries
    · exact discard_of_not_forgoes hforgoes
    · exact discard_passes hretries
  · rw [broke_of_keeps hdiscard]
    exact ⟨counts_release hid, rfl, rfl⟩

end World

end Operations

/-- What a turn adds to the counts of its pool and to the acquisitions of it. -/
structure Act.Tallies (id : PoolId) (act : Act) : Prop where
  counts_eq : (act.after.world.pool id).counts =
    ((act.before.world.pool id).created + act.makes.toNat,
      (act.before.world.pool id).creationFailures + act.makesNone.toNat,
      (act.before.world.pool id).timeouts + act.exhausts.toNat)
  completes_eq : act.completes.toNat =
    act.lends.toNat + act.makesNone.toNat + act.exhausts.toNat
  begins_eq : act.begins.toNat + (act.task?.any Task.isAcquisition).toNat =
    act.completes.toNat + act.progress.isAcquisition.toNat

namespace Act

variable {id : PoolId} {act : Act} {result : World × Progress}

/-- It is enough that what was under way or began has ended in one way, or goes on. -/
theorem tallies_of_ends (hcounts : (act.after.world.pool id).counts =
      ((act.before.world.pool id).created + act.makes.toNat,
        (act.before.world.pool id).creationFailures + act.makesNone.toNat,
        (act.before.world.pool id).timeouts + act.exhausts.toNat))
    (hends : act.lends.toNat + act.makesNone.toNat + act.exhausts.toNat +
      act.progress.isAcquisition.toNat =
        act.begins.toNat + (act.task?.any Task.isAcquisition).toNat)
    (hone : act.begins.toNat + (act.task?.any Task.isAcquisition).toNat ≤ 1) :
    act.Tallies id := by
  have hcompletes : act.completes.toNat + act.progress.isAcquisition.toNat =
      act.begins.toNat + (act.task?.any Task.isAcquisition).toNat := by
    rw [completes]
    -- An acquisition that begins in a turn was not under way before it.
    generalize act.begins = begins, act.task?.any Task.isAcquisition = goesOn,
      act.progress.isAcquisition = stays at hends hone ⊢
    cases begins <;> cases goesOn <;> cases stays <;>
      simp only [Bool.toNat_true, Bool.toNat_false] at hends hone <;> first | rfl | omega
  exact ⟨hcounts, by omega, hcompletes.symm⟩

/-- A turn in which an acquisition looks for a slot. -/
theorem tallies_of_seeks (hresult : (act.after.world, act.progress) = result)
    (h : Seeks id act.before.world result) (hmakes : act.makes = false)
    (hmakesNone : act.makesNone = false) (hseeks : act.seeks = true)
    (hone : act.begins.toNat + (act.task?.any Task.isAcquisition).toNat = 1) :
    act.Tallies id := by
  subst hresult
  have hexhausts : act.exhausts = act.progress.isExhausted := by
    rw [exhausts, hseeks, Bool.true_and]
  refine tallies_of_ends ?_ ?_ hone.le
  · rw [hmakes, hmakesNone, hexhausts]
    exact h.counts_eq
  · rw [hmakesNone, hexhausts, hone]
    exact h.once

/-- A turn in which an acquisition goes on with the slot that it has. -/
theorem tallies_of_goesOn (hcounts : (act.after.world.pool id).counts =
      ((act.before.world.pool id).created + act.makes.toNat,
        (act.before.world.pool id).creationFailures + act.makesNone.toNat,
        (act.before.world.pool id).timeouts))
    (hends : act.lends.toNat + act.makesNone.toNat + act.progress.isAcquisition.toNat = 1)
    (hseeks : act.seeks = false) (htask : act.task?.any Task.isAcquisition = true) :
    act.Tallies id := by
  have hexhausts : act.exhausts = false := by
    rw [exhausts, hseeks, Bool.false_and]
  have hbegins : act.begins = false := (Bool.or_eq_false_iff.1 hseeks).1
  refine tallies_of_ends ?_ ?_ ?_
  · rw [hexhausts]
    exact hcounts
  · rw [hexhausts, hbegins, htask]
    exact hends
  · rw [hbegins, htask]
    exact Nat.le_refl 1

/-- A turn of an operation that is no acquisition and begins none. -/
theorem tallies_of_passes (hresult : (act.after.world, act.progress) = result)
    (h : Passes id act.before.world result) (hmakes : act.makes = false)
    (hmakesNone : act.makesNone = false) (hbegins : act.begins = false)
    (htask : act.task?.any Task.isAcquisition = false) : act.Tallies id := by
  subst hresult
  have hawaits : act.task?.any Task.awaitsSlot = false := by
    cases hsome : act.task? with
    | none => rfl
    | some task =>
        rw [hsome] at htask
        cases task with
        | waiting | validating | replacing | creating => cases htask
        | working | discarding | pausing | disconnecting | sweeping => rfl
  have hexhausts : act.exhausts = false := by
    rw [exhausts, seeks, hbegins, hawaits]
    rfl
  have hlends : act.lends = false := h.not_lent
  have hprogress : act.progress.isAcquisition = false := h.not_acquisition
  refine tallies_of_ends ?_ ?_ ?_
  · rw [hmakes, hmakesNone, hexhausts]
    exact h.counts_eq
  · rw [hlends, hmakesNone, hexhausts, hprogress, hbegins, htask]
    rfl
  · rw [hbegins, htask]
    exact Nat.zero_le 1

/-- A turn of an operation that is no acquisition: it may begin one. -/
theorem tallies_of_begins (hresult : (act.after.world, act.progress) = result)
    (hbegins : act.begins = true → Seeks id act.before.world result)
    (hstays : act.begins = false → Passes id act.before.world result)
    (hmakes : act.makes = false) (hmakesNone : act.makesNone = false)
    (htask : act.task?.any Task.isAcquisition = false) : act.Tallies id := by
  cases h : act.begins with
  | true =>
      refine tallies_of_seeks hresult (hbegins h) hmakes hmakesNone ?_ ?_
      · rw [seeks, h, Bool.true_or]
      · rw [h, htask]
        rfl
  | false => exact tallies_of_passes hresult (hstays h) hmakes hmakesNone h htask

end Act

namespace System

variable {system next : System} {id : PoolId} {event : Event} {task? : Option Task}
  {progress : Progress} {call : Call}

/-- A call is made. -/
theorem Turn.tallies_call (turn : system.Turn id (.call id call) none next progress)
    (hid : id < system.world.pools.length) :
    Act.Tallies id ⟨system, none, .call id call, next, progress⟩ := by
  refine Act.tallies_of_begins turn.eq_begin (fun hacquires => ?_) (fun hacquires => ?_) rfl rfl rfl
  · exact World.begin_seeks hid hacquires
  · exact World.begin_passes hid hacquires

/-- A task that waits looks again. -/
theorem Turn.tallies_wake {place : Nat} {task : Task}
    (turn : system.Turn id (.wake place) (some task) next progress)
    (hid : id < system.world.pools.length) :
    Act.Tallies id ⟨system, some task, .wake place, next, progress⟩ := by
  have hpool := turn.pool_eq
  rcases turn.resumes_or_wakes with ⟨_, _, _, ⟨⟩, -⟩ | ⟨_, result, -, h, hnext, rfl⟩
  have hresult : (next.world, result.2) = result := Prod.ext hnext rfl
  cases task with
  | validating | replacing | creating | working | discarding | disconnecting | sweeping => cases h
  | waiting agent patience since purpose =>
      cases h
      obtain rfl : agent = id := hpool
      exact Act.tallies_of_seeks hresult (World.awaitSlot_seeks hid) rfl rfl rfl rfl
  | pausing agent due policy retries =>
      cases h
      obtain rfl : agent = id := hpool
      refine Act.tallies_of_begins hresult (fun hbegins => ?_) (fun hstays => ?_) rfl rfl rfl
      · have hgoes : system.world.awaitAttempt agent due policy retries = _ :=
          if_pos (of_decide_eq_true hbegins)
        rw [hgoes]
        exact World.acquire_seeks hid
      · have hwaits : system.world.awaitAttempt agent due policy retries = _ :=
          if_neg (of_decide_eq_false hstays)
        rw [hwaits]
        exact ⟨rfl, rfl, rfl⟩

section Answers

variable {place : Nat} {owner : Owner} {purpose : Purpose} {resource : ResourceId} {lease : Lease}
  {policy : RetryPolicy} {retries : UInt32}

theorem tallies_validated {entry : IdleResource} {isValid : Bool}
    (hresult : (next.world, progress) = system.world.validated id owner entry purpose isValid) :
    Act.Tallies id ⟨system, some (.validating id owner entry purpose),
      .reply place (.valid isValid), next, progress⟩ := by
  have hnext : next.world = _ := congrArg Prod.fst hresult
  obtain rfl : progress = _ := congrArg Prod.snd hresult
  have hkept : next.world.pools = system.world.pools := by
    rw [hnext, World.validated]
    split
    · exact World.reuse_pools entry
    · rfl
  refine Act.tallies_of_goesOn (World.counts_congr hkept) ?_ rfl rfl
  cases isValid with
  | false => rfl
  | true => cases purpose <;> rfl

theorem tallies_replaced {failure : Option Failure}
    (hresult : (next.world, progress) = system.world.replaced id owner resource purpose failure) :
    Act.Tallies id ⟨system, some (.replacing id owner resource purpose),
      .reply place (.closed failure), next, progress⟩ := by
  have hnext : next.world = _ := congrArg Prod.fst hresult
  obtain rfl : progress = _ := congrArg Prod.snd hresult
  refine Act.tallies_of_goesOn ?_ rfl rfl rfl
  change (next.world.pool _).counts = _
  rw [hnext]
  exact World.counts_letGo.trans World.counts_noteClose

theorem tallies_created {kind : String} (hid : id < system.world.pools.length)
    (hresult : (next.world, progress) = system.world.created id owner purpose kind) :
    Act.Tallies id ⟨system, some (.creating id owner purpose), .reply place (.created kind), next,
      progress⟩ := by
  have hnext : next.world = _ := congrArg Prod.fst hresult
  obtain rfl : progress = _ := congrArg Prod.snd hresult
  obtain ⟨alive, hmade⟩ := World.pool_created owner purpose kind hid
  refine Act.tallies_of_goesOn ?_ ?_ rfl rfl
  · change (next.world.pool _).counts = _
    rw [hnext, hmade]
    exact Pool.counts_enroll _ owner alive _
  · cases purpose <;> rfl

theorem tallies_notCreated {failure : Failure} (hid : id < system.world.pools.length)
    (hresult : (next.world, progress) = system.world.notCreated id owner failure) :
    Act.Tallies id ⟨system, some (.creating id owner purpose), .reply place (.notCreated failure),
      next, progress⟩ := by
  have hnext : next.world = _ := congrArg Prod.fst hresult
  obtain rfl : progress = _ := congrArg Prod.snd hresult
  refine Act.tallies_of_goesOn ?_ rfl rfl rfl
  change (next.world.pool _).counts = _
  rw [hnext, World.pool_notCreated hid]
  exact Pool.counts_restoreVacant _ owner

theorem tallies_worked {value : Json} (hid : id < system.world.pools.length)
    (hresult : (next.world, progress) = system.world.worked id lease value) :
    Act.Tallies id ⟨system, some (.working id lease policy retries),
      .reply place (.worked value), next, progress⟩ := by
  refine Act.tallies_of_passes hresult ?_ rfl rfl rfl rfl
  exact ⟨World.counts_release hid, rfl, rfl⟩

theorem tallies_broke {failure : Failure} (hid : id < system.world.pools.length)
    (hresult : (next.world, progress) = system.world.broke id lease policy retries failure) :
    Act.Tallies id ⟨system, some (.working id lease policy retries),
      .reply place (.broke failure), next, progress⟩ := by
  refine Act.tallies_of_begins hresult (fun hbegins => ?_) (fun hstays => ?_) rfl rfl rfl
  · obtain ⟨hdiscard, hgoes⟩ := Bool.and_eq_true_iff.1 hbegins
    obtain ⟨hforgoes, hretries⟩ := Bool.and_eq_true_iff.1 hgoes
    exact World.broke_seeks hid hdiscard hforgoes hretries
  · exact World.broke_passes hid hstays

theorem tallies_discarded {sequel : Sequel} {failure : Option Failure}
    (hid : id < system.world.pools.length)
    (hresult : (next.world, progress) = system.world.discarded id owner resource sequel failure) :
    Act.Tallies id ⟨system, some (.discarding id owner resource sequel),
      .reply place (.closed failure), next, progress⟩ := by
  have hcounts : ((system.world.vacate id owner resource failure).pool id).counts =
      (system.world.pool id).counts :=
    World.counts_restoreVacant.trans (World.counts_letGo.trans World.counts_noteClose)
  have hid' : id < (system.world.vacate id owner resource failure).pools.length := by
    rwa [World.length_vacate]
  refine Act.tallies_of_begins hresult (fun hbegins => ?_) (fun hstays => ?_) rfl rfl rfl
  · exact (World.afterDiscard_seeks hid' hbegins).of_counts hcounts
  · exact (World.afterDiscard_passes hstays).of_counts hcounts

end Answers

/-- A task gets the answer to its question. -/
theorem Turn.tallies_reply {place : Nat} {reply : Reply} {task : Task}
    (turn : system.Turn id (.reply place reply) (some task) next progress)
    (hid : id < system.world.pools.length) :
    Act.Tallies id ⟨system, some task, .reply place reply, next, progress⟩ := by
  have hpool := turn.pool_eq
  rcases turn.resumes_or_wakes with ⟨_, _, result, ⟨⟩, h, hnext, rfl⟩ | ⟨_, _, ⟨⟩, -⟩
  have hresult : (next.world, result.2) = result := Prod.ext hnext rfl
  subst hpool
  unfold World.resume at h
  split at h <;> cases h
  · exact tallies_validated hresult
  · exact tallies_replaced hresult
  · exact tallies_created hid hresult
  · exact tallies_notCreated hid hresult
  · exact tallies_worked hid hresult
  · exact tallies_broke hid hresult
  · exact tallies_discarded hid hresult
  · refine Act.tallies_of_passes hresult ?_ rfl rfl rfl rfl
    exact World.disconnectNext_passes.of_counts (World.counts_letGo.trans World.counts_noteClose)
  · refine Act.tallies_of_passes hresult ?_ rfl rfl rfl rfl
    exact World.sweepNext_passes.of_counts World.counts_noteClose

theorem Turn.tallies (turn : system.Turn id event task? next progress)
    (hid : id < system.world.pools.length) :
    Act.Tallies id ⟨system, task?, event, next, progress⟩ := by
  cases turn with
  | call h => exact tallies_call (.call h) hid
  | reply htask h => exact tallies_reply (.reply htask h) hid
  | wake htask h => exact tallies_wake (.wake htask h) hid

end System

end LeasePool
