import LeasePool.Proofs.Invalidation
import LeasePool.Proofs.Settlements

/-!
Refusals. An acquisition fails for one of two reasons: no slot came free in time, which happens
exactly to a pool that is full, or the factory made no resource. Either way the pool is left as it
was, but for a counter, and for an idle resource in the top slot that was of no use any more: it is
closed and destroyed, and its slot is vacant.
-/

namespace LeasePool

/-- The pool when an acquisition took the top slot without waiting for it. -/
def Pool.draw (pool : Pool) : Pool :=
  { pool with free := pool.free.tail, leased := pool.leased + 1 }

theorem Pool.take_enqueue (pool : Pool) : pool.enqueue.take = pool.draw := rfl

theorem Pool.giveUp_enqueue (pool : Pool) :
    pool.enqueue.giveUp = { pool with timeouts := pool.timeouts + 1 } := rfl

/-- A slot that was taken comes back vacant, if no resource is made in it. -/
theorem Pool.restoreVacant_draw {pool : Pool} {slot : Slot} {rest : List Slot}
    (hslots : pool.slots ≤ pool.maxSize) (hfree : pool.free = slot :: rest) :
    pool.draw.restoreVacant pool.owner = { pool with free := .vacant :: rest } := by
  have hrest : pool.free.tail = rest := by rw [hfree, List.tail_cons]
  have hroom : pool.free.tail.length < pool.maxSize := by
    rw [Pool.slots, hfree, List.length_cons] at hslots
    rw [hrest]
    omega
  have hback : pool.draw.restoreVacant pool.owner = pool.draw.giveBack .vacant := if_pos rfl
  rw [hback, giveBack, push_of_lt (by exact hroom)]
  simp only [draw, hrest, Nat.add_sub_cancel]

/-- A pool is full if it has no free slot. -/
theorem Pool.isFull_iff {pool : Pool} (h : pool.slots ≤ pool.maxSize) :
    pool.stats.isFull = true ↔ pool.free = [] := by
  have hsize : pool.maxSize < UInt64.size := pool.config.maxSize.toNat_lt
  have hidle : pool.idleCount ≤ pool.free.length := List.countP_le_length
  have hfree : pool.free.length ≤ pool.slots := by
    rw [Pool.slots, Nat.add_assoc]
    exact Nat.le_add_right _ _
  have hzero : ∀ n : Nat, n < UInt64.size → (UInt64.ofNat n = 0 ↔ n = 0) := by
    intro n hlt
    rw [← UInt64.toNat_inj, UInt64.toNat_ofNat_of_lt' hlt, UInt64.toNat_zero]
  rw [Stats.isFull, Bool.and_eq_true, decide_eq_true_eq, decide_eq_true_eq]
  change UInt64.ofNat pool.idleCount = 0 ∧
    UInt64.ofNat (pool.free.length - pool.idleCount) = 0 ↔ pool.free = []
  rw [hzero _ (by omega), hzero _ (by omega), ← List.length_eq_zero_iff]
  omega

/-- Where an acquisition stands that took a slot at once, from a pool that was `pool` then. -/
inductive Takes (id : PoolId) (pool : Pool) (now : Instant) (purpose : Purpose) :
    Slot → Progress → Prop where
  | vacant : Takes id pool now purpose .vacant (.pending (.creating id pool.owner purpose))
  | expired (entry : IdleResource) (hexpired : pool.isExpired now entry = true) :
      Takes id pool now purpose (.idle entry)
        (.pending (.replacing id pool.owner entry.resource purpose))
  | checked (entry : IdleResource) :
      Takes id pool now purpose (.idle entry)
        (.pending (.validating id pool.owner entry purpose))
  | reused (entry : IdleResource) (world : World) :
      Takes id pool now purpose (.idle entry)
        (world.lend id ⟨entry.resource, pool.owner, entry.createdAt⟩ purpose).2

namespace World

variable {world : World} {id : PoolId} {slot : Slot} {rest : List Slot} {purpose : Purpose}

theorem takeSlot_takes (hid : id < world.pools.length) (slot : Slot) (purpose : Purpose) :
    (world.takeSlot id slot purpose).1.pool id = (world.pool id).take ∧
      Takes id (world.pool id) world.clock purpose slot (world.takeSlot id slot purpose).2 := by
  have hafter : (world.afterTake id).pool id = (world.pool id).take := pool_modifyPool_self hid
  cases slot with
  | vacant =>
      rw [takeSlot_vacant]
      exact ⟨hafter, .vacant⟩
  | idle entry =>
      cases hexpired : (world.pool id).isExpired world.clock entry with
      | true =>
          rw [takeSlot_expired hexpired]
          exact ⟨hafter, .expired entry hexpired⟩
      | false =>
          rw [takeSlot_fresh hexpired]
          split
          · exact ⟨hafter, .checked entry⟩
          · rw [pool_congr (reuse_pools entry)]
            exact ⟨hafter, .reused entry _⟩

/-- An acquisition takes the top slot at once if there is one. -/
theorem acquire_takes (hid : id < world.pools.length)
    (hnoted : (world.pool id).notedPid = world.currentPid id)
    (htop : (world.pool id).free = slot :: rest) (patience : Patience) (purpose : Purpose) :
    (world.acquire id patience purpose).1.pool id = (world.pool id).draw ∧
      Takes id (world.pool id) world.clock purpose slot (world.acquire id patience purpose).2 := by
  have hpool : (world.modifyPool id Pool.enqueue).pool id = (world.pool id).enqueue :=
    pool_modifyPool_self hid
  have hfree : ((world.modifyPool id Pool.enqueue).pool id).free = slot :: rest := by
    rw [hpool]
    exact htop
  have hid' : id < (world.modifyPool id Pool.enqueue).pools.length := by
    rwa [length_modifyPool]
  rw [acquire_of_noted hnoted, awaitSlot_of_free hfree, ← Pool.take_enqueue, ← hpool]
  obtain ⟨htaken, takes⟩ := takeSlot_takes hid' slot purpose
  refine ⟨htaken, ?_⟩
  rw [hpool] at takes
  generalize (((world.modifyPool id Pool.enqueue).takeSlot id slot purpose).2) = progress at takes
  cases takes with
  | vacant => exact .vacant
  | expired entry hexpired => exact .expired entry hexpired
  | checked entry => exact .checked entry
  | reused entry world => exact .reused entry world

/-- Without a free slot an acquisition waits for one until its patience ends. -/
theorem awaitSlot_of_full (hfree : (world.pool id).free = []) (patience : Patience)
    (since : Instant) :
    (∃ timeout, patience = .within timeout ∧ since + timeout ≤ world.clock ∧
      world.awaitSlot id patience since purpose = world.exhaust id timeout) ∨
    (∀ instant, patience.deadline? since = some instant → world.clock < instant) ∧
      world.awaitSlot id patience since purpose =
        (world, .pending (.waiting id patience since purpose)) := by
  unfold awaitSlot
  rw [hfree]
  cases patience with
  | forever => exact .inr ⟨nofun, rfl⟩
  | within timeout =>
      dsimp only
      split
      · next hpast => exact .inl ⟨timeout, rfl, hpast, rfl⟩
      · next hearly =>
        refine .inr ⟨?_, rfl⟩
        rintro _ ⟨⟩
        exact Nat.lt_of_not_le hearly

end World

def Act.question? (act : Act) : Option Question := act.progress.question?

/-- The failure that the factory reports in the turn instead of a resource. -/
def Act.notCreated? (act : Act) : Option Failure :=
  match act.event with
  | .reply _ (.notCreated failure) => some failure
  | _ => none

/-- The idle resource of a slot was past a limit, or the factory found it invalid; the list is what
it was asked. -/
inductive Pool.Rejects (pool : Pool) (id : PoolId) (now : Instant) (acts : List Act)
    (entry : IdleResource) : List Question → Prop where
  | expired (hexpired : pool.isExpired now entry = true) : Rejects pool id now acts entry []
  | invalid {act place} (hact : act ∈ acts) (hevent : act.event = .reply place (.valid false)) :
      Rejects pool id now acts entry [.isValid id entry.resource]

/-- A slot is ready for a new resource: one that lay in it was rejected, closed and destroyed. The
list is what was asked until then. -/
inductive Pool.Clears (pool : Pool) (id : PoolId) (now : Instant) (acts : List Act)
    (world : World) : Slot → List Question → Prop where
  | vacant : Clears pool id now acts world .vacant []
  | idle {entry checks} (rejects : pool.Rejects id now acts entry checks)
      (hgone : .destroyed entry.resource ∈ world.journal) :
      Clears pool id now acts world (.idle entry) (checks ++ [.close id entry.resource])

/-- Where an acquisition stands that was called when its pool was `pool`, and how the pool is then,
with what was asked in its turns and what the factory failed with. -/
inductive Acquires (id : PoolId) (pool : Pool) (now : Instant) (limit : Patience) (acts : List Act)
    (world : World) : List Question → List Failure → Progress → Prop where
  | waiting (hfree : pool.free = []) (hpool : world.pool id = pool.enqueue) :
      Acquires id pool now limit acts world [] [] (.pending (.waiting id limit now .lend))
  | exhausted {timeout} (hfree : pool.free = []) (hlimit : limit = .within timeout)
      (hpast : now + timeout ≤ world.clock)
      (hpool : world.pool id = { pool with timeouts := pool.timeouts + 1 }) :
      Acquires id pool now limit acts world [] []
        (.done (.failed (.poolExhausted pool.maxSize timeout)))
  | validating {entry rest} (hfree : pool.free = .idle entry :: rest)
      (hpool : world.pool id = pool.draw) :
      Acquires id pool now limit acts world [.isValid id entry.resource] []
        (.pending (.validating id pool.owner entry .lend))
  | replacing {entry rest checks} (hfree : pool.free = .idle entry :: rest)
      (hpool : world.pool id = pool.draw) (rejects : pool.Rejects id now acts entry checks) :
      Acquires id pool now limit acts world (checks ++ [.close id entry.resource]) []
        (.pending (.replacing id pool.owner entry.resource .lend))
  | creating {slot rest earlier} (hfree : pool.free = slot :: rest)
      (hpool : world.pool id = pool.draw) (clears : pool.Clears id now acts world slot earlier) :
      Acquires id pool now limit acts world (earlier ++ [.create id]) []
        (.pending (.creating id pool.owner .lend))
  | lent {slot rest asked lease} (hfree : pool.free = slot :: rest) :
      Acquires id pool now limit acts world asked [] (.done (.lent lease))
  | notCreated {slot rest earlier failure} (hfree : pool.free = slot :: rest)
      (clears : pool.Clears id now acts world slot earlier)
      (hpool : world.pool id = { pool with
        creationFailures := pool.creationFailures + 1, free := .vacant :: rest }) :
      Acquires id pool now limit acts world (earlier ++ [.create id]) [failure]
        (.done (.failed failure))

section Acquires

variable {id : PoolId} {pool : Pool} {now : Instant} {limit : Patience} {acts : List Act}
  {world after : World} {asked : List Question} {told : List Failure} {task : Task}

theorem Pool.Rejects.mono {entry : IdleResource} (h : pool.Rejects id now acts entry asked)
    (act : Act) : pool.Rejects id now (acts ++ [act]) entry asked := by
  cases h with
  | expired hexpired => exact .expired hexpired
  | invalid hact hevent => exact .invalid (List.mem_append_left _ hact) hevent

theorem Pool.Clears.mono {slot : Slot} (h : pool.Clears id now acts world slot asked) (act : Act)
    (hjournal : ∀ resource, .destroyed resource ∈ world.journal →
      .destroyed resource ∈ after.journal) :
    pool.Clears id now (acts ++ [act]) after slot asked := by
  cases h with
  | vacant => exact .vacant
  | idle rejects hgone => exact .idle (rejects.mono act) (hjournal _ hgone)

/-- While an acquisition waits, only its pool and the journal matter. -/
theorem Acquires.of_pool_eq (h : Acquires id pool now limit acts world asked told (.pending task))
    (hpool : after.pool id = world.pool id)
    (hjournal : ∀ resource, .destroyed resource ∈ world.journal →
      .destroyed resource ∈ after.journal) :
    Acquires id pool now limit acts after asked told (.pending task) := by
  cases h with
  | waiting hfree hsame => exact .waiting hfree (hpool.trans hsame)
  | validating hfree hsame => exact .validating hfree (hpool.trans hsame)
  | replacing hfree hsame rejects => exact .replacing hfree (hpool.trans hsame) rejects
  | creating hfree hsame clears =>
      refine .creating hfree (hpool.trans hsame) ?_
      cases clears with
      | vacant => exact .vacant
      | idle rejects hgone => exact .idle rejects (hjournal _ hgone)

theorem Acquires.exhausted_iff {outcome : Outcome}
    (h : Acquires id pool now limit acts world asked told (.done outcome)) :
    pool.free = [] ↔
      told = [] ∧ ∃ timeout, outcome = .failed (.poolExhausted pool.maxSize timeout) := by
  cases h with
  | exhausted hfree => exact ⟨fun _ => ⟨rfl, _, rfl⟩, fun _ => hfree⟩
  | lent hfree =>
      rw [hfree]
      exact ⟨nofun, by rintro ⟨-, _, ⟨⟩⟩⟩
  | notCreated hfree =>
      rw [hfree]
      exact ⟨nofun, nofun⟩

theorem Acquires.exhausted_of_full {outcome : Outcome}
    (h : Acquires id pool now limit acts world asked told (.done outcome))
    (hfree : pool.free = []) :
    ∃ timeout, limit = .within timeout ∧ now + timeout ≤ world.clock ∧
      outcome = .failed (.poolExhausted pool.maxSize timeout) ∧ asked = [] ∧
      world.pool id = { pool with timeouts := pool.timeouts + 1 } := by
  cases h with
  | exhausted _ hlimit hpast hpool => exact ⟨_, hlimit, hpast, rfl, rfl, hpool⟩
  | lent hsome | notCreated hsome => cases hfree.symm.trans hsome

theorem Acquires.failed_iff {progress : Progress} {failure : Failure}
    (h : Acquires id pool now limit acts world asked told progress) (hfree : pool.free ≠ []) :
    progress = .done (.failed failure) ↔ told = [failure] := by
  cases h with
  | waiting hnone | exhausted hnone => exact absurd hnone hfree
  | validating | replacing | creating | lent => exact ⟨nofun, nofun⟩
  | notCreated =>
      constructor
      · rintro ⟨⟩
        rfl
      · rintro ⟨⟩
        rfl

theorem Acquires.restored {progress : Progress} {failure : Failure}
    (h : Acquires id pool now limit acts world asked told progress) (hmem : failure ∈ told) :
    ∃ slot rest earlier, pool.free = slot :: rest ∧
      world.pool id = { pool with
        creationFailures := pool.creationFailures + 1, free := .vacant :: rest } ∧
      pool.Clears id now acts world slot earlier ∧ asked = earlier ++ [.create id] := by
  cases h with
  | waiting | exhausted | validating | replacing | creating | lent => cases hmem
  | notCreated hfree clears hpool => exact ⟨_, _, _, hfree, hpool, clears, rfl⟩

/-- An idle resource that made place for a new one was closed once. -/
theorem Pool.Clears.count_close {entry : IdleResource} {earlier : List Question}
    (h : pool.Clears id now acts world (.idle entry) earlier) :
    (earlier ++ [Question.create id]).count (.close id entry.resource) = 1 := by
  cases h with
  | idle rejects hgone =>
      cases rejects with
      | expired | invalid => simp

end Acquires

namespace System

variable {system next start final : System} {id : PoolId} {event : Event} {events : List Event}
  {task : Task} {progress : Progress} {pool : Pool} {now : Instant} {limit : Patience}
  {acts : List Act} {asked : List Question} {told : List Failure}

/-- An acquisition of a full pool waits, or it gives up. -/
theorem acquires_of_full {world : World} (hid : id < world.pools.length) (hfree : pool.free = [])
    (hpool : world.pool id = pool.enqueue) :
    Acquires id pool now limit acts (world.awaitSlot id limit now .lend).1
      (world.awaitSlot id limit now .lend).2.question?.toList []
      (world.awaitSlot id limit now .lend).2 := by
  have hempty : (world.pool id).free = [] := by
    rw [hpool]
    exact hfree
  have hawait : (∃ timeout, limit = .within timeout ∧ now + timeout ≤ world.clock ∧
      world.awaitSlot id limit now .lend = world.exhaust id timeout) ∨ _ ∧
        world.awaitSlot id limit now .lend = (world, .pending (.waiting id limit now .lend)) :=
    World.awaitSlot_of_full hempty limit now
  rcases hawait with ⟨timeout, rfl, hpast, hgives⟩ | ⟨-, hwaits⟩
  · have hgiven : (world.exhaust id timeout).1.pool id =
        { pool with timeouts := pool.timeouts + 1 } := by
      rw [← Pool.giveUp_enqueue, ← hpool]
      exact World.pool_modifyPool_self hid
    have hfails : (world.exhaust id timeout).2 =
        .done (.failed (.poolExhausted (world.pool id).maxSize timeout)) := rfl
    rw [hgives, hfails, hpool]
    exact .exhausted hfree rfl hpast hgiven
  · rw [hwaits]
    exact .waiting hfree hpool

/-- An acquisition of a pool with a free slot has it. -/
theorem acquires_of_takes {world : World} {slot : Slot} {rest : List Slot}
    (hfree : pool.free = slot :: rest) (hpool : world.pool id = pool.draw)
    (takes : Takes id pool now .lend slot progress) :
    Acquires id pool now limit acts world progress.question?.toList [] progress := by
  cases takes with
  | vacant => exact .creating hfree hpool .vacant
  | expired entry hexpired => exact .replacing hfree hpool (.expired hexpired)
  | checked entry => exact .validating hfree hpool
  | reused entry => exact .lent hfree

/-- The call of an acquisition. -/
theorem acquires_of_begin (hid : id < start.world.pools.length)
    (hnoted : (start.world.pool id).notedPid = start.world.currentPid id) (patience : Patience) :
    Acquires id (start.world.pool id) start.world.clock patience acts
      (start.world.acquire id patience .lend).1
      (start.world.acquire id patience .lend).2.question?.toList []
      (start.world.acquire id patience .lend).2 := by
  cases hfree : (start.world.pool id).free with
  | nil =>
      have hid' : id < (start.world.modifyPool id Pool.enqueue).pools.length := by
        rwa [World.length_modifyPool]
      rw [World.acquire_of_noted hnoted]
      exact acquires_of_full hid' hfree (World.pool_modifyPool_self hid)
  | cons slot rest =>
      obtain ⟨hpool, takes⟩ := World.acquire_takes hid hnoted hfree patience .lend
      exact acquires_of_takes hfree hpool takes

/-- The resource of a slot that was taken under the present owner has no other holder. -/
theorem holders_of_present_lease {owner : Owner} {resource : ResourceId} (reach : system.Reachable)
    (htask : task ∈ system.tasks) (hholdings : task.holdings = {.lease id owner resource})
    (howner : (system.world.pool id).owner = owner) : system.world.holdersOf resource = 1 := by
  have hlease : Holding.lease id owner resource ∈ task.holdings :=
    hholdings ▸ Multiset.mem_singleton_self _
  obtain ⟨-, rfl, hmaker⟩ : Holding.Fits system.world (.lease id owner resource) :=
    (reachable_fits reach).hand _ (mem_handOf.2 ⟨task, htask, hlease⟩)
  have hgrip : resource ∉ system.scene.gripped :=
    (reachable_dated reach).notMem_gripped hmaker howner
  exact holders_of_leased reach htask hholdings hgrip

/-- An acquisition for its caller goes on. -/
theorem Turn.acquires (turn : system.Turn id event (some task) next progress)
    (reach : system.Reachable) (hslots : pool.slots ≤ pool.maxSize)
    (h : Acquires id pool now limit acts system.world asked told (.pending task)) :
    let act : Act := ⟨system, some task, event, next, progress⟩
    Acquires id pool now limit (acts ++ [act]) next.world (asked ++ act.question?.toList)
      (told ++ act.notCreated?.toList) progress := by
  intro act
  have hid : id < system.world.pools.length := turn.lt reach
  have hmem : task ∈ system.tasks := turn.mem_before
  have hact : act ∈ acts ++ [act] := List.mem_concat_self
  have hjournal : ∀ resource, .destroyed resource ∈ system.world.journal →
      .destroyed resource ∈ next.world.journal := fun resource hgone =>
    (lasting_journal (.destroyed resource)).step? (reachable_fits reach) hgone turn.step?
  have hnext := turn.resumes_or_wakes
  cases h with
  | waiting hfree hpool =>
      rcases hnext with ⟨_, _, _, _, h, -⟩ | ⟨place, result, rfl, h, hnext, rfl⟩
      · cases h
      · cases h
        rw [hnext]
        exact acquires_of_full hid hfree hpool
  | @validating entry rest hfree hpool =>
      rcases hnext with ⟨place, reply, result, rfl, h, hnext, rfl⟩ | ⟨_, _, _, h, -⟩
      · cases reply with
        | created | notCreated | closed | worked | broke => cases h
        | valid isValid =>
            cases h
            cases isValid with
            | true => exact .lent hfree
            | false =>
                have hkept : next.world.pool id = pool.draw := by
                  rw [hnext]
                  exact hpool
                exact .replacing hfree hkept (.invalid hact rfl)
      · cases h
  | @replacing entry rest checks hfree hpool rejects =>
      rcases hnext with ⟨place, reply, result, rfl, h, hnext, rfl⟩ | ⟨_, _, _, h, -⟩
      · cases reply with
        | created | notCreated | valid | worked | broke => cases h
        | closed failure =>
            cases h
            have hkept : next.world.pool id = pool.draw := by
              rw [hnext, World.replaced, World.pool_congr World.letGo_pools,
                World.pool_congr World.noteClose_pools]
              exact hpool
            have howner : (system.world.pool id).owner = pool.owner := by
              rw [hpool]
              rfl
            have hlast : system.world.holdersOf entry.resource = 1 :=
              holders_of_present_lease reach hmem rfl howner
            have hgone : .destroyed entry.resource ∈ next.world.journal := by
              rw [hnext]
              exact World.destroyed_letGo_noteClose hlast failure
            exact .creating hfree hkept (.idle (rejects.mono act) hgone)
      · cases h
  | @creating slot rest earlier hfree hpool clears =>
      rcases hnext with ⟨place, reply, result, rfl, h, hnext, rfl⟩ | ⟨_, _, _, h, -⟩
      · cases reply with
        | closed | valid | worked | broke => cases h
        | created kind =>
            cases h
            exact .lent hfree
        | notCreated failure =>
            cases h
            have hcounted : pool.countFailure.free = slot :: rest := hfree
            have hback : next.world.pool id = { pool with
                creationFailures := pool.creationFailures + 1, free := .vacant :: rest } := by
              rw [hnext, World.pool_notCreated hid, hpool]
              exact @Pool.restoreVacant_draw pool.countFailure slot rest hslots hcounted
            have hasked : earlier ++ [.create id] ++ act.question?.toList =
                earlier ++ [.create id] := List.append_nil _
            rw [hasked]
            exact .notCreated hfree (clears.mono act hjournal) hback
      · cases h

theorem Story.acquires {patience : Option Patience}
    (story : Story (Spares id) start id (.acquire patience) events final progress acts)
    (reach : start.Reachable)
    (hnoted : (start.world.pool id).notedPid = start.world.currentPid id) :
    Acquires id (start.world.pool id) start.world.clock
      (patience.getD (start.world.usualPatience id)) acts final.world
      (acts.filterMap Act.question?) (acts.filterMap Act.notCreated?) progress := by
  have hid : id < start.world.pools.length := story.lt_start reach
  have hslots : (start.world.pool id).slots ≤ (start.world.pool id).maxSize :=
    (reach.balanced hid).slots_le
  induction story with
  | @begins next progress turn =>
      obtain ⟨hnext, rfl⟩ := Prod.mk.inj turn.eq_begin
      rw [hnext, filterMap_singleton, filterMap_singleton]
      exact acquires_of_begin hid hnoted _
  | @waits events middle task event next acts before spares hstep hstays ih =>
      have hreach := before.reachable reach
      have spared := spares.step? hreach hstep
      refine ih.of_pool_eq spared.pool_eq fun resource hgone => ?_
      exact (lasting_journal (.destroyed resource)).step? (reachable_fits hreach) hgone hstep
  | @goesOn events middle task event next progress acts before turn ih =>
      rw [filterMap_concat, filterMap_concat]
      exact turn.acquires (before.reachable reach) hslots ih

/-- An acquisition goes on with an answer, or at the end of its patience. -/
theorem canGoOn_of_acquires {world : World} (system : System)
    (h : Acquires id pool now limit acts world asked told (.pending task))
    (hends : limit ≠ .forever ∨ pool.free ≠ []) : system.CanGoOn id task := by
  cases h with
  | waiting hfree =>
      cases limit with
      | within timeout => exact canGoOn_of_isSome system rfl (.inr rfl)
      | forever => exact absurd hfree (hends.resolve_left fun h => h rfl)
  | validating | replacing | creating => exact canGoOn_of_isSome system rfl (.inl rfl)

/-- What lies idle was not destroyed. -/
theorem destructions_of_idle {resource : ResourceId} (reach : system.Reachable)
    (hid : id < system.world.pools.length) (hidle : resource ∈ (system.world.pool id).idle) :
    system.world.destructions resource = 0 := by
  have kept : World.Kept system.world system.scene.owned system.scene.gripped :=
    reachable_kept reach
  have hmem : resource ∈ system.world.idle :=
    World.mem_idle.2 ⟨_, List.mem_of_getElem? (World.getElem?_pools hid), hidle⟩
  have halive : system.world.isAlive resource = true :=
    kept.isAlive_iff_placed.2 (.inl (Multiset.mem_add.2 (.inl hmem)))
  exact kept.destructions_eq_zero (World.isAlive_iff.1 halive)

/-- An acquisition for its caller after any story of its call. -/
structure Acquisition (start : System) (id : PoolId) (limit : Patience) (final : System)
    (progress : Progress) (acts : List Act) : Prop where
  /-- It fails for want of a slot exactly if the pool was full. -/
  exhausted_iff : ∀ outcome, progress = .done outcome →
    ((start.world.pool id).stats.isFull = true ↔ acts.filterMap Act.notCreated? = [] ∧
      ∃ timeout, outcome = .failed (.poolExhausted (start.world.pool id).maxSize timeout))
  /-- Then it has waited for as long as it was told and asked for nothing, and it was counted. -/
  exhausted : (start.world.pool id).stats.isFull = true → ∀ outcome, progress = .done outcome →
    ∃ timeout, limit = .within timeout ∧ start.world.clock + timeout ≤ final.world.clock ∧
      outcome = .failed (.poolExhausted (start.world.pool id).maxSize timeout) ∧
      acts.filterMap Act.question? = [] ∧
      final.world.pool id =
        { start.world.pool id with timeouts := (start.world.pool id).timeouts + 1 }
  /-- Else only the factory makes it fail, and it fails with what the factory says. -/
  failed : (start.world.pool id).stats.isFull = false →
    ∀ failure, progress = .done (.failed failure) ↔ acts.filterMap Act.notCreated? = [failure]
  /-- Then the failure was counted, and the top slot is vacant and all below it as before. -/
  restored : ∀ failure ∈ acts.filterMap Act.notCreated?, ∃ slot rest,
    (start.world.pool id).free = slot :: rest ∧
      final.world.pool id = { start.world.pool id with
        creationFailures := (start.world.pool id).creationFailures + 1, free := .vacant :: rest }
  /-- An idle resource that was in the slot was past a limit or invalid. It was closed once and
  destroyed. -/
  replaced : ∀ failure ∈ acts.filterMap Act.notCreated?, ∀ entry rest,
    (start.world.pool id).free = .idle entry :: rest →
      ((start.world.pool id).isExpired start.world.clock entry = true ∨
        ∃ act ∈ acts, ∃ place, act.event = .reply place (.valid false)) ∧
      (acts.filterMap Act.question?).count (.close id entry.resource) = 1 ∧
      start.world.destructions entry.resource = 0 ∧ final.world.destructions entry.resource = 1
  /-- It does not stop before it ends, unless it waits for ever. -/
  goesOn : ∀ task, progress = .pending task → limit ≠ .forever ∨
    (start.world.pool id).stats.isFull = false → final.CanGoOn id task

theorem Story.acquisition {patience : Option Patience}
    (story : Story (Spares id) start id (.acquire patience) events final progress acts)
    (reach : start.Reachable)
    (hnoted : (start.world.pool id).notedPid = start.world.currentPid id) :
    Acquisition start id (patience.getD (start.world.usualPatience id)) final progress acts := by
  have hid : id < start.world.pools.length := story.lt_start reach
  have hfull : (start.world.pool id).stats.isFull = true ↔ (start.world.pool id).free = [] :=
    Pool.isFull_iff (reach.balanced hid).slots_le
  have hroom : (start.world.pool id).stats.isFull = false → (start.world.pool id).free ≠ [] := by
    intro hfalse hfree
    rw [hfull.2 hfree] at hfalse
    cases hfalse
  have acquires := story.acquires reach hnoted
  have kept : World.Kept final.world final.scene.owned final.scene.gripped :=
    reachable_kept (story.reachable reach)
  refine ⟨?_, ?_, ?_, ?_, ?_, ?_⟩
  · rintro outcome rfl
    rw [hfull]
    exact acquires.exhausted_iff
  · rintro hisFull outcome rfl
    exact acquires.exhausted_of_full (hfull.1 hisFull)
  · intro hfalse failure
    exact acquires.failed_iff (hroom hfalse)
  · intro failure hmem
    obtain ⟨slot, rest, -, hfree, hpool, -⟩ := acquires.restored hmem
    exact ⟨slot, rest, hfree, hpool⟩
  · intro failure hmem entry rest hfree
    obtain ⟨slot, _, earlier, hsome, -, clears, hasked⟩ := acquires.restored hmem
    obtain ⟨rfl, -⟩ := List.cons.inj (hfree.symm.trans hsome)
    have hidle : entry.resource ∈ (start.world.pool id).idle := by
      rw [Pool.idle, hfree, idleFromBottom_cons_idle]
      exact Multiset.mem_coe.2 List.mem_concat_self
    rw [hasked]
    refine ⟨?_, clears.count_close, destructions_of_idle reach hid hidle, ?_⟩
    · cases clears with
      | idle rejects hgone =>
          cases rejects with
          | expired hexpired => exact .inl hexpired
          | invalid hact hevent => exact .inr ⟨_, hact, _, hevent⟩
    · cases clears with
      | idle rejects hgone => exact kept.destructions_eq_one hgone
  · rintro task rfl hends
    exact canGoOn_of_acquires final acquires (hends.imp_right hroom)

/-- Failed acquisitions leave their pool as it was. An acquisition of a pool that runs in the
process it knows, while nothing else happens to the pool: it fails for want of a slot exactly if the
pool is full, and only a counter changes; if the factory fails, the call fails with the same
failure, which is counted, and the slot is vacant again. -/
theorem failed_acquisition_restores (reach : start.Reachable) (hid : id < start.world.pools.length)
    (hnoted : (start.world.pool id).notedPid = start.world.currentPid id)
    (patience : Option Patience) :
    (∃ next progress, start.Turn id (.call id (.acquire patience)) none next progress) ∧
    ∀ events final progress acts,
      Story (Spares id) start id (.acquire patience) events final progress acts →
        Acquisition start id (patience.getD (start.world.usualPatience id)) final progress
          acts := by
  constructor
  · exact ⟨_, _, turn_of_call (.acquire patience) hid rfl⟩
  · intro events final progress acts story
    exact story.acquisition reach hnoted

/-- The top slot has an idle resource that is past its lifetime. -/
theorem failed_acquisition_restores_expired : ∃ system,
    (init [7] [(0, { Config.ofSize 2 with maxLifetime := some 10 })]).run?
        [.call 0 (.acquire none), .reply 0 (.created "db"),
          .call 0 (.release ⟨0, ⟨0, 7, 0⟩, 0⟩), .advance (Duration.ofMillis 20)] = some system ∧
      (∃ next progress, system.Turn 0 (.call 0 (.acquire none)) none next progress) ∧
      ∀ events final progress acts,
        Story (Spares 0) system 0 (.acquire none) events final progress acts →
          Acquisition system 0 (system.world.usualPatience 0) final progress acts := by
  refine exists_run? rfl fun system hrun => ?_
  have hid : 0 < system.world.pools.length := by
    cases hrun
    decide
  have hnoted : (system.world.pool 0).notedPid = system.world.currentPid 0 := by
    cases hrun
    rfl
  exact failed_acquisition_restores ⟨_, _, _, hrun⟩ hid hnoted none

end System
end LeasePool
