import LeasePool.Proofs.Exactness
import LeasePool.Proofs.Vetting

/-!
Layers of a free list. What an event does to the free list of a pool is one of four things: slots
go from the top or all become vacant, a released resource is laid on top, a slot comes back vacant,
or an eviction empties slots where they are. So a resource that came back later always lies higher.
Idle resources lie above all vacant slots until a slot comes back vacant onto them, or an eviction
leaves a resource below one that it takes.
-/

namespace LeasePool

/-- Slots were taken from the top, or all that is there is vacant. -/
def Drained (before after : List Slot) : Prop :=
  after <:+ before ∨ ∀ slot ∈ after, slot = .vacant

namespace Drained

variable {before middle after : List Slot} {slot : Slot}

theorem refl (free : List Slot) : Drained free free := .inl List.suffix_rfl

theorem trans (first : Drained before middle) (second : Drained middle after) :
    Drained before after := by
  rcases second with hsuffix | hvacant
  · rcases first with hfirst | hfirst
    · exact .inl (hsuffix.trans hfirst)
    · exact .inr fun slot hmem => hfirst slot (hsuffix.subset hmem)
  · exact .inr hvacant

theorem tail (free : List Slot) : Drained free free.tail := .inl (List.tail_suffix free)

theorem mem (h : Drained before after) {entry : IdleResource} (hmem : .idle entry ∈ after) :
    .idle entry ∈ before := by
  rcases h with hsuffix | hvacant
  · exact hsuffix.subset hmem
  · cases hvacant _ hmem

theorem pairwise {relates : Slot → Slot → Prop} (h : Drained before after)
    (hvacant : relates .vacant .vacant) (hbefore : before.Pairwise relates) :
    after.Pairwise relates := by
  rcases h with hsuffix | hall
  · exact hbefore.sublist hsuffix.sublist
  · rw [List.eq_replicate_of_mem hall]
    exact List.pairwise_replicate.2 (.inr hvacant)

end Drained

namespace World

variable {world middle after : World} {id : PoolId} {owner : Owner} {purpose : Purpose}
  {lease : Lease}

theorem sweepNext_pools (taken rest : List ResourceId) :
    (world.sweepNext id taken rest).1.pools = world.pools := by
  cases rest with
  | cons resource rest => rfl
  | nil =>
      simp only [sweepNext]
      split
      · exact letGoAll_pools
      · exact letGoAll_pools

/-- A look of a pool at its process leaves the pool as it is, or nothing idle in it. -/
theorem checkOwner_eq_or_vacant (hid : id < world.pools.length) :
    (world.checkOwner id).pool id = world.pool id ∨
      ∀ slot ∈ ((world.checkOwner id).pool id).free, slot = .vacant := by
  rw [pool_checkOwner hid]
  split
  · exact .inl rfl
  · exact .inr fun slot hmem => (List.mem_replicate.1 hmem).2

/-- A sweep empties slots of the pool as a look at its process leaves it. -/
theorem free_begin_of_takes? {call : Call} {takes : IdleResource → Bool}
    (hid : id < world.pools.length)
    (hcall : call.takes? ((world.checkOwner id).pool id) world.clock = some takes) :
    ((world.begin id call).1.pool id).free =
      ((world.checkOwner id).pool id).free.map (Slot.cleared takes) := by
  have hid' : id < (world.checkOwner id).pools.length := by rwa [length_checkOwner]
  rw [begin_of_takes? hcall, pool_congr (sweepNext_pools _ _), pool_modifyPool_self hid',
    Pool.free_vacate]

def Drains (id : PoolId) (world after : World) : Prop :=
  Drained (world.pool id).free (after.pool id).free

namespace Drains

theorem of_pools (hpools : after.pools = world.pools) : Drains id world after := by
  rw [Drains, pool_congr hpools]
  exact .refl _

theorem trans (first : Drains id world middle) (second : Drains id middle after) :
    Drains id world after := Drained.trans first second

theorem modifyPool {change : Pool → Pool}
    (h : ∀ pool : Pool, Drained pool.free (change pool).free) :
    Drains id world (world.modifyPool id change) := by
  by_cases hid : id < world.pools.length
  · rw [Drains, pool_modifyPool_self hid]
    exact h _
  · apply of_pools
    exact List.modify_eq_self (Nat.le_of_not_lt hid)

theorem note (notice : Notice) : Drains id world (world.note notice) := of_pools rfl

theorem checkOwner : Drains id world (world.checkOwner id) := by
  by_cases hid : id < world.pools.length
  · rcases checkOwner_eq_or_vacant hid with hsame | hvacant
    · rw [Drains, hsame]
      exact .refl _
    · exact .inr hvacant
  · apply of_pools
    rw [checkOwner_pools]
    exact List.modify_eq_self (Nat.le_of_not_lt hid)

theorem takeSlot (slot : Slot) : Drains id world (world.takeSlot id slot purpose).1 := by
  have htaken : Drains id world (world.afterTake id) := modifyPool fun pool => .tail pool.free
  cases slot with
  | vacant => exact htaken
  | idle entry =>
      simp only [World.takeSlot]
      split
      · exact htaken
      · split
        · exact htaken
        · exact htaken.trans (of_pools (reuse_pools entry))

theorem awaitSlot (patience : Patience) (since : Instant) :
    Drains id world (world.awaitSlot id patience since purpose).1 := by
  unfold World.awaitSlot
  split
  · exact takeSlot _
  · split
    · exact modifyPool fun pool => .refl pool.free
    · exact of_pools rfl
  · exact of_pools rfl

theorem acquire (patience : Patience) : Drains id world (world.acquire id patience purpose).1 := by
  have henqueue : Drains id (world.checkOwner id)
      ((world.checkOwner id).modifyPool id Pool.enqueue) := modifyPool fun pool => .refl pool.free
  exact checkOwner.trans (henqueue.trans (awaitSlot patience _))

theorem validated (entry : IdleResource) (isValid : Bool) :
    Drains id world (world.validated id owner entry purpose isValid).1 := by
  unfold World.validated
  split
  · exact of_pools (reuse_pools entry)
  · exact of_pools rfl

theorem replaced (resource : ResourceId) (failure : Option Failure) :
    Drains id world (world.replaced id owner resource purpose failure).1 :=
  of_pools (letGo_pools.trans noteClose_pools)

theorem created (kind : String) :
    Drains id world (world.created id owner purpose kind).1 := by
  by_cases hid : id < world.pools.length
  · obtain ⟨alive, hpool⟩ := pool_created owner purpose kind hid
    rw [Drains, hpool, Pool.free_enroll]
    exact .refl _
  · apply of_pools
    cases purpose <;> exact List.modify_eq_self (Nat.le_of_not_lt hid)

theorem afterDiscard (sequel : Sequel) : Drains id world (world.afterDiscard id sequel).1 := by
  cases sequel with
  | finish => exact of_pools rfl
  | retry policy retries failure =>
      simp only [World.afterDiscard]
      split
      · exact of_pools rfl
      · split
        · exact (note _).trans (acquire _)
        · exact note _

theorem awaitAttempt (due : Instant) (policy : RetryPolicy) (retries : UInt32) :
    Drains id world (world.awaitAttempt id due policy retries).1 := by
  simp only [World.awaitAttempt]
  split
  · exact acquire _
  · exact of_pools rfl

theorem discard (lease : Lease) (sequel : Sequel) :
    Drains id world (world.discard id lease sequel).1 := by
  have hforget : Drains id world (world.forget lease.resource) := of_pools rfl
  have hdrop : ∀ notice, Drains id world ((world.note notice).letGo lease.resource) :=
    fun notice => of_pools letGo_pools
  simp only [World.discard]
  split
  · exact hforget.trans (afterDiscard sequel)
  · split
    · exact (hdrop _).trans (afterDiscard sequel)
    · exact note _

theorem disconnectNext (free rest : List ResourceId) (closed : Nat) :
    Drains id world (world.disconnectNext id free closed rest).1 := by
  induction rest with
  | nil => exact of_pools letGoAll_pools
  | cons resource rest ih =>
      simp only [World.disconnectNext]
      split
      · exact of_pools rfl
      · exact ih

theorem disconnectAll : Drains id world (world.disconnectAll id).1 := by
  have htear : Drains id (world.checkOwner id)
      ((world.checkOwner id).modifyPool id Pool.tearDown) :=
    modifyPool fun pool => .inl List.nil_suffix
  exact checkOwner.trans (htear.trans (disconnectNext _ _ _))

theorem invalidate : Drains id world (world.invalidate id) := by
  have hreset : Drains id world (world.modifyPool id fun pool =>
      pool.reset pool.owner.nextEpoch false) :=
    modifyPool fun pool => .inr fun slot hmem => (List.mem_replicate.1 hmem).2
  exact hreset.trans (of_pools invalidate_pools)

theorem wake {task : Task} {result : World × Progress} (h : world.wake task = some result) :
    Drains task.pool world result.1 := by
  unfold World.wake at h
  split at h <;> cases h
  · exact awaitSlot _ _
  · exact awaitAttempt _ _ _

end Drains
end World

namespace System

/-- The slot of a lease of `owner` comes back without a resource: with a lease that the pool's owner
did not issue, after a failure of the factory, or after a discard. -/
inductive ReturnsVacant (system : System) (id : PoolId) (owner : Owner) : Event → Prop where
  | late {event : Event} {lease : Lease} (hagent : system.agent? event = some id)
      (hreleased : system.released? event = some lease) (howner : lease.owner = owner)
      (hlate : owner ≠ (system.world.pool id).owner) : ReturnsVacant system id owner event
  | notMade {place : Nat} {failure : Failure} {purpose : Purpose}
      (htask : system.tasks[place]? = some (.creating id owner purpose)) :
      ReturnsVacant system id owner (.reply place (.notCreated failure))
  | discarded {place : Nat} {failure : Option Failure} {resource : ResourceId} {sequel : Sequel}
      (htask : system.tasks[place]? = some (.discarding id owner resource sequel)) :
      ReturnsVacant system id owner (.reply place (.closed failure))

/-- What an event does to the free list of a pool. -/
inductive Restacks (system : System) (id : PoolId) (event : Event) (after : World) : Prop where
  | drains (h : World.Drains id system.world after)
  | shelves {rest : List Slot} {lease : Lease} (hreleased : system.released? event = some lease)
      (hrest : Drained (system.world.pool id).free rest)
      (hafter : (after.pool id).free = .idle (lease.asIdle system.world.clock) :: rest)
  | refills {owner : Owner} (hreturns : system.ReturnsVacant id owner event)
      (hcounts : owner = (system.world.pool id).owner ∨ (system.world.pool id).HoldsSlot owner)
      (h : Drained (.vacant :: (system.world.pool id).free) (after.pool id).free)
  | evicts (hevent : event = .call id .evictExpired)
      (hafter : (after.pool id).free = (system.world.pool id).free.map
        (Slot.cleared ((system.world.pool id).isExpired system.world.clock)))

variable {system next : System} {id : PoolId} {event : Event} {task? : Option Task}
  {progress : Progress} {lease : Lease}

/-- A pool takes back a lease after a look at its process. -/
theorem restacks_of_released {checked : Pool} {after : World}
    (hagent : system.agent? event = some id) (hreleased : system.released? event = some lease)
    (hchecked : checked = system.world.pool id ∨ ∀ slot ∈ checked.free, slot = .vacant)
    (h : checked.TakesBack lease.owner (.idle (lease.asIdle system.world.clock)) (after.pool id)) :
    system.Restacks id event after := by
  have hdrained : Drained (system.world.pool id).free checked.free := by
    rcases hchecked with rfl | hvacant
    · exact .refl _
    · exact .inr hvacant
  by_cases howner : lease.owner = checked.owner
  · obtain ⟨-, -, hfree, -⟩ := h.current howner
    exact .shelves hreleased hdrained hfree
  · by_cases hholds : checked.HoldsSlot lease.owner
    · obtain ⟨-, -, hfree, -⟩ := h.stale hholds
      rcases hchecked with rfl | hvacant
      · refine .refills (.late hagent hreleased rfl howner) (.inr hholds) ?_
        rw [hfree]
        exact .refl _
      · refine .drains (.inr ?_)
        rw [hfree]
        exact List.forall_mem_cons.2 ⟨rfl, hvacant⟩
    · obtain ⟨hfree, -⟩ := h.other howner hholds
      refine .drains ?_
      rw [World.Drains, hfree]
      exact hdrained

/-- A slot comes back vacant before the operation goes on. -/
theorem restacks_of_vacant {owner : Owner} {middle after : World}
    (hreturns : system.ReturnsVacant id owner event)
    (h : (system.world.pool id).TakesBack owner .vacant (middle.pool id))
    (hdrains : World.Drains id middle after) : system.Restacks id event after := by
  by_cases howner : owner = (system.world.pool id).owner
  · obtain ⟨-, -, hfree, -⟩ := h.current howner
    exact .refills hreturns (.inl howner) (hfree ▸ hdrains)
  · by_cases hholds : (system.world.pool id).HoldsSlot owner
    · obtain ⟨-, -, hfree, -⟩ := h.stale hholds
      exact .refills hreturns (.inr hholds) (hfree ▸ hdrains)
    · obtain ⟨hfree, -⟩ := h.other howner hholds
      apply Restacks.drains
      rw [World.Drains, ← hfree]
      exact hdrains

theorem restacks_begin {call : Call} (reach : system.Reachable)
    (hid : id < system.world.pools.length)
    (hheld : ∀ lease, call.lease? = some lease → lease ∈ system.world.held) :
    system.Restacks id (.call id call) (system.world.begin id call).1 := by
  have hpart : ∀ lease, World.Drains id system.world (system.world.part lease) :=
    fun lease => .of_pools rfl
  cases call with
  | acquire | run => exact .drains (.acquire _)
  | release lease =>
      have htakes := takesBack_release_of_held reach hid (hheld lease rfl)
      have hchecked : ((system.world.part lease).checkOwner id).pool id = system.world.pool id ∨
          ∀ slot ∈ (((system.world.part lease).checkOwner id).pool id).free, slot = .vacant :=
        @World.checkOwner_eq_or_vacant (system.world.part lease) id hid
      refine restacks_of_released rfl rfl hchecked ?_
      have hclock : ((system.world.part lease).checkOwner id).clock = system.world.clock :=
        World.checkOwner_clock
      rw [← hclock]
      exact htakes
  | discard lease => exact .drains ((hpart lease).trans (.discard lease .finish))
  | disconnectAll => exact .drains .disconnectAll
  | invalidate => exact .drains .invalidate
  | closeIdle =>
      have hfree : ((system.world.begin id .closeIdle).1.pool id).free = _ :=
        World.free_begin_of_takes? hid rfl
      refine .drains (.inr fun slot hmem => ?_)
      rw [hfree] at hmem
      obtain ⟨old, -, rfl⟩ := List.mem_map.1 hmem
      cases old <;> rfl
  | evictExpired =>
      have hfree : ((system.world.begin id .evictExpired).1.pool id).free = _ :=
        World.free_begin_of_takes? hid rfl
      rcases World.checkOwner_eq_or_vacant hid with hsame | hvacant
      · rw [hsame] at hfree
        exact .evicts rfl hfree
      · refine .drains (.inr fun slot hmem => ?_)
        rw [hfree] at hmem
        obtain ⟨old, hold, rfl⟩ := List.mem_map.1 hmem
        rw [hvacant old hold]
        rfl

theorem restacks_resume {place : Nat} {task : Task} {reply : Reply} {result : World × Progress}
    (reach : system.Reachable) (htask : system.tasks[place]? = some task)
    (hid : task.pool < system.world.pools.length)
    (hresume : system.world.resume task reply = some result) :
    system.Restacks task.pool (.reply place reply) result.1 := by
  have hmem : task ∈ system.tasks := List.mem_of_getElem? htask
  have hreleased : system.released? (.reply place reply) = task.released? reply := by
    rw [released?, htask, Option.bind_some]
  have hagent : system.agent? (.reply place reply) = some task.pool := by
    rw [agent?, htask, Option.map_some]
  have hreleases : ∀ id lease policy retries, task = .working id lease policy retries →
      task.released? reply = some lease →
      system.Restacks id (.reply place reply) (system.world.release id lease) := by
    rintro id lease policy retries rfl hlease
    have htakes := takesBack_release_of_working reach hid hmem
    rw [World.checkOwner_clock] at htakes
    exact restacks_of_released hagent (hreleased.trans hlease)
      (World.checkOwner_eq_or_vacant hid) htakes
  unfold World.resume at hresume
  split at hresume <;> cases hresume
  · exact .drains (.validated _ _)
  · exact .drains (.replaced _ _)
  · exact .drains (.created _)
  · next id owner purpose failure =>
    exact restacks_of_vacant (.notMade htask) (takesBack_notCreated reach hid hmem failure)
      (.of_pools rfl)
  · exact hreleases _ _ _ _ rfl rfl
  · next id lease policy retries failure =>
    by_cases hdiscard : policy.shouldDiscard failure = true
    · simp only [World.broke, if_pos hdiscard]
      exact .drains (.discard lease _)
    · have hlease : (Task.working id lease policy retries).released? (.broke failure) =
          some lease := if_neg hdiscard
      simp only [World.broke, if_neg hdiscard]
      exact hreleases _ _ _ _ rfl hlease
  · next id owner resource sequel failure =>
    exact restacks_of_vacant (.discarded htask) (takesBack_discarded reach hid hmem failure)
      (.afterDiscard sequel)
  · exact .drains ((World.Drains.of_pools (World.letGo_pools.trans World.noteClose_pools)).trans
      (.disconnectNext _ _ _))
  · exact .drains (.of_pools ((World.sweepNext_pools _ _).trans World.noteClose_pools))

/-- The cases of an event for the free list of a pool. -/
theorem step?_restacks (reach : system.Reachable) (hid : id < system.world.pools.length)
    (hstep : system.step? event = some next) :
    system.Restacks id event next.world := by
  by_cases hagent : system.agent? event = some id
  · obtain ⟨task?, progress, turn⟩ := exists_turn hagent hstep
    cases turn with
    | @call _ call result hcall =>
        obtain ⟨-, hheld, hnext⟩ := of_call hstep
        rw [hnext, world_settle]
        exact restacks_begin reach hid hheld
    | reply htask hresume =>
        rw [world_settle]
        exact restacks_resume reach htask hid hresume
    | wake htask hwake =>
        rw [world_settle]
        exact .drains (.wake hwake)
  · apply Restacks.drains
    rw [World.Drains, step?_pool_of_ne reach hstep hagent]
    exact .refl _

end System

/-- No idle resource lies below a vacant slot. -/
def Layered (free : List Slot) : Prop :=
  free.Pairwise fun upper lower => upper = .vacant → lower = .vacant

/-- What came back later lies higher. -/
def Recent (free : List Slot) : Prop :=
  free.Pairwise fun upper lower => ∀ first second,
    upper = .idle first → lower = .idle second → second.idleSince ≤ first.idleSince

section Orders

variable {free rest : List Slot} {entry : IdleResource} {pool : Pool} {now : Instant}

/-- In a layered list an idle resource is on top, if there is one at all. -/
theorem Layered.exists_top (h : Layered free) (hmem : .idle entry ∈ free) :
    ∃ top rest, free = .idle top :: rest := by
  cases free with
  | nil => cases hmem
  | cons slot rest =>
      cases slot with
      | idle top => exact ⟨top, rest, rfl⟩
      | vacant =>
          rcases List.mem_cons.1 hmem with heq | hrest
          · cases heq
          · cases (List.pairwise_cons.1 h).1 _ hrest rfl

/-- The resource on top came back last. -/
theorem Recent.idleSince_le {top : IdleResource} (h : Recent (.idle top :: rest))
    (hmem : .idle entry ∈ .idle top :: rest) : entry.idleSince ≤ top.idleSince := by
  rcases List.mem_cons.1 hmem with heq | hrest
  · cases heq
    exact Nat.le_refl _
  · exact (List.pairwise_cons.1 h).1 _ hrest top entry rfl rfl

theorem layered_of_vacant (h : ∀ slot ∈ free, slot = .vacant) : Layered free := by
  rw [Layered, List.eq_replicate_of_mem h]
  exact List.pairwise_replicate.2 (.inr fun _ => rfl)

theorem recent_of_vacant (h : ∀ slot ∈ free, slot = .vacant) : Recent free := by
  rw [Recent, List.eq_replicate_of_mem h]
  refine List.pairwise_replicate.2 (.inr ?_)
  rintro first second ⟨⟩

theorem Drained.layered {after : List Slot} (h : Drained free after) (hlayered : Layered free) :
    Layered after :=
  h.pairwise (fun _ => rfl) hlayered

theorem Drained.recent {after : List Slot} (h : Drained free after) (hrecent : Recent free) :
    Recent after := by
  refine h.pairwise ?_ hrecent
  rintro first second ⟨⟩

theorem Slot.eq_of_cleared_eq_idle {takes : IdleResource → Bool} {slot : Slot}
    (h : slot.cleared takes = .idle entry) : slot = .idle entry := by
  unfold cleared at h
  split at h
  · cases h
  · exact h

/-- Of two resources without a lifetime, the one that came back later does not expire first. -/
theorem Pool.isExpired_of_le {upper lower : IdleResource} (hnone : pool.config.maxLifetime = none)
    (hle : lower.idleSince ≤ upper.idleSince) (h : pool.isExpired now upper = true) :
    pool.isExpired now lower = true := by
  have hage : now - upper.idleSince ≤ now - lower.idleSince := Nat.sub_le_sub_left hle now
  unfold isExpired at h ⊢
  rw [hnone, reached, Bool.or_false] at h ⊢
  cases hlimit : pool.config.idleTimeout with
  | none =>
      rw [hlimit] at h
      cases h
  | some ms =>
      rw [hlimit, reached, decide_eq_true_eq] at h
      exact decide_eq_true (Nat.le_trans h hage)

end Orders

namespace System

/-- An event leaves an idle resource below a vacant slot: a slot that the pool counts comes back
vacant onto it, or an eviction takes a resource above it. -/
inductive Buries (system : System) (id : PoolId) (event : Event) : Prop where
  | refills {owner : Owner} {entry : IdleResource} (hreturns : system.ReturnsVacant id owner event)
      (hcounts : owner = (system.world.pool id).owner ∨ (system.world.pool id).HoldsSlot owner)
      (hidle : .idle entry ∈ (system.world.pool id).free)
  | evicts {upper lower : IdleResource} (hevent : event = .call id .evictExpired)
      (hbelow : [.idle upper, .idle lower].Sublist (system.world.pool id).free)
      (hexpired : (system.world.pool id).isExpired system.world.clock upper = true)
      (hfresh : (system.world.pool id).isExpired system.world.clock lower = false)

variable {system : System} {id : PoolId} {event : Event} {events : List Event} {after : World}
  {pids : List Pid} {pools : List (ProcessId × Config)} {process : ProcessId}
  {config : Config}

theorem not_buries_of_vacant (h : ∀ slot ∈ (system.world.pool id).free, slot = .vacant) :
    ¬ system.Buries id event := by
  rintro (⟨-, -, hidle⟩ | ⟨-, hbelow, -, -⟩)
  · cases h _ hidle
  · cases h _ (hbelow.subset List.mem_cons_self)

/-- A lease of the present owner comes back with its resource. -/
theorem not_buries_release {lease : Lease} (howner : lease.owner = (system.world.pool id).owner) :
    ¬ system.Buries id (.call id (.release lease)) := by
  rintro (⟨hreturns, -, -⟩ | ⟨⟨⟩, -, -, -⟩)
  cases hreturns with
  | late _ hreleased hsame hlate =>
      cases hreleased
      exact hlate (hsame.symm.trans howner)

theorem Restacks.recent (h : system.Restacks id event after)
    (hpast : ∀ entry, .idle entry ∈ (system.world.pool id).free →
      entry.idleSince ≤ system.world.clock) (hrecent : Recent (system.world.pool id).free) :
    Recent (after.pool id).free := by
  cases h with
  | drains h => exact h.recent hrecent
  | shelves _ hrest hafter =>
      rw [hafter]
      refine List.pairwise_cons.2 ⟨?_, hrest.recent hrecent⟩
      rintro _ hmem first second ⟨⟩ rfl
      exact hpast second (hrest.mem hmem)
  | refills _ _ h =>
      refine h.recent (List.pairwise_cons.2 ⟨?_, hrecent⟩)
      rintro _ - first second ⟨⟩
  | evicts _ hafter =>
      rw [hafter]
      refine List.pairwise_map.2 (hrecent.imp fun hpair first second hfirst hsecond => ?_)
      exact hpair first second (Slot.eq_of_cleared_eq_idle hfirst)
        (Slot.eq_of_cleared_eq_idle hsecond)

theorem Restacks.layered (h : system.Restacks id event after) (hburies : ¬ system.Buries id event)
    (hlayered : Layered (system.world.pool id).free) : Layered (after.pool id).free := by
  cases h with
  | drains h => exact h.layered hlayered
  | shelves _ hrest hafter =>
      rw [hafter]
      refine List.pairwise_cons.2 ⟨?_, hrest.layered hlayered⟩
      rintro _ - ⟨⟩
  | refills hreturns hcounts h =>
      refine h.layered (layered_of_vacant (List.forall_mem_cons.2 ⟨rfl, fun slot hmem => ?_⟩))
      cases slot with
      | vacant => rfl
      | idle entry => exact absurd (.refills hreturns hcounts hmem) hburies
  | evicts hevent hafter =>
      rw [hafter]
      refine List.pairwise_map.2 (List.pairwise_iff_forall_sublist.2 fun {upper lower} hbelow => ?_)
      intro hcleared
      cases lower with
      | vacant => rfl
      | idle lower =>
          cases upper with
          | vacant => cases List.pairwise_iff_forall_sublist.1 hlayered hbelow rfl
          | idle upper =>
              have hexpired : (system.world.pool id).isExpired system.world.clock upper = true := by
                by_contra hkept
                have hsame : Slot.cleared ((system.world.pool id).isExpired system.world.clock)
                    (.idle upper) = .idle upper := if_neg hkept
                cases hsame.symm.trans hcleared
              have hgone : (system.world.pool id).isExpired system.world.clock lower = true := by
                by_contra hkept
                exact hburies (.evicts hevent hbelow hexpired (Bool.eq_false_of_not_eq_true hkept))
              exact if_pos hgone

/-- In every free list, what came back later lies higher. -/
theorem reachable_recent (reach : system.Reachable) (hid : id < system.world.pools.length) :
    Recent (system.world.pool id).free := by
  obtain ⟨pids, pools, events, hrun⟩ := reach
  have hinit : (init pids pools).Reachable := ⟨pids, pools, [], rfl⟩
  induction events using List.reverseRecOn generalizing system with
  | nil =>
      cases hrun
      obtain ⟨config, process, hpool⟩ := init_each_pool pids pools id _ (World.getElem?_pools hid)
      rw [hpool]
      exact recent_of_vacant fun slot hmem => (List.mem_replicate.1 hmem).2
  | append_singleton events event ih =>
      obtain ⟨middle, hmiddle, hstep⟩ :=
        Option.bind_eq_some_iff.1 ((run?_concat _ events event).symm.trans hrun)
      have hreach : middle.Reachable := hinit.run? hmiddle
      have hid' : id < middle.world.pools.length := by
        rwa [← step?_length_pools (reachable_fits hreach) hstep]
      refine (step?_restacks hreach hid' hstep).recent (fun entry hmem => ?_) (ih hid' hmiddle)
      have hrecorded := run?_recorded hmiddle
      exact hrecorded.released_le _ _ (hrecorded.idle id hid' entry hmem).2

/-- A free list stays layered in a run in which nothing is buried. -/
theorem run?_layered (hpool : pools[id]? = some (process, config))
    (hrun : (init pids pools).run? events = some system)
    (hnever : (init pids pools).Throughout (fun middle event => ¬ middle.Buries id event) events) :
    Layered (system.world.pool id).free := by
  have hinit : (init pids pools).Reachable := ⟨pids, pools, [], rfl⟩
  obtain ⟨hid, hnew⟩ := init_pool pids hpool
  induction events using List.reverseRecOn generalizing system with
  | nil =>
      cases hrun
      rw [hnew]
      exact layered_of_vacant fun slot hmem => (List.mem_replicate.1 hmem).2
  | append_singleton events event ih =>
      obtain ⟨middle, hmiddle, hstep⟩ :=
        Option.bind_eq_some_iff.1 ((run?_concat _ events event).symm.trans hrun)
      obtain ⟨hbefore, hlast⟩ := hnever.of_concat hmiddle
      exact (step?_restacks (hinit.run? hmiddle) (hinit.lt_of_run? hid hmiddle) hstep).layered hlast
        (ih hmiddle hbefore)

end System
end LeasePool
