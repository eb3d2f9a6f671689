import LeasePool.System
import Mathlib.Data.Multiset.Count

/-!
What the changes of a world do to the parts of it that invariants speak of: each pool at its place,
who made a resource, how many hold it, and whether it was forgotten. Proofs about runs read the
changes off here and do not open them again.
-/

namespace LeasePool.World

variable {world : World} {id other : PoolId} {resource : ResourceId}

def EachPool (world : World) (holds : PoolId → Pool → Prop) : Prop :=
  ∀ id pool, world.pools[id]? = some pool → holds id pool

theorem getElem?_pools (h : id < world.pools.length) :
    world.pools[id]? = some (world.pool id) := by
  simp [pool, List.getD_eq_getElem?_getD, List.getElem?_eq_getElem h]

theorem EachPool.pool {holds : PoolId → Pool → Prop} (h : world.EachPool holds)
    (hid : id < world.pools.length) : holds id (world.pool id) :=
  h id _ (getElem?_pools hid)

@[simp] theorem length_modifyPool {change : Pool → Pool} :
    (world.modifyPool id change).pools.length = world.pools.length := by
  simp [modifyPool]

theorem pool_modifyPool_self {change : Pool → Pool} (h : id < world.pools.length) :
    (world.modifyPool id change).pool id = change (world.pool id) := by
  simp [modifyPool, pool, h]

theorem pool_modifyPool_of_ne {change : Pool → Pool} (h : other ≠ id) :
    (world.modifyPool id change).pool other = world.pool other := by
  simp [modifyPool, pool, List.getD_eq_getElem?_getD, List.getElem?_modify_ne _ _ h.symm]

/-- What a change leaves alone in all pools stays. -/
theorem view_modifyPool {β : Type} (view : Pool → β) {change : Pool → Pool}
    (h : ∀ pool, view (change pool) = view pool) :
    view ((world.modifyPool id change).pool other) = view (world.pool other) := by
  by_cases hother : other = id
  · subst hother
    by_cases hid : other < world.pools.length
    · rw [pool_modifyPool_self hid, h]
    · rw [modifyPool, List.modify_eq_self (Nat.le_of_not_lt hid)]
  · rw [pool_modifyPool_of_ne hother]

/-- A property of every pool outlives a change that keeps it at its place and does not depend on
what else changed at the others. -/
theorem EachPool.modify {holds after : PoolId → Pool → Prop} {change : Pool → Pool}
    (h : world.EachPool holds)
    (hself : ∀ pool, world.pools[id]? = some pool → holds id pool → after id (change pool))
    (hother : ∀ other pool, other ≠ id → holds other pool → after other pool) :
    (world.modifyPool id change).EachPool after := by
  intro other pool hpool
  by_cases heq : other = id
  · subst heq
    rw [modifyPool, List.getElem?_modify_eq] at hpool
    obtain ⟨old, hold, rfl⟩ := Option.map_eq_some_iff.1 hpool
    exact hself old hold (h other old hold)
  · rw [modifyPool, List.getElem?_modify_ne _ _ (Ne.symm heq)] at hpool
    exact hother other pool heq (h other pool hpool)

/-- Changes that agree on the pool they change agree. -/
theorem modifyPool_congr {first second : Pool → Pool}
    (h : first (world.pool id) = second (world.pool id)) :
    world.modifyPool id first = world.modifyPool id second := by
  unfold modifyPool
  congr 1
  apply List.ext_getElem?
  intro n
  rw [List.getElem?_modify, List.getElem?_modify]
  by_cases hn : id = n
  · subst hn
    cases hpool : world.pools[id]? with
    | none => rfl
    | some old =>
        have hold : world.pool id = old := by
          simp [pool, List.getD_eq_getElem?_getD, hpool]
        rw [hold] at h
        simp [h]
  · simp [hn]

theorem modifyPool_eq_self {change : Pool → Pool} (h : change (world.pool id) = world.pool id) :
    world.modifyPool id change = world := by
  have hid : world.modifyPool id change = world.modifyPool id fun pool => pool :=
    modifyPool_congr h
  have hmodify : world.pools.modify id (fun pool => pool) = world.pools := List.modify_id id _
  rw [hid, modifyPool, hmodify]

def makerOf? (world : World) (resource : ResourceId) : Option Owner :=
  world.resources[resource]?.map (·.owner)

/-- How many leases, idle slots and operations hold a resource. -/
def holdersOf (world : World) (resource : ResourceId) : Nat :=
  (world.resources[resource]?.map (·.holders)).getD 0

/-- The resource was given up without letting it go. -/
def isForgotten (world : World) (resource : ResourceId) : Bool :=
  (world.resources[resource]?.map (·.forgotten)).getD false

theorem isAlive_iff : world.isAlive resource = true ↔ 0 < world.holdersOf resource := by
  unfold isAlive holdersOf
  cases world.resources[resource]? <;> simp

theorem lt_of_holdersOf_pos (h : 0 < world.holdersOf resource) :
    resource < world.resources.length := by
  by_contra hle
  simp [holdersOf, List.getElem?_eq_none (Nat.le_of_not_lt hle)] at h

theorem lt_of_makerOf? {owner : Owner} (h : world.makerOf? resource = some owner) :
    resource < world.resources.length := by
  by_contra hle
  simp [makerOf?, List.getElem?_eq_none (Nat.le_of_not_lt hle)] at h

theorem letGo_resources : (world.letGo resource).resources =
    world.resources.modify resource fun entry => { entry with holders := entry.holders - 1 } := by
  unfold letGo
  split
  · next hnone => rw [List.modify_eq_self (List.getElem?_eq_none_iff.1 hnone)]
  · next entry hentry =>
    obtain ⟨hlt, rfl⟩ := List.getElem?_eq_some_iff.1 hentry
    have hset : world.resources.set resource
          { world.resources[resource] with holders := world.resources[resource].holders - 1 } =
        world.resources.modify resource fun entry =>
          { entry with holders := entry.holders - 1 } := by
      apply List.ext_getElem?
      intro n
      by_cases hn : resource = n
      · subst hn
        simp [hlt]
      · simp [hn]
    split <;> exact hset

theorem letGo_journal : (world.letGo resource).journal =
    if world.holdersOf resource = 1 then .destroyed resource :: world.journal
    else world.journal := by
  unfold letGo holdersOf
  cases world.resources[resource]? with
  | none => simp
  | some entry => by_cases h : entry.holders = 1 <;> simp [h, emit]

theorem destroyed_letGo {asked : ResourceId}
    (h : .destroyed asked ∈ (world.letGo resource).journal) :
    .destroyed asked ∈ world.journal ∨ asked = resource := by
  rw [letGo_journal] at h
  split at h
  · rcases List.mem_cons.1 h with heq | hold
    · exact .inr (Signal.destroyed.inj heq)
    · exact .inl hold
  · exact .inl h

@[simp] theorem letGo_pools : (world.letGo resource).pools = world.pools := by
  unfold letGo
  split
  · rfl
  · split <;> rfl

@[simp] theorem letGo_held : (world.letGo resource).held = world.held := by
  unfold letGo
  split
  · rfl
  · split <;> rfl

@[simp] theorem letGo_pids : (world.letGo resource).pids = world.pids := by
  unfold letGo
  split
  · rfl
  · split <;> rfl

@[simp] theorem letGo_clock : (world.letGo resource).clock = world.clock := by
  unfold letGo
  split
  · rfl
  · split <;> rfl

@[simp] theorem length_letGo :
    (world.letGo resource).resources.length = world.resources.length := by
  simp [letGo_resources]

@[simp] theorem makerOf?_letGo {asked : ResourceId} :
    (world.letGo resource).makerOf? asked = world.makerOf? asked := by
  unfold makerOf?
  rw [letGo_resources, List.getElem?_modify]
  by_cases h : resource = asked <;> simp [h, Function.comp_def]

@[simp] theorem isForgotten_letGo {asked : ResourceId} :
    (world.letGo resource).isForgotten asked = world.isForgotten asked := by
  unfold isForgotten
  rw [letGo_resources, List.getElem?_modify]
  by_cases h : resource = asked <;> simp [h, Function.comp_def]

theorem holdersOf_letGo {asked : ResourceId} : (world.letGo resource).holdersOf asked =
    world.holdersOf asked - if asked = resource then 1 else 0 := by
  unfold holdersOf
  rw [letGo_resources, List.getElem?_modify]
  by_cases h : resource = asked
  · subst h
    cases world.resources[resource]? <;> simp
  · simp [h, Ne.symm h]

@[simp] theorem makerOf?_hold {asked : ResourceId} :
    (world.hold resource).makerOf? asked = world.makerOf? asked := by
  unfold makerOf? hold
  rw [List.getElem?_modify]
  by_cases h : resource = asked <;> simp [h, Function.comp_def]

@[simp] theorem isForgotten_hold {asked : ResourceId} :
    (world.hold resource).isForgotten asked = world.isForgotten asked := by
  unfold isForgotten hold
  rw [List.getElem?_modify]
  by_cases h : resource = asked <;> simp [h, Function.comp_def]

theorem holdersOf_hold {asked : ResourceId} (hlt : resource < world.resources.length) :
    (world.hold resource).holdersOf asked =
      world.holdersOf asked + if asked = resource then 1 else 0 := by
  unfold holdersOf hold
  rw [List.getElem?_modify]
  by_cases h : resource = asked
  · subst h
    simp [hlt]
  · simp [h, Ne.symm h]

@[simp] theorem length_hold :
    (world.hold resource).resources.length = world.resources.length := by
  simp [hold]

@[simp] theorem makerOf?_forget {asked : ResourceId} :
    (world.forget resource).makerOf? asked = world.makerOf? asked := by
  unfold makerOf? forget
  rw [List.getElem?_modify]
  by_cases h : resource = asked <;> simp [h, Function.comp_def]

@[simp] theorem holdersOf_forget {asked : ResourceId} :
    (world.forget resource).holdersOf asked = world.holdersOf asked := by
  unfold holdersOf forget
  rw [List.getElem?_modify]
  by_cases h : resource = asked <;> simp [h, Function.comp_def]

theorem isForgotten_forget {asked : ResourceId} (hlt : resource < world.resources.length) :
    (world.forget resource).isForgotten asked =
      (decide (asked = resource) || world.isForgotten asked) := by
  unfold isForgotten forget
  rw [List.getElem?_modify]
  by_cases h : resource = asked
  · subst h
    simp [hlt]
  · simp [h, Ne.symm h]

theorem isForgotten_forget_of_isForgotten {asked : ResourceId}
    (h : world.isForgotten asked = true) : (world.forget resource).isForgotten asked = true := by
  by_cases hlt : resource < world.resources.length
  · rw [isForgotten_forget hlt, h, Bool.or_true]
  · rw [forget, List.modify_eq_self (Nat.le_of_not_lt hlt)]
    exact h

@[simp] theorem length_forget :
    (world.forget resource).resources.length = world.resources.length := by
  simp [forget]

section AddResource

variable {kind : String} {owner : Owner} {asked : ResourceId}

theorem getElem?_addResource : (world.addResource kind owner).resources[asked]? =
    if asked = world.resources.length then some ⟨kind, owner, 1, false⟩
    else world.resources[asked]? := by
  rw [addResource]
  by_cases h : asked = world.resources.length
  · rw [if_pos h, h, List.getElem?_concat_length]
  · rw [if_neg h]
    rcases Nat.lt_or_gt_of_ne h with hlt | hgt
    · rw [List.getElem?_append_left hlt]
    · rw [List.getElem?_eq_none (Nat.le_of_lt hgt), List.getElem?_eq_none]
      rw [List.length_append, List.length_singleton]
      exact hgt

theorem makerOf?_addResource : (world.addResource kind owner).makerOf? asked =
    if asked = world.resources.length then some owner else world.makerOf? asked := by
  rw [makerOf?, getElem?_addResource]
  split <;> rfl

theorem holdersOf_addResource : (world.addResource kind owner).holdersOf asked =
    if asked = world.resources.length then 1 else world.holdersOf asked := by
  rw [holdersOf, getElem?_addResource]
  split <;> rfl

theorem length_addResource :
    (world.addResource kind owner).resources.length = world.resources.length + 1 := by
  simp [addResource]

theorem isForgotten_addResource : (world.addResource kind owner).isForgotten asked =
    world.isForgotten asked := by
  rw [isForgotten, getElem?_addResource]
  split
  · next h =>
    rw [isForgotten, List.getElem?_eq_none h.ge]
    rfl
  · rfl

end AddResource

section All

variable {resources : List ResourceId} {asked : ResourceId}

@[simp] theorem letGoAll_nil : world.letGoAll [] = world := rfl

@[simp] theorem letGoAll_cons :
    world.letGoAll (resource :: resources) = (world.letGo resource).letGoAll resources := rfl

@[simp] theorem letGoAll_pools : (world.letGoAll resources).pools = world.pools := by
  induction resources generalizing world with
  | nil => rfl
  | cons resource rest ih => rw [letGoAll_cons, ih, letGo_pools]

@[simp] theorem letGoAll_held : (world.letGoAll resources).held = world.held := by
  induction resources generalizing world with
  | nil => rfl
  | cons resource rest ih => rw [letGoAll_cons, ih, letGo_held]

@[simp] theorem letGoAll_pids : (world.letGoAll resources).pids = world.pids := by
  induction resources generalizing world with
  | nil => rfl
  | cons resource rest ih => rw [letGoAll_cons, ih, letGo_pids]

@[simp] theorem letGoAll_clock : (world.letGoAll resources).clock = world.clock := by
  induction resources generalizing world with
  | nil => rfl
  | cons resource rest ih => rw [letGoAll_cons, ih, letGo_clock]

@[simp] theorem makerOf?_letGoAll :
    (world.letGoAll resources).makerOf? asked = world.makerOf? asked := by
  induction resources generalizing world with
  | nil => rfl
  | cons resource rest ih => rw [letGoAll_cons, ih, makerOf?_letGo]

@[simp] theorem isForgotten_letGoAll :
    (world.letGoAll resources).isForgotten asked = world.isForgotten asked := by
  induction resources generalizing world with
  | nil => rfl
  | cons resource rest ih => rw [letGoAll_cons, ih, isForgotten_letGo]

@[simp] theorem forgetAll_nil : world.forgetAll [] = world := rfl

@[simp] theorem forgetAll_cons :
    world.forgetAll (resource :: resources) = (world.forget resource).forgetAll resources := rfl

@[simp] theorem forgetAll_pools : (world.forgetAll resources).pools = world.pools := by
  induction resources generalizing world with
  | nil => rfl
  | cons resource rest ih => exact ih

@[simp] theorem forgetAll_held : (world.forgetAll resources).held = world.held := by
  induction resources generalizing world with
  | nil => rfl
  | cons resource rest ih => exact ih

@[simp] theorem forgetAll_pids : (world.forgetAll resources).pids = world.pids := by
  induction resources generalizing world with
  | nil => rfl
  | cons resource rest ih => exact ih

@[simp] theorem forgetAll_journal : (world.forgetAll resources).journal = world.journal := by
  induction resources generalizing world with
  | nil => rfl
  | cons resource rest ih => exact ih

@[simp] theorem forgetAll_clock : (world.forgetAll resources).clock = world.clock := by
  induction resources generalizing world with
  | nil => rfl
  | cons resource rest ih => exact ih

@[simp] theorem makerOf?_forgetAll :
    (world.forgetAll resources).makerOf? asked = world.makerOf? asked := by
  induction resources generalizing world with
  | nil => rfl
  | cons resource rest ih => rw [forgetAll_cons, ih, makerOf?_forget]

theorem isForgotten_forgetAll_of_isForgotten (h : world.isForgotten asked = true) :
    (world.forgetAll resources).isForgotten asked = true := by
  induction resources generalizing world with
  | nil => exact h
  | cons resource rest ih => exact ih (isForgotten_forget_of_isForgotten h)

theorem isForgotten_forgetAll_of_mem (hlt : asked < world.resources.length)
    (hmem : asked ∈ resources) : (world.forgetAll resources).isForgotten asked = true := by
  induction resources generalizing world with
  | nil => exact absurd hmem List.not_mem_nil
  | cons resource rest ih =>
      rw [forgetAll_cons]
      rcases List.mem_cons.1 hmem with rfl | hrest
      · apply isForgotten_forgetAll_of_isForgotten
        rw [isForgotten_forget hlt, decide_eq_true rfl, Bool.true_or]
      · refine ih ?_ hrest
        rwa [length_forget]

end All

section Owners

variable {owner : Owner} {inherited : Bool}

@[simp] theorem reset_pools : (world.reset id owner inherited).pools =
    (world.modifyPool id fun pool => pool.reset owner inherited).pools := by
  unfold reset
  cases inherited <;> simp [note, emit]

@[simp] theorem reset_held : (world.reset id owner inherited).held = world.held := by
  unfold reset
  cases inherited <;> simp [note, emit, modifyPool]

@[simp] theorem reset_pids : (world.reset id owner inherited).pids = world.pids := by
  unfold reset
  cases inherited <;> simp [note, emit, modifyPool]

@[simp] theorem reset_clock : (world.reset id owner inherited).clock = world.clock := by
  unfold reset
  cases inherited <;> simp [note, emit, modifyPool]

@[simp] theorem makerOf?_reset {asked : ResourceId} :
    (world.reset id owner inherited).makerOf? asked = world.makerOf? asked := by
  unfold reset
  cases inherited <;> simp only [Bool.false_eq_true, ↓reduceIte, makerOf?_letGoAll,
    makerOf?_forgetAll] <;> rfl

theorem isForgotten_reset {asked : ResourceId} (h : world.isForgotten asked = true) :
    (world.reset id owner inherited).isForgotten asked = true := by
  cases inherited with
  | false => exact isForgotten_letGoAll.trans h
  | true => exact isForgotten_forgetAll_of_isForgotten h

theorem invalidate_pools : (world.invalidate id).pools =
    (world.modifyPool id fun pool => pool.reset pool.owner.nextEpoch false).pools := by
  rw [invalidate, reset_pools]
  change (world.modifyPool id _).pools = _
  refine congrArg World.pools (modifyPool_congr ?_)
  rfl

theorem pool_invalidate_of_ne {other : PoolId} (hother : other ≠ id) :
    (world.invalidate id).pool other = world.pool other := by
  rw [pool, invalidate_pools, ← pool, pool_modifyPool_of_ne hother]

theorem pool_invalidate_self (hid : id < world.pools.length) :
    (world.invalidate id).pool id =
      (world.pool id).reset (world.pool id).owner.nextEpoch false := by
  rw [pool, invalidate_pools, ← pool, pool_modifyPool_self hid]

@[simp] theorem invalidate_held : (world.invalidate id).held = world.held := reset_held

@[simp] theorem invalidate_pids : (world.invalidate id).pids = world.pids := reset_pids

@[simp] theorem invalidate_clock : (world.invalidate id).clock = world.clock := reset_clock

@[simp] theorem makerOf?_invalidate {asked : ResourceId} :
    (world.invalidate id).makerOf? asked = world.makerOf? asked := makerOf?_reset

theorem checkOwner_of_eq (h : world.currentPid id = (world.pool id).notedPid) :
    world.checkOwner id = world := if_pos h

theorem checkOwner_of_ne (h : world.currentPid id ≠ (world.pool id).notedPid) :
    world.checkOwner id =
      (world.note (.processChanged (world.pool id).notedPid (world.currentPid id))).reset id
        ((world.pool id).owner.withPid (world.currentPid id)) true := if_neg h

theorem checkOwner_pools : (world.checkOwner id).pools = (world.modifyPool id fun pool =>
      if world.currentPid id = pool.notedPid then pool
      else pool.reset (pool.owner.withPid (world.currentPid id)) true).pools := by
  by_cases h : world.currentPid id = (world.pool id).notedPid
  · rw [checkOwner_of_eq h]
    refine congrArg World.pools (modifyPool_eq_self ?_).symm
    exact if_pos h
  · rw [checkOwner_of_ne h, reset_pools]
    change (world.modifyPool id _).pools = _
    refine congrArg World.pools (modifyPool_congr ?_)
    exact (if_neg h).symm

@[simp] theorem length_checkOwner :
    (world.checkOwner id).pools.length = world.pools.length := by
  rw [checkOwner_pools, length_modifyPool]

@[simp] theorem checkOwner_held : (world.checkOwner id).held = world.held := by
  unfold checkOwner
  dsimp only
  split
  · rfl
  · exact reset_held

@[simp] theorem checkOwner_pids : (world.checkOwner id).pids = world.pids := by
  unfold checkOwner
  dsimp only
  split
  · rfl
  · exact reset_pids

theorem checkOwner_clock : (world.checkOwner id).clock = world.clock := by
  by_cases h : world.currentPid id = (world.pool id).notedPid
  · rw [checkOwner_of_eq h]
  · rw [checkOwner_of_ne h, reset, if_pos rfl, forgetAll_clock]
    rfl

@[simp] theorem makerOf?_checkOwner {asked : ResourceId} :
    (world.checkOwner id).makerOf? asked = world.makerOf? asked := by
  unfold checkOwner
  dsimp only
  split
  · rfl
  · exact makerOf?_reset

theorem isForgotten_checkOwner {asked : ResourceId} (h : world.isForgotten asked = true) :
    (world.checkOwner id).isForgotten asked = true := by
  unfold checkOwner
  dsimp only
  split
  · exact h
  · exact isForgotten_reset h

/-- A pool that notices another process gives up the idle resources it has from there. -/
theorem isForgotten_checkOwner_of_idle {asked : ResourceId}
    (hpid : world.currentPid id ≠ (world.pool id).notedPid)
    (hlt : asked < world.resources.length) (hidle : asked ∈ idleFromBottom (world.pool id).free) :
    (world.checkOwner id).isForgotten asked = true := by
  rw [checkOwner_of_ne hpid, reset, if_pos rfl]
  exact isForgotten_forgetAll_of_mem hlt hidle

theorem destroyed_checkOwner {asked : ResourceId}
    (h : .destroyed asked ∈ (world.checkOwner id).journal) : .destroyed asked ∈ world.journal := by
  by_cases hpid : world.currentPid id = (world.pool id).notedPid
  · rwa [checkOwner_of_eq hpid] at h
  · rw [checkOwner_of_ne hpid, reset, if_pos rfl, forgetAll_journal] at h
    simpa [note, emit, modifyPool] using h

theorem pool_congr {first second : World} (h : first.pools = second.pools) :
    first.pool id = second.pool id := by
  rw [pool, pool, h]

theorem pool_checkOwner (hid : id < world.pools.length) : (world.checkOwner id).pool id =
    if world.currentPid id = (world.pool id).notedPid then world.pool id
    else (world.pool id).reset ((world.pool id).owner.withPid (world.currentPid id)) true := by
  rw [pool_congr checkOwner_pools, pool_modifyPool_self hid]

theorem currentPid_checkOwner (hid : id < world.pools.length) :
    (world.checkOwner id).currentPid id = world.currentPid id := by
  have hprocess : ((world.checkOwner id).pool id).process = (world.pool id).process := by
    rw [pool_checkOwner hid]
    split <;> rfl
  rw [currentPid, currentPid, hprocess, pidOf, pidOf, checkOwner_pids]

theorem currentPid_fork_of_ne {process : ProcessId} {pid : Pid}
    (hother : process ≠ (world.pool id).process) :
    (world.fork process pid).currentPid id = world.currentPid id := by
  change (world.pids.set process pid).getD (world.pool id).process 0 =
    world.pids.getD (world.pool id).process 0
  rw [List.getD_eq_getElem?_getD, List.getElem?_set_ne hother, List.getD_eq_getElem?_getD]

/-- A pool that an operation can work on: it is there, and it knows its place and its process. -/
structure Hosts (world : World) (id : PoolId) : Prop where
  lt : id < world.pools.length
  pool_eq : (world.pool id).owner.pool = id
  pid_eq : (world.pool id).notedPid = (world.pool id).owner.pid

theorem checkOwner_notedPid (hid : id < world.pools.length) :
    ((world.checkOwner id).pool id).notedPid = (world.checkOwner id).currentPid id := by
  rw [pool_checkOwner hid, currentPid_checkOwner hid]
  split
  · next h => exact h.symm
  · rfl

theorem Hosts.checkOwner (h : world.Hosts id) : (world.checkOwner id).Hosts id := by
  have hpool := pool_checkOwner h.lt
  refine ⟨?_, ?_, ?_⟩
  · rw [length_checkOwner]
    exact h.lt
  · rw [hpool]
    split
    · exact h.pool_eq
    · exact h.pool_eq
  · rw [hpool]
    split
    · exact h.pid_eq
    · rfl

theorem Hosts.owner_pid_checkOwner (h : world.Hosts id) :
    ((world.checkOwner id).pool id).owner.pid = (world.checkOwner id).currentPid id := by
  rw [← h.checkOwner.pid_eq, checkOwner_notedPid h.lt]

theorem pool_noteReturn : (world.noteReturn id owner).pool id = world.pool id := by
  unfold noteReturn
  split <;> rfl

theorem clock_noteReturn : (world.noteReturn id owner).clock = world.clock := by
  unfold noteReturn
  split <;> rfl

theorem length_noteReturn :
    (world.noteReturn id owner).pools.length = world.pools.length := by
  unfold noteReturn
  split <;> rfl

theorem makerOf?_noteReturn {asked : ResourceId} :
    (world.noteReturn id owner).makerOf? asked = world.makerOf? asked := by
  unfold noteReturn
  split <;> rfl

end Owners

end LeasePool.World
