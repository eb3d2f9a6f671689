import LeasePool.Proofs.Dialogues
import LeasePool.Proofs.Returns

/-!
Strangers. A lease that comes back to another pool than its own changes no pool: its slot stays out,
and nobody is asked anything. Its resource has lost its place for good. It is destroyed, and only a
teardown of its own pool that is just closing it can keep it until then; in another process than the
one it was lent in, it is forgotten.
-/

namespace LeasePool

variable {world : World} {id : PoolId} {hand : Multiset Holding} {scene next : Scene}
  {resource asked : ResourceId} {lease : Lease}

namespace World

theorem holdersOf_letGo_le : (world.letGo resource).holdersOf asked ≤ world.holdersOf asked := by
  rw [holdersOf_letGo]
  exact Nat.sub_le _ _

theorem holdersOf_letGoAll_le (resources : List ResourceId) :
    (world.letGoAll resources).holdersOf asked ≤ world.holdersOf asked := by
  induction resources generalizing world with
  | nil => exact Nat.le_refl _
  | cons resource rest ih => exact Nat.le_trans ih holdersOf_letGo_le

theorem holdersOf_forgetAll (resources : List ResourceId) :
    (world.forgetAll resources).holdersOf asked = world.holdersOf asked := by
  induction resources generalizing world with
  | nil => rfl
  | cons resource rest ih => rw [forgetAll_cons, ih, holdersOf_forget]

theorem holdersOf_reset_le (owner : Owner) (inherited : Bool) :
    (world.reset id owner inherited).holdersOf asked ≤ world.holdersOf asked := by
  cases inherited with
  | false => exact holdersOf_letGoAll_le _
  | true => exact (holdersOf_forgetAll _).le

theorem holdersOf_checkOwner_le :
    (world.checkOwner id).holdersOf asked ≤ world.holdersOf asked := by
  by_cases hpid : world.currentPid id = (world.pool id).notedPid
  · rw [checkOwner_of_eq hpid]
  · rw [checkOwner_of_ne hpid]
    exact holdersOf_reset_le _ true

end World

/-- The resource was made, and nothing holds it but teardowns that grip it. -/
structure Scene.Adrift (scene : Scene) (resource : ResourceId) : Prop where
  made : ∃ owner, scene.world.makerOf? resource = some owner
  holders_le : scene.world.holdersOf resource ≤ scene.gripped.count resource

theorem Move.holders_le (move : Move id scene next) (h : scene.Adrift resource) :
    next.world.holdersOf resource ≤ next.gripped.count resource := by
  obtain ⟨⟨owner, hmaker⟩, h⟩ := h
  -- Only `grasp` adds a holder, and it adds a grip with it.
  cases move with
  | tell | countFailure | lend => exact h
  | refresh => exact World.holdersOf_checkOwner_le.trans h
  | enqueue | part | pause =>
      rw [Scene.gripped_cons_none rfl]
      exact h
  | giveUp | keep | shelve | restore | skip | closed | resume =>
      rw [Scene.gripped_cons_none rfl] at h
      exact h
  | @take _ _ slot =>
      rw [Scene.gripped_cons_none rfl] at h
      cases slot <;> exact h.trans (congrArg _ (Scene.gripped_cons_none rfl)).ge
  | handIn | accept =>
      rw [Scene.gripped_cons_none rfl] at h ⊢
      exact h
  | detach =>
      rw [Scene.gripped_cons_none rfl] at h
      rw [Scene.gripped_cons_none rfl, Scene.gripped_cons_none rfl]
      exact h
  | make owner kind =>
      rw [Scene.gripped_cons_none rfl] at h ⊢
      change ((World.addResource _ _ _).holdersOf resource) ≤ _
      rw [World.holdersOf_addResource, if_neg (Nat.ne_of_lt (World.lt_of_makerOf? hmaker))]
      exact h
  | refuse | disown =>
      rw [Scene.gripped_cons_none rfl] at h
      exact World.holdersOf_forget.le.trans h
  | shed | letGo =>
      rw [Scene.gripped_cons_none rfl] at h
      exact World.holdersOf_letGo_le.trans h
  | grasp halive =>
      have hlt := World.lt_of_holdersOf_pos (World.isAlive_iff.1 halive)
      rw [Scene.gripped_cons_none rfl] at h
      rw [Scene.gripped_cons_some rfl, Multiset.count_cons, World.holdersOf_hold hlt]
      exact Nat.add_le_add_right h _
  | ungrasp =>
      rw [Scene.gripped_cons_some rfl, Multiset.count_cons] at h
      rw [World.holdersOf_letGo]
      exact Nat.sub_le_of_le_add h
  | vacate =>
      rw [Scene.gripped_add (by simp [Holding.gripped?]),
        Scene.gripped_add (by simp [Holding.gripped?])]
      exact h

/-- A resource that lost its place gets none again. -/
theorem lasting_adrift (resource : ResourceId) :
    Scene.Lasting fun scene => scene.Adrift resource where
  move _ move h := ⟨h.made.imp (move.keepsMakers resource), move.holders_le h⟩
  tearDown := by
    intro world hand id _ _ h
    refine ⟨h.made, ?_⟩
    rw [Scene.tearDown, Scene.gripped_add (by simp [Holding.gripped?]),
      Scene.gripped_add (by simp [Holding.gripped?])]
    exact h.holders_le
  invalidate _ _ h := ⟨h.made.imp fun _ => World.makerOf?_invalidate.trans,
    (World.holdersOf_reset_le _ false).trans h.holders_le⟩
  drop _ _ h := ⟨h.made.imp fun _ => World.makerOf?_letGo.trans,
    World.holdersOf_letGo_le.trans h.holders_le⟩
  fork h := ⟨h.made, h.holders_le⟩
  advance h := ⟨h.made, h.holders_le⟩

namespace Scene

/-- A resource adrift is destroyed as soon as no teardown grips it. -/
theorem Adrift.destructions_eq (h : scene.Adrift resource) (kept : scene.Kept) :
    resource ∉ scene.owned ∧ scene.world.isForgotten resource = false ∧
      scene.world.destructions resource = if resource ∈ scene.gripped then 0 else 1 := by
  obtain ⟨⟨owner, hmaker⟩, hle⟩ := h
  have hholders : scene.world.holdersOf resource = _ := kept.holders resource
  have hnone : scene.owned.count resource = 0 := by omega
  have hforgotten : ¬ scene.world.isForgotten resource = true := by
    intro hforgotten
    rw [if_pos hforgotten] at hholders
    omega
  refine ⟨Multiset.count_eq_zero.1 hnone, Bool.eq_false_iff.2 hforgotten, ?_⟩
  rw [hnone, if_neg hforgotten, Nat.zero_add, Nat.add_zero] at hholders
  rw [kept.destroyed, hholders]
  by_cases hgrip : resource ∈ scene.gripped
  · have hpos := Multiset.count_pos.2 hgrip
    rw [if_pos hgrip, if_neg (by omega)]
  · rw [if_neg hgrip, if_pos ⟨World.lt_of_makerOf? hmaker, Multiset.count_eq_zero.2 hgrip⟩]

/-- The resource of a lease is adrift when its holder lets it go. -/
theorem Kept.adrift {after : World} (h : Kept ⟨world, hand⟩) (hheld : lease ∈ world.held)
    (hmaker : world.makerOf? lease.resource = some lease.owner)
    (hresources : after.resources = (world.letGo lease.resource).resources) :
    Adrift ⟨after, hand⟩ lease.resource := by
  refine ⟨⟨lease.owner, ?_⟩, ?_⟩
  · rw [World.makerOf?, hresources]
    exact World.makerOf?_letGo.trans hmaker
  · rw [Kept, owned_part hheld] at h
    have hholders : world.holdersOf lease.resource = _ := h.holders lease.resource
    have hsingle := h.single lease.resource
    have hafter : after.holdersOf lease.resource = world.holdersOf lease.resource - 1 := by
      rw [World.holdersOf, hresources, ← World.holdersOf, World.holdersOf_letGo, if_pos rfl]
    rw [Multiset.count_cons_self] at hholders hsingle
    rw [hafter]
    change _ ≤ (gripped ⟨world, hand⟩).count lease.resource
    omega

end Scene

namespace World

/-- What becomes of the resource of a lease of another pool that comes back to the pool `id`, and
nothing else does. -/
structure Dismisses (id : PoolId) (lease : Lease) (world after : World) : Prop where
  pools_eq : after.pools = world.pools
  held_eq : after.held = world.held
  unreturned_eq : after.unreturned = world.unreturned
  letGo : lease.owner.pid = world.currentPid id →
    after.resources = (world.letGo lease.resource).resources
  forgets : lease.owner.pid ≠ world.currentPid id →
    after.resources = (world.forget lease.resource).resources

theorem letGo_dismisses (hpid : lease.owner.pid = world.currentPid id) (notice : Notice) :
    Dismisses id lease world ((world.note notice).letGo lease.resource) := by
  refine ⟨letGo_pools, letGo_held, unreturned_letGo, fun _ => ?_, fun hne => absurd hpid hne⟩
  rw [letGo_resources, letGo_resources]
  rfl

theorem release_dismisses (hosts : world.Hosts id)
    (hnoted : (world.pool id).notedPid = world.currentPid id) (hforeign : lease.owner.pool ≠ id) :
    Dismisses id lease world (world.release id lease) := by
  have hstale : lease.owner ≠ (world.pool id).owner := by
    intro heq
    exact hforeign (heq ▸ hosts.pool_eq)
  have haway : world.release id lease = world.turnAway id lease := by
    have hsame : (world.checkOwner id).noteReturn id lease.owner = world := by
      rw [checkOwner_of_eq hnoted.symm]
      exact if_neg hforeign
    rw [release]
    dsimp only
    rw [hsame, checkOwner_of_eq hnoted.symm, if_pos hstale]
  have hnow : (world.pool id).owner.pid = world.currentPid id := hosts.pid_eq.symm.trans hnoted
  rw [haway]
  by_cases hpid : lease.owner.pid = (world.pool id).owner.pid
  · obtain ⟨notice, hletGo⟩ := turnAway_of_pid_eq world id hpid
    have hkept : (world.modifyPool id fun pool => pool.reclaim lease.owner) = world := by
      refine modifyPool_eq_self (Pool.reclaim_of_not_holdsSlot fun hholds => ?_)
      exact hforeign (hholds.1.trans hosts.pool_eq)
    rw [hletGo, hkept]
    exact letGo_dismisses (hpid.trans hnow) notice
  · obtain ⟨notice, hforgets⟩ := turnAway_of_pid_ne world id hpid
    rw [hforgets]
    exact ⟨rfl, rfl, rfl, fun heq => absurd (heq.trans hnow.symm) hpid, fun _ => rfl⟩

theorem discard_dismisses (hforeign : lease.owner.pool ≠ id) :
    Dismisses id lease world (world.discard id lease .finish).1 ∧
      (world.discard id lease .finish).2 = .done .finished := by
  unfold discard
  by_cases hpid : lease.owner.pid = world.currentPid id
  · rw [if_neg (not_not.2 hpid), if_pos hforeign]
    exact ⟨letGo_dismisses hpid _, rfl⟩
  · rw [if_pos hpid]
    exact ⟨⟨rfl, rfl, rfl, fun heq => absurd heq hpid, fun _ => rfl⟩, rfl⟩

end World

namespace System

variable {system next final : System} {call : Call}

/-- A pool closes only what it made. -/
theorem made_of_close {task : Task} (reach : system.Reachable) (htask : task ∈ system.tasks)
    (hquestion : task.question? = some (.close id resource)) : system.world.Made id resource := by
  obtain ⟨holding, hmem, hholding⟩ := task.holding_of_question (.inl hquestion)
  have hfits : holding.Fits system.world :=
    (reachable_fits reach).hand holding (mem_handOf.2 ⟨task, htask, hmem⟩)
  rcases hholding with ⟨owner, rfl⟩ | rfl | rfl
  · exact ⟨owner, hfits.2.2, hfits.2.1⟩
  · exact hfits.2
  · exact hfits.2

/-- A lease of another pool came back to the pool `id`: no pool changed and nobody was asked
anything, and its slot is still out. -/
structure TurnsAway (id : PoolId) (lease : Lease) (system next : System) : Prop where
  pools_eq : next.world.pools = system.world.pools
  tasks_eq : next.tasks = system.tasks
  held_eq : next.world.held = system.world.held.erase lease
  unreturned_eq : next.world.unreturned = system.world.unreturned
  out : lease.owner ∈ next.world.unreturned
  /-- Its resource is destroyed once, as soon as no teardown grips it, and nothing else has it until
  then. -/
  destroyed : lease.owner.pid = system.world.currentPid id →
    system.world.destructions lease.resource = 0 ∧
    ∀ events final, next.run? events = some final →
      lease.resource ∉ final.scene.owned ∧ final.world.isForgotten lease.resource = false ∧
      final.world.destructions lease.resource =
        if lease.resource ∈ final.scene.gripped then 0 else 1
  /-- In another process it is forgotten. -/
  forgotten : lease.owner.pid ≠ system.world.currentPid id → next.Abandons lease.resource
  /-- The pool never has it idle and never closes it. -/
  apart : ∀ events final, next.run? events = some final →
    lease.resource ∉ (final.world.pool id).idle ∧
    ∀ task ∈ final.tasks, task.question? ≠ some (.close id lease.resource)

/-- What becomes of the resource of a lease that was let go. -/
theorem destroyed_of_letGo (reach : system.Reachable) (reached : next.Reachable)
    (hheld : lease ∈ system.world.held) (htasks : next.tasks = system.tasks)
    (hresources : next.world.resources = (system.world.letGo lease.resource).resources) :
    system.world.destructions lease.resource = 0 ∧
    ∀ events final, next.run? events = some final →
      lease.resource ∉ final.scene.owned ∧ final.world.isForgotten lease.resource = false ∧
      final.world.destructions lease.resource =
        if lease.resource ∈ final.scene.gripped then 0 else 1 := by
  have kept : Scene.Kept ⟨system.world, system.scene.hand⟩ := reachable_kept reach
  have hmaker := ((reachable_fits reach).held lease hheld).2
  have hscene : next.scene = ⟨next.world, system.scene.hand⟩ := by
    rw [scene, htasks]
    rfl
  have adrift : next.scene.Adrift lease.resource := by
    rw [hscene]
    exact kept.adrift hheld hmaker hresources
  constructor
  · have hholders : system.world.holdersOf lease.resource = _ := kept.holders lease.resource
    have hpos : 0 < system.scene.owned.count lease.resource := by
      rw [scene, Scene.owned_part hheld, Multiset.count_cons_self]
      exact Nat.succ_pos _
    refine World.Kept.destructions_eq_zero kept ?_
    rw [hholders]
    exact Nat.add_pos_left (Nat.add_pos_left hpos _) _
  · intro events final hrun
    have hfinal := (lasting_adrift lease.resource).run? (reachable_fits reached) adrift hrun
    exact hfinal.destructions_eq (reachable_kept (reached.run? hrun))

/-- A pool that did not make a resource never has it. -/
theorem apart_of_run? {events : List Event} {owner : Owner} (reach : next.Reachable)
    (hmaker : next.world.makerOf? resource = some owner) (hforeign : owner.pool ≠ id)
    (hid : id < next.world.pools.length) (hrun : next.run? events = some final) :
    resource ∉ (final.world.pool id).idle ∧
    ∀ task ∈ final.tasks, task.question? ≠ some (.close id resource) := by
  have hfinal := reach.run? hrun
  have fits := reachable_fits hfinal
  have hkept : next.world.KeepsMakers final.world :=
    (lasting_makers next.world).run? (reachable_fits reach) (fun _ _ hmaker => hmaker) hrun
  have hsame : ∀ other, final.world.makerOf? resource = some other → other = owner :=
    fun other hother => Option.some_inj.1 (hother.symm.trans (hkept _ _ hmaker))
  have hid' : id < final.world.pools.length := reach.lt_of_run? hid hrun
  constructor
  · intro hidle
    have howner := hsame _ ((fits.pools.pool hid').idle resource hidle)
    exact hforeign (howner ▸ (fits.pools.pool hid').pool_eq)
  · intro task htask hquestion
    obtain ⟨other, hother, hpool⟩ := made_of_close hfinal htask hquestion
    exact hforeign (hsame other hother ▸ hpool)

/-- A lease that a caller has can be given back to any pool that is there. -/
theorem turn_of_return (hid : id < system.world.pools.length) (hheld : lease ∈ system.world.held)
    (hcall : call.lease? = some lease) :
    system.Turn id (.call id call) none (settle system.tasks (system.world.begin id call))
      (system.world.begin id call).2 := by
  have hmade : system.world.call id call = some (system.world.begin id call) := by
    simp [World.call, hid, hcall, hheld]
  exact .call hmade

/-- A lease that comes back to another pool than its own is turned away, whatever both pools have
been through. No pool changes, and nobody is asked anything; the resource is destroyed, or forgotten
in another process than its own, and the pool never has it. -/
theorem foreign_return_turned_away (reach : system.Reachable)
    (hid : id < system.world.pools.length)
    (hnoted : (system.world.pool id).notedPid = system.world.currentPid id)
    (hheld : lease ∈ system.world.held) (hforeign : lease.owner.pool ≠ id)
    (hcall : call = .release lease ∨ call = .discard lease) :
    ∃ next, system.Turn id (.call id call) none next (.done .finished) ∧
      system.TurnsAway id lease next := by
  have fits := reachable_fits reach
  have hmaker := (fits.held lease hheld).2
  have hlease : call.lease? = some lease := by rcases hcall with rfl | rfl <;> rfl
  have hbegin : (system.world.begin id call).2 = .done .finished ∧
      World.Dismisses id lease (system.world.part lease) (system.world.begin id call).1 := by
    rcases hcall with rfl | rfl
    · exact ⟨rfl, World.release_dismisses ((fits.hosts hid).part lease) hnoted hforeign⟩
    · exact (World.discard_dismisses hforeign).symm
  have turn := turn_of_return hid hheld hlease
  generalize system.world.begin id call = result at hbegin turn
  obtain ⟨after, progress⟩ := result
  obtain ⟨rfl, dismisses⟩ := hbegin
  have reached : System.Reachable ⟨after, system.tasks⟩ := reach.step? turn.step?
  have hout : lease.owner ∈ after.unreturned := by
    have hunit : lease.owner ∈ system.scene.units := by
      rw [scene, ← Scene.units_part hheld]
      exact Multiset.mem_cons_self _ _
    rw [dismisses.unreturned_eq]
    exact Multiset.mem_of_le (reachable_accounted reach).backed hunit
  refine ⟨⟨after, system.tasks⟩, turn, dismisses.pools_eq, rfl, dismisses.held_eq,
    dismisses.unreturned_eq, hout, ?_, ?_, ?_⟩
  · intro hpid
    have hletGo : after.resources = (system.world.letGo lease.resource).resources := by
      rw [dismisses.letGo hpid, World.letGo_resources, World.letGo_resources]
      rfl
    exact destroyed_of_letGo reach reached hheld rfl hletGo
  · intro hpid
    refine abandons_of_isForgotten reached ?_
    have hforgets := dismisses.forgets hpid
    have hforgotten := World.isForgotten_forget_self hmaker
    rw [World.isForgotten, hforgets]
    exact hforgotten
  · intro events final hrun
    have hthere : after.makerOf? lease.resource = some lease.owner := by
      by_cases hpid : lease.owner.pid = system.world.currentPid id
      · rw [World.makerOf?, dismisses.letGo hpid]
        exact World.makerOf?_letGo.trans hmaker
      · rw [World.makerOf?, dismisses.forgets hpid]
        exact World.makerOf?_forget.trans hmaker
    exact apart_of_run? reached hthere hforeign (dismisses.pools_eq ▸ hid) hrun

/-- The other pool misses a lease of its own, which it issued before it was invalidated. -/
theorem foreign_return_turned_away_stale : ∃ system,
    (init [7] [(0, Config.ofSize 1), (0, Config.ofSize 1)]).run?
        [.call 0 (.acquire none), .reply 0 (.created "db"), .call 1 (.acquire none),
          .reply 0 (.created "db"), .call 1 .invalidate] = some system ∧
      (system.world.pool 1).staleLeased = 1 ∧
      ∃ next, system.Turn 1 (.call 1 (.release ⟨0, ⟨0, 7, 0⟩, 0⟩)) none next (.done .finished) ∧
        system.TurnsAway 1 ⟨0, ⟨0, 7, 0⟩, 0⟩ next := by
  refine exists_run? rfl fun system hrun => ?_
  have hid : 1 < system.world.pools.length := by
    cases hrun
    decide
  have hnoted : (system.world.pool 1).notedPid = system.world.currentPid 1 := by
    cases hrun
    rfl
  have hheld : ⟨0, ⟨0, 7, 0⟩, 0⟩ ∈ system.world.held := by
    cases hrun
    decide
  have hstale : (system.world.pool 1).staleLeased = 1 := by
    cases hrun
    rfl
  exact ⟨hstale, foreign_return_turned_away ⟨_, _, _, hrun⟩ hid hnoted hheld (by decide)
    (.inl rfl)⟩

end System

end LeasePool
