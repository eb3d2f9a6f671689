import LeasePool.Proofs.Epochs
import LeasePool.Proofs.Isolation

/-!
Invalidations. An invalidation asks no factory, and it destroys the idle resources of its pool, each
of them once. It does not look at the process it runs in: idle resources that the pool inherited
from another process are destroyed as well, where an operation that does look gives them up.
-/

namespace LeasePool

variable {world : World} {id : PoolId} {hand : Multiset Holding} {resource : ResourceId}

/-- No teardown grips what was made under the present owner of its pool. -/
theorem Scene.Dated.notMem_gripped (dated : Dated ⟨world, hand⟩) {owner : Owner}
    (hmaker : world.makerOf? resource = some owner)
    (howner : (world.pool owner.pool).owner = owner) : resource ∉ gripped ⟨world, hand⟩ := by
  intro hmem
  obtain ⟨holding, hholding, hgrips⟩ := (Multiset.mem_filterMap _ _).1 hmem
  cases holding with
  | grip agent other =>
      cases hgrips
      obtain ⟨other, hother, rfl, hepoch⟩ := dated.closing _ hholding
      obtain rfl := Option.some_inj.1 (hmaker.symm.trans hother)
      rw [howner] at hepoch
      exact Nat.lt_irrefl _ hepoch
  | turn | pause | slot | lease | handed | loose | listed | mention => cases hgrips

/-- No teardown grips an idle resource. -/
theorem Scene.Dated.count_gripped_idle (dated : Dated ⟨world, hand⟩) (fits : Fits ⟨world, hand⟩)
    (hid : id < world.pools.length) (hidle : resource ∈ (world.pool id).idle) :
    (gripped ⟨world, hand⟩).count resource = 0 := by
  have hpool := fits.pools.pool hid
  have hplace : (world.pool id).owner.pool = id := hpool.pool_eq
  refine Multiset.count_eq_zero_of_notMem (dated.notMem_gripped (hpool.idle resource hidle) ?_)
  rw [hplace]

namespace World

variable {resources : List ResourceId}

theorem length_letGoAll :
    (world.letGoAll resources).resources.length = world.resources.length := by
  induction resources generalizing world with
  | nil => rfl
  | cons resource rest ih => rw [letGoAll_cons, ih, length_letGo]

theorem destructions_letGoAll_of_notMem (hnot : resource ∉ resources) :
    (world.letGoAll resources).destructions resource = world.destructions resource := by
  induction resources generalizing world with
  | nil => rfl
  | cons other rest ih =>
      obtain ⟨hne, hrest⟩ := not_or.1 (List.mem_cons.not.1 hnot)
      rw [letGoAll_cons, ih hrest, destructions_letGo, if_neg (fun h => hne h.1), Nat.add_zero]

/-- Resources that lose their places, and that no teardown grips, are destroyed once. -/
theorem Kept.destructions_letGoAll {owned gripped : Multiset ResourceId}
    (h : world.Kept (↑resources + owned) gripped) (hmem : resource ∈ resources)
    (hgrips : gripped.count resource = 0) :
    world.destructions resource = 0 ∧ (world.letGoAll resources).destructions resource = 1 ∧
      (world.letGoAll resources).isForgotten resource = false := by
  have hplace : 0 < (↑resources : Multiset ResourceId).count resource :=
    Multiset.count_pos.2 (Multiset.mem_coe.2 hmem)
  have hsingle := h.single resource
  have hholders := h.holders resource
  rw [Multiset.count_add] at hsingle hholders
  have hpos : 0 < world.holdersOf resource := by omega
  have hforgotten : world.isForgotten resource = false :=
    h.isForgotten_eq_false (Multiset.mem_add.2 (.inl hmem))
  have after := h.letGoAll
  have hnone : (world.letGoAll resources).holdersOf resource = 0 := by
    rw [after.holders, hgrips, isForgotten_letGoAll, hforgotten, if_neg Bool.false_ne_true]
    omega
  have hlt : resource < (world.letGoAll resources).resources.length := by
    rw [length_letGoAll]
    exact lt_of_holdersOf_pos hpos
  exact ⟨h.destructions_eq_zero hpos, (after.destroyed resource).trans (if_pos ⟨hlt, hnone⟩),
    isForgotten_letGoAll.trans hforgotten⟩

end World

namespace System

variable {system next : System}

/-- An invalidation in any process asks no factory. It destroys the idle resources of the pool, once
each, and no others; so it gives up those it inherited only if there are none. -/
theorem invalidate_destroys_idle (reach : system.Reachable)
    (hstep : system.step? (.call id .invalidate) = some next) :
    next.tasks = system.tasks ∧
    (∀ resource ∈ (system.world.pool id).idle, system.world.destructions resource = 0 ∧
      next.world.destructions resource = 1 ∧ next.world.isForgotten resource = false) ∧
    (∀ resource ∉ (system.world.pool id).idle,
      next.world.destructions resource = system.world.destructions resource) ∧
    ((∀ resource ∈ (system.world.pool id).idle, next.Abandons resource) ↔
      (system.world.pool id).idle = 0) := by
  obtain ⟨hid, -, hnext⟩ := of_call hstep
  have hworld : next.world = system.world.invalidate id := world_of_call hstep
  have hidle : ∀ resource ∈ (system.world.pool id).idle, system.world.destructions resource = 0 ∧
      next.world.destructions resource = 1 ∧ next.world.isForgotten resource = false := by
    intro resource hidle
    have hnoted : Scene.Kept
        ⟨system.world.note (.invalidated (system.world.pool id).owner.nextEpoch.epoch),
          handOf system.tasks⟩ := World.Kept.note (reachable_kept reach) _
    have hemptied := hnoted.emptied hid (system.world.pool id).owner.nextEpoch false
      (.reset (system.world.pool id).registry.length (system.world.pool id).owner.nextEpoch.pid
        (system.world.pool id).owner.nextEpoch.epoch)
    have hgrips := (reachable_dated reach).count_gripped_idle (reachable_fits reach) hid hidle
    rw [hworld]
    exact hemptied.destructions_letGoAll hidle hgrips
  refine ⟨by rw [hnext]; rfl, hidle, ?_, ?_, ?_⟩
  · intro resource hnot
    rw [hworld]
    exact World.destructions_letGoAll_of_notMem hnot
  · intro habandons
    refine Multiset.eq_zero_of_forall_notMem fun resource hmem => ?_
    have hforgotten := (habandons resource hmem).1
    rw [(hidle resource hmem).2.2] at hforgotten
    cases hforgotten
  · intro hnone resource hmem
    rw [hnone] at hmem
    exact absurd hmem (Multiset.notMem_zero resource)

/-- A pool with an idle resource is invalidated after a fork that it has not noticed. -/
theorem invalidate_destroys_inherited : ∃ system,
    (init [7] [(0, Config.ofSize 1)]).run?
        [.call 0 (.acquire none), .reply 0 (.created "db"),
          .call 0 (.release ⟨0, ⟨0, 7, 0⟩, 0⟩), .fork 0 8] = some system ∧
      ∃ next, system.step? (.call 0 .invalidate) = some next ∧ ¬ next.Abandons 0 := by
  refine exists_run? rfl fun system hrun => ?_
  have hidle : 0 ∈ (system.world.pool 0).idle := by
    cases hrun
    decide
  have hsome : (system.step? (.call 0 .invalidate)).isSome = true := by
    cases hrun
    rfl
  obtain ⟨next, hstep⟩ := Option.isSome_iff_exists.1 hsome
  have hafter := (invalidate_destroys_idle ⟨_, _, _, hrun⟩ hstep).2.1 0 hidle
  refine ⟨next, hstep, fun habandons => ?_⟩
  exact Bool.false_ne_true (hafter.2.2.symm.trans habandons.1)

/-- There the pool has yet to notice its process, and the resource from the other one is
destroyed. -/
theorem inherited_destroyed : ∃ system next,
    (init [7] [(0, Config.ofSize 1)]).run?
        [.call 0 (.acquire none), .reply 0 (.created "db"),
          .call 0 (.release ⟨0, ⟨0, 7, 0⟩, 0⟩), .fork 0 8] = some system ∧
      system.world.currentPid 0 ≠ (system.world.pool 0).notedPid ∧
      0 ∈ (system.world.pool 0).idle ∧
      system.step? (.call 0 .invalidate) = some next ∧ .destroyed 0 ∈ next.world.journal :=
  ⟨_, _, rfl, by decide, by decide, rfl, by decide⟩

end System
end LeasePool
