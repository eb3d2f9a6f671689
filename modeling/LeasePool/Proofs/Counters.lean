import LeasePool.Proofs.Registry

/-!
Counters. A pool counts the resources that the factory makes for it, whatever becomes of them: its
counter is the number of all resources in the world that were made under one of its owners.
-/

namespace LeasePool

variable {world after : World} {id : PoolId} {hand left : Multiset Holding} {change : Pool → Pool}

/-- The resources that were made for a pool, under whichever owner. -/
def World.madeBy (world : World) (id : PoolId) : Nat :=
  world.resources.countP fun resource => resource.owner.pool = id

theorem World.madeBy_congr (h : ∀ resource, after.makerOf? resource = world.makerOf? resource) :
    after.madeBy id = world.madeBy id := by
  have howners : after.resources.map (·.owner) = world.resources.map (·.owner) := by
    apply List.ext_getElem?
    intro resource
    rw [List.getElem?_map, List.getElem?_map]
    exact h resource
  have hcount := congrArg (List.countP fun owner => decide (owner.pool = id)) howners
  rw [List.countP_map, List.countP_map] at hcount
  exact hcount

theorem World.madeBy_addResource {kind : String} {owner : Owner} :
    (world.addResource kind owner).madeBy id =
      world.madeBy id + if owner.pool = id then 1 else 0 := by
  rw [madeBy, addResource, List.countP_append, List.countP_singleton, madeBy]
  simp

section Enroll

variable (pool : Pool) (owner : Owner) (alive : ResourceId → Bool) (resource : ResourceId)

theorem Pool.created_enroll :
    (pool.enroll owner alive resource).created = pool.created + 1 := by
  unfold enroll
  dsimp only
  split <;> rfl

theorem Pool.free_enroll : (pool.enroll owner alive resource).free = pool.free := by
  unfold enroll
  dsimp only
  split <;> rfl

end Enroll

theorem Pool.created_giveBack (pool : Pool) (slot : Slot) :
    (pool.giveBack slot).created = pool.created := by
  obtain ⟨free, heq⟩ := push_eq { pool with leased := pool.leased - 1 } slot
  rw [giveBack, heq]

theorem Pool.created_reclaim (pool : Pool) (owner : Owner) :
    (pool.reclaim owner).created = pool.created := by
  unfold reclaim
  split
  · obtain ⟨free, heq⟩ := push_eq { pool with staleLeased := pool.staleLeased - 1 } .vacant
    rw [heq]
  · rfl

theorem Pool.created_restoreVacant (pool : Pool) (owner : Owner) :
    (pool.restoreVacant owner).created = pool.created := by
  unfold restoreVacant
  split
  · exact created_giveBack pool .vacant
  · exact created_reclaim pool owner

def Scene.Counted (scene : Scene) : Prop :=
  scene.world.EachPool fun id pool => pool.created = scene.world.madeBy id

namespace Scene.Counted

theorem keep (h : Counted ⟨world, hand⟩)
    (hpools : after.pools = (world.modifyPool id change).pools) (fades : world.Fades after)
    (hchange : ∀ pool, (change pool).created = pool.created) : Counted ⟨after, left⟩ := by
  have heach : (world.modifyPool id change).EachPool
      fun id pool => pool.created = after.madeBy id := by
    refine World.EachPool.modify h (fun pool _ hcreated => ?_) fun other pool _ hcreated => ?_
    · rw [hchange, hcreated, World.madeBy_congr fades.maker]
    · rw [hcreated, World.madeBy_congr fades.maker]
  intro other pool hget
  rw [hpools] at hget
  exact heach other pool hget

theorem spare (h : Counted ⟨world, hand⟩) (hpools : after.pools = world.pools)
    (fades : world.Fades after) : Counted ⟨after, left⟩ := by
  have hsame : world.modifyPool 0 (fun pool => pool) = world := World.modifyPool_eq_self rfl
  exact h.keep (hpools.trans (congrArg World.pools hsame.symm)) fades fun _ => rfl

end Scene.Counted

theorem Move.counted {scene next : Scene} (move : Move id scene next) (fits : scene.Fits)
    (h : scene.Counted) : next.Counted := by
  cases move with
  | tell | lend | keep | part | handIn | accept | detach | skip | closed | pause | resume =>
      exact h.spare rfl (.of_eq rfl)
  | refresh =>
      refine h.keep World.checkOwner_pools (.checkOwner id) fun pool => ?_
      split <;> rfl
  | enqueue | giveUp | take | countFailure | vacate => exact h.keep rfl (.of_eq rfl) fun _ => rfl
  | @make world hand owner kind =>
      obtain ⟨-, hpool⟩ := fits.hand (.slot id owner) (Multiset.mem_cons_self _ _)
      refine World.EachPool.modify h (fun pool _ hcreated => ?_) fun other pool hne hcreated => ?_
      · rw [Pool.created_enroll, hcreated]
        exact (World.madeBy_addResource.trans (by rw [if_pos hpool])).symm
      · rw [hcreated]
        refine (World.madeBy_addResource.trans ?_).symm
        rw [if_neg (hpool ▸ hne.symm)]
        rfl
  | shelve entry => exact h.keep rfl (.of_eq rfl) fun pool => pool.created_giveBack (.idle entry)
  | @restore world hand owner =>
      exact h.keep rfl (.of_eq rfl) fun pool => pool.created_restoreVacant owner
  | refuse | disown => exact h.spare rfl ((World.Fades.forget _).of_before rfl)
  | shed | letGo | ungrasp => exact h.spare World.letGo_pools (.letGo _)
  | grasp halive => exact h.spare rfl (.hold halive)

theorem lasting_counted : Scene.Lasting Scene.Counted where
  move fits move h := move.counted fits h
  tearDown _ _ h := h.keep rfl (.of_eq rfl) fun _ => rfl
  invalidate _ _ h := h.keep World.invalidate_pools (.invalidate _) fun _ => rfl
  drop _ _ h := h.spare World.letGo_pools (World.Fades.of_before (.letGo _) rfl)
  fork h := h.spare rfl (.of_eq rfl)
  advance h := h.spare rfl (.of_eq rfl)

/-- The counter of a pool is the number of resources that were made for it. -/
theorem System.created_eq_madeBy {system : System} (reach : system.Reachable)
    (hid : id < system.world.pools.length) :
    (system.world.pool id).created = system.world.madeBy id := by
  obtain ⟨pids, pools, events, hrun⟩ := reach
  have hinit : (init pids pools).scene.Counted := by
    intro id pool hget
    obtain ⟨config, process, rfl⟩ := init_each_pool pids pools id pool hget
    rw [scene, World.madeBy, init_resources]
    rfl
  have hcounted : system.scene.Counted := lasting_counted.run? (init_fits pids pools) hinit hrun
  exact hcounted.pool hid

end LeasePool
