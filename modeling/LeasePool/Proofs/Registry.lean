import LeasePool.Proofs.Custody
import LeasePool.Proofs.Epochs
import Mathlib.Data.List.Sort

/-!
Registries. An entry leaves a registry only when the next resource is entered, so that dead ones
stay for a while. The live ones are what the pool made under its present owner and nobody has
destroyed, each of them once, in the order of creation.
-/

namespace LeasePool

variable {world middle after : World} {id : PoolId} {hand left : Multiset Holding}
  {resource asked : ResourceId} {owner : Owner}

/-- No resource was made, and none came back to life. -/
structure World.Fades (world after : World) : Prop where
  maker : ∀ resource, after.makerOf? resource = world.makerOf? resource
  alive : ∀ resource, after.isAlive resource = true → world.isAlive resource = true

namespace World.Fades

theorem refl (world : World) : world.Fades world := ⟨fun _ => rfl, fun _ h => h⟩

theorem trans (first : world.Fades middle) (second : middle.Fades after) : world.Fades after :=
  ⟨fun resource => (second.maker resource).trans (first.maker resource),
    fun resource h => first.alive resource (second.alive resource h)⟩

/-- Before that nothing happened to resources. -/
theorem of_before (h : middle.Fades after) (hresources : middle.resources = world.resources) :
    world.Fades after := by
  refine ⟨fun resource => ?_, fun resource halive => ?_⟩
  · rw [h.maker, makerOf?, hresources, makerOf?]
  · have hmiddle := h.alive resource halive
    rwa [isAlive, hresources] at hmiddle

theorem of_eq (h : after.resources = world.resources) : world.Fades after :=
  (refl after).of_before h

theorem letGo (resource : ResourceId) : world.Fades (world.letGo resource) := by
  refine ⟨fun _ => makerOf?_letGo, fun asked halive => ?_⟩
  rw [isAlive_iff, holdersOf_letGo] at halive
  exact isAlive_iff.2 (by omega)

theorem letGoAll (resources : List ResourceId) : world.Fades (world.letGoAll resources) := by
  induction resources generalizing world with
  | nil => exact refl world
  | cons resource rest ih => exact (letGo resource).trans ih

theorem forget (resource : ResourceId) : world.Fades (world.forget resource) := by
  refine ⟨fun _ => makerOf?_forget, fun asked halive => ?_⟩
  rw [isAlive_iff, holdersOf_forget] at halive
  exact isAlive_iff.2 halive

theorem forgetAll (resources : List ResourceId) : world.Fades (world.forgetAll resources) := by
  induction resources generalizing world with
  | nil => exact refl world
  | cons resource rest ih => exact (forget resource).trans ih

theorem hold (halive : world.isAlive resource = true) : world.Fades (world.hold resource) := by
  refine ⟨fun _ => makerOf?_hold, fun asked hafter => ?_⟩
  have hpos := isAlive_iff.1 halive
  rw [isAlive_iff, holdersOf_hold (lt_of_holdersOf_pos hpos)] at hafter
  by_cases heq : asked = resource
  · rwa [heq]
  · rw [if_neg heq] at hafter
    exact isAlive_iff.2 hafter

theorem reset (owner : Owner) (inherited : Bool) :
    world.Fades (world.reset id owner inherited) := by
  cases inherited with
  | false =>
      rw [World.reset, if_neg Bool.false_ne_true]
      exact (letGoAll _).of_before rfl
  | true =>
      rw [World.reset, if_pos rfl]
      exact (forgetAll _).of_before rfl

theorem checkOwner (id : PoolId) : world.Fades (world.checkOwner id) := by
  by_cases hpid : world.currentPid id = (world.pool id).notedPid
  · rw [checkOwner_of_eq hpid]
    exact refl world
  · rw [checkOwner_of_ne hpid]
    exact (reset _ true).of_before rfl

theorem invalidate (id : PoolId) : world.Fades (world.invalidate id) := by
  rw [World.invalidate]
  exact (reset _ false).of_before rfl

end World.Fades

theorem World.isAlive_addResource {kind : String} :
    (world.addResource kind owner).isAlive asked = true ↔
      asked = world.resources.length ∨ world.isAlive asked = true := by
  rw [isAlive_iff, holdersOf_addResource, isAlive_iff]
  by_cases heq : asked = world.resources.length <;> simp [heq]

/-- The registry of a pool is in the order of creation, and it has every live resource that was made
under the pool's owner. -/
structure Pool.Lists (world : World) (pool : Pool) : Prop where
  sorted : pool.registry.Pairwise (· < ·)
  complete : ∀ resource, world.makerOf? resource = some pool.owner →
    world.isAlive resource = true → resource ∈ pool.registry

namespace Pool.Lists

variable {pool next : Pool}

theorem fade (h : pool.Lists world) (fades : world.Fades after) (howner : next.owner = pool.owner)
    (hregistry : next.registry = pool.registry) : next.Lists after := by
  refine ⟨?_, fun resource hmaker halive => ?_⟩
  · rw [hregistry]
    exact h.sorted
  · rw [hregistry]
    rw [fades.maker, howner] at hmaker
    exact h.complete resource hmaker (fades.alive resource halive)

/-- A pool may start with an empty registry under an owner that made nothing yet. -/
theorem of_unused (hregistry : pool.registry = [])
    (hunused : ∀ resource, world.makerOf? resource ≠ some pool.owner) : pool.Lists world := by
  refine ⟨?_, fun resource hmaker => absurd hmaker (hunused resource)⟩
  rw [hregistry]
  exact .nil

theorem addResource (h : pool.Lists world) (kind : String) (hne : pool.owner ≠ owner) :
    pool.Lists (world.addResource kind owner) := by
  refine ⟨h.sorted, fun asked hmaker halive => ?_⟩
  rw [World.makerOf?_addResource] at hmaker
  split at hmaker
  · exact absurd (Option.some_inj.1 hmaker).symm hne
  · next hold =>
    exact h.complete asked hmaker ((World.isAlive_addResource.1 halive).resolve_left hold)

/-- The new resource is the youngest, and only dead ones are dropped for it. -/
theorem enroll (h : pool.Lists world) (kind : String)
    (hmade : ∀ resource ∈ pool.registry, resource < world.resources.length) :
    (pool.enroll owner (world.addResource kind owner).isAlive world.resources.length).Lists
      (world.addResource kind owner) := by
  unfold Pool.enroll
  dsimp only
  split
  · next howner =>
    refine ⟨?_, fun asked hmaker halive => ?_⟩
    · refine List.pairwise_append.2 ⟨h.sorted.filter _, List.pairwise_singleton _ _, ?_⟩
      intro older holder newest hnewest
      rw [List.mem_singleton.1 hnewest]
      exact hmade older (List.mem_filter.1 holder).1
    · rw [World.makerOf?_addResource] at hmaker
      split at hmaker
      · next heq =>
        subst heq
        exact List.mem_append_right _ (List.mem_singleton_self _)
      · next hold =>
        have hbefore := (World.isAlive_addResource.1 halive).resolve_left hold
        exact List.mem_append_left _
          (List.mem_filter.2 ⟨h.complete asked hmaker hbefore, halive⟩)
  · next hne => exact (h.addResource kind hne).fade (.refl _) rfl rfl

end Pool.Lists

def Scene.Listed (scene : Scene) : Prop :=
  scene.world.EachPool fun _ pool => pool.Lists scene.world

/-- No resource was made in an epoch that its pool has yet to reach. -/
theorem Scene.Dated.unused (dated : Dated ⟨world, hand⟩) (hpool : owner.pool = id)
    (hlt : (world.pool id).owner.epoch < owner.epoch) (resource : ResourceId) :
    world.makerOf? resource ≠ some owner := by
  intro hmaker
  have hreached := (dated.made resource owner hmaker).2
  rw [hpool] at hreached
  exact Nat.not_le_of_lt hlt hreached

namespace Scene.Listed

variable {change : Pool → Pool}

theorem modify (h : Listed ⟨world, hand⟩)
    (hpools : after.pools = (world.modifyPool id change).pools)
    (fades : world.Fades after)
    (hchange : ∀ pool, world.pools[id]? = some pool → pool.Lists world →
      (change pool).Lists after) : Listed ⟨after, left⟩ := by
  have heach : (world.modifyPool id change).EachPool fun _ pool => pool.Lists after :=
    World.EachPool.modify h hchange fun _ pool _ hlists => hlists.fade fades rfl rfl
  intro other pool hget
  rw [hpools] at hget
  exact heach other pool hget

theorem spare (h : Listed ⟨world, hand⟩) (hpools : after.pools = world.pools)
    (fades : world.Fades after) : Listed ⟨after, left⟩ := by
  have hsame : world.modifyPool 0 (fun pool => pool) = world := World.modifyPool_eq_self rfl
  exact h.modify (hpools.trans (congrArg World.pools hsame.symm)) fades
    fun _ _ hlists => hlists.fade fades rfl rfl

/-- A pool changes that keeps its owner and its registry. -/
theorem keep (h : Listed ⟨world, hand⟩) (hpools : after.pools = (world.modifyPool id change).pools)
    (fades : world.Fades after)
    (hchange : ∀ pool, (change pool).owner = pool.owner ∧ (change pool).registry = pool.registry) :
    Listed ⟨after, left⟩ :=
  h.modify hpools fades fun pool _ hlists => hlists.fade fades (hchange pool).1 (hchange pool).2

/-- A pool starts over in a new epoch. -/
theorem startOver (h : Listed ⟨world, hand⟩) (dated : Dated ⟨world, hand⟩)
    (hpools : after.pools = (world.modifyPool id change).pools) (fades : world.Fades after)
    (hid : id < world.pools.length)
    (howner : (change (world.pool id)).owner.pool = id ∧
      (world.pool id).owner.epoch < (change (world.pool id)).owner.epoch)
    (hregistry : (change (world.pool id)).registry = []) : Listed ⟨after, left⟩ := by
  refine h.modify hpools fades fun pool hget _ => ?_
  rw [World.getElem?_pools hid] at hget
  cases hget
  refine .of_unused hregistry fun resource => ?_
  rw [fades.maker]
  exact dated.unused howner.1 howner.2 resource

end Scene.Listed

theorem Move.listed {scene next : Scene} (move : Move id scene next) (fits : scene.Fits)
    (dated : scene.Dated) (h : scene.Listed) : next.Listed := by
  cases move with
  | tell | lend | keep | part | handIn | accept | detach | skip | closed | pause | resume =>
      exact h.spare rfl (.of_eq rfl)
  | @refresh world hand hid =>
      have hplace := (fits.pools.pool hid).pool_eq
      by_cases hpid : world.currentPid id = (world.pool id).notedPid
      · rw [World.checkOwner_of_eq hpid]
        exact h
      · refine h.startOver dated World.checkOwner_pools (.checkOwner id) hid ?_ ?_
        · rw [if_neg hpid]
          exact ⟨hplace, Nat.lt_succ_self _⟩
        · rw [if_neg hpid]
          rfl
  | enqueue | giveUp | take | countFailure | vacate =>
      exact h.keep rfl (.of_eq rfl) fun pool => ⟨rfl, rfl⟩
  | @make world hand owner kind =>
      obtain ⟨hid, hpool⟩ := fits.hand (.slot id owner) (Multiset.mem_cons_self _ _)
      have hmade : ∀ resource ∈ (world.pool id).registry, resource < world.resources.length :=
        fun resource hmem => World.lt_of_makerOf? ((fits.pools.pool hid).registry resource hmem)
      have heach : world.EachPool fun other pool => pool.owner.pool = other ∧ pool.Lists world :=
        fun other pool hget => ⟨(fits.pools other pool hget).pool_eq, h other pool hget⟩
      refine World.EachPool.modify heach ?_ ?_
      · intro pool hget hlists
        have hget' : world.pools[id]? = some pool := hget
        rw [World.getElem?_pools hid] at hget'
        cases hget'
        exact (hlists.2.enroll kind hmade).fade (.of_eq rfl) rfl rfl
      · rintro other pool hother ⟨hplace, hlists⟩
        refine (hlists.addResource kind ?_).fade (.of_eq rfl) rfl rfl
        rintro rfl
        exact hother (hplace.symm.trans hpool)
  | shelve entry =>
      refine h.keep rfl (.of_eq rfl) fun pool => ?_
      obtain ⟨free, heq⟩ := Pool.push_eq { pool with leased := pool.leased - 1 } (.idle entry)
      rw [Pool.giveBack, heq]
      exact ⟨rfl, rfl⟩
  | @restore world hand owner =>
      refine h.keep rfl (.of_eq rfl) fun pool => ?_
      obtain ⟨free, leased, stale, heq⟩ := pool.restoreVacant_eq owner
      rw [heq]
      exact ⟨rfl, rfl⟩
  | refuse | disown => exact h.spare rfl ((World.Fades.forget _).of_before rfl)
  | shed | letGo | ungrasp => exact h.spare World.letGo_pools (.letGo _)
  | grasp halive => exact h.spare rfl (.hold halive)

theorem lasting_listed :
    Scene.Lasting fun scene => (scene.Accounted ∧ scene.Dated) ∧ scene.Listed where
  move fits move h := ⟨lasting_dated.move fits move h.1, move.listed fits h.1.2 h.2⟩
  tearDown fits hid h := by
    refine ⟨lasting_dated.tearDown fits hid h.1, h.2.startOver h.1.2 rfl (.of_eq rfl) hid ?_ rfl⟩
    exact ⟨(fits.pools.pool hid).pool_eq, Nat.lt_succ_self _⟩
  invalidate fits hid h := by
    refine ⟨lasting_dated.invalidate fits hid h.1,
      h.2.startOver h.1.2 World.invalidate_pools (.invalidate _) hid ?_ rfl⟩
    exact ⟨(fits.pools.pool hid).pool_eq, Nat.lt_succ_self _⟩
  drop fits hheld h := ⟨lasting_dated.drop fits hheld h.1,
    h.2.spare World.letGo_pools (World.Fades.of_before (.letGo _) rfl)⟩
  fork h := ⟨lasting_dated.fork h.1, h.2.spare rfl (.of_eq rfl)⟩
  advance h := ⟨lasting_dated.advance h.1, h.2.spare rfl (.of_eq rfl)⟩

namespace System

variable {system : System}

theorem init_listed (pids : List Pid) (pools : List (ProcessId × Config)) :
    (init pids pools).scene.Listed := by
  intro id pool hget
  obtain ⟨config, process, rfl⟩ := init_each_pool pids pools id pool hget
  refine .of_unused rfl fun resource hmaker => ?_
  rw [scene, World.makerOf?, init_resources] at hmaker
  cases hmaker

theorem reachable_listed (reach : system.Reachable) : system.scene.Listed := by
  obtain ⟨pids, pools, events, hrun⟩ := reach
  exact (lasting_listed.run? (init_fits pids pools)
    ⟨⟨init_accounted pids pools, init_dated pids pools⟩, init_listed pids pools⟩ hrun).2

/-- The resources made under an owner that were not destroyed, in the order of creation. -/
def livesUnder (system : System) (owner : Owner) : List ResourceId :=
  (List.range system.world.resources.length).filter fun resource =>
    decide (system.world.makerOf? resource = some owner) &&
      decide (Signal.destroyed resource ∉ system.world.journal)

theorem sorted_livesUnder (system : System) (owner : Owner) :
    (system.livesUnder owner).Pairwise (· < ·) :=
  List.pairwise_lt_range.filter _

theorem mem_livesUnder (reach : system.Reachable) : resource ∈ system.livesUnder owner ↔
    system.world.makerOf? resource = some owner ∧ system.world.isAlive resource = true := by
  have kept : system.world.Kept system.scene.owned system.scene.gripped := reachable_kept reach
  rw [livesUnder, List.mem_filter, List.mem_range, Bool.and_eq_true, decide_eq_true_eq,
    decide_eq_true_eq]
  constructor
  · rintro ⟨hlt, hmaker, hstays⟩
    exact ⟨hmaker, by simpa [kept.mem_destroyed_iff hlt] using hstays⟩
  · rintro ⟨hmaker, halive⟩
    have hlt := World.lt_of_makerOf? hmaker
    exact ⟨hlt, hmaker, by simp [kept.mem_destroyed_iff hlt, halive]⟩

/-- The live entries of a registry are the live resources of the pool's owner. -/
theorem filter_registry (reach : system.Reachable) (hid : id < system.world.pools.length) :
    (system.world.pool id).registry.filter system.world.isAlive =
      system.livesUnder (system.world.pool id).owner := by
  have hlists : (system.world.pool id).Lists system.world := (reachable_listed reach).pool hid
  have hfits := (reachable_fits reach).pools.pool hid
  refine (hlists.sorted.filter _).eq_of_mem_iff (system.sorted_livesUnder _) ?_
  intro resource
  rw [List.mem_filter, mem_livesUnder reach]
  constructor
  · rintro ⟨hmem, halive⟩
    exact ⟨hfits.registry resource hmem, halive⟩
  · rintro ⟨hmaker, halive⟩
    exact ⟨hlists.complete resource hmaker halive, halive⟩

/-- A resource lies idle in no pool but the one that made it. -/
theorem mem_idle_of_makerOf? (reach : system.Reachable) (hid : id < system.world.pools.length)
    (hmaker : system.world.makerOf? resource = some (system.world.pool id).owner)
    (hidle : resource ∈ system.world.idle) : resource ∈ (system.world.pool id).idle := by
  obtain ⟨pool, hpool, hidle⟩ := World.mem_idle.1 hidle
  obtain ⟨other, hget⟩ := List.mem_iff_getElem?.1 hpool
  have hfits : pool.Fits system.world other := (reachable_fits reach).pools other pool hget
  have hsame := Option.some_inj.1 ((hfits.idle resource hidle).symm.trans hmaker)
  obtain rfl : other = id := by rw [← hfits.pool_eq, hsame, reach.owner_pool hid]
  cases (World.getElem?_pools hid).symm.trans hget
  exact hidle

end System
end LeasePool
