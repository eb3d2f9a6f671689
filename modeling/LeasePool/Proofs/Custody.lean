import LeasePool.Proofs.Makers

/-!
Custody. Every resource has one place at most: it lies idle in a pool, or a caller or an operation
has it, or it was forgotten. Its holders are counted exactly: one for its place, and one for each
teardown that closes it. So it is destroyed once, when the last of them goes, and a forgotten one
never.
-/

namespace LeasePool

namespace World

variable {world after : World} {owned gripped : Multiset ResourceId} {resource asked : ResourceId}

def destructions (world : World) (resource : ResourceId) : Nat :=
  world.journal.count (.destroyed resource)

/-- The holders of each resource are its place and those that grip it besides. -/
structure Kept (world : World) (owned gripped : Multiset ResourceId) : Prop where
  holders : ∀ resource, world.holdersOf resource =
    owned.count resource + gripped.count resource + if world.isForgotten resource then 1 else 0
  single : ∀ resource,
    owned.count resource + (if world.isForgotten resource then 1 else 0) ≤ 1
  destroyed : ∀ resource, world.destructions resource =
    if resource < world.resources.length ∧ world.holdersOf resource = 0 then 1 else 0

theorem destructions_letGo : (world.letGo resource).destructions asked =
    world.destructions asked +
      if asked = resource ∧ world.holdersOf resource = 1 then 1 else 0 := by
  unfold destructions
  rw [letGo_journal]
  by_cases hlast : world.holdersOf resource = 1
  · by_cases heq : asked = resource
    · subst heq
      simp [hlast]
    · have hne : Signal.destroyed resource ≠ Signal.destroyed asked := by
        intro hsame
        exact heq (Signal.destroyed.inj hsame).symm
      simp [hlast, heq, List.count_cons_of_ne hne]
  · simp [hlast]

namespace Kept

/-- Only the resources and their destructions matter. -/
theorem congr (h : world.Kept owned gripped) (hresources : after.resources = world.resources)
    (hdestroyed : ∀ resource, after.destructions resource = world.destructions resource) :
    after.Kept owned gripped := by
  have hholders : ∀ resource, after.holdersOf resource = world.holdersOf resource := by
    intro resource
    rw [holdersOf, hresources, holdersOf]
  have hforgotten : ∀ resource, after.isForgotten resource = world.isForgotten resource := by
    intro resource
    rw [isForgotten, hresources, isForgotten]
  refine ⟨?_, ?_, ?_⟩
  · intro resource
    rw [hholders, hforgotten]
    exact h.holders resource
  · intro resource
    rw [hforgotten]
    exact h.single resource
  · intro resource
    rw [hdestroyed, hresources, hholders]
    exact h.destroyed resource

theorem emit (h : world.Kept owned gripped) {signal : Signal}
    (hsignal : ∀ resource, signal ≠ .destroyed resource) :
    (world.emit signal).Kept owned gripped :=
  h.congr rfl fun resource => List.count_cons_of_ne (hsignal resource)

theorem note (h : world.Kept owned gripped) (notice : Notice) :
    (world.note notice).Kept owned gripped := h.emit nofun

/-- A resource with a holder was not destroyed. -/
theorem destructions_eq_zero (h : world.Kept owned gripped)
    (hpos : 0 < world.holdersOf resource) : world.destructions resource = 0 := by
  rw [h.destroyed, if_neg]
  rintro ⟨-, hnone⟩
  omega

/-- A resource that was destroyed was destroyed once. -/
theorem destructions_eq_one (h : world.Kept owned gripped)
    (hgone : .destroyed resource ∈ world.journal) : world.destructions resource = 1 := by
  have hpos : 0 < world.destructions resource := List.count_pos_iff.2 hgone
  rw [h.destroyed] at hpos ⊢
  split at hpos
  · next hnone => exact if_pos hnone
  · cases hpos

/-- A resource in its place is not forgotten. -/
theorem isForgotten_eq_false (h : world.Kept owned gripped) (hmem : resource ∈ owned) :
    world.isForgotten resource = false := by
  have hsingle := h.single resource
  have hplace := Multiset.count_pos.2 hmem
  cases hforgotten : world.isForgotten resource with
  | false => rfl
  | true =>
      rw [hforgotten, if_pos rfl] at hsingle
      omega

/-- A resource in its place that nothing grips has one holder. -/
theorem holders_eq_one (h : world.Kept (resource ::ₘ owned) gripped)
    (hgrips : gripped.count resource = 0) : world.holdersOf resource = 1 := by
  have hholders := h.holders resource
  have hsingle := h.single resource
  rw [Multiset.count_cons_self] at hholders hsingle
  omega

/-- A resource is alive as long as it has a place, or something grips it, or it was forgotten. -/
theorem isAlive_iff_placed (h : world.Kept owned gripped) : world.isAlive resource = true ↔
    resource ∈ owned ∨ resource ∈ gripped ∨ world.isForgotten resource = true := by
  have hholders := h.holders resource
  rw [World.isAlive_iff, hholders, ← Multiset.count_pos, ← Multiset.count_pos]
  cases world.isForgotten resource with
  | false =>
      simp only [Bool.false_eq_true, ↓reduceIte, or_false]
      omega
  | true => simp

/-- Every resource that was made is alive until it is destroyed. -/
theorem mem_destroyed_iff (h : world.Kept owned gripped)
    (hlt : resource < world.resources.length) :
    .destroyed resource ∈ world.journal ↔ world.isAlive resource = false := by
  have hcount : world.journal.count (.destroyed resource) = _ := h.destroyed resource
  rw [← List.count_pos_iff, hcount, ← Bool.not_eq_true, World.isAlive_iff]
  by_cases hnone : world.holdersOf resource = 0 <;> simp [hlt, hnone]

theorem destroyed_letGo (h : world.Kept owned gripped) (hpos : 0 < world.holdersOf resource)
    (asked : ResourceId) : (world.letGo resource).destructions asked =
      if asked < (world.letGo resource).resources.length ∧
        (world.letGo resource).holdersOf asked = 0 then 1 else 0 := by
  rw [destructions_letGo, length_letGo, holdersOf_letGo]
  by_cases heq : asked = resource
  · subst heq
    have hlt := lt_of_holdersOf_pos hpos
    rw [h.destructions_eq_zero hpos]
    by_cases hlast : world.holdersOf asked = 1
    · simp [hlast, hlt]
    · have hmore : world.holdersOf asked - 1 ≠ 0 := by omega
      simp [hlast, hmore]
  · simp [heq, h.destroyed]

/-- A resource loses its place. -/
theorem letGo_owned (h : world.Kept (resource ::ₘ owned) gripped) :
    (world.letGo resource).Kept owned gripped := by
  have hpos : 0 < world.holdersOf resource := by
    rw [h.holders, Multiset.count_cons_self]
    omega
  refine ⟨?_, ?_, h.destroyed_letGo hpos⟩
  · intro asked
    have hholders := h.holders asked
    rw [holdersOf_letGo, isForgotten_letGo, hholders, Multiset.count_cons]
    omega
  · intro asked
    have hsingle := h.single asked
    rw [Multiset.count_cons] at hsingle
    rw [isForgotten_letGo]
    omega

/-- A teardown that closed a resource loosens its grip. -/
theorem letGo_gripped (h : world.Kept owned (resource ::ₘ gripped)) :
    (world.letGo resource).Kept owned gripped := by
  have hpos : 0 < world.holdersOf resource := by
    rw [h.holders, Multiset.count_cons_self]
    omega
  refine ⟨?_, ?_, h.destroyed_letGo hpos⟩
  · intro asked
    have hholders := h.holders asked
    rw [holdersOf_letGo, isForgotten_letGo, hholders, Multiset.count_cons]
    omega
  · intro asked
    rw [isForgotten_letGo]
    exact h.single asked

theorem hold (h : world.Kept owned gripped) (halive : world.isAlive resource = true) :
    (world.hold resource).Kept owned (resource ::ₘ gripped) := by
  have hpos := isAlive_iff.1 halive
  have hlt := lt_of_holdersOf_pos hpos
  refine ⟨?_, ?_, ?_⟩
  · intro asked
    have hholders := h.holders asked
    rw [holdersOf_hold hlt, isForgotten_hold, Multiset.count_cons]
    omega
  · intro asked
    rw [isForgotten_hold]
    exact h.single asked
  · intro asked
    change world.destructions asked = _
    rw [h.destroyed, length_hold, holdersOf_hold hlt]
    by_cases heq : asked = resource
    · subst heq
      simp [Nat.ne_of_gt hpos]
    · simp [heq]

/-- A resource is given up without losing its place: the place is gone, its holder stays. -/
theorem forget (h : world.Kept (resource ::ₘ owned) gripped) :
    (world.forget resource).Kept owned gripped := by
  have hpos : 0 < world.holdersOf resource := by
    rw [h.holders, Multiset.count_cons_self]
    omega
  have hlt := lt_of_holdersOf_pos hpos
  have hplace : world.isForgotten resource = false :=
    h.isForgotten_eq_false (Multiset.mem_cons_self _ _)
  refine ⟨?_, ?_, ?_⟩
  · intro asked
    have hholders := h.holders asked
    rw [holdersOf_forget, isForgotten_forget hlt, hholders, Multiset.count_cons]
    by_cases heq : asked = resource
    · subst heq
      simp [hplace]
      omega
    · simp [heq]
  · intro asked
    have hsingle := h.single asked
    rw [Multiset.count_cons] at hsingle
    rw [isForgotten_forget hlt]
    by_cases heq : asked = resource
    · subst heq
      simpa [hplace] using hsingle
    · simpa [heq] using hsingle
  · intro asked
    rw [length_forget, holdersOf_forget]
    exact h.destroyed asked

theorem addResource (h : world.Kept owned gripped) (kind : String) (owner : Owner) :
    (world.addResource kind owner).Kept (world.resources.length ::ₘ owned) gripped := by
  have hnone : world.holdersOf world.resources.length = 0 := by
    by_contra hsome
    exact Nat.lt_irrefl _ (lt_of_holdersOf_pos (Nat.pos_of_ne_zero hsome))
  have hfresh := h.holders world.resources.length
  rw [hnone] at hfresh
  refine ⟨?_, ?_, ?_⟩
  · intro asked
    rw [holdersOf_addResource, isForgotten_addResource, Multiset.count_cons]
    by_cases heq : asked = world.resources.length
    · rw [if_pos heq, if_pos heq, heq]
      omega
    · rw [if_neg heq, if_neg heq, Nat.add_zero]
      exact h.holders asked
  · intro asked
    rw [isForgotten_addResource, Multiset.count_cons]
    by_cases heq : asked = world.resources.length
    · rw [if_pos heq, heq]
      omega
    · rw [if_neg heq, Nat.add_zero]
      exact h.single asked
  · intro asked
    change world.destructions asked = _
    rw [h.destroyed, length_addResource, holdersOf_addResource]
    by_cases heq : asked = world.resources.length
    · simp [heq]
    · rcases Nat.lt_or_gt_of_ne heq with hlt | hgt
      · simp [heq, hlt, Nat.lt_succ_of_lt hlt]
      · have hbefore : ¬ asked < world.resources.length := Nat.not_lt_of_gt hgt
        have hafter : ¬ asked < world.resources.length + 1 :=
          Nat.not_lt_of_le (Nat.succ_le_of_lt hgt)
        simp [hbefore, hafter]

theorem letGoAll {resources : List ResourceId} (h : world.Kept (↑resources + owned) gripped) :
    (world.letGoAll resources).Kept owned gripped := by
  induction resources generalizing world with
  | nil =>
      rw [Multiset.coe_nil, zero_add] at h
      exact h
  | cons resource rest ih =>
      rw [← Multiset.cons_coe, Multiset.cons_add] at h
      exact ih h.letGo_owned

theorem forgetAll {resources : List ResourceId} (h : world.Kept (↑resources + owned) gripped) :
    (world.forgetAll resources).Kept owned gripped := by
  induction resources generalizing world with
  | nil =>
      rw [Multiset.coe_nil, zero_add] at h
      exact h
  | cons resource rest ih =>
      rw [← Multiset.cons_coe, Multiset.cons_add] at h
      exact ih h.forget

end Kept

variable {id : PoolId} {change : Pool → Pool}

def idle (world : World) : Multiset ResourceId := (world.pools.map Pool.idle).sum

theorem mem_idle : resource ∈ world.idle ↔
    ∃ pool ∈ world.pools, resource ∈ pool.idle := by
  rw [idle]
  induction world.pools with
  | nil => simp
  | cons pool rest ih => simp [ih]

theorem idle_split (hid : id < world.pools.length) : ∃ others,
    world.idle = (world.pool id).idle + others ∧
      ∀ change, (world.modifyPool id change).idle = (change (world.pool id)).idle + others := by
  have hpool : world.pools[id] = world.pool id :=
    Option.some_inj.1 ((List.getElem?_eq_getElem hid).symm.trans (getElem?_pools hid))
  refine ⟨((world.pools.take id).map Pool.idle).sum +
    ((world.pools.drop (id + 1)).map Pool.idle).sum, ?_, ?_⟩
  · have hsplit : world.pools =
        world.pools.take id ++ world.pool id :: world.pools.drop (id + 1) := by
      rw [← hpool, List.getElem_cons_drop, List.take_append_drop]
    rw [idle, hsplit, List.map_append, List.sum_append, List.map_cons, List.sum_cons,
      add_left_comm, ← hsplit]
  · intro change
    rw [idle, modifyPool, List.modify_eq_take_cons_drop hid, hpool, List.map_append,
      List.sum_append, List.map_cons, List.sum_cons, add_left_comm]

/-- What one pool changes about its idle resources is all that changes about them. -/
theorem idle_modifyPool {gone come : Multiset ResourceId} (hid : id < world.pools.length)
    (h : (world.pool id).idle + come = (change (world.pool id)).idle + gone) :
    world.idle + come = (world.modifyPool id change).idle + gone := by
  obtain ⟨others, hbefore, hafter⟩ := idle_split hid
  rw [hbefore, hafter, add_right_comm, h, add_right_comm]

theorem idle_modifyPool_of_eq (h : ∀ pool, (change pool).idle = pool.idle) :
    (world.modifyPool id change).idle = world.idle := by
  by_cases hid : id < world.pools.length
  · obtain ⟨others, hbefore, hafter⟩ := idle_split hid
    rw [hbefore, hafter, h]
  · rw [idle, modifyPool, List.modify_eq_self (Nat.le_of_not_lt hid), idle]

theorem mem_idle_modifyPool {other : PoolId} (h : ∀ pool, (change pool).idle = pool.idle)
    (hmem : resource ∈ (world.pool other).idle) :
    resource ∈ ((world.modifyPool id change).pool other).idle := by
  rwa [view_modifyPool Pool.idle h]

theorem idle_congr (h : after.pools = world.pools) : after.idle = world.idle := by
  rw [idle, h, idle]

end World

/-- The resource that something in hand is the place of. -/
def Holding.owned? : Holding → Option ResourceId
  | .lease _ _ resource | .handed _ resource | .loose _ resource => some resource
  | .turn _ | .pause _ | .slot .. | .grip .. | .listed .. | .mention .. => none

/-- The resource that something in hand grips besides. -/
def Holding.gripped? : Holding → Option ResourceId
  | .grip _ resource => some resource
  | _ => none

namespace Scene

variable {world after : World} {hand left : Multiset Holding} {holding : Holding}
  {resource : ResourceId}

/-- All resources in their places. -/
def owned (scene : Scene) : Multiset ResourceId :=
  scene.world.idle +
    (↑(scene.world.held.map (·.resource)) + scene.hand.filterMap Holding.owned?)

/-- All resources that teardowns grip. -/
def gripped (scene : Scene) : Multiset ResourceId := scene.hand.filterMap Holding.gripped?

/-- The places and grips are the holders of the resources. -/
def Kept (scene : Scene) : Prop := scene.world.Kept scene.owned scene.gripped

theorem owned_cons_some (h : holding.owned? = some resource) :
    owned ⟨world, holding ::ₘ hand⟩ = resource ::ₘ owned ⟨world, hand⟩ := by
  rw [owned, Multiset.filterMap_cons_some _ _ _ h, Multiset.add_cons, Multiset.add_cons, owned]

theorem owned_cons_none (h : holding.owned? = none) :
    owned ⟨world, holding ::ₘ hand⟩ = owned ⟨world, hand⟩ := by
  rw [owned, Multiset.filterMap_cons_none _ _ h, owned]

theorem gripped_cons_some (h : holding.gripped? = some resource) :
    gripped ⟨world, holding ::ₘ hand⟩ = resource ::ₘ gripped ⟨world, hand⟩ :=
  Multiset.filterMap_cons_some _ _ _ h

theorem gripped_cons_none (h : holding.gripped? = none) :
    gripped ⟨world, holding ::ₘ hand⟩ = gripped ⟨world, hand⟩ :=
  Multiset.filterMap_cons_none _ _ h

theorem owned_congr (hidle : after.idle = world.idle) (hheld : after.held = world.held) :
    owned ⟨after, hand⟩ = owned ⟨world, hand⟩ := by
  rw [owned, owned, hidle, hheld]

theorem owned_part {lease : Lease} (hheld : lease ∈ world.held) :
    owned ⟨world, hand⟩ = lease.resource ::ₘ owned ⟨world.part lease, hand⟩ := by
  have hperm := (List.perm_cons_erase hheld).map (·.resource)
  rw [owned, owned, Multiset.coe_eq_coe.2 hperm, World.part, List.map_cons, ← Multiset.cons_coe,
    Multiset.cons_add, Multiset.add_cons]
  rfl

theorem owned_keep {lease : Lease} :
    owned ⟨world.keep lease, hand⟩ = lease.resource ::ₘ owned ⟨world, hand⟩ := by
  rw [owned, World.keep, List.map_cons, ← Multiset.cons_coe, Multiset.cons_add,
    Multiset.add_cons]
  rfl

theorem owned_add_loose {id : PoolId} (resources : List ResourceId) :
    owned ⟨world, ↑(resources.map (Holding.loose id)) + hand⟩ =
      ↑resources + owned ⟨world, hand⟩ := by
  have hloose : Multiset.filterMap Holding.owned? ↑(resources.map (Holding.loose id)) =
      ↑resources := by
    rw [← Multiset.map_coe, Multiset.filterMap_map]
    exact Multiset.filterMap_some _
  rw [owned, Multiset.filterMap_add, hloose, add_left_comm _ (resources : Multiset ResourceId),
    add_left_comm _ (resources : Multiset ResourceId), owned]

theorem owned_add {apart : Multiset Holding} (h : ∀ holding ∈ apart, holding.owned? = none) :
    owned ⟨world, apart + hand⟩ = owned ⟨world, hand⟩ := by
  rw [owned, Multiset.filterMap_add, filterMap_eq_zero h, zero_add, owned]

theorem gripped_add {apart : Multiset Holding} (h : ∀ holding ∈ apart, holding.gripped? = none) :
    gripped ⟨world, apart + hand⟩ = gripped ⟨world, hand⟩ := by
  rw [gripped, Multiset.filterMap_add, filterMap_eq_zero h, zero_add, gripped]

/-- Resources come to a pool and go from it. -/
theorem owned_exchange {gone come : Multiset ResourceId}
    (hidle : world.idle + come = after.idle + gone) (hheld : after.held = world.held) :
    owned ⟨world, hand⟩ + come = owned ⟨after, hand⟩ + gone := by
  rw [owned, owned, add_right_comm, hidle, add_right_comm, hheld]

/-- No resource is made, destroyed or forgotten, and none loses its place. -/
theorem Kept.spare (h : Kept ⟨world, hand⟩) (hresources : after.resources = world.resources)
    (hdestroyed : ∀ resource, after.destructions resource = world.destructions resource)
    (howned : owned ⟨after, left⟩ = owned ⟨world, hand⟩)
    (hgripped : gripped ⟨after, left⟩ = gripped ⟨world, hand⟩) : Kept ⟨after, left⟩ := by
  rw [Kept, howned, hgripped]
  exact World.Kept.congr h hresources hdestroyed

/-- One pool changes but not its idle resources. -/
theorem Kept.modify {id : PoolId} {change : Pool → Pool} (h : Kept ⟨world, hand⟩)
    (hidle : ∀ pool, (change pool).idle = pool.idle)
    (howned : owned ⟨world, left⟩ = owned ⟨world, hand⟩)
    (hgripped : gripped ⟨world, left⟩ = gripped ⟨world, hand⟩) :
    Kept ⟨world.modifyPool id change, left⟩ :=
  h.spare rfl (fun _ => rfl)
    ((owned_congr (World.idle_modifyPool_of_eq hidle) rfl).trans howned) hgripped

/-- A pool starts over: its idle resources are out of their places. -/
theorem Kept.emptied {id : PoolId} (h : Kept ⟨world, hand⟩) (hid : id < world.pools.length)
    (owner : Owner) (inherited : Bool) (notice : Notice) :
    ((world.modifyPool id fun pool => pool.reset owner inherited).note notice).Kept
      (↑(idleFromBottom (world.pool id).free) +
        owned ⟨world.modifyPool id fun pool => pool.reset owner inherited, hand⟩)
      (gripped ⟨world, hand⟩) := by
  have hempty : ((world.pool id).reset owner inherited).idle = 0 :=
    congrArg Multiset.ofList (idleFromBottom_replicate_vacant _)
  have hidle : world.idle + 0 =
      (world.modifyPool id fun pool => pool.reset owner inherited).idle + (world.pool id).idle :=
    World.idle_modifyPool hid (by rw [hempty, zero_add, add_zero])
  have howned : owned ⟨world, hand⟩ + 0 = owned ⟨world.modifyPool id
      fun pool => pool.reset owner inherited, hand⟩ + (world.pool id).idle :=
    owned_exchange hidle rfl
  rw [add_zero, add_comm] at howned
  rw [Kept, howned] at h
  have hreset : (world.modifyPool id fun pool => pool.reset owner inherited).Kept
      ((world.pool id).idle + owned ⟨world.modifyPool id fun pool => pool.reset owner inherited,
        hand⟩) (gripped ⟨world, hand⟩) := World.Kept.congr h rfl fun _ => rfl
  exact hreset.note notice

/-- A pool starts over: its idle resources are destroyed, or forgotten. -/
theorem Kept.reset {id : PoolId} {owner : Owner} {inherited : Bool} (h : Kept ⟨world, hand⟩)
    (hid : id < world.pools.length) : Kept ⟨world.reset id owner inherited, hand⟩ := by
  have hemptied := h.emptied hid owner inherited
    (.reset (world.pool id).registry.length owner.pid owner.epoch)
  cases inherited with
  | false =>
      rw [World.reset, if_neg Bool.false_ne_true, Kept,
        owned_congr (World.idle_congr World.letGoAll_pools) World.letGoAll_held]
      exact hemptied.letGoAll
  | true =>
      rw [World.reset, if_pos rfl, Kept,
        owned_congr (World.idle_congr World.forgetAll_pools) World.forgetAll_held]
      exact hemptied.forgetAll

theorem Kept.checkOwner {id : PoolId} (h : Kept ⟨world, hand⟩) (hid : id < world.pools.length) :
    Kept ⟨world.checkOwner id, hand⟩ := by
  by_cases hpid : world.currentPid id = (world.pool id).notedPid
  · rw [World.checkOwner_of_eq hpid]
    exact h
  · rw [World.checkOwner_of_ne hpid]
    have hnoted : Kept ⟨world.note (.processChanged (world.pool id).notedPid
        (world.currentPid id)), hand⟩ := World.Kept.note h _
    exact hnoted.reset hid

theorem Kept.invalidate {id : PoolId} (h : Kept ⟨world, hand⟩) (hid : id < world.pools.length) :
    Kept ⟨world.invalidate id, hand⟩ := by
  have hnoted : Kept ⟨world.note (.invalidated (world.pool id).owner.nextEpoch.epoch), hand⟩ :=
    World.Kept.note h _
  rw [World.invalidate]
  exact hnoted.reset hid

theorem Kept.dropLease {lease : Lease} (h : Kept ⟨world, hand⟩) (hheld : lease ∈ world.held) :
    Kept ⟨world.dropLease lease, hand⟩ := by
  rw [Kept, owned_part hheld] at h
  rw [World.dropLease, Kept, owned_congr (World.idle_congr World.letGo_pools) World.letGo_held]
  exact World.Kept.letGo_owned (World.Kept.congr h rfl fun _ => rfl)

end Scene

theorem Move.kept {id : PoolId} {scene next : Scene} (move : Move id scene next)
    (fits : scene.Fits) (h : scene.Kept) : next.Kept := by
  cases move with
  | tell notice => exact World.Kept.note h notice
  | refresh hid => exact h.checkOwner hid
  | enqueue hid hpid =>
      exact h.modify (fun _ => rfl) (Scene.owned_cons_none rfl) (Scene.gripped_cons_none rfl)
  | giveUp hfree =>
      exact h.modify (fun _ => rfl) (Scene.owned_cons_none rfl).symm
        (Scene.gripped_cons_none rfl).symm
  | @take world hand slot rest hfree =>
      have hid := World.lt_of_free_eq_cons hfree
      have hidle : world.idle + 0 = (world.modifyPool id Pool.take).idle +
          ↑(slot.idle?.map (·.resource)).toList :=
        World.idle_modifyPool hid (by rw [add_zero, Pool.idle_take hfree])
      have howned : Scene.owned ⟨world, hand⟩ + 0 =
          Scene.owned ⟨world.modifyPool id Pool.take, hand⟩ +
            ↑(slot.idle?.map (·.resource)).toList := Scene.owned_exchange hidle rfl
      have hkept : Scene.Kept ⟨world.modifyPool id Pool.take,
          slot.holding id (world.pool id).owner ::ₘ hand⟩ := by
        have hturn : Scene.owned ⟨world, .turn id ::ₘ hand⟩ = Scene.owned ⟨world, hand⟩ :=
          Scene.owned_cons_none rfl
        have hgrips : Scene.gripped ⟨world, .turn id ::ₘ hand⟩ = Scene.gripped ⟨world, hand⟩ :=
          Scene.gripped_cons_none rfl
        rw [add_zero, ← hturn] at howned
        cases slot with
        | vacant =>
            refine h.spare rfl (fun _ => rfl) ?_ ((Scene.gripped_cons_none rfl).trans hgrips.symm)
            rw [howned]
            exact (Scene.owned_cons_none rfl).trans (add_zero _).symm
        | idle entry =>
            refine h.spare rfl (fun _ => rfl) ?_ ((Scene.gripped_cons_none rfl).trans hgrips.symm)
            rw [howned, add_comm]
            exact (Scene.owned_cons_some rfl).trans (Multiset.singleton_add _ _).symm
      exact World.Kept.emit hkept nofun
  | @make world hand owner kind =>
      have hkept : Scene.Kept ⟨world.addResource kind owner,
          .lease id owner world.resources.length ::ₘ hand⟩ := by
        rw [Scene.Kept, Scene.owned_cons_none rfl, Scene.gripped_cons_none rfl] at h
        rw [Scene.Kept, Scene.owned_cons_some rfl, Scene.gripped_cons_none rfl]
        exact World.Kept.addResource h kind owner
      exact hkept.modify (fun pool => pool.idle_enroll _ _ _) rfl rfl
  | countFailure => exact h.modify (fun _ => rfl) rfl rfl
  | lend lease => exact World.Kept.emit h nofun
  | keep lease =>
      refine h.spare rfl (fun _ => rfl) ?_ (Scene.gripped_cons_none rfl).symm
      rw [Scene.owned_keep, Scene.owned_cons_some rfl]
  | part hheld =>
      refine h.spare rfl (fun _ => rfl) ?_ (Scene.gripped_cons_none rfl)
      rw [Scene.owned_cons_some rfl, ← Scene.owned_part hheld]
  | handIn | accept =>
      refine h.spare rfl (fun _ => rfl) ?_ ?_
      · rw [Scene.owned_cons_some rfl, Scene.owned_cons_some rfl]
      · rw [Scene.gripped_cons_none rfl, Scene.gripped_cons_none rfl]
  | detach =>
      refine h.spare rfl (fun _ => rfl) ?_ ?_
      · rw [Scene.owned_cons_none rfl, Scene.owned_cons_some rfl, Scene.owned_cons_some rfl]
      · rw [Scene.gripped_cons_none rfl, Scene.gripped_cons_none rfl,
          Scene.gripped_cons_none rfl]
  | @shelve world hand owner entry howner hpool hroom =>
      obtain ⟨hid, -⟩ := fits.hand _ (Multiset.mem_cons_self _ _)
      rw [hpool] at hid
      have hidle : world.idle + {entry.resource} =
          (world.modifyPool id fun pool => pool.giveBack (.idle entry)).idle + 0 :=
        World.idle_modifyPool hid (by
          rw [Pool.idle_giveBack entry hroom, add_zero, add_comm, Multiset.singleton_add])
      have howned : Scene.owned ⟨world, hand⟩ + {entry.resource} = Scene.owned ⟨world.modifyPool id
          fun pool => pool.giveBack (.idle entry), hand⟩ + 0 := Scene.owned_exchange hidle rfl
      have hkept : Scene.Kept ⟨world.modifyPool id fun pool => pool.giveBack (.idle entry),
          hand⟩ := by
        refine h.spare rfl (fun _ => rfl) ?_ (Scene.gripped_cons_none rfl).symm
        rw [Scene.owned_cons_some rfl, ← Multiset.singleton_add, add_comm, howned, add_zero]
      exact World.Kept.emit hkept nofun
  | restore =>
      refine Scene.Kept.modify (World.Kept.emit h nofun) ?_ (Scene.owned_cons_none rfl).symm
        (Scene.gripped_cons_none rfl).symm
      intro pool
      rw [Pool.idle, Pool.idleFromBottom_restoreVacant, Pool.idle]
  | refuse =>
      rw [Scene.Kept, Scene.owned_cons_some rfl, Scene.gripped_cons_none rfl] at h
      exact World.Kept.forget (World.Kept.emit h nofun)
  | disown hpid =>
      rw [Scene.Kept, Scene.owned_cons_some rfl, Scene.gripped_cons_none rfl] at h
      exact World.Kept.forget h
  | shed | letGo =>
      rw [Scene.Kept, Scene.owned_cons_some rfl, Scene.gripped_cons_none rfl] at h
      rw [Scene.Kept, Scene.owned_congr (World.idle_congr World.letGo_pools) World.letGo_held]
      exact World.Kept.letGo_owned h
  | ungrasp =>
      rw [Scene.Kept, Scene.owned_cons_none rfl, Scene.gripped_cons_some rfl] at h
      rw [Scene.Kept, Scene.owned_congr (World.idle_congr World.letGo_pools) World.letGo_held]
      exact World.Kept.letGo_gripped h
  | grasp halive =>
      rw [Scene.Kept, Scene.owned_cons_none rfl, Scene.gripped_cons_none rfl] at h
      rw [Scene.Kept, Scene.owned_cons_none rfl, Scene.gripped_cons_some rfl]
      exact World.Kept.hold h halive
  | skip | closed =>
      exact h.spare rfl (fun _ => rfl) (Scene.owned_cons_none rfl).symm
        (Scene.gripped_cons_none rfl).symm
  | @vacate world hand hid takes hpid =>
      have hidle : world.idle + 0 = (world.modifyPool id fun pool => pool.vacate takes).idle +
          ↑((world.pool id).selected takes) :=
        World.idle_modifyPool hid (by rw [add_zero, Pool.idle_vacate_add_selected])
      refine h.spare rfl (fun _ => rfl) ?_ ?_
      · rw [Scene.owned_add_loose, Scene.owned_add (by simp [Holding.owned?]), add_comm,
          ← Scene.owned_exchange hidle rfl, add_zero]
      · rw [Scene.gripped_add (by simp [Holding.gripped?]),
          Scene.gripped_add (by simp [Holding.gripped?])]
        rfl
  | pause hid =>
      exact h.spare rfl (fun _ => rfl) (Scene.owned_cons_none rfl) (Scene.gripped_cons_none rfl)
  | resume =>
      exact h.spare rfl (fun _ => rfl) (Scene.owned_cons_none rfl).symm
        (Scene.gripped_cons_none rfl).symm

theorem lasting_kept : Scene.Lasting Scene.Kept where
  move fits move h := move.kept fits h
  tearDown := by
    intro world hand id _ hid h
    have hidle : world.idle + 0 =
        (world.modifyPool id Pool.tearDown).idle + ↑(idleFromBottom (world.pool id).free) :=
      World.idle_modifyPool hid ((add_zero _).trans (zero_add _).symm)
    refine h.spare rfl (fun _ => rfl) ?_ ?_
    · rw [Scene.owned_add (by simp [Holding.owned?]), Scene.owned_add_loose, add_comm,
        ← Scene.owned_exchange hidle rfl, add_zero]
    · rw [Scene.gripped_add (by simp [Holding.gripped?]),
        Scene.gripped_add (by simp [Holding.gripped?])]
      rfl
  invalidate _ hid h := h.invalidate hid
  drop _ hheld h := h.dropLease hheld
  fork h := h.spare rfl (fun _ => rfl) rfl rfl
  advance h := h.spare rfl (fun _ => rfl) rfl rfl

section Journal

variable {world : World} {id : PoolId} {resource : ResourceId} {signal : Signal}

theorem World.mem_journal_letGo (h : signal ∈ world.journal) :
    signal ∈ (world.letGo resource).journal := by
  rw [letGo_journal]
  split
  · exact List.mem_cons_of_mem _ h
  · exact h

/-- The last holder of a resource lets it go after it was closed. -/
theorem World.destroyed_letGo_noteClose (hlast : world.holdersOf resource = 1)
    (failure : Option Failure) :
    .destroyed resource ∈ ((world.noteClose resource failure).letGo resource).journal := by
  have hholders : (world.noteClose resource failure).holdersOf resource = 1 := by
    rw [holdersOf, noteClose_resources, ← holdersOf, hlast]
  rw [letGo_journal, if_pos hholders]
  exact List.mem_cons_self

theorem World.mem_journal_letGoAll {resources : List ResourceId} (h : signal ∈ world.journal) :
    signal ∈ (world.letGoAll resources).journal := by
  induction resources generalizing world with
  | nil => exact h
  | cons resource rest ih => exact ih (mem_journal_letGo h)

theorem World.mem_journal_reset {owner : Owner} {inherited : Bool} (h : signal ∈ world.journal) :
    signal ∈ (world.reset id owner inherited).journal := by
  have hnoted : signal ∈ ((world.modifyPool id fun pool => pool.reset owner inherited).note
      (.reset (world.pool id).registry.length owner.pid owner.epoch)).journal :=
    List.mem_cons_of_mem _ h
  cases inherited with
  | false => exact mem_journal_letGoAll hnoted
  | true =>
      rw [reset, if_pos rfl, forgetAll_journal]
      exact hnoted

theorem World.mem_journal_checkOwner (h : signal ∈ world.journal) :
    signal ∈ (world.checkOwner id).journal := by
  by_cases hpid : world.currentPid id = (world.pool id).notedPid
  · rw [checkOwner_of_eq hpid]
    exact h
  · rw [checkOwner_of_ne hpid]
    exact mem_journal_reset (List.mem_cons_of_mem _ h)

theorem World.mem_journal_invalidate (h : signal ∈ world.journal) :
    signal ∈ (world.invalidate id).journal :=
  mem_journal_reset (List.mem_cons_of_mem _ h)

/-- What is in the journal stays there. -/
theorem lasting_journal (signal : Signal) :
    Scene.Lasting fun scene => signal ∈ scene.world.journal where
  move _ move h := by
    cases move with
    | refresh => exact World.mem_journal_checkOwner h
    | shed | letGo | ungrasp => exact World.mem_journal_letGo h
    | tell | take | lend | shelve | restore | refuse => exact List.mem_cons_of_mem _ h
    | _ => exact h
  tearDown _ _ h := h
  invalidate _ _ h := World.mem_journal_invalidate h
  drop _ _ h := World.mem_journal_letGo h
  fork h := h
  advance h := h

end Journal

namespace System

variable {system : System}

theorem init_kept (pids : List Pid) (pools : List (ProcessId × Config)) :
    (init pids pools).scene.Kept := by
  have hidle : (init pids pools).world.idle = 0 := by
    refine List.sum_eq_zero fun resources hmem => ?_
    obtain ⟨pool, hpool, rfl⟩ := List.mem_map.1 hmem
    obtain ⟨id, hget⟩ := List.mem_iff_getElem?.1 hpool
    obtain ⟨config, process, rfl⟩ := init_each_pool pids pools id pool hget
    exact congrArg Multiset.ofList (idleFromBottom_replicate_vacant _)
  have howned : (init pids pools).scene.owned = 0 := by
    rw [Scene.owned, scene, hidle, init_held]
    rfl
  have hgripped : (init pids pools).scene.gripped = 0 := Multiset.filterMap_zero _
  have hresources := init_resources pids pools
  rw [Scene.Kept, howned, hgripped]
  refine ⟨?_, ?_, ?_⟩
  · intro resource
    simp [scene, World.holdersOf, World.isForgotten, hresources]
  · intro resource
    simp [scene, World.isForgotten, hresources]
  · intro resource
    rw [scene, hresources, World.destructions, List.count_eq_zero_of_not_mem]
    · simp
    · intro hmem
      obtain ⟨notice, hnotice⟩ := init_journal pids pools _ hmem
      cases hnotice

theorem reachable_kept (h : system.Reachable) : system.scene.Kept := by
  obtain ⟨pids, pools, events, hrun⟩ := h
  exact lasting_kept.run? (init_fits pids pools) (init_kept pids pools) hrun

/-- The resource of a lease that an operation has, has no other holder but teardowns. -/
theorem holders_of_leased {task : Task} {id : PoolId} {owner : Owner} {resource : ResourceId}
    (reach : system.Reachable) (htask : task ∈ system.tasks)
    (hholdings : task.holdings = {.lease id owner resource})
    (hgrip : resource ∉ system.scene.gripped) : system.world.holdersOf resource = 1 := by
  obtain ⟨place, hplace⟩ := List.mem_iff_getElem?.1 htask
  have howned : system.scene.owned =
      resource ::ₘ Scene.owned ⟨system.world, handOf (system.tasks.eraseIdx place)⟩ := by
    rw [scene, handOf_eraseIdx hplace, hholdings, Multiset.singleton_add, Scene.owned_cons_some rfl]
  have kept : World.Kept system.world system.scene.owned system.scene.gripped :=
    reachable_kept reach
  rw [howned] at kept
  exact kept.holders_eq_one (Multiset.count_eq_zero.2 hgrip)

end System
end LeasePool
