import LeasePool.Proofs.Conservation

/-!
Epochs. The epoch of a pool only grows, and it grows with every change of its owner; so an owner
that a pool lost never comes back, even if its pid does. A resource was made in an epoch that its
pool has reached, and what a teardown still closes was made in one that is over.
-/

namespace LeasePool

variable {id agent : PoolId} {scene next : Scene} {system final : System} {resource : ResourceId}
  {owner : Owner}

/-- The epoch of the pool grew, or its owner is the same; the floor did not sink, and each reset
began an epoch. -/
structure Pool.Advances (before after : Pool) : Prop where
  epoch_le : before.owner.epoch ≤ after.owner.epoch
  owner_eq : after.owner.epoch = before.owner.epoch → after.owner = before.owner
  floor_le : before.reclaimFloor ≤ after.reclaimFloor
  epoch_lt : after.resets ≠ before.resets → before.owner.epoch < after.owner.epoch

namespace Pool

variable {pool middle after : Pool} {out : Multiset Owner}

theorem Steady.advances (h : pool.Steady after) : pool.Advances after :=
  ⟨h.owner_eq ▸ Nat.le_refl _, fun _ => h.owner_eq, h.floor_eq.ge,
    fun hne => absurd h.resets_eq hne⟩

theorem Advances.refl (pool : Pool) : pool.Advances pool := (Steady.refl pool).advances

theorem Advances.trans (first : pool.Advances middle) (second : middle.Advances after) :
    pool.Advances after := by
  have hfirst := first.epoch_le
  have hsecond := second.epoch_le
  refine ⟨Nat.le_trans hfirst hsecond, ?_, Nat.le_trans first.floor_le second.floor_le, ?_⟩
  · intro heq
    exact (second.owner_eq (by omega)).trans (first.owner_eq (by omega))
  · intro hne
    by_cases hlast : after.resets = middle.resets
    · exact Nat.lt_of_lt_of_le (first.epoch_lt (hlast ▸ hne)) hsecond
    · exact Nat.lt_of_le_of_lt hfirst (second.epoch_lt hlast)

/-- An epoch begins. -/
theorem Advances.of_lt (hepoch : pool.owner.epoch < after.owner.epoch)
    (hfloor : pool.reclaimFloor ≤ after.reclaimFloor) : pool.Advances after :=
  ⟨Nat.le_of_lt hepoch, fun heq => absurd heq (Nat.ne_of_gt hepoch), hfloor, fun _ => hepoch⟩

theorem Balanced.advances_reset (h : pool.Balanced out) (hepoch : pool.owner.epoch < owner.epoch)
    (inherited : Bool) : pool.Advances (pool.reset owner inherited) := by
  refine .of_lt hepoch ?_
  cases inherited with
  | false => exact Nat.le_refl _
  | true => exact Nat.le_of_lt (Nat.lt_of_le_of_lt h.floor_le hepoch)

theorem Balanced.advances_tearDown (h : pool.Balanced out) : pool.Advances pool.tearDown :=
  .of_lt (Nat.lt_succ_self _) (Nat.le_succ_of_le h.floor_le)

end Pool

theorem Move.advances (move : Move agent scene next) (h : scene.Accounted)
    (hid : id < scene.world.pools.length) :
    (scene.world.pool id).Advances (next.world.pool id) := by
  by_cases hagent : id = agent
  · subst hagent
    rcases move.steady_or_reset h hid with hsteady | ⟨-, hreset⟩
    · exact hsteady.advances
    · rw [hreset]
      exact (h.pools.pool hid).advances_reset (Nat.lt_succ_self _) true
  · rw [move.pool_of_ne hagent]
    exact .refl _

/-- What happens to one pool and makes it advance makes every pool advance. -/
theorem World.advances_modifyPool {world : World} {change : Pool → Pool}
    (h : (world.pool agent).Advances (change (world.pool agent)))
    (hagent : agent < world.pools.length) :
    (world.pool id).Advances ((world.modifyPool agent change).pool id) := by
  by_cases heq : id = agent
  · subst heq
    rw [World.pool_modifyPool_self hagent]
    exact h
  · rw [World.pool_modifyPool_of_ne heq]
    exact .refl _

/-- A pool advances along every run. -/
theorem lasting_advances (start : Pool) (id : PoolId) : Scene.Lasting fun scene =>
    scene.Accounted ∧ id < scene.world.pools.length ∧ start.Advances (scene.world.pool id) where
  move := by
    rintro agent scene next fits move ⟨h, hid, hstart⟩
    exact ⟨move.accounted fits h, move.length_pools.symm ▸ hid, hstart.trans (move.advances h hid)⟩
  tearDown := by
    rintro world hand agent fits hagent ⟨h, hid, hstart⟩
    refine ⟨lasting_accounted.tearDown fits hagent h, ?_, hstart.trans ?_⟩
    · rwa [Scene.length_tearDown]
    · exact World.advances_modifyPool (h.pools.pool hagent).advances_tearDown hagent
  invalidate := by
    rintro world hand agent fits hagent ⟨h, hid, hstart⟩
    refine ⟨lasting_accounted.invalidate fits hagent h, ?_, hstart.trans ?_⟩
    · rwa [World.invalidate_pools, World.length_modifyPool]
    · rw [World.pool_congr World.invalidate_pools]
      exact World.advances_modifyPool
        ((h.pools.pool hagent).advances_reset (Nat.lt_succ_self _) false) hagent
  drop := by
    rintro world hand lease fits hheld ⟨h, hid, hstart⟩
    have hpools : (world.dropLease lease).pools = world.pools := World.letGo_pools
    refine ⟨lasting_accounted.drop fits hheld h, hpools ▸ hid, ?_⟩
    rw [World.pool_congr hpools]
    exact hstart
  fork h := ⟨lasting_accounted.fork h.1, h.2⟩
  advance h := ⟨lasting_accounted.advance h.1, h.2⟩

/-- What belongs to a teardown of a pool was made in an epoch of it that is over. -/
def Holding.IsPast (world : World) : Holding → Prop
  | .grip id resource | .listed id resource =>
      ∃ owner, world.makerOf? resource = some owner ∧ owner.pool = id ∧
        owner.epoch < (world.pool id).owner.epoch
  | _ => True

/-- Resources were made in epochs that their pools have reached, and what teardowns close, in epochs
that are over. -/
structure Scene.Dated (scene : Scene) : Prop where
  made : ∀ resource owner, scene.world.makerOf? resource = some owner →
    owner.pool < scene.world.pools.length ∧
      owner.epoch ≤ (scene.world.pool owner.pool).owner.epoch
  closing : ∀ holding ∈ scene.hand, holding.IsPast scene.world

namespace Scene.Dated

variable {world after : World} {hand left : Multiset Holding}

theorem isPast (h : Dated ⟨world, hand⟩) (hmaker : world.KeepsMakers after)
    (hepochs : ∀ id < world.pools.length,
      (world.pool id).owner.epoch ≤ (after.pool id).owner.epoch) :
    ∀ holding ∈ hand, holding.IsPast after := by
  intro holding hmem
  have hpast := h.closing holding hmem
  cases holding with
  | grip | listed =>
      obtain ⟨owner, howner, rfl, hepoch⟩ := hpast
      exact ⟨owner, hmaker _ _ howner, rfl,
        Nat.lt_of_lt_of_le hepoch (hepochs _ (h.made _ _ howner).1)⟩
  | turn | pause | slot | lease | handed | loose | mention => trivial

/-- No resource is made, and pools advance. -/
theorem mono (h : Dated ⟨world, hand⟩) (hlength : after.pools.length = world.pools.length)
    (hmaker : ∀ resource, after.makerOf? resource = world.makerOf? resource)
    (hepochs : ∀ id < world.pools.length,
      (world.pool id).owner.epoch ≤ (after.pool id).owner.epoch)
    (hleft : ∀ holding ∈ left, holding ∈ hand ∨ holding.IsPast after) : Dated ⟨after, left⟩ := by
  constructor
  · intro resource owner howner
    obtain ⟨hid, hepoch⟩ := h.made resource owner ((hmaker resource).symm.trans howner)
    exact ⟨hlength.symm ▸ hid, Nat.le_trans hepoch (hepochs _ hid)⟩
  · intro holding hmem
    rcases hleft holding hmem with hold | hnew
    · exact h.isPast (.of_eq hmaker) hepochs holding hold
    · exact hnew

end Scene.Dated

/-- Resources are made in slots that were taken. -/
theorem Move.makerOf?_or_slot (move : Move agent scene next)
    (h : next.world.makerOf? resource = some owner) :
    scene.world.makerOf? resource = some owner ∨ .slot agent owner ∈ scene.hand := by
  cases move with
  | @make world hand maker kind =>
      have hadd : (world.addResource kind maker).makerOf? resource = some owner := h
      rw [World.makerOf?_addResource] at hadd
      split at hadd
      · cases hadd
        exact .inr (Multiset.mem_cons_self _ _)
      · exact .inl hadd
  | refresh => exact .inl (World.makerOf?_checkOwner.symm.trans h)
  | shed | letGo | ungrasp => exact .inl (World.makerOf?_letGo.symm.trans h)
  | grasp => exact .inl (World.makerOf?_hold.symm.trans h)
  | refuse => exact .inl (World.makerOf?_forget.symm.trans h)
  | disown => exact .inl (World.makerOf?_forget.symm.trans h)
  | _ => exact .inl h

theorem Move.dated (move : Move agent scene next) (fits : scene.Fits) (h : scene.Accounted)
    (dated : scene.Dated) : next.Dated := by
  have hepochs : ∀ id < scene.world.pools.length,
      (scene.world.pool id).owner.epoch ≤ (next.world.pool id).owner.epoch :=
    fun id hid => (move.advances h hid).epoch_le
  constructor
  · intro resource owner howner
    obtain ⟨hid, hepoch⟩ : owner.pool < scene.world.pools.length ∧
        owner.epoch ≤ (scene.world.pool owner.pool).owner.epoch := by
      rcases move.makerOf?_or_slot howner with hold | hslot
      · exact dated.made resource owner hold
      · obtain ⟨hagent, rfl⟩ := fits.hand _ hslot
        have hmem := Multiset.mem_of_le h.backed (Scene.mem_units hslot rfl)
        have hplace := (fits.pools.pool hagent).pool_eq
        exact ⟨hagent, ((h.pools.pool hagent).issued owner hmem hplace.symm).1⟩
    exact ⟨move.length_pools.symm ▸ hid, Nat.le_trans hepoch (hepochs _ hid)⟩
  · refine move.forall_hand ?_ (fun resource hlisted => hlisted)
      (dated.isPast move.keepsMakers hepochs)
    intro holding hopen
    cases holding with
    | grip | listed => cases hopen
    | turn | pause | slot | lease | handed | loose | mention => trivial

theorem lasting_dated : Scene.Lasting fun scene => scene.Accounted ∧ scene.Dated where
  move fits move h := ⟨move.accounted fits h.1, move.dated fits h.1 h.2⟩
  tearDown := by
    rintro world hand agent fits hagent ⟨h, dated⟩
    have hfits := fits.pools.pool hagent
    have hpool : (world.modifyPool agent Pool.tearDown).pool agent = (world.pool agent).tearDown :=
      World.pool_modifyPool_self hagent
    refine ⟨lasting_accounted.tearDown fits hagent h, dated.mono World.length_modifyPool
      (fun _ => rfl) ?_ ?_⟩
    · intro id _
      exact (World.advances_modifyPool (h.pools.pool hagent).advances_tearDown hagent).epoch_le
    · intro holding hmem
      simp only [Multiset.mem_add, Multiset.mem_coe, List.mem_map] at hmem
      rcases hmem with ⟨resource, hmem, rfl⟩ | ⟨resource, -, rfl⟩ | hold
      · refine .inr ⟨_, hfits.registry resource hmem, hfits.pool_eq, ?_⟩
        rw [hpool]
        exact Nat.lt_succ_self _
      · exact .inr trivial
      · exact .inl hold
  invalidate := by
    rintro world hand agent fits hagent ⟨h, dated⟩
    refine ⟨lasting_accounted.invalidate fits hagent h, dated.mono ?_
      (fun _ => World.makerOf?_invalidate) ?_ fun _ => .inl⟩
    · rw [World.invalidate_pools, World.length_modifyPool]
    · intro id _
      rw [World.pool_congr World.invalidate_pools]
      exact (World.advances_modifyPool
        ((h.pools.pool hagent).advances_reset (Nat.lt_succ_self _) false) hagent).epoch_le
  drop := by
    rintro world hand lease fits hheld ⟨h, dated⟩
    have hpools : (world.dropLease lease).pools = world.pools := World.letGo_pools
    refine ⟨lasting_accounted.drop fits hheld h, dated.mono (congrArg List.length hpools)
      (fun _ => World.makerOf?_letGo) ?_ fun _ => .inl⟩
    intro id _
    rw [World.pool_congr hpools]
  fork h := ⟨lasting_accounted.fork h.1, h.2.mono rfl (fun _ => rfl) (fun _ _ => Nat.le_refl _)
    fun _ => .inl⟩
  advance h := ⟨lasting_accounted.advance h.1, h.2.mono rfl (fun _ => rfl)
    (fun _ _ => Nat.le_refl _) fun _ => .inl⟩

namespace System

theorem init_dated (pids : List Pid) (pools : List (ProcessId × Config)) :
    (init pids pools).scene.Dated := by
  constructor
  · intro resource owner howner
    rw [scene, World.makerOf?, init_resources] at howner
    cases howner
  · exact fun holding hmem => absurd hmem (Multiset.notMem_zero holding)

theorem reachable_dated (reach : system.Reachable) : system.scene.Dated := by
  obtain ⟨pids, pools, events, hrun⟩ := reach
  exact (lasting_dated.run? (init_fits pids pools)
    ⟨init_accounted pids pools, init_dated pids pools⟩ hrun).2

theorem run?_advances {events : List Event} (reach : system.Reachable)
    (hid : id < system.world.pools.length) (hrun : system.run? events = some final) :
    (system.world.pool id).Advances (final.world.pool id) :=
  ((lasting_advances (system.world.pool id) id).run? (reachable_fits reach)
    ⟨reachable_accounted reach, hid, .refl _⟩ hrun).2.2

/-- A teardown of a pool puts its floor above all epochs so far. -/
theorem epoch_lt_floor_of_disconnectAll (reach : system.Reachable)
    (hstep : system.step? (.call id .disconnectAll) = some final) :
    (system.world.pool id).owner.epoch < (final.world.pool id).reclaimFloor := by
  have fits := reachable_fits reach
  have accounted := reachable_accounted reach
  cases step?_passage (hosted_of_fits fits) hstep with
  | moves _ _ hplain => exact (hplain id .disconnectAll rfl).elim
  | disconnect hid hmoves =>
      have move : Move id system.scene ⟨system.world.checkOwner id, handOf system.tasks⟩ :=
        .refresh hid
      have fresh : Scene.Fresh ⟨system.world.checkOwner id, handOf system.tasks⟩ id :=
        .checkOwner fits accounted hid
      have hfloor : (final.world.pool id).reclaimFloor =
          ((system.world.checkOwner id).pool id).owner.epoch + 1 :=
        (Moves.steady_tearDown fresh hmoves).floor_eq
      rw [hfloor]
      exact Nat.lt_succ_of_le (move.advances accounted hid).epoch_le

/-- A resource that is there has the maker that it is found to have later. -/
theorem makerOf?_of_lt {events : List Event} (reach : system.Reachable)
    (hrun : system.run? events = some final) (hlt : resource < system.world.resources.length)
    (hmaker : final.world.makerOf? resource = some owner) :
    system.world.makerOf? resource = some owner := by
  have hmade : system.world.makerOf? resource = some system.world.resources[resource].owner := by
    simp [World.makerOf?, hlt]
  have hkept : system.world.KeepsMakers final.world :=
    (lasting_makers system.world).run? (reachable_fits reach) (fun _ _ hmaker => hmaker) hrun
  rw [hmade, ← hmaker, hkept _ _ hmade]

/-- A resource of the owner that a pool has now was made since the pool got that owner. -/
theorem owner_eq_of_made {events : List Event} (reach : system.Reachable)
    (hrun : system.run? events = some final) (hid : id < final.world.pools.length)
    (hmaker : final.world.makerOf? resource = some (final.world.pool id).owner)
    (hlt : resource < system.world.resources.length) :
    (system.world.pool id).owner = (final.world.pool id).owner := by
  have hplace : (final.world.pool id).owner.pool = id := (reach.run? hrun).owner_pool hid
  have hid' : id < system.world.pools.length := (run?_length_pools reach hrun) ▸ hid
  have hmade := makerOf?_of_lt reach hrun hlt hmaker
  have hdated : (final.world.pool id).owner.epoch ≤
      (system.world.pool (final.world.pool id).owner.pool).owner.epoch :=
    ((reachable_dated reach).made _ _ hmade).2
  rw [hplace] at hdated
  have hadvances := run?_advances reach hid' hrun
  exact (hadvances.owner_eq (Nat.le_antisymm hdated hadvances.epoch_le)).symm

end System
end LeasePool
