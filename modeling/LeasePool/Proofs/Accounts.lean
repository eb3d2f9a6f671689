import LeasePool.Proofs.Makers

/-!
Accounts. In every state of a run each pool is balanced against the journal, and all leases and
slots that callers and operations still have are unreturned. So whoever gives a slot back finds it
counted.
-/

namespace LeasePool

variable {world after : World} {id : PoolId} {hand left : Multiset Holding} {owner : Owner}

namespace World

@[simp] theorem unreturned_reset {inherited : Bool} :
    (world.reset id owner inherited).unreturned = world.unreturned := by
  cases inherited with
  | false => exact unreturned_letGoAll
  | true => exact unreturned_forgetAll

@[simp] theorem unreturned_checkOwner : (world.checkOwner id).unreturned = world.unreturned := by
  by_cases h : world.currentPid id = (world.pool id).notedPid
  · rw [checkOwner_of_eq h]
  · rw [checkOwner_of_ne h, unreturned_reset]
    rfl

@[simp] theorem unreturned_invalidate : (world.invalidate id).unreturned = world.unreturned := by
  rw [invalidate, unreturned_reset]
  rfl

end World

/-- The owner whose slot comes with what an operation has in hand. -/
def Holding.unit? : Holding → Option Owner
  | .slot _ owner | .lease _ owner _ | .handed owner _ => some owner
  | .turn _ | .pause _ | .loose .. | .grip .. | .listed .. | .mention .. => none

/-- The slots that callers and operations have, by their owners. -/
def Scene.units (scene : Scene) : Multiset Owner :=
  scene.hand.filterMap Holding.unit? + ↑(scene.world.held.map (·.owner))

namespace Scene

variable {holding : Holding}

theorem units_cons_some (h : holding.unit? = some owner) :
    units ⟨world, holding ::ₘ hand⟩ = owner ::ₘ units ⟨world, hand⟩ := by
  rw [units, Multiset.filterMap_cons_some _ _ _ h, Multiset.cons_add, units]

theorem units_cons_none (h : holding.unit? = none) :
    units ⟨world, holding ::ₘ hand⟩ = units ⟨world, hand⟩ := by
  rw [units, Multiset.filterMap_cons_none _ _ h, units]

theorem units_le_cons : units ⟨world, hand⟩ ≤ units ⟨world, holding ::ₘ hand⟩ := by
  cases hunit : holding.unit? with
  | none => exact (units_cons_none hunit).ge
  | some owner =>
      rw [units_cons_some hunit]
      exact Multiset.le_cons_self _ _

/-- A resource apart from its slot comes without one. -/
theorem units_add {apart : Multiset Holding} (h : ∀ holding ∈ apart, holding.unit? = none) :
    units ⟨world, apart + hand⟩ = units ⟨world, hand⟩ := by
  rw [units, Multiset.filterMap_add, filterMap_eq_zero h, zero_add, units]

theorem mem_units (hmem : holding ∈ hand) (hunit : holding.unit? = some owner) :
    owner ∈ units ⟨world, hand⟩ :=
  Multiset.mem_add.2 (.inl ((Multiset.mem_filterMap _ _).2 ⟨holding, hmem, hunit⟩))

theorem units_congr (h : after.held = world.held) :
    units ⟨after, hand⟩ = units ⟨world, hand⟩ := by
  rw [units, units, h]

theorem units_keep {lease : Lease} :
    units ⟨world.keep lease, hand⟩ = lease.owner ::ₘ units ⟨world, hand⟩ := by
  rw [units, World.keep, List.map_cons, ← Multiset.cons_coe, Multiset.add_cons, units]

theorem units_part {lease : Lease} (hheld : lease ∈ world.held) :
    lease.owner ::ₘ units ⟨world.part lease, hand⟩ = units ⟨world, hand⟩ := by
  have hperm := (List.perm_cons_erase hheld).map (·.owner)
  rw [units, units, Multiset.coe_eq_coe.2 hperm, World.part, List.map_cons, ← Multiset.cons_coe,
    Multiset.add_cons]

end Scene

/-- Each pool is balanced, and what callers and operations have is unreturned. -/
structure Scene.Accounted (scene : Scene) : Prop where
  pools : scene.world.EachPool fun _ pool => pool.Balanced scene.world.unreturned
  backed : scene.units ≤ scene.world.unreturned

namespace Scene.Accounted

variable {change : Pool → Pool}

/-- One pool changes and stays balanced, and no slot goes out or comes back. -/
theorem modify (h : Accounted ⟨world, hand⟩)
    (hpools : after.pools = (world.modifyPool id change).pools)
    (hout : after.unreturned = world.unreturned)
    (hchange : ∀ pool out, pool.Balanced out → (change pool).Balanced out)
    (hunits : units ⟨after, left⟩ ≤ units ⟨world, hand⟩) : Accounted ⟨after, left⟩ := by
  constructor
  · have heach : (world.modifyPool id change).EachPool
        fun _ pool => pool.Balanced world.unreturned :=
      h.pools.modify (fun pool _ => hchange pool _) fun _ _ _ hbalanced => hbalanced
    intro other pool hpool
    rw [hpools] at hpool
    rw [hout]
    exact heach other pool hpool
  · rw [hout]
    exact hunits.trans h.backed

/-- No pool changes, and no slot goes out or comes back. -/
theorem spare (h : Accounted ⟨world, hand⟩) (hpools : after.pools = world.pools)
    (hout : after.unreturned = world.unreturned)
    (hunits : units ⟨after, left⟩ ≤ units ⟨world, hand⟩) : Accounted ⟨after, left⟩ := by
  have hsame : world.modifyPool 0 (fun pool => pool) = world := World.modifyPool_eq_self rfl
  exact h.modify (hpools.trans (congrArg World.pools hsame.symm)) hout (fun _ _ hpool => hpool)
    hunits

/-- A pool is balanced with one of the slots that are out set apart. -/
theorem balanced_cons (h : Accounted ⟨world, hand⟩) (hid : id < world.pools.length)
    (hmem : owner ∈ units ⟨world, hand⟩) :
    (world.pool id).Balanced (owner ::ₘ world.unreturned.erase owner) := by
  rw [Multiset.cons_erase (Multiset.mem_of_le h.backed hmem)]
  exact h.pools.pool hid

/-- A slot comes back to its pool. -/
theorem giveBack (h : Accounted ⟨world, hand⟩) (fits : Fits ⟨world, hand⟩) (hpool : owner.pool = id)
    (hunits : units ⟨world, hand⟩ = owner ::ₘ units ⟨world, left⟩)
    (hchange : ∀ pool out, world.pools[id]? = some pool → pool.Balanced (owner ::ₘ out) →
      (change pool).Balanced out) :
    Accounted ⟨(world.emit (.slotReturned owner)).modifyPool id change, left⟩ := by
  have hbacked := h.backed
  rw [hunits] at hbacked
  have hmem : owner ∈ world.unreturned := Multiset.mem_of_le hbacked (Multiset.mem_cons_self _ _)
  have hout : owner ::ₘ world.unreturned.erase owner = world.unreturned :=
    Multiset.cons_erase hmem
  constructor
  · have heach : world.EachPool fun other pool => pool.owner.pool = other ∧
        pool.Balanced (owner ::ₘ world.unreturned.erase owner) := by
      intro other pool hget
      rw [hout]
      exact ⟨(fits.pools other pool hget).pool_eq, h.pools other pool hget⟩
    refine heach.modify ?_ ?_
    · exact fun pool hget hbalanced => hchange pool _ hget hbalanced.2
    · intro other pool hne ⟨hplace, hbalanced⟩
      apply hbalanced.of_cons_of_ne
      rw [hpool, hplace]
      exact hne.symm
  · rw [← hout, Multiset.cons_le_cons_iff] at hbacked
    exact hbacked

/-- A slot goes out of its pool. -/
theorem take {slot : Slot} {rest : List Slot} (h : Accounted ⟨world, .turn id ::ₘ hand⟩)
    (fits : Fits ⟨world, .turn id ::ₘ hand⟩) (hfree : (world.pool id).free = slot :: rest) :
    Accounted ⟨(world.modifyPool id Pool.take).emit (.slotTaken (world.pool id).owner),
      slot.holding id (world.pool id).owner ::ₘ hand⟩ := by
  have hid := World.lt_of_free_eq_cons hfree
  constructor
  · have heach : world.EachPool fun other pool => pool.owner.pool = other ∧
        pool.Balanced world.unreturned :=
      fun other pool hget => ⟨(fits.pools other pool hget).pool_eq, h.pools other pool hget⟩
    refine heach.modify ?_ ?_
    · rintro pool hget ⟨-, hbalanced⟩
      rw [World.getElem?_pools hid] at hget
      cases hget
      apply hbalanced.take
      rw [hfree]
      exact List.cons_ne_nil _ _
    · rintro other pool hne ⟨hplace, hbalanced⟩
      apply hbalanced.cons_of_ne
      rw [hplace, (fits.pools.pool hid).pool_eq]
      exact hne.symm
  · have hunit : (slot.holding id (world.pool id).owner).unit? = some (world.pool id).owner := by
      cases slot <;> rfl
    have hbacked := Multiset.cons_le_cons (world.pool id).owner h.backed
    rw [units_cons_none rfl] at hbacked
    rw [units_cons_some hunit]
    exact hbacked

end Scene.Accounted

theorem Move.accounted {scene next : Scene} (move : Move id scene next) (fits : scene.Fits)
    (h : scene.Accounted) : next.Accounted := by
  cases move with
  | tell notice => exact h.spare rfl rfl le_rfl
  | refresh hid =>
      refine h.modify World.checkOwner_pools World.unreturned_checkOwner ?_
        (Scene.units_congr World.checkOwner_held).le
      intro pool out hbalanced
      split
      · exact hbalanced
      · exact hbalanced.refresh _
  | enqueue hid hpid =>
      refine h.modify rfl rfl ?_ (Scene.units_cons_none rfl).le
      exact fun pool out hbalanced => hbalanced.congr rfl rfl rfl rfl rfl rfl
  | giveUp hfree =>
      refine h.modify rfl rfl ?_ (Scene.units_cons_none rfl).ge
      exact fun pool out hbalanced => hbalanced.congr rfl rfl rfl rfl rfl rfl
  | take hfree => exact h.take fits hfree
  | make owner kind =>
      refine h.modify rfl rfl (fun pool out hbalanced => hbalanced.enroll) ?_
      rw [Scene.units_cons_some rfl, Scene.units_cons_some rfl]
      exact le_rfl
  | countFailure =>
      refine h.modify rfl rfl ?_ le_rfl
      exact fun pool out hbalanced => hbalanced.congr rfl rfl rfl rfl rfl rfl
  | lend lease => exact h.spare rfl rfl le_rfl
  | keep lease =>
      refine h.spare rfl rfl ?_
      rw [Scene.units_keep, Scene.units_cons_some rfl]
  | part hheld =>
      refine h.spare rfl rfl ?_
      rw [Scene.units_cons_some rfl, Scene.units_part hheld]
  | handIn | accept =>
      apply h.spare rfl rfl
      rw [Scene.units_cons_some rfl, Scene.units_cons_some rfl]
  | detach =>
      apply h.spare rfl rfl
      rw [Scene.units_cons_some rfl, Scene.units_cons_none rfl, Scene.units_cons_some rfl]
  | @shelve world hand owner entry howner hpool hroom =>
      obtain ⟨hid, -⟩ := fits.hand _ (Multiset.mem_cons_self _ _)
      rw [hpool] at hid
      apply h.giveBack fits hpool (Scene.units_cons_some rfl)
      intro pool out hget hbalanced
      rw [World.getElem?_pools hid] at hget
      cases hget
      subst howner
      exact hbalanced.giveBack _
  | @restore world hand owner =>
      obtain ⟨hid, hpool⟩ := fits.hand _ (Multiset.mem_cons_self _ _)
      apply h.giveBack fits hpool (Scene.units_cons_some rfl)
      exact fun pool out _ hbalanced => hbalanced.restoreVacant
  | @refuse world hand owner resource hpool hnow hpid =>
      obtain ⟨hid, -⟩ := fits.hand _ (Multiset.mem_cons_self _ _)
      rw [hpool] at hid
      have hsame : (world.emit (.slotReturned owner)).modifyPool id (fun pool => pool) =
          world.emit (.slotReturned owner) := World.modifyPool_eq_self rfl
      have hback : Scene.Accounted ⟨world.emit (.slotReturned owner), hand⟩ := by
        rw [← hsame]
        apply h.giveBack fits hpool (Scene.units_cons_some rfl)
        intro pool out hget hbalanced
        rw [World.getElem?_pools hid] at hget
        cases hget
        have hrestored := hbalanced.restoreVacant
        rwa [Pool.restoreVacant_of_pid_ne (hnow ▸ hpid)] at hrestored
      exact hback.spare rfl rfl le_rfl
  | disown hpid => exact h.spare rfl rfl Scene.units_le_cons
  | shed hpool hpid =>
      exact h.spare World.letGo_pools World.unreturned_letGo
        ((Scene.units_congr World.letGo_held).trans_le Scene.units_le_cons)
  | letGo | ungrasp =>
      apply h.spare World.letGo_pools World.unreturned_letGo
      rw [Scene.units_cons_none rfl, Scene.units_congr World.letGo_held]
  | grasp halive =>
      refine h.spare rfl rfl ?_
      rw [Scene.units_cons_none rfl, Scene.units_cons_none rfl]
      exact le_rfl
  | skip | closed => exact h.spare rfl rfl (Scene.units_cons_none rfl).ge
  | vacate hid takes hpid =>
      refine h.modify rfl rfl ?_ ?_
      · exact fun pool out hbalanced =>
          hbalanced.congr rfl rfl Pool.length_vacate rfl rfl rfl
      · rw [Scene.units_add (by simp [Holding.unit?]), Scene.units_add (by simp [Holding.unit?])]
        exact le_rfl
  | pause hid => exact h.spare rfl rfl (Scene.units_cons_none rfl).le
  | resume => exact h.spare rfl rfl (Scene.units_cons_none rfl).ge

theorem lasting_accounted : Scene.Lasting Scene.Accounted where
  move fits move h := move.accounted fits h
  tearDown _ _ h := by
    refine h.modify rfl rfl (fun pool out hbalanced => hbalanced.tearDown) ?_
    rw [Scene.units_add (by simp [Holding.unit?]), Scene.units_add (by simp [Holding.unit?])]
    exact le_rfl
  invalidate _ _ h := by
    refine h.modify World.invalidate_pools World.unreturned_invalidate ?_
      (Scene.units_congr World.invalidate_held).le
    exact fun pool out hbalanced => hbalanced.invalidate
  drop _ hheld h := by
    refine h.spare World.letGo_pools World.unreturned_letGo ?_
    rw [World.dropLease, Scene.units_congr World.letGo_held, ← Scene.units_part hheld]
    exact Multiset.le_cons_self _ _
  fork h := h.spare rfl rfl le_rfl
  advance h := h.spare rfl rfl le_rfl

/-- The pool has just checked which process it runs in. -/
structure Scene.Fresh (scene : Scene) (id : PoolId) : Prop where
  lt : id < scene.world.pools.length
  fits : scene.Fits
  accounted : scene.Accounted
  noted : (scene.world.pool id).notedPid = scene.world.currentPid id

namespace Scene.Fresh

variable {scene : Scene}

theorem checkOwner (fits : Fits ⟨world, hand⟩) (h : Accounted ⟨world, hand⟩)
    (hid : id < world.pools.length) : Fresh ⟨world.checkOwner id, hand⟩ id := by
  refine ⟨?_, Move.fits (.refresh hid) fits, Move.accounted (.refresh hid) fits h,
    World.checkOwner_notedPid hid⟩
  rwa [World.length_checkOwner]

theorem fits_tearDown (fresh : scene.Fresh id) : (scene.tearDown id).Fits :=
  fresh.fits.tearDown fresh.lt

theorem accounted_tearDown (fresh : scene.Fresh id) : (scene.tearDown id).Accounted :=
  lasting_accounted.tearDown fresh.fits fresh.lt fresh.accounted

end Scene.Fresh

namespace System

variable {system : System}

theorem init_unreturned (pids : List Pid) (pools : List (ProcessId × Config)) :
    (init pids pools).world.unreturned = 0 := by
  have hnone : ∀ journal : List Signal,
      (∀ signal ∈ journal, ∃ notice, signal = .notice notice) → unreturnedOf journal = 0 := by
    intro journal hnotices
    induction journal with
    | nil => rfl
    | cons signal rest ih =>
        obtain ⟨notice, rfl⟩ := hnotices signal List.mem_cons_self
        exact ih fun other hmem => hnotices other (List.mem_cons_of_mem _ hmem)
  exact hnone _ (init_journal pids pools)

theorem init_accounted (pids : List Pid) (pools : List (ProcessId × Config)) :
    (init pids pools).scene.Accounted := by
  constructor
  · intro id pool hget
    obtain ⟨config, process, rfl⟩ := init_each_pool pids pools id pool hget
    rw [scene, init_unreturned]
    exact .new config process _
  · have hunits : (init pids pools).scene.units = 0 := by
      rw [Scene.units, scene, init_held]
      rfl
    rw [hunits]
    exact Multiset.zero_le _

theorem reachable_fits (h : system.Reachable) : system.scene.Fits := by
  obtain ⟨pids, pools, events, hrun⟩ := h
  exact run?_fits (init_fits pids pools) hrun

theorem reachable_accounted (h : system.Reachable) : system.scene.Accounted := by
  obtain ⟨pids, pools, events, hrun⟩ := h
  exact lasting_accounted.run? (init_fits pids pools) (init_accounted pids pools) hrun

theorem Reachable.balanced (h : system.Reachable) (hid : id < system.world.pools.length) :
    (system.world.pool id).Balanced system.world.unreturned :=
  (reachable_accounted h).pools.pool hid

theorem Reachable.owner_pool (h : system.Reachable) (hid : id < system.world.pools.length) :
    (system.world.pool id).owner.pool = id :=
  ((reachable_fits h).pools.pool hid).pool_eq

end System
end LeasePool
