import LeasePool.Proofs.Capacity
import LeasePool.Proofs.Registry
import LeasePool.Proofs.Tallies

/-!
Registrations. A registry loses its dead entries when the next resource is entered, and it gains no
more than that one. What is alive of the pool's owner then lies idle, or hangs on a lease that is
out, or was forgotten together with its slot; so there is no more of it than the pool has slots. In
between entries can only die, and a new owner begins with an empty registry.
-/

namespace LeasePool

/-- The resource was made under the owner, and then given up without letting it go. -/
def Resource.forgottenUnder (owner : Owner) (entry : Resource) : Bool :=
  entry.forgotten && decide (entry.owner = owner)

namespace World

variable {world : World} {id : PoolId} {resource : ResourceId} {owner maker : Owner}

def forgottenUnder (world : World) (owner : Owner) : Nat :=
  world.resources.countP (Resource.forgottenUnder owner)

theorem forgottenUnder_eq_zero (h : ∀ resource, world.makerOf? resource ≠ some owner) :
    world.forgottenUnder owner = 0 := by
  refine List.countP_eq_zero.2 fun entry hmem hcounts => ?_
  obtain ⟨resource, hget⟩ := List.mem_iff_getElem?.1 hmem
  have howner : entry.owner = owner := of_decide_eq_true (Bool.and_eq_true_iff.1 hcounts).2
  apply h resource
  rw [makerOf?, hget, Option.map_some, howner]

theorem forgottenUnder_letGo : (world.letGo resource).forgottenUnder owner =
    world.forgottenUnder owner := by
  rw [forgottenUnder, letGo_resources, forgottenUnder]
  by_cases hlt : resource < world.resources.length
  · exact Nat.add_right_cancel (countP_modify (Resource.forgottenUnder owner)
      (fun entry => { entry with holders := entry.holders - 1 }) hlt)
  · rw [List.modify_eq_self (Nat.le_of_not_lt hlt)]

theorem forgottenUnder_letGoAll {resources : List ResourceId} :
    (world.letGoAll resources).forgottenUnder owner = world.forgottenUnder owner := by
  induction resources generalizing world with
  | nil => rfl
  | cons resource rest ih => rw [letGoAll_cons, ih, forgottenUnder_letGo]

theorem forgottenUnder_hold : (world.hold resource).forgottenUnder owner =
    world.forgottenUnder owner := by
  by_cases hlt : resource < world.resources.length
  · exact Nat.add_right_cancel (countP_modify (Resource.forgottenUnder owner)
      (fun entry => { entry with holders := entry.holders + 1 }) hlt)
  · rw [forgottenUnder, hold, List.modify_eq_self (Nat.le_of_not_lt hlt), forgottenUnder]

theorem forgottenUnder_addResource (kind : String) :
    (world.addResource kind maker).forgottenUnder owner = world.forgottenUnder owner := by
  rw [forgottenUnder, addResource, List.countP_append, forgottenUnder]
  rfl

/-- At most one more resource is forgotten, and one of its own owner. -/
theorem forgottenUnder_forget_le (hmaker : world.makerOf? resource = some maker) :
    (world.forget resource).forgottenUnder owner ≤
      world.forgottenUnder owner + if owner = maker then 1 else 0 := by
  have hlt := lt_of_makerOf? hmaker
  have hcount := countP_modify (Resource.forgottenUnder owner)
    (fun entry => { entry with forgotten := true }) hlt
  have howner : world.resources[resource].owner = maker := by
    simpa [makerOf?, hlt] using hmaker
  have hafter : Resource.forgottenUnder owner { world.resources[resource] with forgotten := true } =
      decide (owner = maker) := by
    rw [Resource.forgottenUnder, Bool.true_and, howner, decide_eq_decide]
    exact eq_comm
  simp only [hafter, decide_eq_true_eq] at hcount
  exact Nat.le_trans (Nat.le_add_right _ _) hcount.le

theorem forgottenUnder_forget_of_ne (hmaker : world.makerOf? resource = some maker)
    (hne : maker ≠ owner) :
    (world.forget resource).forgottenUnder owner ≤ world.forgottenUnder owner := by
  have hle : (world.forget resource).forgottenUnder owner ≤ _ := forgottenUnder_forget_le hmaker
  rwa [if_neg hne.symm] at hle

theorem forgottenUnder_forgetAll {resources : List ResourceId}
    (h : ∀ resource ∈ resources, world.makerOf? resource = some maker) (hne : maker ≠ owner) :
    (world.forgetAll resources).forgottenUnder owner ≤ world.forgottenUnder owner := by
  induction resources generalizing world with
  | nil => exact Nat.le_refl _
  | cons resource rest ih =>
      obtain ⟨hfirst, hrest⟩ := List.forall_mem_cons.1 h
      rw [forgetAll_cons]
      refine Nat.le_trans (ih fun other hmem => ?_) (forgottenUnder_forget_of_ne hfirst hne)
      rw [makerOf?_forget]
      exact hrest other hmem

/-- A reset forgets resources of the pool's last owner at most. -/
theorem forgottenUnder_reset {next : Owner} {inherited : Bool}
    (hidle : ∀ resource ∈ idleFromBottom (world.pool id).free,
      world.makerOf? resource = some maker) (hne : maker ≠ owner) :
    (world.reset id next inherited).forgottenUnder owner ≤ world.forgottenUnder owner := by
  cases inherited with
  | false =>
      rw [reset, if_neg Bool.false_ne_true, forgottenUnder_letGoAll]
      exact Nat.le_refl _
  | true =>
      rw [reset, if_pos rfl]
      exact forgottenUnder_forgetAll hidle hne

theorem forgottenUnder_checkOwner (hfits : (world.pool id).Fits world id)
    (hne : (world.pool id).owner ≠ owner) :
    (world.checkOwner id).forgottenUnder owner ≤ world.forgottenUnder owner := by
  by_cases hpid : world.currentPid id = (world.pool id).notedPid
  · rw [checkOwner_of_eq hpid]
  · rw [checkOwner_of_ne hpid]
    exact forgottenUnder_reset hfits.idle hne

end World

/-- For each slot that is out under the pool's owner someone has it or a lease with it, or the
resource of such a lease was forgotten; it can also be that a lease was dropped. -/
def Scene.Covered (id : PoolId) (scene : Scene) : Prop :=
  scene.units.count (scene.world.pool id).owner +
      scene.world.forgottenUnder (scene.world.pool id).owner ≤
    scene.world.unreturned.count (scene.world.pool id).owner

namespace Scene.Covered

variable {world after : World} {id : PoolId} {hand left : Multiset Holding}

/-- A pool with an owner that made nothing yet. -/
theorem of_unused (accounted : Accounted ⟨after, left⟩)
    (hunused : ∀ resource, after.makerOf? resource ≠ some (after.pool id).owner) :
    Covered id ⟨after, left⟩ := by
  rw [Covered, World.forgottenUnder_eq_zero hunused]
  exact Multiset.count_le_of_le _ accounted.backed

/-- Nothing more is in hand or forgotten, and no slot goes out or comes back. -/
theorem spare (h : Covered id ⟨world, hand⟩)
    (howner : (after.pool id).owner = (world.pool id).owner)
    (hforgotten : after.forgottenUnder (world.pool id).owner ≤
      world.forgottenUnder (world.pool id).owner)
    (hout : after.unreturned = world.unreturned)
    (hunits : units ⟨after, left⟩ ≤ units ⟨world, hand⟩) : Covered id ⟨after, left⟩ := by
  have hcount := Multiset.count_le_of_le (world.pool id).owner hunits
  rw [Covered] at h ⊢
  rw [howner, hout]
  dsimp only at h ⊢
  omega

/-- A slot goes out, to someone who has it. -/
theorem take {owner : Owner} (h : Covered id ⟨world, hand⟩)
    (howner : (after.pool id).owner = (world.pool id).owner)
    (hforgotten : after.resources = world.resources)
    (hout : after.unreturned = owner ::ₘ world.unreturned)
    (hunits : units ⟨after, left⟩ = owner ::ₘ units ⟨world, hand⟩) : Covered id ⟨after, left⟩ := by
  rw [Covered] at h ⊢
  rw [howner, hout, hunits, Multiset.count_cons, Multiset.count_cons, World.forgottenUnder,
    hforgotten, ← World.forgottenUnder]
  dsimp only at h ⊢
  omega

/-- A slot comes back from someone who had it. -/
theorem giveBack {owner : Owner} (h : Covered id ⟨world, hand⟩)
    (accounted : Accounted ⟨world, hand⟩)
    (howner : (after.pool id).owner = (world.pool id).owner)
    (hforgotten : after.forgottenUnder (world.pool id).owner ≤
      world.forgottenUnder (world.pool id).owner)
    (hout : after.unreturned = world.unreturned.erase owner)
    (hunits : units ⟨world, hand⟩ = owner ::ₘ units ⟨after, left⟩) : Covered id ⟨after, left⟩ := by
  have hmem : owner ∈ world.unreturned := by
    refine Multiset.mem_of_le accounted.backed ?_
    rw [hunits]
    exact Multiset.mem_cons_self _ _
  have hcons : owner ::ₘ after.unreturned = world.unreturned := by
    rw [hout, Multiset.cons_erase hmem]
  rw [Covered] at h ⊢
  dsimp only at h ⊢
  rw [← hcons, hunits, Multiset.count_cons, Multiset.count_cons] at h
  rw [howner]
  omega

end Scene.Covered

section Covered

variable {id agent : PoolId} {scene next : Scene} {owner : Owner}

/-- An owner that a move gives to a pool has made nothing. -/
theorem Move.unused (move : Move agent scene next) (fits : scene.Fits) (h : scene.Accounted)
    (dated : scene.Dated) (hid : id < scene.world.pools.length)
    (hchanged : (next.world.pool id).owner ≠ (scene.world.pool id).owner) (resource : ResourceId) :
    next.world.makerOf? resource ≠ some (next.world.pool id).owner := by
  have hadvances := move.advances h hid
  have hlt : (scene.world.pool id).owner.epoch < (next.world.pool id).owner.epoch :=
    Nat.lt_of_le_of_ne hadvances.epoch_le fun heq => hchanged (hadvances.owner_eq heq.symm)
  have hid' : id < next.world.pools.length := move.length_pools.symm ▸ hid
  have hplace : (next.world.pool id).owner.pool = id := ((move.fits fits).pools.pool hid').pool_eq
  intro hmaker
  rcases move.makerOf?_or_slot hmaker with hold | hslot
  · exact dated.unused hplace hlt resource hold
  · have hmem := Multiset.mem_of_le h.backed (Scene.mem_units hslot rfl)
    have hissued := (h.pools.pool hid).issued _ hmem
      (hplace.trans (fits.pools.pool hid).pool_eq.symm)
    exact Nat.not_le_of_lt hlt hissued.1

/-- A lease that comes back from another process was not issued under the owner that a pool has. -/
theorem Scene.Fits.owner_ne {world : World} {hand : Multiset Holding} (fits : Fits ⟨world, hand⟩)
    (hid : id < world.pools.length) (hpool : owner.pool = agent)
    (hnow : (world.pool agent).owner.pid = world.currentPid agent)
    (hpid : owner.pid ≠ world.currentPid agent) : owner ≠ (world.pool id).owner := by
  rintro rfl
  obtain rfl : id = agent := (fits.pools.pool hid).pool_eq.symm.trans hpool
  exact hpid hnow

theorem Move.covered (move : Move agent scene next) (fits : scene.Fits) (h : scene.Accounted)
    (dated : scene.Dated) (hid : id < scene.world.pools.length) (covered : scene.Covered id) :
    next.Covered id := by
  by_cases howner : (next.world.pool id).owner = (scene.world.pool id).owner
  case neg => exact .of_unused (move.accounted fits h) (move.unused fits h dated hid howner)
  cases move with
  | tell | countFailure | lend => exact covered.spare howner (Nat.le_refl _) rfl le_rfl
  | @refresh world hand hagent =>
      refine covered.spare howner ?_ World.unreturned_checkOwner
        (Scene.units_congr World.checkOwner_held).le
      by_cases heq : id = agent
      · subst heq
        by_cases hpid : world.currentPid id = (world.pool id).notedPid
        · rw [World.checkOwner_of_eq hpid]
        · rw [World.pool_checkOwner hid, if_neg hpid] at howner
          exact absurd (congrArg Owner.epoch howner) (Nat.succ_ne_self _)
      · refine World.forgottenUnder_checkOwner (fits.pools.pool hagent) fun hsame => heq ?_
        rw [← (fits.pools.pool hid).pool_eq, ← hsame, (fits.pools.pool hagent).pool_eq]
  | enqueue | pause =>
      exact covered.spare howner (Nat.le_refl _) rfl (Scene.units_cons_none rfl).le
  | giveUp | skip | closed | resume =>
      exact covered.spare howner (Nat.le_refl _) rfl (Scene.units_cons_none rfl).ge
  | @take world hand slot rest hfree =>
      have hunit : (slot.holding agent (world.pool agent).owner).unit? =
          some (world.pool agent).owner := by
        cases slot <;> rfl
      refine covered.take howner rfl rfl ?_
      rw [Scene.units_cons_some hunit, Scene.units_cons_none rfl]
      rfl
  | make owner kind =>
      refine covered.spare howner (World.forgottenUnder_addResource kind).le rfl ?_
      rw [Scene.units_cons_some rfl, Scene.units_cons_some rfl]
      exact le_rfl
  | keep lease =>
      refine covered.spare howner (Nat.le_refl _) rfl ?_
      rw [Scene.units_keep, Scene.units_cons_some rfl]
  | part hheld =>
      refine covered.spare howner (Nat.le_refl _) rfl ?_
      rw [Scene.units_cons_some rfl, Scene.units_part hheld]
  | handIn | accept =>
      refine covered.spare howner (Nat.le_refl _) rfl ?_
      rw [Scene.units_cons_some rfl, Scene.units_cons_some rfl]
  | detach =>
      refine covered.spare howner (Nat.le_refl _) rfl ?_
      rw [Scene.units_cons_some rfl, Scene.units_cons_none rfl, Scene.units_cons_some rfl]
  | shelve | restore =>
      exact covered.giveBack h howner (Nat.le_refl _) rfl (Scene.units_cons_some rfl)
  | @refuse world hand owner resource hpool hnow hpid =>
      have hmaker : world.makerOf? resource = some owner :=
        (fits.hand _ (Multiset.mem_cons_self _ _)).2
      exact covered.giveBack h howner
        (World.forgottenUnder_forget_of_ne hmaker (fits.owner_ne hid hpool hnow hpid)) rfl
        (Scene.units_cons_some rfl)
  | @disown world hand owner resource hpid =>
      have hmaker : world.makerOf? resource = some owner :=
        (fits.hand _ (Multiset.mem_cons_self _ _)).2
      have hforgotten : (world.forget resource).forgottenUnder (world.pool id).owner ≤ _ :=
        World.forgottenUnder_forget_le hmaker
      have hunits : Scene.units ⟨world.forget resource, hand⟩ = Scene.units ⟨world, hand⟩ :=
        Scene.units_congr rfl
      have hout : (world.forget resource).unreturned = world.unreturned := rfl
      rw [Scene.Covered, Scene.units_cons_some rfl, Multiset.count_cons] at covered
      rw [Scene.Covered, howner, hunits, hout]
      dsimp only at covered ⊢
      omega
  | shed =>
      exact covered.spare howner World.forgottenUnder_letGo.le World.unreturned_letGo
        ((Scene.units_congr World.letGo_held).trans_le Scene.units_le_cons)
  | letGo | ungrasp =>
      refine covered.spare howner World.forgottenUnder_letGo.le World.unreturned_letGo ?_
      rw [Scene.units_cons_none rfl, Scene.units_congr World.letGo_held]
  | grasp =>
      refine covered.spare howner World.forgottenUnder_hold.le rfl ?_
      rw [Scene.units_cons_none rfl, Scene.units_cons_none rfl]
      exact le_rfl
  | vacate =>
      refine covered.spare howner (Nat.le_refl _) rfl ?_
      rw [Scene.units_add (by simp [Holding.unit?]), Scene.units_add (by simp [Holding.unit?])]
      exact le_rfl

/-- Another owner than before is an owner of a later epoch. -/
theorem lasting_covered (id : PoolId) : Scene.Lasting fun scene =>
    (scene.Accounted ∧ scene.Dated) ∧ id < scene.world.pools.length ∧ scene.Covered id where
  move := by
    rintro agent scene next fits move ⟨⟨h, dated⟩, hid, covered⟩
    exact ⟨lasting_dated.move fits move ⟨h, dated⟩, move.length_pools.symm ▸ hid,
      move.covered fits h dated hid covered⟩
  tearDown := by
    rintro world hand agent fits hagent ⟨⟨h, dated⟩, hid, covered⟩
    have hlasts := lasting_dated.tearDown fits hagent ⟨h, dated⟩
    refine ⟨hlasts, (Scene.length_tearDown _ _).symm ▸ hid, ?_⟩
    by_cases heq : id = agent
    · subst heq
      have hpool : (world.modifyPool id Pool.tearDown).pool id = (world.pool id).tearDown :=
        World.pool_modifyPool_self hid
      refine .of_unused hlasts.1 ?_
      rw [hpool]
      exact dated.unused (fits.pools.pool hid).pool_eq (Nat.lt_succ_self _)
    · have hpool : (world.modifyPool agent Pool.tearDown).pool id = world.pool id :=
        World.pool_modifyPool_of_ne heq
      refine covered.spare (congrArg Pool.owner hpool) (Nat.le_refl _) rfl ?_
      rw [Scene.units_add (by simp [Holding.unit?]), Scene.units_add (by simp [Holding.unit?])]
      exact le_rfl
  invalidate := by
    rintro world hand agent fits hagent ⟨⟨h, dated⟩, hid, covered⟩
    have hlasts := lasting_dated.invalidate fits hagent ⟨h, dated⟩
    refine ⟨hlasts, ?_, ?_⟩
    · rwa [World.invalidate_pools, World.length_modifyPool]
    by_cases heq : id = agent
    · subst heq
      have hplace : (world.pool id).owner.nextEpoch.pool = id := (fits.pools.pool hid).pool_eq
      refine .of_unused hlasts.1 fun resource => ?_
      rw [World.makerOf?_invalidate, World.pool_invalidate_self hid]
      exact dated.unused hplace (Nat.lt_succ_self _) resource
    · refine covered.spare (congrArg Pool.owner (World.pool_invalidate_of_ne heq)) ?_
        World.unreturned_invalidate (Scene.units_congr World.invalidate_held).le
      rw [World.invalidate, World.reset, if_neg Bool.false_ne_true, World.forgottenUnder_letGoAll]
      exact Nat.le_refl _
  drop := by
    rintro world hand lease fits hheld ⟨⟨h, dated⟩, hid, covered⟩
    have hpools : (world.dropLease lease).pools = world.pools := World.letGo_pools
    refine ⟨lasting_dated.drop fits hheld ⟨h, dated⟩, hpools ▸ hid, ?_⟩
    refine covered.spare (congrArg Pool.owner (World.pool_congr hpools))
      World.forgottenUnder_letGo.le World.unreturned_letGo ?_
    rw [World.dropLease, Scene.units_congr World.letGo_held, ← Scene.units_part hheld]
    exact Multiset.le_cons_self _ _
  fork h := ⟨lasting_dated.fork h.1, h.2⟩
  advance h := ⟨lasting_dated.advance h.1, h.2⟩

end Covered

namespace System

variable {system : System} {id : PoolId} {resource : ResourceId}

theorem init_covered (pids : List Pid) (pools : List (ProcessId × Config)) :
    (init pids pools).scene.Covered id := by
  refine .of_unused (init_accounted pids pools) fun resource hmaker => ?_
  rw [World.makerOf?, init_resources] at hmaker
  cases hmaker

theorem reachable_covered (reach : system.Reachable) (hid : id < system.world.pools.length) :
    system.scene.Covered id := by
  obtain ⟨pids, pools, events, hrun⟩ := reach
  have hlength := run?_length_pools ⟨pids, pools, [], rfl⟩ hrun
  exact ((lasting_covered id).run? (init_fits pids pools)
    ⟨⟨init_accounted pids pools, init_dated pids pools⟩, hlength ▸ hid, init_covered pids pools⟩
    hrun).2.2

end System

/-- The resource that something in hand has with a slot of the owner. -/
def Holding.lent? (owner : Owner) : Holding → Option ResourceId
  | .lease _ maker resource | .handed maker resource =>
      if maker = owner then some resource else none
  | _ => none

/-- The resources of the leases of an owner that callers and operations have. -/
def Scene.lentUnder (scene : Scene) (owner : Owner) : Multiset ResourceId :=
  scene.hand.filterMap (Holding.lent? owner) +
    ↑((scene.world.held.filter fun lease => lease.owner = owner).map (·.resource))

/-- The task closes resources that have lost their slots, one after the other. -/
def Task.closesApart : Task → Bool
  | .disconnecting .. | .sweeping .. => true
  | _ => false

section Lent

variable {id : PoolId} {scene : Scene} {owner : Owner} {task : Task} {holding : Holding}
  {resource : ResourceId}

theorem Holding.unit?_of_lent (h : (holding.lent? owner).isSome = true) :
    holding.unit? = some owner := by
  cases holding with
  | lease | handed =>
      rw [lent?] at h
      split at h
      · next heq => exact congrArg some heq
      · cases h
  | turn | pause | slot | loose | grip | listed | mention => cases h

/-- Each of them comes with a slot. -/
theorem Scene.card_lentUnder_le (scene : Scene) (owner : Owner) :
    (scene.lentUnder owner).card ≤ scene.units.count owner := by
  obtain ⟨world, hand⟩ := scene
  rw [lentUnder, units, Multiset.card_add, Multiset.count_add]
  refine Nat.add_le_add ?_ (Nat.le_of_eq ?_)
  · induction hand using Quotient.inductionOn with
    | h holdings =>
      rw [Multiset.quot_mk_to_coe, Multiset.filterMap_coe, Multiset.filterMap_coe,
        Multiset.coe_card, Multiset.coe_count, List.length_filterMap_eq_countP,
        List.count_filterMap]
      refine List.countP_mono_left fun holding _ hlent => ?_
      rw [Holding.unit?_of_lent hlent, beq_self_eq_true]
  · rw [Multiset.coe_card, List.length_map, ← List.countP_eq_length_filter, Multiset.coe_count,
      List.count_eq_countP, List.countP_map]
    rfl

theorem Task.isOpen_of_mem_holdings (hcloses : task.closesApart = false)
    (hmem : holding ∈ task.holdings) :
    holding ≠ .loose id resource ∧ holding ≠ .grip id resource := by
  cases task with
  | waiting | validating | replacing | creating | working | discarding | pausing =>
      rw [Multiset.mem_singleton.1 hmem]
      exact ⟨nofun, nofun⟩
  | disconnecting | sweeping => cases hcloses

end Lent

namespace System

variable {system : System} {id : PoolId} {resource : ResourceId}

/-- While nothing of the pool is being closed apart from its slot, a live resource of the pool's
owner lies idle, or hangs on a lease that is out, or was forgotten. -/
theorem mem_lentUnder_of_isAlive (reach : system.Reachable) (hid : id < system.world.pools.length)
    (hcloses : ∀ task ∈ system.tasks, task.pool = id → task.closesApart = false)
    (hmaker : system.world.makerOf? resource = some (system.world.pool id).owner)
    (halive : system.world.isAlive resource = true)
    (hforgotten : system.world.isForgotten resource = false) :
    resource ∈ (system.world.pool id).idle +
      system.scene.lentUnder (system.world.pool id).owner := by
  have fits := reachable_fits reach
  have hplace : (system.world.pool id).owner.pool = id := reach.owner_pool hid
  have hopen : ∀ holding ∈ handOf system.tasks,
      holding ≠ .loose id resource ∧ holding ≠ .grip id resource := by
    rintro holding hmem
    obtain ⟨task, htask, hholding⟩ := mem_handOf.1 hmem
    by_cases hpool : task.pool = id
    · exact Task.isOpen_of_mem_holdings (hcloses task htask hpool) hholding
    · have hother := Task.pool?_of_mem_holdings hholding
      constructor <;> rintro rfl <;> exact hpool (Option.some_inj.1 hother).symm
  have hmine : ∀ {pool}, system.world.Made pool resource → pool = id := by
    rintro pool ⟨owner, howner, rfl⟩
    rw [← hplace, Option.some_inj.1 (howner.symm.trans hmaker)]
  rcases (reachable_kept reach).isAlive_iff_placed.1 halive with howned | hgrips | hgone
  · rcases Multiset.mem_add.1 howned with hidle | hout
    · exact Multiset.mem_add.2 (.inl (mem_idle_of_makerOf? reach hid hmaker hidle))
    · refine Multiset.mem_add.2 (.inr (Multiset.mem_add.2 ?_))
      rcases Multiset.mem_add.1 hout with hheld | hhand
      · obtain ⟨lease, hlease, rfl⟩ := List.mem_map.1 (Multiset.mem_coe.1 hheld)
        have howner := Option.some_inj.1 ((fits.held lease hlease).2.symm.trans hmaker)
        exact .inr (List.mem_map_of_mem (List.mem_filter.2 ⟨hlease, decide_eq_true howner⟩))
      · obtain ⟨holding, hholding, hown⟩ := (Multiset.mem_filterMap _ _).1 hhand
        refine .inl ((Multiset.mem_filterMap _ _).2 ⟨holding, hholding, ?_⟩)
        have hfits := fits.hand holding hholding
        cases holding with
        | lease =>
            cases hown
            exact if_pos (Option.some_inj.1 (hfits.2.2.symm.trans hmaker))
        | handed =>
            cases hown
            exact if_pos (Option.some_inj.1 (hfits.2.symm.trans hmaker))
        | loose =>
            cases hown
            obtain rfl := hmine hfits.2
            exact absurd rfl (hopen _ hholding).1
        | turn | pause | slot | grip | listed | mention => cases hown
  · obtain ⟨holding, hholding, hgrip⟩ := (Multiset.mem_filterMap _ _).1 hgrips
    have hfits := fits.hand holding hholding
    cases holding with
    | grip =>
        cases hgrip
        obtain rfl := hmine hfits.2
        exact absurd rfl (hopen _ hholding).2
    | turn | pause | slot | lease | handed | loose | listed | mention => cases hgrip
  · cases hforgotten.symm.trans hgone

/-- The forgotten ones among the live resources of an owner are counted. -/
theorem length_forgotten_livesUnder_le (system : System) (owner : Owner) :
    ((system.livesUnder owner).filter system.world.isForgotten).length ≤
      system.world.forgottenUnder owner := by
  rw [livesUnder, List.filter_filter, ← List.countP_eq_length_filter, World.forgottenUnder,
    ← countP_range_getElem? (Resource.forgottenUnder owner) system.world.resources]
  refine List.countP_mono_left fun resource hmem hcounts => ?_
  have hlt : resource < system.world.resources.length := List.mem_range.1 hmem
  simp only [World.isForgotten, World.makerOf?, List.getElem?_eq_getElem hlt, Option.map_some,
    Option.getD_some, Option.some_inj, Bool.and_eq_true, decide_eq_true_eq] at hcounts
  rw [List.getElem?_eq_getElem hlt, Option.any_some, Resource.forgottenUnder, hcounts.1,
    Bool.true_and]
  exact decide_eq_true hcounts.2.1

/-- While nothing of the pool is being closed apart from its slot, the pool has at least as many
slots as its owner has live resources. -/
theorem length_livesUnder_le (reach : system.Reachable) (hid : id < system.world.pools.length)
    (hcloses : ∀ task ∈ system.tasks, task.pool = id → task.closesApart = false) :
    (system.livesUnder (system.world.pool id).owner).length ≤ (system.world.pool id).maxSize := by
  generalize hlives : system.livesUnder (system.world.pool id).owner = lives
  have hforgotten : (lives.filter system.world.isForgotten).length ≤
      system.world.forgottenUnder (system.world.pool id).owner :=
    hlives ▸ system.length_forgotten_livesUnder_le _
  have hlent : (lives.filter fun resource => !system.world.isForgotten resource).length ≤
      ((system.world.pool id).idle +
        system.scene.lentUnder (system.world.pool id).owner).card := by
    have hnodup : (lives.filter fun resource => !system.world.isForgotten resource).Nodup :=
      (hlives ▸ (system.sorted_livesUnder _).imp Nat.ne_of_lt : lives.Nodup).filter _
    refine Multiset.card_le_card ((Multiset.le_iff_subset (Multiset.coe_nodup.2 hnodup)).2 ?_)
    intro resource hmem
    obtain ⟨hmem, hstays⟩ := List.mem_filter.1 (Multiset.mem_coe.1 hmem)
    obtain ⟨hmaker, halive⟩ := (mem_livesUnder reach).1 (hlives ▸ hmem)
    exact mem_lentUnder_of_isAlive reach hid hcloses hmaker halive (Bool.not_eq_true' _ ▸ hstays)
  have hsplit := lives.length_eq_length_filter_add system.world.isForgotten
  have hcovered : system.scene.units.count (system.world.pool id).owner +
      system.world.forgottenUnder (system.world.pool id).owner ≤
        system.world.unreturned.count (system.world.pool id).owner := reachable_covered reach hid
  have hunits := system.scene.card_lentUnder_le (system.world.pool id).owner
  have hbalanced := reach.balanced hid
  have hleased := hbalanced.leased_eq
  have hslots := hbalanced.slots_le
  have hfree := (system.world.pool id).card_idle_add_vacant
  rw [Pool.slots] at hslots
  rw [Multiset.card_add] at hlent
  omega

end System

/-- The pool made something, or its registry is the same, or it is empty. -/
structure Pool.Thins (before after : Pool) : Prop where
  created_le : before.created ≤ after.created
  registry : after.created = before.created →
    after.registry = before.registry ∨ after.registry = []

namespace Pool

variable {pool middle after : Pool}

theorem Thins.of_eq (hcreated : after.created = pool.created)
    (hregistry : after.registry = pool.registry) : pool.Thins after :=
  ⟨hcreated.ge, fun _ => .inl hregistry⟩

theorem Thins.of_nil (hcreated : after.created = pool.created) (hregistry : after.registry = []) :
    pool.Thins after :=
  ⟨hcreated.ge, fun _ => .inr hregistry⟩

theorem Thins.of_lt (hcreated : pool.created < after.created) : pool.Thins after :=
  ⟨Nat.le_of_lt hcreated, fun heq => absurd heq.symm (Nat.ne_of_lt hcreated)⟩

theorem Thins.refl (pool : Pool) : pool.Thins pool := .of_eq rfl rfl

theorem Thins.trans (first : pool.Thins middle) (second : middle.Thins after) :
    pool.Thins after := by
  have hfirst := first.created_le
  have hsecond := second.created_le
  refine ⟨Nat.le_trans hfirst hsecond, fun heq => ?_⟩
  rcases second.registry (by omega) with hsame | hnil
  · rw [hsame]
    exact first.registry (by omega)
  · exact .inr hnil

theorem Thins.length_le (h : pool.Thins after) (hcreated : after.created = pool.created) :
    after.registry.length ≤ pool.registry.length := by
  rcases h.registry hcreated with hsame | hnil
  · rw [hsame]
  · rw [hnil]
    exact Nat.zero_le _

end Pool

section Thins

variable {id agent : PoolId} {scene next : Scene}

/-- What happens to one pool and thins its registry thins every registry. -/
theorem World.thins_modifyPool {world : World} {change : Pool → Pool}
    (h : ∀ pool : Pool, pool.Thins (change pool)) :
    (world.pool id).Thins ((world.modifyPool agent change).pool id) := by
  by_cases heq : id = agent
  · subst heq
    by_cases hid : id < world.pools.length
    · rw [World.pool_modifyPool_self hid]
      exact h _
    · rw [World.modifyPool, World.pool, List.modify_eq_self (Nat.le_of_not_lt hid)]
      exact .refl _
  · rw [World.pool_modifyPool_of_ne heq]
    exact .refl _

theorem Move.thins (move : Move agent scene next) :
    (scene.world.pool id).Thins (next.world.pool id) := by
  cases move with
  | refresh =>
      rw [World.pool_congr World.checkOwner_pools]
      refine World.thins_modifyPool fun pool => ?_
      split
      · exact .refl _
      · exact .of_nil rfl rfl
  | enqueue | giveUp | take | countFailure | vacate =>
      exact World.thins_modifyPool fun _ => .of_eq rfl rfl
  | make owner kind =>
      refine World.thins_modifyPool fun pool => .of_lt ?_
      rw [Pool.created_enroll]
      exact Nat.lt_succ_self _
  | shelve entry =>
      refine World.thins_modifyPool fun pool => ?_
      obtain ⟨free, heq⟩ := Pool.push_eq { pool with leased := pool.leased - 1 } (.idle entry)
      rw [Pool.giveBack, heq]
      exact .of_eq rfl rfl
  | @restore world hand owner =>
      refine World.thins_modifyPool fun pool => ?_
      obtain ⟨free, leased, stale, heq⟩ := pool.restoreVacant_eq owner
      rw [heq]
      exact .of_eq rfl rfl
  | shed | letGo | ungrasp =>
      rw [World.pool_congr World.letGo_pools]
      exact .refl _
  | tell | lend | keep | part | handIn | accept | detach | refuse | disown | grasp | skip
  | closed | pause | resume => exact .refl _

theorem lasting_thins (start : Pool) (id : PoolId) :
    Scene.Lasting fun scene => start.Thins (scene.world.pool id) where
  move _ move h := h.trans move.thins
  tearDown _ _ h := h.trans (World.thins_modifyPool fun _ => .of_nil rfl rfl)
  invalidate _ _ h := by
    refine h.trans ?_
    rw [World.pool_congr World.invalidate_pools]
    exact World.thins_modifyPool fun _ => .of_nil rfl rfl
  drop _ _ h := by
    refine h.trans ?_
    rw [World.dropLease, World.pool_congr World.letGo_pools]
    exact .refl _
  fork h := h
  advance h := h

end Thins

def Question.isForFactory : Question → Bool
  | .work .. => false
  | _ => true

def Task.asksFactory (task : Task) : Bool := task.question?.any Question.isForFactory

theorem Task.asksFactory_of_closesApart {task : Task} (h : task.closesApart = true) :
    task.asksFactory = true := by
  cases task with
  | disconnecting | sweeping => rfl
  | waiting | validating | replacing | creating | working | discarding | pausing => cases h

/-- The event is a call or an answer, and not that an operation looks again after it has waited. -/
def Event.isSpoken : Event → Bool
  | .call .. | .reply .. => true
  | .wake _ | .drop _ | .fork .. | .advance _ => false

/-- A factory makes a resource: only the registry is concerned, and nothing dies. -/
theorem World.pool_created_eq {world : World} {id : PoolId} (owner : Owner) (purpose : Purpose)
    (kind : String) (hid : id < world.pools.length) :
    (world.created id owner purpose kind).1.pool id = (world.pool id).enroll owner
      (world.created id owner purpose kind).1.isAlive world.resources.length := by
  cases purpose <;> exact World.pool_modifyPool_self (by exact hid)

theorem World.isAlive_created {world : World} {id : PoolId} (owner : Owner) (purpose : Purpose)
    (kind : String) :
    (world.created id owner purpose kind).1.isAlive world.resources.length = true := by
  have halive : (world.addResource kind owner).isAlive world.resources.length = true :=
    World.isAlive_addResource.2 (.inl rfl)
  cases purpose <;> exact halive

namespace System

variable {system start middle next : System} {id : PoolId} {event : Event}
  {events : List Event} {config : Config} {process : ProcessId}

/-- A callback of the pool's factory calls back into the pool: while the factory is asked something,
another operation on the pool begins or gets an answer. -/
def CallsBack (system : System) (id : PoolId) (event : Event) : Prop :=
  event.isSpoken = true ∧ system.agent? event = some id ∧ ∃ place task,
    system.tasks[place]? = some task ∧ task.pool = id ∧ task.asksFactory = true ∧
      ∀ reply, event ≠ .reply place reply

theorem not_callsBack_of_isQuiet (hquiet : system.IsQuiet) : ¬ system.CallsBack id event := by
  rintro ⟨-, -, place, task, htask, -⟩
  rw [hquiet] at htask
  cases htask

/-- The one task that waits gets its answer. -/
theorem not_callsBack_of_reply {task : Task} (htasks : system.tasks = [task]) (reply : Reply) :
    ¬ system.CallsBack id (.reply 0 reply) := by
  rintro ⟨-, -, place, other, hother, -, -, hne⟩
  rw [htasks] at hother
  cases place with
  | zero => exact hne reply rfl
  | succ place => cases hother

/-- The callbacks of the pool's factory leave the pool alone in a run. -/
def NeverCallsBack (start : System) (id : PoolId) (events : List Event) : Prop :=
  ∀ earlier event later middle, events = earlier ++ event :: later →
    start.run? earlier = some middle → ¬ middle.CallsBack id event

theorem neverCallsBack_nil : start.NeverCallsBack id [] := throughout_nil

theorem NeverCallsBack.cons (hstep : start.step? event = some next)
    (hfirst : ¬ start.CallsBack id event) (hrest : next.NeverCallsBack id events) :
    start.NeverCallsBack id (event :: events) :=
  Throughout.cons hstep hfirst hrest

/-- When a factory that does not call back has made a resource, nothing of the pool is being closed
apart from its slot. -/
theorem closesApart_of_created {place : Nat} {owner : Owner} {purpose : Purpose} {kind : String}
    (htask : system.tasks[place]? = some (.creating id owner purpose))
    (hback : ¬ system.CallsBack id (.reply place (.created kind))) {task : Task}
    (hmem : task ∈ (settle (system.tasks.eraseIdx place)
      (system.world.created id owner purpose kind)).tasks) (hpool : task.pool = id) :
    task.closesApart = false := by
  have hothers : task ∈ system.tasks.eraseIdx place → task.closesApart = false := by
    intro hmem
    obtain ⟨other, hne, hother⟩ := List.mem_eraseIdx_iff_getElem?.1 hmem
    by_contra hcloses
    refine hback ⟨rfl, ?_, other, task, hother, hpool,
      Task.asksFactory_of_closesApart (Bool.not_eq_false _ ▸ hcloses), ?_⟩
    · rw [agent?, htask]
      rfl
    · rintro reply ⟨⟩
      exact hne rfl
  cases purpose with
  | lend => exact hothers hmem
  | attempt policy retries =>
      rcases List.mem_cons.1 hmem with rfl | hold
      · rfl
      · exact hothers hold

/-- A registry to which a resource was just added lists live resources only. -/
theorem registry_of_created {owner : Owner} {purpose : Purpose} {kind : String}
    (hid : id < system.world.pools.length) (reach : next.Reachable)
    (hid' : id < next.world.pools.length)
    (hworld : next.world = (system.world.created id owner purpose kind).1)
    (howner : (system.world.pool id).owner = owner) :
    (next.world.pool id).registry = next.livesUnder (next.world.pool id).owner := by
  have hpool := World.pool_created_eq owner purpose kind hid
  have hnewest : (system.world.created id owner purpose kind).1.isAlive
      system.world.resources.length = true := World.isAlive_created owner purpose kind
  rw [← hworld] at hpool hnewest
  have hregistry : (next.world.pool id).registry =
      (system.world.pool id).registry.filter next.world.isAlive ++
        [system.world.resources.length] := by
    rw [hpool, Pool.enroll, if_pos howner, Pool.register]
  have halive : (next.world.pool id).registry.filter next.world.isAlive =
      (next.world.pool id).registry := by
    refine List.filter_eq_self.2 fun resource hmem => ?_
    rw [hregistry] at hmem
    rcases List.mem_append.1 hmem with hold | hnew
    · exact (List.mem_filter.1 hold).2
    · rw [List.mem_singleton.1 hnew]
      exact hnewest
  rw [← halive]
  exact filter_registry reach hid'

/-- A turn in which the pool's factory makes a resource. -/
theorem Turn.eq_created {task? : Option Task} {progress : Progress}
    (turn : system.Turn id event task? next progress)
    (hmakes : Act.makes ⟨system, task?, event, next, progress⟩ = true) :
    ∃ place owner purpose kind, event = .reply place (.created kind) ∧
      system.tasks[place]? = some (.creating id owner purpose) ∧
      next = settle (system.tasks.eraseIdx place)
        (system.world.created id owner purpose kind) := by
  cases turn with
  | call => cases hmakes
  | @wake place task => cases task <;> cases hmakes
  | @reply place reply task result htask h =>
      cases task with
      | creating agent owner purpose =>
          cases reply with
          | created kind =>
              cases h
              exact ⟨place, owner, purpose, kind, rfl, htask, rfl⟩
          | notCreated | closed | valid | worked | broke => cases hmakes
      | waiting | validating | replacing | working | discarding | pausing | disconnecting
      | sweeping => cases hmakes

/-- A resource is made for the pool only when it has a slot for each live one; otherwise nothing is
entered in its registry. -/
theorem step?_registry_le (reach : system.Reachable) (hid : id < system.world.pools.length)
    (hstep : system.step? event = some next) (hback : ¬ system.CallsBack id event)
    (hsize : (next.world.pool id).maxSize = (system.world.pool id).maxSize)
    (hle : (system.world.pool id).registry.length ≤ (system.world.pool id).maxSize) :
    (next.world.pool id).registry.length ≤ (next.world.pool id).maxSize := by
  have hid' : id < next.world.pools.length := reach.lt_of_step? hid hstep
  have hkeeps : (next.world.pool id).created = (system.world.pool id).created →
      (next.world.pool id).registry.length ≤ (next.world.pool id).maxSize := by
    intro hcreated
    have thins : (system.world.pool id).Thins (next.world.pool id) :=
      (lasting_thins (system.world.pool id) id).step? (reachable_fits reach) (.refl _) hstep
    rw [hsize]
    exact Nat.le_trans (thins.length_le hcreated) hle
  by_cases hagent : system.agent? event = some id
  · obtain ⟨task?, progress, turn⟩ := exists_turn hagent hstep
    have tallies := turn.tallies hid
    have hcreated := ((Pool.counts_eq_iff _).1 tallies.counts_eq).1
    cases hmakes : Act.makes ⟨system, task?, event, next, progress⟩ with
    | false =>
        rw [hmakes] at hcreated
        exact hkeeps hcreated
    | true =>
        obtain ⟨place, owner, purpose, kind, rfl, htask, rfl⟩ := turn.eq_created hmakes
        by_cases howner : (system.world.pool id).owner = owner
        · rw [registry_of_created hid (reach.step? hstep) hid' (world_settle _ _) howner]
          exact length_livesUnder_le (reach.step? hstep) hid' fun task hmem hpool =>
            closesApart_of_created htask hback hmem hpool
        · have hpool := World.pool_created_eq owner purpose kind hid
          have hsame : ((system.world.created id owner purpose kind).1.pool id).registry =
              (system.world.pool id).registry := by
            rw [hpool, Pool.enroll, if_neg howner]
          rw [hsize, world_settle, hsame]
          exact hle
  · apply hkeeps
    rw [step?_pool_of_ne reach hstep hagent]

/-- A pool whose factory does not call back registers no more resources than it has slots. -/
theorem run?_registry_le {pids : List Pid} {pools : List (ProcessId × Config)}
    (hpool : pools[id]? = some (process, config))
    (hrun : (init pids pools).run? events = some system)
    (hquiet : (init pids pools).NeverCallsBack id events) :
    (system.world.pool id).registry.length ≤ (system.world.pool id).maxSize := by
  have hinit : (init pids pools).Reachable := ⟨pids, pools, [], rfl⟩
  obtain ⟨hid, hnew⟩ := init_pool pids hpool
  induction events using List.reverseRecOn generalizing system with
  | nil =>
      cases hrun
      rw [hnew]
      exact Nat.zero_le _
  | append_singleton events event ih =>
      obtain ⟨middle, hmiddle, hstep⟩ :=
        Option.bind_eq_some_iff.1 ((run?_concat _ events event).symm.trans hrun)
      obtain ⟨hbefore, hback⟩ := Throughout.of_concat hquiet hmiddle
      refine step?_registry_le (hinit.run? hmiddle) (hinit.lt_of_run? hid hmiddle) hstep hback ?_
        (ih hmiddle hbefore)
      rw [Pool.maxSize, Pool.maxSize, (run?_slots hpool hrun).1, (run?_slots hpool hmiddle).1]

/-- If its factory does not call back into it, a pool has no more entries in its registry than its
size; they are resources of its present owner, each of them once. -/
theorem registry_bounded {pids : List Pid} {pools : List (ProcessId × Config)}
    (hpool : pools[id]? = some (process, config))
    (hrun : (init pids pools).run? events = some system)
    (hquiet : (init pids pools).NeverCallsBack id events) :
    (system.world.pool id).registry.length ≤ config.maxSize.toNat ∧
      (system.world.pool id).registry.Nodup ∧
      ∀ resource ∈ (system.world.pool id).registry,
        system.world.makerOf? resource = some (system.world.pool id).owner := by
  have hinit : (init pids pools).Reachable := ⟨pids, pools, [], rfl⟩
  have reach : system.Reachable := ⟨pids, pools, events, hrun⟩
  have hid : id < system.world.pools.length := hinit.lt_of_run? (init_pool pids hpool).1 hrun
  have hle := run?_registry_le hpool hrun hquiet
  rw [Pool.maxSize, (run?_slots hpool hrun).1] at hle
  have hlists : (system.world.pool id).Lists system.world := (reachable_listed reach).pool hid
  exact ⟨hle, hlists.sorted.imp Nat.ne_of_lt, ((reachable_fits reach).pools.pool hid).registry⟩

/-- A lease is dropped and another one made on a pool of size two: the dead entry is dropped for the
new one. -/
theorem registry_bounded_dropped : ∃ system,
    (init [7] [(0, Config.ofSize 2)]).run?
        [.call 0 (.acquire none), .reply 0 (.created "db"), .drop ⟨0, ⟨0, 7, 0⟩, 0⟩,
          .call 0 (.acquire none), .reply 0 (.created "db")] = some system ∧
      (system.world.pool 0).registry = [1] ∧ (system.world.pool 0).registry.length ≤ 2 := by
  refine exists_run? rfl fun system hrun => ?_
  have hpool : [((0 : ProcessId), Config.ofSize 2)][0]? = some (0, Config.ofSize 2) := rfl
  refine ⟨?_, (registry_bounded hpool hrun ?_).1⟩
  · cases hrun
    rfl
  · refine .cons rfl (not_callsBack_of_isQuiet rfl) ?_
    refine .cons rfl (not_callsBack_of_reply rfl _) ?_
    refine .cons rfl (not_callsBack_of_isQuiet rfl) ?_
    refine .cons rfl (not_callsBack_of_isQuiet rfl) ?_
    exact .cons rfl (not_callsBack_of_reply rfl _) neverCallsBack_nil

end System
end LeasePool
