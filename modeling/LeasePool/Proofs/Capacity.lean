import LeasePool.Proofs.Conservation
import LeasePool.Proofs.Custody

/-!
Capacity. The resources that a pool made and that are still alive take up its slots: they lie idle,
or hang on a lease or a slot that is unreturned, or a sweep is about to destroy them. So a pool that
is neither torn down nor taken to another process never has more of them than its size.
-/

namespace LeasePool

theorem countP_modify {α : Type} (counts : α → Bool) (change : α → α) {entries : List α} {n : Nat}
    (h : n < entries.length) :
    (entries.modify n change).countP counts + (if counts entries[n] then 1 else 0) =
      entries.countP counts + (if counts (change entries[n]) then 1 else 0) := by
  induction entries generalizing n with
  | nil => exact absurd h (Nat.not_lt_zero n)
  | cons entry rest ih =>
      cases n with
      | zero =>
          rw [List.modify_zero_cons, List.countP_cons, List.countP_cons, List.getElem_cons_zero]
          omega
      | succ n =>
          have hrest := ih (Nat.lt_of_succ_lt_succ h)
          rw [List.modify_succ_cons, List.countP_cons, List.countP_cons, List.getElem_cons_succ]
          omega

theorem countP_range_getElem? {α : Type} (counts : α → Bool) (entries : List α) :
    (List.range entries.length).countP (fun n => entries[n]?.any counts) =
      entries.countP counts := by
  induction entries with
  | nil => rfl
  | cons entry rest ih =>
      rw [List.length_cons, List.range_succ_eq_map, List.countP_cons, List.countP_map,
        List.countP_cons, ← ih]
      rfl

/-- The pool made the resource, and someone holds it. -/
def Resource.livesOf (id : PoolId) (entry : Resource) : Bool :=
  decide (0 < entry.holders ∧ entry.owner.pool = id)

namespace World

variable {world : World} {id : PoolId} {resource : ResourceId} {owner : Owner}

def liveOf (world : World) (id : PoolId) : Nat := world.resources.countP (Resource.livesOf id)

theorem holders_getElem (hlt : resource < world.resources.length) :
    world.resources[resource].holders = world.holdersOf resource := by
  simp [holdersOf, hlt]

theorem pool_getElem (hlt : resource < world.resources.length) (hmade : world.Made id resource) :
    world.resources[resource].owner.pool = id := by
  obtain ⟨owner, hmaker, rfl⟩ := hmade
  have hsame : world.makerOf? resource = some world.resources[resource].owner := by
    simp [makerOf?, hlt]
  rw [Option.some_inj.1 (hsame.symm.trans hmaker)]

theorem liveOf_letGo_le : (world.letGo resource).liveOf id ≤ world.liveOf id := by
  rw [liveOf, letGo_resources, liveOf]
  by_cases hlt : resource < world.resources.length
  · have hcount := countP_modify (Resource.livesOf id)
      (fun entry => { entry with holders := entry.holders - 1 }) hlt
    cases hafter : Resource.livesOf id { world.resources[resource] with
        holders := world.resources[resource].holders - 1 } with
    | false =>
        rw [hafter, if_neg Bool.false_ne_true] at hcount
        omega
    | true =>
        have hbefore : Resource.livesOf id world.resources[resource] = true := by
          simp only [Resource.livesOf, decide_eq_true_eq] at hafter ⊢
          exact ⟨by omega, hafter.2⟩
        rw [hafter, hbefore] at hcount
        omega
  · rw [List.modify_eq_self (Nat.le_of_not_lt hlt)]

/-- The last holder of a resource of the pool lets it go. -/
theorem liveOf_letGo_of_last (hlast : world.holdersOf resource = 1)
    (hmade : world.Made id resource) : (world.letGo resource).liveOf id + 1 = world.liveOf id := by
  have hlt : resource < world.resources.length := lt_of_holdersOf_pos (by omega)
  have hcount := countP_modify (Resource.livesOf id)
    (fun entry => { entry with holders := entry.holders - 1 }) hlt
  have hbefore : Resource.livesOf id world.resources[resource] = true := by
    simp [Resource.livesOf, holders_getElem hlt, pool_getElem hlt hmade, hlast]
  have hafter : Resource.livesOf id { world.resources[resource] with
      holders := world.resources[resource].holders - 1 } = false := by
    simp [Resource.livesOf, holders_getElem hlt, hlast]
  rw [hbefore, hafter, if_pos rfl, if_neg Bool.false_ne_true, Nat.add_zero] at hcount
  rw [liveOf, letGo_resources, liveOf]
  exact hcount

theorem liveOf_hold (halive : world.isAlive resource = true) :
    (world.hold resource).liveOf id = world.liveOf id := by
  have hpos := isAlive_iff.1 halive
  have hlt := lt_of_holdersOf_pos hpos
  have hcount := countP_modify (Resource.livesOf id)
    (fun entry => { entry with holders := entry.holders + 1 }) hlt
  have hsame : Resource.livesOf id { world.resources[resource] with
      holders := world.resources[resource].holders + 1 } =
        Resource.livesOf id world.resources[resource] := by
    rw [← holders_getElem hlt] at hpos
    simp [Resource.livesOf, hpos]
  rw [hsame] at hcount
  exact Nat.add_right_cancel hcount

theorem liveOf_forget : (world.forget resource).liveOf id = world.liveOf id := by
  by_cases hlt : resource < world.resources.length
  · exact Nat.add_right_cancel (countP_modify (Resource.livesOf id)
      (fun entry => { entry with forgotten := true }) hlt)
  · rw [liveOf, forget, List.modify_eq_self (Nat.le_of_not_lt hlt), liveOf]

theorem liveOf_addResource (kind : String) :
    (world.addResource kind owner).liveOf id =
      world.liveOf id + if owner.pool = id then 1 else 0 := by
  simp [liveOf, addResource, List.countP_append, Resource.livesOf]

theorem liveOf_forgetAll {resources : List ResourceId} :
    (world.forgetAll resources).liveOf id = world.liveOf id := by
  induction resources generalizing world with
  | nil => rfl
  | cons resource rest ih => rw [forgetAll_cons, ih, liveOf_forget]

theorem liveOf_letGoAll_le {resources : List ResourceId} :
    (world.letGoAll resources).liveOf id ≤ world.liveOf id := by
  induction resources generalizing world with
  | nil => exact Nat.le_refl _
  | cons resource rest ih => exact Nat.le_trans ih liveOf_letGo_le

/-- Resources of the pool that lose their places, and that no teardown grips, die. -/
theorem liveOf_letGoAll {resources : List ResourceId} {owned gripped : Multiset ResourceId}
    (h : world.Kept (↑resources + owned) gripped)
    (hmade : ∀ resource ∈ resources, world.Made id resource ∧ gripped.count resource = 0) :
    (world.letGoAll resources).liveOf id + resources.length = world.liveOf id := by
  induction resources generalizing world with
  | nil => rfl
  | cons resource rest ih =>
      rw [← Multiset.cons_coe, Multiset.cons_add] at h
      obtain ⟨hmine, hgrips⟩ := hmade resource List.mem_cons_self
      have hlast : world.holdersOf resource = 1 := h.holders_eq_one hgrips
      have hrest := ih h.letGo_owned fun other hmem => by
        simpa only [Made, makerOf?_letGo] using hmade other (List.mem_cons_of_mem _ hmem)
      have hfirst := liveOf_letGo_of_last hlast hmine
      rw [letGoAll_cons, List.length_cons]
      omega

theorem liveOf_checkOwner {agent : PoolId} :
    (world.checkOwner agent).liveOf id = world.liveOf id := by
  by_cases hpid : world.currentPid agent = (world.pool agent).notedPid
  · rw [checkOwner_of_eq hpid]
  · rw [checkOwner_of_ne hpid, reset, if_pos rfl, liveOf_forgetAll]
    rfl

def outOf (world : World) (id : PoolId) : Nat :=
  world.unreturned.countP fun owner => owner.pool = id

theorem outOf_slotTaken : (world.emit (.slotTaken owner)).outOf id =
    world.outOf id + if owner.pool = id then 1 else 0 :=
  Multiset.countP_cons _ _ _

theorem outOf_slotReturned (hmem : owner ∈ world.unreturned) :
    (world.emit (.slotReturned owner)).outOf id + (if owner.pool = id then 1 else 0) =
      world.outOf id := by
  have hcons : (world.emit (.slotReturned owner)).unreturned = world.unreturned.erase owner := rfl
  rw [outOf, outOf, hcons, ← Multiset.countP_cons, Multiset.cons_erase hmem]

end World

/-- It belongs to a teardown of the pool. -/
def Holding.isTeardown (id : PoolId) : Holding → Bool
  | .grip pool _ | .listed pool _ => pool == id
  | _ => false

/-- It is a slot of the pool without a resource. -/
def Holding.isBare (id : PoolId) : Holding → Bool
  | .slot pool _ => pool == id
  | _ => false

/-- It is a resource of the pool apart from its slot. -/
def Holding.isLoose (id : PoolId) : Holding → Bool
  | .loose pool _ => pool == id
  | _ => false

/-- The pool knows the pid of its process, and it was never torn down or taken to another one. -/
structure Scene.Calm (id : PoolId) (scene : Scene) : Prop where
  noted : (scene.world.pool id).notedPid = scene.world.currentPid id
  floor : (scene.world.pool id).reclaimFloor = 0
  ungripped : ∀ holding ∈ scene.hand, holding.isTeardown id = false

section Calm

variable {id agent : PoolId} {scene next : Scene}

theorem Move.calm (move : Move agent scene next) (h : scene.Accounted)
    (hid : id < scene.world.pools.length) (calm : scene.Calm id) : next.Calm id := by
  obtain ⟨hsteady, hnoted⟩ := move.steady h hid calm.noted
  refine ⟨hnoted, hsteady.floor_eq.trans calm.floor, ?_⟩
  refine move.forall_hand ?_ (fun resource hlisted => hlisted) calm.ungripped
  intro holding hopen
  cases holding with
  | grip | listed => cases hopen
  | turn | pause | slot | lease | handed | loose | mention => rfl

end Calm

def bareOf (hand : Multiset Holding) (id : PoolId) : Nat :=
  hand.countP fun holding => holding.isBare id = true

def looseOf (hand : Multiset Holding) (id : PoolId) : Nat :=
  hand.countP fun holding => holding.isLoose id = true

/-- Each live resource of the pool and each of its slots in hand without one is paid for. -/
def Scene.Paid (id : PoolId) (scene : Scene) : Prop :=
  scene.world.liveOf id + bareOf scene.hand id ≤
    (scene.world.pool id).idle.card + looseOf scene.hand id + scene.world.outOf id

section Paid

variable {id agent : PoolId} {scene next : Scene} {world after : World}
  {hand left : Multiset Holding} {holding : Holding}

theorem bareOf_cons :
    bareOf (holding ::ₘ hand) id = bareOf hand id + (holding.isBare id).toNat := by
  rw [bareOf, Multiset.countP_cons]
  cases holding.isBare id <;> rfl

theorem looseOf_cons :
    looseOf (holding ::ₘ hand) id = looseOf hand id + (holding.isLoose id).toNat := by
  rw [looseOf, Multiset.countP_cons]
  cases holding.isLoose id <;> rfl

theorem countP_add_of_none {counts : Holding → Bool}
    (hnone : ∀ holding ∈ left, counts holding = false) :
    (left + hand).countP (fun holding => counts holding = true) =
      hand.countP fun holding => counts holding = true := by
  rw [Multiset.countP_add, Multiset.countP_eq_zero.2, Nat.zero_add]
  intro holding hmem
  rw [hnone holding hmem]
  exact Bool.false_ne_true

theorem bareOf_add (hnone : ∀ holding ∈ left, holding.isBare id = false) :
    bareOf (left + hand) id = bareOf hand id :=
  countP_add_of_none hnone

theorem looseOf_add (hnone : ∀ holding ∈ left, holding.isLoose id = false) :
    looseOf (left + hand) id = looseOf hand id :=
  countP_add_of_none hnone

theorem looseOf_add_loose (resources : List ResourceId) :
    looseOf (↑(resources.map (Holding.loose id)) + hand) id =
      looseOf hand id + resources.length := by
  have hall : Multiset.countP (fun holding : Holding => holding.isLoose id = true)
      ↑(resources.map (Holding.loose id)) = resources.length := by
    rw [Multiset.coe_countP, List.countP_map, List.countP_eq_length]
    intro resource _
    simp [Holding.isLoose]
  rw [looseOf, Multiset.countP_add, hall, Nat.add_comm, looseOf]

/-- No teardown grips a resource of a calm pool. -/
theorem Scene.Calm.count_gripped (calm : Calm id ⟨world, hand⟩) (fits : Fits ⟨world, hand⟩)
    {resource : ResourceId} (hmade : world.Made id resource) :
    (gripped ⟨world, hand⟩).count resource = 0 := by
  refine Multiset.count_eq_zero_of_notMem fun hmem => ?_
  obtain ⟨holding, hholding, hgrips⟩ := (Multiset.mem_filterMap _ _).1 hmem
  cases holding with
  | grip pool other =>
      cases hgrips
      obtain ⟨-, owner, hmaker, rfl⟩ := fits.hand _ hholding
      obtain ⟨maker, hsame, rfl⟩ := hmade
      obtain rfl : maker = owner := Option.some_inj.1 (hsame.symm.trans hmaker)
      have hcalm := calm.ungripped _ hholding
      simp [Holding.isTeardown] at hcalm
  | turn | pause | slot | lease | handed | loose | listed | mention => cases hgrips

/-- The leases of a calm pool that are out are of its process. -/
theorem Scene.Calm.pid_eq (calm : Calm id ⟨world, hand⟩) (fits : Fits ⟨world, hand⟩)
    (h : Accounted ⟨world, hand⟩) (hid : id < world.pools.length) {owner : Owner}
    (hmem : owner ∈ world.unreturned) (hpool : owner.pool = id) :
    owner.pid = world.currentPid id := by
  have hfits := fits.pools.pool hid
  have hissued := (h.pools.pool hid).issued owner hmem (hpool.trans hfits.pool_eq.symm)
  have hfloor : (world.pool id).reclaimFloor ≤ owner.epoch := by
    rw [calm.floor]
    exact Nat.zero_le _
  exact (hissued.2 hfloor).trans (hfits.pid_eq.symm.trans calm.noted)

/-- A slot that comes back is no longer out. -/
theorem Scene.Accounted.outOf_return (h : Accounted ⟨world, holding ::ₘ hand⟩) {owner : Owner}
    (hunit : holding.unit? = some owner) :
    (world.emit (.slotReturned owner)).outOf id + (if owner.pool = id then 1 else 0) =
      world.outOf id :=
  World.outOf_slotReturned
    (Multiset.mem_of_le h.backed (mem_units (Multiset.mem_cons_self _ _) hunit))

theorem Scene.Accounted.outOf_return_of_ne (h : Accounted ⟨world, holding ::ₘ hand⟩)
    {owner : Owner} (hunit : holding.unit? = some owner) (hne : owner.pool ≠ id) :
    (world.emit (.slotReturned owner)).outOf id = world.outOf id := by
  rw [← h.outOf_return hunit, if_neg hne, Nat.add_zero]

/-- The idle resources and the unreturned leases of the pool stay, and what is in hand is worth as
much as before. -/
theorem Scene.Paid.spare (h : Paid id ⟨world, hand⟩) (hlive : after.liveOf id ≤ world.liveOf id)
    (hidle : (after.pool id).idle = (world.pool id).idle)
    (hout : after.unreturned = world.unreturned)
    (hworth : bareOf left id + looseOf hand id ≤ bareOf hand id + looseOf left id) :
    Paid id ⟨after, left⟩ := by
  simp only [Paid, World.outOf, hidle, hout] at h ⊢
  omega

theorem Move.outOf_of_ne (move : Move agent scene next) (fits : scene.Fits) (h : scene.Accounted)
    (hne : id ≠ agent) : next.world.outOf id = scene.world.outOf id := by
  cases move with
  | refresh => rw [World.outOf, World.unreturned_checkOwner, World.outOf]
  | take hfree =>
      have hplace := (fits.pools.pool (World.lt_of_free_eq_cons hfree)).pool_eq
      apply World.outOf_slotTaken.trans
      rw [hplace, if_neg hne.symm]
      rfl
  | shelve entry howner hpool hroom => exact h.outOf_return_of_ne rfl (hpool.trans_ne hne.symm)
  | @restore world hand owner =>
      obtain ⟨-, hpool⟩ := fits.hand (.slot agent owner) (Multiset.mem_cons_self _ _)
      exact h.outOf_return_of_ne rfl (hpool.trans_ne hne.symm)
  | refuse hpool hnow hpid => exact h.outOf_return_of_ne rfl (hpool.trans_ne hne.symm)
  | shed | letGo | ungrasp => rw [World.outOf, World.unreturned_letGo, World.outOf]
  | _ => rfl

theorem Move.liveOf_le_of_ne (move : Move agent scene next) (fits : scene.Fits)
    (hne : id ≠ agent) : next.world.liveOf id ≤ scene.world.liveOf id := by
  cases move with
  | refresh => exact World.liveOf_checkOwner.le
  | @make world hand owner kind =>
      obtain ⟨-, hpool⟩ := fits.hand (.slot agent owner) (Multiset.mem_cons_self _ _)
      have hlive : (world.addResource kind owner).liveOf id = _ := World.liveOf_addResource kind
      rw [hpool, if_neg hne.symm] at hlive
      exact hlive.le
  | grasp halive => exact (World.liveOf_hold halive).le
  | refuse | disown => exact World.liveOf_forget.le
  | shed | letGo | ungrasp => exact World.liveOf_letGo_le
  | _ => exact Nat.le_refl _

theorem Move.worth_of_ne (move : Move agent scene next) (hne : id ≠ agent) :
    bareOf next.hand id = bareOf scene.hand id ∧ looseOf next.hand id = looseOf scene.hand id := by
  have hother : (agent == id) = false := beq_false_of_ne hne.symm
  cases move with
  | tell | refresh | countFailure | lend => exact ⟨rfl, rfl⟩
  | @take world hand slot rest hfree =>
      cases slot <;>
        simp [bareOf_cons, looseOf_cons, Slot.holding, Holding.isBare, Holding.isLoose, hother]
  | @vacate world hand hid takes hpid =>
      have hloose : ∀ holding ∈ (↑(((world.pool agent).selected takes).map
          (Holding.loose agent)) : Multiset Holding),
          holding.isBare id = false ∧ holding.isLoose id = false := by
        intro holding hmem
        obtain ⟨resource, -, rfl⟩ := List.mem_map.1 (Multiset.mem_coe.1 hmem)
        exact ⟨rfl, hother⟩
      have hnames : ∀ holding ∈ (↑(((world.pool agent).selected takes).map
          (Holding.mention agent)) : Multiset Holding),
          holding.isBare id = false ∧ holding.isLoose id = false := by
        intro holding hmem
        obtain ⟨resource, -, rfl⟩ := List.mem_map.1 (Multiset.mem_coe.1 hmem)
        exact ⟨rfl, rfl⟩
      constructor
      · rw [bareOf_add fun x hx => (hloose x hx).1, bareOf_add fun x hx => (hnames x hx).1]
      · rw [looseOf_add fun x hx => (hloose x hx).2, looseOf_add fun x hx => (hnames x hx).2]
  | _ => simp [bareOf_cons, looseOf_cons, Holding.isBare, Holding.isLoose, hother]

/-- What an operation on another pool does costs the pool nothing. -/
theorem Move.paid_of_ne (move : Move agent scene next) (fits : scene.Fits) (h : scene.Accounted)
    (hne : id ≠ agent) (paid : scene.Paid id) : next.Paid id := by
  obtain ⟨hbare, hloose⟩ := move.worth_of_ne hne
  rw [Scene.Paid, move.pool_of_ne hne, move.outOf_of_ne fits h hne, hbare, hloose]
  exact (Nat.add_le_add_right (move.liveOf_le_of_ne fits hne) _).trans paid

namespace Scene.Paid

/-- A taken slot is paid for by the lease that goes out with it. -/
theorem take {slot : Slot} {rest : List Slot} (paid : Paid id ⟨world, .turn id ::ₘ hand⟩)
    (fits : Fits ⟨world, .turn id ::ₘ hand⟩) (hid : id < world.pools.length)
    (hfree : (world.pool id).free = slot :: rest) :
    Paid id ⟨(world.modifyPool id Pool.take).emit (.slotTaken (world.pool id).owner),
      slot.holding id (world.pool id).owner ::ₘ hand⟩ := by
  have hplace : (world.pool id).owner.pool = id := (fits.pools.pool hid).pool_eq
  have hout : ((world.modifyPool id Pool.take).emit (.slotTaken (world.pool id).owner)).outOf id =
      world.outOf id + if (world.pool id).owner.pool = id then 1 else 0 := World.outOf_slotTaken
  have hlive : ((world.modifyPool id Pool.take).emit
      (.slotTaken (world.pool id).owner)).liveOf id = world.liveOf id := rfl
  have hpool : ((world.modifyPool id Pool.take).emit (.slotTaken (world.pool id).owner)).pool id =
      (world.pool id).take := World.pool_modifyPool_self hid
  have hidle := congrArg Multiset.card (Pool.idle_take hfree)
  rw [if_pos hplace] at hout
  cases slot <;>
    simp [Paid, bareOf_cons, looseOf_cons, Holding.isBare, Holding.isLoose, hpool, hout, hlive,
      Slot.idle?, Slot.holding] at paid hidle ⊢ <;> omega

/-- A new resource takes the place of the slot it is made in. -/
theorem make {owner : Owner} (paid : Paid id ⟨world, .slot id owner ::ₘ hand⟩)
    (hpool : owner.pool = id) (kind : String) (alive : ResourceId → Bool) :
    Paid id ⟨(world.addResource kind owner).modifyPool id fun pool =>
        pool.enroll owner alive world.resources.length,
      .lease id owner world.resources.length ::ₘ hand⟩ := by
  have hidle : (((world.addResource kind owner).modifyPool id fun pool =>
      pool.enroll owner alive world.resources.length).pool id).idle = (world.pool id).idle :=
    World.view_modifyPool Pool.idle fun pool => pool.idle_enroll _ _ _
  have hlive : ((world.addResource kind owner).modifyPool id fun pool =>
      pool.enroll owner alive world.resources.length).liveOf id =
        world.liveOf id + if owner.pool = id then 1 else 0 := World.liveOf_addResource kind
  have hout : ((world.addResource kind owner).modifyPool id fun pool =>
      pool.enroll owner alive world.resources.length).outOf id = world.outOf id := rfl
  rw [if_pos hpool] at hlive
  simp only [Paid, bareOf_cons, looseOf_cons, Holding.isBare, Holding.isLoose, hidle, hlive, hout,
    beq_self_eq_true, Bool.toNat_true, Bool.toNat_false] at paid ⊢
  omega

/-- A lease that comes back pays as an idle resource. -/
theorem shelve {owner : Owner} {entry : IdleResource}
    (paid : Paid id ⟨world, .handed owner entry.resource ::ₘ hand⟩)
    (h : Accounted ⟨world, .handed owner entry.resource ::ₘ hand⟩)
    (hid : id < world.pools.length) (hpool : owner.pool = id)
    (hroom : (world.pool id).free.length < (world.pool id).maxSize) :
    Paid id ⟨(world.emit (.slotReturned owner)).modifyPool id
      fun pool => pool.giveBack (.idle entry), hand⟩ := by
  have hout : ((world.emit (.slotReturned owner)).modifyPool id fun pool =>
      pool.giveBack (.idle entry)).outOf id + (if owner.pool = id then 1 else 0) =
        world.outOf id := h.outOf_return rfl
  have hlive : ((world.emit (.slotReturned owner)).modifyPool id fun pool =>
      pool.giveBack (.idle entry)).liveOf id = world.liveOf id := rfl
  have hnow : ((world.emit (.slotReturned owner)).modifyPool id fun pool =>
      pool.giveBack (.idle entry)).pool id = (world.pool id).giveBack (.idle entry) :=
    World.pool_modifyPool_self hid
  have hidle := congrArg Multiset.card (Pool.idle_giveBack entry hroom)
  rw [Multiset.card_cons] at hidle
  rw [if_pos hpool] at hout
  simp only [Paid, bareOf_cons, looseOf_cons, Holding.isBare, Holding.isLoose, hlive, hnow,
    Bool.toNat_false] at paid hidle ⊢
  omega

/-- A slot that comes back without a resource had nothing to pay for. -/
theorem restore {owner : Owner} (paid : Paid id ⟨world, .slot id owner ::ₘ hand⟩)
    (h : Accounted ⟨world, .slot id owner ::ₘ hand⟩) (hpool : owner.pool = id) :
    Paid id ⟨world.restoreVacant id owner, hand⟩ := by
  have hidle : ((world.restoreVacant id owner).pool id).idle = (world.pool id).idle := by
    refine World.view_modifyPool Pool.idle fun pool => ?_
    rw [Pool.idle, Pool.idleFromBottom_restoreVacant, Pool.idle]
  have hout : (world.restoreVacant id owner).outOf id + (if owner.pool = id then 1 else 0) =
      world.outOf id := h.outOf_return rfl
  have hlive : (world.restoreVacant id owner).liveOf id = world.liveOf id := rfl
  rw [if_pos hpool] at hout
  simp only [Paid, bareOf_cons, looseOf_cons, Holding.isBare, Holding.isLoose, hidle, hlive,
    beq_self_eq_true, Bool.toNat_true, Bool.toNat_false] at paid ⊢
  omega

/-- A resource apart from its slot is destroyed when it is let go, for nothing grips it. -/
theorem letGo {resource : ResourceId} (paid : Paid id ⟨world, .loose id resource ::ₘ hand⟩)
    (fits : Fits ⟨world, .loose id resource ::ₘ hand⟩)
    (kept : Kept ⟨world, .loose id resource ::ₘ hand⟩)
    (calm : Calm id ⟨world, .loose id resource ::ₘ hand⟩) :
    Paid id ⟨world.letGo resource, hand⟩ := by
  obtain ⟨-, hmade⟩ := fits.hand _ (Multiset.mem_cons_self _ _)
  have hgrips := calm.count_gripped fits hmade
  rw [Kept, owned_cons_some rfl] at kept
  have hlive : (world.letGo resource).liveOf id + 1 = world.liveOf id :=
    World.liveOf_letGo_of_last (kept.holders_eq_one hgrips) hmade
  have hidle : ((world.letGo resource).pool id).idle = (world.pool id).idle :=
    congrArg _ (World.pool_congr World.letGo_pools)
  simp only [Paid, bareOf_cons, looseOf_cons, Holding.isBare, Holding.isLoose, World.outOf,
    World.unreturned_letGo, hidle, beq_self_eq_true, Bool.toNat_true, Bool.toNat_false] at paid ⊢
  omega

/-- The idle resources that a sweep takes out pay on in hand. -/
theorem vacate (paid : Paid id ⟨world, hand⟩) (hid : id < world.pools.length)
    (takes : IdleResource → Bool) :
    Paid id ⟨world.modifyPool id fun pool => pool.vacate takes,
      ↑(((world.pool id).selected takes).map (Holding.loose id)) +
        (↑(((world.pool id).selected takes).map (Holding.mention id)) + hand)⟩ := by
  have hbare : ∀ holding ∈ (↑(((world.pool id).selected takes).map (Holding.loose id)) :
      Multiset Holding), holding.isBare id = false := by
    intro holding hmem
    obtain ⟨resource, -, rfl⟩ := List.mem_map.1 (Multiset.mem_coe.1 hmem)
    rfl
  have hnames : ∀ holding ∈ (↑(((world.pool id).selected takes).map (Holding.mention id)) :
      Multiset Holding), holding.isBare id = false ∧ holding.isLoose id = false := by
    intro holding hmem
    obtain ⟨resource, -, rfl⟩ := List.mem_map.1 (Multiset.mem_coe.1 hmem)
    exact ⟨rfl, rfl⟩
  have hlive : (world.modifyPool id fun pool => pool.vacate takes).liveOf id =
    world.liveOf id := rfl
  have hout : (world.modifyPool id fun pool => pool.vacate takes).outOf id =
    world.outOf id := rfl
  have hnow : (world.modifyPool id fun pool => pool.vacate takes).pool id =
    (world.pool id).vacate takes := World.pool_modifyPool_self hid
  have hidle := congrArg Multiset.card ((world.pool id).idle_vacate_add_selected takes)
  rw [Multiset.card_add, Multiset.coe_card] at hidle
  rw [Paid, bareOf_add hbare, bareOf_add fun x hx => (hnames x hx).1, looseOf_add_loose,
    looseOf_add fun x hx => (hnames x hx).2, hlive, hout, hnow]
  simp only [Paid] at paid
  omega

end Scene.Paid

theorem Move.paid (move : Move agent scene next) (fits : scene.Fits) (h : scene.Accounted)
    (kept : scene.Kept) (calm : scene.Calm id) (hid : id < scene.world.pools.length)
    (paid : scene.Paid id) : next.Paid id := by
  by_cases hagent : id = agent
  · subst hagent
    cases move with
    | tell | lend => exact paid.spare (Nat.le_refl _) rfl rfl (Nat.le_refl _)
    | refresh =>
        rw [World.checkOwner_of_eq calm.noted.symm]
        exact paid
    | enqueue | giveUp | countFailure =>
        refine paid.spare (Nat.le_refl _) (World.view_modifyPool Pool.idle fun _ => rfl) rfl ?_
        simp [bareOf_cons, looseOf_cons, Holding.isBare, Holding.isLoose]
    | take hfree => exact paid.take fits hid hfree
    | @make world hand owner kind =>
        exact paid.make (fits.hand (.slot id owner) (Multiset.mem_cons_self _ _)).2 kind _
    | keep | handIn | accept | skip | closed | resume | part | pause =>
        apply paid.spare (Nat.le_refl _) rfl rfl
        simp [bareOf_cons, looseOf_cons, Holding.isBare, Holding.isLoose]
    | detach =>
        apply paid.spare (Nat.le_refl _) rfl rfl
        simp only [bareOf_cons, looseOf_cons, Holding.isBare, Holding.isLoose, Bool.toNat_false]
        omega
    | shelve entry howner hpool hroom => exact paid.shelve h hid hpool hroom
    | @restore world hand owner =>
        exact paid.restore h (fits.hand (.slot id owner) (Multiset.mem_cons_self _ _)).2
    | refuse hpool hnow hpid =>
        -- All leases of a calm pool are of its process.
        have hmem := Multiset.mem_of_le h.backed
          (Scene.mem_units (Multiset.mem_cons_self _ _) rfl)
        exact absurd (calm.pid_eq fits h hid hmem hpool) hpid
    | disown =>
        apply paid.spare World.liveOf_forget.le rfl rfl
        simp [bareOf_cons, looseOf_cons, Holding.isBare, Holding.isLoose]
    | shed | ungrasp =>
        refine paid.spare World.liveOf_letGo_le (congrArg _ (World.pool_congr World.letGo_pools))
          World.unreturned_letGo ?_
        simp [bareOf_cons, looseOf_cons, Holding.isBare, Holding.isLoose]
    | letGo => exact paid.letGo fits kept calm
    | grasp halive =>
        apply paid.spare (World.liveOf_hold halive).le rfl rfl
        simp [bareOf_cons, looseOf_cons, Holding.isBare, Holding.isLoose]
    | vacate _ takes => exact paid.vacate hid takes
  · exact move.paid_of_ne fits h hagent paid

/-- The leases of a calm pool that are out are those it counts. -/
theorem Scene.Calm.outOf_eq (calm : Calm id ⟨world, hand⟩) (fits : Fits ⟨world, hand⟩)
    (h : Accounted ⟨world, hand⟩) (hid : id < world.pools.length) :
    world.outOf id = (world.pool id).staleLeased + (world.pool id).leased := by
  have hbalanced : (world.pool id).Balanced world.unreturned := h.pools.pool hid
  have hplace : (world.pool id).owner.pool = id := (fits.pools.pool hid).pool_eq
  rw [hbalanced.stale_eq, hbalanced.leased_eq, World.outOf]
  refine Pool.countP_eq_countP_add_count ?_ (Pool.not_holdsSlot_owner _)
  intro owner hmem
  constructor
  · intro hpool
    have hpool' := hpool.trans hplace.symm
    rcases Nat.lt_or_eq_of_le (hbalanced.issued owner hmem hpool').1 with hlt | heq
    · have hfloor : (world.pool id).reclaimFloor ≤ owner.epoch := by
        rw [calm.floor]
        exact Nat.zero_le _
      exact .inl ⟨hpool', hfloor, hlt⟩
    · exact .inr (hbalanced.eq_owner hmem hpool' heq)
  · rintro (hholds | rfl)
    · exact hholds.1.trans hplace
    · exact hplace

theorem Moves.paid (moves : Moves agent scene next) (fits : scene.Fits) (h : scene.Accounted)
    (kept : scene.Kept) (hid : id < scene.world.pools.length) (calm : scene.Calm id)
    (paid : scene.Paid id) : next.Calm id ∧ next.Paid id := by
  induction moves with
  | refl => exact ⟨calm, paid⟩
  | tail earlier move ih =>
      have hid' := (Moves.length_pools earlier).symm ▸ hid
      have hfits := Moves.fits earlier fits
      have haccounted := lasting_accounted.moves earlier fits h
      exact ⟨move.calm haccounted hid' ih.1,
        move.paid hfits haccounted (lasting_kept.moves earlier fits kept) ih.1 hid' ih.2⟩

theorem World.liveOf_reset_le {owner : Owner} {inherited : Bool} :
    (world.reset agent owner inherited).liveOf id ≤ world.liveOf id := by
  cases inherited with
  | false =>
      rw [reset, if_neg Bool.false_ne_true]
      exact liveOf_letGoAll_le
  | true =>
      rw [reset, if_pos rfl, liveOf_forgetAll]
      exact Nat.le_refl _

/-- An invalidation destroys the idle resources of a calm pool. -/
theorem Scene.Paid.invalidate_self (paid : Paid id ⟨world, hand⟩) (fits : Fits ⟨world, hand⟩)
    (kept : Kept ⟨world, hand⟩) (calm : Calm id ⟨world, hand⟩) (hid : id < world.pools.length) :
    Paid id ⟨world.invalidate id, hand⟩ := by
  have hfits := fits.pools.pool hid
  have hlive : (world.invalidate id).liveOf id + (idleFromBottom (world.pool id).free).length =
      world.liveOf id := by
    have hnoted : Kept ⟨world.note (.invalidated (world.pool id).owner.nextEpoch.epoch), hand⟩ :=
      World.Kept.note kept _
    apply World.liveOf_letGoAll (hnoted.emptied hid (world.pool id).owner.nextEpoch false _)
    intro resource hmem
    have hmade : world.Made id resource := ⟨_, hfits.idle resource hmem, hfits.pool_eq⟩
    exact ⟨hmade, calm.count_gripped fits hmade⟩
  have hpool := World.pool_invalidate_self hid
  have hidle : ((world.pool id).reset (world.pool id).owner.nextEpoch false).idle = 0 :=
    congrArg Multiset.ofList (idleFromBottom_replicate_vacant _)
  have hcard : (world.pool id).idle.card = (idleFromBottom (world.pool id).free).length := rfl
  simp only [Paid, World.outOf, World.unreturned_invalidate, hpool, hidle, Multiset.card_zero,
    hcard] at paid ⊢
  omega

/-- An invalidation of a calm pool leaves it calm. -/
theorem Scene.Calm.invalidate_self (fits : Fits ⟨world, hand⟩) (calm : Calm id ⟨world, hand⟩)
    (hid : id < world.pools.length) : Calm id ⟨world.invalidate id, hand⟩ := by
  have hpool := World.pool_invalidate_self hid
  have hcurrent : (world.invalidate id).currentPid id = world.currentPid id := by
    apply World.currentPid_congr World.invalidate_pids
    rw [hpool, Pool.reset]
  refine ⟨?_, ?_, calm.ungripped⟩
  · rw [hcurrent, hpool, ← calm.noted, (fits.pools.pool hid).pid_eq]
    rfl
  · rw [hpool]
    exact calm.floor

/-- Another pool changes. -/
theorem Scene.Calm.congr (calm : Calm id ⟨world, hand⟩)
    (hpool : after.pool id = world.pool id) (hpids : after.pids = world.pids)
    (hhand : ∀ holding ∈ left, holding ∈ hand ∨ holding.isTeardown id = false) :
    Calm id ⟨after, left⟩ := by
  refine ⟨?_, ?_, ?_⟩
  · rw [hpool, World.currentPid_congr hpids (congrArg Pool.process hpool)]
    exact calm.noted
  · rw [hpool]
    exact calm.floor
  · intro holding hmem
    rcases hhand holding hmem with hold | hnew
    · exact calm.ungripped holding hold
    · exact hnew

/-- A teardown of another pool. -/
theorem Scene.Paid.tearDown_of_ne (paid : Paid id ⟨world, hand⟩) (calm : Calm id ⟨world, hand⟩)
    (hagent : id ≠ agent) : (Scene.tearDown ⟨world, hand⟩ agent).Calm id ∧
      (Scene.tearDown ⟨world, hand⟩ agent).Paid id := by
  have hother : (agent == id) = false := beq_false_of_ne (Ne.symm hagent)
  have hpool : (world.modifyPool agent Pool.tearDown).pool id = world.pool id :=
    World.pool_modifyPool_of_ne hagent
  have hlisted : ∀ holding ∈ (↑((world.pool agent).registry.map (Holding.listed agent)) :
      Multiset Holding), holding.isTeardown id = false ∧ holding.isBare id = false ∧
        holding.isLoose id = false := by
    intro holding hmem
    obtain ⟨resource, -, rfl⟩ := List.mem_map.1 (Multiset.mem_coe.1 hmem)
    exact ⟨hother, rfl, rfl⟩
  have hidle : ∀ holding ∈ (↑((idleFromBottom (world.pool agent).free).map
      (Holding.loose agent)) : Multiset Holding), holding.isTeardown id = false ∧
        holding.isBare id = false ∧ holding.isLoose id = false := by
    intro holding hmem
    obtain ⟨resource, -, rfl⟩ := List.mem_map.1 (Multiset.mem_coe.1 hmem)
    exact ⟨rfl, rfl, hother⟩
  refine ⟨calm.congr hpool rfl ?_, paid.spare (Nat.le_refl _) (congrArg Pool.idle hpool) rfl ?_⟩
  · intro holding hmem
    rcases Multiset.mem_add.1 hmem with hmem | hmem
    · exact .inr (hlisted holding hmem).1
    · rcases Multiset.mem_add.1 hmem with hmem | hmem
      · exact .inr (hidle holding hmem).1
      · exact .inl hmem
  · rw [bareOf_add fun x hx => (hlisted x hx).2.1, bareOf_add fun x hx => (hidle x hx).2.1,
      looseOf_add fun x hx => (hlisted x hx).2.2, looseOf_add fun x hx => (hidle x hx).2.2]

namespace System

variable {system final : System} {event : Event} {process : ProcessId}

/-- The event neither tears the pool down nor takes it to another process. -/
def Leaves (event : Event) (id : PoolId) (process : ProcessId) : Prop :=
  event ≠ .call id .disconnectAll ∧ ∀ pid, event ≠ .fork process pid

theorem step?_paid (reach : system.Reachable) (hid : id < system.world.pools.length)
    (hstep : system.step? event = some final)
    (hevent : Leaves event id (system.world.pool id).process)
    (calm : system.scene.Calm id) (paid : system.scene.Paid id) :
    final.scene.Calm id ∧ final.scene.Paid id := by
  have fits := reachable_fits reach
  have accounted := reachable_accounted reach
  have kept := reachable_kept reach
  cases step?_passage (hosted_of_fits fits) hstep with
  | moves _ _ _ hmoves => exact Moves.paid hmoves fits accounted kept hid calm paid
  | @invalidate _ agent hagent hscene =>
      rw [hscene]
      by_cases heq : id = agent
      · subst heq
        exact ⟨calm.invalidate_self fits hid, paid.invalidate_self fits kept calm hid⟩
      · have hpool : (system.world.invalidate agent).pool id = system.world.pool id :=
          World.pool_invalidate_of_ne heq
        exact ⟨calm.congr hpool World.invalidate_pids fun _ => .inl,
          paid.spare World.liveOf_reset_le (congrArg Pool.idle hpool) World.unreturned_invalidate
            (Nat.le_refl _)⟩
  | @disconnect _ agent hagent hmoves =>
      have heq : id ≠ agent := by
        rintro rfl
        exact hevent.1 rfl
      have move : Move agent system.scene ⟨system.world.checkOwner agent, handOf system.tasks⟩ :=
        .refresh hagent
      have fresh : Scene.Fresh ⟨system.world.checkOwner agent, handOf system.tasks⟩ agent :=
        .checkOwner fits accounted hagent
      have hid' : id < (Scene.tearDown ⟨system.world.checkOwner agent, handOf system.tasks⟩
          agent).world.pools.length := by
        rwa [Scene.length_tearDown, World.length_checkOwner]
      obtain ⟨hcalm, hpaid⟩ := (move.paid fits accounted kept calm hid paid).tearDown_of_ne
        (move.calm accounted hid calm) heq
      exact Moves.paid hmoves fresh.fits_tearDown fresh.accounted_tearDown
        (lasting_kept.tearDown fresh.fits fresh.lt (move.kept fits kept)) hid' hcalm hpaid
  | @drop _ lease hheld hscene =>
      rw [hscene]
      have hpool : (system.world.dropLease lease).pool id = system.world.pool id :=
        World.pool_congr World.letGo_pools
      exact ⟨calm.congr hpool World.letGo_pids fun _ => .inl,
        paid.spare World.liveOf_letGo_le (congrArg Pool.idle hpool) World.unreturned_letGo
          (Nat.le_refl _)⟩
  | @fork _ process pid _ hscene =>
      rw [hscene]
      have hother : process ≠ (system.world.pool id).process := by
        rintro rfl
        exact hevent.2 pid rfl
      have hcurrent : (system.world.fork process pid).currentPid id = system.world.currentPid id :=
        World.currentPid_fork_of_ne hother
      exact ⟨⟨calm.noted.trans hcurrent.symm, calm.floor, calm.ungripped⟩, paid⟩
  | advance hscene =>
      rw [hscene]
      exact ⟨⟨calm.noted, calm.floor, calm.ungripped⟩, paid⟩

theorem step?_process_eq (reach : system.Reachable) (hid : id < system.world.pools.length)
    (hstep : system.step? event = some final) (hevent : Leaves event id process) :
    (final.world.pool id).process = (system.world.pool id).process := by
  rcases step?_drifts_or_tearDown (reachable_fits reach) (reachable_accounted reach) hid hstep with
    ⟨-, hdrifts⟩ | ⟨hteardown, -⟩
  · exact hdrifts.process_eq
  · exact absurd hteardown hevent.1

theorem run?_paid {events : List Event} (reach : system.Reachable)
    (hid : id < system.world.pools.length) (hprocess : (system.world.pool id).process = process)
    (hrun : system.run? events = some final) (hevents : ∀ event ∈ events, Leaves event id process)
    (calm : system.scene.Calm id) (paid : system.scene.Paid id) :
    final.scene.Calm id ∧ final.scene.Paid id := by
  induction events generalizing system with
  | nil =>
      cases hrun
      exact ⟨calm, paid⟩
  | cons event rest ih =>
      obtain ⟨middle, hstep, hrest⟩ := Option.bind_eq_some_iff.1 hrun
      have hevent := hevents event List.mem_cons_self
      obtain ⟨hcalm, hpaid⟩ := step?_paid reach hid hstep (hprocess ▸ hevent) calm paid
      exact ih (reach.step? hstep) (reach.lt_of_step? hid hstep)
        ((step?_process_eq reach hid hstep hevent).trans hprocess) hrest
        (fun other hmem => hevents other (List.mem_cons_of_mem event hmem)) hcalm hpaid

theorem init_paid (pids : List Pid) {pools : List (ProcessId × Config)} {config : Config}
    (hpool : pools[id]? = some (process, config)) :
    (init pids pools).scene.Calm id ∧ (init pids pools).scene.Paid id := by
  have hnew := (init_pool pids hpool).2
  have hlive : (init pids pools).world.liveOf id = 0 := by
    rw [World.liveOf, init_resources]
    rfl
  refine ⟨⟨?_, ?_, ?_⟩, ?_⟩
  · rw [scene, World.currentPid, World.pidOf, init_pids, hnew]
    rfl
  · rw [scene, hnew]
    rfl
  · exact fun holding hmem => absurd hmem (Multiset.notMem_zero holding)
  · rw [Scene.Paid, scene, hlive]
    exact Nat.zero_le _

/-- The resources that a pool made and that were not destroyed. -/
def survivors (system : System) (id : PoolId) : List ResourceId :=
  (List.range system.world.resources.length).filter fun resource =>
    (system.world.makerOf? resource).any (fun owner => owner.pool = id) &&
      decide (Signal.destroyed resource ∉ system.world.journal)

theorem length_survivors (reach : system.Reachable) :
    (system.survivors id).length = system.world.liveOf id := by
  have kept : system.world.Kept system.scene.owned system.scene.gripped := reachable_kept reach
  rw [survivors, ← List.countP_eq_length_filter, World.liveOf,
    ← countP_range_getElem? (Resource.livesOf id) system.world.resources]
  refine List.countP_congr fun resource hmem => ?_
  have hlt : resource < system.world.resources.length := List.mem_range.1 hmem
  have hdestroyed : Signal.destroyed resource ∉ system.world.journal ↔
      0 < system.world.holdersOf resource := by
    rw [kept.mem_destroyed_iff hlt, Bool.not_eq_false, World.isAlive_iff]
  have hmaker : system.world.makerOf? resource = some system.world.resources[resource].owner := by
    simp [World.makerOf?, hlt]
  simp [hmaker, hdestroyed, List.getElem?_eq_getElem hlt, Resource.livesOf,
    World.holders_getElem hlt, and_comm]

/-- Between events a pool has resources of its own apart from their slots in sweeps and teardowns
only. -/
theorem looseOf_eq_zero (calm : system.scene.Calm id)
    (hsweep : ∀ resource rest taken, .sweeping id resource rest taken ∉ system.tasks) :
    looseOf (handOf system.tasks) id = 0 := by
  refine Multiset.countP_eq_zero.2 fun holding hmem => ?_
  obtain ⟨task, htask, hholding⟩ := mem_handOf.1 hmem
  rw [Bool.not_eq_true]
  cases task with
  | waiting | validating | replacing | creating | working | discarding | pausing =>
      rw [Multiset.mem_singleton.1 hholding]
      rfl
  | disconnecting pool resource rest free closed =>
      have hgrip : Holding.grip pool resource ∈ handOf system.tasks := by
        refine mem_handOf.2 ⟨_, htask, ?_⟩
        rw [Task.holdings]
        exact Multiset.mem_cons_self _ _
      have hother : (pool == id) = false := calm.ungripped _ hgrip
      simp only [Task.holdings, Multiset.mem_cons, Multiset.mem_add, Multiset.mem_coe,
        List.mem_map] at hholding
      rcases hholding with rfl | ⟨other, -, rfl⟩ | ⟨other, -, rfl⟩
      · rfl
      · rfl
      · exact hother
  | sweeping pool resource rest taken =>
      have hother : pool ≠ id := by
        rintro rfl
        exact hsweep resource rest taken htask
      simp only [Task.holdings, Multiset.mem_add, Multiset.mem_coe, List.mem_map] at hholding
      rcases hholding with ⟨other, -, rfl⟩ | ⟨other, -, rfl⟩
      · exact beq_false_of_ne hother
      · rfl

/-- Live resources and vacant slots are bounded by the size of the pool. -/
theorem survivors_bounded {pids : List Pid} {pools : List (ProcessId × Config)}
    {events : List Event} {config : Config} (hpool : pools[id]? = some (process, config))
    (hrun : (init pids pools).run? events = some system)
    (hfork : ∀ pid, .fork process pid ∉ events) (hteardown : .call id .disconnectAll ∉ events)
    (hsweep : ∀ resource rest taken, .sweeping id resource rest taken ∉ system.tasks) :
    (system.survivors id).length + (system.world.pool id).free.count .vacant ≤
      config.maxSize.toNat := by
  have hinit : (init pids pools).Reachable := ⟨pids, pools, [], rfl⟩
  have reach : system.Reachable := ⟨pids, pools, events, hrun⟩
  obtain ⟨hid, hnew⟩ := init_pool pids hpool
  obtain ⟨hcalm, hpaid⟩ := init_paid pids hpool
  have hleaves : ∀ event ∈ events, Leaves event id process := by
    intro event hmem
    constructor
    · rintro rfl
      exact hteardown hmem
    · rintro pid rfl
      exact hfork pid hmem
  have hprocess : ((init pids pools).world.pool id).process = process := by
    rw [hnew, Pool.new]
  obtain ⟨calm, paid⟩ := run?_paid hinit hid hprocess hrun hleaves hcalm hpaid
  have hid' : id < system.world.pools.length := (run?_length_pools hinit hrun).symm ▸ hid
  have hconfig := (run?_slots hpool hrun).1
  have hloose := looseOf_eq_zero calm hsweep
  have hfree := (system.world.pool id).card_idle_add_vacant
  have hout := calm.outOf_eq (reachable_fits reach) (reachable_accounted reach) hid'
  have hslots : (system.world.pool id).slots ≤ (system.world.pool id).maxSize :=
    ((reachable_accounted reach).pools.pool hid').slots_le
  rw [Pool.slots, Pool.maxSize, hconfig] at hslots
  rw [length_survivors reach]
  have hpaid' : system.world.liveOf id + bareOf (handOf system.tasks) id ≤
      (system.world.pool id).idle.card + looseOf (handOf system.tasks) id +
        system.world.outOf id := paid
  omega

/-- A lease from before an invalidation still takes up one of two slots. -/
theorem survivors_bounded_invalidated : ∃ system,
    (init [7] [(0, Config.ofSize 2)]).run?
        [.call 0 (.acquire none), .reply 0 (.created "db"), .call 0 .invalidate] = some system ∧
      (system.survivors 0).length + (system.world.pool 0).free.count .vacant ≤ 2 := by
  refine exists_run? rfl fun system hrun => ?_
  have hpool : [((0 : ProcessId), Config.ofSize 2)][0]? = some (0, Config.ofSize 2) := rfl
  have htasks : system.tasks = [] := by
    cases hrun
    rfl
  refine survivors_bounded hpool hrun ?_ ?_ ?_
  · simp
  · simp
  · simp [htasks]

end System

end Paid

end LeasePool
