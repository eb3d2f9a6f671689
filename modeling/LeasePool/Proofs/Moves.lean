import LeasePool.Proofs.Slots
import Mathlib.Logic.Relation
import Mathlib.Data.Multiset.Bind

/-!
Moves. Whatever a call or a task does until it ends or waits is a sequence of a few kinds of moves.
A move changes the world and what the operations under way have in hand. An invariant is proved once
for each kind of move instead of once for each operation.
-/

namespace LeasePool

/-- What an operation under way has in hand. -/
inductive Holding where
  /-- A place among those who wait for a slot. -/
  | turn (pool : PoolId)
  /-- An attempt that is due later. -/
  | pause (pool : PoolId)
  /-- A slot that was taken, without a resource. -/
  | slot (pool : PoolId) (owner : Owner)
  /-- A slot that was taken, with its resource. -/
  | lease (pool : PoolId) (owner : Owner) (resource : ResourceId)
  /-- A lease that is being returned, not yet judged by the pool it is returned to. -/
  | handed (owner : Owner) (resource : ResourceId)
  /-- A resource apart from its slot. -/
  | loose (pool : PoolId) (resource : ResourceId)
  /-- One more hold on a resource that has its place elsewhere. -/
  | grip (pool : PoolId) (resource : ResourceId)
  /-- The name of a resource that a teardown may still close, without a hold on it. -/
  | listed (pool : PoolId) (resource : ResourceId)
  /-- The name of a resource that a sweep still closes, without a hold on it. -/
  | mention (pool : PoolId) (resource : ResourceId)
deriving DecidableEq

/-- A world and all that the operations under way have in hand. -/
structure Scene where
  world : World
  hand : Multiset Holding

/-- What an acquisition has in hand when it has taken a slot. -/
def Slot.holding (id : PoolId) (owner : Owner) : Slot → Holding
  | .vacant => .slot id owner
  | .idle entry => .lease id owner entry.resource

/-- One move of an operation on the pool `id`. -/
inductive Move (id : PoolId) : Scene → Scene → Prop where
  | tell {world hand} (notice : Notice) : Move id ⟨world, hand⟩ ⟨world.note notice, hand⟩
  | refresh {world hand} (hid : id < world.pools.length) :
      Move id ⟨world, hand⟩ ⟨world.checkOwner id, hand⟩
  | enqueue {world hand} (hid : id < world.pools.length)
      (hpid : (world.pool id).notedPid = world.currentPid id) :
      Move id ⟨world, hand⟩ ⟨world.modifyPool id Pool.enqueue, .turn id ::ₘ hand⟩
  | giveUp {world hand} (hfree : (world.pool id).free = []) :
      Move id ⟨world, .turn id ::ₘ hand⟩ ⟨world.modifyPool id Pool.giveUp, hand⟩
  | take {world hand slot rest} (hfree : (world.pool id).free = slot :: rest) :
      Move id ⟨world, .turn id ::ₘ hand⟩
        ⟨(world.modifyPool id Pool.take).emit (.slotTaken (world.pool id).owner),
          slot.holding id (world.pool id).owner ::ₘ hand⟩
  | make {world hand} (owner : Owner) (kind : String) :
      Move id ⟨world, .slot id owner ::ₘ hand⟩
        ⟨(world.addResource kind owner).modifyPool id fun pool =>
            pool.enroll owner (world.addResource kind owner).isAlive world.resources.length,
          .lease id owner world.resources.length ::ₘ hand⟩
  | countFailure {world hand} :
      Move id ⟨world, hand⟩ ⟨world.modifyPool id Pool.countFailure, hand⟩
  | lend {world hand} (lease : Lease) :
      Move id ⟨world, .lease id lease.owner lease.resource ::ₘ hand⟩
        ⟨world.emit (.lent lease), .lease id lease.owner lease.resource ::ₘ hand⟩
  | keep {world hand} (lease : Lease) :
      Move id ⟨world, .lease id lease.owner lease.resource ::ₘ hand⟩ ⟨world.keep lease, hand⟩
  | part {world hand} {lease : Lease} (hheld : lease ∈ world.held) :
      Move id ⟨world, hand⟩ ⟨world.part lease, .handed lease.owner lease.resource ::ₘ hand⟩
  | handIn {world hand owner resource} :
      Move id ⟨world, .lease id owner resource ::ₘ hand⟩ ⟨world, .handed owner resource ::ₘ hand⟩
  /-- The pool takes back a lease that it issued in this process. -/
  | accept {world hand owner resource} (hpool : owner.pool = id)
      (hpid : owner.pid = world.currentPid id) :
      Move id ⟨world, .handed owner resource ::ₘ hand⟩ ⟨world, .lease id owner resource ::ₘ hand⟩
  | detach {world hand owner resource} :
      Move id ⟨world, .lease id owner resource ::ₘ hand⟩
        ⟨world, .slot id owner ::ₘ .loose id resource ::ₘ hand⟩
  | shelve {world hand owner} (entry : IdleResource) (howner : (world.pool id).owner = owner)
      (hpool : owner.pool = id) (hroom : (world.pool id).free.length < (world.pool id).maxSize) :
      Move id ⟨world, .handed owner entry.resource ::ₘ hand⟩
        ⟨(world.emit (.slotReturned owner)).modifyPool id fun pool => pool.giveBack (.idle entry),
          hand⟩
  | restore {world hand owner} :
      Move id ⟨world, .slot id owner ::ₘ hand⟩ ⟨world.restoreVacant id owner, hand⟩
  /-- A lease of the pool comes back from another process, where its slot went long ago. -/
  | refuse {world hand owner resource} (hpool : owner.pool = id)
      (hnow : (world.pool id).owner.pid = world.currentPid id)
      (hpid : owner.pid ≠ world.currentPid id) :
      Move id ⟨world, .handed owner resource ::ₘ hand⟩
        ⟨(world.emit (.slotReturned owner)).forget resource, hand⟩
  /-- A lease comes back from another process, and nothing is taken back. -/
  | disown {world hand owner resource} (hpid : owner.pid ≠ world.currentPid id) :
      Move id ⟨world, .handed owner resource ::ₘ hand⟩ ⟨world.forget resource, hand⟩
  /-- A lease of another pool comes back. -/
  | shed {world hand owner resource} (hpool : owner.pool ≠ id)
      (hpid : owner.pid = world.currentPid id) :
      Move id ⟨world, .handed owner resource ::ₘ hand⟩ ⟨world.letGo resource, hand⟩
  | letGo {world hand resource} :
      Move id ⟨world, .loose id resource ::ₘ hand⟩ ⟨world.letGo resource, hand⟩
  | grasp {world hand resource} (halive : world.isAlive resource = true) :
      Move id ⟨world, .listed id resource ::ₘ hand⟩
        ⟨world.hold resource, .grip id resource ::ₘ hand⟩
  | ungrasp {world hand resource} :
      Move id ⟨world, .grip id resource ::ₘ hand⟩ ⟨world.letGo resource, hand⟩
  | skip {world hand resource} : Move id ⟨world, .listed id resource ::ₘ hand⟩ ⟨world, hand⟩
  | closed {world hand resource} : Move id ⟨world, .mention id resource ::ₘ hand⟩ ⟨world, hand⟩
  | vacate {world hand} (hid : id < world.pools.length) (takes : IdleResource → Bool)
      (hpid : (world.pool id).notedPid = world.currentPid id) :
      Move id ⟨world, hand⟩
        ⟨world.modifyPool id fun pool => pool.vacate takes,
          ↑(((world.pool id).selected takes).map (Holding.loose id)) +
            (↑(((world.pool id).selected takes).map (Holding.mention id)) + hand)⟩
  | pause {world hand} (hid : id < world.pools.length) :
      Move id ⟨world, hand⟩ ⟨world, .pause id ::ₘ hand⟩
  | resume {world hand} : Move id ⟨world, .pause id ::ₘ hand⟩ ⟨world, hand⟩

abbrev Moves (id : PoolId) : Scene → Scene → Prop := Relation.ReflTransGen (Move id)

/-- What no part of some holdings has, they do not have together. -/
theorem filterMap_eq_zero {β : Type} {view : Holding → Option β} {apart : Multiset Holding}
    (h : ∀ holding ∈ apart, view holding = none) : apart.filterMap view = 0 := by
  refine Multiset.eq_zero_of_forall_notMem fun seen hmem => ?_
  obtain ⟨holding, hholding, hseen⟩ := (Multiset.mem_filterMap _ _).1 hmem
  rw [h holding hholding] at hseen
  cases hseen

variable {id : PoolId} {scene next : Scene}

theorem Move.length_pools (move : Move id scene next) :
    next.world.pools.length = scene.world.pools.length := by
  cases move with
  | refresh hid => exact World.length_checkOwner
  | enqueue | giveUp | take | make | countFailure | shelve | restore | vacate =>
      exact World.length_modifyPool
  | shed | letGo | ungrasp => rw [World.letGo_pools]
  | _ => rfl

theorem Moves.length_pools (moves : Moves id scene next) :
    next.world.pools.length = scene.world.pools.length := by
  induction moves with
  | refl => rfl
  | tail _ move ih => rw [move.length_pools, ih]

def Holding.isClosing : Holding → Bool
  | .grip .. | .listed .. => true
  | _ => false

/-- Only a teardown brings what belongs to one; moves do no more than grasp what it lists. -/
theorem Move.forall_hand {holds : Holding → Prop} (move : Move id scene next)
    (hopen : ∀ holding : Holding, holding.isClosing = false → holds holding)
    (hgrasp : ∀ resource, holds (.listed id resource) → holds (.grip id resource))
    (h : ∀ holding ∈ scene.hand, holds holding) : ∀ holding ∈ next.hand, holds holding := by
  cases move with
  | tell | refresh | countFailure | lend => exact h
  | enqueue | pause => exact Multiset.forall_mem_cons.2 ⟨hopen _ rfl, h⟩
  | part => exact Multiset.forall_mem_cons.2 ⟨hopen _ rfl, h⟩
  | giveUp | keep | shelve | restore | refuse | disown | shed | letGo | ungrasp | skip | closed
  | resume =>
      exact (Multiset.forall_mem_cons.1 h).2
  | @take _ _ slot _ _ =>
      refine Multiset.forall_mem_cons.2 ⟨hopen _ ?_, (Multiset.forall_mem_cons.1 h).2⟩
      cases slot <;> rfl
  | make | handIn | accept =>
      exact Multiset.forall_mem_cons.2 ⟨hopen _ rfl, (Multiset.forall_mem_cons.1 h).2⟩
  | detach =>
      exact Multiset.forall_mem_cons.2
        ⟨hopen _ rfl, Multiset.forall_mem_cons.2 ⟨hopen _ rfl, (Multiset.forall_mem_cons.1 h).2⟩⟩
  | grasp =>
      obtain ⟨hlisted, h⟩ := Multiset.forall_mem_cons.1 h
      exact Multiset.forall_mem_cons.2 ⟨hgrasp _ hlisted, h⟩
  | vacate =>
      intro holding hmem
      simp only [Multiset.mem_add, Multiset.mem_coe, List.mem_map] at hmem
      rcases hmem with ⟨resource, -, rfl⟩ | ⟨resource, -, rfl⟩ | hmem
      · exact hopen _ rfl
      · exact hopen _ rfl
      · exact h holding hmem

end LeasePool
