import LeasePool.Proofs.Changes

/-!
Taking a slot. An acquisition looks at the top of the free list and at nothing below it. A resource
there that is past no limit is lent again, after the factory was asked about it if the pool is
configured so.
-/

namespace LeasePool

/-- Only the configuration matters for what is expired. -/
theorem Pool.isExpired_congr {pool after : Pool} {now : Instant} {entry : IdleResource}
    (h : after.config = pool.config) : after.isExpired now entry = pool.isExpired now entry := by
  simp only [isExpired, h]

namespace World

variable {world : World} {id : PoolId} {entry : IdleResource} {purpose : Purpose} {slot : Slot}
  {rest : List Slot} {patience : Patience} {since : Instant}

/-- A pool that knows its process needs no reset before an acquisition. -/
theorem acquire_of_noted (hnoted : (world.pool id).notedPid = world.currentPid id) :
    world.acquire id patience purpose =
      (world.modifyPool id Pool.enqueue).awaitSlot id patience world.clock purpose := by
  rw [acquire, checkOwner_of_eq hnoted.symm]
  rfl

theorem awaitSlot_of_free (hfree : (world.pool id).free = slot :: rest) :
    world.awaitSlot id patience since purpose = world.takeSlot id slot purpose := by
  unfold awaitSlot
  rw [hfree]

/-- Without a free slot an acquisition gives up or waits. -/
theorem awaitSlot_of_empty (hfree : (world.pool id).free = []) :
    (∃ timeout, world.awaitSlot id patience since purpose = world.exhaust id timeout) ∨
      world.awaitSlot id patience since purpose =
        (world, .pending (.waiting id patience since purpose)) := by
  unfold awaitSlot
  rw [hfree]
  cases patience with
  | forever => exact .inr rfl
  | within timeout =>
      dsimp only
      split
      · exact .inl ⟨timeout, rfl⟩
      · exact .inr rfl

def afterTake (world : World) (id : PoolId) : World :=
  (world.modifyPool id Pool.take).emit (.slotTaken (world.pool id).owner)

theorem takeSlot_vacant : world.takeSlot id .vacant purpose =
    (world.afterTake id, .pending (.creating id (world.pool id).owner purpose)) := by
  have howner : ((world.modifyPool id Pool.take).pool id).owner = (world.pool id).owner :=
    view_modifyPool Pool.owner fun _ => rfl
  rw [takeSlot, howner]
  rfl

/-- A resource that is past a limit is closed and replaced. -/
theorem takeSlot_expired (hpast : (world.pool id).isExpired world.clock entry = true) :
    world.takeSlot id (.idle entry) purpose =
      (world.afterTake id).replace id (world.pool id).owner entry.resource purpose := by
  have howner : ((world.modifyPool id Pool.take).pool id).owner = (world.pool id).owner :=
    view_modifyPool Pool.owner fun _ => rfl
  have hconfig : ((world.modifyPool id Pool.take).pool id).config = (world.pool id).config :=
    view_modifyPool Pool.config fun _ => rfl
  rw [← Pool.isExpired_congr hconfig] at hpast
  simp only [takeSlot, howner]
  exact if_pos hpast

/-- A resource that is past no limit is checked first or lent at once, as the pool is configured. -/
theorem takeSlot_fresh (hfresh : (world.pool id).isExpired world.clock entry = false) :
    world.takeSlot id (.idle entry) purpose =
      if (world.pool id).config.testOnCheckout then
        (world.afterTake id, .pending (.validating id (world.pool id).owner entry purpose))
      else (world.afterTake id).reuse id (world.pool id).owner entry purpose := by
  have howner : ((world.modifyPool id Pool.take).pool id).owner = (world.pool id).owner :=
    view_modifyPool Pool.owner fun _ => rfl
  have hconfig : ((world.modifyPool id Pool.take).pool id).config = (world.pool id).config :=
    view_modifyPool Pool.config fun _ => rfl
  rw [← Pool.isExpired_congr hconfig] at hfresh
  unfold takeSlot
  simp only [howner, hconfig]
  exact if_neg (ne_true_of_eq_false hfresh)

end World
end LeasePool
