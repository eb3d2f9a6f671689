import LeasePool.Proofs.Changes
import Mathlib.Data.Multiset.AddSub

/-!
Slots. A lease is unreturned from the moment its slot is taken until its pool gets the slot back,
and the journal tells which leases are. A pool is balanced if its two counts of slots that are out
count exactly the unreturned leases that hold one of its slots; every change of a pool keeps it
balanced, and so no slot is lost or made.
-/

namespace LeasePool

/-- The owners of the leases whose slots were taken and not given back, read off a journal. -/
def unreturnedOf : List Signal → Multiset Owner
  | [] => 0
  | .slotTaken owner :: earlier => owner ::ₘ unreturnedOf earlier
  | .slotReturned owner :: earlier => (unreturnedOf earlier).erase owner
  | .notice _ :: earlier => unreturnedOf earlier
  | .lent _ :: earlier => unreturnedOf earlier
  | .destroyed _ :: earlier => unreturnedOf earlier

def World.unreturned (world : World) : Multiset Owner := unreturnedOf world.journal

@[simp] theorem World.unreturned_letGo {world : World} {resource : ResourceId} :
    (world.letGo resource).unreturned = world.unreturned := by
  rw [World.unreturned, World.letGo_journal]
  split <;> rfl

@[simp] theorem World.unreturned_letGoAll {world : World} {resources : List ResourceId} :
    (world.letGoAll resources).unreturned = world.unreturned := by
  induction resources generalizing world with
  | nil => rfl
  | cons resource rest ih => rw [World.letGoAll_cons, ih, World.unreturned_letGo]

@[simp] theorem World.unreturned_forgetAll {world : World} {resources : List ResourceId} :
    (world.forgetAll resources).unreturned = world.unreturned := by
  rw [World.unreturned, World.forgetAll_journal, World.unreturned]

namespace Pool

variable {pool after : Pool} {owner : Owner} {out : Multiset Owner} {slot : Slot}

/-- A lease of an earlier owner of the pool that still holds one of its slots. -/
def HoldsSlot (pool : Pool) (owner : Owner) : Prop :=
  owner.pool = pool.owner.pool ∧ pool.reclaimFloor ≤ owner.epoch ∧
    owner.epoch < pool.owner.epoch

instance (pool : Pool) : DecidablePred pool.HoldsSlot :=
  fun _ => inferInstanceAs (Decidable (_ ∧ _ ∧ _))

theorem not_holdsSlot_owner (pool : Pool) : ¬ pool.HoldsSlot pool.owner :=
  fun h => Nat.lt_irrefl _ h.2.2

/-- Counting splits along a value that one of two properties has besides the other's. -/
theorem countP_eq_countP_add_count {counted : Owner → Prop} [DecidablePred counted]
    {part : Owner → Prop} [DecidablePred part]
    (hsplit : ∀ lent ∈ out, counted lent ↔ part lent ∨ lent = owner) (hnot : ¬ part owner) :
    out.countP counted = out.countP part + out.count owner := by
  induction out using Multiset.induction_on with
  | empty => rfl
  | cons lent rest ih =>
      have hrest := ih fun other hother => hsplit other (Multiset.mem_cons_of_mem hother)
      have hlent := hsplit lent (Multiset.mem_cons_self _ _)
      by_cases heq : lent = owner
      · subst heq
        simp [hrest, hlent.2 (.inr rfl), hnot]
        omega
      · simp only [heq, or_false] at hlent
        simp only [Multiset.countP_cons, hrest, hlent, Multiset.count_cons_of_ne (Ne.symm heq)]
        omega

/-- All slots of a pool: free, out under its owner, and out under earlier owners. -/
def slots (pool : Pool) : Nat := pool.free.length + pool.leased + pool.staleLeased

/-- A list with room takes the slot. -/
theorem push_of_lt (h : pool.free.length < pool.maxSize) :
    pool.push slot = { pool with free := slot :: pool.free } := if_pos h

/-- The counts of a pool agree with the leases that are out. -/
structure Balanced (pool : Pool) (out : Multiset Owner) : Prop where
  floor_le : pool.reclaimFloor ≤ pool.owner.epoch
  /-- The pool's leases are not ahead of it, and those not below the floor are of its process. -/
  issued : ∀ owner ∈ out, owner.pool = pool.owner.pool →
    owner.epoch ≤ pool.owner.epoch ∧
      (pool.reclaimFloor ≤ owner.epoch → owner.pid = pool.owner.pid)
  leased_eq : pool.leased = out.count pool.owner
  stale_eq : pool.staleLeased = out.countP pool.HoldsSlot
  slots_le : pool.slots ≤ pool.maxSize

namespace Balanced

/-- A new pool is balanced. -/
theorem new (config : Config) (process : ProcessId) (owner : Owner) :
    (Pool.new config process owner).Balanced 0 := by
  refine ⟨Nat.zero_le _, ?_, rfl, rfl, ?_⟩
  · exact fun lent hlent => absurd hlent (Multiset.notMem_zero lent)
  · simp [slots, Pool.new, maxSize]

/-- Only these parts of a pool matter. -/
theorem congr (h : pool.Balanced out) (howner : after.owner = pool.owner)
    (hfloor : after.reclaimFloor = pool.reclaimFloor)
    (hfree : after.free.length = pool.free.length) (hleased : after.leased = pool.leased)
    (hstale : after.staleLeased = pool.staleLeased) (hconfig : after.config = pool.config) :
    after.Balanced out := by
  have hholds : after.HoldsSlot = pool.HoldsSlot := by
    funext owner
    simp only [HoldsSlot, howner, hfloor]
  refine ⟨?_, ?_, ?_, ?_, ?_⟩
  · rw [hfloor, howner]
    exact h.floor_le
  · rw [hfloor, howner]
    exact h.issued
  · rw [hleased, howner]
    exact h.leased_eq
  · rw [hstale, h.stale_eq]
    exact (Multiset.countP_congr rfl fun owner _ => by rw [hholds])
  · have hslots := h.slots_le
    simp only [slots, maxSize] at hslots ⊢
    rw [hfree, hleased, hstale, hconfig]
    exact hslots

theorem enroll {alive : ResourceId → Bool} {resource : ResourceId} (h : pool.Balanced out) :
    (pool.enroll owner alive resource).Balanced out := by
  unfold Pool.enroll
  dsimp only
  split <;> exact h.congr rfl rfl rfl rfl rfl rfl

/-- The leases of other pools do not matter: one more of them. -/
theorem cons_of_ne (h : pool.Balanced out) (hne : owner.pool ≠ pool.owner.pool) :
    pool.Balanced (owner ::ₘ out) := by
  refine ⟨h.floor_le, ?_, ?_, ?_, h.slots_le⟩
  · intro lent hlent hpool
    rcases Multiset.mem_cons.1 hlent with rfl | hlent
    · exact absurd hpool hne
    · exact h.issued lent hlent hpool
  · rw [Multiset.count_cons_of_ne (fun heq => hne (congrArg Owner.pool heq.symm)), h.leased_eq]
  · rw [Multiset.countP_cons_of_neg _ (fun hholds => hne hholds.1), h.stale_eq]

/-- The leases of other pools do not matter: one less of them. -/
theorem of_cons_of_ne (h : pool.Balanced (owner ::ₘ out)) (hne : owner.pool ≠ pool.owner.pool) :
    pool.Balanced out := by
  refine ⟨h.floor_le, ?_, ?_, ?_, h.slots_le⟩
  · exact fun lent hlent => h.issued lent (Multiset.mem_cons_of_mem hlent)
  · rw [h.leased_eq, Multiset.count_cons_of_ne (fun heq => hne (congrArg Owner.pool heq.symm))]
  · rw [h.stale_eq, Multiset.countP_cons_of_neg _ (fun hholds => hne hholds.1)]

/-- A lease of the pool that is of its epoch is of its owner. -/
theorem eq_owner (h : pool.Balanced out) (hmem : owner ∈ out)
    (hpool : owner.pool = pool.owner.pool) (hepoch : owner.epoch = pool.owner.epoch) :
    owner = pool.owner := by
  have hpid : owner.pid = pool.owner.pid :=
    (h.issued owner hmem hpool).2 (hepoch ▸ h.floor_le)
  cases owner
  simp_all

/-- A lease of the present owner that is out is counted, and there is room for its slot. -/
theorem room_of_owner (h : pool.Balanced out) (hmem : pool.owner ∈ out) :
    0 < pool.leased ∧ pool.free.length < pool.maxSize := by
  have hleased : 0 < pool.leased := h.leased_eq ▸ Multiset.count_pos.2 hmem
  have hslots := h.slots_le
  unfold slots at hslots
  omega

/-- A lease of an earlier owner that is out and holds a slot is counted, and there is room for its
slot. -/
theorem room_of_holdsSlot (h : pool.Balanced out) (hmem : owner ∈ out)
    (hholds : pool.HoldsSlot owner) :
    0 < pool.staleLeased ∧ pool.free.length < pool.maxSize := by
  have hstale : 0 < pool.staleLeased := h.stale_eq ▸ Multiset.countP_pos_of_mem hmem hholds
  have hslots := h.slots_le
  unfold slots at hslots
  omega

theorem canReclaim_iff (h : pool.Balanced out) (hmem : owner ∈ out) :
    pool.canReclaim owner = true ↔ pool.HoldsSlot owner := by
  simp only [canReclaim, Bool.and_eq_true, beq_iff_eq, decide_eq_true_eq]
  constructor
  · rintro ⟨⟨⟨⟨hpool, -⟩, hfloor⟩, hepoch⟩, -⟩
    exact ⟨hpool, hfloor, hepoch⟩
  · intro hholds
    exact ⟨⟨⟨⟨hholds.1, (h.issued owner hmem hholds.1).2 hholds.2.1⟩, hholds.2.1⟩, hholds.2.2⟩,
      (h.room_of_holdsSlot hmem hholds).1⟩

/-- The slot of a lease that holds one comes back vacant. -/
theorem reclaim_of_holdsSlot (h : pool.Balanced out) (hmem : owner ∈ out)
    (hholds : pool.HoldsSlot owner) : pool.reclaim owner =
      { pool with staleLeased := pool.staleLeased - 1, free := .vacant :: pool.free } := by
  rw [reclaim, if_pos ((h.canReclaim_iff hmem).2 hholds)]
  exact push_of_lt (h.room_of_holdsSlot hmem hholds).2

end Balanced

/-- A lease that holds no slot changes nothing when it comes back. -/
theorem reclaim_of_not_holdsSlot (hholds : ¬ pool.HoldsSlot owner) :
    pool.reclaim owner = pool := by
  have hcannot : ¬ pool.canReclaim owner = true := by
    intro hcan
    simp only [canReclaim, Bool.and_eq_true, beq_iff_eq, decide_eq_true_eq] at hcan
    exact hholds ⟨hcan.1.1.1.1, hcan.1.1.2, hcan.1.2⟩
  rw [reclaim, if_neg hcannot]

theorem reclaim_of_pid_ne (hpid : owner.pid ≠ pool.owner.pid) : pool.reclaim owner = pool := by
  have hcannot : ¬ pool.canReclaim owner = true := by
    intro hcan
    simp only [canReclaim, Bool.and_eq_true, beq_iff_eq, decide_eq_true_eq] at hcan
    exact hpid hcan.1.1.1.2
  rw [reclaim, if_neg hcannot]

theorem restoreVacant_of_pid_ne (hpid : owner.pid ≠ pool.owner.pid) :
    pool.restoreVacant owner = pool := by
  have hother : pool.owner ≠ owner := by
    rintro rfl
    exact hpid rfl
  rw [restoreVacant, if_neg hother, reclaim_of_pid_ne hpid]

namespace Balanced

theorem take (h : pool.Balanced out) (hfree : pool.free ≠ []) :
    pool.take.Balanced (pool.owner ::ₘ out) := by
  refine ⟨h.floor_le, ?_, ?_, ?_, ?_⟩
  · intro owner howner hpool
    rcases Multiset.mem_cons.1 howner with rfl | howner
    · exact ⟨Nat.le_refl _, fun _ => rfl⟩
    · exact h.issued owner howner hpool
  · simp [Pool.take, h.leased_eq]
  · have hnot : ¬ pool.take.HoldsSlot pool.owner := pool.take.not_holdsSlot_owner
    rw [Multiset.countP_cons_of_neg _ hnot]
    exact h.stale_eq
  · have hslots := h.slots_le
    have hlength := List.length_pos_iff.2 hfree
    simp only [slots, maxSize, Pool.take, List.length_tail] at hslots ⊢
    omega

/-- The slot of a lease of the present owner comes back as `slot`. -/
theorem giveBack (h : pool.Balanced (pool.owner ::ₘ out)) (slot : Slot) :
    (pool.giveBack slot).Balanced out := by
  obtain ⟨hleased, hfree⟩ := h.room_of_owner (Multiset.mem_cons_self _ _)
  rw [Pool.giveBack, push_of_lt (by exact hfree)]
  refine ⟨h.floor_le, ?_, ?_, ?_, ?_⟩
  · exact fun owner howner => h.issued owner (Multiset.mem_cons_of_mem howner)
  · simp [h.leased_eq]
  · exact h.stale_eq.trans (Multiset.countP_cons_of_neg _ pool.not_holdsSlot_owner)
  · have hslots := h.slots_le
    simp only [slots, maxSize, List.length_cons] at hslots ⊢
    omega

theorem reclaim (h : pool.Balanced (owner ::ₘ out)) (hne : owner ≠ pool.owner) :
    (pool.reclaim owner).Balanced out := by
  have hmem : owner ∈ owner ::ₘ out := Multiset.mem_cons_self _ _
  have hissued : ∀ lent ∈ out, lent.pool = pool.owner.pool → lent.epoch ≤ pool.owner.epoch ∧
      (pool.reclaimFloor ≤ lent.epoch → lent.pid = pool.owner.pid) :=
    fun lent hlent => h.issued lent (Multiset.mem_cons_of_mem hlent)
  have hleased : pool.leased = out.count pool.owner := by
    rw [h.leased_eq, Multiset.count_cons_of_ne hne.symm]
  by_cases hholds : pool.HoldsSlot owner
  · rw [h.reclaim_of_holdsSlot hmem hholds]
    refine ⟨h.floor_le, hissued, hleased, ?_, ?_⟩
    · have hstale := h.stale_eq
      rw [Multiset.countP_cons_of_pos _ hholds] at hstale
      simp only [hstale, Nat.add_sub_cancel]
      rfl
    · have hslots := h.slots_le
      have hroom := h.room_of_holdsSlot hmem hholds
      simp only [slots, maxSize, List.length_cons] at hslots ⊢
      omega
  · rw [reclaim_of_not_holdsSlot hholds]
    refine ⟨h.floor_le, hissued, hleased, ?_, h.slots_le⟩
    rw [h.stale_eq, Multiset.countP_cons_of_neg _ hholds]

theorem restoreVacant (h : pool.Balanced (owner ::ₘ out)) :
    (pool.restoreVacant owner).Balanced out := by
  unfold Pool.restoreVacant
  split
  · next heq =>
    subst heq
    exact h.giveBack .vacant
  · next hne => exact h.reclaim (Ne.symm hne)

/-- No lease is of an epoch that the pool has not reached. -/
theorem not_mem_of_epoch_lt (h : pool.Balanced out) (hpool : owner.pool = pool.owner.pool)
    (hepoch : pool.owner.epoch < owner.epoch) : owner ∉ out :=
  fun hmem => Nat.lt_irrefl _ (Nat.lt_of_lt_of_le hepoch (h.issued owner hmem hpool).1)

/-- After an invalidation the leases of the owner before it hold their slots as earlier ones do. -/
theorem holdsSlot_invalidate_iff (h : pool.Balanced out) (hmem : owner ∈ out) :
    (pool.reset pool.owner.nextEpoch false).HoldsSlot owner ↔
      pool.HoldsSlot owner ∨ owner = pool.owner := by
  constructor
  · rintro ⟨hpool, hfloor, hepoch⟩
    rcases Nat.lt_or_eq_of_le (Nat.le_of_lt_succ hepoch) with hlt | heq
    · exact .inl ⟨hpool, hfloor, hlt⟩
    · exact .inr (h.eq_owner hmem hpool heq)
  · rintro (⟨hpool, hfloor, hepoch⟩ | rfl)
    · exact ⟨hpool, hfloor, Nat.lt_succ_of_lt hepoch⟩
    · exact ⟨rfl, h.floor_le, Nat.lt_succ_self _⟩

theorem invalidate (h : pool.Balanced out) :
    (pool.reset pool.owner.nextEpoch false).Balanced out := by
  have hcount : out.count pool.owner.nextEpoch = 0 :=
    Multiset.count_eq_zero_of_notMem (h.not_mem_of_epoch_lt rfl (Nat.lt_succ_self _))
  refine ⟨Nat.le_succ_of_le h.floor_le, ?_, hcount.symm, ?_, ?_⟩
  · intro owner howner hpool
    obtain ⟨hle, hpid⟩ := h.issued owner howner hpool
    exact ⟨Nat.le_succ_of_le hle, hpid⟩
  · rw [countP_eq_countP_add_count (fun owner howner => h.holdsSlot_invalidate_iff howner)
      pool.not_holdsSlot_owner, ← h.stale_eq, ← h.leased_eq]
    rfl
  · have hslots := h.slots_le
    simp only [slots, maxSize, reset, List.length_replicate, Bool.false_eq_true, ↓reduceIte]
      at hslots ⊢
    omega

/-- An owner of a later epoch whose floor lies there: all leases so far are settled. -/
theorem reopen (h : pool.Balanced out) (howner : after.owner.pool = pool.owner.pool)
    (hepoch : pool.owner.epoch < after.owner.epoch)
    (hfloor : after.reclaimFloor = after.owner.epoch)
    (hleased : after.leased = 0) (hstale : after.staleLeased = 0)
    (hfree : after.free.length ≤ after.maxSize) : after.Balanced out := by
  have hcount : out.count after.owner = 0 :=
    Multiset.count_eq_zero_of_notMem (h.not_mem_of_epoch_lt howner hepoch)
  refine ⟨Nat.le_of_eq hfloor, ?_, by rw [hleased, hcount], ?_, ?_⟩
  · intro owner hmem hpool
    have hlt := Nat.lt_of_le_of_lt (h.issued owner hmem (hpool.trans howner)).1 hepoch
    exact ⟨Nat.le_of_lt hlt, fun hle => absurd (hfloor ▸ hle) (Nat.not_le_of_lt hlt)⟩
  · rw [hstale, eq_comm, Multiset.countP_eq_zero]
    intro owner _ hholds
    exact Nat.lt_irrefl _ (Nat.lt_of_lt_of_le hholds.2.2 (hfloor ▸ hholds.2.1))
  · simp only [slots, hleased, hstale]
    exact hfree

/-- The process of the pool changed, and the pool noticed. -/
theorem refresh (h : pool.Balanced out) (pid : Pid) :
    (pool.reset (pool.owner.withPid pid) true).Balanced out :=
  h.reopen rfl (Nat.lt_succ_self _) rfl rfl rfl (by simp [reset, maxSize])

theorem tearDown (h : pool.Balanced out) : pool.tearDown.Balanced out :=
  h.reopen rfl (Nat.lt_succ_self _) rfl rfl rfl (Nat.zero_le _)

end Balanced

section Slots

theorem slots_take (hfree : pool.free ≠ []) : pool.take.slots = pool.slots := by
  have hlength := List.length_pos_iff.2 hfree
  simp only [slots, take, List.length_tail]
  omega

theorem Balanced.slots_giveBack (h : pool.Balanced (pool.owner ::ₘ out)) (slot : Slot) :
    (pool.giveBack slot).slots = pool.slots := by
  obtain ⟨hleased, hfree⟩ := h.room_of_owner (Multiset.mem_cons_self _ _)
  rw [Pool.giveBack, push_of_lt (by exact hfree)]
  simp only [slots, List.length_cons]
  omega

theorem Balanced.slots_reclaim (h : pool.Balanced (owner ::ₘ out)) :
    (pool.reclaim owner).slots = pool.slots := by
  have hmem : owner ∈ owner ::ₘ out := Multiset.mem_cons_self _ _
  by_cases hholds : pool.HoldsSlot owner
  · have hroom := h.room_of_holdsSlot hmem hholds
    rw [h.reclaim_of_holdsSlot hmem hholds]
    simp only [slots, List.length_cons]
    omega
  · rw [reclaim_of_not_holdsSlot hholds]

theorem Balanced.slots_restoreVacant (h : pool.Balanced (owner ::ₘ out)) :
    (pool.restoreVacant owner).slots = pool.slots := by
  unfold Pool.restoreVacant
  split
  · next heq =>
    subst heq
    exact h.slots_giveBack .vacant
  · exact h.slots_reclaim

theorem Balanced.slots_invalidate (h : pool.Balanced out) :
    (pool.reset pool.owner.nextEpoch false).slots = pool.maxSize := by
  have hslots := h.slots_le
  simp only [slots, reset, List.length_replicate, Bool.false_eq_true, ↓reduceIte] at hslots ⊢
  omega

theorem slots_refresh (pid : Pid) :
    (pool.reset (pool.owner.withPid pid) true).slots = pool.maxSize := by
  simp [slots, reset]

theorem slots_tearDown : pool.tearDown.slots = 0 := rfl

@[simp] theorem length_vacate {takes : IdleResource → Bool} :
    (pool.vacate takes).free.length = pool.free.length := by
  simp [vacate]

end Slots

end Pool
end LeasePool
