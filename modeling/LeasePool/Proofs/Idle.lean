import LeasePool.Pool
import Mathlib.Data.Multiset.Bind

/-!
The idle resources of a pool: which of them each change of the pool keeps, adds or takes out.
-/

namespace LeasePool

variable {free : List Slot} {resource : ResourceId}

@[simp] theorem idleFromBottom_nil : idleFromBottom [] = [] := rfl

@[simp] theorem idleFromBottom_cons_vacant :
    idleFromBottom (.vacant :: free) = idleFromBottom free := by
  simp [idleFromBottom, Slot.idle?]

@[simp] theorem idleFromBottom_cons_idle (entry : IdleResource) :
    idleFromBottom (.idle entry :: free) = idleFromBottom free ++ [entry.resource] := by
  simp [idleFromBottom, Slot.idle?]

@[simp] theorem idleFromBottom_replicate_vacant (count : Nat) :
    idleFromBottom (List.replicate count .vacant) = [] := by
  induction count with
  | zero => rfl
  | succ n ih => rw [List.replicate_succ, idleFromBottom_cons_vacant, ih]

namespace Pool

variable {pool : Pool} {owner : Owner}

@[simp] theorem idleFromBottom_push_vacant :
    idleFromBottom (pool.push .vacant).free = idleFromBottom pool.free := by
  unfold push
  split
  · exact idleFromBottom_cons_vacant
  · rfl

@[simp] theorem idleFromBottom_restoreVacant :
    idleFromBottom (pool.restoreVacant owner).free = idleFromBottom pool.free := by
  unfold restoreVacant giveBack reclaim
  split
  · exact idleFromBottom_push_vacant
  · split
    · exact idleFromBottom_push_vacant
    · rfl

theorem push_eq (pool : Pool) (slot : Slot) :
    ∃ free, pool.push slot = { pool with free := free } := by
  by_cases hroom : pool.free.length < pool.maxSize
  · exact ⟨slot :: pool.free, if_pos hroom⟩
  · exact ⟨pool.free, if_neg hroom⟩

/-- Only the free slots and the counts of those that are out change when a slot comes back. -/
theorem restoreVacant_eq (pool : Pool) (owner : Owner) : ∃ free leased stale,
    pool.restoreVacant owner =
      { pool with free := free, leased := leased, staleLeased := stale } := by
  by_cases howner : pool.owner = owner
  · obtain ⟨free, hpush⟩ := push_eq { pool with leased := pool.leased - 1 } .vacant
    exact ⟨free, pool.leased - 1, pool.staleLeased, (if_pos howner).trans hpush⟩
  · by_cases hcan : pool.canReclaim owner
    · obtain ⟨free, hpush⟩ := push_eq { pool with staleLeased := pool.staleLeased - 1 } .vacant
      exact ⟨free, pool.leased, pool.staleLeased - 1,
        (if_neg howner).trans ((if_pos hcan).trans hpush)⟩
    · exact ⟨pool.free, pool.leased, pool.staleLeased, (if_neg howner).trans (if_neg hcan)⟩

def idle (pool : Pool) : Multiset ResourceId := ↑(idleFromBottom pool.free)

/-- A free slot is idle or vacant. -/
theorem card_idle_add_vacant (pool : Pool) :
    pool.idle.card + pool.free.count .vacant = pool.free.length := by
  rw [idle, Multiset.coe_card]
  induction pool.free with
  | nil => rfl
  | cons slot rest ih =>
      cases slot with
      | vacant =>
          rw [idleFromBottom_cons_vacant, List.count_cons_self, List.length_cons]
          omega
      | idle entry =>
          rw [idleFromBottom_cons_idle, List.count_cons_of_ne Slot.noConfusion, List.length_append,
            List.length_singleton, List.length_cons]
          omega

theorem idle_take {slot : Slot} {rest : List Slot} (hfree : pool.free = slot :: rest) :
    pool.idle = pool.take.idle + ↑(slot.idle?.map (·.resource)).toList := by
  rw [idle, idle, hfree, take, hfree, List.tail_cons]
  cases slot with
  | vacant => simp [Slot.idle?]
  | idle entry => simp [Slot.idle?, ← Multiset.coe_add]

theorem idle_enroll (pool : Pool) (owner : Owner) (alive : ResourceId → Bool)
    (resource : ResourceId) : (pool.enroll owner alive resource).idle = pool.idle := by
  unfold enroll
  dsimp only
  split <;> rfl

theorem idle_giveBack (entry : IdleResource) (hroom : pool.free.length < pool.maxSize) :
    (pool.giveBack (.idle entry)).idle = entry.resource ::ₘ pool.idle := by
  have hpush : pool.giveBack (.idle entry) =
      { pool with leased := pool.leased - 1, free := .idle entry :: pool.free } := if_pos hroom
  rw [hpush, idle, idle, idleFromBottom_cons_idle, ← Multiset.coe_add, Multiset.coe_singleton,
    add_comm, Multiset.singleton_add]

/-- A sweep takes the resources it selects out of the idle ones and leaves the others. -/
theorem idle_vacate_add_selected (pool : Pool) (takes : IdleResource → Bool) :
    (pool.vacate takes).idle + ↑(pool.selected takes) = pool.idle := by
  unfold idle vacate selected
  dsimp only
  induction pool.free with
  | nil => rfl
  | cons slot rest ih =>
      cases slot with
      | vacant => simpa using ih
      | idle entry =>
          by_cases htakes : takes entry
          · simp [htakes, ← ih, ← Multiset.coe_add, add_assoc]
          · simp [htakes, ← ih, ← Multiset.coe_add, add_right_comm]

theorem mem_idle_of_mem_vacate {takes : IdleResource → Bool}
    (h : resource ∈ idleFromBottom (pool.vacate takes).free) :
    resource ∈ idleFromBottom pool.free := by
  change resource ∈ pool.idle
  rw [← pool.idle_vacate_add_selected takes]
  exact Multiset.mem_add.2 (.inl h)

theorem mem_idle_of_mem_selected {takes : IdleResource → Bool}
    (h : resource ∈ pool.selected takes) : resource ∈ idleFromBottom pool.free := by
  change resource ∈ pool.idle
  rw [← pool.idle_vacate_add_selected takes]
  exact Multiset.mem_add.2 (.inr h)

end Pool
end LeasePool
