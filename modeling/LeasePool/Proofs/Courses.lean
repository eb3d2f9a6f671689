import LeasePool.Proofs.Steps

/-!
Courses. An operation takes a turn when its call begins and each time its task goes on; a course
follows one operation through its turns and the waiting in between. What an operation has of a pool
after a turn, a slot or a lease, tells under which owner the slot was taken.
-/

namespace LeasePool

/-- The owner under which an acquisition took its slot, as long as it has no resource to lend. -/
def Task.acquiring? : Task → Option Owner
  | .validating _ owner _ _ | .replacing _ owner _ _ | .creating _ owner _ => some owner
  | _ => none

def Task.lease? : Task → Option Lease
  | .working _ lease _ _ => some lease
  | _ => none

/-- The lease that an acquisition came to: its caller has it, or works on it. -/
def Progress.lent? : Progress → Option Lease
  | .done (.lent lease) => some lease
  | .pending (.working _ lease _ _) => some lease
  | _ => none

/-- The owner under which an operation took the slot it has. -/
def Progress.slotOwner? : Progress → Option Owner
  | .done (.lent lease) => some lease.owner
  | .pending (.working _ lease _ _) => some lease.owner
  | .pending task => task.acquiring?
  | .done _ => none

theorem Progress.slotOwner?_of_lent? {progress : Progress} {lease : Lease}
    (h : progress.lent? = some lease) : progress.slotOwner? = some lease.owner := by
  unfold Progress.lent? at h
  split at h <;> cases h <;> rfl

/-- The slot that an operation came to was taken under `owner`, and a lease that it came to is the
caller's. -/
structure Grants (owner : Owner) (result : World × Progress) : Prop where
  owner_eq : ∀ other, result.2.slotOwner? = some other → other = owner
  held : ∀ lease, result.2 = .done (.lent lease) → lease ∈ result.1.held

namespace World

variable {world : World} {id : PoolId} {owner : Owner} {purpose : Purpose}
  {result : World × Progress}

/-- An operation that comes to no slot. -/
theorem grants_of_none (h : result.2.slotOwner? = none) : Grants owner result := by
  refine ⟨?_, ?_⟩
  · intro other hother
    rw [h] at hother
    cases hother
  · intro lease hlease
    rw [hlease] at h
    cases h

theorem lent?_lend (lease : Lease) : (world.lend id lease purpose).2.lent? = some lease := by
  cases purpose <;> rfl

theorem lent?_reuse (entry : IdleResource) : (world.reuse id owner entry purpose).2.lent? =
    some ⟨entry.resource, owner, entry.createdAt⟩ :=
  lent?_lend _

theorem lent?_created (kind : String) : (world.created id owner purpose kind).2.lent? =
    some ⟨world.resources.length, owner, world.clock⟩ :=
  lent?_lend _

theorem lend_grants (lease : Lease) : Grants lease.owner (world.lend id lease purpose) := by
  cases purpose with
  | lend =>
      refine ⟨fun other hother => (Option.some_inj.1 hother).symm, ?_⟩
      rintro _ ⟨⟩
      exact List.mem_cons_self
  | attempt => exact ⟨fun other hother => (Option.some_inj.1 hother).symm, nofun⟩

theorem reuse_grants (entry : IdleResource) : Grants owner (world.reuse id owner entry purpose) :=
  lend_grants ⟨entry.resource, owner, entry.createdAt⟩

theorem replace_grants (resource : ResourceId) :
    Grants owner (world.replace id owner resource purpose) :=
  ⟨fun _ hother => (Option.some_inj.1 hother).symm, nofun⟩

theorem validated_grants (entry : IdleResource) (isValid : Bool) :
    Grants owner (world.validated id owner entry purpose isValid) := by
  unfold World.validated
  split
  · exact reuse_grants entry
  · exact replace_grants entry.resource

theorem replaced_grants (resource : ResourceId) (failure : Option Failure) :
    Grants owner (world.replaced id owner resource purpose failure) :=
  ⟨fun _ hother => (Option.some_inj.1 hother).symm, nofun⟩

theorem created_grants (kind : String) : Grants owner (world.created id owner purpose kind) :=
  lend_grants ⟨world.resources.length, owner, world.clock⟩

theorem reuse_pools (entry : IdleResource) :
    (world.reuse id owner entry purpose).1.pools = world.pools := by
  cases purpose <;> rfl

/-- Who takes a slot takes it under the owner that the pool has then. -/
theorem takeSlot_grants (slot : Slot) : Grants ((world.takeSlot id slot purpose).1.pool id).owner
    (world.takeSlot id slot purpose) := by
  cases slot with
  | vacant => exact ⟨fun _ hother => (Option.some_inj.1 hother).symm, nofun⟩
  | idle entry =>
      unfold World.takeSlot
      dsimp only
      split
      · exact replace_grants entry.resource
      · split
        · exact ⟨fun _ hother => (Option.some_inj.1 hother).symm, nofun⟩
        · rw [pool_congr (reuse_pools entry)]
          exact reuse_grants entry

theorem awaitSlot_grants (patience : Patience) (since : Instant) :
    Grants ((world.awaitSlot id patience since purpose).1.pool id).owner
      (world.awaitSlot id patience since purpose) := by
  unfold World.awaitSlot
  split
  · exact takeSlot_grants _
  · split <;> exact grants_of_none rfl
  · exact grants_of_none rfl

theorem acquire_grants (patience : Patience) :
    Grants ((world.acquire id patience purpose).1.pool id).owner
      (world.acquire id patience purpose) :=
  awaitSlot_grants patience _

theorem afterDiscard_grants (sequel : Sequel) :
    Grants ((world.afterDiscard id sequel).1.pool id).owner (world.afterDiscard id sequel) := by
  cases sequel with
  | finish => exact grants_of_none rfl
  | retry policy retries failure =>
      unfold World.afterDiscard
      dsimp only
      split
      · exact grants_of_none rfl
      · split
        · exact acquire_grants _
        · exact grants_of_none rfl

theorem awaitAttempt_grants (due : Instant) (policy : RetryPolicy) (retries : UInt32) :
    Grants ((world.awaitAttempt id due policy retries).1.pool id).owner
      (world.awaitAttempt id due policy retries) := by
  unfold World.awaitAttempt
  split
  · exact acquire_grants _
  · exact grants_of_none rfl

theorem discard_grants (lease : Lease) (sequel : Sequel) :
    Grants ((world.discard id lease sequel).1.pool id).owner (world.discard id lease sequel) := by
  unfold World.discard
  split
  · exact afterDiscard_grants sequel
  · split
    · exact afterDiscard_grants sequel
    · exact grants_of_none rfl

theorem broke_grants (lease : Lease) (policy : RetryPolicy) (retries : UInt32)
    (failure : Failure) :
    Grants ((world.broke id lease policy retries failure).1.pool id).owner
      (world.broke id lease policy retries failure) := by
  unfold World.broke
  split
  · exact discard_grants lease _
  · exact grants_of_none rfl

theorem slotOwner?_disconnectNext (free rest : List ResourceId) (closed : Nat) :
    (world.disconnectNext id free closed rest).2.slotOwner? = none := by
  induction rest with
  | nil => rfl
  | cons resource rest ih =>
      unfold World.disconnectNext
      split
      · rfl
      · exact ih

theorem slotOwner?_sweepNext (taken rest : List ResourceId) :
    (world.sweepNext id taken rest).2.slotOwner? = none := by
  cases rest <;> rfl

theorem begin_grants (call : Call) :
    Grants ((world.begin id call).1.pool id).owner (world.begin id call) := by
  cases call with
  | acquire | run => exact acquire_grants _
  | release | invalidate => exact grants_of_none rfl
  | discard lease => exact discard_grants lease .finish
  | disconnectAll => exact grants_of_none (slotOwner?_disconnectNext _ _ _)
  | closeIdle | evictExpired => exact grants_of_none (slotOwner?_sweepNext _ _)

/-- An acquisition that has its slot goes on with it, and no other operation comes to a slot but by
taking one. -/
theorem resume_grants {task : Task} {reply : Reply} (h : world.resume task reply = some result) :
    Grants (task.acquiring?.getD (result.1.pool task.pool).owner) result := by
  unfold World.resume at h
  split at h <;> cases h
  · exact validated_grants _ _
  · exact replaced_grants _ _
  · exact created_grants _
  · exact grants_of_none rfl
  · exact grants_of_none rfl
  · exact broke_grants _ _ _ _
  · exact afterDiscard_grants _
  · exact grants_of_none (slotOwner?_disconnectNext _ _ _)
  · exact grants_of_none (slotOwner?_sweepNext _ _)

theorem wake_grants {task : Task} (h : world.wake task = some result) :
    Grants (task.acquiring?.getD (result.1.pool task.pool).owner) result := by
  unfold World.wake at h
  split at h <;> cases h
  · exact awaitSlot_grants _ _
  · exact awaitAttempt_grants _ _ _

end World

namespace System

variable {system next final start : System} {id : PoolId} {event : Event} {task? : Option Task}
  {progress first : Progress} {lease : Lease}

/-- An operation on the pool `id` takes a turn, and stands at `progress` then: its call begins, or
its task goes on. -/
inductive Turn (system : System) : PoolId → Event → Option Task → System → Progress → Prop where
  | call {id call result} (h : system.world.call id call = some result) :
      Turn system id (.call id call) none (settle system.tasks result) result.2
  | reply {place reply task result} (htask : system.tasks[place]? = some task)
      (h : system.world.resume task reply = some result) :
      Turn system task.pool (.reply place reply) (some task)
        (settle (system.tasks.eraseIdx place) result) result.2
  | wake {place task result} (htask : system.tasks[place]? = some task)
      (h : system.world.wake task = some result) :
      Turn system task.pool (.wake place) (some task)
        (settle (system.tasks.eraseIdx place) result) result.2

def leases (system : System) : List Lease :=
  system.world.held ++ system.tasks.filterMap Task.lease?

theorem mem_tasks_settle {others : List Task} {result : World × Progress} {task : Task}
    (h : result.2 = .pending task) : task ∈ (settle others result).tasks := by
  obtain ⟨world, progress⟩ := result
  cases h
  exact List.mem_cons_self

namespace Turn

theorem step? (turn : system.Turn id event task? next progress) :
    system.step? event = some next := by
  cases turn with
  | call h => exact Option.map_eq_some_iff.2 ⟨_, h, rfl⟩
  | reply htask h =>
      exact Option.bind_eq_some_iff.2 ⟨_, htask, Option.map_eq_some_iff.2 ⟨_, h, rfl⟩⟩
  | wake htask h =>
      exact Option.bind_eq_some_iff.2 ⟨_, htask, Option.map_eq_some_iff.2 ⟨_, h, rfl⟩⟩

theorem pool_eq {task : Task} (turn : system.Turn id event (some task) next progress) :
    task.pool = id := by
  cases turn <;> rfl

theorem mem_tasks {task : Task} (turn : system.Turn id event task? next (.pending task)) :
    task ∈ next.tasks := by
  generalize hprogress : Progress.pending task = progress at turn
  cases turn with
  | call | reply | wake => exact mem_tasks_settle hprogress.symm

/-- The owner under which an operation has its slot is that of the acquisition, or the one that the
pool has when the slot is taken. -/
theorem grants (turn : system.Turn id event task? next progress) :
    Grants ((task?.bind Task.acquiring?).getD (next.world.pool id).owner)
      (next.world, progress) := by
  cases turn with
  | @call id call result h =>
      obtain rfl := World.eq_begin_of_call h
      rw [world_settle]
      exact World.begin_grants call
  | reply htask h =>
      rw [world_settle]
      exact World.resume_grants h
  | wake htask h =>
      rw [world_settle]
      exact World.wake_grants h

theorem mem_leases (turn : system.Turn id event task? next progress)
    (hlent : progress.lent? = some lease) : lease ∈ next.leases := by
  unfold Progress.lent? at hlent
  split at hlent <;> cases hlent
  · exact List.mem_append_left _ (turn.grants.held _ rfl)
  · exact List.mem_append_right _ (List.mem_filterMap.2 ⟨_, turn.mem_tasks, rfl⟩)

end Turn

/-- The course of an operation that stood at `first` in the state `start`, as long as its tasks are
ones to follow: it waits while other things happen, or it takes a turn. -/
inductive Course (follows : Task → Prop) (start : System) (first : Progress) :
    List Event → System → Progress → Prop where
  | here : Course follows start first [] start first
  | waits {events middle task event next}
      (before : Course follows start first events middle (.pending task))
      (hfollows : follows task) (hstep : middle.step? event = some next)
      (hstays : task ∈ next.tasks) :
      Course follows start first (events ++ [event]) next (.pending task)
  | goesOn {events middle task id event next progress}
      (before : Course follows start first events middle (.pending task))
      (hfollows : follows task) (turn : middle.Turn id event (some task) next progress) :
      Course follows start first (events ++ [event]) next progress

theorem Course.run? {follows : Task → Prop} {events : List Event}
    (course : Course follows start first events final progress) :
    start.run? events = some final := by
  induction course with
  | here => rfl
  | waits _ _ hstep _ ih =>
      rw [run?_concat, ih]
      exact hstep
  | goesOn _ _ turn ih =>
      rw [run?_concat, ih]
      exact turn.step?

end System
end LeasePool
