import LeasePool.Proofs.Courses
import LeasePool.Proofs.Epochs

/-!
Provenance. A pool keeps and lends resources of its present owner only: those that were made since
it got that owner. So nothing that was made before a reset or a teardown, or by another pool, is
lent by an acquisition that takes its slot afterwards.
-/

namespace LeasePool

/-- The resource that an acquisition came to: the factory judges it, or it is lent. -/
def Progress.resource? : Progress → Option ResourceId
  | .done (.lent lease) => some lease.resource
  | .pending (.validating _ _ entry _) => some entry.resource
  | .pending (.working _ lease _ _) => some lease.resource
  | _ => none

theorem Progress.resource?_of_lent? {progress : Progress} {lease : Lease}
    (h : progress.lent? = some lease) : progress.resource? = some lease.resource := by
  unfold Progress.lent? at h
  split at h <;> cases h <;> rfl

namespace System

variable {system next popped final middle : System} {id : PoolId} {event : Event}
  {events : List Event} {first progress : Progress} {lease : Lease} {resource : ResourceId}
  {owner : Owner}

/-- The resource was made under `owner`, and the pool has had that owner ever since. -/
def MadeUnder (system : System) (id : PoolId) (resource : ResourceId) (owner : Owner) : Prop :=
  system.world.makerOf? resource = some owner ∧
    ∀ (earlier : System) (events : List Event), earlier.Reachable →
      earlier.run? events = some system → resource < earlier.world.resources.length →
        (earlier.world.pool id).owner = owner

theorem madeUnder_of_makerOf? (hid : id < system.world.pools.length)
    (hmaker : system.world.makerOf? resource = some (system.world.pool id).owner) :
    system.MadeUnder id resource (system.world.pool id).owner :=
  ⟨hmaker, fun _ _ reach hrun hlt => owner_eq_of_made reach hrun hid hmaker hlt⟩

/-- Idle entries are of the present owner. -/
theorem madeUnder_of_idle (reach : system.Reachable) (hid : id < system.world.pools.length)
    {entry : IdleResource} (hentry : .idle entry ∈ (system.world.pool id).free) :
    system.MadeUnder id entry.resource (system.world.pool id).owner := by
  have hidle : entry.resource ∈ idleFromBottom (system.world.pool id).free :=
    List.mem_filterMap.2 ⟨_, List.mem_reverse.2 hentry, rfl⟩
  exact madeUnder_of_makerOf? hid (((reachable_fits reach).pools.pool hid).idle _ hidle)

/-- A lease names the maker of its resource. -/
theorem makerOf?_of_mem_leases (reach : system.Reachable) (hmem : lease ∈ system.leases) :
    system.world.makerOf? lease.resource = some lease.owner := by
  have fits := reachable_fits reach
  rcases List.mem_append.1 hmem with hheld | hworking
  · exact (fits.held lease hheld).2
  · obtain ⟨task, htask, hlease⟩ := List.mem_filterMap.1 hworking
    cases task with
    | working pool other policy retries =>
        cases hlease
        have hhand : Holding.lease pool lease.owner lease.resource ∈ handOf system.tasks :=
          mem_handOf.2 ⟨_, htask, Multiset.mem_singleton_self _⟩
        exact (fits.hand _ hhand).2.2
    | waiting | validating | replacing | creating | discarding | pausing | disconnecting
    | sweeping => cases hlease

/-- The task of an acquisition that has a slot and no resource to lend yet. -/
def IsAcquiring (task : Task) : Prop := task.acquiring?.isSome = true

/-- In the step to the state `popped` an operation took a slot of the pool, and it stood at `first`
then. -/
def TookSlot (popped : System) (id : PoolId) (first : Progress) : Prop :=
  ∃ before event task?, Reachable before ∧ before.Turn id event task? popped first ∧
    task?.bind Task.acquiring? = none ∧ first.slotOwner?.isSome = true

/-- An acquisition that stood at `first` lends `lease` after some events. -/
def Lends (popped : System) (first : Progress) (events : List Event) (final : System)
    (lease : Lease) : Prop :=
  ∃ progress, Course IsAcquiring popped first events final progress ∧ progress.lent? = some lease

/-- The last event of an acquisition made the resource for it. -/
def MakesWithin (popped : System) (id : PoolId) (first : Progress) (events : List Event)
    (resource : ResourceId) : Prop :=
  ∃ earlier middle owner purpose place kind,
    Course IsAcquiring popped first earlier middle (.pending (.creating id owner purpose)) ∧
      events = earlier ++ [.reply place (.created kind)] ∧
      middle.tasks[place]? = some (.creating id owner purpose) ∧
      resource = middle.world.resources.length

/-- After a turn an acquisition has the resource it had before, or one that the factory has just
made. -/
theorem Turn.resource?_of_acquiring {task : Task}
    (turn : middle.Turn id event (some task) next progress)
    (hacquiring : task.acquiring? = some owner) (hresource : progress.resource? = some resource) :
    (Progress.pending task).resource? = some resource ∨
      progress.lent?.isSome = true ∧ ∃ place kind purpose, task = .creating id owner purpose ∧
        event = .reply place (.created kind) ∧ middle.tasks[place]? = some task ∧
        resource = middle.world.resources.length := by
  cases turn with
  | wake htask h =>
      cases task with
      | validating | replacing | creating => cases h
      | waiting | working | discarding | pausing | disconnecting | sweeping => cases hacquiring
  | @reply place reply task result htask h =>
      cases task with
      | validating pool maker entry purpose =>
          cases reply with
          | valid isValid =>
              cases h
              cases isValid with
              | true =>
                  have hlent : some entry.resource = some resource :=
                    (Progress.resource?_of_lent? (World.lent?_reuse entry)).symm.trans hresource
                  exact .inl hlent
              | false => cases hresource
          | created | notCreated | closed | worked | broke => cases h
      | replacing =>
          cases reply with
          | closed =>
              cases h
              cases hresource
          | created | notCreated | valid | worked | broke => cases h
      | creating pool maker purpose =>
          cases hacquiring
          cases reply with
          | created kind =>
              cases h
              have hlent : (middle.world.created pool owner purpose kind).2.lent? = some _ :=
                World.lent?_created kind
              have hmade := (Progress.resource?_of_lent? hlent).symm.trans hresource
              exact .inr ⟨Option.isSome_of_mem hlent, place, kind, purpose, rfl, rfl, htask,
                (Option.some_inj.1 hmade).symm⟩
          | notCreated =>
              cases h
              cases hresource
          | closed | valid | worked | broke => cases h
      | waiting | working | discarding | pausing | disconnecting | sweeping => cases hacquiring

/-- Whatever an acquisition has goes back to the owner of the pool when it took its slot. -/
structure Backed (popped : System) (id : PoolId) (first : Progress) (events : List Event)
    (current : System) (progress : Progress) : Prop where
  owner_eq : ∀ owner, progress.slotOwner? = some owner → owner = (popped.world.pool id).owner
  origin : ∀ resource, progress.resource? = some resource →
    popped.world.makerOf? resource = some (popped.world.pool id).owner ∨
      progress.lent?.isSome = true ∧ popped.MakesWithin id first events resource
  leases : ∀ lease, progress.lent? = some lease → lease ∈ current.leases

theorem TookSlot.backed (h : popped.TookSlot id first) :
    Backed popped id first [] popped first := by
  obtain ⟨before, event, task?, reach, turn, htask, -⟩ := h
  have hgrants := turn.grants
  rw [htask] at hgrants
  have hreach : popped.Reachable := reach.step? turn.step?
  refine ⟨hgrants.owner_eq, ?_, fun lease => turn.mem_leases⟩
  intro resource hresource
  refine .inl ?_
  unfold Progress.resource? at hresource
  split at hresource <;> cases hresource
  · next lease =>
    rw [makerOf?_of_mem_leases hreach (turn.mem_leases rfl), hgrants.owner_eq lease.owner rfl]
    rfl
  · next pool owner entry purpose =>
    have hhand : Holding.lease pool owner entry.resource ∈ handOf popped.tasks :=
      mem_handOf.2 ⟨_, turn.mem_tasks, Multiset.mem_singleton_self _⟩
    have hmaker : popped.world.makerOf? entry.resource = some owner :=
      ((reachable_fits hreach).hand _ hhand).2.2
    rw [hmaker, hgrants.owner_eq owner rfl]
    rfl
  · next pool lease policy retries =>
    rw [makerOf?_of_mem_leases hreach (turn.mem_leases rfl), hgrants.owner_eq lease.owner rfl]
    rfl

theorem lent?_of_isAcquiring {task : Task} (h : IsAcquiring task) :
    (Progress.pending task).lent? = none := by
  cases task with
  | working => cases h
  | waiting | validating | replacing | creating | discarding | pausing | disconnecting
  | sweeping => rfl

/-- An acquisition that goes on without a lease has no resource of its own making. -/
theorem Backed.makerOf? {task : Task} (h : Backed popped id first events middle (.pending task))
    (hacquiring : IsAcquiring task)
    (hresource : (Progress.pending task).resource? = some resource) :
    popped.world.makerOf? resource = some (popped.world.pool id).owner := by
  rcases h.origin resource hresource with hmaker | ⟨hlent, -⟩
  · exact hmaker
  · rw [lent?_of_isAcquiring hacquiring] at hlent
    cases hlent

theorem slotOwner?_of_isAcquiring {task : Task} (h : task.acquiring? = some owner) :
    (Progress.pending task).slotOwner? = some owner := by
  cases task with
  | validating | replacing | creating => exact h
  | waiting | working | discarding | pausing | disconnecting | sweeping => cases h

theorem Course.backed (h : popped.TookSlot id first) (reach : popped.Reachable)
    (hid : id < popped.world.pools.length)
    (course : Course IsAcquiring popped first events final progress) :
    Backed popped id first events final progress := by
  induction course with
  | here => exact h.backed
  | waits before hacquiring hstep hstays ih =>
      refine ⟨ih.owner_eq, fun resource hresource => .inl (ih.makerOf? hacquiring hresource), ?_⟩
      intro lease hlent
      rw [lent?_of_isAcquiring hacquiring] at hlent
      cases hlent
  | @goesOn events middle task agent event next progress before hacquiring turn ih =>
      obtain ⟨owner, howner⟩ := Option.isSome_iff_exists.1 hacquiring
      have hslot : owner = (popped.world.pool id).owner :=
        ih.owner_eq owner (slotOwner?_of_isAcquiring howner)
      have hgrants := turn.grants
      rw [Option.bind_some, howner, Option.getD_some, hslot] at hgrants
      refine ⟨hgrants.owner_eq, ?_, fun lease => turn.mem_leases⟩
      intro resource hresource
      rcases turn.resource?_of_acquiring howner hresource with
        hbefore | ⟨hlent, place, kind, purpose, rfl, rfl, htask, rfl⟩
      · exact .inl (ih.makerOf? hacquiring hbefore)
      · have hreach : middle.Reachable := reach.run? before.run?
        have hhand : Holding.slot agent owner ∈ handOf middle.tasks :=
          mem_handOf.2 ⟨_, List.mem_of_getElem? htask, Multiset.mem_singleton_self _⟩
        have hplace : owner.pool = agent := ((reachable_fits hreach).hand _ hhand).2
        have hpool : (popped.world.pool id).owner.pool = id := reach.owner_pool hid
        obtain rfl : agent = id := by rw [← hplace, hslot, hpool]
        exact .inr ⟨hlent, events, middle, owner, purpose, place, kind, before, rfl, htask, rfl⟩

/-- The pool starts over with the step: it is torn down, or it is reset. -/
def StartsOver (system : System) (id : PoolId) (event : Event) (next : System) : Prop :=
  event = .call id .disconnectAll ∨ (next.world.pool id).resets ≠ (system.world.pool id).resets

theorem epoch_lt_of_startsOver (reach : system.Reachable) (hid : id < system.world.pools.length)
    (hstep : system.step? event = some next) (hover : system.StartsOver id event next) :
    (system.world.pool id).owner.epoch < (next.world.pool id).owner.epoch := by
  rcases hover with rfl | hresets
  · have hfloor : (next.world.pool id).reclaimFloor ≤ (next.world.pool id).owner.epoch :=
      ((reach.step? hstep).balanced (reach.lt_of_step? hid hstep)).floor_le
    exact Nat.lt_of_lt_of_le (epoch_lt_floor_of_disconnectAll reach hstep) hfloor
  · exact (run?_advances reach hid (run?_cons hstep [])).epoch_lt hresets

/-- What a lease lends goes back to the owner that the pool had when the slot was taken. -/
theorem Lends.backed (h : popped.TookSlot id first) (reach : popped.Reachable)
    (hid : id < popped.world.pools.length) (hlends : popped.Lends first events final lease) :
    lease.owner = (popped.world.pool id).owner ∧ lease.owner.pool = id ∧
      final.world.makerOf? lease.resource = some lease.owner ∧
      (popped.MakesWithin id first events lease.resource ∨
        popped.MadeUnder id lease.resource lease.owner) := by
  obtain ⟨progress, course, hlent⟩ := hlends
  have hbacked := course.backed h reach hid
  have howner := hbacked.owner_eq _ (Progress.slotOwner?_of_lent? hlent)
  have hpool : (popped.world.pool id).owner.pool = id := reach.owner_pool hid
  refine ⟨howner, (congrArg Owner.pool howner).trans hpool,
    makerOf?_of_mem_leases (reach.run? course.run?) (hbacked.leases lease hlent), ?_⟩
  rcases hbacked.origin _ (Progress.resource?_of_lent? hlent) with hmaker | ⟨-, hmade⟩
  · rw [howner]
    exact .inr (madeUnder_of_makerOf? hid hmaker)
  · exact .inl hmade

/-- What was there when a pool started over is not lent by an acquisition that takes its slot
later. -/
theorem Lends.length_le_of_startsOver {between : List Event} (reach : system.Reachable)
    (hid : id < system.world.pools.length) (hstep : system.step? event = some next)
    (hover : system.StartsOver id event next) (hbetween : next.run? between = some popped)
    (htook : popped.TookSlot id first) (hlends : popped.Lends first events final lease) :
    system.world.resources.length ≤ lease.resource := by
  have hnext : next.Reachable := reach.step? hstep
  have hpopped : popped.Reachable := hnext.run? hbetween
  have hid' : id < next.world.pools.length := reach.lt_of_step? hid hstep
  obtain ⟨howner, hpool, hmaker, -⟩ :=
    hlends.backed htook hpopped (hnext.lt_of_run? hid' hbetween)
  obtain ⟨progress, course, -⟩ := hlends
  have hepoch : (system.world.pool id).owner.epoch < lease.owner.epoch := by
    rw [howner]
    exact Nat.lt_of_lt_of_le (epoch_lt_of_startsOver reach hid hstep hover)
      (run?_advances hnext hid' hbetween).epoch_le
  by_contra hlt
  have hrun : system.run? (event :: (between ++ events)) = some final := by
    rw [run?_cons hstep, run?_append, hbetween]
    exact course.run?
  have hmade := makerOf?_of_lt reach hrun (Nat.lt_of_not_le hlt) hmaker
  have hdated := ((reachable_dated reach).made _ _ hmade).2
  rw [hpool] at hdated
  exact Nat.lt_irrefl _ (Nat.lt_of_lt_of_le hepoch hdated)

/-- Nothing stale is lent. Idle entries were made under the owner the pool has; a lease carries the
owner of the moment when its slot was taken, and lends a resource that was made for it or under that
owner; and nothing that was there when the pool started over is lent in a slot taken since. -/
theorem lent_of_present_owner (reach : system.Reachable) (hid : id < system.world.pools.length) :
    (∀ entry, .idle entry ∈ (system.world.pool id).free →
      system.MadeUnder id entry.resource (system.world.pool id).owner) ∧
    (∀ first events final lease, system.TookSlot id first →
      system.Lends first events final lease →
        lease.owner = (system.world.pool id).owner ∧ lease.owner.pool = id ∧
          final.world.makerOf? lease.resource = some lease.owner ∧
          (system.MakesWithin id first events lease.resource ∨
            system.MadeUnder id lease.resource lease.owner)) ∧
    ∀ event next between popped first events final lease, system.step? event = some next →
      system.StartsOver id event next → next.run? between = some popped →
        popped.TookSlot id first → popped.Lends first events final lease →
          system.world.resources.length ≤ lease.resource := by
  refine ⟨?_, ?_, ?_⟩
  · exact fun entry hentry => madeUnder_of_idle reach hid hentry
  · exact fun first events final lease htook hlends => hlends.backed htook reach hid
  · exact fun event next between popped first events final lease hstep hover hbetween htook
      hlends => hlends.length_le_of_startsOver reach hid hstep hover hbetween htook

/-- A resource that lies idle is lent again. -/
theorem lent_of_present_owner_reused : ∃ before,
    (init [7] [(0, Config.ofSize 1)]).run?
        [.call 0 (.acquire none), .reply 0 (.created "db"),
          .call 0 (.release ⟨0, ⟨0, 7, 0⟩, 0⟩)] = some before ∧
      ∃ system, before.Turn 0 (.call 0 (.acquire none)) none system
          (.done (.lent ⟨0, ⟨0, 7, 0⟩, 0⟩)) ∧
        (system.world.pool 0).owner = ⟨0, 7, 0⟩ := by
  refine exists_run? rfl fun before hrun => ?_
  have reach : before.Reachable := ⟨_, _, _, hrun⟩
  obtain ⟨world, hcall⟩ : ∃ world, before.world.call 0 (.acquire none) =
      some (world, .done (.lent ⟨0, ⟨0, 7, 0⟩, 0⟩)) := by
    cases hrun
    exact ⟨_, rfl⟩
  have turn := Turn.call hcall
  have hid : 0 < before.world.pools.length := by
    cases hrun
    decide
  have htook : TookSlot _ 0 (.done (.lent ⟨0, ⟨0, 7, 0⟩, 0⟩)) :=
    ⟨before, _, none, reach, turn, rfl, rfl⟩
  have hlent := (lent_of_present_owner (reach.step? turn.step?)
    (reach.lt_of_step? hid turn.step?)).2.1
  exact ⟨_, turn, (hlent _ [] _ _ htook ⟨_, .here, rfl⟩).1.symm⟩

end System
end LeasePool
