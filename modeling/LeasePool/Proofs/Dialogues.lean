import LeasePool.Proofs.Courses
import LeasePool.Proofs.Fates
import LeasePool.Proofs.Isolation

/-!
Dialogues. An operation asks one question after the other and goes on with each answer; between a
question and its answer other things happen. Those that concern other pools leave the pool alone,
the leases that callers hold from it, and the operations on it.
-/

namespace LeasePool

/-- The lease that an operation hands to its caller. -/
def Progress.delivered : Progress → List Lease
  | .done (.lent lease) => [lease]
  | _ => []

def Progress.task? : Progress → Option Task
  | .pending task => some task
  | .done _ => none

def Progress.question? : Progress → Option Question
  | .pending task => task.question?
  | .done _ => none

/-- The lease that an event takes from the caller who holds it. -/
def Event.taken? : Event → Option Lease
  | .call _ made => made.lease?
  | .drop lease => some lease
  | _ => none

/-- An operation on the pool hands out the lease that it lends and no other, and what is left of it
is a task of the pool. -/
structure Delivers (id : PoolId) (held : List Lease) (result : World × Progress) : Prop where
  held_eq : result.1.held = result.2.delivered ++ held
  pool_eq : ∀ task, result.2 = .pending task → task.pool = id

namespace World

variable {world : World} {id : PoolId} {owner : Owner} {purpose : Purpose} {held : List Lease}
  {result : World × Progress} {outcome : Outcome} {lease : Lease}

/-- An operation that ends without a lease. -/
theorem delivers_done (hheld : world.held = held) (hnone : (Progress.done outcome).delivered = []) :
    Delivers id held (world, .done outcome) := by
  refine ⟨?_, nofun⟩
  rw [hnone]
  exact hheld

/-- An operation that waits. -/
theorem delivers_pending {task : Task} (hheld : world.held = held) (hpool : task.pool = id) :
    Delivers id held (world, .pending task) := by
  refine ⟨hheld, ?_⟩
  rintro _ ⟨⟩
  exact hpool

theorem lend_delivers (hheld : world.held = held) (lease : Lease) :
    Delivers id held (world.lend id lease purpose) := by
  cases purpose with
  | lend => exact ⟨congrArg (lease :: ·) hheld, nofun⟩
  | attempt => exact delivers_pending hheld rfl

theorem reuse_delivers (hheld : world.held = held) (entry : IdleResource) :
    Delivers id held (world.reuse id owner entry purpose) :=
  lend_delivers (by exact hheld) _

theorem takeSlot_delivers (hheld : world.held = held) (slot : Slot) :
    Delivers id held (world.takeSlot id slot purpose) := by
  cases slot with
  | vacant => exact delivers_pending hheld rfl
  | idle entry =>
      unfold World.takeSlot
      dsimp only
      split
      · exact delivers_pending hheld rfl
      · split
        · exact delivers_pending hheld rfl
        · apply reuse_delivers
          exact hheld

theorem awaitSlot_delivers (hheld : world.held = held) (patience : Patience) (since : Instant) :
    Delivers id held (world.awaitSlot id patience since purpose) := by
  unfold World.awaitSlot
  split
  · exact takeSlot_delivers hheld _
  · split
    · exact delivers_done hheld rfl
    · exact delivers_pending hheld rfl
  · exact delivers_pending hheld rfl

theorem acquire_delivers (hheld : world.held = held) (patience : Patience) :
    Delivers id held (world.acquire id patience purpose) :=
  awaitSlot_delivers (by exact checkOwner_held.trans hheld) patience _

theorem noteClose_held {resource : ResourceId} {failure : Option Failure} :
    (world.noteClose resource failure).held = world.held := by
  cases failure <;> rfl

theorem release_held : (world.release id lease).held = world.held := by
  have hreturn : ((world.checkOwner id).noteReturn id lease.owner).held = world.held := by
    unfold noteReturn
    split <;> exact checkOwner_held
  unfold release turnAway
  dsimp only
  split
  · split
    · exact hreturn
    · exact letGo_held.trans hreturn
  · split
    · exact hreturn
    · exact letGo_held.trans hreturn

theorem afterDiscard_delivers (hheld : world.held = held) (sequel : Sequel) :
    Delivers id held (world.afterDiscard id sequel) := by
  cases sequel with
  | finish => exact delivers_done hheld rfl
  | retry policy retries failure =>
      unfold World.afterDiscard
      dsimp only
      split
      · exact delivers_done hheld rfl
      · split
        · apply acquire_delivers
          exact hheld
        · exact delivers_pending hheld rfl

theorem awaitAttempt_delivers (hheld : world.held = held) (due : Instant) (policy : RetryPolicy)
    (retries : UInt32) : Delivers id held (world.awaitAttempt id due policy retries) := by
  unfold World.awaitAttempt
  split
  · exact acquire_delivers hheld _
  · exact delivers_pending hheld rfl

theorem discard_delivers (hheld : world.held = held) (lease : Lease) (sequel : Sequel) :
    Delivers id held (world.discard id lease sequel) := by
  unfold World.discard
  split
  · apply afterDiscard_delivers
    exact hheld
  · split
    · apply afterDiscard_delivers
      exact letGo_held.trans hheld
    · exact delivers_pending hheld rfl

theorem discarded_delivers (hheld : world.held = held) (resource : ResourceId) (sequel : Sequel)
    (failure : Option Failure) :
    Delivers id held (world.discarded id owner resource sequel failure) :=
  afterDiscard_delivers (by exact letGo_held.trans (noteClose_held.trans hheld)) sequel

theorem broke_delivers (hheld : world.held = held) (policy : RetryPolicy) (retries : UInt32)
    (failure : Failure) : Delivers id held (world.broke id lease policy retries failure) := by
  unfold World.broke
  split
  · exact discard_delivers hheld lease _
  · exact delivers_done (release_held.trans hheld) rfl

theorem disconnectNext_delivers (hheld : world.held = held) (free rest : List ResourceId)
    (closed : Nat) : Delivers id held (world.disconnectNext id free closed rest) := by
  induction rest with
  | nil => exact delivers_done (letGoAll_held.trans hheld) rfl
  | cons resource rest ih =>
      unfold World.disconnectNext
      split
      · exact delivers_pending hheld rfl
      · exact ih

theorem sweepNext_delivers (hheld : world.held = held) (taken rest : List ResourceId) :
    Delivers id held (world.sweepNext id taken rest) := by
  cases rest with
  | cons => exact delivers_pending hheld rfl
  | nil =>
      unfold World.sweepNext
      dsimp only
      split <;> exact delivers_done (letGoAll_held.trans hheld) rfl

theorem begin_delivers (call : Call) :
    Delivers id (call.lease?.elim world.held world.held.erase) (world.begin id call) := by
  cases call with
  | acquire | run => exact acquire_delivers rfl _
  | release lease => exact delivers_done release_held rfl
  | discard lease =>
      apply discard_delivers
      rfl
  | disconnectAll =>
      apply disconnectNext_delivers
      exact checkOwner_held
  | invalidate => exact delivers_done invalidate_held rfl
  | closeIdle | evictExpired =>
      apply sweepNext_delivers
      exact checkOwner_held

theorem resume_delivers {task : Task} {reply : Reply} (h : world.resume task reply = some result) :
    Delivers task.pool world.held result := by
  unfold World.resume at h
  split at h <;> cases h
  · unfold World.validated
    split
    · exact reuse_delivers rfl _
    · exact delivers_pending rfl rfl
  · exact delivers_pending (letGo_held.trans noteClose_held) rfl
  · apply lend_delivers
    rfl
  · exact delivers_done rfl rfl
  · exact delivers_done release_held rfl
  · exact broke_delivers rfl _ _ _
  · exact discarded_delivers rfl _ _ _
  · exact disconnectNext_delivers (letGo_held.trans noteClose_held) _ _ _
  · exact sweepNext_delivers noteClose_held _ _

theorem wake_delivers {task : Task} (h : world.wake task = some result) :
    Delivers task.pool world.held result := by
  unfold World.wake at h
  split at h <;> cases h
  · exact awaitSlot_delivers rfl _ _
  · exact awaitAttempt_delivers rfl _ _ _

end World

namespace System

variable {system next final start : System} {id : PoolId} {event : Event} {events : List Event}
  {task? : Option Task} {first progress : Progress} {lease : Lease} {asked : List Question}

/-- A call that gives no lease back can be made of every pool that is there. -/
theorem turn_of_call (call : Call) (hid : id < system.world.pools.length)
    (hlease : call.lease? = none) : system.Turn id (.call id call) none
      (settle system.tasks (system.world.begin id call)) (system.world.begin id call).2 := by
  have hcall : system.world.call id call = some (system.world.begin id call) := by
    simp [World.call, hid, hlease]
  exact .call hcall

theorem turn_of_step? {call : Call} (hstep : system.step? (.call id call) = some next) :
    system.Turn id (.call id call) none next (system.world.begin id call).2 := by
  obtain ⟨result, hcall, rfl⟩ := Option.map_eq_some_iff.1 hstep
  have hbegin : system.world.call id call = some result := hcall
  obtain rfl := World.eq_begin_of_call hbegin
  exact .call hbegin

/-- What is held after an event is what it left to callers, and the lease it delivered. -/
theorem Turn.delivers (turn : system.Turn id event task? next progress) :
    Delivers id (event.taken?.elim system.world.held system.world.held.erase)
      (next.world, progress) := by
  cases turn with
  | @call id call result h =>
      obtain rfl := World.eq_begin_of_call h
      rw [world_settle]
      exact World.begin_delivers call
  | reply htask h =>
      rw [world_settle]
      exact World.resume_delivers h
  | wake htask h =>
      rw [world_settle]
      exact World.wake_delivers h

/-- An operation that takes a turn works on a pool that is there. -/
theorem Turn.lt (turn : system.Turn id event task? next progress) (reach : system.Reachable) :
    id < system.world.pools.length := by
  have hosted := hosted_of_fits (reachable_fits reach)
  cases turn with
  | call h => exact (of_call (Option.map_eq_some_iff.2 ⟨_, h, rfl⟩)).1
  | reply htask h => exact (hosted.tasks _ (List.mem_of_getElem? htask)).lt
  | wake htask h => exact (hosted.tasks _ (List.mem_of_getElem? htask)).lt

theorem Turn.mem_before {task : Task} (turn : system.Turn id event (some task) next progress) :
    task ∈ system.tasks := by
  cases turn with
  | reply htask | wake htask => exact List.mem_of_getElem? htask

/-- An acquisition takes its slot under an owner of its pool. -/
theorem pool_of_acquiring {task : Task} {owner : Owner} (reach : system.Reachable)
    (htask : task ∈ system.tasks) (howner : task.acquiring? = some owner) :
    owner.pool = task.pool := by
  have hfits : ∀ holding ∈ task.holdings, holding.Fits system.world :=
    fun holding hmem => (reachable_fits reach).hand holding (mem_handOf.2 ⟨task, htask, hmem⟩)
  cases task with
  | validating | replacing =>
      cases howner
      exact (hfits _ (Multiset.mem_singleton_self _)).2.1
  | creating =>
      cases howner
      exact (hfits _ (Multiset.mem_singleton_self _)).2
  | waiting | working | discarding | pausing | disconnecting | sweeping => cases howner

/-- A pool delivers leases of its own. -/
theorem Turn.pool_of_delivered (turn : system.Turn id event task? next progress)
    (reach : system.Reachable) (hmem : lease ∈ progress.delivered) : lease.owner.pool = id := by
  have howner : progress.slotOwner? = some lease.owner := by
    unfold Progress.delivered at hmem
    split at hmem
    · rw [List.mem_singleton.1 hmem]
      rfl
    · exact absurd hmem List.not_mem_nil
  have hsame := turn.grants.owner_eq _ howner
  have hplace : (next.world.pool id).owner.pool = id :=
    (reach.step? turn.step?).owner_pool (reach.lt_of_step? (turn.lt reach) turn.step?)
  cases htask : task?.bind Task.acquiring? with
  | none =>
      rw [htask, Option.getD_none] at hsame
      rw [hsame, hplace]
  | some owner =>
      rw [htask, Option.getD_some] at hsame
      obtain ⟨task, rfl, hacquiring⟩ := Option.bind_eq_some_iff.1 htask
      rw [hsame, pool_of_acquiring reach turn.mem_before hacquiring, turn.pool_eq]

/-- An event lets an operation take a turn, or it only takes a lease or nothing at all. -/
theorem turn_or_of_step? (hstep : system.step? event = some next) :
    (∃ id task? progress, system.agent? event = some id ∧
      system.Turn id event task? next progress) ∨
    system.agent? event = none ∧ next.tasks = system.tasks ∧
      next.world.held = event.taken?.elim system.world.held system.world.held.erase := by
  cases event with
  | call id call =>
      obtain ⟨result, h, rfl⟩ := Option.map_eq_some_iff.1 hstep
      exact .inl ⟨id, none, _, rfl, .call h⟩
  | reply place reply =>
      obtain ⟨task, htask, h⟩ := Option.bind_eq_some_iff.1 hstep
      obtain ⟨result, hresume, rfl⟩ := Option.map_eq_some_iff.1 h
      exact .inl ⟨_, _, _, by rw [agent?, htask, Option.map_some], .reply htask hresume⟩
  | wake place =>
      obtain ⟨task, htask, h⟩ := Option.bind_eq_some_iff.1 hstep
      obtain ⟨result, hwake, rfl⟩ := Option.map_eq_some_iff.1 h
      exact .inl ⟨_, _, _, by rw [agent?, htask, Option.map_some], .wake htask hwake⟩
  | drop lease =>
      simp only [System.step?, Option.ite_none_right_eq_some] at hstep
      obtain ⟨-, ⟨⟩⟩ := hstep
      exact .inr ⟨rfl, rfl, World.letGo_held⟩
  | fork | advance =>
      cases hstep
      exact .inr ⟨rfl, rfl, rfl⟩

theorem exists_turn (hagent : system.agent? event = some id)
    (hstep : system.step? event = some next) :
    ∃ task? progress, system.Turn id event task? next progress := by
  rcases turn_or_of_step? hstep with ⟨agent, task?, progress, hsome, turn⟩ | ⟨hnone, -⟩
  · obtain rfl := Option.some_inj.1 (hagent.symm.trans hsome)
    exact ⟨task?, progress, turn⟩
  · rw [hagent] at hnone
    cases hnone

def heldFrom (system : System) (id : PoolId) : List Lease :=
  system.world.held.filter fun lease => lease.owner.pool = id

def tasksOn (system : System) (id : PoolId) : List Task :=
  system.tasks.filter fun task => task.pool = id

/-- The event concerns other pools: no operation on the pool goes on, and no lease of it is taken.
-/
structure Spares (id : PoolId) (system : System) (event : Event) : Prop where
  agent : system.agent? event ≠ some id
  taken : ∀ lease, event.taken? = some lease → lease.owner.pool ≠ id

/-- The pool is as it was, and so are its leases and the operations on it. -/
structure Spared (id : PoolId) (system next : System) : Prop where
  pool_eq : next.world.pool id = system.world.pool id
  held_perm : (next.heldFrom id).Perm (system.heldFrom id)
  tasks_perm : (next.tasksOn id).Perm (system.tasksOn id)

theorem step?_pool_of_ne (reach : system.Reachable) (hstep : system.step? event = some next)
    (hagent : system.agent? event ≠ some id) :
    next.world.pool id = system.world.pool id := by
  have hosted := hosted_of_fits (reachable_fits reach)
  have hother : ∀ {agent}, system.agent? event = some agent → id ≠ agent := by
    rintro agent hsome rfl
    exact hagent hsome
  cases step?_passage hosted hstep with
  | moves _ hsome _ hmoves => exact Moves.pool_of_ne hmoves (hother hsome)
  | invalidate hid hscene =>
      have hworld : next.world = system.world.invalidate _ := congrArg Scene.world hscene
      rw [hworld]
      exact World.pool_invalidate_of_ne (hother rfl)
  | @disconnect _ agent hid hmoves =>
      have move : Move agent system.scene ⟨system.world.checkOwner agent, handOf system.tasks⟩ :=
        .refresh hid
      calc next.world.pool id
          = (Scene.tearDown ⟨system.world.checkOwner agent, handOf system.tasks⟩
              agent).world.pool id := Moves.pool_of_ne hmoves (hother rfl)
        _ = (system.world.checkOwner agent).pool id := World.pool_modifyPool_of_ne (hother rfl)
        _ = system.world.pool id := move.pool_of_ne (hother rfl)
  | drop | fork | advance => rw [World.pool_congr (step?_pools_eq hosted hstep rfl)]

/-- The tasks that work on other pools do not count. -/
theorem filter_settle {others : List Task} {result : World × Progress}
    (h : ∀ task, result.2 = .pending task → task.pool ≠ id) :
    (settle others result).tasksOn id = others.filter fun task => task.pool = id := by
  obtain ⟨world, progress⟩ := result
  cases progress with
  | done outcome => rfl
  | pending task => exact List.filter_cons_of_neg (by simpa using h task rfl)

/-- The tasks on a pool are the one that takes a turn and the others. -/
theorem tasksOn_perm {place : Nat} {task : Task} (htask : system.tasks[place]? = some task) :
    (system.tasksOn id).Perm
      ((task :: system.tasks.eraseIdx place).filter fun task => task.pool = id) := by
  obtain ⟨hlt, rfl⟩ := List.getElem?_eq_some_iff.1 htask
  exact (List.getElem_cons_eraseIdx_perm hlt).symm.filter _

theorem tasksOn_settle {others : List Task} {result : World × Progress}
    (h : ∀ task, result.2 = .pending task → task.pool = id) :
    (settle others result).tasksOn id =
      result.2.task?.toList ++ others.filter fun task => task.pool = id := by
  obtain ⟨world, progress⟩ := result
  cases progress with
  | done outcome => rfl
  | pending task => exact List.filter_cons_of_pos (by simpa using h task rfl)

/-- A turn replaces the task that takes it by what is left of the operation. -/
theorem Turn.tasksOn_eq (turn : system.Turn id event task? next progress) : ∃ others,
    (system.tasksOn id).Perm (task?.toList ++ others) ∧
      next.tasksOn id = progress.task?.toList ++ others := by
  have hown := turn.delivers.pool_eq
  cases turn with
  | call h => exact ⟨_, .refl _, tasksOn_settle hown⟩
  | reply htask h | wake htask h =>
      refine ⟨_, (tasksOn_perm htask).trans ?_, tasksOn_settle hown⟩
      rw [List.filter_cons_of_pos (by simp)]
      exact .refl _

/-- A turn that takes no lease adds the one that it delivers. -/
theorem Turn.heldFrom_eq (turn : system.Turn id event task? next progress)
    (reach : system.Reachable) (htaken : event.taken? = none) :
    next.heldFrom id = progress.delivered ++ system.heldFrom id := by
  have hheld := turn.delivers.held_eq
  rw [htaken] at hheld
  have hown : ∀ lease ∈ progress.delivered, decide (lease.owner.pool = id) = true :=
    fun lease hmem => decide_eq_true (turn.pool_of_delivered reach hmem)
  rw [heldFrom, hheld, List.filter_append, List.filter_eq_self.2 hown]
  rfl

theorem Turn.tasksOn_perm_of_ne {agent : PoolId}
    (turn : system.Turn agent event task? next progress) (hne : agent ≠ id) :
    (next.tasksOn id).Perm (system.tasksOn id) := by
  have hothers : ∀ task, progress = .pending task → task.pool ≠ id :=
    fun task htask heq => hne ((turn.delivers.pool_eq task htask).symm.trans heq)
  cases turn with
  | call h => rw [filter_settle hothers, tasksOn]
  | reply htask h | wake htask h =>
      rw [filter_settle hothers]
      refine .symm ((tasksOn_perm htask).trans ?_)
      rw [List.filter_cons_of_neg (by simpa using hne)]

theorem heldFrom_perm_of_taken {lent : List Lease}
    (hheld : next.world.held = lent ++ event.taken?.elim system.world.held system.world.held.erase)
    (hlent : ∀ lease ∈ lent, lease.owner.pool ≠ id)
    (htaken : ∀ lease, event.taken? = some lease → lease.owner.pool ≠ id) :
    (next.heldFrom id).Perm (system.heldFrom id) := by
  have hnone : (lent.filter fun lease => decide (lease.owner.pool = id)) = [] :=
    List.filter_eq_nil_iff.2 fun lease hmem => by simpa using hlent lease hmem
  rw [heldFrom, hheld, List.filter_append, hnone, List.nil_append, heldFrom]
  cases hsome : event.taken? with
  | none => exact .refl _
  | some lease =>
      by_cases hmem : lease ∈ system.world.held
      · refine .symm (((List.perm_cons_erase hmem).filter _).trans ?_)
        rw [List.filter_cons_of_neg (by simpa using htaken lease hsome)]
        exact .refl _
      · rw [Option.elim_some, List.erase_of_not_mem hmem]

/-- What concerns other pools leaves the pool alone. -/
theorem Spares.step? (h : Spares id system event) (reach : system.Reachable)
    (hstep : system.step? event = some next) : Spared id system next := by
  rcases turn_or_of_step? hstep with ⟨agent, task?, progress, hagent, turn⟩ | ⟨-, htasks, hheld⟩
  · have hne : agent ≠ id := by
      rintro rfl
      exact h.agent hagent
    refine ⟨step?_pool_of_ne reach hstep h.agent, ?_, turn.tasksOn_perm_of_ne hne⟩
    refine heldFrom_perm_of_taken turn.delivers.held_eq (fun lease hmem => ?_) h.taken
    rw [turn.pool_of_delivered reach hmem]
    exact hne
  · refine ⟨step?_pool_of_ne reach hstep h.agent, ?_, ?_⟩
    · have hnone : next.world.held = [] ++ event.taken?.elim _ _ := hheld
      exact heldFrom_perm_of_taken hnone nofun h.taken
    · rw [tasksOn, htasks, tasksOn]

/-- The dialogue of an operation that stood at `first` in the state `start`, with all that it asked:
it waits while what may happen meanwhile happens, or it takes a turn. -/
inductive Dialogue (aside : System → Event → Prop) (start : System) (first : Progress) :
    List Event → System → Progress → List Question → Prop where
  | here : Dialogue aside start first [] start first first.question?.toList
  | waits {events middle task event next asked}
      (before : Dialogue aside start first events middle (.pending task) asked)
      (haside : aside middle event) (hstep : middle.step? event = some next)
      (hstays : task ∈ next.tasks) :
      Dialogue aside start first (events ++ [event]) next (.pending task) asked
  | goesOn {events middle task id event next progress asked}
      (before : Dialogue aside start first events middle (.pending task) asked)
      (turn : middle.Turn id event (some task) next progress) :
      Dialogue aside start first (events ++ [event]) next progress
        (asked ++ progress.question?.toList)

theorem Dialogue.run? {aside : System → Event → Prop}
    (dialogue : Dialogue aside start first events final progress asked) :
    start.run? events = some final := by
  induction dialogue with
  | here => rfl
  | waits _ _ hstep _ ih =>
      rw [run?_concat, ih]
      exact hstep
  | goesOn _ turn ih =>
      rw [run?_concat, ih]
      exact turn.step?

end System
end LeasePool
