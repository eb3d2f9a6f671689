import LeasePool.Proofs.Dialogues
import LeasePool.Proofs.Taking
import LeasePool.Proofs.Teardown

/-!
Stories. The story of a call lists the turns that it took, each with the states before and after it.
Between the turns other things happen; which of them may is a parameter. A call that waits can go on
with any answer to what it asked, or by itself from the instant on that it waits for.
-/

namespace LeasePool

def Question.admits : Question → Reply → Bool
  | .create _, .created _ | .create _, .notCreated _ => true
  | .close .., .closed _ => true
  | .isValid .., .valid _ => true
  | .work .., .worked _ | .work .., .broke _ => true
  | _, _ => false

/-- A task goes on with every answer to its question. -/
theorem World.exists_resume {task : Task} {question : Question} {reply : Reply} (world : World)
    (hasks : task.question? = some question) (hadmits : question.admits reply = true) :
    ∃ result, world.resume task reply = some result := by
  cases task with
  | waiting | pausing => cases hasks
  | validating =>
      cases hasks
      cases reply with
      | valid => exact ⟨_, rfl⟩
      | created | notCreated | closed | worked | broke => cases hadmits
  | creating =>
      cases hasks
      cases reply with
      | created | notCreated => exact ⟨_, rfl⟩
      | closed | valid | worked | broke => cases hadmits
  | working =>
      cases hasks
      cases reply with
      | worked | broke => exact ⟨_, rfl⟩
      | created | notCreated | closed | valid => cases hadmits
  | replacing | discarding | disconnecting | sweeping =>
      cases hasks
      cases reply with
      | closed => exact ⟨_, rfl⟩
      | created | notCreated | valid | worked | broke => cases hadmits

/-- Without a free slot an acquisition gives up when its patience has ended. -/
theorem World.awaitSlot_of_past {world : World} {id : PoolId} {timeout : Duration} {since : Instant}
    {purpose : Purpose} (hfree : (world.pool id).free = [])
    (hpast : since + timeout ≤ world.clock) :
    world.awaitSlot id (.within timeout) since purpose = world.exhaust id timeout := by
  unfold awaitSlot
  rw [hfree]
  exact if_pos hpast

/-- A turn that an operation took: the state in which it was taken, the task that took it unless it
was the call itself, the event, the state after it, and where the operation stood then. -/
structure Act where
  before : System
  task? : Option Task
  event : Event
  after : System
  progress : Progress

/-- The operation waited for a slot or for time, and it still does. -/
def Act.idles (act : Act) : Bool :=
  match act.task?, act.progress with
  | some (.waiting ..), .pending (.waiting ..) => true
  | some (.pausing ..), .pending (.pausing ..) => true
  | _, _ => false

namespace System

variable {system next final start : System} {id : PoolId} {event : Event} {events : List Event}
  {task : Task} {progress : Progress} {call : Call} {acts : List Act}
  {aside : System → Event → Prop}

/-- The story of a call that was made of the pool `id` in the state `start`: its call begins, it
waits while what may happen meanwhile happens, or it takes a turn. -/
inductive Story (aside : System → Event → Prop) (start : System) (id : PoolId) (call : Call) :
    List Event → System → Progress → List Act → Prop where
  | begins {next : System} {progress : Progress}
      (turn : start.Turn id (.call id call) none next progress) :
      Story aside start id call [.call id call] next progress
        [⟨start, none, .call id call, next, progress⟩]
  | waits {events middle task event next acts}
      (before : Story aside start id call events middle (.pending task) acts)
      (haside : aside middle event) (hstep : middle.step? event = some next)
      (hstays : task ∈ next.tasks) :
      Story aside start id call (events ++ [event]) next (.pending task) acts
  | goesOn {events middle task event next progress acts}
      (before : Story aside start id call events middle (.pending task) acts)
      (turn : middle.Turn id event (some task) next progress) :
      Story aside start id call (events ++ [event]) next progress
        (acts ++ [⟨middle, some task, event, next, progress⟩])

namespace Story

theorem run? (story : Story aside start id call events final progress acts) :
    start.run? events = some final := by
  induction story with
  | begins turn =>
      rw [run?_cons turn.step?]
      rfl
  | waits _ _ hstep _ ih =>
      rw [run?_concat, ih]
      exact hstep
  | goesOn _ turn ih =>
      rw [run?_concat, ih]
      exact turn.step?

theorem reachable (story : Story aside start id call events final progress acts)
    (reach : start.Reachable) : final.Reachable :=
  reach.run? story.run?

/-- The pool of a story is there from the start. -/
theorem lt_start (story : Story aside start id call events final progress acts)
    (reach : start.Reachable) : id < start.world.pools.length := by
  induction story with
  | begins turn => exact turn.lt reach
  | waits _ _ _ _ ih | goesOn _ _ ih => exact ih

theorem lt (story : Story aside start id call events final progress acts)
    (reach : start.Reachable) : id < final.world.pools.length :=
  reach.lt_of_run? (story.lt_start reach) story.run?

/-- What is left of the call is under way. -/
theorem mem_tasks (story : Story aside start id call events final (.pending task) acts) :
    task ∈ final.tasks := by
  cases story with
  | begins turn | goesOn _ turn => exact turn.mem_tasks
  | waits _ _ _ hstays => exact hstays

theorem pool_eq (story : Story aside start id call events final progress acts) :
    ∀ task, progress = .pending task → task.pool = id := by
  induction story with
  | begins turn => exact turn.delivers.pool_eq
  | waits _ _ _ _ ih => exact ih
  | goesOn _ turn => exact turn.delivers.pool_eq

/-- All that a story lists are turns of its call. -/
theorem turn_of_mem (story : Story aside start id call events final progress acts)
    (reach : start.Reachable) : ∀ act ∈ acts, act.before.Reachable ∧
      id < act.before.world.pools.length ∧
      act.before.Turn id act.event act.task? act.after act.progress := by
  induction story with
  | begins turn =>
      intro act hmem
      obtain rfl := List.mem_singleton.1 hmem
      exact ⟨reach, turn.lt reach, turn⟩
  | waits _ _ _ _ ih => exact ih
  | goesOn before turn ih =>
      intro act hmem
      rcases List.mem_append.1 hmem with hold | hnew
      · exact ih act hold
      · obtain rfl := List.mem_singleton.1 hnew
        exact ⟨before.reachable reach, before.lt reach, turn⟩

/-- The call of a story is the turn that no task took. -/
theorem event_of_mem (story : Story aside start id call events final progress acts) :
    ∀ act ∈ acts, act.task? = none → act.event = .call id call := by
  induction story with
  | begins turn =>
      intro act hmem _
      obtain rfl := List.mem_singleton.1 hmem
      rfl
  | waits _ _ _ _ ih => exact ih
  | goesOn _ _ ih =>
      intro act hmem hnone
      rcases List.mem_append.1 hmem with hold | hnew
      · exact ih act hold hnone
      · obtain rfl := List.mem_singleton.1 hnew
        cases hnone

end Story

/-- A call begins with its turn. -/
theorem Turn.eq_begin (turn : system.Turn id (.call id call) none next progress) :
    (next.world, progress) = system.world.begin id call := by
  cases turn with
  | call h => rw [World.eq_begin_of_call h, world_settle]

/-- A task takes a turn when it gets an answer or wakes. -/
theorem Turn.resumes_or_wakes (turn : system.Turn id event (some task) next progress) :
    (∃ place reply result, event = .reply place reply ∧
        system.world.resume task reply = some result ∧ next.world = result.1 ∧
        progress = result.2) ∨
      ∃ place result, event = .wake place ∧ system.world.wake task = some result ∧
        next.world = result.1 ∧ progress = result.2 := by
  cases turn with
  | reply _ h => exact .inl ⟨_, _, _, rfl, h, world_settle _ _, rfl⟩
  | wake _ h => exact .inr ⟨_, _, rfl, h, world_settle _ _, rfl⟩

/-- How a task goes on: with every answer to its question, or by itself from an instant on. -/
inductive CanGoOn (system : System) (id : PoolId) (task : Task) : Prop where
  | answered (question : Question) (hasks : task.question? = some question)
      (hturn : ∀ place reply, system.tasks[place]? = some task → question.admits reply = true →
        ∃ next progress, system.Turn id (.reply place reply) (some task) next progress)
  | due (instant : Instant) (hdue : task.due? = some instant)
      (hturn : ∀ place, system.tasks[place]? = some task → instant ≤ system.world.clock →
        ∃ next progress, system.Turn id (.wake place) (some task) next progress ∧
          Act.idles ⟨system, some task, .wake place, next, progress⟩ = false)

theorem canGoOn_of_question? {question : Question} (hasks : task.question? = some question) :
    system.CanGoOn task.pool task := by
  refine .answered question hasks fun place reply htask hadmits => ?_
  obtain ⟨result, hresume⟩ := system.world.exists_resume hasks hadmits
  exact ⟨_, _, .reply htask hresume⟩

section Wakes

variable {world : World} {patience : Patience} {since : Instant} {purpose : Purpose} {slot : Slot}

/-- An acquisition that takes a slot waits no longer. -/
theorem idles_takeSlot :
    Act.idles ⟨system, some task, event, next, (world.takeSlot id slot purpose).2⟩ = false := by
  have hsome : (world.takeSlot id slot purpose).2.slotOwner?.isSome = true :=
    World.slotOwner?_takeSlot slot
  cases hprogress : (world.takeSlot id slot purpose).2 with
  | done => cases task <;> rfl
  | pending left =>
      rw [hprogress] at hsome
      cases left with
      | waiting | pausing => cases hsome
      | validating | replacing | creating | working | discarding | disconnecting | sweeping =>
          cases task <;> rfl

/-- An acquisition whose patience has ended waits no longer. -/
theorem idles_awaitSlot {instant : Instant} (hdue : patience.deadline? since = some instant)
    (hreached : instant ≤ world.clock) :
    Act.idles ⟨system, some task, event, next, (world.awaitSlot id patience since purpose).2⟩ =
      false := by
  cases hfree : (world.pool id).free with
  | cons slot rest =>
      rw [World.awaitSlot_of_free hfree]
      exact idles_takeSlot
  | nil =>
      cases patience with
      | forever => cases hdue
      | within timeout =>
          cases hdue
          rw [World.awaitSlot_of_past hfree hreached]
          cases task <;> rfl

/-- An acquisition that begins does not wait for a time to begin at. -/
theorem idles_acquire {due : Instant} {policy : RetryPolicy} {retries : UInt32} :
    Act.idles ⟨system, some (.pausing id due policy retries), event, next,
      (world.acquire id patience purpose).2⟩ = false := by
  unfold World.acquire
  generalize (world.checkOwner id).modifyPool id Pool.enqueue = world
  dsimp only
  cases hfree : (world.pool id).free with
  | cons slot rest =>
      rw [World.awaitSlot_of_free hfree]
      exact idles_takeSlot
  | nil =>
      rcases World.awaitSlot_of_empty hfree with ⟨timeout, hgives⟩ | hwaits
      · rw [hgives]
        rfl
      · rw [hwaits]
        rfl

end Wakes

theorem canGoOn_of_due? {instant : Instant} (hdue : task.due? = some instant) :
    system.CanGoOn task.pool task := by
  refine .due instant hdue fun place htask hreached => ?_
  cases task with
  | waiting pool patience since purpose =>
      exact ⟨_, _, .wake htask rfl, idles_awaitSlot hdue hreached⟩
  | pausing pool due policy retries =>
      cases hdue
      refine ⟨_, _, .wake htask rfl, ?_⟩
      rw [World.awaitAttempt, if_pos hreached]
      exact idles_acquire
  | validating | replacing | creating | working | discarding | disconnecting | sweeping =>
      cases hdue

theorem canGoOn_of_isSome (system : System) (hpool : task.pool = id)
    (hwaits : task.question?.isSome = true ∨ task.due?.isSome = true) : system.CanGoOn id task := by
  subst hpool
  rcases hwaits with hasks | hdue
  · obtain ⟨question, hasks⟩ := Option.isSome_iff_exists.1 hasks
    exact canGoOn_of_question? hasks
  · obtain ⟨instant, hdue⟩ := Option.isSome_iff_exists.1 hdue
    exact canGoOn_of_due? hdue

end System
end LeasePool
