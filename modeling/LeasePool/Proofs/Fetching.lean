import LeasePool.Proofs.Exactness
import LeasePool.Proofs.Retries

/-!
Fetching. Nothing but the top slot, the clock and what the factory answers decides how an
acquisition ends that has its pool for itself: it lends the idle resource there if it is of use, and
else it has a new one made in its place.
-/

namespace LeasePool

/-- What a factory answers, whatever it was asked to close before: whether it makes a resource, and
which resources it finds valid. -/
structure Factory where
  creation : Except Failure String
  isValid : ResourceId → Bool

/-- The answer of a factory to a question; a close it may answer as it likes. -/
def Factory.answer? (factory : Factory) : Question → Option Reply
  | .create _ => some (factory.creation.casesOn .notCreated .created)
  | .isValid _ resource => some (.valid (factory.isValid resource))
  | .close .. | .work .. => none

/-- The factory gave the answer that was taken in the turn, if it was asked. -/
def Factory.Answers (factory : Factory) (act : Act) : Prop :=
  ∀ question answer place reply, act.task?.bind Task.question? = some question →
    factory.answer? question = some answer → act.event = .reply place reply → reply = answer

def Question.closes? : Question → Option ResourceId
  | .close _ resource => some resource
  | _ => none

/-- The resource that is to be closed at the end of the turn. -/
def Act.closes? (act : Act) : Option ResourceId := act.question?.bind Question.closes?

/-- An acquisition with the slot lends the idle resource in it again. -/
def Pool.fits (pool : Pool) (factory : Factory) (now : Instant) : Slot → Bool
  | .vacant => false
  | .idle entry => !pool.isExpired now entry &&
      (!pool.config.testOnCheckout || factory.isValid entry.resource)

namespace System

/-- Nothing happens to the pool, and no time passes unless `waits`. -/
structure Meanwhile (id : PoolId) (waits : Prop) (system : System) (event : Event) : Prop where
  alone : LeavesAlone id system event
  still : ∀ time, event = .advance time → waits

section Stories

variable {system next start final : System} {id : PoolId} {event : Event} {events : List Event}
  {call : Call} {progress : Progress} {acts : List Act} {aside other : System → Event → Prop}
  {waits : Prop}

theorem Story.mono (story : Story aside start id call events final progress acts)
    (h : ∀ system event, aside system event → other system event) :
    Story other start id call events final progress acts := by
  induction story with
  | begins turn => exact .begins turn
  | waits before haside hstep hstays ih => exact .waits ih (h _ _ haside) hstep hstays
  | goesOn before turn ih => exact .goesOn ih turn

/-- A pool that knows its process when a call begins knows it when the call ends. -/
theorem Story.noted (story : Story (LeavesAlone id) start id call events final progress acts)
    (reach : start.Reachable) (hplain : call.IsPlain)
    (hnoted : (start.world.pool id).notedPid = start.world.currentPid id) :
    (final.world.pool id).notedPid = final.world.currentPid id := by
  have hid : id < start.world.pools.length := story.lt_start reach
  induction story with
  | begins turn =>
      have hcall : ∀ pool made, Event.call id call = .call pool made → made.IsPlain := by
        rintro _ _ ⟨⟩
        exact hplain
      exact (turn.steady reach hid hnoted hcall).2
  | waits before alone hstep hstays ih => exact alone.noted (before.reachable reach) hstep ih
  | @goesOn events middle task event next progress acts before turn ih =>
      have hcall : ∀ pool made, event = .call pool made → made.IsPlain := by
        rcases turn.resumes_or_wakes with ⟨_, _, _, rfl, -⟩ | ⟨_, _, rfl, -⟩
        · rintro _ _ ⟨⟩
        · rintro _ _ ⟨⟩
      exact (turn.steady (before.reachable reach) (before.lt reach) ih hcall).2

/-- Only the passing of time moves the clock. -/
theorem step?_clock (reach : system.Reachable) (hstep : system.step? event = some next)
    (hstill : ∀ time, event ≠ .advance time) : next.world.clock = system.world.clock := by
  rcases turn_or_of_step? hstep with ⟨agent, task?, progress, -, turn⟩ | ⟨hagent, -⟩
  · exact turn.stows.clock_eq
  · cases step?_passage (hosted_of_fits (reachable_fits reach)) hstep with
    | moves _ hsome =>
        rw [hsome] at hagent
        cases hagent
    | invalidate | disconnect => cases hagent
    | drop _ hscene =>
        have hworld : next.world = system.world.dropLease _ := congrArg Scene.world hscene
        rw [hworld]
        exact World.letGo_clock
    | fork _ hscene => exact congrArg (fun scene => scene.world.clock) hscene
    | advance => exact absurd rfl (hstill _)

theorem Story.clock_eq (story : Story (Meanwhile id waits) start id call events final progress acts)
    (reach : start.Reachable) (hwaits : ¬ waits) : final.world.clock = start.world.clock := by
  induction story with
  | begins turn => exact turn.stows.clock_eq
  | waits before aside hstep hstays ih =>
      rw [← ih]
      exact step?_clock (before.reachable reach) hstep fun time htime =>
        hwaits (aside.still time htime)
  | goesOn before turn ih => exact turn.stows.clock_eq.trans ih

end Stories

end System

/-- Where an acquisition stands that was called when its pool was `pool` and `count` resources had
been made, with what it asked to close. -/
inductive Fetches (id : PoolId) (factory : Factory) (pool : Pool) (now : Instant)
    (limit : Patience) (count : Nat) (world : World) : List ResourceId → Progress → Prop where
  | waiting (hfree : pool.free = []) (hpool : world.pool id = pool.enqueue) :
      Fetches id factory pool now limit count world [] (.pending (.waiting id limit now .lend))
  | validating {entry rest} (hfree : pool.free = .idle entry :: rest)
      (hpool : world.pool id = pool.draw) (hfresh : pool.isExpired now entry = false)
      (htested : pool.config.testOnCheckout = true) :
      Fetches id factory pool now limit count world []
        (.pending (.validating id pool.owner entry .lend))
  | replacing {entry rest} (hfree : pool.free = .idle entry :: rest)
      (hpool : world.pool id = pool.draw)
      (hunfit : pool.fits factory now (.idle entry) = false) :
      Fetches id factory pool now limit count world [entry.resource]
        (.pending (.replacing id pool.owner entry.resource .lend))
  | creating {slot rest} (hfree : pool.free = slot :: rest) (hpool : world.pool id = pool.draw)
      (hunfit : pool.fits factory now slot = false) :
      Fetches id factory pool now limit count world (slot.idle?.toList.map (·.resource))
        (.pending (.creating id pool.owner .lend))
  | exhausted {timeout} (hfree : pool.free = []) (hlimit : limit = .within timeout)
      (hpool : world.pool id = { pool with timeouts := pool.timeouts + 1 }) :
      Fetches id factory pool now limit count world []
        (.done (.failed (.poolExhausted pool.maxSize timeout)))
  | reused {entry rest} (hfree : pool.free = .idle entry :: rest)
      (hpool : world.pool id = pool.draw) (hfits : pool.fits factory now (.idle entry) = true) :
      Fetches id factory pool now limit count world []
        (.done (.lent ⟨entry.resource, pool.owner, entry.createdAt⟩))
  | made {slot rest kind resource registry} (hfree : pool.free = slot :: rest)
      (hunfit : pool.fits factory now slot = false) (hmakes : factory.creation = .ok kind)
      (hnew : count ≤ resource) (hkind : world.kindOf resource = kind)
      (hpool : world.pool id =
        { pool.draw with created := pool.created + 1, registry := registry }) :
      Fetches id factory pool now limit count world (slot.idle?.toList.map (·.resource))
        (.done (.lent ⟨resource, pool.owner, now⟩))
  | notMade {slot rest failure} (hfree : pool.free = slot :: rest)
      (hunfit : pool.fits factory now slot = false) (hfails : factory.creation = .error failure)
      (hpool : world.pool id = { pool with
        creationFailures := pool.creationFailures + 1, free := .vacant :: rest }) :
      Fetches id factory pool now limit count world (slot.idle?.toList.map (·.resource))
        (.done (.failed failure))

section Fetches

variable {id : PoolId} {factory : Factory} {pool : Pool} {now : Instant} {limit : Patience}
  {count : Nat} {world after : World} {closed : List ResourceId} {task : Task} {slot : Slot}
  {rest : List Slot}

/-- While an acquisition waits, only its pool matters. -/
theorem Fetches.of_pool_eq
    (h : Fetches id factory pool now limit count world closed (.pending task))
    (hpool : after.pool id = world.pool id) :
    Fetches id factory pool now limit count after closed (.pending task) := by
  cases h with
  | waiting hfree hsame => exact .waiting hfree (hpool.trans hsame)
  | validating hfree hsame hfresh htested =>
      exact .validating hfree (hpool.trans hsame) hfresh htested
  | replacing hfree hsame hunfit => exact .replacing hfree (hpool.trans hsame) hunfit
  | creating hfree hsame hunfit => exact .creating hfree (hpool.trans hsame) hunfit

/-- Without a free slot an acquisition waits, or it has given up. -/
theorem Fetches.of_acquires {acts : List Act} {asked : List Question} {told : List Failure}
    {progress : Progress} (h : Acquires id pool now limit acts world asked told progress)
    (hfree : pool.free = []) :
    Fetches id factory pool now limit count world (asked.filterMap Question.closes?) progress := by
  cases h with
  | waiting hfree hpool => exact .waiting hfree hpool
  | exhausted hfree hlimit hpast hpool => exact .exhausted hfree hlimit hpool
  | validating hsome | replacing hsome | creating hsome | lent hsome | notCreated hsome =>
      cases hfree.symm.trans hsome

/-- An acquisition of a pool with a free slot takes it. -/
theorem World.takeSlot_fetches (hid : id < world.pools.length) (hfree : pool.free = slot :: rest)
    (hpool : world.pool id = pool.enqueue) (hclock : world.clock = now) :
    Fetches id factory pool now limit count (world.takeSlot id slot .lend).1
      ((world.takeSlot id slot .lend).2.question?.bind Question.closes?).toList
      (world.takeSlot id slot .lend).2 := by
  have hafter : (world.afterTake id).pool id = pool.draw := by
    rw [← Pool.take_enqueue, ← hpool]
    exact World.pool_modifyPool_self hid
  have howner : (world.pool id).owner = pool.owner := by
    rw [hpool]
    rfl
  cases slot with
  | vacant =>
      rw [takeSlot_vacant, howner]
      exact .creating hfree hafter rfl
  | idle entry =>
      have hsame : (world.pool id).isExpired world.clock entry = pool.isExpired now entry := by
        rw [hpool, hclock]
        rfl
      cases hexpired : pool.isExpired now entry with
      | true =>
          rw [takeSlot_expired (hsame.trans hexpired), howner]
          refine .replacing hfree hafter ?_
          rw [Pool.fits, hexpired]
          rfl
      | false =>
          rw [takeSlot_fresh (hsame.trans hexpired), howner, hpool]
          cases htested : pool.config.testOnCheckout with
          | true =>
              have htested' : pool.enqueue.config.testOnCheckout = true := htested
              rw [if_pos htested']
              exact .validating hfree hafter hexpired htested
          | false =>
              have huntested : pool.enqueue.config.testOnCheckout = false := htested
              rw [huntested, if_neg Bool.false_ne_true]
              refine .reused hfree ?_ ?_
              · rw [pool_congr (reuse_pools entry)]
                exact hafter
              · rw [Pool.fits, hexpired, htested]
                rfl

theorem World.kindOf_created {owner : Owner} {kind : String} :
    (world.created id owner .lend kind).1.kindOf world.resources.length = kind := by
  have hmade : (world.created id owner .lend kind).1.resources[world.resources.length]? =
      some ⟨kind, owner, 1, false⟩ := getElem?_addResource.trans (if_pos rfl)
  rw [kindOf, hmade]

namespace System

variable {system next start final : System} {event : Event} {events : List Event}
  {progress : Progress} {acts : List Act}

/-- An acquisition that has a slot goes on. -/
theorem Turn.fetches (turn : system.Turn id event (some task) next progress)
    (reach : system.Reachable)
    (hanswers : factory.Answers ⟨system, some task, event, next, progress⟩)
    (hslots : pool.slots ≤ pool.maxSize) (hsome : pool.free = slot :: rest)
    (hclock : system.world.clock = now) (hcount : count ≤ system.world.resources.length)
    (h : Fetches id factory pool now limit count system.world closed (.pending task)) :
    Fetches id factory pool now limit count next.world
      (closed ++ (progress.question?.bind Question.closes?).toList) progress := by
  have hid : id < system.world.pools.length := turn.lt reach
  rcases turn.resumes_or_wakes with ⟨place, reply, result, rfl, hresume, hnext, rfl⟩ |
    ⟨place, result, rfl, hwake, hnext, rfl⟩
  · cases h with
    | waiting hfree => cases hsome.symm.trans hfree
    | @validating entry rest hfree hpool hfresh htested =>
        obtain rfl := hanswers _ _ _ _ rfl rfl rfl
        cases hresume
        have hfits : pool.fits factory now (.idle entry) = factory.isValid entry.resource := by
          rw [Pool.fits, hfresh, htested]
          rfl
        rw [hnext]
        unfold World.validated
        split
        · next hvalid =>
          refine .reused hfree ?_ (hfits.trans hvalid)
          rw [World.pool_congr (World.reuse_pools entry)]
          exact hpool
        · next hinvalid =>
          exact .replacing hfree hpool (hfits.trans (Bool.eq_false_of_not_eq_true hinvalid))
    | @replacing entry rest hfree hpool hunfit =>
        cases reply with
        | created | notCreated | valid | worked | broke => cases hresume
        | closed failure =>
            cases hresume
            refine .creating hfree ?_ hunfit
            rw [hnext, World.replaced, World.pool_congr World.letGo_pools,
              World.pool_congr World.noteClose_pools]
            exact hpool
    | @creating slot rest hfree hpool hunfit =>
        obtain rfl := hanswers _ _ _ _ rfl rfl rfl
        cases hcreation : factory.creation with
        | ok kind =>
            rw [hcreation] at hresume
            cases hresume
            obtain ⟨alive, hmade⟩ := World.pool_created pool.owner .lend kind hid
            have hlent : (system.world.created id pool.owner .lend kind).2 =
                .done (.lent ⟨system.world.resources.length, pool.owner, now⟩) := by
              rw [← hclock]
              rfl
            have hafter : next.world.pool id = { pool.draw with
                created := pool.created + 1
                registry := pool.registry.filter alive ++ [system.world.resources.length] } := by
              rw [hnext, hmade, hpool, Pool.enroll]
              exact if_pos rfl
            have hkind : next.world.kindOf system.world.resources.length = kind := by
              rw [hnext]
              exact World.kindOf_created
            rw [hlent, Progress.question?, Option.bind_none, Option.toList_none, List.append_nil]
            exact .made hfree hunfit hcreation hcount hkind hafter
        | error failure =>
            rw [hcreation] at hresume
            cases hresume
            have hcounted : pool.countFailure.free = slot :: rest := hfree
            have hback : next.world.pool id = { pool with
                creationFailures := pool.creationFailures + 1, free := .vacant :: rest } := by
              rw [hnext, World.pool_notCreated hid, hpool]
              exact @Pool.restoreVacant_draw pool.countFailure slot rest hslots hcounted
            have hfails : (system.world.notCreated id pool.owner failure).2 =
                .done (.failed failure) := rfl
            rw [hfails, Progress.question?, Option.bind_none, Option.toList_none, List.append_nil]
            exact .notMade hfree hunfit hcreation hback
  · cases h with
    | waiting hfree => cases hsome.symm.trans hfree
    | validating | replacing | creating => cases hwake

/-- The call of an acquisition. -/
theorem fetches_of_begin (hid : id < start.world.pools.length)
    (hnoted : (start.world.pool id).notedPid = start.world.currentPid id)
    (hsome : (start.world.pool id).free = slot :: rest) (patience : Patience) :
    Fetches id factory (start.world.pool id) start.world.clock limit count
      (start.world.acquire id patience .lend).1
      ((start.world.acquire id patience .lend).2.question?.bind Question.closes?).toList
      (start.world.acquire id patience .lend).2 := by
  have hpool : (start.world.modifyPool id Pool.enqueue).pool id = (start.world.pool id).enqueue :=
    World.pool_modifyPool_self hid
  have hfree : ((start.world.modifyPool id Pool.enqueue).pool id).free = slot :: rest := by
    rw [hpool]
    exact hsome
  have hid' : id < (start.world.modifyPool id Pool.enqueue).pools.length := by
    rwa [World.length_modifyPool]
  rw [World.acquire_of_noted hnoted, World.awaitSlot_of_free hfree]
  exact World.takeSlot_fetches hid' hsome hpool rfl

theorem Story.fetches {patience : Option Patience} {waits : Prop}
    (story : Story (Meanwhile id waits) start id (.acquire patience) events final progress acts)
    (reach : start.Reachable)
    (hnoted : (start.world.pool id).notedPid = start.world.currentPid id)
    (hwaits : waits → (start.world.pool id).free = [])
    (hanswers : ∀ act ∈ acts, factory.Answers act) :
    Fetches id factory (start.world.pool id) start.world.clock
      (patience.getD (start.world.usualPatience id)) start.world.resources.length final.world
      (acts.filterMap Act.closes?) progress := by
  have hid : id < start.world.pools.length := story.lt_start reach
  have hslots : (start.world.pool id).slots ≤ (start.world.pool id).maxSize :=
    (reach.balanced hid).slots_le
  cases hfree : (start.world.pool id).free with
  | nil =>
      have hspares : Story (Spares id) start id (.acquire patience) events final progress acts :=
        story.mono fun _ _ aside => aside.alone.spares
      have hclosed : (acts.filterMap Act.question?).filterMap Question.closes? =
          acts.filterMap Act.closes? := List.filterMap_filterMap
      rw [← hclosed]
      exact .of_acquires (hspares.acquires reach hnoted) hfree
  | cons slot rest =>
      have hstill : ¬ waits := fun h => List.cons_ne_nil slot rest (hfree.symm.trans (hwaits h))
      induction story with
      | begins turn =>
          obtain ⟨hnext, rfl⟩ := Prod.mk.inj turn.eq_begin
          rw [hnext, filterMap_singleton]
          exact fetches_of_begin hid hnoted hfree _
      | waits before aside hstep hstays ih =>
          have spared := aside.alone.spares.step? (before.reachable reach) hstep
          exact (ih hanswers).of_pool_eq spared.pool_eq
      | @goesOn events middle task event next progress acts before turn ih =>
          rw [filterMap_concat]
          refine turn.fetches (before.reachable reach) (hanswers _ List.mem_concat_self) hslots
            hfree (before.clock_eq reach hstill) (length_resources_le reach before.run?) ?_
          exact ih fun act hmem => hanswers act (List.mem_append_left _ hmem)

end System

end Fetches

/-- How many answers a sweep, or an acquisition for its caller, has yet to get at most. -/
def Task.answers : Task → Nat
  | .validating _ _ _ .lend => 3
  | .replacing _ _ _ .lend => 2
  | .creating _ _ .lend => 1
  | .sweeping _ _ rest _ => rest.length + 1
  | _ => 0

/-- A factory has an answer to every question. -/
theorem Factory.exists_reply (factory : Factory) (question : Question) :
    ∃ reply, question.admits reply = true ∧
      ∀ answer, factory.answer? question = some answer → reply = answer := by
  cases question with
  | create =>
      have hadmits : ∀ id, (Question.create id).admits
          (factory.creation.casesOn .notCreated .created) = true := by
        intro id
        cases factory.creation with
        | ok | error => rfl
      exact ⟨_, hadmits _, fun _ h => Option.some_inj.1 h⟩
  | isValid _ resource => exact ⟨_, rfl, fun _ h => Option.some_inj.1 h⟩
  | close => exact ⟨.closed none, rfl, nofun⟩
  | work => exact ⟨.worked .null, rfl, nofun⟩

/-- A turn without an answer agrees with every factory. -/
theorem Factory.answers_of_none {factory : Factory} {act : Act}
    (hnone : act.task?.bind Task.question? = none) : factory.Answers act := by
  intro _ _ _ _ hasked
  cases hnone.symm.trans hasked

theorem World.answers_of_resume {world : World} {task left : Task} {reply : Reply}
    {result : World × Progress} (h : world.resume task reply = some result)
    (hpos : 0 < task.answers) (hleft : result.2 = .pending left) :
    0 < left.answers ∧ left.answers < task.answers := by
  cases task with
  | waiting | working | discarding | pausing | disconnecting => cases hpos
  | validating id owner entry purpose =>
      cases purpose with
      | attempt => cases hpos
      | lend =>
          cases reply with
          | created | notCreated | closed | worked | broke => cases h
          | valid isValid =>
              cases h
              cases isValid with
              | true => cases hleft
              | false =>
                  cases hleft
                  exact ⟨Nat.succ_pos _, Nat.lt_succ_self _⟩
  | replacing id owner resource purpose =>
      cases purpose with
      | attempt => cases hpos
      | lend =>
          cases reply with
          | created | notCreated | valid | worked | broke => cases h
          | closed failure =>
              cases h
              cases hleft
              exact ⟨Nat.succ_pos _, Nat.lt_succ_self _⟩
  | creating id owner purpose =>
      cases purpose with
      | attempt => cases hpos
      | lend =>
          cases reply with
          | closed | valid | worked | broke => cases h
          | created | notCreated =>
              cases h
              cases hleft
  | sweeping id resource rest taken =>
      cases reply with
      | created | notCreated | valid | worked | broke => cases h
      | closed failure =>
          cases h
          cases rest with
          | nil => cases hleft
          | cons next rest =>
              cases hleft
              exact ⟨Nat.succ_pos _, Nat.lt_succ_self _⟩

namespace System

variable {start final : System} {id : PoolId} {events : List Event} {task : Task} {call : Call}
  {acts : List Act} {factory : Factory} {aside : System → Event → Prop}

/-- A task that asks for something can get the answer of a factory. -/
theorem Story.answered (story : Story aside start id call events final (.pending task) acts)
    (hasks : task.question?.isSome = true) (factory : Factory) :
    ∃ event next act reply result, final.world.resume task reply = some result ∧
      factory.Answers act ∧
      Story aside start id call (events ++ [event]) next result.2 (acts ++ [act]) := by
  obtain ⟨question, hasks⟩ := Option.isSome_iff_exists.1 hasks
  obtain ⟨reply, hadmits, hreply⟩ := factory.exists_reply question
  obtain ⟨result, hresume⟩ := final.world.exists_resume hasks hadmits
  obtain ⟨place, hplace⟩ := List.mem_iff_getElem?.1 story.mem_tasks
  obtain rfl := story.pool_eq task rfl
  refine ⟨_, _, _, reply, result, hresume, ?_, story.goesOn (.reply hplace hresume)⟩
  intro asked answer _ _ hasked hanswer hevent
  cases hasks.symm.trans hasked
  cases hevent
  exact hreply answer hanswer

/-- A sweep, or an acquisition for its caller that has a slot, can be answered until it ends. -/
theorem Story.exists_end (story : Story aside start id call events final (.pending task) acts)
    (hpos : 0 < task.answers) (hanswers : ∀ act ∈ acts, factory.Answers act) :
    ∃ events final outcome acts, Story aside start id call events final (.done outcome) acts ∧
      ∀ act ∈ acts, factory.Answers act := by
  -- An answer leaves less to be answered, so the induction is on how much that is.
  induction hbound : task.answers using Nat.strong_induction_on
    generalizing task events final acts with
  | _ bound ih =>
      subst hbound
      have hasks : task.question?.isSome = true := by
        cases task with
        | waiting | pausing => cases hpos
        | validating | replacing | creating | working | discarding | disconnecting | sweeping => rfl
      obtain ⟨event, next, act, reply, result, hresume, hanswer, longer⟩ :=
        story.answered hasks factory
      have hall : ∀ other ∈ acts ++ [act], factory.Answers other :=
        List.forall_mem_append.2 ⟨hanswers, List.forall_mem_singleton.2 hanswer⟩
      cases hresult : result.2 with
      | done outcome =>
          rw [hresult] at longer
          exact ⟨_, _, outcome, _, longer, hall⟩
      | pending left =>
          rw [hresult] at longer
          obtain ⟨hmore, hless⟩ := World.answers_of_resume hresume hpos hresult
          exact ih _ hless longer hmore hall rfl

theorem exists_story {progress : Progress} {next : System}
    (turn : start.Turn id (.call id call) none next progress)
    (hpos : ∀ task, progress = .pending task → 0 < task.answers) :
    ∃ events final outcome acts, Story aside start id call events final (.done outcome) acts ∧
      ∀ act ∈ acts, factory.Answers act := by
  have hall : ∀ act ∈ [⟨start, none, .call id call, next, progress⟩], factory.Answers act :=
    List.forall_mem_singleton.2 (Factory.answers_of_none rfl)
  cases progress with
  | done outcome => exact ⟨_, _, outcome, _, .begins turn, hall⟩
  | pending task => exact (Story.begins turn).exists_end (hpos task rfl) hall

/-- A sweep can be answered until it ends. -/
theorem exists_sweep {takes : IdleResource → Bool} (hid : id < start.world.pools.length)
    (hcall : call.takes? ((start.world.checkOwner id).pool id) start.world.clock = some takes) :
    ∃ events final outcome acts, Story aside start id call events final (.done outcome) acts ∧
      ∀ act ∈ acts, factory.Answers act := by
  have turn : start.Turn id (.call id call) none _ _ :=
    turn_of_call call hid (Call.lease?_of_takes? hcall)
  refine exists_story turn ?_
  rw [World.begin_of_takes? hcall]
  generalize ((start.world.checkOwner id).pool id).selected takes = taken
  intro task htask
  cases taken with
  | nil => cases htask
  | cons resource rest =>
      cases htask
      exact Nat.succ_pos _

/-- An acquisition that finds a slot can be answered until it ends. -/
theorem exists_fetch_of_free {slot : Slot} {rest : List Slot} {patience : Option Patience}
    (hid : id < start.world.pools.length)
    (hnoted : (start.world.pool id).notedPid = start.world.currentPid id)
    (hfree : (start.world.pool id).free = slot :: rest) :
    ∃ events final outcome acts,
      Story aside start id (.acquire patience) events final (.done outcome) acts ∧
        ∀ act ∈ acts, factory.Answers act := by
  have turn : start.Turn id (.call id (.acquire patience)) none _ _ :=
    turn_of_call (.acquire patience) hid rfl
  refine exists_story turn fun task htask => ?_
  obtain ⟨-, takes⟩ := World.acquire_takes hid hnoted hfree
    (patience.getD (start.world.usualPatience id)) .lend
  have hprogress : (start.world.acquire id (patience.getD (start.world.usualPatience id))
      .lend).2 = .pending task := htask
  rw [hprogress] at takes
  cases takes with
  | vacant | expired | checked => exact Nat.succ_pos _

/-- The passing of time leaves a pool alone. -/
theorem meanwhile_advance {waits : Prop} (hwaits : waits) (time : Duration) :
    Meanwhile id waits start (.advance time) := by
  refine ⟨⟨⟨?_, ?_⟩, ?_⟩, fun _ _ => hwaits⟩
  · rintro ⟨⟩
  · rintro _ ⟨⟩
  · rintro _ _ ⟨⟩

/-- An acquisition that finds none gives up when its patience has ended. -/
theorem exists_fetch_of_full {patience : Option Patience} {timeout : Duration} {waits : Prop}
    (reach : start.Reachable) (hid : id < start.world.pools.length)
    (hnoted : (start.world.pool id).notedPid = start.world.currentPid id)
    (hfree : (start.world.pool id).free = []) (hwaits : waits)
    (hlimit : patience.getD (start.world.usualPatience id) = .within timeout) :
    ∃ events final outcome acts,
      Story (Meanwhile id waits) start id (.acquire patience) events final (.done outcome) acts ∧
        ∀ act ∈ acts, factory.Answers act := by
  obtain ⟨next, progress, turn⟩ : ∃ next progress,
      start.Turn id (.call id (.acquire patience)) none next progress :=
    ⟨_, _, turn_of_call (.acquire patience) hid rfl⟩
  have begun : Story (Spares id) start id (.acquire patience) _ next progress _ := .begins turn
  have acquires := begun.acquires reach hnoted
  rw [hlimit, filterMap_singleton, filterMap_singleton] at acquires
  generalize Option.toList _ = asked at acquires
  generalize Option.toList _ = told at acquires
  have hcall : ∀ act ∈ [⟨start, none, .call id (.acquire patience), next, progress⟩],
      factory.Answers act := List.forall_mem_singleton.2 (Factory.answers_of_none rfl)
  cases acquires with
  | lent hsome | notCreated hsome | validating hsome | replacing hsome | creating hsome =>
      cases hfree.symm.trans hsome
  | exhausted => exact ⟨_, _, _, _, .begins turn, hcall⟩
  | waiting _ hpool =>
      obtain ⟨place, hplace⟩ := List.mem_iff_getElem?.1 turn.mem_tasks
      let later : System := ⟨next.world.advance timeout, next.tasks⟩
      have waited : Story (Meanwhile id waits) start id (.acquire patience) _ later _ _ :=
        .waits (.begins turn) (meanwhile_advance hwaits timeout) rfl turn.mem_tasks
      have hempty : (later.world.pool id).free = [] := (congrArg Pool.free hpool).trans hfree
      have hpast : start.world.clock + timeout ≤ later.world.clock := by
        have hclock : next.world.clock = start.world.clock := turn.stows.clock_eq
        exact (congrArg (· + timeout) hclock).ge
      have hgives : later.world.wake (.waiting id (.within timeout) start.world.clock .lend) =
          some (later.world.exhaust id timeout) :=
        congrArg some (World.awaitSlot_of_past hempty hpast)
      have hthere : later.tasks[place]? = some
          (.waiting id (.within timeout) start.world.clock .lend) := hplace
      have wakes : later.Turn id (.wake place) _ _ _ := .wake hthere hgives
      exact ⟨_, _, _, _, waited.goesOn wakes, List.forall_mem_append.2
        ⟨hcall, List.forall_mem_singleton.2 (Factory.answers_of_none rfl)⟩⟩

/-- An acquisition can come to its end, unless it waits for ever. -/
theorem exists_fetch {patience : Option Patience} {waits : Prop} (reach : start.Reachable)
    (hid : id < start.world.pools.length)
    (hnoted : (start.world.pool id).notedPid = start.world.currentPid id)
    (hwaits : (start.world.pool id).free = [] → waits)
    (hends : patience.getD (start.world.usualPatience id) ≠ .forever ∨
      (start.world.pool id).free ≠ []) :
    ∃ events final outcome acts,
      Story (Meanwhile id waits) start id (.acquire patience) events final (.done outcome) acts ∧
        ∀ act ∈ acts, factory.Answers act := by
  cases hfree : (start.world.pool id).free with
  | cons slot rest => exact exists_fetch_of_free hid hnoted hfree
  | nil =>
      have hlimit := hends.resolve_right (not_not.2 hfree)
      cases hpatience : patience.getD (start.world.usualPatience id) with
      | forever => exact absurd hpatience hlimit
      | within timeout =>
          exact exists_fetch_of_full reach hid hnoted hfree (hwaits hfree) hpatience

end System

end LeasePool
