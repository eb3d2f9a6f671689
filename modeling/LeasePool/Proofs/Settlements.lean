import LeasePool.Proofs.Isolation
import LeasePool.Proofs.Pursuits

/-!
Settlements. A unit of work gives back what it takes of the pool: a lease is released once when the
work on it was done or failed for good, and its resource is closed once and let go when the failure
discards it. A slot that it took is out as long as it has the slot, and no longer; only what another
process issued stays out, and its resource is forgotten.
-/

namespace LeasePool

def Progress.units (progress : Progress) : Multiset Owner :=
  progress.holdings.filterMap Holding.unit?

def Task.units (task : Task) : Multiset Owner := task.holdings.filterMap Holding.unit?

/-- An operation that had the slots `units` and came to `result` took what it has besides, and gave
back what it has no more. -/
def World.Squares (world : World) (units : Multiset Owner) (result : World × Progress) : Prop :=
  result.1.unreturned + units = world.unreturned + result.2.units

namespace World

variable {world middle : World} {id : PoolId} {policy : RetryPolicy} {retries : UInt32}
  {owner : Owner} {purpose : Purpose} {lease : Lease} {units : Multiset Owner}
  {result : World × Progress}

theorem Squares.of_before (h : middle.Squares 0 result)
    (hbefore : middle.unreturned + units = world.unreturned) : world.Squares units result := by
  rw [Squares, add_zero] at h
  rw [Squares, h, add_right_comm, hbefore]

theorem reuse_squares (entry : IdleResource) :
    world.Squares {owner} (world.reuse id owner entry (.attempt policy retries)) := rfl

theorem replace_squares (resource : ResourceId) :
    world.Squares {owner} (world.replace id owner resource purpose) := rfl

theorem takeSlot_squares (slot : Slot) :
    world.Squares 0 (world.takeSlot id slot (.attempt policy retries)) := by
  have htaken : ∀ result : World × Progress,
      (world.afterTake id).Squares {(world.pool id).owner} result → world.Squares 0 result := by
    intro result h
    have hout : (world.afterTake id).unreturned = {(world.pool id).owner} + world.unreturned := rfl
    rw [Squares, hout, add_assoc, add_comm] at h
    rw [Squares, add_zero]
    exact add_left_cancel h
  apply htaken
  cases slot with
  | vacant =>
      rw [takeSlot_vacant]
      rfl
  | idle entry =>
      cases hexpired : (world.pool id).isExpired world.clock entry with
      | true =>
          rw [takeSlot_expired hexpired]
          exact replace_squares entry.resource
      | false =>
          rw [takeSlot_fresh hexpired]
          split
          · rfl
          · exact reuse_squares entry

theorem awaitSlot_squares (patience : Patience) (since : Instant) :
    world.Squares 0 (world.awaitSlot id patience since (.attempt policy retries)) := by
  cases hfree : (world.pool id).free with
  | cons slot rest =>
      rw [awaitSlot_of_free hfree]
      exact takeSlot_squares slot
  | nil =>
      rcases awaitSlot_of_empty hfree with ⟨timeout, hgives⟩ | hwaits
      · rw [hgives]
        rfl
      · rw [hwaits]
        rfl

theorem acquire_squares (patience : Patience) :
    world.Squares 0 (world.acquire id patience (.attempt policy retries)) := by
  have hready : ((world.checkOwner id).modifyPool id Pool.enqueue).unreturned + 0 =
      world.unreturned := (add_zero _).trans unreturned_checkOwner
  exact (awaitSlot_squares patience _).of_before hready

theorem afterDiscard_squares (failure : Failure) :
    world.Squares 0 (world.afterDiscard id (.retry policy retries failure)) := by
  unfold afterDiscard
  dsimp only
  split
  · rfl
  · split
    · exact (acquire_squares _).of_before (add_zero _)
    · rfl

theorem unreturned_noteClose {resource : ResourceId} {failure : Option Failure} :
    (world.noteClose resource failure).unreturned = world.unreturned := by
  cases failure <;> rfl

/-- A slot that is out comes back. -/
theorem unreturned_erase_add (hout : owner ∈ world.unreturned) :
    world.unreturned.erase owner + {owner} = world.unreturned := by
  rw [add_comm, Multiset.singleton_add, Multiset.cons_erase hout]

theorem squares_done {after : World} {outcome : Outcome} (hout : owner ∈ world.unreturned)
    (hback : after.unreturned = world.unreturned.erase owner) :
    world.Squares {owner} (after, .done outcome) := by
  have hnone : (Progress.done outcome).units = 0 := Multiset.filterMap_zero _
  rw [Squares, hnone, hback, unreturned_erase_add hout, add_zero]

/-- The acquisition for an attempt goes on with an answer. -/
theorem resume_squares {task : Task} {reply : Reply}
    (hpurpose : task.purpose? = some (.attempt policy retries)) (hlease : task.lease? = none)
    (hbacked : task.units ≤ world.unreturned)
    (h : world.resume task reply = some result) : world.Squares task.units result := by
  unfold World.resume at h
  split at h <;> cases h <;> try cases hpurpose
  · unfold World.validated
    split
    · exact reuse_squares _
    · exact replace_squares _
  · exact congrArg (· + _) (unreturned_letGo.trans unreturned_noteClose)
  · rfl
  · exact squares_done (Multiset.singleton_le.1 hbacked) rfl
  · cases hlease
  · cases hlease

theorem wake_squares {task : Task} (hpurpose : task.purpose? = some (.attempt policy retries))
    (h : world.wake task = some result) : world.Squares task.units result := by
  unfold World.wake at h
  split at h <;> cases h <;> cases hpurpose
  · exact awaitSlot_squares _ _
  · unfold World.awaitAttempt
    split
    · exact acquire_squares _
    · rfl

theorem release_squares {outcome : Outcome} (hpool : lease.owner.pool = id)
    (hout : lease.owner ∈ world.unreturned) :
    world.Squares {lease.owner} (world.release id lease, .done outcome) := by
  refine squares_done hout ?_
  rw [unreturned_release, if_pos hpool]

/-- A resource was closed, and its slot comes back before the work is tried again. -/
theorem discarded_squares {resource : ResourceId} {failure : Failure}
    (hout : owner ∈ world.unreturned) (closeFailure : Option Failure) :
    world.Squares {owner}
      (world.discarded id owner resource (.retry policy retries failure) closeFailure) := by
  have hback : (world.vacate id owner resource closeFailure).unreturned =
      world.unreturned.erase owner := by
    have hsame : ((world.noteClose resource closeFailure).letGo resource).unreturned =
        world.unreturned := unreturned_letGo.trans unreturned_noteClose
    rw [← hsame]
    rfl
  have hbefore : (world.vacate id owner resource closeFailure).unreturned + {owner} =
      world.unreturned := by
    rw [hback, unreturned_erase_add hout]
  exact (afterDiscard_squares failure).of_before hbefore

/-- A lease of the pool and its process is closed when it is discarded. -/
theorem discard_of_own {sequel : Sequel} (hpool : lease.owner.pool = id)
    (hpid : lease.owner.pid = world.currentPid id) : world.discard id lease sequel =
      (world.note (.discarded (world.kindOf lease.resource)),
        .pending (.discarding id lease.owner lease.resource sequel)) := by
  rw [discard, if_neg (not_not.2 hpid), if_neg (not_not.2 hpool)]

/-- The work failed: its lease is discarded, in its own process, or it is released. -/
theorem broke_squares {failure : Failure} (hpool : lease.owner.pool = id)
    (hout : lease.owner ∈ world.unreturned)
    (hpid : policy.shouldDiscard failure = true → lease.owner.pid = world.currentPid id) :
    world.Squares {lease.owner} (world.broke id lease policy retries failure) := by
  by_cases hdiscard : policy.shouldDiscard failure = true
  · rw [broke_of_discards hdiscard, discard_of_own hpool (hpid hdiscard)]
    rfl
  · rw [broke_of_keeps hdiscard]
    exact release_squares hpool hout

end World

/-- The turn ends an attempt with a failure that discards its resource, in another process than
that of the lease. -/
def Act.Forgoes (act : Act) (policy : RetryPolicy) (id : PoolId) : Prop :=
  ∃ lease retries place failure, act.task? = some (.working id lease policy retries) ∧
    act.event = .reply place (.broke failure) ∧ policy.shouldDiscard failure = true ∧
    lease.owner.pid ≠ act.before.world.currentPid id

/-- The turn ends an attempt, and what becomes of its lease. -/
inductive Act.Returns (act : Act) (policy : RetryPolicy) (id : PoolId) (lease : Lease)
    (retries : UInt32) : Prop where
  /-- The work was done, or its failure does not discard: the pool takes the lease back. -/
  | released (hends : act.progress.task? = none)
      (hkeeps : ∀ place failure, act.event = .reply place (.broke failure) →
        policy.shouldDiscard failure = false)
      (hworld : act.after.world = act.before.world.release id lease)
      (takesBack : ((act.before.world.checkOwner id).pool id).TakesBack lease.owner
        (.idle ⟨lease.resource, lease.createdAt, (act.before.world.checkOwner id).clock⟩)
        (act.after.world.pool id))
  /-- The failure discards: the resource is closed before anything else. -/
  | discarded (place : Nat) (failure : Failure) (hevent : act.event = .reply place (.broke failure))
      (hdiscard : policy.shouldDiscard failure = true)
      (hprogress : act.progress = .pending
        (.discarding id lease.owner lease.resource (.retry policy retries failure)))
      (hworld : act.after.world =
        act.before.world.note (.discarded (act.before.world.kindOf lease.resource)))
  /-- The failure discards in another process: the resource is forgotten. -/
  | forgone (forgoes : act.Forgoes policy id)
      (hforgotten : act.after.world.isForgotten lease.resource = true)

/-- The turn of a unit of work squares the pool's slots, and what is returned is returned once. -/
structure Act.Settles (act : Act) (policy : RetryPolicy) (id : PoolId) : Prop where
  slots : ¬ act.Forgoes policy id → act.before.world.Squares (act.task?.elim 0 Task.units)
    (act.after.world, act.progress)
  held : act.after.world.held = act.before.world.held
  returns : ∀ lease retries, act.task? = some (.working id lease policy retries) →
    act.Returns policy id lease retries
  closes : ∀ owner resource sequel, act.task? = some (.discarding id owner resource sequel) →
    resource ∉ act.before.scene.gripped → act.before.world.destructions resource = 0 ∧
      act.after.world.destructions resource = 1

namespace System

variable {system next : System} {id : PoolId} {event : Event} {task : Task} {progress : Progress}
  {policy : RetryPolicy} {retries : UInt32} {lease : Lease} {attempts : List Attempt}

/-- The slots of a task are out. -/
theorem units_le_unreturned (reach : system.Reachable) (htask : task ∈ system.tasks) :
    task.units ≤ system.world.unreturned := by
  obtain ⟨others, hhand⟩ := handOf_of_mem htask
  refine le_trans ?_ (reachable_accounted reach).backed
  rw [Scene.units, scene, hhand, Multiset.filterMap_add, add_assoc]
  exact Multiset.le_add_right _ _

/-- The work runs on a lease of its pool. -/
theorem pool_of_working (reach : system.Reachable)
    (htask : .working id lease policy retries ∈ system.tasks) : lease.owner.pool = id := by
  have hfits := (reachable_fits reach).hand (.lease id lease.owner lease.resource)
    (mem_handOf.2 ⟨_, htask, Multiset.mem_singleton_self _⟩)
  exact hfits.2.1

/-- A task of a unit of work gives back what it had, and takes what it has after its turn. -/
theorem Turn.squares (turn : system.Turn id event (some task) next progress)
    (reach : system.Reachable) (stands : policy.Stands id attempts (.pending task))
    (hkeeps : ¬ Act.Forgoes ⟨system, some task, event, next, progress⟩ policy id) :
    system.world.Squares task.units (next.world, progress) := by
  have hbacked := units_le_unreturned reach turn.mem_before
  cases stands with
  | @trying _ _ retries before hcount hmax hpurpose =>
      cases hlease : task.lease? with
      | none =>
          rcases turn.resumes_or_wakes with ⟨_, _, result, -, h, hnext, rfl⟩ |
            ⟨_, result, -, h, hnext, rfl⟩
          · rw [hnext]
            exact World.resume_squares hpurpose hlease hbacked h
          · rw [hnext]
            exact World.wake_squares hpurpose h
      | some lease =>
          cases task with
          | working agent lease policy retries =>
              cases hpurpose
              obtain rfl : agent = id := turn.pool_eq
              have hpool := pool_of_working reach turn.mem_before
              have hout : lease.owner ∈ system.world.unreturned := Multiset.singleton_le.1 hbacked
              rcases turn.resumes_or_wakes with ⟨place, reply, result, rfl, h, hnext, rfl⟩ |
                ⟨_, _, _, h, -⟩
              · rw [hnext]
                cases reply with
                | created | notCreated | closed | valid => cases h
                | worked value =>
                    cases h
                    exact World.release_squares hpool hout
                | broke failure =>
                    cases h
                    refine World.broke_squares hpool hout fun hdiscard => ?_
                    by_contra hpid
                    exact hkeeps ⟨lease, retries, place, failure, rfl, rfl, hdiscard, hpid⟩
              · cases h
          | waiting | validating | replacing | creating | discarding | pausing | disconnecting
          | sweeping => cases hlease
  | discarding before hcount hmax hdiscard =>
      rcases turn.resumes_or_wakes with ⟨_, reply, result, -, h, hnext, rfl⟩ | ⟨_, _, _, h, -⟩
      · rw [hnext]
        cases reply with
        | created | notCreated | valid | worked | broke => cases h
        | closed closeFailure =>
            cases h
            exact World.discarded_squares (Multiset.singleton_le.1 hbacked) closeFailure
      · cases h

/-- The call of a unit of work takes what it has after its turn. -/
theorem Turn.squares_call (turn : system.Turn id (.call id (.run policy)) none next progress) :
    system.world.Squares 0 (next.world, progress) := by
  rw [turn.eq_begin]
  exact World.acquire_squares _

/-- The callers' leases are no business of a unit of work. -/
theorem Turn.held_eq (turn : system.Turn id event task? next progress)
    (stands : policy.Stands id attempts progress) (htaken : event.taken? = none) :
    next.world.held = system.world.held := by
  have hheld := turn.delivers.held_eq
  rw [htaken] at hheld
  cases stands with
  | trying | discarding => exact hheld
  | @ended earlier last =>
      cases last with
      | unserved | worked | broke => exact hheld

/-- What an operation has besides the others. -/
theorem scene_of_mem (htask : task ∈ system.tasks) :
    ∃ others, system.scene = ⟨system.world, task.holdings + others⟩ := by
  obtain ⟨others, hhand⟩ := handOf_of_mem htask
  exact ⟨others, by rw [scene, hhand]⟩

/-- A lease of another process is forgotten, whatever the work goes on with. -/
theorem isForgotten_of_forgoes (reach : system.Reachable)
    (htask : .working id lease policy retries ∈ system.tasks)
    (hpid : lease.owner.pid ≠ system.world.currentPid id) (sequel : Sequel) :
    ((system.world.forget lease.resource).afterDiscard id sequel).1.isForgotten lease.resource =
      true := by
  obtain ⟨others, hscene⟩ := scene_of_mem htask
  have fits : Scene.Fits ⟨system.world, .lease id lease.owner lease.resource ::ₘ others⟩ :=
    hscene ▸ reachable_fits reach
  obtain ⟨hid, -, hmade⟩ := fits.hand _ (Multiset.mem_cons_self _ _)
  have forgets : Moves id ⟨system.world, .lease id lease.owner lease.resource ::ₘ others⟩
      ⟨system.world.forget lease.resource, others⟩ := .head .handIn (.single (.disown hpid))
  have hid' : id < (system.world.forget lease.resource).pools.length := hid
  have goesOn : Moves id ⟨system.world.forget lease.resource, others⟩
      (sceneOf ((system.world.forget lease.resource).afterDiscard id sequel) others) :=
    World.afterDiscard_moves hid' sequel
  exact goesOn.isForgotten (forgets.fits fits) (World.isForgotten_forget_self hmade)

/-- The resource of a discarded lease is destroyed when it is closed, unless a teardown grips it. -/
theorem destructions_of_discarded {owner : Owner} {resource : ResourceId} {sequel : Sequel}
    {failure : Option Failure} (reach : system.Reachable)
    (htask : .discarding id owner resource sequel ∈ system.tasks)
    (hgrip : resource ∉ system.scene.gripped) :
    system.world.destructions resource = 0 ∧ .destroyed resource ∈
      (system.world.discarded id owner resource sequel failure).1.journal := by
  have hlast : system.world.holdersOf resource = 1 :=
    holders_of_leased reach htask rfl hgrip
  have kept : World.Kept system.world system.scene.owned system.scene.gripped :=
    reachable_kept reach
  refine ⟨kept.destructions_eq_zero (hlast ▸ Nat.one_pos), ?_⟩
  obtain ⟨others, hscene⟩ := scene_of_mem htask
  have fits : Scene.Fits ⟨system.world, .lease id owner resource ::ₘ others⟩ :=
    hscene ▸ reachable_fits reach
  obtain ⟨hid, -, -⟩ := fits.hand _ (Multiset.mem_cons_self _ _)
  have closes : Moves id ⟨system.world, .lease id owner resource ::ₘ others⟩
      ⟨(system.world.noteClose resource failure).letGo resource, .slot id owner ::ₘ others⟩ := by
    refine .trans (World.noteClose_moves resource failure) (.head .detach ?_)
    rw [Multiset.cons_swap]
    exact .single .letGo
  have hready : id < (system.world.vacate id owner resource failure).pools.length := by
    rwa [World.length_vacate]
  have goesOn : Moves id ⟨(system.world.noteClose resource failure).letGo resource,
      .slot id owner ::ₘ others⟩
      (sceneOf (system.world.discarded id owner resource sequel failure) others) :=
    .head .restore (World.afterDiscard_moves hready sequel)
  exact (lasting_journal (.destroyed resource)).moves goesOn (closes.fits fits)
    (World.destroyed_letGo_noteClose hlast failure)

/-- The work gives its lease back when it ends. -/
theorem Turn.returns (turn : system.Turn id event (some (.working id lease policy retries)) next
    progress) (reach : system.Reachable) :
    Act.Returns ⟨system, some (.working id lease policy retries), event, next, progress⟩ policy id
      lease retries := by
  have hid : id < system.world.pools.length := turn.lt reach
  have hpool := pool_of_working reach turn.mem_before
  have released : ∀ outcome, next.world = system.world.release id lease →
      progress = .done outcome →
      (∀ place failure, event = .reply place (.broke failure) →
        policy.shouldDiscard failure = false) →
      Act.Returns ⟨system, some (.working id lease policy retries), event, next, progress⟩ policy
        id lease retries := by
    intro outcome hnext hprogress hkeeps
    refine .released ?_ hkeeps hnext ?_
    · exact congrArg Progress.task? hprogress
    · rw [hnext]
      exact takesBack_release_of_working reach hid turn.mem_before
  rcases turn.resumes_or_wakes with ⟨place, reply, result, rfl, h, hnext, rfl⟩ | ⟨_, _, _, h, -⟩
  · cases reply with
    | created | notCreated | closed | valid => cases h
    | worked value =>
        cases h
        exact released _ hnext rfl nofun
    | broke failure =>
        cases h
        by_cases hdiscard : policy.shouldDiscard failure = true
        · rw [World.broke_of_discards hdiscard] at hnext ⊢
          by_cases hpid : lease.owner.pid = system.world.currentPid id
          · rw [World.discard_of_own hpool hpid] at hnext ⊢
            exact .discarded place failure rfl hdiscard rfl hnext
          · refine .forgone ⟨lease, retries, place, failure, rfl, rfl, hdiscard, hpid⟩ ?_
            rw [hnext, World.discard, if_pos hpid]
            exact isForgotten_of_forgoes reach turn.mem_before hpid _
        · have hends : (system.world.broke id lease policy retries failure).2 =
              .done (.failed failure) := by
            rw [World.broke_of_keeps hdiscard]
          rw [World.broke_of_keeps hdiscard] at hnext
          refine released _ hnext hends ?_
          rintro _ _ ⟨⟩
          exact Bool.eq_false_iff.2 hdiscard
  · cases h

/-- A discarded resource is destroyed once. -/
theorem Turn.closes {owner : Owner} {resource : ResourceId} {sequel : Sequel}
    (turn : system.Turn id event (some (.discarding id owner resource sequel)) next progress)
    (reach : system.Reachable) (hgrip : resource ∉ system.scene.gripped) :
    system.world.destructions resource = 0 ∧ next.world.destructions resource = 1 := by
  have kept : World.Kept next.world next.scene.owned next.scene.gripped :=
    reachable_kept (reach.step? turn.step?)
  rcases turn.resumes_or_wakes with ⟨place, reply, result, -, h, hnext, -⟩ | ⟨_, _, _, h, -⟩
  · cases reply with
    | created | notCreated | valid | worked | broke => cases h
    | closed failure =>
        cases h
        obtain ⟨hbefore, hgone⟩ := destructions_of_discarded reach turn.mem_before hgrip
        refine ⟨hbefore, kept.destructions_eq_one ?_⟩
        rw [hnext]
        exact hgone
  · cases h

variable {start final : System} {events : List Event} {acts : List Act}
  {aside : System → Event → Prop}

theorem Story.settles (story : Story aside start id (.run policy) events final progress acts)
    (reach : start.Reachable) : ∀ act ∈ acts, act.Settles policy id := by
  intro act hmem
  obtain ⟨⟨_, hafter⟩, hbefore⟩ := story.stands_of_mem reach act hmem
  obtain ⟨hreach, -, turn⟩ := story.turn_of_mem reach act hmem
  obtain ⟨before, task?, event, after, progress⟩ := act
  refine ⟨?_, ?_, ?_, ?_⟩
  · intro hkeeps
    cases task? with
    | none =>
        obtain rfl := story.event_of_mem _ hmem rfl
        exact turn.squares_call
    | some task =>
        obtain ⟨_, hstands⟩ := hbefore task rfl
        exact turn.squares hreach hstands hkeeps
  · refine turn.held_eq hafter ?_
    cases task? with
    | none =>
        obtain rfl := story.event_of_mem _ hmem rfl
        rfl
    | some task =>
        rcases turn.resumes_or_wakes with ⟨_, _, _, rfl, -⟩ | ⟨_, _, rfl, -⟩ <;> rfl
  · rintro lease retries ⟨⟩
    exact turn.returns hreach
  · rintro owner resource sequel ⟨⟩ hgrip
    exact turn.closes hreach hgrip

/-- A unit of work after any story of its call. -/
structure Perseveres (start : System) (id : PoolId) (policy : RetryPolicy) (final : System)
    (progress : Progress) (acts : List Act) : Prop where
  /-- Another attempt is made exactly if the last one calls for it. The last one decides the
  call. -/
  stands : policy.Stands id (attemptsOf id acts) progress
  /-- The calls of the work are those of the attempts, and the one under way. -/
  called : acts.filterMap Act.call? = (attemptsOf id acts).filterMap Attempt.call? ++
    (progress.task?.bind Task.call?).toList
  /-- The n-th call is told that n retries came before it. -/
  numbered : (acts.filterMap Act.call?).map (fun call => call.2.toNat) =
    List.range (acts.filterMap Act.call?).length
  bounded : (acts.filterMap Act.call?).length ≤ policy.maxRetries.toNat + 1
  /-- A failed acquisition fails with what the factory said, or the pool was exhausted. -/
  refused : ∀ failure, .unserved failure ∈ attemptsOf id acts →
    ∃ act ∈ acts, (start.world.pool id).Refuses act.event failure
  /-- The call takes a bounded number of turns, and until it ends there is always a next one. -/
  steps : stepsOf acts ≤ 7 * (policy.maxRetries.toNat + 1)
  goesOn : ∀ task, progress = .pending task → final.CanGoOn id task
  settles : ∀ act ∈ acts, act.Settles policy id

/-- A unit of work that is under way waits for an answer, or for an instant that comes. -/
theorem canGoOn_of_pursues {pool : Pool} {steps : Nat} (system : System)
    (h : Pursues policy id pool events attempts steps (.pending task))
    (hpool : task.pool = id) : system.CanGoOn id task := by
  refine canGoOn_of_isSome system hpool ?_
  cases task with
  | waiting agent patience since purpose =>
      obtain rfl : patience = .within pool.acquireTimeout := h.patience _ rfl patience rfl
      exact .inr rfl
  | pausing => exact .inr rfl
  | validating | replacing | creating | working | discarding | disconnecting | sweeping =>
      exact .inl rfl

theorem Story.perseveres (story : Story aside start id (.run policy) events final progress acts)
    (reach : start.Reachable) : Perseveres start id policy final progress acts := by
  have pursues := story.pursues reach
  obtain ⟨hnumbered, hbounded⟩ := pursues.calls_numbered story.calls_eq
  refine ⟨pursues.stands, story.calls_eq, hnumbered, hbounded, ?_, pursues.steps_le, ?_,
    story.settles reach⟩
  · intro failure hmem
    obtain ⟨event, hevent, hrefuses⟩ := pursues.refused failure hmem
    obtain ⟨act, hact, rfl⟩ := List.mem_map.1 hevent
    exact ⟨act, hact, hrefuses⟩
  · rintro task rfl
    exact canGoOn_of_pursues final pursues (story.pool_eq task rfl)

/-- The retry loop of a unit of work, whatever its pool has been through and whatever happens
between its turns. It can be called and does not stop before its call ends; it calls the work once
for each attempt that had a resource, retries exactly after the failures that the policy retries,
comes to what its last attempt came to, and returns every lease once. -/
theorem run_perseveres (reach : start.Reachable) (hid : id < start.world.pools.length)
    (policy : RetryPolicy) :
    (∃ next progress, start.Turn id (.call id (.run policy)) none next progress) ∧
    ∀ events final progress acts,
      Story (fun _ _ => True) start id (.run policy) events final progress acts →
        Perseveres start id policy final progress acts := by
  constructor
  · exact ⟨_, _, turn_of_call (.run policy) hid rfl⟩
  · intro events final progress acts story
    exact story.perseveres reach

/-- A pool with one slot, which is lent: the work has to wait for it. -/
theorem run_perseveres_all_lent : ∃ system,
    (init [7] [(0, Config.ofSize 1)]).run? [.call 0 (.acquire none), .reply 0 (.created "db")] =
        some system ∧
      (∃ next progress, system.Turn 0 (.call 0 (.run .usual)) none next progress) ∧
      ∀ events final progress acts,
        Story (fun _ _ => True) system 0 (.run .usual) events final progress acts →
          Perseveres system 0 .usual final progress acts := by
  refine exists_run? rfl fun system hrun => ?_
  have hid : 0 < system.world.pools.length := by
    cases hrun
    decide
  exact run_perseveres ⟨_, _, _, hrun⟩ hid .usual

end System
end LeasePool
