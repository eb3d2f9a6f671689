import LeasePool.Proofs.Demand
import LeasePool.Proofs.Refusals

/-!
Retries. A unit of work takes the top slot of the free list and gives back that one: what lies below
it is neither taken nor moved, however often the work is tried again. Every attempt but the first
runs on a resource that was made for it.
-/

namespace LeasePool

/-- How the slot of an attempt comes back at `now`, if the attempt is the last one. -/
def Attempt.leaves (attempt : Attempt) (policy : RetryPolicy) (now : Instant) : Slot :=
  match attempt with
  | .unserved _ => .vacant
  | .worked lease _ _ => .idle (lease.asIdle now)
  | .broke lease _ failure =>
      if policy.shouldDiscard failure then .vacant else .idle (lease.asIdle now)

/-- The pool `pool` is as `base`, but for its free slots, and `out` slots more are out. -/
structure Pool.Differs (base : Pool) (free : List Slot) (out : Nat) (pool : Pool) : Prop where
  free_eq : pool.free = free
  leased_eq : pool.leased = base.leased + out
  stale_eq : pool.staleLeased = base.staleLeased
  owner_eq : pool.owner = base.owner

def Act.Makes (act : Act) (lease : Lease) : Prop :=
  ∃ task, act.task? = some task ∧ act.before.Makes task act.event lease

/-- Where a unit of work stands that has one slot of the pool `base` or has given it back, on top of
`rest`, after some attempts. Only its first attempt takes an idle resource. -/
inductive Keeps (id : PoolId) (policy : RetryPolicy) (base : Pool) (rest : List Slot)
    (acts : List Act) (world : World) : List Attempt → Progress → Prop where
  | validating {attempts entry} (differs : base.Differs rest 1 (world.pool id)) :
      Keeps id policy base rest acts world attempts
        (.pending (.validating id base.owner entry (.attempt policy 0)))
  | replacing {attempts resource} (differs : base.Differs rest 1 (world.pool id)) :
      Keeps id policy base rest acts world attempts
        (.pending (.replacing id base.owner resource (.attempt policy 0)))
  | creating {attempts retries} (differs : base.Differs rest 1 (world.pool id)) :
      Keeps id policy base rest acts world attempts
        (.pending (.creating id base.owner (.attempt policy retries)))
  | working {attempts lease retries} (howner : lease.owner = base.owner)
      (hfresh : retries ≠ 0 → ∃ act ∈ acts, act.Makes lease)
      (differs : base.Differs rest 1 (world.pool id)) :
      Keeps id policy base rest acts world attempts (.pending (.working id lease policy retries))
  | discarding {earlier lease retries failure} (howner : lease.owner = base.owner)
      (hdiscard : policy.shouldDiscard failure = true)
      (differs : base.Differs rest 1 (world.pool id)) :
      Keeps id policy base rest acts world (earlier ++ [.broke lease retries failure])
        (.pending (.discarding id lease.owner lease.resource (.retry policy retries failure)))
  | pausing {attempts due retries} (differs : base.Differs (.vacant :: rest) 0 (world.pool id)) :
      Keeps id policy base rest acts world attempts (.pending (.pausing id due policy retries))
  | ended {earlier last}
      (hfailed : ∀ failure, last = .unserved failure →
        ∃ act ∈ acts, ∃ place, act.event = .reply place (.notCreated failure))
      (differs : base.Differs (last.leaves policy world.clock :: rest) 0 (world.pool id)) :
      Keeps id policy base rest acts world (earlier ++ [last]) (.done last.outcome)

section Keeps

variable {id : PoolId} {policy : RetryPolicy} {base pool after : Pool} {slot : Slot}
  {rest : List Slot} {acts : List Act} {world next : World} {attempts : List Attempt}
  {task : Task}

theorem Pool.Differs.draw (h : base.Differs (slot :: rest) 0 pool) :
    base.Differs rest 1 pool.draw := by
  refine ⟨?_, ?_, h.stale_eq, h.owner_eq⟩
  · rw [Pool.draw, h.free_eq, List.tail_cons]
  · rw [Pool.draw, h.leased_eq]

/-- The slot comes back on top. -/
theorem Pool.Differs.takesBack (h : base.Differs rest 1 pool)
    (takes : pool.TakesBack base.owner slot after) (howner : after.owner = pool.owner) :
    base.Differs (slot :: rest) 0 after := by
  obtain ⟨-, -, hfree, hleased, hstale⟩ := takes.current h.owner_eq.symm
  refine ⟨?_, ?_, hstale.trans h.stale_eq, howner.trans h.owner_eq⟩
  · rw [hfree, h.free_eq]
  · rw [hleased, h.leased_eq, Nat.add_sub_cancel, Nat.add_zero]

theorem Pool.Differs.enroll (h : base.Differs rest 1 pool) (owner : Owner)
    (alive : ResourceId → Bool) (resource : ResourceId) :
    base.Differs rest 1 (pool.enroll owner alive resource) := by
  unfold Pool.enroll
  dsimp only
  split <;> exact ⟨h.free_eq, h.leased_eq, h.stale_eq, h.owner_eq⟩

/-- While a unit of work waits, only its pool matters. -/
theorem Keeps.of_pool_eq (h : Keeps id policy base rest acts world attempts (.pending task))
    (hpool : next.pool id = world.pool id) :
    Keeps id policy base rest acts next attempts (.pending task) := by
  cases h with
  | validating differs => exact .validating (hpool ▸ differs)
  | replacing differs => exact .replacing (hpool ▸ differs)
  | creating differs => exact .creating (hpool ▸ differs)
  | working howner hfresh differs => exact .working howner hfresh (hpool ▸ differs)
  | discarding howner hdiscard differs => exact .discarding howner hdiscard (hpool ▸ differs)
  | pausing differs => exact .pausing (hpool ▸ differs)

end Keeps

namespace World

variable {world : World} {id : PoolId} {policy : RetryPolicy} {base : Pool} {slot : Slot}
  {rest : List Slot} {acts : List Act} {attempts : List Attempt} {retries : UInt32}

/-- The acquisition for the first attempt takes the top slot. -/
theorem acquire_keeps (hid : id < world.pools.length)
    (hnoted : (world.pool id).notedPid = world.currentPid id)
    (differs : base.Differs (slot :: rest) 0 (world.pool id)) (patience : Patience) :
    Keeps id policy base rest acts (world.acquire id patience (.attempt policy 0)).1 attempts
      (world.acquire id patience (.attempt policy 0)).2 := by
  obtain ⟨hpool, takes⟩ := acquire_takes hid hnoted differs.free_eq patience (.attempt policy 0)
  have hdrawn := differs.draw
  rw [← hpool] at hdrawn
  generalize (world.acquire id patience (.attempt policy 0)).2 = progress at takes
  cases takes with
  | vacant =>
      rw [differs.owner_eq]
      exact .creating hdrawn
  | expired entry =>
      rw [differs.owner_eq]
      exact .replacing hdrawn
  | checked entry =>
      rw [differs.owner_eq]
      exact .validating hdrawn
  | reused entry => exact .working differs.owner_eq (fun hne => absurd rfl hne) hdrawn

/-- The acquisition for a later attempt finds the slot vacant and makes a resource. -/
theorem acquire_again_keeps (hid : id < world.pools.length)
    (hnoted : (world.pool id).notedPid = world.currentPid id)
    (differs : base.Differs (.vacant :: rest) 0 (world.pool id)) (patience : Patience) :
    ∃ after task, world.acquire id patience (.attempt policy retries) = (after, .pending task) ∧
      ∀ acts attempts, Keeps id policy base rest acts after attempts (.pending task) := by
  obtain ⟨hpool, takes⟩ :=
    acquire_takes hid hnoted differs.free_eq patience (.attempt policy retries)
  have hdrawn := differs.draw
  rw [← hpool] at hdrawn
  generalize world.acquire id patience (.attempt policy retries) = result at takes hdrawn ⊢
  obtain ⟨after, progress⟩ := result
  cases takes with
  | vacant =>
      refine ⟨after, _, rfl, fun acts attempts => ?_⟩
      rw [differs.owner_eq]
      exact .creating hdrawn

/-- After a discard the last attempt decides the call, or another one follows. -/
theorem afterDiscard_keeps (hid : id < world.pools.length)
    (hnoted : (world.pool id).notedPid = world.currentPid id)
    (differs : base.Differs (.vacant :: rest) 0 (world.pool id)) (failure : Failure) :
    world.afterDiscard id (.retry policy retries failure) = (world, .done (.failed failure)) ∨
      ∃ after task,
        world.afterDiscard id (.retry policy retries failure) = (after, .pending task) ∧
        ∀ acts attempts, Keeps id policy base rest acts after attempts (.pending task) := by
  unfold afterDiscard
  dsimp only
  split
  · exact .inl rfl
  · split
    · exact .inr (acquire_again_keeps (by exact hid) (by exact hnoted) (by exact differs) _)
    · exact .inr ⟨_, _, rfl, fun acts attempts => .pausing differs⟩

/-- The pool still knows its process when a slot came back. -/
theorem noted_vacate (hid : id < world.pools.length)
    (hnoted : (world.pool id).notedPid = world.currentPid id) (owner : Owner)
    (resource : ResourceId) (failure : Option Failure) :
    ((world.vacate id owner resource failure).pool id).notedPid =
      (world.vacate id owner resource failure).currentPid id := by
  have hpids : (world.vacate id owner resource failure).pids = world.pids := by
    change ((world.noteClose resource failure).letGo resource).pids = world.pids
    rw [letGo_pids]
    cases failure <;> rfl
  obtain ⟨free, leased, stale, hpool⟩ := (world.pool id).restoreVacant_eq owner
  have hsame : (world.vacate id owner resource failure).pool id = _ :=
    (pool_vacate hid owner resource failure).trans hpool
  have hprocess : ((world.vacate id owner resource failure).pool id).process =
      (world.pool id).process := by
    rw [hsame]
  rw [currentPid_congr hpids hprocess, hsame]
  exact hnoted

end World

namespace System

variable {system next start final : System} {id : PoolId} {event : Event} {events : List Event}
  {task : Task} {progress : Progress} {policy : RetryPolicy} {base : Pool} {slot : Slot}
  {rest : List Slot} {acts : List Act} {attempts : List Attempt} {lease : Lease}
  {retries : UInt32}

/-- The lease of an attempt comes back on top. -/
theorem differs_release (reach : system.Reachable) (hid : id < system.world.pools.length)
    (hnoted : (system.world.pool id).notedPid = system.world.currentPid id)
    (htask : .working id lease policy retries ∈ system.tasks) (howner : lease.owner = base.owner)
    (differs : base.Differs rest 1 (system.world.pool id)) :
    base.Differs (.idle (lease.asIdle system.world.clock) :: rest) 0
      ((system.world.release id lease).pool id) := by
  have hsame : system.world.checkOwner id = system.world := World.checkOwner_of_eq hnoted.symm
  have htakes := takesBack_release_of_working reach hid htask
  rw [hsame, howner] at htakes
  refine differs.takesBack htakes ?_
  obtain ⟨free, leased, stale, hpool⟩ := @World.pool_release_eq system.world id lease hid
  rw [hpool, hsame]

/-- The slot of a discarded resource comes back on top. -/
theorem differs_vacate {owner : Owner} {resource : ResourceId} {sequel : Sequel}
    (reach : system.Reachable) (hid : id < system.world.pools.length)
    (htask : .discarding id owner resource sequel ∈ system.tasks) (howner : owner = base.owner)
    (differs : base.Differs rest 1 (system.world.pool id)) (failure : Option Failure) :
    base.Differs (.vacant :: rest) 0 ((system.world.vacate id owner resource failure).pool id) := by
  subst howner
  refine differs.takesBack (takesBack_discarded reach hid htask failure) ?_
  obtain ⟨free, leased, stale, hpool⟩ := (system.world.pool id).restoreVacant_eq base.owner
  rw [World.pool_vacate hid, hpool]

/-- The work ends its attempt. -/
theorem Turn.keeps_of_working
    (turn : system.Turn id event (some (.working id lease policy retries)) next progress)
    (reach : system.Reachable)
    (hnoted : (system.world.pool id).notedPid = system.world.currentPid id)
    (howner : lease.owner = base.owner) (differs : base.Differs rest 1 (system.world.pool id)) :
    let act : Act := ⟨system, some (.working id lease policy retries), event, next, progress⟩
    Keeps id policy base rest (acts ++ [act]) next.world (attempts ++ act.attempts id)
      progress := by
  intro act
  have hid : id < system.world.pools.length := turn.lt reach
  have hmem := turn.mem_before
  have hreleased : next.world = system.world.release id lease →
      base.Differs (.idle (lease.asIdle next.world.clock) :: rest) 0 (next.world.pool id) := by
    intro hnext
    have hclock : next.world.clock = system.world.clock := turn.stows.clock_eq
    rw [hclock, hnext]
    exact differs_release reach hid hnoted hmem howner differs
  rcases turn.resumes_or_wakes with
    ⟨place, reply, result, rfl, h, hnext, rfl⟩ | ⟨_, _, _, h, -⟩
  · cases reply with
    | created | notCreated | closed | valid => cases h
    | worked value =>
        cases h
        have hattempts : act.attempts id = [.worked lease retries value] := rfl
        have hlast : base.Differs ((Attempt.worked lease retries value).leaves policy
            next.world.clock :: rest) 0 (next.world.pool id) := hreleased hnext
        rw [hattempts]
        exact .ended nofun hlast
    | broke failure =>
        cases h
        have htried : act.tried? = some (.broke lease retries failure) := rfl
        by_cases hdiscard : policy.shouldDiscard failure = true
        · have hpid : lease.owner.pid = system.world.currentPid id := by
            rw [howner, ← differs.owner_eq, ← hnoted]
            exact ((reachable_fits reach).pools.pool hid).pid_eq.symm
          have hcloses : system.world.broke id lease policy retries failure = _ :=
            (World.broke_of_discards hdiscard).trans
              (World.discard_of_own (pool_of_working reach hmem) hpid)
          have hkept : base.Differs rest 1 (next.world.pool id) := by
            rw [hnext, hcloses]
            exact differs
          have hserved : act.refused? id = none :=
            Act.refused?_of_pending (congrArg Prod.snd hcloses)
          rw [Act.attempts_of_served hserved, htried, Option.toList_some, hcloses]
          exact .discarding howner hdiscard hkept
        · have hends : system.world.broke id lease policy retries failure = _ :=
            World.broke_of_keeps hdiscard
          have hlast : base.Differs ((Attempt.broke lease retries failure).leaves policy
              next.world.clock :: rest) 0 (next.world.pool id) := by
            rw [Attempt.leaves, if_neg hdiscard]
            exact hreleased (hnext.trans (congrArg Prod.fst hends))
          have hserved : act.refused? id = none := by
            refine Act.refused?_of_unrefused ?_
            change (system.world.pool id).Unrefused (next.world.pool id)
            rw [hnext, hends]
            exact World.unrefused_release hid
          rw [Act.attempts_of_served hserved, htried, Option.toList_some, hends]
          exact .ended nofun hlast
  · cases h

/-- The factory failed to make a resource for an attempt. -/
theorem Turn.keeps_of_notCreated {place : Nat} {failure : Failure}
    (turn : system.Turn id (.reply place (.notCreated failure))
      (some (.creating id base.owner (.attempt policy retries))) next (.done (.failed failure)))
    (reach : system.Reachable) (hnext : next.world =
      (system.world.notCreated id base.owner failure).1)
    (differs : base.Differs rest 1 (system.world.pool id)) :
    let act : Act := ⟨system, some (.creating id base.owner (.attempt policy retries)),
      .reply place (.notCreated failure), next, .done (.failed failure)⟩
    Keeps id policy base rest (acts ++ [act]) next.world (attempts ++ act.attempts id)
      (.done (.failed failure)) := by
  intro act
  have hid : id < system.world.pools.length := turn.lt reach
  have hrefused : act.refused? id = some failure := by
    refine Act.refused?_of_succ rfl ?_
    change (next.world.pool id).refusals = (system.world.pool id).refusals + 1
    rw [hnext]
    exact World.refusals_notCreated hid failure
  have hattempts : act.attempts id = [.unserved failure] := by
    rw [Act.attempts_of_not_tried? rfl, hrefused, Option.toList_some, List.map_singleton]
  have howner : (next.world.pool id).owner = (system.world.pool id).owner := by
    obtain ⟨free, leased, stale, hpool⟩ :=
      (system.world.pool id).countFailure.restoreVacant_eq base.owner
    rw [hnext, World.pool_notCreated hid, hpool]
    rfl
  have htakes := takesBack_notCreated reach hid turn.mem_before failure
  rw [← hnext] at htakes
  have hlast : base.Differs ((Attempt.unserved failure).leaves policy next.world.clock :: rest) 0
      (next.world.pool id) := differs.takesBack htakes howner
  rw [hattempts]
  refine .ended ?_ hlast
  rintro _ ⟨⟩
  exact ⟨act, List.mem_concat_self, place, rfl⟩

/-- A discarded resource was closed. -/
theorem Turn.keeps_of_discarding {earlier : List Attempt} {failure : Failure}
    (turn : system.Turn id event (some (.discarding id lease.owner lease.resource
      (.retry policy retries failure))) next progress)
    (reach : system.Reachable)
    (hnoted : (system.world.pool id).notedPid = system.world.currentPid id)
    (howner : lease.owner = base.owner) (hdiscard : policy.shouldDiscard failure = true)
    (differs : base.Differs rest 1 (system.world.pool id)) :
    let act : Act := ⟨system, some (.discarding id lease.owner lease.resource
      (.retry policy retries failure)), event, next, progress⟩
    Keeps id policy base rest (acts ++ [act]) next.world
      (earlier ++ [.broke lease retries failure] ++ act.attempts id) progress := by
  intro act
  have hid : id < system.world.pools.length := turn.lt reach
  rcases turn.resumes_or_wakes with
    ⟨place, reply, result, rfl, h, hnext, rfl⟩ | ⟨_, _, _, h, -⟩
  · cases reply with
    | created | notCreated | valid | worked | broke => cases h
    | closed closeFailure =>
        cases h
        have htried : act.tried? = none := rfl
        have hready : id < (system.world.vacate id lease.owner lease.resource
            closeFailure).pools.length := by
          rwa [World.length_vacate]
        have hstill := World.noted_vacate hid hnoted lease.owner lease.resource closeFailure
        have hback := differs_vacate reach hid turn.mem_before howner differs closeFailure
        have hresult : system.world.discarded id lease.owner lease.resource
            (.retry policy retries failure) closeFailure = (system.world.vacate id lease.owner
              lease.resource closeFailure).afterDiscard id (.retry policy retries failure) := rfl
        rw [hresult] at hnext ⊢
        rcases World.afterDiscard_keeps hready hstill hback failure with
          hends | ⟨after, task, hgoes, keeps⟩
        · rw [hends] at hnext ⊢
          have hserved : act.refused? id = none := by
            refine Act.refused?_of_unrefused ?_
            change (system.world.pool id).Unrefused (next.world.pool id)
            rw [hnext, World.pool_vacate hid]
            exact .restoreVacant lease.owner
          have hlast : base.Differs ((Attempt.broke lease retries failure).leaves policy
              next.world.clock :: rest) 0 (next.world.pool id) := by
            rw [Attempt.leaves, if_pos hdiscard, hnext]
            exact hback
          rw [Act.attempts_of_served hserved, htried, Option.toList_none, List.append_nil]
          exact .ended nofun hlast
        · have hserved : act.refused? id = none :=
            Act.refused?_of_pending (congrArg Prod.snd hgoes)
          rw [hgoes] at hnext ⊢
          rw [Act.attempts_of_served hserved, htried, Option.toList_none, List.append_nil, hnext]
          exact keeps _ _
  · cases h

/-- The factory made a resource for an attempt. -/
theorem Turn.keeps_of_created {place : Nat} {kind : String}
    (turn : system.Turn id (.reply place (.created kind))
      (some (.creating id base.owner (.attempt policy retries))) next
      (.pending (.working id lease policy retries)))
    (reach : system.Reachable) (howner : lease.owner = base.owner)
    (hnext : next.world = (system.world.created id base.owner (.attempt policy retries) kind).1)
    (differs : base.Differs rest 1 (system.world.pool id)) :
    let act : Act := ⟨system, some (.creating id base.owner (.attempt policy retries)),
      .reply place (.created kind), next, .pending (.working id lease policy retries)⟩
    Keeps id policy base rest (acts ++ [act]) next.world attempts
      (.pending (.working id lease policy retries)) := by
  intro act
  have hmakes : act.Makes lease := by
    rcases turn.accepts_or_makes reach rfl rfl with
      ⟨_, _, _, _, _, htask, -⟩ | ⟨hmakes, -⟩
    · cases htask
    · exact ⟨_, rfl, hmakes⟩
  refine .working howner (fun _ => ⟨act, List.mem_concat_self, hmakes⟩) ?_
  obtain ⟨alive, hpool⟩ := World.pool_created base.owner (.attempt policy retries) kind
    (turn.lt reach)
  rw [hnext, hpool]
  exact differs.enroll base.owner alive system.world.resources.length

/-- A turn of a unit of work leaves all slots below the top one where they are. -/
theorem Turn.keeps (turn : system.Turn id event (some task) next progress)
    (reach : system.Reachable)
    (hnoted : (system.world.pool id).notedPid = system.world.currentPid id)
    (h : Keeps id policy base rest acts system.world attempts (.pending task)) :
    let act : Act := ⟨system, some task, event, next, progress⟩
    Keeps id policy base rest (acts ++ [act]) next.world (attempts ++ act.attempts id)
      progress := by
  intro act
  have hid : id < system.world.pools.length := turn.lt reach
  have hnext := turn.resumes_or_wakes
  cases h with
  | @validating _ entry differs =>
      rcases hnext with ⟨place, reply, result, rfl, h, hnext, rfl⟩ | ⟨_, _, _, h, -⟩
      · cases reply with
        | created | notCreated | closed | worked | broke => cases h
        | valid isValid =>
            cases h
            cases isValid with
            | true =>
                have hkept : next.world.pool id = system.world.pool id := by
                  rw [hnext, World.validated, if_pos rfl]
                  exact World.pool_congr (World.reuse_pools entry)
                exact .working rfl (fun hne => absurd rfl hne) (hkept ▸ differs)
            | false =>
                have hkept : next.world.pool id = system.world.pool id := by
                  rw [hnext]
                  rfl
                exact .replacing (hkept ▸ differs)
      · cases h
  | @replacing _ resource differs =>
      rcases hnext with ⟨place, reply, result, rfl, h, hnext, rfl⟩ | ⟨_, _, _, h, -⟩
      · cases reply with
        | created | notCreated | valid | worked | broke => cases h
        | closed closeFailure =>
            cases h
            have hkept : next.world.pool id = system.world.pool id := by
              rw [hnext, World.replaced, World.pool_congr World.letGo_pools,
                World.pool_congr World.noteClose_pools]
            exact .creating (hkept ▸ differs)
      · cases h
  | @creating _ retries differs =>
      rcases hnext with ⟨place, reply, result, rfl, h, hnext, rfl⟩ | ⟨_, _, _, h, -⟩
      · cases reply with
        | closed | valid | worked | broke => cases h
        | created kind =>
            cases h
            exact turn.keeps_of_created reach rfl hnext differs
        | notCreated failure =>
            cases h
            exact turn.keeps_of_notCreated reach hnext differs
      · cases h
  | working howner hfresh differs => exact turn.keeps_of_working reach hnoted howner differs
  | discarding howner hdiscard differs =>
      exact turn.keeps_of_discarding reach hnoted howner hdiscard differs
  | @pausing _ due retries differs =>
      rcases hnext with ⟨_, _, _, _, h, -⟩ | ⟨place, result, rfl, h, hnext, rfl⟩
      · cases h
      · cases h
        rw [hnext]
        unfold World.awaitAttempt
        split
        · obtain ⟨after, left, hgoes, keeps⟩ :=
            World.acquire_again_keeps hid hnoted differs (system.world.usualPatience id)
          rw [hgoes]
          exact keeps _ _
        · exact .pausing differs

/-- The event does not concern the pool, and its process keeps its pid. -/
structure LeavesAlone (id : PoolId) (system : System) (event : Event) : Prop where
  spares : Spares id system event
  stays : ∀ process pid, event = .fork process pid → process ≠ (system.world.pool id).process

/-- A pool that is left alone goes on knowing its process. -/
theorem LeavesAlone.noted (alone : LeavesAlone id system event) (reach : system.Reachable)
    (hstep : system.step? event = some next)
    (hnoted : (system.world.pool id).notedPid = system.world.currentPid id) :
    (next.world.pool id).notedPid = next.world.currentPid id := by
  have hpool := (alone.spares.step? reach hstep).pool_eq
  rw [hpool, step?_currentPid reach hstep hpool alone.stays]
  exact hnoted

/-- The call takes the top slot. -/
theorem Turn.keeps_call (turn : start.Turn id (.call id (.run policy)) none next progress)
    (hid : id < start.world.pools.length)
    (hnoted : (start.world.pool id).notedPid = start.world.currentPid id)
    (hfree : (start.world.pool id).free = slot :: rest) :
    Keeps id policy (start.world.pool id) rest acts next.world attempts progress := by
  obtain ⟨hnext, rfl⟩ := Prod.mk.inj turn.eq_begin
  rw [hnext]
  exact World.acquire_keeps hid hnoted ⟨hfree, rfl, rfl, rfl⟩ _

theorem Story.keeps
    (story : Story (LeavesAlone id) start id (.run policy) events final progress acts)
    (reach : start.Reachable)
    (hnoted : (start.world.pool id).notedPid = start.world.currentPid id)
    (hfree : (start.world.pool id).free = slot :: rest) :
    (final.world.pool id).notedPid = final.world.currentPid id ∧
      Keeps id policy (start.world.pool id) rest acts final.world (attemptsOf id acts)
        progress := by
  have hid : id < start.world.pools.length := story.lt_start reach
  -- A pool that lost sight of its process would start over at the next attempt, so the induction
  -- carries that it does not.
  induction story with
  | begins turn =>
      have hplain : ∀ pool call, Event.call id (.run policy) = .call pool call → call.IsPlain := by
        rintro _ _ ⟨⟩
        trivial
      obtain ⟨-, hnext⟩ := turn.steady reach hid hnoted hplain
      exact ⟨hnext, turn.keeps_call hid hnoted hfree⟩
  | waits before alone hstep hstays ih =>
      obtain ⟨hbefore, keeps⟩ := ih
      have hreach := before.reachable reach
      have spared := alone.spares.step? hreach hstep
      exact ⟨alone.noted hreach hstep hbefore, keeps.of_pool_eq spared.pool_eq⟩
  | @goesOn events middle task event next progress acts before turn ih =>
      obtain ⟨hbefore, keeps⟩ := ih
      have hreach := before.reachable reach
      have hplain : ∀ pool call, event = .call pool call → call.IsPlain := by
        rcases turn.resumes_or_wakes with ⟨_, _, _, rfl, -⟩ | ⟨_, _, rfl, -⟩
        · nofun
        · nofun
      obtain ⟨-, hnext⟩ := turn.steady hreach (before.lt reach) hbefore hplain
      rw [attemptsOf_concat]
      exact ⟨hnext, turn.keeps hreach hbefore keeps⟩

/-- The resource with which the work is called again was made for it. -/
theorem makes_of_keeps {world : World}
    (h : Keeps id policy base rest acts world attempts progress)
    (hcall : progress.task?.bind Task.call? = some (lease, retries)) (hne : retries ≠ 0) :
    ∃ act ∈ acts, act.Makes lease := by
  cases h with
  | working _ hfresh =>
      cases hcall
      exact hfresh hne
  | validating | replacing | creating | discarding | pausing | ended => cases hcall

theorem Story.makes
    (story : Story (LeavesAlone id) start id (.run policy) events final progress acts)
    (reach : start.Reachable)
    (hnoted : (start.world.pool id).notedPid = start.world.currentPid id)
    (hfree : (start.world.pool id).free = slot :: rest) :
    ∀ act ∈ acts, act.call? = some (lease, retries) → retries ≠ 0 →
      ∃ maker ∈ acts, maker.Makes lease := by
  have hkeeps := story.keeps reach hnoted hfree
  induction story with
  | begins turn =>
      intro act hmem hcall hne
      obtain rfl := List.mem_singleton.1 hmem
      exact makes_of_keeps hkeeps.2 hcall hne
  | waits before alone hstep hstays ih => exact ih (before.keeps reach hnoted hfree)
  | goesOn before turn ih =>
      intro act hmem hcall hne
      rcases List.mem_append.1 hmem with hold | hnew
      · obtain ⟨maker, hmaker, hmakes⟩ :=
          ih (before.keeps reach hnoted hfree) act hold hcall hne
        exact ⟨maker, List.mem_append_left _ hmaker, hmakes⟩
      · obtain rfl := List.mem_singleton.1 hnew
        exact makes_of_keeps hkeeps.2 hcall hne

/-- Every turn of a story is taken after a run from its start. -/
theorem Story.exists_run? {call : Call} {aside : System → Event → Prop}
    (story : Story aside start id call events final progress acts) :
    ∀ act ∈ acts, ∃ earlier, start.run? earlier = some act.before := by
  induction story with
  | begins turn =>
      intro act hmem
      obtain rfl := List.mem_singleton.1 hmem
      exact ⟨[], rfl⟩
  | waits _ _ _ _ ih => exact ih
  | goesOn before _ ih =>
      intro act hmem
      rcases List.mem_append.1 hmem with hold | hnew
      · exact ih act hold
      · obtain rfl := List.mem_singleton.1 hnew
        exact ⟨_, before.run?⟩

/-- No resource is unmade in a run. -/
theorem length_resources_le (reach : start.Reachable) (hrun : start.run? events = some final) :
    start.world.resources.length ≤ final.world.resources.length := by
  by_contra hlt
  have hlt : final.world.resources.length < start.world.resources.length := Nat.lt_of_not_le hlt
  have hmade : start.world.makerOf? final.world.resources.length =
      some start.world.resources[final.world.resources.length].owner := by
    simp [World.makerOf?, hlt]
  have hkept : start.world.KeepsMakers final.world :=
    (lasting_makers start.world).run? (reachable_fits reach) (fun _ _ hmaker => hmaker) hrun
  exact absurd (World.lt_of_makerOf? (hkept _ _ hmade)) (Nat.lt_irrefl _)

/-- A resource that is made in a run was not there before. -/
theorem length_le_of_makes {act : Act} {earlier : List Event} (reach : start.Reachable)
    (hrun : start.run? earlier = some act.before) (hmakes : act.Makes lease) :
    start.world.resources.length ≤ lease.resource := by
  obtain ⟨task, -, owner, purpose, place, kind, -, -, -, hresource, -⟩ := hmakes
  rw [hresource]
  exact length_resources_le reach hrun

/-- A call of the work that is not the first one is told of retries. -/
theorem retries_ne_zero_of_mem_tail {calls : List (Lease × UInt32)}
    (hnumbered : calls.map (fun call => call.2.toNat) = List.range calls.length)
    (hmem : (lease, retries) ∈ calls.tail) : retries ≠ 0 := by
  cases calls with
  | nil => cases hmem
  | cons first later =>
      rw [List.map_cons, List.length_cons, List.range_succ_eq_map] at hnumbered
      have hlater := (List.cons.inj hnumbered).2
      have hcount : retries.toNat ∈ later.map (fun call => call.2.toNat) :=
        List.mem_map_of_mem (f := fun call : Lease × UInt32 => call.2.toNat) hmem
      rw [hlater] at hcount
      obtain ⟨k, -, hk⟩ := List.mem_map.1 hcount
      rintro rfl
      cases hk

/-- A unit of work after any story of its call, if its pool had free slots, `rest` being those below
the top one. -/
structure KeepsBelow (start : System) (id : PoolId) (policy : RetryPolicy) (rest : List Slot)
    (final : System) (progress : Progress) (acts : List Act) : Prop where
  /-- The work is called with a resource that was made in the call, each time but the first. -/
  fresh : ∀ lease retries, (lease, retries) ∈ (acts.filterMap Act.call?).tail →
    (∃ act ∈ acts, act.Makes lease) ∧ start.world.resources.length ≤ lease.resource
  /-- Until the call ends the top slot is out, or it lies on top and is vacant. -/
  below : ∀ task, progress = .pending task →
    (final.world.pool id).free = rest ∨ (final.world.pool id).free = .vacant :: rest
  /-- When it has ended, the last attempt decides what lies on top, and all else is as before. -/
  ended : ∀ outcome, progress = .done outcome → ∃ earlier last,
    attemptsOf id acts = earlier ++ [last] ∧ outcome = last.outcome ∧
    (∀ failure, last = .unserved failure →
      ∃ act ∈ acts, ∃ place, act.event = .reply place (.notCreated failure)) ∧
    (final.world.pool id).free = last.leaves policy final.world.clock :: rest ∧
    (final.world.pool id).owner = (start.world.pool id).owner ∧
    (final.world.pool id).leased = (start.world.pool id).leased ∧
    (final.world.pool id).staleLeased = (start.world.pool id).staleLeased
  goesOn : ∀ task, progress = .pending task → final.CanGoOn id task

theorem Story.keepsBelow
    (story : Story (LeavesAlone id) start id (.run policy) events final progress acts)
    (reach : start.Reachable)
    (hnoted : (start.world.pool id).notedPid = start.world.currentPid id)
    (hfree : (start.world.pool id).free = slot :: rest) :
    KeepsBelow start id policy rest final progress acts := by
  have perseveres := story.perseveres reach
  obtain ⟨-, keeps⟩ := story.keeps reach hnoted hfree
  refine ⟨?_, ?_, ?_, perseveres.goesOn⟩
  · intro lease retries hmem
    have hne := retries_ne_zero_of_mem_tail perseveres.numbered hmem
    obtain ⟨act, hact, hcall⟩ := List.mem_filterMap.1 (List.mem_of_mem_tail hmem)
    obtain ⟨maker, hmaker, hmakes⟩ := story.makes reach hnoted hfree act hact hcall hne
    obtain ⟨earlier, hrun⟩ := story.exists_run? maker hmaker
    exact ⟨⟨maker, hmaker, hmakes⟩, length_le_of_makes reach hrun hmakes⟩
  · rintro task rfl
    generalize attemptsOf id acts = attempts at keeps
    cases keeps with
    | validating differs | replacing differs | creating differs | working _ _ differs
    | discarding _ _ differs => exact .inl differs.free_eq
    | pausing differs => exact .inr differs.free_eq
  · rintro outcome rfl
    generalize hattempts : attemptsOf id acts = attempts at keeps
    cases keeps with
    | @ended earlier last hfailed differs =>
        exact ⟨earlier, last, rfl, rfl, hfailed, differs.free_eq, differs.owner_eq,
          differs.leased_eq, differs.stale_eq⟩

/-- A unit of work takes the top slot of the free list and gives back that one, whatever it comes to
and however often it is tried, while nothing else happens to its pool: the slots below stay where
they are, and it is tried again only with resources that were made for it. -/
theorem run_keeps_below (reach : start.Reachable) (hid : id < start.world.pools.length)
    (hnoted : (start.world.pool id).notedPid = start.world.currentPid id)
    (hfree : (start.world.pool id).free = slot :: rest) (policy : RetryPolicy) :
    (∃ next progress, start.Turn id (.call id (.run policy)) none next progress) ∧
    ∀ events final progress acts,
      Story (LeavesAlone id) start id (.run policy) events final progress acts →
        KeepsBelow start id policy rest final progress acts := by
  constructor
  · exact ⟨_, _, turn_of_call (.run policy) hid rfl⟩
  · intro events final progress acts story
    exact story.keepsBelow reach hnoted hfree

/-- Two resources lie idle, one on top of the other. -/
theorem run_keeps_below_idle : ∃ system,
    (init [7] [(0, Config.ofSize 2)]).run?
        [.call 0 (.acquire none), .reply 0 (.created "db"), .call 0 (.acquire none),
          .reply 0 (.created "db"), .call 0 (.release ⟨0, ⟨0, 7, 0⟩, 0⟩),
          .call 0 (.release ⟨1, ⟨0, 7, 0⟩, 0⟩)] = some system ∧
      (system.world.pool 0).free = [.idle ⟨1, 0, 0⟩, .idle ⟨0, 0, 0⟩] ∧
      (∃ next progress, system.Turn 0 (.call 0 (.run .usual)) none next progress) ∧
      ∀ events final progress acts,
        Story (LeavesAlone 0) system 0 (.run .usual) events final progress acts →
          KeepsBelow system 0 .usual [.idle ⟨0, 0, 0⟩] final progress acts := by
  refine exists_run? rfl fun system hrun => ?_
  have hid : 0 < system.world.pools.length := by
    cases hrun
    decide
  have hnoted : (system.world.pool 0).notedPid = system.world.currentPid 0 := by
    cases hrun
    rfl
  have hfree : (system.world.pool 0).free = [.idle ⟨1, 0, 0⟩, .idle ⟨0, 0, 0⟩] := by
    cases hrun
    rfl
  exact ⟨hfree, run_keeps_below ⟨_, _, _, hrun⟩ hid hnoted hfree .usual⟩

end System
end LeasePool
