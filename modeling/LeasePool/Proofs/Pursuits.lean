import LeasePool.Proofs.Attempts
import LeasePool.Proofs.Stories

/-!
Pursuits. A unit of work pursues its attempts whatever happens meanwhile: each turn of its call ends
an attempt or brings one closer to its end. The calls of the work are counted without a gap, and the
call ends with what the last attempt came to.
-/

namespace LeasePool

/-- The lease and the number of retries with which a task waits for the work. -/
def Task.call? : Task → Option (Lease × UInt32)
  | .working _ lease _ retries => some (lease, retries)
  | _ => none

namespace Act

/-- A turn counts unless the operation waits on as before. -/
def steps (act : Act) : Nat := if act.idles then 0 else 1

theorem steps_le (act : Act) : act.steps ≤ 1 := by
  unfold steps
  split <;> decide

/-- The attempt that ends with the turn, as the work was done or failed. -/
def tried? (act : Act) : Option Attempt :=
  match act.task?, act.event with
  | some (.working _ lease _ retries), .reply _ (.worked value) =>
      some (.worked lease retries value)
  | some (.working _ lease _ retries), .reply _ (.broke failure) =>
      some (.broke lease retries failure)
  | _, _ => none

/-- The failure with which an acquisition failed in the turn. -/
def refused? (act : Act) (id : PoolId) : Option Failure :=
  match act.progress with
  | .done (.failed failure) =>
      if (act.before.world.pool id).refusals < (act.after.world.pool id).refusals then some failure
      else none
  | _ => none

def attempts (act : Act) (id : PoolId) : List Attempt :=
  act.tried?.toList ++ (act.refused? id).toList.map .unserved

/-- The lease and the number of retries with which the work is called at the end of the turn. -/
def call? (act : Act) : Option (Lease × UInt32) := act.progress.task?.bind Task.call?

variable {act : Act} {id : PoolId} {attempt : Attempt} {failure : Failure}

theorem attempts_of_tried? (h : act.tried? = some attempt) :
    act.attempts id = [attempt] ++ (act.refused? id).toList.map .unserved := by
  rw [attempts, h, Option.toList_some]

theorem attempts_of_not_tried? (h : act.tried? = none) :
    act.attempts id = (act.refused? id).toList.map .unserved := by
  rw [attempts, h, Option.toList_none, List.nil_append]

theorem attempts_of_served (h : act.refused? id = none) :
    act.attempts id = act.tried?.toList := by
  rw [attempts, h, Option.toList_none, List.map_nil, List.append_nil]

theorem refused?_of_unrefused
    (h : (act.before.world.pool id).Unrefused (act.after.world.pool id)) :
    act.refused? id = none := by
  unfold refused?
  split
  · exact if_neg (Nat.not_lt_of_le h.refusals_eq.le)
  · rfl

theorem refused?_of_pending {task : Task} (hprogress : act.progress = .pending task) :
    act.refused? id = none := by
  rw [refused?, hprogress]

theorem refused?_of_succ (hprogress : act.progress = .done (.failed failure))
    (h : (act.after.world.pool id).refusals = (act.before.world.pool id).refusals + 1) :
    act.refused? id = some failure := by
  unfold refused?
  rw [hprogress]
  exact if_pos (h ▸ Nat.lt_succ_self _)

end Act

def stepsOf (acts : List Act) : Nat := acts.countP fun act => !act.idles

theorem stepsOf_concat (acts : List Act) (act : Act) :
    stepsOf (acts ++ [act]) = stepsOf acts + act.steps := by
  rw [stepsOf, List.countP_append, List.countP_singleton, stepsOf, Act.steps]
  cases act.idles <;> rfl

def attemptsOf (id : PoolId) (acts : List Act) : List Attempt :=
  acts.flatMap fun act => act.attempts id

/-- The calls of the work are told one retry more each time, from none on. -/
def Numbered (attempts : List Attempt) : Prop :=
  (attempts.filterMap Attempt.call?).map (fun call => call.2.toNat) =
    List.range (attempts.filterMap Attempt.call?).length

/-- A unit of work on a pool stands where its attempts so far brought it, with its counts. -/
structure Pursues (policy : RetryPolicy) (id : PoolId) (pool : Pool) (events : List Event)
    (attempts : List Attempt) (steps : Nat) (progress : Progress) : Prop where
  stands : policy.Stands id attempts progress
  numbered : Numbered attempts
  refused : ∀ failure, .unserved failure ∈ attempts → ∃ event ∈ events, pool.Refuses event failure
  patience : ∀ task, progress = .pending task →
    ∀ patience ∈ task.patience?, patience = .within pool.acquireTimeout
  pace : steps + progress.rank ≤ 7 * (attempts.length + 1)

section Pursues

variable {policy : RetryPolicy} {id : PoolId} {pool : Pool} {events : List Event}
  {attempts : List Attempt} {attempt : Attempt} {steps bound : Nat} {retries : UInt32}
  {lease : Lease} {failure : Failure}

theorem Numbered.concat (h : Numbered attempts) (before : policy.Requests attempts)
    (hcount : retries.toNat = attempts.length) (hcall : attempt.call? = some (lease, retries)) :
    Numbered (attempts ++ [attempt]) := by
  have hlast : [attempt].filterMap Attempt.call? = [(lease, retries)] := by
    rw [List.filterMap_cons_some hcall, List.filterMap_nil]
  rw [Numbered, List.filterMap_append, hlast, List.map_append, h, List.length_append,
    List.length_singleton, List.range_succ, before.length_calls, ← hcount]
  rfl

theorem Numbered.of_concat (h : Numbered (attempts ++ [attempt])) : Numbered attempts := by
  cases hcall : attempt.call? with
  | none =>
      have hlast : [attempt].filterMap Attempt.call? = [] := by
        rw [List.filterMap_cons_none hcall, List.filterMap_nil]
      rw [Numbered, List.filterMap_append, hlast, List.append_nil] at h
      exact h
  | some call =>
      have hlast : [attempt].filterMap Attempt.call? = [call] := by
        rw [List.filterMap_cons_some hcall, List.filterMap_nil]
      rw [Numbered, List.filterMap_append, hlast, List.map_append, List.length_append,
        List.length_singleton, List.range_succ] at h
      exact (List.append_inj' h rfl).1

theorem Numbered.concat_none (h : Numbered attempts) (hcall : attempt.call? = none) :
    Numbered (attempts ++ [attempt]) := by
  have hlast : [attempt].filterMap Attempt.call? = [] := by
    rw [List.filterMap_cons_none hcall, List.filterMap_nil]
  rw [Numbered, List.filterMap_append, hlast, List.append_nil]
  exact h

theorem RetryPolicy.Requests.not_concat_unserved :
    ¬ policy.Requests (attempts ++ [.unserved failure]) := by
  intro h
  obtain ⟨-, -, lease, retries, other, heq, -⟩ := h.of_concat
  cases heq

theorem RetryPolicy.Requests.unserved_notMem (h : policy.Requests attempts) :
    .unserved failure ∉ attempts := by
  induction h with
  | start => exact List.not_mem_nil
  | again _ _ _ ih =>
      rw [List.mem_append, List.mem_singleton]
      rintro (hmem | heq)
      · exact ih hmem
      · cases heq

/-- The last attempt was not refused. -/
theorem RetryPolicy.Requests.unserved_notMem_concat (h : policy.Requests attempts)
    (hcall : attempt.call? = some (lease, retries)) :
    .unserved failure ∉ attempts ++ [attempt] := by
  rw [List.mem_append, List.mem_singleton]
  rintro (hmem | rfl)
  · exact h.unserved_notMem hmem
  · cases hcall

/-- The call ended with its last attempt. -/
theorem Pursues.of_ended {outcome : Outcome}
    (stands : policy.Stands id (attempts ++ [attempt]) (.done outcome))
    (hnumbered : Numbered (attempts ++ [attempt]))
    (hrefused : ∀ failure, .unserved failure ∈ attempts ++ [attempt] →
      ∃ event ∈ events, pool.Refuses event failure)
    (hpace : steps ≤ 7 * (attempts.length + 1)) :
    Pursues policy id pool events (attempts ++ [attempt]) steps (.done outcome) := by
  refine ⟨stands, hnumbered, hrefused, ?_, ?_⟩
  · rintro task ⟨⟩
  · rw [Progress.rank, List.length_append, List.length_singleton]
    omega

/-- An acquisition for an attempt goes on, or it fails and the call ends. -/
theorem Pursues.of_engages (act : Act) (before : policy.Requests attempts)
    (hnumbered : Numbered attempts) (hcount : retries.toNat = attempts.length)
    (hconfig : (act.before.world.pool id).config = pool.config)
    (h : Engages id policy retries (act.before.world.pool id) act.event bound
      (act.after.world, act.progress))
    (hmax : attempts.length ≤ policy.maxRetries.toNat)
    (hpace : steps + bound ≤ 7 * (attempts.length + 1)) :
    Pursues policy id pool (events ++ [act.event])
      (attempts ++ (act.refused? id).toList.map .unserved) steps act.progress := by
  cases h with
  | trying task hprogress hpurpose hpatience hrank unrefused =>
      have hprogress : act.progress = .pending task := hprogress
      rw [Act.refused?_of_unrefused unrefused, Option.toList_none, List.map_nil, List.append_nil,
        hprogress]
      refine ⟨.trying before hcount hmax hpurpose, hnumbered, fun _ hmem =>
        absurd hmem before.unserved_notMem, ?_, ?_⟩
      · rintro _ ⟨⟩ patience hmem
        rw [hpatience patience hmem, Pool.acquireTimeout, hconfig, Pool.acquireTimeout]
      · exact (Nat.add_le_add_left hrank steps).trans hpace
  | refused failure hprogress hfailure hrefusals =>
      have hprogress : act.progress = .done (.failed failure) := hprogress
      rw [Act.refused?_of_succ hprogress hrefusals, hprogress]
      rw [Pool.Refuses, Pool.maxSize, Pool.acquireTimeout, hconfig] at hfailure
      refine Pursues.of_ended (.ended before hmax RetryPolicy.Requests.not_concat_unserved)
        (hnumbered.concat_none rfl) (fun other hmem => ?_) (Nat.le_of_add_right_le hpace)
      rw [List.mem_append, List.mem_singleton] at hmem
      rcases hmem with hold | heq
      · exact absurd hold before.unserved_notMem
      · cases heq
        exact ⟨act.event, List.mem_concat_self, hfailure⟩

/-- A unit of work goes on after an attempt that discarded its resource. -/
theorem Pursues.of_afterDiscard {world : World} (act : Act) (before : policy.Requests attempts)
    (hnumbered : Numbered attempts) (hcount : retries.toNat = attempts.length)
    (hmax : attempts.length ≤ policy.maxRetries.toNat)
    (hdiscard : policy.shouldDiscard failure = true) (hid : id < world.pools.length)
    (hconfig : (act.before.world.pool id).config = pool.config)
    (unrefused : (act.before.world.pool id).Unrefused (world.pool id))
    (hresult : world.afterDiscard id (.retry policy retries failure) =
      (act.after.world, act.progress))
    (hpace : steps ≤ 7 * (attempts.length + 1)) :
    Pursues policy id pool (events ++ [act.event])
      (attempts ++ [.broke lease retries failure] ++ (act.refused? id).toList.map .unserved) steps
      act.progress := by
  have hnext : Numbered (attempts ++ [.broke lease retries failure]) :=
    hnumbered.concat before hcount rfl
  have hlength : (attempts ++ [Attempt.broke lease retries failure]).length =
      attempts.length + 1 := by
    rw [List.length_append, List.length_singleton]
  rcases World.afterDiscard_engages hid failure with ⟨hlast, hends⟩ | ⟨hmore, engages⟩
  · rw [hends] at hresult
    obtain ⟨rfl, hprogress⟩ := Prod.mk.inj hresult
    rw [Act.refused?_of_unrefused unrefused, Option.toList_none, List.map_nil, List.append_nil,
      ← hprogress]
    have hends : ¬ policy.Requests (attempts ++ [.broke lease retries failure]) := by
      intro hrequests
      have hlt := hrequests.of_concat.2.1
      exact absurd (UInt32.le_iff_toNat_le.1 hlast) (Nat.not_le_of_lt (hcount ▸ hlt))
    exact Pursues.of_ended (.ended before hmax hends) hnext
      (fun _ hmem => absurd hmem (before.unserved_notMem_concat rfl)) hpace
  · have hlt : retries.toNat < policy.maxRetries.toNat := UInt32.lt_iff_toNat_lt.1 hmore
    have hmore : attempts.length < policy.maxRetries.toNat := hcount ▸ hlt
    rw [hresult] at engages
    refine Pursues.of_engages act (before.again hdiscard hmore) hnext ?_ hconfig
      (engages.of_unrefused unrefused) ?_ ?_
    · have hbound := policy.maxRetries.toNat_lt
      rw [hlength, ← hcount, UInt32.toNat_add, UInt32.toNat_one, Nat.mod_eq_of_lt (by omega)]
    · rw [hlength]
      exact hmore
    · rw [hlength]
      omega

/-- The work ended the call with a value or with a failure that discards nothing. -/
theorem Pursues.of_last (before : policy.Requests attempts) (hnumbered : Numbered attempts)
    (hcount : retries.toNat = attempts.length)
    (hmax : attempts.length ≤ policy.maxRetries.toNat)
    (hcall : attempt.call? = some (lease, retries))
    (hlast : ¬ policy.Requests (attempts ++ [attempt]))
    (hpace : steps ≤ 7 * (attempts.length + 1)) :
    Pursues policy id pool events (attempts ++ [attempt]) steps (.done attempt.outcome) :=
  Pursues.of_ended (.ended before hmax hlast) (hnumbered.concat before hcount hcall)
    (fun _ hmem => absurd hmem (before.unserved_notMem_concat hcall)) hpace

end Pursues

namespace System

variable {system next start final : System} {id : PoolId} {event : Event} {events : List Event}
  {task : Task} {progress : Progress} {acts : List Act} {aside : System → Event → Prop}
  {policy : RetryPolicy} {retries : UInt32} {pool : Pool} {attempts : List Attempt} {steps : Nat}

/-- A turn of an acquisition for an attempt: it waits on, or it gets on. -/
theorem Turn.engages (turn : system.Turn id event (some task) next progress)
    (hid : id < system.world.pools.length)
    (hpurpose : task.purpose? = some (.attempt policy retries)) (hlease : task.lease? = none)
    (hpatience : ∀ patience ∈ task.patience?,
      patience = .within (system.world.pool id).acquireTimeout) :
    ∃ bound, Engages id policy retries (system.world.pool id) event bound (next.world, progress) ∧
      bound + Act.steps ⟨system, some task, event, next, progress⟩ ≤ task.rank := by
  cases turn with
  | reply htask h =>
      rw [world_settle]
      refine ⟨_, World.resume_engages hid hpurpose hlease h, ?_⟩
      cases task with
      | waiting | pausing => cases h
      | working => cases hlease
      | discarding | disconnecting | sweeping => cases hpurpose
      | validating | replacing | creating => exact Nat.le_refl _
  | wake htask h =>
      rw [world_settle]
      cases task with
      | validating | replacing | creating | working | discarding | disconnecting | sweeping =>
          cases h
      | waiting agent patience since purpose =>
          cases h
          cases hpurpose
          have hid : agent < system.world.pools.length := hid
          have hpatience := hpatience patience rfl
          rcases World.awaitSlot_engages hid since hpatience with hengages | hwaits
          · exact ⟨5, hengages, Nat.add_le_add_left (Act.steps_le _) 5⟩
          · rw [hwaits]
            exact ⟨6, World.waiting_engages since hpatience, Nat.le_refl 6⟩
      | pausing agent due policy retries =>
          cases h
          cases hpurpose
          unfold World.awaitAttempt
          split
          · exact ⟨6, World.acquire_engages hid, Nat.add_le_add_left (Act.steps_le _) 6⟩
          · exact ⟨7, .trying _ rfl rfl nofun (Nat.le_refl 7) ⟨rfl, rfl⟩, Nat.le_refl 7⟩

theorem tried?_of_lease? (hlease : task.lease? = none) :
    Act.tried? ⟨system, some task, event, next, progress⟩ = none := by
  cases task with
  | working => cases hlease
  | waiting | validating | replacing | creating | discarding | pausing | disconnecting
  | sweeping => rfl

/-- The work on a lease ends. -/
theorem pursues_of_reply {lease : Lease} {place : Nat} {reply : Reply}
    {result : World × Progress} (hid : id < system.world.pools.length)
    (hconfig : (system.world.pool id).config = pool.config) (before : policy.Requests attempts)
    (hnumbered : Numbered attempts) (hcount : retries.toNat = attempts.length)
    (hmax : attempts.length ≤ policy.maxRetries.toNat)
    (hpace : steps + 2 ≤ 7 * (attempts.length + 1)) (hnext : next.world = result.1)
    (h : system.world.resume (.working id lease policy retries) reply = some result) :
    Pursues policy id pool (events ++ [.reply place reply])
      (attempts ++ Act.attempts ⟨system, some (.working id lease policy retries),
        .reply place reply, next, result.2⟩ id) (steps + 1) result.2 := by
  have hpace' : steps + 1 ≤ 7 * (attempts.length + 1) := Nat.le_of_succ_le hpace
  cases reply with
  | created | notCreated | closed | valid => cases h
  | worked value =>
      cases h
      refine Pursues.of_last before hnumbered hcount hmax rfl (fun hrequests => ?_) hpace'
      obtain ⟨-, -, _, _, _, heq, -⟩ := hrequests.of_concat
      cases heq
  | broke failure =>
      cases h
      rw [Act.attempts_of_tried? rfl, ← List.append_assoc]
      by_cases hdiscard : policy.shouldDiscard failure = true
      · rw [World.broke_of_discards hdiscard] at hnext ⊢
        rcases system.world.discard_cases id lease (.retry policy retries failure) with
          ⟨notice, hcloses⟩ | ⟨after, hpools, hgoes⟩
        · rw [hcloses, Act.refused?_of_pending rfl, Option.toList_none, List.map_nil,
            List.append_nil]
          refine ⟨.discarding before hcount hmax hdiscard, hnumbered.concat before hcount rfl,
            fun _ hmem => absurd hmem (before.unserved_notMem_concat rfl), ?_, ?_⟩
          · rintro _ ⟨⟩ patience ⟨⟩
          · have hlength : (attempts ++ [Attempt.broke lease retries failure]).length =
                attempts.length + 1 := by
              rw [List.length_append, List.length_singleton]
            change steps + 1 + 8 ≤ 7 * ((attempts ++ [_]).length + 1)
            rw [hlength]
            omega
        · rw [hgoes] at hnext ⊢
          have hid' : id < after.pools.length := hpools ▸ hid
          exact Pursues.of_afterDiscard ⟨system, some (.working id lease policy retries),
            .reply place (.broke failure), next, _⟩ before hnumbered hcount hmax hdiscard hid'
            hconfig (World.unrefused_of_pools hpools) (Prod.ext hnext.symm rfl) hpace'
      · rw [World.broke_of_keeps hdiscard] at hnext ⊢
        have unrefused : (system.world.pool id).Unrefused (next.world.pool id) := by
          rw [hnext]
          exact World.unrefused_release hid
        rw [Act.refused?_of_unrefused unrefused, Option.toList_none, List.map_nil,
          List.append_nil]
        refine Pursues.of_last before hnumbered hcount hmax rfl (fun hrequests => ?_) hpace'
        obtain ⟨-, -, _, _, _, heq, hrequested⟩ := hrequests.of_concat
        cases heq
        exact hdiscard hrequested

/-- A turn takes a unit of work where its attempts bring it. -/
theorem Turn.pursues (turn : system.Turn id event (some task) next progress)
    (hid : id < system.world.pools.length) (hconfig : (system.world.pool id).config = pool.config)
    (h : Pursues policy id pool events attempts steps (.pending task)) :
    Pursues policy id pool (events ++ [event])
      (attempts ++ Act.attempts ⟨system, some task, event, next, progress⟩ id)
      (steps + Act.steps ⟨system, some task, event, next, progress⟩) progress := by
  obtain ⟨stands, hnumbered, -, hpatience, hpace⟩ := h
  cases stands with
  | @trying _ _ retries before hcount hmax hpurpose =>
      cases hlease : task.lease? with
      | none =>
          have hready : ∀ patience ∈ task.patience?,
              patience = .within (system.world.pool id).acquireTimeout := by
            intro patience hmem
            rw [hpatience task rfl patience hmem, Pool.acquireTimeout, ← hconfig,
              Pool.acquireTimeout]
          obtain ⟨bound, engages, hbound⟩ := turn.engages hid hpurpose hlease hready
          rw [Act.attempts_of_not_tried? (tried?_of_lease? hlease)]
          refine Pursues.of_engages ⟨system, some task, event, next, progress⟩ before hnumbered
            hcount hconfig engages hmax ?_
          have hrank : steps + task.rank ≤ 7 * (attempts.length + 1) := hpace
          omega
      | some lease =>
          cases task with
          | working agent lease policy retries =>
              cases hpurpose
              obtain rfl : agent = id := turn.pool_eq
              rcases turn.resumes_or_wakes with ⟨place, reply, result, rfl, h, hnext, rfl⟩ |
                ⟨_, _, _, h, -⟩
              · exact pursues_of_reply hid hconfig before hnumbered hcount hmax hpace hnext h
              · cases h
          | waiting | validating | replacing | creating | discarding | pausing | disconnecting
          | sweeping => cases hlease
  | @discarding earlier lease retries failure before hcount hmax hdiscard =>
      rcases turn.resumes_or_wakes with ⟨place, reply, result, rfl, h, hnext, rfl⟩ |
        ⟨_, _, _, h, -⟩
      · cases reply with
        | created | notCreated | valid | worked | broke => cases h
        | closed closeFailure =>
            cases h
            rw [Act.attempts_of_not_tried? rfl]
            have hready : id < (system.world.vacate id lease.owner lease.resource
                closeFailure).pools.length := by
              rwa [World.length_vacate]
            have unrefused : (system.world.pool id).Unrefused ((system.world.vacate id lease.owner
                lease.resource closeFailure).pool id) := by
              rw [World.pool_vacate hid]
              exact .restoreVacant lease.owner
            have hspent : steps + 8 ≤ 7 * ((earlier ++ [Attempt.broke lease retries failure]).length
              + 1) := hpace
            rw [List.length_append, List.length_singleton] at hspent
            refine Pursues.of_afterDiscard
              ⟨system, some _, .reply place (.closed closeFailure), next, _⟩ before
              hnumbered.of_concat hcount hmax hdiscard hready hconfig unrefused
              (Prod.ext hnext.symm rfl) ?_
            exact (Nat.add_le_add_left (Act.steps_le _) steps).trans (by omega)
      · cases h

/-- The configuration of a pool never changes. -/
theorem run?_config (reach : start.Reachable) (hid : id < start.world.pools.length)
    (hrun : start.run? events = some final) :
    (final.world.pool id).config = (start.world.pool id).config := by
  have hkept : ∀ (system : System) (event : Event) (next : System),
      (system.Reachable ∧ id < system.world.pools.length ∧
        (system.world.pool id).config = (start.world.pool id).config) →
      system.step? event = some next → next.Reachable ∧ id < next.world.pools.length ∧
        (next.world.pool id).config = (start.world.pool id).config := by
    rintro system event next ⟨hreach, hlt, hconfig⟩ hstep
    refine ⟨hreach.step? hstep, hreach.lt_of_step? hlt hstep, ?_⟩
    rcases step?_drifts_or_tearDown (reachable_fits hreach) (reachable_accounted hreach) hlt hstep
      with ⟨-, hdrifts⟩ | ⟨-, -, hsame, -⟩
    · exact hdrifts.config_eq.trans hconfig
    · exact hsame.trans hconfig
  exact (run?_induction hkept ⟨reach, hid, rfl⟩ hrun).2.2

theorem attemptsOf_concat (acts : List Act) (act : Act) :
    attemptsOf id (acts ++ [act]) = attemptsOf id acts ++ act.attempts id := by
  rw [attemptsOf, List.flatMap_append, List.flatMap_singleton, attemptsOf]

/-- The call of a unit of work begins its first attempt. -/
theorem Turn.pursues_call (turn : start.Turn id (.call id (.run policy)) none next progress)
    (hid : id < start.world.pools.length) :
    let act : Act := ⟨start, none, .call id (.run policy), next, progress⟩
    Pursues policy id (start.world.pool id) ([act].map Act.event) (attemptsOf id [act])
      (stepsOf [act]) progress := by
  intro act
  have engages : Engages id policy 0 (start.world.pool id) act.event 6 (next.world, progress) := by
    rw [turn.eq_begin]
    exact World.acquire_engages hid
  have hbegun : Pursues policy id (start.world.pool id) ([] ++ [act.event])
      ([] ++ (act.refused? id).toList.map .unserved) 1 progress :=
    Pursues.of_engages act .start rfl rfl rfl engages (Nat.zero_le _) (Nat.le_refl 7)
  have hattempts : attemptsOf id [act] = [] ++ (act.refused? id).toList.map .unserved := by
    rw [attemptsOf, List.flatMap_singleton, Act.attempts_of_not_tried? rfl, List.nil_append]
  rw [hattempts]
  exact hbegun

theorem Story.pursues (story : Story aside start id (.run policy) events final progress acts)
    (reach : start.Reachable) :
    Pursues policy id (start.world.pool id) (acts.map Act.event) (attemptsOf id acts)
      (stepsOf acts) progress := by
  have hid := story.lt_start reach
  induction story with
  | @begins next progress turn => exact turn.pursues_call hid
  | waits before haside hstep hstays ih => exact ih
  | goesOn before turn ih =>
      have hmiddle := before.reachable reach
      have hconfig := run?_config reach hid before.run?
      rw [attemptsOf_concat, List.map_append, stepsOf_concat]
      exact turn.pursues (before.lt reach) hconfig ih

/-- Each turn of a unit of work leaves it where its attempts bring it. -/
theorem Story.stands_of_mem (story : Story aside start id (.run policy) events final progress acts)
    (reach : start.Reachable) : ∀ act ∈ acts, (∃ attempts, policy.Stands id attempts act.progress) ∧
      ∀ task, act.task? = some task → ∃ attempts, policy.Stands id attempts (.pending task) := by
  have hid := story.lt_start reach
  induction story with
  | begins turn =>
      intro act hmem
      obtain rfl := List.mem_singleton.1 hmem
      exact ⟨⟨_, (turn.pursues_call hid).stands⟩, nofun⟩
  | waits _ _ _ _ ih => exact ih
  | goesOn before turn ih =>
      intro act hmem
      rcases List.mem_append.1 hmem with hold | hnew
      · exact ih act hold
      · obtain rfl := List.mem_singleton.1 hnew
        have hstands := (before.pursues reach).stands
        have hafter := (Story.goesOn before turn).pursues reach
        refine ⟨⟨_, hafter.stands⟩, ?_⟩
        rintro _ ⟨⟩
        exact ⟨_, hstands⟩

theorem filterMap_concat {β : Type} (view : Act → Option β) (acts : List Act) (act : Act) :
    (acts ++ [act]).filterMap view = acts.filterMap view ++ (view act).toList := by
  rw [List.filterMap_append, List.filterMap_cons, List.filterMap_nil]
  cases view act <;> rfl

theorem filterMap_singleton {β : Type} (view : Act → Option β) (act : Act) :
    [act].filterMap view = (view act).toList :=
  filterMap_concat view [] act

theorem filterMap_call?_unserved (failures : List Failure) :
    (failures.map Attempt.unserved).filterMap Attempt.call? = [] := by
  rw [List.filterMap_map]
  exact List.filterMap_eq_nil_iff.2 fun _ _ => rfl

/-- A turn that ends an attempt ends the call of the work that its task waits for. -/
theorem Turn.filterMap_attempts (turn : system.Turn id event (some task) next progress) :
    (Act.attempts ⟨system, some task, event, next, progress⟩ id).filterMap Attempt.call? =
      task.call?.toList := by
  rw [Act.attempts, List.filterMap_append, filterMap_call?_unserved, List.append_nil]
  cases task with
  | working agent lease policy retries =>
      rcases turn.resumes_or_wakes with ⟨place, reply, result, rfl, h, -⟩ | ⟨_, _, _, h, -⟩
      · cases reply with
        | worked | broke => rfl
        | created | notCreated | closed | valid => cases h
      · cases h
  | waiting | validating | replacing | creating | discarding | pausing | disconnecting
  | sweeping => rfl

/-- Every call of the work is that of an attempt that ended, or it is under way. -/
theorem Story.calls_eq {call : Call}
    (story : Story aside start id call events final progress acts) :
    acts.filterMap Act.call? = (attemptsOf id acts).filterMap Attempt.call? ++
      (progress.task?.bind Task.call?).toList := by
  induction story with
  | @begins next progress turn =>
      have hattempts : attemptsOf id [⟨start, none, .call id call, next, progress⟩] =
          (Act.refused? ⟨start, none, .call id call, next, progress⟩ id).toList.map .unserved := by
        rw [attemptsOf, List.flatMap_singleton, Act.attempts_of_not_tried? rfl]
      rw [hattempts, filterMap_call?_unserved, List.nil_append]
      exact filterMap_singleton Act.call? _
  | waits _ _ _ _ ih => exact ih
  | @goesOn events middle task event next progress acts before turn ih =>
      rw [filterMap_concat, ih, attemptsOf_concat, List.filterMap_append,
        turn.filterMap_attempts]
      rfl

end System

/-- The calls of the work are told how many retries there were. -/
theorem Pursues.calls_numbered {policy : RetryPolicy} {id : PoolId} {pool : Pool}
    {events : List Event} {attempts : List Attempt} {steps : Nat} {progress : Progress}
    {calls : List (Lease × UInt32)} (h : Pursues policy id pool events attempts steps progress)
    (hcalls : calls = attempts.filterMap Attempt.call? ++
      (progress.task?.bind Task.call?).toList) :
    calls.map (fun call => call.2.toNat) = List.range calls.length ∧
      calls.length ≤ policy.maxRetries.toNat + 1 := by
  have hlength : (attempts.filterMap Attempt.call?).length ≤ attempts.length :=
    List.length_filterMap_le _ _
  have hnone : progress.task?.bind Task.call? = none →
      attempts.length ≤ policy.maxRetries.toNat + 1 →
      calls.map (fun call => call.2.toNat) = List.range calls.length ∧
        calls.length ≤ policy.maxRetries.toNat + 1 := by
    intro hnone hmax
    rw [hcalls, hnone, Option.toList_none, List.append_nil]
    exact ⟨h.numbered, hlength.trans hmax⟩
  cases h.stands with
  | @trying _ task retries before hcount hmax hpurpose =>
      cases hcall : task.call? with
      | none => exact hnone hcall (Nat.le_succ_of_le hmax)
      | some call =>
          cases task with
          | working agent lease policy retries =>
              cases hpurpose
              have hcalled : calls = attempts.filterMap Attempt.call? ++ [(lease, retries)] :=
                hcalls
              rw [hcalled, List.map_append, h.numbered, List.length_append,
                List.length_singleton, List.range_succ, before.length_calls, List.map_singleton,
                hcount]
              exact ⟨rfl, Nat.succ_le_succ hmax⟩
          | waiting | validating | replacing | creating | discarding | pausing | disconnecting
          | sweeping => cases hcall
  | discarding before hcount hmax hdiscard =>
      refine hnone rfl ?_
      rw [List.length_append, List.length_singleton]
      exact Nat.succ_le_succ hmax
  | ended before hmax hlast =>
      refine hnone rfl ?_
      rw [List.length_append, List.length_singleton]
      exact Nat.succ_le_succ hmax

/-- Each attempt of a unit of work takes a few turns. -/
theorem Pursues.steps_le {policy : RetryPolicy} {id : PoolId} {pool : Pool} {events : List Event}
    {attempts : List Attempt} {steps : Nat} {progress : Progress}
    (h : Pursues policy id pool events attempts steps progress) :
    steps ≤ 7 * (policy.maxRetries.toNat + 1) := by
  have hpace := h.pace
  cases h.stands with
  | trying before hcount hmax hpurpose => omega
  | @discarding earlier lease retries failure before hcount hmax hdiscard =>
      have hspent : steps + 8 ≤ 7 * ((earlier ++ [Attempt.broke lease retries failure]).length +
        1) := hpace
      rw [List.length_append, List.length_singleton] at hspent
      omega
  | ended before hmax hlast =>
      rw [Progress.rank, List.length_append, List.length_singleton] at hpace
      omega

end LeasePool
