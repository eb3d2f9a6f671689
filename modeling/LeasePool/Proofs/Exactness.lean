import LeasePool.Proofs.Refusals

/-!
Exact sweeps. A sweep closes every idle resource that it is for, once each and from the bottom of
the free list to the top, whatever the factory answers, and destroys them when it has closed the
last one. Their slots become vacant where they are, and nothing else of the pool changes. Another
sweep at the same instant finds nothing to close.
-/

namespace LeasePool

variable {world : World} {id : PoolId} {pool : Pool} {takes : IdleResource → Bool}
  {resource : ResourceId} {taken rest : List ResourceId} {asked : List Question}

/-- The idle resources that satisfy a condition, from the bottom of the free list to the top. -/
def Pool.matching (pool : Pool) (takes : IdleResource → Bool) : List IdleResource :=
  (pool.free.reverse.filterMap Slot.idle?).filter takes

/-- What a sweep leaves of a slot: the slot is vacant if its idle resource satisfies the condition.
-/
def Slot.cleared (takes : IdleResource → Bool) (slot : Slot) : Slot :=
  if slot.idle?.any takes then .vacant else slot

/-- Which idle resources of a pool a call is to close at an instant, if it is a sweep. -/
def Call.takes? (pool : Pool) (now : Instant) : Call → Option (IdleResource → Bool)
  | .closeIdle => some fun _ => true
  | .evictExpired => some (pool.isExpired now)
  | _ => none

theorem Call.lease?_of_takes? {call : Call} {now : Instant}
    (hcall : call.takes? pool now = some takes) : call.lease? = none := by
  cases call with
  | closeIdle | evictExpired => rfl
  | acquire | release | discard | disconnectAll | invalidate | run => cases hcall

namespace Pool

theorem selected_eq_matching (pool : Pool) (takes : IdleResource → Bool) :
    pool.selected takes = (pool.matching takes).map (·.resource) := by
  unfold selected matching
  generalize pool.free.reverse = slots
  induction slots with
  | nil => rfl
  | cons slot rest ih =>
      cases slot with
      | vacant => exact ih
      | idle entry => by_cases htakes : takes entry <;> simp [Slot.idle?, htakes, ih]

theorem free_vacate (pool : Pool) (takes : IdleResource → Bool) :
    (pool.vacate takes).free = pool.free.map (Slot.cleared takes) := by
  refine List.map_congr_left fun slot _ => ?_
  cases slot with
  | vacant => rfl
  | idle entry => rfl

theorem mem_idle_of_mem_matching {entry : IdleResource} (h : entry ∈ pool.matching takes) :
    entry.resource ∈ pool.idle := by
  have hselected : entry.resource ∈ pool.selected takes := by
    rw [selected_eq_matching]
    exact List.mem_map_of_mem h
  exact Multiset.mem_coe.2 (mem_idle_of_mem_selected hselected)

/-- A sweep leaves no slot to another one that is for the same resources. -/
theorem matching_vacate (pool : Pool) (takes : IdleResource → Bool) :
    (pool.vacate takes).matching takes = [] := by
  refine List.filter_eq_nil_iff.2 fun entry hmem => ?_
  obtain ⟨slot, hslot, hentry⟩ := List.mem_filterMap.1 hmem
  rw [List.mem_reverse, free_vacate] at hslot
  obtain ⟨old, -, rfl⟩ := List.mem_map.1 hslot
  unfold Slot.cleared at hentry
  split at hentry
  · cases hentry
  · next hkept =>
    rw [hentry] at hkept
    simpa using hkept

theorem matching_replicate_vacant {count : Nat} (h : pool.free = List.replicate count .vacant) :
    pool.matching takes = [] := by
  rw [matching, h, List.reverse_replicate, List.filterMap_replicate_of_none rfl]
  rfl

end Pool

/-- Where a sweep stands that took `taken` out of a pool which it left as `pool`, with what it asked
so far. -/
inductive Sweeps (id : PoolId) (pool : Pool) (taken : List ResourceId) (world : World) :
    List Question → Progress → Prop where
  | sweeping {closed resource rest} (htaken : taken = closed ++ resource :: rest)
      (hpool : world.pool id = pool) :
      Sweeps id pool taken world (closed.map (.close id) ++ [.close id resource])
        (.pending (.sweeping id resource rest taken))
  | ended (hpool : world.pool id = pool)
      (hgone : ∀ resource ∈ taken, world.destructions resource = 1) :
      Sweeps id pool taken world (taken.map (.close id)) (.done (.swept taken.length))

namespace World

/-- A sweep begins with the pool as it is after a look at its process. -/
theorem begin_of_takes? {call : Call}
    (hcall : call.takes? ((world.checkOwner id).pool id) world.clock = some takes) :
    world.begin id call =
      ((world.checkOwner id).modifyPool id fun pool => pool.vacate takes).sweepNext id
        (((world.checkOwner id).pool id).selected takes)
        (((world.checkOwner id).pool id).selected takes) := by
  cases call with
  | closeIdle =>
      cases hcall
      rfl
  | evictExpired =>
      cases hcall
      have hvacate : (world.checkOwner id).modifyPool id
            (fun pool => pool.vacate (pool.isExpired world.clock)) =
          (world.checkOwner id).modifyPool id fun pool =>
            pool.vacate (((world.checkOwner id).pool id).isExpired world.clock) :=
        modifyPool_congr rfl
      rw [begin, evictExpired, sweep, hvacate]
  | acquire | release | discard | disconnectAll | invalidate | run => cases hcall

/-- A sweep goes on to the next resource that it took, or lets go of all of them. -/
theorem sweepNext_sweeps {closed : List ResourceId} (htaken : taken = closed ++ rest)
    (hpool : world.pool id = pool)
    (hkept : rest = [] → ∀ resource ∈ taken, ∃ owned gripped,
      world.Kept (↑taken + owned) gripped ∧ gripped.count resource = 0) :
    Sweeps id pool taken (world.sweepNext id taken rest).1
      (closed.map (.close id) ++ (world.sweepNext id taken rest).2.question?.toList)
      (world.sweepNext id taken rest).2 := by
  cases rest with
  | cons resource rest => exact .sweeping htaken hpool
  | nil =>
      have hends : ∀ ready : World, ready.pools = world.pools →
          (∀ owned gripped, world.Kept owned gripped → ready.Kept owned gripped) →
          Sweeps id pool taken (ready.letGoAll taken) (taken.map (.close id))
            (.done (.swept taken.length)) := by
        intro ready hpools hsame
        refine .ended ?_ fun resource hmem => ?_
        · rw [pool_congr letGoAll_pools, pool_congr hpools, hpool]
        · obtain ⟨owned, gripped, kept, hgrips⟩ := hkept rfl resource hmem
          exact ((hsame _ _ kept).destructions_letGoAll hmem hgrips).2.1
      rw [List.append_nil] at htaken
      subst htaken
      unfold sweepNext
      dsimp only [Progress.question?, Option.toList_none]
      rw [List.append_nil]
      split
      · exact hends world rfl fun _ _ kept => kept
      · exact hends _ rfl fun _ _ kept => kept.note _

end World

namespace System

variable {system next start final : System} {event : Event} {events : List Event} {task : Task}
  {progress : Progress} {acts : List Act} {call : Call}

/-- What a sweep took is in its hand until it ends. -/
theorem kept_of_sweeping (reach : system.Reachable)
    (htask : .sweeping id resource rest taken ∈ system.tasks) :
    ∃ owned, system.world.Kept (↑taken + owned) system.scene.gripped := by
  obtain ⟨others, hhand⟩ := handOf_of_mem htask
  have kept : World.Kept system.world system.scene.owned system.scene.gripped :=
    reachable_kept reach
  rw [scene, hhand, Task.holdings, add_assoc, Scene.owned_add_loose, ← add_assoc,
    ← Task.holdings, ← hhand] at kept
  exact ⟨_, kept⟩

/-- A sweep goes on when a resource was closed, with a failure or without. -/
theorem Turn.sweeps (turn : system.Turn id event (some task) next progress)
    (reach : system.Reachable) (hplace : pool.owner.pool = id)
    (hmade : ∀ resource ∈ taken, system.world.makerOf? resource = some pool.owner)
    (h : Sweeps id pool taken system.world asked (.pending task)) :
    Sweeps id pool taken next.world (asked ++ progress.question?.toList) progress := by
  cases h with
  | @sweeping closed resource rest htaken hpool =>
      rcases turn.resumes_or_wakes with ⟨place, reply, result, rfl, h, hnext, rfl⟩ | ⟨_, _, _, h, -⟩
      · cases reply with
        | created | notCreated | valid | worked | broke => cases h
        | closed failure =>
            cases h
            have hsame : (system.world.noteClose resource failure).pool id = pool := by
              rw [World.pool_congr World.noteClose_pools, hpool]
            have hpast : closed.map (Question.close id) ++ [.close id resource] =
                (closed ++ [resource]).map (Question.close id) := by
              rw [List.map_append, List.map_singleton]
            rw [hnext, hpast]
            refine World.sweepNext_sweeps ?_ hsame fun _ asked hmem => ?_
            · rw [htaken, List.append_assoc, List.singleton_append]
            · obtain ⟨owned, kept⟩ := kept_of_sweeping reach turn.mem_before
              refine ⟨owned, system.scene.gripped, ?_, ?_⟩
              · cases failure with
                | none => exact kept
                | some failure => exact kept.note _
              · have howner : (system.world.pool pool.owner.pool).owner = pool.owner := by
                  rw [hplace, hpool]
                -- A teardown grips nothing that was made under the present owner.
                exact Multiset.count_eq_zero_of_notMem
                  ((reachable_dated reach).notMem_gripped (hmade asked hmem) howner)
      · cases h

/-- What a pool has idle when it has looked at its process was made under its owner. -/
theorem makerOf?_of_matching (reach : start.Reachable) (hid : id < start.world.pools.length)
    {entry : IdleResource} (hmem : entry ∈ ((start.world.checkOwner id).pool id).matching takes) :
    start.world.makerOf? entry.resource = some ((start.world.checkOwner id).pool id).owner := by
  have fits : Scene.Fits ⟨start.world.checkOwner id, handOf start.tasks⟩ :=
    Move.fits (.refresh hid) (reachable_fits reach)
  have hid' : id < (start.world.checkOwner id).pools.length := by rwa [World.length_checkOwner]
  have hmade := (fits.pools.pool hid').idle _ (Pool.mem_idle_of_mem_matching hmem)
  rwa [World.makerOf?_checkOwner] at hmade

/-- No resource is idle twice. -/
theorem nodup_matching (reach : start.Reachable) (hid : id < start.world.pools.length) :
    ((((start.world.checkOwner id).pool id).matching takes).map (·.resource)).Nodup := by
  have kept : Scene.Kept ⟨start.world.checkOwner id, handOf start.tasks⟩ :=
    Scene.Kept.checkOwner (reachable_kept reach) hid
  have hid' : id < (start.world.checkOwner id).pools.length := by rwa [World.length_checkOwner]
  generalize start.world.checkOwner id = found at kept hid'
  rw [← Pool.selected_eq_matching, ← Multiset.coe_nodup, Multiset.nodup_iff_count_le_one]
  intro resource
  obtain ⟨others, hidle, -⟩ := World.idle_split hid'
  have hsingle := kept.single resource
  have hpool := (found.pool id).idle_vacate_add_selected takes
  rw [Scene.owned, hidle, ← hpool, Multiset.count_add, Multiset.count_add, Multiset.count_add]
    at hsingle
  omega

theorem Story.sweeps (story : Story (Spares id) start id call events final progress acts)
    (reach : start.Reachable)
    (hcall : call.takes? ((start.world.checkOwner id).pool id) start.world.clock = some takes) :
    Sweeps id (((start.world.checkOwner id).pool id).vacate takes)
      ((((start.world.checkOwner id).pool id).matching takes).map (·.resource)) final.world
      (acts.filterMap Act.question?) progress := by
  have hid : id < start.world.pools.length := story.lt_start reach
  have hid' : id < (start.world.checkOwner id).pools.length := by rwa [World.length_checkOwner]
  have hplace : ((start.world.checkOwner id).pool id).owner.pool = id :=
    ((Move.fits (.refresh hid) (reachable_fits reach)).pools.pool hid').pool_eq
  have hmade : ∀ resource ∈ (((start.world.checkOwner id).pool id).matching takes).map
      (·.resource), start.world.makerOf? resource =
        some ((start.world.checkOwner id).pool id).owner := by
    intro resource hmem
    obtain ⟨entry, hentry, rfl⟩ := List.mem_map.1 hmem
    exact makerOf?_of_matching reach hid hentry
  induction story with
  | @begins next progress turn =>
      have hbegin := turn.eq_begin
      rw [World.begin_of_takes? hcall, Pool.selected_eq_matching] at hbegin
      have hworld : next.world = _ := congrArg Prod.fst hbegin
      have hprogress : progress = _ := congrArg Prod.snd hbegin
      rw [filterMap_singleton, Act.question?, hworld, hprogress]
      refine @World.sweepNext_sweeps _ _ _ _ _ [] rfl (World.pool_modifyPool_self hid') ?_
      intro hnone resource hmem
      rw [hnone] at hmem
      cases hmem
  | @waits events middle task event next acts before spares hstep hstays ih =>
      have spared := spares.step? (before.reachable reach) hstep
      generalize acts.filterMap Act.question? = asked at ih
      cases ih with
      | sweeping htaken hpool => exact .sweeping htaken (spared.pool_eq.trans hpool)
  | @goesOn events middle task event next progress acts before turn ih =>
      have hkeeps : start.world.KeepsMakers middle.world :=
        (lasting_makers start.world).run? (reachable_fits reach) (fun _ _ hmaker => hmaker)
          before.run?
      rw [filterMap_concat]
      exact turn.sweeps (before.reachable reach) hplace
        (fun resource hmem => hkeeps _ _ (hmade resource hmem)) ih

/-- A sweep after any story of its call, if it found its pool as `found` and is for the resources
that `takes` tells. -/
structure Sweep (start : System) (id : PoolId) (call : Call) (takes : IdleResource → Bool)
    (found : Pool) (final : System) (progress : Progress) (acts : List Act) : Prop where
  /-- It closes the resources that it is for and no others, one after the other. -/
  asked : acts.filterMap Act.question? <+:
    (found.matching takes).map fun entry => .close id entry.resource
  /-- Their slots are vacant from the first moment on, and no other slot has changed. -/
  slots : (final.world.pool id).free = found.free.map (Slot.cleared takes)
  /-- Nothing else of the pool changes. -/
  frame : final.world.pool id = { found with free := (final.world.pool id).free }
  /-- None of the resources is destroyed before the last one is closed. -/
  waits : ∀ task, progress = .pending task →
    ∀ entry ∈ found.matching takes, final.world.destructions entry.resource = 0
  /-- In the end all of them were closed, each was destroyed once, and their number is told. -/
  ended : ∀ outcome, progress = .done outcome →
    outcome = .swept (found.matching takes).length ∧
    acts.filterMap Act.question? =
      (found.matching takes).map (fun entry => .close id entry.resource) ∧
    ∀ entry ∈ found.matching takes, final.world.destructions entry.resource = 1
  /-- The same sweep at the same instant ends at once: it closes nothing. -/
  again : ∀ outcome, progress = .done outcome → final.world.clock = start.world.clock →
    ∃ next, final.Turn id (.call id call) none next (.done (.swept 0))
  /-- It does not stop before it ends. -/
  goesOn : ∀ task, progress = .pending task → final.CanGoOn id task

/-- A sweep finds nothing to close where another one at the same instant has just been. -/
theorem turn_of_swept (hid : id < final.world.pools.length)
    (hfinal : final.world.pool id = pool.vacate takes)
    (hcall : call.takes? pool final.world.clock = some takes) :
    ∃ next, final.Turn id (.call id call) none next (.done (.swept 0)) := by
  have hconfig : ((final.world.checkOwner id).pool id).config = pool.config := by
    rw [World.pool_checkOwner hid, hfinal]
    split <;> rfl
  have hsame : call.takes? ((final.world.checkOwner id).pool id) final.world.clock =
      some takes := by
    rw [← hcall]
    cases call with
    | evictExpired => exact congrArg some (funext fun entry => Pool.isExpired_congr hconfig)
    | closeIdle | acquire | release | discard | disconnectAll | invalidate | run => rfl
  have hnone : ((final.world.checkOwner id).pool id).selected takes = [] := by
    rw [Pool.selected_eq_matching, World.pool_checkOwner hid, hfinal, List.map_eq_nil_iff]
    split
    · exact Pool.matching_vacate pool takes
    · exact Pool.matching_replicate_vacant rfl
  have turn : final.Turn id (.call id call) none _ _ :=
    turn_of_call call hid (Call.lease?_of_takes? hcall)
  have hbegin := World.begin_of_takes? hsame
  rw [hnone] at hbegin
  have hprogress : (final.world.begin id call).2 = .done (.swept 0) := congrArg Prod.snd hbegin
  rw [hprogress] at turn
  exact ⟨_, turn⟩

theorem Story.sweep (story : Story (Spares id) start id call events final progress acts)
    (reach : start.Reachable)
    (hcall : call.takes? ((start.world.checkOwner id).pool id) start.world.clock = some takes) :
    Sweep start id call takes ((start.world.checkOwner id).pool id) final progress acts := by
  have sweeps := story.sweeps reach hcall
  have hid : id < final.world.pools.length := story.lt reach
  generalize (start.world.checkOwner id).pool id = found at hcall sweeps
  generalize hasked : acts.filterMap Act.question? = asked at sweeps
  have hpool : final.world.pool id = found.vacate takes := by
    cases sweeps with
    | sweeping _ hpool | ended hpool => exact hpool
  have hfree : (final.world.pool id).free = found.free.map (Slot.cleared takes) := by
    rw [hpool, Pool.free_vacate]
  have hclose : ((found.matching takes).map (·.resource)).map (Question.close id) =
      (found.matching takes).map fun entry => .close id entry.resource := List.map_map
  refine ⟨?_, hfree, ?_, ?_, ?_, ?_, ?_⟩
  · rw [hasked, ← hclose]
    cases sweeps with
    | @sweeping closed resource rest htaken =>
        rw [htaken, List.map_append, List.map_cons]
        exact ⟨rest.map (.close id), by rw [List.append_assoc, List.singleton_append]⟩
    | ended => exact List.prefix_refl _
  · rw [hfree, hpool, Pool.vacate, ← Pool.free_vacate]
    rfl
  · rintro task rfl entry hmem
    have htask : task ∈ final.tasks := story.mem_tasks
    cases sweeps with
    | sweeping =>
        obtain ⟨owned, kept⟩ := kept_of_sweeping (story.reachable reach) htask
        refine kept.destructions_eq_zero ?_
        rw [kept.holders, Multiset.count_add]
        have htaken : entry.resource ∈ (found.matching takes).map (·.resource) :=
          List.mem_map_of_mem hmem
        have hpos := Multiset.count_pos.2 (Multiset.mem_coe.2 htaken)
        omega
  · rintro outcome rfl
    cases sweeps with
    | ended _ hgone =>
        refine ⟨by rw [List.length_map], hasked.trans hclose, fun entry hmem => ?_⟩
        exact hgone _ (List.mem_map_of_mem hmem)
  · rintro outcome rfl hclock
    exact turn_of_swept hid hpool (hclock ▸ hcall)
  · rintro task rfl
    cases sweeps with
    | sweeping => exact canGoOn_of_isSome final rfl (.inl rfl)

/-- A sweep is exact, whatever lies in the free list and whatever the factory answers, while nothing
else happens to the pool. It closes the idle resources that it is for, once each and from the bottom
to the top, and destroys them when the last one is closed; it leaves their slots vacant and all else
of the pool as it is. It works on the pool as it is after a look at its process: a pool that finds
itself in another process was reset, and there is nothing idle to close. -/
theorem sweep_exact (reach : start.Reachable) (hid : id < start.world.pools.length)
    (hcall : call.takes? ((start.world.checkOwner id).pool id) start.world.clock = some takes) :
    ((start.world.pool id).notedPid = start.world.currentPid id →
      (start.world.checkOwner id).pool id = start.world.pool id) ∧
    ((start.world.pool id).notedPid ≠ start.world.currentPid id →
      let looked := (start.world.checkOwner id).pool id
      (∀ slot ∈ looked.free, slot = .vacant) ∧ looked.matching takes = [] ∧
        looked.owner = (start.world.pool id).owner.withPid (start.world.currentPid id) ∧
        looked.resets = (start.world.pool id).resets + 1) ∧
    ((((start.world.checkOwner id).pool id).matching takes).map (·.resource)).Nodup ∧
    (∃ next progress, start.Turn id (.call id call) none next progress) ∧
    ∀ events final progress acts, Story (Spares id) start id call events final progress acts →
      Sweep start id call takes ((start.world.checkOwner id).pool id) final progress acts := by
  refine ⟨?_, ?_, nodup_matching reach hid, ?_, ?_⟩
  · intro hnoted
    rw [World.checkOwner_of_eq hnoted.symm]
  · intro hnew
    rw [World.pool_checkOwner hid, if_neg hnew.symm]
    exact ⟨fun slot hmem => (List.mem_replicate.1 hmem).2, Pool.matching_replicate_vacant rfl, rfl,
      rfl⟩
  · exact ⟨_, _, turn_of_call call hid (Call.lease?_of_takes? hcall)⟩
  · intro events final progress acts story
    exact story.sweep reach hcall

/-- The sweep finds a vacant slot, an idle resource within its lifetime and one past it. -/
theorem sweep_exact_mixed : ∃ system,
    (init [7] [(0, { Config.ofSize 3 with maxLifetime := some 10 })]).run?
        [.call 0 (.acquire none), .reply 0 (.created "db"), .advance (Duration.ofMillis 20),
          .call 0 (.acquire none), .reply 0 (.created "db"),
          .call 0 (.release ⟨0, ⟨0, 7, 0⟩, 0⟩), .call 0 (.release ⟨1, ⟨0, 7, 0⟩, 20000000⟩)] =
      some system ∧
      ∃ takes, ((system.world.checkOwner 0).pool 0).matching takes = [⟨0, 0, 20000000⟩] ∧
        ∀ events final progress acts,
          Story (Spares 0) system 0 .evictExpired events final progress acts →
          Sweep system 0 .evictExpired takes ((system.world.checkOwner 0).pool 0) final progress
            acts := by
  refine exists_run? rfl fun system hrun => ?_
  have hid : 0 < system.world.pools.length := by
    cases hrun
    decide
  refine ⟨_, ?_, (sweep_exact ⟨_, _, _, hrun⟩ hid rfl).2.2.2.2⟩
  cases hrun
  rfl

/-- A pool that has yet to notice its process is reset first, and what was idle is not closed. -/
theorem inherited_not_swept : ∃ system,
    (init [7] [(0, Config.ofSize 1)]).run?
        [.call 0 (.acquire none), .reply 0 (.created "db"),
          .call 0 (.release ⟨0, ⟨0, 7, 0⟩, 0⟩), .fork 0 8] = some system ∧
      (system.world.pool 0).matching (fun _ => true) = [⟨0, 0, 0⟩] ∧
      ∃ next, system.Turn 0 (.call 0 .closeIdle) none next (.done (.swept 0)) ∧
        (next.world.pool 0).owner ≠ (system.world.pool 0).owner := by
  refine exists_run? rfl fun system hrun => ?_
  cases hrun
  exact ⟨rfl, _, turn_of_call .closeIdle (by decide) rfl, by decide⟩

end System
end LeasePool
