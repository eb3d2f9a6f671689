import LeasePool.Proofs.Disconnection

/-!
Undisturbed teardowns. When no operation is under way, the live entries of a registry are idle, lent
or forgotten. As long as callbacks leave the pool and its leases alone they stay alive, so a
teardown closes each of them once, in the order of creation; then it destroys the idle ones.
-/

namespace LeasePool
namespace System

variable {system start middle next final : System} {id : PoolId} {event : Event}
  {events : List Event} {first progress : Progress} {asked : List Question}
  {resource : ResourceId} {free rest : List ResourceId} {closed : Nat}

/-- Between operations a live resource of the pool's owner lies idle in the pool, or is lent by it,
or was forgotten. -/
theorem place_of_isAlive (reach : system.Reachable) (hquiet : system.IsQuiet)
    (hid : id < system.world.pools.length)
    (hmaker : system.world.makerOf? resource = some (system.world.pool id).owner)
    (halive : system.world.isAlive resource = true) :
    resource ∈ idleFromBottom (system.world.pool id).free ∨
      (∃ lease ∈ system.heldFrom id, lease.resource = resource) ∨
      system.world.isForgotten resource = true := by
  have fits := reachable_fits reach
  have hplace : (system.world.pool id).owner.pool = id := reach.owner_pool hid
  have hhand : system.scene.hand = 0 := by
    rw [scene, hquiet]
    rfl
  have hgripped : system.scene.gripped = 0 := by
    rw [Scene.gripped, hhand, Multiset.filterMap_zero]
  rcases (reachable_kept reach).isAlive_iff_placed.1 halive with howned | hgrips | hforgotten
  · rw [Scene.owned, hhand, Multiset.filterMap_zero, add_zero] at howned
    rcases Multiset.mem_add.1 howned with hidle | hheld
    · exact .inl (mem_idle_of_makerOf? reach hid hmaker hidle)
    · obtain ⟨lease, hlease, rfl⟩ := List.mem_map.1 (Multiset.mem_coe.1 hheld)
      have hsame := Option.some_inj.1 ((fits.held lease hlease).2.symm.trans hmaker)
      refine .inr (.inl ⟨lease, List.mem_filter.2 ⟨hlease, ?_⟩, rfl⟩)
      rw [hsame, hplace, decide_eq_true rfl]
  · rw [hgripped] at hgrips
    exact absurd hgrips (Multiset.notMem_zero resource)
  · exact .inr (.inr hforgotten)

/-- Each live resource of the pool's owner is to be closed once, in the order of creation. -/
def closes (system : System) (id : PoolId) : List Question :=
  (system.livesUnder (system.world.pool id).owner).map (.close id)

/-- What callbacks leave alone of a pool that was torn down in the state `system`: the pool, the
leases that callers hold from it, and what was destroyed or forgotten before. -/
structure Untouched (system : System) (id : PoolId) (world : World) : Prop where
  pool_eq : world.pool id = (system.world.pool id).tearDown
  held : ∀ lease ∈ system.heldFrom id, lease ∈ world.held
  journal : ∀ signal ∈ system.world.journal, signal ∈ world.journal
  forgotten : ∀ resource, system.world.isForgotten resource = true →
    world.isForgotten resource = true

namespace Untouched

variable {world after : World} {others : List Task} {failure : Option Failure}

theorem tearDown (hid : id < system.world.pools.length) :
    Untouched system id (system.world.modifyPool id Pool.tearDown) :=
  ⟨World.pool_modifyPool_self hid, fun _ hmem => (List.mem_filter.1 hmem).1, fun _ h => h,
    fun _ h => h⟩

theorem extend (h : Untouched system id world) (hpool : after.pool id = world.pool id)
    (hheld : ∀ lease ∈ system.heldFrom id, lease ∈ world.held → lease ∈ after.held)
    (hjournal : ∀ signal ∈ world.journal, signal ∈ after.journal)
    (hforgotten : ∀ resource, world.isForgotten resource = true →
      after.isForgotten resource = true) : Untouched system id after :=
  ⟨hpool.trans h.pool_eq, fun lease hmem => hheld lease hmem (h.held lease hmem),
    fun signal hmem => hjournal signal (h.journal signal hmem),
    fun resource hmem => hforgotten resource (h.forgotten resource hmem)⟩

theorem hold (h : Untouched system id world) (resource : ResourceId) :
    Untouched system id (world.hold resource) :=
  h.extend rfl (fun _ _ hmem => hmem) (fun _ hmem => hmem)
    fun _ hmem => World.isForgotten_hold.trans hmem

theorem note (h : Untouched system id world) (notice : Notice) :
    Untouched system id (world.note notice) :=
  h.extend rfl (fun _ _ hmem => hmem) (fun _ hmem => List.mem_cons_of_mem _ hmem)
    fun _ hmem => hmem

theorem letGo (h : Untouched system id world) (resource : ResourceId) :
    Untouched system id (world.letGo resource) := by
  refine h.extend (World.pool_congr World.letGo_pools) (fun _ _ hmem => ?_)
    (fun _ => World.mem_journal_letGo) fun _ hmem => World.isForgotten_letGo.trans hmem
  rwa [World.letGo_held]

theorem letGoAll (h : Untouched system id world) (resources : List ResourceId) :
    Untouched system id (world.letGoAll resources) := by
  induction resources generalizing world with
  | nil => exact h
  | cons resource rest ih => exact ih (h.letGo resource)

theorem noteClose (h : Untouched system id world) (resource : ResourceId)
    (failure : Option Failure) : Untouched system id (world.noteClose resource failure) := by
  cases failure with
  | none => exact h
  | some failure => exact h.note _

/-- What callbacks may do. -/
theorem step? (h : Untouched system id middle.world) (reach : middle.Reachable)
    (spares : Spares id middle event) (hstep : middle.step? event = some next) :
    Untouched system id next.world := by
  have fits := reachable_fits reach
  have spared := spares.step? reach hstep
  refine h.extend spared.pool_eq (fun lease hmem hheld => ?_)
    (fun signal hmem => (lasting_journal signal).step? fits hmem hstep)
    (fun resource hmem => (lasting_forgotten resource).step? fits hmem hstep)
  have hfrom : lease ∈ middle.heldFrom id :=
    List.mem_filter.2 ⟨hheld, (List.mem_filter.1 hmem).2⟩
  exact (List.mem_filter.1 (spared.held_perm.mem_iff.2 hfrom)).1

/-- The live entries are those that were alive when the teardown began. -/
theorem isAlive_eq (h : Untouched system id world) (midway : Midway id free rest world others)
    (hfree : free = idleFromBottom (system.world.pool id).free) (reach : system.Reachable)
    (hquiet : system.IsQuiet) (hid : id < system.world.pools.length) (hmem : resource ∈ rest)
    (hmaker : system.world.makerOf? resource = some (system.world.pool id).owner) :
    world.isAlive resource = system.world.isAlive resource := by
  cases hbefore : system.world.isAlive resource with
  | false =>
      have hlt := World.lt_of_makerOf? hmaker
      have hgone := ((reachable_kept reach).mem_destroyed_iff hlt).2 hbefore
      exact (midway.destroyed_iff_dead hmem).1 (h.journal _ hgone)
  | true =>
      rcases place_of_isAlive reach hquiet hid hmaker hbefore with
        hidle | ⟨lease, hlease, rfl⟩ | hforgotten
      · rw [← hfree] at hidle
        exact midway.isAlive_of_mem_free hidle
      · exact midway.isAlive_of_mem_held (h.held lease hlease)
      · exact midway.kept_free.isAlive_iff_placed.2 (.inr (.inr (h.forgotten _ hforgotten)))

end Untouched

/-- Where a teardown stands that was begun between operations in the state `system`: what it asked
and the live entries that are left are all there is to close. -/
inductive Proceeds (system : System) (id : PoolId) (final : System) (asked : List Question) :
    Progress → Prop where
  | closing {resource : ResourceId} {rest : List ResourceId} {closed : Nat}
      (untouched : Untouched system id final.world)
      (alone : final.tasksOn id =
        [.disconnecting id resource rest (idleFromBottom (system.world.pool id).free) closed])
      (listed : rest ⊆ (system.world.pool id).registry)
      (order : asked ++ (rest.filter system.world.isAlive).map (.close id) = system.closes id)
      (count : asked.length = closed + 1) :
      Proceeds system id final asked (.pending
        (.disconnecting id resource rest (idleFromBottom (system.world.pool id).free) closed))
  | ended {earlier : List Signal} (untouched : Untouched system id final.world)
      (order : asked = system.closes id)
      (journal : final.world.journal = .notice (.disconnected asked.length) ::
        (((idleFromBottom (system.world.pool id).free).map Signal.destroyed).reverse ++ earlier))
      (last : ∀ resource ∈ idleFromBottom (system.world.pool id).free,
        .destroyed resource ∉ earlier) :
      Proceeds system id final asked (.done .finished)

/-- A look at what is listed, when no other operation works on the pool. -/
theorem Untouched.look {world : World} {others : List Task} (h : Untouched system id world)
    (midway : Midway id (idleFromBottom (system.world.pool id).free) rest world others)
    (reach : system.Reachable) (hquiet : system.IsQuiet) (hid : id < system.world.pools.length)
    (hothers : ∀ task ∈ others, task.pool ≠ id)
    (listed : rest ⊆ (system.world.pool id).registry)
    (order : asked ++ (rest.filter system.world.isAlive).map (.close id) = system.closes id) :
    let result := world.disconnectNext id (idleFromBottom (system.world.pool id).free) asked.length
      rest
    Proceeds system id (settle others result) (asked ++ result.2.question?.toList) result.2 := by
  have hfits := (reachable_fits reach).pools.pool hid
  have hsame : ∀ resource ∈ rest, world.isAlive resource = system.world.isAlive resource := by
    intro resource hmem
    exact h.isAlive_eq midway rfl reach hquiet hid hmem (hfits.registry resource (listed hmem))
  rw [← List.filter_congr hsame] at order
  rcases world.disconnectNext_cases id (idleFromBottom (system.world.pool id).free) asked.length
    rest with ⟨hdead, hend⟩ | ⟨skipped, resource, later, rfl, hskipped, halive, hnext⟩
  · have hnone : rest.filter world.isAlive = [] :=
      List.filter_eq_nil_iff.2 fun other hmem => by simp [hdead other hmem]
    have hjournal := midway.kept_free.journal_letGoAll
      fun other hmem => midway.count_gripped hothers hmem
    rw [hnone, List.map_nil, List.append_nil] at order
    rw [hend]
    simp only [Progress.question?, Option.toList_none, List.append_nil]
    exact .ended ((h.letGoAll _).note _) order (congrArg _ hjournal)
      fun other hmem => midway.notMem_destroyed hmem
  · have hnone : skipped.filter world.isAlive = [] :=
      List.filter_eq_nil_iff.2 fun other hmem => by simp [hskipped other hmem]
    have hlater : ∀ other ∈ later, world.isAlive other = system.world.isAlive other :=
      fun other hmem => hsame other (by simp [hmem])
    rw [List.filter_append, hnone, List.nil_append, List.filter_cons_of_pos halive, List.map_cons,
      List.filter_congr hlater] at order
    rw [hnext]
    refine .closing (h.hold resource) ?_ (fun other hmem => listed (by simp [hmem])) ?_ ?_
    · have hnone : others.filter (fun task => task.pool = id) = [] :=
        List.filter_eq_nil_iff.2 fun task hmem => by simpa using hothers task hmem
      refine (tasksOn_settle (by rintro _ ⟨⟩; rfl)).trans ?_
      rw [hnone]
      rfl
    · simpa [Progress.question?, Task.question?] using order
    · simp [Progress.question?, Task.question?]

/-- Next to the only task on a pool there are tasks on other pools. -/
theorem pool_ne_of_alone {place : Nat} {task : Task} (htask : system.tasks[place]? = some task)
    (halone : system.tasksOn id = [task]) :
    ∀ other ∈ system.tasks.eraseIdx place, other.pool ≠ id := by
  intro other hmem hother
  have howned : task ∈ system.tasksOn id := halone ▸ List.mem_singleton_self task
  have hpool : task.pool = id := of_decide_eq_true (List.mem_filter.1 howned).2
  have hperm : (system.tasksOn id).Perm _ := tasksOn_perm htask
  rw [halone, List.filter_cons_of_pos (by simpa using hpool)] at hperm
  have hnone := (List.perm_cons _).1 hperm
  exact List.not_mem_nil (hnone.mem_iff.2 (List.mem_filter.2 ⟨hmem, decide_eq_true hother⟩))

/-- Step by step a teardown closes what it is to close, whatever happens elsewhere. -/
theorem Dialogue.proceeds (dialogue : Dialogue (Spares id) start first events final progress asked)
    (begun : start.Reachable) (reach : system.Reachable) (hquiet : system.IsQuiet)
    (hid : id < system.world.pools.length)
    (hstart : Proceeds system id start first.question?.toList first) :
    Proceeds system id final asked progress := by
  induction dialogue with
  | here => exact hstart
  | @waits events middle task event next asked before spares hstep hstays ih =>
      have hmiddle := begun.run? before.run?
      cases ih with
      | closing untouched alone listed order count =>
          have htasks := (spares.step? hmiddle hstep).tasks_perm
          rw [alone] at htasks
          exact .closing (untouched.step? hmiddle spares hstep) (List.perm_singleton.1 htasks)
            listed order count
  | @goesOn events middle task agent event next progress asked before turn ih =>
      cases ih with
      | @closing resource rest closed untouched alone listed order count =>
          obtain ⟨rfl, place, failure, htask, midway, rfl, rfl⟩ :=
            turn.midway_of_reply (begun.run? before.run?)
          have hothers := pool_ne_of_alone htask alone
          rw [← count]
          exact ((untouched.noteClose resource failure).letGo resource).look midway reach hquiet hid
            hothers listed order

/-- The idle resources that a teardown has in hand are alive. -/
theorem isAlive_of_teardown {other : ResourceId} (reach : system.Reachable)
    (htask : .disconnecting id resource rest free closed ∈ system.tasks) (hmem : other ∈ free) :
    system.world.isAlive other = true := by
  have hheld : Holding.loose id other ∈
      (Task.disconnecting id resource rest free closed).holdings := by
    simp [Task.holdings, hmem]
  have hhand : Holding.loose id other ∈ system.scene.hand := mem_handOf.2 ⟨_, htask, hheld⟩
  refine (reachable_kept reach).isAlive_iff_placed.2 (.inl ?_)
  refine Multiset.mem_add.2 (.inr (Multiset.mem_add.2 (.inr ?_)))
  exact (Multiset.mem_filterMap _ _).2 ⟨_, hhand, rfl⟩

/-- What a teardown that was begun between operations has done where it stands, if callbacks leave
the pool and its leases alone. -/
structure ClosesOnce (system : System) (id : PoolId) (final : System) (progress : Progress)
    (asked : List Question) : Prop where
  emptied : (final.world.pool id).free = [] ∧ (final.world.pool id).registry = []
  leased : ∀ lease ∈ system.heldFrom id,
    lease ∈ final.world.held ∧ final.world.isAlive lease.resource = true
  once : asked.Nodup
  /-- It goes on after every answer, and until the last one no idle resource is destroyed. -/
  stands : progress = .done .finished ∨ final.AwaitsClose id progress ∧
    asked <+: system.closes id ∧
    ∀ resource ∈ idleFromBottom (system.world.pool id).free,
      final.world.isAlive resource = true
  /-- In the end everything was closed; after that the idle resources are destroyed, from the bottom
  of the free list to its top. -/
  ends : progress = .done .finished → asked = system.closes id ∧ ∃ earlier,
    final.world.journal = .notice (.disconnected asked.length) ::
      (((idleFromBottom (system.world.pool id).free).map Signal.destroyed).reverse ++ earlier) ∧
    ∀ resource ∈ idleFromBottom (system.world.pool id).free, .destroyed resource ∉ earlier

theorem Proceeds.closesOnce (h : Proceeds system id final asked progress)
    (reach : final.Reachable) : system.ClosesOnce id final progress asked := by
  have huntouched : Untouched system id final.world := by
    cases h <;> assumption
  have hasked : asked <+: system.closes id := by
    cases h with
    | closing untouched alone listed order => exact ⟨_, order⟩
    | ended untouched order => exact order ▸ List.prefix_refl _
  refine ⟨?_, fun lease hmem => ?_, ?_, ?_, ?_⟩
  · rw [huntouched.pool_eq]
    exact ⟨rfl, rfl⟩
  · have hheld := huntouched.held lease hmem
    exact ⟨hheld, isAlive_of_lease reach (List.mem_append_left _ hheld)⟩
  · have hsorted := system.sorted_livesUnder (system.world.pool id).owner
    have hcloses : (system.closes id).Nodup :=
      (hsorted.imp Nat.ne_of_lt).map _ fun _ _ hne hsame => hne (Question.close.inj hsame).2
    exact hcloses.sublist hasked.sublist
  · cases h with
    | ended => exact .inl rfl
    | closing untouched alone =>
        have htask := List.mem_of_mem_filter (alone ▸ List.mem_singleton_self _)
        exact .inr ⟨awaitsClose_disconnecting, hasked,
          fun resource hmem => isAlive_of_teardown reach htask hmem⟩
  · rintro rfl
    cases h with
    | ended untouched order journal last => exact ⟨order, _, journal, last⟩

/-- Between operations a teardown closes each live resource of the pool's owner once, in the order
of creation, and no other resource. -/
theorem disconnectAll_closes_once (reach : system.Reachable) (hquiet : system.IsQuiet)
    (hid : id < system.world.pools.length)
    (hnoted : (system.world.pool id).notedPid = system.world.currentPid id) :
    ∃ start first, system.Turn id (.call id .disconnectAll) none start first ∧
      ∀ events final progress asked,
        Dialogue (Spares id) start first events final progress asked →
          system.ClosesOnce id final progress asked := by
  have turn := turn_of_call .disconnectAll hid rfl
  refine ⟨_, _, turn, fun events final progress asked dialogue => ?_⟩
  generalize settle system.tasks (system.world.begin id .disconnectAll) = start at turn dialogue
  generalize (system.world.begin id .disconnectAll).2 = first at turn dialogue
  have begun : start.Reachable := reach.step? turn.step?
  obtain ⟨midway, rfl, rfl⟩ := turn.midway_of_call reach hnoted
  have horder : [] ++ ((system.world.pool id).registry.filter system.world.isAlive).map
      (Question.close id) = system.closes id :=
    congrArg (List.map (Question.close id)) (filter_registry reach hid)
  have hothers : ∀ task ∈ system.tasks, task.pool ≠ id := by
    rw [hquiet]
    exact nofun
  have hstart := (Untouched.tearDown hid).look midway reach hquiet hid hothers
    (List.Subset.refl _) horder
  exact (dialogue.proceeds begun reach hquiet hid hstart).closesOnce (begun.run? dialogue.run?)

/-- One resource of the pool is idle, and an older one is lent, when it is torn down. -/
theorem disconnectAll_closes_once_older_lent : ∃ system,
    (init [7] [(0, Config.ofSize 2)]).run?
        [.call 0 (.acquire none), .reply 0 (.created "db"), .call 0 (.acquire none),
          .reply 0 (.created "db"), .call 0 (.release ⟨1, ⟨0, 7, 0⟩, 0⟩)] = some system ∧
      system.closes 0 = [.close 0 0, .close 0 1] ∧
      ∃ start first, system.Turn 0 (.call 0 .disconnectAll) none start first ∧
        ∀ events final progress asked,
          Dialogue (Spares 0) start first events final progress asked →
            system.ClosesOnce 0 final progress asked := by
  refine exists_run? rfl fun system hrun => ⟨?_, ?_⟩
  · cases hrun
    decide
  · refine disconnectAll_closes_once ⟨_, _, _, hrun⟩ ?_ ?_ ?_ <;> cases hrun
    · rfl
    · decide
    · decide

end System
end LeasePool
