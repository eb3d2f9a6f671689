import LeasePool.Proofs.Fetching

/-!
Evictions. An idle resource that is past a limit is closed by the sweep that is for it or by the
acquisition that comes upon it. It makes no difference which of the two is called first: the
acquisition ends in the same way, the same resources are closed, and the pool is the same after
both.
-/

namespace LeasePool

variable {id : PoolId} {factory : Factory} {pool : Pool} {now : Instant} {limit : Patience}
  {count : Nat} {world : World} {closed : List ResourceId} {slot : Slot} {rest : List Slot}
  {takes : IdleResource → Bool} {outcome : Outcome}

theorem Pool.vacate_eq (takes : IdleResource → Bool) :
    pool.vacate takes = { pool with free := pool.free.map (Slot.cleared takes) } := by
  rw [← free_vacate]
  rfl

theorem Pool.free_vacate_cons (hfree : pool.free = slot :: rest) :
    (pool.vacate takes).free = slot.cleared takes :: rest.map (Slot.cleared takes) := by
  rw [free_vacate, hfree, List.map_cons]

theorem Pool.matching_of_free (hfree : pool.free = rest) :
    pool.matching takes = (rest.reverse.filterMap Slot.idle?).filter takes := by
  rw [matching, hfree]

/-- The resources that a sweep is for lie below the top, or it is the one on top. -/
theorem Pool.matching_cons (hfree : pool.free = slot :: rest) :
    pool.matching takes =
      (rest.reverse.filterMap Slot.idle?).filter takes ++ slot.idle?.toList.filter takes := by
  rw [matching, hfree, List.reverse_cons, List.filterMap_append, List.filter_append]
  cases slot <;> rfl

/-- An eviction takes nothing away that an acquisition would lend again. -/
theorem Pool.fits_cleared (htakes : pool.isExpired now = takes)
    (slot : Slot) : (pool.vacate takes).fits factory now (slot.cleared takes) =
      pool.fits factory now slot := by
  subst htakes
  cases slot with
  | vacant => rfl
  | idle entry =>
      cases hexpired : pool.isExpired now entry with
      | true => simp [Slot.cleared, Slot.idle?, fits, hexpired]
      | false =>
          have hkept : (Slot.idle entry).cleared (pool.isExpired now) = .idle entry := by
            simp [Slot.cleared, Slot.idle?, hexpired]
          rw [hkept]
          rfl

theorem Pool.isExpired_of_fits {entry : IdleResource}
    (hfits : pool.fits factory now (.idle entry) = true) : pool.isExpired now entry = false := by
  rw [fits, Bool.and_eq_true, Bool.not_eq_true'] at hfits
  exact hfits.1

theorem Slot.idle?_cleared (takes : IdleResource → Bool) (slot : Slot) :
    slot.idle?.toList.filter takes ++ (slot.cleared takes).idle?.toList = slot.idle?.toList := by
  cases slot with
  | vacant => rfl
  | idle entry =>
      cases htakes : takes entry <;> simp [Slot.cleared, Slot.idle?, htakes]

/-- What an eviction and an acquisition of a slot that is of no use close in either order. -/
theorem Pool.closes_perm (takes : IdleResource → Bool) (hfree : pool.free = slot :: rest) :
    ((pool.matching takes).map (·.resource) ++
        (slot.cleared takes).idle?.toList.map (·.resource)).Perm
      (slot.idle?.toList.map (·.resource) ++
        ((rest.reverse.filterMap Slot.idle?).filter takes).map (·.resource)) := by
  rw [matching_cons hfree, ← List.map_append, List.append_assoc, Slot.idle?_cleared,
    ← List.map_append]
  exact List.perm_append_comm.map _

/-- The resources that a sweep is for are idle. -/
theorem Pool.matching_sublist (pool : Pool) (takes : IdleResource → Bool) :
    ((pool.matching takes).map (·.resource)).Sublist
      ((pool.matching fun _ => true).map (·.resource)) := by
  unfold matching
  rw [List.filter_true]
  exact List.filter_sublist.map _

/-- No resource is closed twice if none is idle twice. -/
theorem Pool.nodup_closes (takes : IdleResource → Bool) (hfree : pool.free = slot :: rest)
    (hnodup : ((pool.matching fun _ => true).map (·.resource)).Nodup) :
    ((pool.matching takes).map (·.resource) ++
      (slot.cleared takes).idle?.toList.map (·.resource)).Nodup := by
  have hbelow : (((rest.reverse.filterMap Slot.idle?).filter takes).map (·.resource)).Sublist
      ((rest.reverse.filterMap Slot.idle?).map (·.resource)) := List.filter_sublist.map _
  rw [matching_cons hfree, List.filter_true, List.filter_true, List.map_append] at hnodup
  refine (closes_perm takes hfree).nodup_iff.2 (List.perm_append_comm.nodup_iff.1 ?_)
  exact hnodup.sublist (hbelow.append (List.Sublist.refl _))

/-- An acquisition of a pool with an idle resource of use on top ends with it. -/
theorem Fetches.of_fits (h : Fetches id factory pool now limit count world closed (.done outcome))
    {entry : IdleResource} (hfree : pool.free = .idle entry :: rest)
    (hfits : pool.fits factory now (.idle entry) = true) :
    outcome = .lent ⟨entry.resource, pool.owner, entry.createdAt⟩ ∧ closed = [] ∧
      world.pool id = pool.draw := by
  cases h with
  | exhausted hnone => cases hfree.symm.trans hnone
  | reused hsome hpool =>
      cases hfree.symm.trans hsome
      exact ⟨rfl, rfl, hpool⟩
  | made hsome hunfit | notMade hsome hunfit =>
      obtain ⟨rfl, -⟩ := List.cons.inj (hfree.symm.trans hsome)
      cases hfits.symm.trans hunfit

/-- Any other slot is made room in, and the factory makes a new resource or does not. -/
theorem Fetches.of_unfit (h : Fetches id factory pool now limit count world closed (.done outcome))
    (hfree : pool.free = slot :: rest) (hunfit : pool.fits factory now slot = false) :
    closed = slot.idle?.toList.map (·.resource) ∧
      ((∃ kind resource registry, factory.creation = .ok kind ∧ count ≤ resource ∧
          world.kindOf resource = kind ∧ outcome = .lent ⟨resource, pool.owner, now⟩ ∧
          world.pool id = { pool.draw with created := pool.created + 1, registry := registry }) ∨
        ∃ failure, factory.creation = .error failure ∧ outcome = .failed failure ∧
          world.pool id = { pool with
            creationFailures := pool.creationFailures + 1, free := .vacant :: rest }) := by
  cases h with
  | exhausted hnone => cases hfree.symm.trans hnone
  | reused hsome _ hfits =>
      obtain ⟨rfl, -⟩ := List.cons.inj (hfree.symm.trans hsome)
      cases hfits.symm.trans hunfit
  | made hsome _ hmakes hnew hkind hpool =>
      cases hfree.symm.trans hsome
      exact ⟨rfl, .inl ⟨_, _, _, hmakes, hnew, hkind, rfl, hpool⟩⟩
  | notMade hsome _ hfails hpool =>
      cases hfree.symm.trans hsome
      exact ⟨rfl, .inr ⟨_, hfails, rfl, hpool⟩⟩

/-- Two acquisitions end in the same way: they lend the same resource, or each one that was made for
it in the same way, or they fail with the same failure. -/
inductive Agree (count : Nat) (first second : World) : Outcome → Outcome → Prop where
  | reused (lease : Lease) : Agree count first second (.lent lease) (.lent lease)
  | made {left right : Lease} (hleft : count ≤ left.resource) (hright : count ≤ right.resource)
      (howner : left.owner = right.owner) (htime : left.createdAt = right.createdAt)
      (hkind : first.kindOf left.resource = second.kindOf right.resource) :
      Agree count first second (.lent left) (.lent right)
  | failed (failure : Failure) : Agree count first second (.failed failure) (.failed failure)

/-- An acquisition after an eviction that ended with `outcome`, and one before an eviction that
ended with `other`, come to the same: both orders closed the same resources, each of them once, and
but for the registry they left the same pool. -/
structure Concur (count : Nat) (first second : World) (outcome other : Outcome)
    (closed shut : List ResourceId) (left right : Pool) : Prop where
  agree : Agree count first second outcome other
  closed_perm : closed.Perm shut
  nodup : closed.Nodup
  pool_eq : left = { right with registry := left.registry }

/-- An acquisition counts the resources from any instant before it. -/
theorem Fetches.of_le {before : Nat} (hle : before ≤ count)
    (h : Fetches id factory pool now limit count world closed (.done outcome)) :
    Fetches id factory pool now limit before world closed (.done outcome) := by
  cases h with
  | exhausted hfree hlimit hpool => exact .exhausted hfree hlimit hpool
  | reused hfree hpool hfits => exact .reused hfree hpool hfits
  | made hfree hunfit hmakes hnew hkind hpool =>
      exact .made hfree hunfit hmakes (Nat.le_trans hle hnew) hkind hpool
  | notMade hfree hunfit hfails hpool => exact .notMade hfree hunfit hfails hpool

section Concur

variable {evicts : IdleResource → Bool} {later : Instant} {first second : World}
  {left right : List ResourceId} {other : Outcome}

theorem Fetches.concur_of_full (hfree : pool.free = [])
    (after : Fetches id factory (pool.vacate takes) later limit count first left (.done outcome))
    (before : Fetches id factory pool now limit count second right (.done other)) :
    Concur count first second outcome other ((pool.matching takes).map (·.resource) ++ left)
      (right ++ ((second.pool id).matching evicts).map (·.resource)) (first.pool id)
      ((second.pool id).vacate evicts) := by
  have hnone : (pool.vacate takes).free = [] := by rw [Pool.free_vacate, hfree, List.map_nil]
  have hidle : pool.matching takes = [] := Pool.matching_of_free hfree
  cases before with
  | reused hsome | made hsome | notMade hsome => cases hfree.symm.trans hsome
  | exhausted _ hlimit hsecond =>
      cases after with
      | reused hsome | made hsome | notMade hsome => cases hnone.symm.trans hsome
      | exhausted _ hlater hfirst =>
          cases hlimit.symm.trans hlater
          have hempty : (second.pool id).free = [] := by
            rw [hsecond]
            exact hfree
          refine ⟨.failed _, ?_, ?_, ?_⟩
          · rw [Pool.matching_of_free hempty, hidle]
            exact .refl _
          · rw [hidle]
            exact List.nodup_nil
          · rw [hfirst, Pool.vacate_eq, Pool.vacate_eq, hsecond]
            dsimp only
            rw [hfree]
            rfl

theorem Fetches.concur_of_fits {entry : IdleResource} (htakes : pool.isExpired now = takes)
    (hfree : pool.free = .idle entry :: rest)
    (hfits : pool.fits factory now (.idle entry) = true)
    (hnodup : ((pool.matching fun _ => true).map (·.resource)).Nodup)
    (after : Fetches id factory (pool.vacate takes) now limit count first left (.done outcome))
    (before : Fetches id factory pool now limit count second right (.done other)) :
    Concur count first second outcome other ((pool.matching takes).map (·.resource) ++ left)
      (right ++ ((second.pool id).matching takes).map (·.resource)) (first.pool id)
      ((second.pool id).vacate takes) := by
  have hfresh : takes entry = false := by
    rw [← htakes]
    exact Pool.isExpired_of_fits hfits
  have hkept : (Slot.idle entry).cleared takes = .idle entry := by
    simp [Slot.cleared, Slot.idle?, hfresh]
  have hswept : (pool.vacate takes).free = .idle entry :: rest.map (Slot.cleared takes) := by
    rw [Pool.free_vacate_cons hfree, hkept]
  have hfits' : (pool.vacate takes).fits factory now (.idle entry) = true := by
    rw [← hfits, ← Pool.fits_cleared htakes (.idle entry), hkept]
  obtain ⟨rfl, rfl, hfirst⟩ := after.of_fits hswept hfits'
  obtain ⟨rfl, rfl, hsecond⟩ := before.of_fits hfree hfits
  have hbelow : (second.pool id).free = rest := by
    rw [hsecond, Pool.draw, hfree, List.tail_cons]
  refine ⟨.reused _, ?_, ?_, ?_⟩
  · rw [Pool.matching_of_free hbelow, Pool.matching_cons hfree, Slot.idle?, Option.toList_some,
      List.filter_cons_of_neg (ne_true_of_eq_false hfresh), List.filter_nil, List.append_nil,
      List.append_nil, List.nil_append]
  · rw [List.append_nil]
    exact hnodup.sublist (pool.matching_sublist takes)
  · rw [hfirst, hsecond, Pool.vacate_eq, Pool.vacate_eq]
    simp only [Pool.draw, List.map_tail]

theorem Fetches.concur_of_unfit (htakes : pool.isExpired now = takes)
    (hfree : pool.free = slot :: rest) (hunfit : pool.fits factory now slot = false)
    (hnodup : ((pool.matching fun _ => true).map (·.resource)).Nodup)
    (after : Fetches id factory (pool.vacate takes) now limit count first left (.done outcome))
    (before : Fetches id factory pool now limit count second right (.done other)) :
    Concur count first second outcome other ((pool.matching takes).map (·.resource) ++ left)
      (right ++ ((second.pool id).matching takes).map (·.resource)) (first.pool id)
      ((second.pool id).vacate takes) := by
  have hswept : (pool.vacate takes).free = slot.cleared takes :: rest.map (Slot.cleared takes) :=
    Pool.free_vacate_cons hfree
  have hunfit' : (pool.vacate takes).fits factory now (slot.cleared takes) = false := by
    rw [← hunfit, ← Pool.fits_cleared htakes slot]
  obtain ⟨rfl, hfirst⟩ := after.of_unfit hswept hunfit'
  obtain ⟨rfl, hsecond⟩ := before.of_unfit hfree hunfit
  have hperm := Pool.closes_perm takes hfree
  have honce := Pool.nodup_closes takes hfree hnodup
  -- The factory makes a resource in both orders or in neither.
  rcases hfirst with ⟨_, _, _, hmakes, hnew, hkind, rfl, hpool⟩ | ⟨_, hfails, rfl, hpool⟩
  · rcases hsecond with ⟨_, _, _, hmakes', hnew', hkind', rfl, hpool'⟩ | ⟨_, hfails, -⟩
    · cases hmakes.symm.trans hmakes'
      have hbelow : (second.pool id).free = rest := by
        rw [hpool', Pool.draw, hfree, List.tail_cons]
      rw [← Pool.matching_of_free hbelow] at hperm
      refine ⟨.made hnew hnew' rfl rfl (hkind.trans hkind'.symm), hperm, honce, ?_⟩
      rw [hpool, hpool', Pool.vacate_eq, Pool.vacate_eq]
      simp only [Pool.draw, List.map_tail]
    · cases hmakes.symm.trans hfails
  · rcases hsecond with ⟨_, _, _, hmakes, -⟩ | ⟨_, hfails', rfl, hpool'⟩
    · cases hmakes.symm.trans hfails
    · cases hfails.symm.trans hfails'
      have hback : (second.pool id).free = .vacant :: rest := by rw [hpool']
      have hbelow : (second.pool id).matching takes =
          (rest.reverse.filterMap Slot.idle?).filter takes :=
        (Pool.matching_cons hback).trans (List.append_nil _)
      rw [← hbelow] at hperm
      refine ⟨.failed _, hperm, honce, ?_⟩
      rw [hpool, hpool', Pool.vacate_eq, Pool.vacate_eq]
      rfl

end Concur

namespace System

variable {start middle final : System} {patience : Option Patience}

/-- Two calls of the pool, the second right after the first has ended, each with its outcome, and
what was closed. Nothing else happens to the pool, the factory answers as it does, and time passes
only if no slot is free. -/
inductive InTurn (factory : Factory) (start : System) (id : PoolId) (call later : Call) :
    System → Outcome → System → Outcome → List ResourceId → Prop where
  | ended {events middle outcome acts following final other turns}
      (first : Story (Meanwhile id ((start.world.pool id).free = [])) start id call events middle
        (.done outcome) acts)
      (second : Story (Meanwhile id ((start.world.pool id).free = [])) middle id later following
        final (.done other) turns)
      (hanswers : ∀ act ∈ acts ++ turns, factory.Answers act) :
      InTurn factory start id call later middle outcome final other
        ((acts ++ turns).filterMap Act.closes?)

/-- An eviction closes what is past a limit and leaves the rest of the pool. -/
theorem Story.evicts {waits : Prop} {events : List Event} {outcome : Outcome} {acts : List Act}
    (story : Story (Meanwhile id waits) start id .evictExpired events final (.done outcome) acts)
    (reach : start.Reachable)
    (hnoted : (start.world.pool id).notedPid = start.world.currentPid id)
    (htakes : (start.world.pool id).isExpired start.world.clock = takes) :
    final.world.pool id = (start.world.pool id).vacate takes ∧
      acts.filterMap Act.closes? = ((start.world.pool id).matching takes).map (·.resource) := by
  have hspares : Story (Spares id) start id .evictExpired events final (.done outcome) acts :=
    story.mono fun _ _ aside => aside.alone.spares
  have hchecked : start.world.checkOwner id = start.world := World.checkOwner_of_eq hnoted.symm
  have hcall : Call.takes? ((start.world.checkOwner id).pool id) start.world.clock
      .evictExpired = some takes := by
    rw [hchecked, ← htakes]
    rfl
  have sweep := hspares.sweep reach hcall
  rw [hchecked] at sweep
  obtain ⟨-, hasked, -⟩ := sweep.ended outcome rfl
  constructor
  · rw [sweep.frame, sweep.slots, Pool.vacate_eq]
  · have hclosed : acts.filterMap Act.closes? =
        (acts.filterMap Act.question?).filterMap Question.closes? := List.filterMap_filterMap.symm
    rw [hclosed, hasked, List.filterMap_map]
    exact congrFun (@List.filterMap_eq_map _ _ IdleResource.resource) _

/-- What an eviction leaves an acquisition to find: slots, patience, and a pool that knows its
process. -/
theorem Story.leaves {waits : Prop} {events : List Event} {outcome : Outcome} {acts : List Act}
    (story : Story (Meanwhile id waits) start id .evictExpired events middle (.done outcome) acts)
    (reach : start.Reachable)
    (hnoted : (start.world.pool id).notedPid = start.world.currentPid id) :
    (middle.world.pool id).notedPid = middle.world.currentPid id ∧
      ((middle.world.pool id).free = [] ↔ (start.world.pool id).free = []) ∧
      middle.world.usualPatience id = start.world.usualPatience id := by
  obtain ⟨hpool, -⟩ := story.evicts reach hnoted rfl
  refine ⟨(story.mono fun _ _ aside => aside.alone).noted reach trivial hnoted, ?_, ?_⟩
  · rw [hpool, Pool.free_vacate, List.map_eq_nil_iff]
  · rw [World.usualPatience, hpool]
    rfl

/-- The eviction and then the acquisition. -/
theorem InTurn.evicted {swept : Outcome} (reach : start.Reachable)
    (hnoted : (start.world.pool id).notedPid = start.world.currentPid id)
    (htakes : (start.world.pool id).isExpired start.world.clock = takes)
    (inTurn : InTurn factory start id .evictExpired (.acquire patience) middle swept final outcome
      closed) :
    ∃ later left, closed = ((start.world.pool id).matching takes).map (·.resource) ++ left ∧
      ((start.world.pool id).free ≠ [] → later = start.world.clock) ∧
      Fetches id factory ((start.world.pool id).vacate takes) later
        (patience.getD (start.world.usualPatience id)) start.world.resources.length final.world
        left (.done outcome) := by
  cases inTurn with
  | ended first second hanswers =>
      obtain ⟨hpool, hclosed⟩ := first.evicts reach hnoted htakes
      obtain ⟨hnoted', hfull, hlimit⟩ := first.leaves reach hnoted
      have fetches := second.fetches (first.reachable reach) hnoted' hfull.2 fun act hmem =>
        hanswers act (List.mem_append_right _ hmem)
      rw [hpool, hlimit] at fetches
      refine ⟨_, _, ?_, first.clock_eq reach,
        fetches.of_le (length_resources_le reach first.run?)⟩
      rw [List.filterMap_append, hclosed]

/-- The acquisition and then the eviction. -/
theorem InTurn.acquired {swept : Outcome} (reach : start.Reachable)
    (hid : id < start.world.pools.length)
    (hnoted : (start.world.pool id).notedPid = start.world.currentPid id)
    (htakes : (start.world.pool id).isExpired start.world.clock = takes)
    (inTurn : InTurn factory start id (.acquire patience) .evictExpired middle outcome final swept
      closed) :
    ∃ evicts left, closed = left ++ ((middle.world.pool id).matching evicts).map (·.resource) ∧
      ((start.world.pool id).free ≠ [] → evicts = takes) ∧
      final.world.pool id = (middle.world.pool id).vacate evicts ∧
      Fetches id factory (start.world.pool id) start.world.clock
        (patience.getD (start.world.usualPatience id)) start.world.resources.length middle.world
        left (.done outcome) := by
  cases inTurn with
  | ended first second hanswers =>
      have hnoted' : (middle.world.pool id).notedPid = middle.world.currentPid id :=
        (first.mono fun _ _ aside => aside.alone).noted reach trivial hnoted
      have fetches := first.fetches reach hnoted (fun hfree => hfree) fun act hmem =>
        hanswers act (List.mem_append_left _ hmem)
      obtain ⟨hpool, hclosed⟩ := second.evicts (first.reachable reach) hnoted' rfl
      refine ⟨_, _, ?_, fun hfree => ?_, hpool, fetches⟩
      · rw [List.filterMap_append, hclosed]
      · rw [← htakes, first.clock_eq reach hfree]
        exact funext fun entry => Pool.isExpired_congr (run?_config reach hid first.run?)

/-- Both orders, when they have come to their ends. -/
theorem InTurn.concur {swept other told : Outcome} {first last : System} {shut : List ResourceId}
    (reach : start.Reachable) (hid : id < start.world.pools.length)
    (hnoted : (start.world.pool id).notedPid = start.world.currentPid id)
    (sooner : InTurn factory start id .evictExpired (.acquire patience) middle swept final outcome
      closed)
    (afterwards : InTurn factory start id (.acquire patience) .evictExpired first other last told
      shut) :
    Concur start.world.resources.length final.world first.world outcome other closed shut
      (final.world.pool id) (last.world.pool id) := by
  obtain ⟨later, left, rfl, hlater, after⟩ := sooner.evicted reach hnoted rfl
  obtain ⟨evicts, right, rfl, hevicts, hlast, before⟩ := afterwards.acquired reach hid hnoted rfl
  have hnodup : ((((start.world.checkOwner id).pool id).matching fun _ => true).map
      (·.resource)).Nodup := nodup_matching reach hid
  rw [World.checkOwner_of_eq hnoted.symm] at hnodup
  rw [hlast]
  cases hfree : (start.world.pool id).free with
  | nil => exact Fetches.concur_of_full hfree after before
  | cons slot rest =>
      have hsome : (start.world.pool id).free ≠ [] := by
        rw [hfree]
        exact List.cons_ne_nil slot rest
      obtain rfl := hlater hsome
      obtain rfl := hevicts hsome
      cases hfits : (start.world.pool id).fits factory start.world.clock slot with
      | false => exact Fetches.concur_of_unfit rfl hfree hfits hnodup after before
      | true =>
          cases slot with
          | vacant => cases hfits
          | idle entry => exact Fetches.concur_of_fits rfl hfree hfits hnodup after before

/-- Lazy and eager eviction come to the same. Of a pool that knows its process, while nothing else
happens to it and no time passes, an acquisition ends in the same way before and after an eviction,
whatever lies in the free list and whatever the factory answers to it; in both orders the same
resources are closed, each of them once, and the pool is the same, but for the registry. Each order
comes to its end, unless the acquisition waits for ever. -/
theorem evictions_concur (reach : start.Reachable) (hid : id < start.world.pools.length)
    (hnoted : (start.world.pool id).notedPid = start.world.currentPid id) (factory : Factory)
    (patience : Option Patience) :
    (patience.getD (start.world.usualPatience id) ≠ .forever ∨ (start.world.pool id).free ≠ [] →
      (∃ middle swept final outcome closed, InTurn factory start id .evictExpired
        (.acquire patience) middle swept final outcome closed) ∧
      ∃ middle outcome final swept closed, InTurn factory start id (.acquire patience)
        .evictExpired middle outcome final swept closed) ∧
    ∀ middle swept final outcome closed first other last told shut,
      InTurn factory start id .evictExpired (.acquire patience) middle swept final outcome closed →
      InTurn factory start id (.acquire patience) .evictExpired first other last told shut →
        Concur start.world.resources.length final.world first.world outcome other closed shut
          (final.world.pool id) (last.world.pool id) := by
  refine ⟨fun hends => ⟨?_, ?_⟩, ?_⟩
  · obtain ⟨events, middle, swept, acts, first, hfirst⟩ :=
      @exists_sweep start id .evictExpired factory (Meanwhile id _) _ hid rfl
    obtain ⟨hnoted', hfull, hlimit⟩ := first.leaves reach hnoted
    have hends' : patience.getD (middle.world.usualPatience id) ≠ .forever ∨
        (middle.world.pool id).free ≠ [] := by
      rw [hlimit]
      exact hends.imp_right (mt hfull.1)
    obtain ⟨following, final, outcome, turns, second, hsecond⟩ :=
      exists_fetch (first.reachable reach) (first.lt reach) hnoted' hfull.1 hends'
    exact ⟨_, _, _, _, _, .ended first second (List.forall_mem_append.2 ⟨hfirst, hsecond⟩)⟩
  · obtain ⟨events, middle, outcome, acts, first, hfirst⟩ :=
      exists_fetch reach hid hnoted (fun hfree => hfree) hends
    obtain ⟨following, final, swept, turns, second, hsecond⟩ :=
      @exists_sweep middle id .evictExpired factory (Meanwhile id _) _ (first.lt reach) rfl
    exact ⟨_, _, _, _, _, .ended first second (List.forall_mem_append.2 ⟨hfirst, hsecond⟩)⟩
  · intro middle swept final outcome closed first other last told shut sooner afterwards
    exact sooner.concur reach hid hnoted afterwards

/-- On top lies a resource that the factory finds invalid, below it one that is past its lifetime.
-/
theorem evictions_concur_mixed : ∃ system,
    (init [7] [(0, { Config.ofSize 3 with maxLifetime := some 10, testOnCheckout := true })]).run?
        [.call 0 (.acquire none), .reply 0 (.created "db"), .advance (Duration.ofMillis 20),
          .call 0 (.acquire none), .reply 0 (.created "db"),
          .call 0 (.release ⟨0, ⟨0, 7, 0⟩, 0⟩), .call 0 (.release ⟨1, ⟨0, 7, 0⟩, 20000000⟩)] =
      some system ∧
      ((∃ middle swept final outcome closed, InTurn ⟨.ok "db", fun _ => false⟩ system 0
          .evictExpired (.acquire none) middle swept final outcome closed) ∧
        ∃ middle outcome final swept closed, InTurn ⟨.ok "db", fun _ => false⟩ system 0
          (.acquire none) .evictExpired middle outcome final swept closed) ∧
      ∀ middle swept final outcome closed first other last told shut,
        InTurn ⟨.ok "db", fun _ => false⟩ system 0 .evictExpired (.acquire none) middle swept final
          outcome closed →
        InTurn ⟨.ok "db", fun _ => false⟩ system 0 (.acquire none) .evictExpired first other last
          told shut →
        Concur 2 final.world first.world outcome other closed shut (final.world.pool 0)
          (last.world.pool 0) := by
  refine exists_run? rfl fun system hrun => ?_
  have hid : 0 < system.world.pools.length := by
    cases hrun
    decide
  have hnoted : (system.world.pool 0).notedPid = system.world.currentPid 0 := by
    cases hrun
    rfl
  have hcount : system.world.resources.length = 2 := by
    cases hrun
    rfl
  have hends : Patience.within (system.world.pool 0).acquireTimeout ≠ .forever := by simp
  obtain ⟨hboth, hsame⟩ :=
    evictions_concur ⟨_, _, _, hrun⟩ hid hnoted ⟨.ok "db", fun _ => false⟩ none
  rw [← hcount]
  exact ⟨hboth (.inl hends), hsame⟩

end System

end LeasePool
