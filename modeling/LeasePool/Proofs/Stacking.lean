import LeasePool.Proofs.Retries
import LeasePool.Proofs.Strangers

/-!
Stacking. The free list is a stack: a lease that is released lies on top of what was there, and the
next acquisition lends it again as it was. So acquisitions undo as many releases before them, and
after them the pool is what it was.
-/

namespace LeasePool

variable {id : PoolId} {pool now : Pool} {lease : Lease} {given : List Lease}

/-- The lease that an acquisition under an owner gets of an idle resource. -/
def IdleResource.leaseUnder (owner : Owner) (entry : IdleResource) : Lease :=
  ⟨entry.resource, owner, entry.createdAt⟩

/-- The pool `now` is as `pool`, but that the leases in `given` were released, the first of them
last: their resources lie on top of the free slots. -/
def Pool.Stacks (pool : Pool) (given : List Lease) (now : Pool) : Prop :=
  ∃ (entries : List IdleResource) (leased : Nat),
    entries.map (IdleResource.leaseUnder pool.owner) = given ∧
    leased + given.length = pool.leased ∧
    now = { pool with free := entries.map .idle ++ pool.free, leased := leased }

namespace Pool.Stacks

theorem nil : pool.Stacks [] pool := ⟨[], pool.leased, rfl, rfl, rfl⟩

theorem eq_of_nil (h : pool.Stacks [] now) : now = pool := by
  obtain ⟨entries, leased, hgiven, rfl, rfl⟩ := h
  obtain rfl := List.map_eq_nil_iff.1 hgiven
  rfl

theorem owner_eq (h : pool.Stacks given now) : now.owner = pool.owner := by
  obtain ⟨_, _, _, _, rfl⟩ := h
  rfl

theorem config_eq (h : pool.Stacks given now) : now.config = pool.config := by
  obtain ⟨_, _, _, _, rfl⟩ := h
  rfl

theorem push (h : pool.Stacks given now) (howner : lease.owner = pool.owner)
    (hpos : 1 ≤ now.leased) (since : Instant) :
    pool.Stacks (lease :: given) { now with
      free := .idle ⟨lease.resource, lease.createdAt, since⟩ :: now.free
      leased := now.leased - 1 } := by
  obtain ⟨entries, leased, rfl, hleased, rfl⟩ := h
  refine ⟨⟨lease.resource, lease.createdAt, since⟩ :: entries, leased - 1, ?_, ?_, rfl⟩
  · rw [List.map_cons, IdleResource.leaseUnder, ← howner]
  · rw [List.length_cons]
    dsimp only at hpos
    omega

theorem pop (h : pool.Stacks (lease :: given) now) : ∃ entry rest,
    now.free = .idle entry :: rest ∧ entry.leaseUnder now.owner = lease ∧
      pool.Stacks given now.draw := by
  obtain ⟨entries, leased, hgiven, hleased, rfl⟩ := h
  cases entries with
  | nil => cases hgiven
  | cons entry entries =>
      obtain ⟨hlease, hrest⟩ := List.cons.inj hgiven
      refine ⟨entry, _, rfl, hlease, entries, leased + 1, hrest, ?_, rfl⟩
      rw [← hleased, List.length_cons]
      omega

end Pool.Stacks

namespace System

variable {system next final : System} {progress : Progress} {left : List Lease}
  {out : List Lease} {patience : Option Patience} {patiences : List (Option Patience)}
  {entries : List (Call × Progress)} {aside : System → Event → Prop}

/-- A released lease of the present owner lies on top of the free list. -/
theorem Turn.shelves (turn : system.Turn id (.call id (.release lease)) none next progress)
    (reach : system.Reachable) (hid : id < system.world.pools.length)
    (hnoted : (system.world.pool id).notedPid = system.world.currentPid id)
    (hheld : lease ∈ system.world.held) (howner : lease.owner = (system.world.pool id).owner) :
    progress = .done .finished ∧ 1 ≤ (system.world.pool id).leased ∧
      next.world.pool id = { system.world.pool id with
        free := .idle ⟨lease.resource, lease.createdAt, system.world.clock⟩ ::
          (system.world.pool id).free
        leased := (system.world.pool id).leased - 1 } := by
  obtain ⟨hnext, hprogress⟩ := Prod.mk.inj turn.eq_begin
  have hchecked : (system.world.part lease).checkOwner id = system.world.part lease :=
    World.checkOwner_of_eq hnoted.symm
  have htakes := takesBack_release_of_held reach hid hheld
  obtain ⟨free, leased, stale, hpool⟩ :=
    @World.pool_release_eq (system.world.part lease) id lease hid
  dsimp only at htakes
  rw [← hnext, hchecked] at hpool htakes
  obtain ⟨hpos, -, hfree, hleased, hstale⟩ := htakes.current howner
  refine ⟨hprogress, hpos, ?_⟩
  rw [hpool] at hfree hleased hstale ⊢
  dsimp only at hfree hleased hstale
  rw [hfree, hleased, hstale]
  rfl

/-- An acquisition without limits lends the idle resource on top. -/
theorem Turn.unshelves {entry : IdleResource} {rest : List Slot}
    (turn : system.Turn id (.call id (.acquire patience)) none next progress)
    (hid : id < system.world.pools.length)
    (hnoted : (system.world.pool id).notedPid = system.world.currentPid id)
    (hplain : (system.world.pool id).config.IsPlain)
    (hfree : (system.world.pool id).free = .idle entry :: rest) :
    progress = .done (.lent (entry.leaseUnder (system.world.pool id).owner)) ∧
      next.world.pool id = (system.world.pool id).draw := by
  have hbegin : (next.world, progress) = system.world.acquire id
      (patience.getD (system.world.usualPatience id)) .lend := turn.eq_begin
  have hpool : (system.world.modifyPool id Pool.enqueue).pool id =
      (system.world.pool id).enqueue := World.pool_modifyPool_self hid
  have hwaits : ((system.world.modifyPool id Pool.enqueue).pool id).free = .idle entry :: rest := by
    rw [hpool]
    exact hfree
  have hfresh : ((system.world.modifyPool id Pool.enqueue).pool id).isExpired
      (system.world.modifyPool id Pool.enqueue).clock entry = false := by
    rw [hpool]
    exact Pool.isExpired_of_isPlain hplain _ entry
  have huntested : (system.world.pool id).enqueue.config.testOnCheckout = false := hplain.untested
  obtain ⟨hdrawn, -⟩ := World.acquire_takes hid hnoted hfree
    (patience.getD (system.world.usualPatience id)) .lend
  rw [← hbegin] at hdrawn
  rw [World.acquire_of_noted hnoted, World.awaitSlot_of_free hwaits, World.takeSlot_fresh hfresh,
    hpool, huntested, if_neg Bool.false_ne_true] at hbegin
  exact ⟨congrArg Prod.snd hbegin, hdrawn⟩

/-- A series of calls of the pool `id`, each with where it stood after its turn. What may happen
between them is a parameter. -/
inductive Series (aside : System → Event → Prop) (id : PoolId) :
    System → List (Call × Progress) → System → Prop where
  | ends (system : System) : Series aside id system [] system
  | waits {system event next entries final} (haside : aside system event)
      (hstep : system.step? event = some next) (rest : Series aside id next entries final) :
      Series aside id system entries final
  | calls {system call next progress entries final}
      (turn : system.Turn id (.call id call) none next progress)
      (rest : Series aside id next entries final) :
      Series aside id system ((call, progress) :: entries) final

/-- A released lease is no more with the callers. -/
theorem Turn.held_release (turn : system.Turn id (.call id (.release lease)) none next progress) :
    next.world.held = system.world.held.erase lease := by
  have hprogress : progress = .done .finished := congrArg Prod.snd turn.eq_begin
  rw [turn.delivers.held_eq, hprogress]
  rfl

theorem Turn.heldFrom_release
    (turn : system.Turn id (.call id (.release lease)) none next progress)
    (hheld : lease ∈ system.world.held) (hown : lease.owner.pool = id) :
    (lease :: next.heldFrom id).Perm (system.heldFrom id) := by
  have hback := (List.perm_cons_erase hheld).filter fun lease => lease.owner.pool = id
  rw [List.filter_cons_of_pos (by simpa using hown)] at hback
  rw [heldFrom, turn.held_release]
  exact hback.symm

/-- Leases that callers have can be released one after the other, and acquisitions can be called
after that. -/
theorem exists_series (hid : id < system.world.pools.length) (hnodup : left.Nodup)
    (hheld : ∀ lease ∈ left, lease ∈ system.world.held) (reach : system.Reachable) :
    ∃ entries final, Series aside id system entries final ∧
      entries.map Prod.fst = left.map .release ++ patiences.map .acquire := by
  induction left generalizing system with
  | nil =>
      clear hheld hnodup
      induction patiences generalizing system with
      | nil => exact ⟨[], system, .ends system, rfl⟩
      | cons patience patiences ih =>
          have turn : system.Turn id _ none _ _ := turn_of_call (.acquire patience) hid rfl
          obtain ⟨entries, final, series, hcalls⟩ :=
            ih (reach.lt_of_step? hid turn.step?) (reach.step? turn.step?)
          exact ⟨_, final, .calls turn series, congrArg (Call.acquire patience :: ·) hcalls⟩
  | cons lease left ih =>
      obtain ⟨hnot, hleft⟩ := List.nodup_cons.1 hnodup
      have turn : system.Turn id (.call id (.release lease)) none _ _ :=
        turn_of_return hid (hheld lease List.mem_cons_self) rfl
      have hrest : ∀ other ∈ left, other ∈ (settle system.tasks
          (system.world.begin id (.release lease))).world.held := by
        intro other hmem
        rw [turn.held_release, List.mem_erase_of_ne (ne_of_mem_of_not_mem hmem hnot)]
        exact hheld other (List.mem_cons_of_mem lease hmem)
      obtain ⟨entries, final, series, hcalls⟩ :=
        ih (reach.lt_of_step? hid turn.step?) hleft hrest (reach.step? turn.step?)
      exact ⟨_, final, .calls turn series, congrArg (Call.release lease :: ·) hcalls⟩

/-- The pool `id` knows its process and is as `pool`, but that the leases in `given` were released;
with them the callers had `out`. -/
structure Piles (id : PoolId) (pool : Pool) (out given : List Lease) (system : System) : Prop where
  reach : system.Reachable
  lt : id < system.world.pools.length
  noted : (system.world.pool id).notedPid = system.world.currentPid id
  top : pool.Stacks given (system.world.pool id)
  out_perm : (given ++ system.heldFrom id).Perm out

namespace Piles

theorem leftAlone {event : Event} (h : Piles id pool out given system)
    (alone : LeavesAlone id system event) (hstep : system.step? event = some next) :
    Piles id pool out given next := by
  have spared := alone.spares.step? h.reach hstep
  refine ⟨h.reach.step? hstep, h.reach.lt_of_step? h.lt hstep, alone.noted h.reach hstep h.noted,
    ?_, ?_⟩
  · rw [spared.pool_eq]
    exact h.top
  · exact (spared.held_perm.append_left given).trans h.out_perm

/-- A lease that is released lies on top. -/
theorem release (h : Piles id pool out given system)
    (turn : system.Turn id (.call id (.release lease)) none next progress)
    (hheld : lease ∈ system.heldFrom id) (howner : lease.owner = pool.owner) :
    progress = .done .finished ∧ Piles id pool out (lease :: given) next := by
  obtain ⟨hmem, hown⟩ := List.mem_filter.1 hheld
  have hpresent : lease.owner = (system.world.pool id).owner := by
    rw [h.top.owner_eq, howner]
  have hplain : ∀ pool call, Event.call id (.release lease) = .call pool call → call.IsPlain := by
    rintro _ _ ⟨⟩
    trivial
  obtain ⟨hends, hpos, hpool⟩ := turn.shelves h.reach h.lt h.noted hmem hpresent
  refine ⟨hends, h.reach.step? turn.step?, h.reach.lt_of_step? h.lt turn.step?,
    (turn.steady h.reach h.lt h.noted hplain).2, ?_, ?_⟩
  · rw [hpool]
    exact h.top.push howner hpos _
  · have hback := turn.heldFrom_release hmem (of_decide_eq_true hown)
    have hgiven : (lease :: given ++ next.heldFrom id).Perm (given ++ system.heldFrom id) :=
      List.perm_middle.symm.trans (hback.append_left given)
    exact hgiven.trans h.out_perm

/-- An acquisition lends the lease on top again. -/
theorem acquire (h : Piles id pool out (lease :: given) system) (hplain : pool.config.IsPlain)
    (turn : system.Turn id (.call id (.acquire patience)) none next progress) :
    progress = .done (.lent lease) ∧ Piles id pool out given next := by
  obtain ⟨entry, slots, hfree, hlease, hstacks⟩ := h.top.pop
  have hplain' : (system.world.pool id).config.IsPlain := by
    rw [h.top.config_eq]
    exact hplain
  have hcall : ∀ pool call, Event.call id (.acquire patience) = .call pool call → call.IsPlain := by
    rintro _ _ ⟨⟩
    trivial
  obtain ⟨hends, hpool⟩ := turn.unshelves h.lt h.noted hplain' hfree
  rw [hlease] at hends
  refine ⟨hends, h.reach.step? turn.step?, h.reach.lt_of_step? h.lt turn.step?,
    (turn.steady h.reach h.lt h.noted hcall).2, ?_, ?_⟩
  · rw [hpool]
    exact hstacks
  · rw [turn.heldFrom_eq h.reach rfl, hends]
    exact List.perm_middle.trans h.out_perm

end Piles

/-- Releases, and then acquisitions until nothing of what was released is left: they lend it again,
the last of it first. -/
theorem Series.unpiles (series : Series (LeavesAlone id) id system entries final)
    (hplain : pool.config.IsPlain) (h : Piles id pool out given system) (hnodup : left.Nodup)
    (hleft : ∀ lease ∈ left, lease ∈ system.heldFrom id ∧ lease.owner = pool.owner)
    (hcalls : entries.map Prod.fst = left.map .release ++ patiences.map .acquire)
    (hlength : patiences.length = left.length + given.length) :
    entries.map Prod.snd = left.map (fun _ => .done .finished) ++
        (left.reverse ++ given).map (fun lease => .done (.lent lease)) ∧
      Piles id pool out [] final := by
  -- What is released goes from `left` to `given`; the acquisitions take it off again.
  induction series generalizing given left patiences with
  | ends system =>
      obtain ⟨hreleases, hacquires⟩ := List.append_eq_nil_iff.1 hcalls.symm
      obtain rfl := List.map_eq_nil_iff.1 hreleases
      obtain rfl := List.map_eq_nil_iff.1 hacquires
      have hnone : given.length = 0 := (hlength.trans (Nat.zero_add _)).symm
      obtain rfl := List.length_eq_zero_iff.1 hnone
      exact ⟨rfl, h⟩
  | waits alone hstep rest ih =>
      have spared := alone.spares.step? h.reach hstep
      refine ih (h.leftAlone alone hstep) hnodup (fun lease hmem => ?_) hcalls hlength
      exact ⟨spared.held_perm.mem_iff.2 (hleft lease hmem).1, (hleft lease hmem).2⟩
  | @calls system call next progress entries final turn rest ih =>
      cases left with
      | cons lease left =>
          obtain ⟨rfl, hothers⟩ := List.cons.inj hcalls
          obtain ⟨hnot, hnodup⟩ := List.nodup_cons.1 hnodup
          obtain ⟨hheld, howner⟩ := hleft lease List.mem_cons_self
          obtain ⟨hends, piles⟩ := h.release turn hheld howner
          have hperm := turn.heldFrom_release (List.mem_filter.1 hheld).1
            (of_decide_eq_true (List.mem_filter.1 hheld).2)
          have hleft' : ∀ other ∈ left, other ∈ next.heldFrom id ∧ other.owner = pool.owner := by
            intro other hmem
            obtain ⟨hother, howner⟩ := hleft other (List.mem_cons_of_mem lease hmem)
            have hcons := List.mem_cons.1 (hperm.mem_iff.2 hother)
            exact ⟨hcons.resolve_left (ne_of_mem_of_not_mem hmem hnot), howner⟩
          rw [List.length_cons, Nat.add_right_comm, Nat.add_assoc, ← List.length_cons] at hlength
          obtain ⟨hrest, hfinal⟩ := ih piles hnodup hleft' hothers hlength
          refine ⟨?_, hfinal⟩
          rw [List.map_cons, hrest, hends, List.reverse_cons, List.append_assoc]
          rfl
      | nil =>
          cases patiences with
          | nil => cases hcalls
          | cons patience patiences =>
              obtain ⟨rfl, hothers⟩ := List.cons.inj hcalls
              cases given with
              | nil => cases hlength
              | cons lease given =>
                  obtain ⟨hends, piles⟩ := h.acquire hplain turn
                  obtain ⟨hrest, hfinal⟩ := @ih given [] patiences piles List.nodup_nil nofun
                    hothers (Nat.succ.inj hlength)
                  refine ⟨?_, hfinal⟩
                  rw [List.map_cons, hrest, hends]
                  rfl

/-- Acquisitions undo releases, in the opposite order. Of a pool that knows its process and lends
without limits, any leases of its present owner are released one after the other, and then as many
are acquired, while nothing else happens to the pool. Every call ends at once, so that the factory
is asked nothing; the leases come back as they were, the last one first; and the pool is what it
was. -/
theorem acquisitions_undo_releases (reach : system.Reachable)
    (hid : id < system.world.pools.length)
    (hnoted : (system.world.pool id).notedPid = system.world.currentPid id)
    (hplain : (system.world.pool id).config.IsPlain) (hnodup : left.Nodup)
    (hleft : ∀ lease ∈ left,
      lease ∈ system.world.held ∧ lease.owner = (system.world.pool id).owner)
    (hlength : patiences.length = left.length) :
    (∃ entries final, Series (LeavesAlone id) id system entries final ∧
      entries.map Prod.fst = left.map .release ++ patiences.map .acquire) ∧
    ∀ entries final, Series (LeavesAlone id) id system entries final →
      entries.map Prod.fst = left.map .release ++ patiences.map .acquire →
        entries.map Prod.snd = left.map (fun _ => .done .finished) ++
          left.reverse.map (fun lease => .done (.lent lease)) ∧
        final.world.pool id = system.world.pool id ∧
        (final.heldFrom id).Perm (system.heldFrom id) := by
  refine ⟨exists_series hid hnodup (fun lease hmem => (hleft lease hmem).1) reach, ?_⟩
  intro entries final series hcalls
  have piles : Piles id (system.world.pool id) (system.heldFrom id) [] system :=
    ⟨reach, hid, hnoted, .nil, .refl _⟩
  have hmine : ∀ lease ∈ left,
      lease ∈ system.heldFrom id ∧ lease.owner = (system.world.pool id).owner := by
    intro lease hmem
    obtain ⟨hheld, howner⟩ := hleft lease hmem
    refine ⟨List.mem_filter.2 ⟨hheld, decide_eq_true ?_⟩, howner⟩
    rw [howner]
    exact reach.owner_pool hid
  obtain ⟨hsnd, hfinal⟩ := series.unpiles hplain piles hnodup hmine hcalls hlength
  rw [List.append_nil] at hsnd
  exact ⟨hsnd, hfinal.top.eq_of_nil, hfinal.out_perm⟩

/-- Three slots, one of them vacant and two lent, one of these for the second time. -/
theorem acquisitions_undo_releases_two : ∃ system,
    (init [7] [(0, Config.ofSize 3)]).run?
        [.call 0 (.acquire none), .reply 0 (.created "db"),
          .call 0 (.release ⟨0, ⟨0, 7, 0⟩, 0⟩), .advance (Duration.ofMillis 20),
          .call 0 (.acquire none), .call 0 (.acquire none), .reply 0 (.created "db")] =
      some system ∧
      (∃ entries final, Series (LeavesAlone 0) 0 system entries final ∧
        entries.map Prod.fst =
          [.release ⟨0, ⟨0, 7, 0⟩, 0⟩, .release ⟨1, ⟨0, 7, 0⟩, 20000000⟩, .acquire none,
            .acquire (some .forever)]) ∧
      ∀ entries final, Series (LeavesAlone 0) 0 system entries final →
        entries.map Prod.fst =
          [.release ⟨0, ⟨0, 7, 0⟩, 0⟩, .release ⟨1, ⟨0, 7, 0⟩, 20000000⟩, .acquire none,
            .acquire (some .forever)] →
        entries.map Prod.snd =
            [.done .finished, .done .finished, .done (.lent ⟨1, ⟨0, 7, 0⟩, 20000000⟩),
              .done (.lent ⟨0, ⟨0, 7, 0⟩, 0⟩)] ∧
          final.world.pool 0 = system.world.pool 0 ∧
          (final.heldFrom 0).Perm (system.heldFrom 0) := by
  refine exists_run? rfl fun system hrun => ?_
  have hid : 0 < system.world.pools.length := by
    cases hrun
    decide
  have hnoted : (system.world.pool 0).notedPid = system.world.currentPid 0 := by
    cases hrun
    rfl
  have hplain : (system.world.pool 0).config.IsPlain := by
    cases hrun
    exact ⟨rfl, rfl, rfl⟩
  have hleft : ∀ lease ∈ [⟨0, ⟨0, 7, 0⟩, 0⟩, ⟨1, ⟨0, 7, 0⟩, 20000000⟩],
      lease ∈ system.world.held ∧ lease.owner = (system.world.pool 0).owner := by
    cases hrun
    decide
  exact @acquisitions_undo_releases 0 system _ [none, some .forever] ⟨_, _, _, hrun⟩ hid hnoted
    hplain (by decide) hleft rfl

end System
end LeasePool
