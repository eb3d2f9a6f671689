import LeasePool.Proofs.Dialogues
import LeasePool.Proofs.Provenance
import LeasePool.Proofs.Registry

/-!
Disconnections. A teardown goes through the registry of its pool from the oldest entry to the
newest. It passes over what is dead by then and has the factory close the rest; after the last close
it lets the idle resources go. Since a registry has every live resource of the pool's owner, nothing
of that owner is missed, whatever happens during the closes.
-/

namespace LeasePool

namespace World

variable {world : World} {id : PoolId}

/-- A teardown passes dead entries over until it comes to a live one, or to the end. -/
theorem disconnectNext_cases (world : World) (id : PoolId) (free : List ResourceId) (closed : Nat)
    (rest : List ResourceId) :
    ((∀ resource ∈ rest, world.isAlive resource = false) ∧
      world.disconnectNext id free closed rest =
        ((world.letGoAll free).note (.disconnected closed), .done .finished)) ∨
    ∃ skipped resource later, rest = skipped ++ resource :: later ∧
      (∀ other ∈ skipped, world.isAlive other = false) ∧ world.isAlive resource = true ∧
      world.disconnectNext id free closed rest =
        (world.hold resource, .pending (.disconnecting id resource later free closed)) := by
  induction rest with
  | nil => exact .inl ⟨nofun, rfl⟩
  | cons first rest ih =>
      cases hfirst : world.isAlive first with
      | true =>
          refine .inr ⟨[], first, rest, rfl, nofun, hfirst, ?_⟩
          simp [disconnectNext, hfirst]
      | false =>
          have hskip : world.disconnectNext id free closed (first :: rest) =
              world.disconnectNext id free closed rest := by
            simp [disconnectNext, hfirst]
          rw [hskip]
          rcases ih with ⟨hdead, hend⟩ | ⟨skipped, resource, later, rfl, hdead, halive, hnext⟩
          · exact .inl ⟨List.forall_mem_cons.2 ⟨hfirst, hdead⟩, hend⟩
          · exact .inr ⟨first :: skipped, resource, later, rfl,
              List.forall_mem_cons.2 ⟨hfirst, hdead⟩, halive, hnext⟩

/-- Resources that only their places hold are destroyed in the order in which they lose them. -/
theorem Kept.journal_letGoAll {owned gripped : Multiset ResourceId} {resources : List ResourceId}
    (h : world.Kept (↑resources + owned) gripped)
    (hgrips : ∀ resource ∈ resources, gripped.count resource = 0) :
    (world.letGoAll resources).journal =
      (resources.map Signal.destroyed).reverse ++ world.journal := by
  induction resources generalizing world with
  | nil => rfl
  | cons resource rest ih =>
      rw [← Multiset.cons_coe, Multiset.cons_add] at h
      obtain ⟨hfirst, hrest⟩ := List.forall_mem_cons.1 hgrips
      have hlast : world.holdersOf resource = 1 := h.holders_eq_one hfirst
      rw [letGoAll_cons, ih h.letGo_owned hrest, letGo_journal, if_pos hlast]
      simp

theorem mem_journal_noteClose {resource : ResourceId} {failure : Option Failure} {signal : Signal}
    (h : signal ∈ world.journal) : signal ∈ (world.noteClose resource failure).journal := by
  cases failure with
  | none => exact h
  | some failure => exact List.mem_cons_of_mem _ h

end World

/-- What a teardown has yet to look at. -/
def Progress.listed : Progress → List ResourceId
  | .pending (.disconnecting _ _ rest _ _) => rest
  | _ => []

def Progress.IsTeardown (id : PoolId) (free : List ResourceId) (progress : Progress) : Prop :=
  progress = .done .finished ∨ ∃ resource later closed,
    progress = .pending (.disconnecting id resource later free closed)

/-- A teardown with the idle resources `free` in hand is about to look at the entries `rest`, while
other tasks wait. -/
structure Midway (id : PoolId) (free rest : List ResourceId) (world : World)
    (others : List Task) : Prop where
  fits : Scene.Fits ⟨world, ↑(rest.map (Holding.listed id)) +
    (↑(free.map (Holding.loose id)) + handOf others)⟩
  kept : Scene.Kept ⟨world, ↑(rest.map (Holding.listed id)) +
    (↑(free.map (Holding.loose id)) + handOf others)⟩

namespace Midway

variable {id : PoolId} {free rest : List ResourceId} {world : World} {others : List Task}
  {resource : ResourceId}

theorem kept_free (h : Midway id free rest world others) :
    world.Kept (↑free + Scene.owned ⟨world, handOf others⟩)
      (Scene.gripped ⟨world, handOf others⟩) := by
  have hkept := h.kept
  rw [Scene.Kept, Scene.owned_add (by simp [Holding.owned?]), Scene.owned_add_loose,
    Scene.gripped_add (by simp [Holding.gripped?]),
    Scene.gripped_add (by simp [Holding.gripped?])] at hkept
  exact hkept

theorem isAlive_of_mem_free (h : Midway id free rest world others) (hmem : resource ∈ free) :
    world.isAlive resource = true :=
  h.kept_free.isAlive_iff_placed.2 (.inl (Multiset.mem_add.2 (.inl hmem)))

theorem notMem_destroyed (h : Midway id free rest world others) (hmem : resource ∈ free) :
    .destroyed resource ∉ world.journal := by
  intro hgone
  have halive := h.isAlive_of_mem_free hmem
  have hlt := World.lt_of_holdersOf_pos (World.isAlive_iff.1 halive)
  rw [(h.kept_free.mem_destroyed_iff hlt).1 hgone] at halive
  cases halive

theorem isAlive_of_mem_held {lease : Lease} (h : Midway id free rest world others)
    (hmem : lease ∈ world.held) : world.isAlive lease.resource = true := by
  refine h.kept_free.isAlive_iff_placed.2 (.inl (Multiset.mem_add.2 (.inr ?_)))
  refine Multiset.mem_add.2 (.inr (Multiset.mem_add.2 (.inl ?_)))
  exact List.mem_map_of_mem hmem

/-- An entry is dead when it was destroyed. -/
theorem destroyed_iff_dead (h : Midway id free rest world others) (hmem : resource ∈ rest) :
    .destroyed resource ∈ world.journal ↔ world.isAlive resource = false := by
  obtain ⟨-, owner, hmaker, -⟩ := h.fits.hand (.listed id resource)
    (Multiset.mem_add.2 (.inl (List.mem_map_of_mem hmem)))
  exact h.kept_free.mem_destroyed_iff (World.lt_of_makerOf? hmaker)

/-- Other pools' teardowns do not grip what this pool made. -/
theorem count_gripped (h : Midway id free rest world others)
    (hothers : ∀ task ∈ others, task.pool ≠ id) (hmem : resource ∈ free) :
    (Scene.gripped ⟨world, handOf others⟩).count resource = 0 := by
  obtain ⟨-, owner, hmaker, hpool⟩ := h.fits.hand (.loose id resource)
    (Multiset.mem_add.2 (.inr (Multiset.mem_add.2 (.inl (List.mem_map_of_mem hmem)))))
  refine Multiset.count_eq_zero_of_notMem fun hgripped => ?_
  obtain ⟨holding, hholding, hgrips⟩ := (Multiset.mem_filterMap _ _).1 hgripped
  obtain ⟨task, htask, htaken⟩ := mem_handOf.1 hholding
  cases holding with
  | grip agent other =>
      cases hgrips
      obtain ⟨-, maker, hother, hplace⟩ := h.fits.hand (.grip agent resource)
        (Multiset.mem_add.2 (.inr (Multiset.mem_add.2 (.inr hholding))))
      obtain rfl := Option.some_inj.1 (hmaker.symm.trans hother)
      have hagent : agent = task.pool :=
        Option.some_inj.1 (Task.pool?_of_mem_holdings htaken)
      exact hothers task htask (hagent.symm.trans (hplace.symm.trans hpool))
  | turn | pause | slot | lease | handed | loose | listed | mention => cases hgrips

end Midway

namespace System

variable {system start middle next final : System} {id : PoolId} {event : Event}
  {events : List Event} {first progress : Progress} {asked : List Question}
  {resource : ResourceId} {free rest : List ResourceId} {closed : Nat}

/-- A teardown of a pool that knows its process begins with the registry as it is. -/
theorem Turn.midway_of_call (turn : system.Turn id (.call id .disconnectAll) none start first)
    (reach : system.Reachable)
    (hnoted : (system.world.pool id).notedPid = system.world.currentPid id) :
    Midway id (idleFromBottom (system.world.pool id).free) (system.world.pool id).registry
        (system.world.modifyPool id Pool.tearDown) system.tasks ∧
      let result := (system.world.modifyPool id Pool.tearDown).disconnectNext id
        (idleFromBottom (system.world.pool id).free) 0 (system.world.pool id).registry
      start = settle system.tasks result ∧ first = result.2 := by
  have hid := turn.lt reach
  have fits := reachable_fits reach
  refine ⟨⟨fits.tearDown hid, lasting_kept.tearDown fits hid (reachable_kept reach)⟩, ?_⟩
  cases turn with
  | @call id call result h =>
      obtain rfl := World.eq_begin_of_call h
      have hbegin : system.world.begin id .disconnectAll =
          (system.world.modifyPool id Pool.tearDown).disconnectNext id
            (idleFromBottom (system.world.pool id).free) 0 (system.world.pool id).registry := by
        rw [World.begin, World.disconnectAll, World.checkOwner_of_eq hnoted.symm]
      rw [hbegin]
      exact ⟨rfl, rfl⟩

/-- With an answer the teardown lets the resource go that was closed, and looks at the rest. -/
theorem Turn.midway_of_reply {agent : PoolId} (reach : system.Reachable)
    (turn : system.Turn id event (some (.disconnecting agent resource rest free closed)) next
      progress) : agent = id ∧ ∃ place failure,
      system.tasks[place]? = some (.disconnecting id resource rest free closed) ∧
      let world := (system.world.noteClose resource failure).letGo resource
      let result := world.disconnectNext id free (closed + 1) rest
      Midway id free rest world (system.tasks.eraseIdx place) ∧
        next = settle (system.tasks.eraseIdx place) result ∧ progress = result.2 := by
  cases turn with
  | wake htask h => cases h
  | @reply place reply task result htask h =>
      cases reply with
      | created | notCreated | valid | worked | broke => cases h
      | closed failure =>
          cases h
          have moves : Moves agent system.scene
              ⟨(system.world.noteClose resource failure).letGo resource,
                ↑(rest.map (Holding.listed agent)) + (↑(free.map (Holding.loose agent)) +
                  handOf (system.tasks.eraseIdx place))⟩ := by
            rw [scene, handOf_eraseIdx htask, Task.holdings, Multiset.cons_add, add_assoc]
            exact .tail (World.noteClose_moves resource failure) .ungrasp
          have fits := reachable_fits reach
          exact ⟨rfl, place, failure, htask, ⟨moves.fits fits,
            lasting_kept.moves moves fits (reachable_kept reach)⟩, rfl, rfl⟩

/-- The teardown waits for the factory to close a resource, and goes on with any answer. -/
def AwaitsClose (final : System) (id : PoolId) (progress : Progress) : Prop :=
  ∃ task resource, progress = .pending task ∧ task.question? = some (.close id resource) ∧
    ∀ place failure, final.tasks[place]? = some task → ∃ next progress,
      final.Turn id (.reply place (.closed failure)) (some task) next progress

theorem awaitsClose_disconnecting :
    final.AwaitsClose id (.pending (.disconnecting id resource rest free closed)) := by
  refine ⟨_, resource, rfl, rfl, fun place failure htask => ?_⟩
  exact ⟨_, _, .reply htask rfl⟩

/-- Each entry of a registry was closed, or is still listed, or died before its turn; the last
cannot happen to idle resources. -/
structure Covers (id : PoolId) (registry free : List ResourceId) (world : World)
    (rest : List ResourceId) (asked : List Question) : Prop where
  entries : ∀ resource ∈ registry, .close id resource ∈ asked ∨ resource ∈ rest ∨
    .destroyed resource ∈ world.journal ∧ resource ∉ free
  count : asked.length + rest.length ≤ registry.length
  closes : ∀ question ∈ asked, ∃ resource ∈ registry, question = .close id resource
  listed : rest ⊆ registry

namespace Covers

variable {registry : List ResourceId} {world after : World} {others : List Task}

theorem mono (h : Covers id registry free world rest asked)
    (hjournal : ∀ signal ∈ world.journal, signal ∈ after.journal) :
    Covers id registry free after rest asked := by
  refine ⟨fun resource hmem => ?_, h.count, h.closes, h.listed⟩
  rcases h.entries resource hmem with hasked | hlisted | ⟨hgone, hother⟩
  · exact .inl hasked
  · exact .inr (.inl hlisted)
  · exact .inr (.inr ⟨hjournal _ hgone, hother⟩)

/-- A look at what is listed. -/
theorem look (h : Covers id registry free world rest asked)
    (midway : Midway id free rest world others) (closed : Nat) :
    let result := world.disconnectNext id free closed rest
    Covers id registry free result.1 result.2.listed (asked ++ result.2.question?.toList) ∧
      result.2.IsTeardown id free := by
  have hdead : ∀ other ∈ rest, world.isAlive other = false →
      .destroyed other ∈ world.journal ∧ other ∉ free := by
    intro other hmem hfalse
    have hgone := (midway.destroyed_iff_dead hmem).2 hfalse
    exact ⟨hgone, fun hfree => midway.notMem_destroyed hfree hgone⟩
  rcases world.disconnectNext_cases id free closed rest with
    ⟨hrest, hend⟩ | ⟨skipped, resource, later, rfl, hskipped, -, hnext⟩
  · rw [hend]
    refine ⟨⟨fun other hmem => ?_, ?_, ?_, List.nil_subset _⟩, .inl rfl⟩
    · rcases h.entries other hmem with hasked | hlisted | ⟨hgone, hother⟩
      · exact .inl (List.mem_append_left _ hasked)
      · obtain ⟨hgone, hother⟩ := hdead other hlisted (hrest other hlisted)
        exact .inr (.inr ⟨List.mem_cons_of_mem _ (World.mem_journal_letGoAll hgone), hother⟩)
      · exact .inr (.inr ⟨List.mem_cons_of_mem _ (World.mem_journal_letGoAll hgone), hother⟩)
    · have hcount := h.count
      simp [Progress.question?, Progress.listed]
      omega
    · simpa [Progress.question?] using h.closes
  · rw [hnext]
    have hlisted := h.listed
    refine ⟨⟨fun other hmem => ?_, ?_, fun question hmem => ?_, ?_⟩, .inr ⟨_, _, _, rfl⟩⟩
    · rcases h.entries other hmem with hasked | hother | hgone
      · exact .inl (List.mem_append_left _ hasked)
      · rcases List.mem_append.1 hother with hpassed | hlater
        · exact .inr (.inr (hdead other hother (hskipped other hpassed)))
        · rcases List.mem_cons.1 hlater with rfl | hlater
          · exact .inl (List.mem_append_right _ (List.mem_singleton_self _))
          · exact .inr (.inl hlater)
      · exact .inr (.inr hgone)
    · have hcount := h.count
      simp [Progress.question?, Task.question?, Progress.listed] at hcount ⊢
      omega
    · rcases List.mem_append.1 hmem with hasked | hnew
      · exact h.closes question hasked
      · exact ⟨resource, hlisted (by simp), List.mem_singleton.1 hnew⟩
    · exact fun other hmem => hlisted (by simp [Progress.listed] at hmem; simp [hmem])

end Covers

/-- Whatever happens during a teardown, no entry is missed. -/
theorem Dialogue.covers {aside : System → Event → Prop} {registry : List ResourceId}
    (dialogue : Dialogue aside start first events final progress asked) (reach : start.Reachable)
    (hstart : Covers id registry free start.world first.listed first.question?.toList)
    (hfirst : first.IsTeardown id free) :
    Covers id registry free final.world progress.listed asked ∧
      progress.IsTeardown id free := by
  induction dialogue with
  | here => exact ⟨hstart, hfirst⟩
  | @waits events middle task event next asked before haside hstep hstays ih =>
      have fits := reachable_fits (reach.run? before.run?)
      refine ⟨ih.1.mono fun signal hmem => ?_, ih.2⟩
      exact (lasting_journal signal).step? fits hmem hstep
  | @goesOn events middle task agent event next progress asked before turn ih =>
      obtain ⟨covers, hend | ⟨resource, later, closed, hpending⟩⟩ := ih
      · cases hend
      · cases hpending
        obtain ⟨rfl, place, failure, -, midway, rfl, rfl⟩ :=
          turn.midway_of_reply (reach.run? before.run?)
        have hjournal : ∀ signal ∈ middle.world.journal,
            signal ∈ ((middle.world.noteClose resource failure).letGo resource).journal :=
          fun signal hmem => World.mem_journal_letGo (World.mem_journal_noteClose hmem)
        rw [world_settle]
        exact (covers.mono hjournal).look midway (closed + 1)

/-- What a teardown has closed where it stands, if other calls may come during the closes. -/
structure ClosesPresent (system : System) (id : PoolId) (final : System) (progress : Progress)
    (asked : List Question) : Prop where
  /-- It closes resources of the pool's owner and asks nothing else. -/
  closes : ∀ question ∈ asked, ∃ resource, question = .close id resource ∧
    system.world.makerOf? resource = some (system.world.pool id).owner
  /-- It asks no more often than the registry is long, and goes on after every answer. -/
  bounded : asked.length ≤ (system.world.pool id).registry.length
  stands : progress = .done .finished ∨ final.AwaitsClose id progress
  idle : progress = .done .finished →
    ∀ resource ∈ (system.world.pool id).idle, .close id resource ∈ asked
  /-- The resource of a lease is closed, unless it was destroyed meanwhile. -/
  leased : progress = .done .finished → ∀ lease ∈ system.leases,
    lease.owner = (system.world.pool id).owner →
      .close id lease.resource ∈ asked ∨ .destroyed lease.resource ∈ final.world.journal
  /-- The resource of a lease that an earlier owner issued is missed. -/
  missed : ∀ lease ∈ system.leases, lease.owner ≠ (system.world.pool id).owner →
    .close id lease.resource ∉ asked

/-- What is idle or lent is in its place. -/
theorem isAlive_of_idle (reach : system.Reachable) (hid : id < system.world.pools.length)
    (hmem : resource ∈ (system.world.pool id).idle) : system.world.isAlive resource = true := by
  obtain ⟨others, hidle, -⟩ := World.idle_split hid
  refine (reachable_kept reach).isAlive_iff_placed.2 (.inl (Multiset.mem_add.2 (.inl ?_)))
  rw [scene, hidle]
  exact Multiset.mem_add.2 (.inl hmem)

theorem isAlive_of_lease {lease : Lease} (reach : system.Reachable)
    (hmem : lease ∈ system.leases) : system.world.isAlive lease.resource = true := by
  refine (reachable_kept reach).isAlive_iff_placed.2 (.inl ?_)
  apply Multiset.mem_of_le (idle_add_leases_le_owned system)
  exact Multiset.mem_add.2 (.inr (List.mem_map_of_mem hmem))

/-- A teardown of a pool that knows its process reaches every resource of the pool's owner that is
idle or lent, whatever happens during the closes, and none that an earlier owner lent. -/
theorem disconnectAll_closes_present (reach : system.Reachable)
    (hid : id < system.world.pools.length)
    (hnoted : (system.world.pool id).notedPid = system.world.currentPid id) :
    ∃ start first, system.Turn id (.call id .disconnectAll) none start first ∧
      ∀ events final progress asked,
        Dialogue (fun _ _ => True) start first events final progress asked →
          system.ClosesPresent id final progress asked := by
  have hfits := (reachable_fits reach).pools.pool hid
  have hlists : (system.world.pool id).Lists system.world := (reachable_listed reach).pool hid
  have turn := turn_of_call .disconnectAll hid rfl
  refine ⟨_, _, turn, fun events final progress asked dialogue => ?_⟩
  generalize settle system.tasks (system.world.begin id .disconnectAll) = start at turn dialogue
  generalize (system.world.begin id .disconnectAll).2 = first at turn dialogue
  obtain ⟨midway, rfl, rfl⟩ := turn.midway_of_call reach hnoted
  have hbegin : Covers id (system.world.pool id).registry
      (idleFromBottom (system.world.pool id).free) (system.world.modifyPool id Pool.tearDown)
      (system.world.pool id).registry [] :=
    ⟨fun resource hmem => .inr (.inl hmem), by simp, nofun, List.Subset.refl _⟩
  obtain ⟨hlook, hfirst⟩ := hbegin.look midway 0
  rw [List.nil_append, ← world_settle system.tasks] at hlook
  obtain ⟨covers, hstands⟩ := dialogue.covers (reach.step? turn.step?) hlook hfirst
  have hentry : ∀ resource, system.world.makerOf? resource = some (system.world.pool id).owner →
      system.world.isAlive resource = true → progress = .done .finished →
        .close id resource ∈ asked ∨ .destroyed resource ∈ final.world.journal ∧
          resource ∉ idleFromBottom (system.world.pool id).free := by
    rintro resource hmaker halive rfl
    have hregistered := hlists.complete resource hmaker halive
    exact (covers.entries resource hregistered).imp_right (Or.resolve_left · List.not_mem_nil)
  have hcloses : ∀ question ∈ asked, ∃ resource, question = .close id resource ∧
      system.world.makerOf? resource = some (system.world.pool id).owner := by
    intro question hmem
    obtain ⟨resource, hlisted, rfl⟩ := covers.closes question hmem
    exact ⟨resource, rfl, hfits.registry resource hlisted⟩
  refine ⟨hcloses, ?_, ?_, fun hend resource hidle => ?_, fun hend lease hlease howner => ?_,
    fun lease hlease howner hmem => ?_⟩
  · exact Nat.le_of_add_right_le covers.count
  · exact hstands.imp_right fun ⟨resource, later, closed, h⟩ => h ▸ awaitsClose_disconnecting
  · exact (hentry resource (hfits.idle resource hidle)
      (isAlive_of_idle reach hid hidle) hend).resolve_right fun h => h.2 hidle
  · have hmaker := makerOf?_of_mem_leases reach hlease
    rw [howner] at hmaker
    exact (hentry lease.resource hmaker (isAlive_of_lease reach hlease) hend).imp_right And.left
  · obtain ⟨_, ⟨⟩, hmaker⟩ := hcloses _ hmem
    exact howner (Option.some_inj.1 ((makerOf?_of_mem_leases reach hlease).symm.trans hmaker))

/-- One resource of the pool is idle, and another one is lent, when it is torn down. -/
theorem disconnectAll_closes_present_idle_and_lent : ∃ system,
    (init [7] [(0, Config.ofSize 2)]).run?
        [.call 0 (.acquire none), .reply 0 (.created "db"), .call 0 (.acquire none),
          .reply 0 (.created "db"), .call 0 (.release ⟨0, ⟨0, 7, 0⟩, 0⟩)] = some system ∧
      ∃ start first, system.Turn 0 (.call 0 .disconnectAll) none start first ∧
        ∀ events final progress asked,
          Dialogue (fun _ _ => True) start first events final progress asked →
            system.ClosesPresent 0 final progress asked := by
  refine exists_run? rfl fun system hrun => disconnectAll_closes_present ⟨_, _, _, hrun⟩ ?_ ?_
  · cases hrun
    decide
  · cases hrun
    decide

/-- What was lent before an invalidation is in no registry any more, and a teardown does not close
it. -/
theorem lent_before_not_closed : ∃ system next,
    (init [7] [(0, Config.ofSize 1)]).run?
        [.call 0 (.acquire none), .reply 0 (.created "db"), .call 0 .invalidate] = some system ∧
      system.IsQuiet ∧ (system.world.pool 0).notedPid = system.world.currentPid 0 ∧
      ⟨0, ⟨0, 7, 0⟩, 0⟩ ∈ system.world.held ∧ system.world.currentPid 0 = 7 ∧
      system.Turn 0 (.call 0 .disconnectAll) none next (.done .finished) :=
  ⟨_, _, rfl, rfl, by decide, by decide, by decide, turn_of_call .disconnectAll (by decide) rfl⟩

end System
end LeasePool
