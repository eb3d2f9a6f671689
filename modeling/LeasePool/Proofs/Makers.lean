import LeasePool.Proofs.Idle
import LeasePool.Proofs.Steps

/-!
Makers. Every resource was made under some owner, and whatever keeps or lends a resource goes by
that owner: a pool keeps resources of its present owner only, and a lease names the owner of the
resource it lends. So a resource never changes pools, and its lease tells where it comes from.
-/

namespace LeasePool

variable {world after : World} {id : PoolId} {hand left : Multiset Holding}

/-- The pool made the resource. -/
def World.Made (world : World) (id : PoolId) (resource : ResourceId) : Prop :=
  ∃ owner, world.makerOf? resource = some owner ∧ owner.pool = id

/-- Every resource of a world still has its maker in a later one. -/
def World.KeepsMakers (world after : World) : Prop :=
  ∀ resource owner, world.makerOf? resource = some owner → after.makerOf? resource = some owner

theorem World.KeepsMakers.of_eq
    (h : ∀ resource, after.makerOf? resource = world.makerOf? resource) :
    world.KeepsMakers after := by
  intro resource owner hmaker
  rw [h, hmaker]

theorem World.keepsMakers_addResource (world : World) (kind : String) (owner : Owner) :
    world.KeepsMakers (world.addResource kind owner) := by
  intro resource maker hmaker
  rw [World.makerOf?_addResource, if_neg (Nat.ne_of_lt (World.lt_of_makerOf? hmaker)), hmaker]

/-- A pool knows its place and its process, and what it keeps was made under its owner. -/
structure Pool.Fits (world : World) (id : PoolId) (pool : Pool) : Prop where
  pool_eq : pool.owner.pool = id
  pid_eq : pool.notedPid = pool.owner.pid
  idle : ∀ resource ∈ idleFromBottom pool.free, world.makerOf? resource = some pool.owner
  registry : ∀ resource ∈ pool.registry, world.makerOf? resource = some pool.owner

namespace Pool

variable {pool next : Pool} {owner : Owner}

theorem Fits.change (h : Fits world id pool) (hmaker : world.KeepsMakers after)
    (howner : next.owner = pool.owner) (hpid : next.notedPid = pool.notedPid)
    (hidle : ∀ resource ∈ idleFromBottom next.free,
      resource ∈ idleFromBottom pool.free ∨ after.makerOf? resource = some pool.owner)
    (hregistry : ∀ resource ∈ next.registry,
      resource ∈ pool.registry ∨ after.makerOf? resource = some pool.owner) :
    Fits after id next := by
  refine ⟨?_, ?_, ?_, ?_⟩
  · rw [howner]
    exact h.pool_eq
  · rw [hpid, howner]
    exact h.pid_eq
  · intro resource hmem
    rw [howner]
    rcases hidle resource hmem with hold | hnew
    · exact hmaker _ _ (h.idle resource hold)
    · exact hnew
  · intro resource hmem
    rw [howner]
    rcases hregistry resource hmem with hold | hnew
    · exact hmaker _ _ (h.registry resource hold)
    · exact hnew

theorem Fits.mono (h : Fits world id pool) (hmaker : world.KeepsMakers after) :
    Fits after id pool :=
  h.change hmaker rfl rfl (fun _ => .inl) (fun _ => .inl)

/-- A pool that keeps nothing only has to know its place and its process. -/
theorem Fits.of_empty (hpool : pool.owner.pool = id) (hpid : pool.notedPid = pool.owner.pid)
    (hidle : idleFromBottom pool.free = []) (hregistry : pool.registry = []) :
    Fits world id pool := by
  refine ⟨hpool, hpid, ?_, ?_⟩
  · rw [hidle]
    exact fun _ => nofun
  · rw [hregistry]
    exact fun _ => nofun

theorem Fits.reset (inherited : Bool) (howner : owner.pool = id) :
    Fits world id (pool.reset owner inherited) :=
  .of_empty howner rfl (idleFromBottom_replicate_vacant _) rfl

theorem Fits.tearDown (h : Fits world id pool) : Fits world id pool.tearDown :=
  .of_empty h.pool_eq h.pid_eq rfl rfl

theorem Fits.take {slot : Slot} {rest : List Slot} (h : Fits world id pool)
    (hfree : pool.free = slot :: rest) : Fits world id pool.take := by
  refine h.change (.of_eq fun _ => rfl) rfl rfl ?_ (fun _ => .inl)
  intro resource hmem
  refine .inl ?_
  have hrest : resource ∈ idleFromBottom rest := by simpa [Pool.take, hfree] using hmem
  rw [hfree]
  cases slot with
  | vacant => rwa [idleFromBottom_cons_vacant]
  | idle entry =>
      rw [idleFromBottom_cons_idle]
      exact List.mem_append_left _ hrest

theorem Fits.restoreVacant (h : Fits world id pool) :
    Fits world id (pool.restoreVacant owner) := by
  obtain ⟨free, leased, stale, heq⟩ := pool.restoreVacant_eq owner
  refine h.change (.of_eq fun _ => rfl) (by rw [heq]) (by rw [heq]) ?_
    (by rw [heq]; exact fun _ => .inl)
  intro resource hmem
  rw [idleFromBottom_restoreVacant] at hmem
  exact .inl hmem

theorem Fits.giveBack (h : Fits world id pool) (entry : IdleResource)
    (hentry : world.makerOf? entry.resource = some pool.owner) :
    Fits world id (pool.giveBack (.idle entry)) := by
  unfold Pool.giveBack push
  split
  · refine h.change (.of_eq fun _ => rfl) rfl rfl ?_ (fun _ => .inl)
    intro resource hmem
    rw [idleFromBottom_cons_idle, List.mem_append, List.mem_singleton] at hmem
    rcases hmem with hold | rfl
    · exact .inl hold
    · exact .inr hentry
  · exact h.change (.of_eq fun _ => rfl) rfl rfl (fun _ => .inl) (fun _ => .inl)

theorem Fits.enroll (h : Fits world id pool) (alive : ResourceId → Bool) {resource : ResourceId}
    (hmade : world.makerOf? resource = some owner) :
    Fits world id (pool.enroll owner alive resource) := by
  unfold Pool.enroll
  dsimp only
  split
  · next howner =>
    refine h.change (.of_eq fun _ => rfl) rfl rfl (fun _ => .inl) ?_
    intro other hmem
    rw [register, List.mem_append, List.mem_singleton] at hmem
    rcases hmem with hold | rfl
    · exact .inl (List.mem_filter.1 hold).1
    · exact .inr (hmade.trans (congrArg some howner.symm))
  · exact h.change (.of_eq fun _ => rfl) rfl rfl (fun _ => .inl) (fun _ => .inl)

theorem Fits.vacate (h : Fits world id pool) (takes : IdleResource → Bool) :
    Fits world id (pool.vacate takes) := by
  refine h.change (.of_eq fun _ => rfl) rfl rfl ?_ (fun _ => .inl)
  intro resource hmem
  exact .inl (mem_idle_of_mem_vacate hmem)

end Pool

/-- What an operation has in hand belongs where it says. -/
def Holding.Fits (world : World) : Holding → Prop
  | .turn id | .pause id => id < world.pools.length
  | .slot id owner => id < world.pools.length ∧ owner.pool = id
  | .lease id owner resource =>
      id < world.pools.length ∧ owner.pool = id ∧ world.makerOf? resource = some owner
  | .handed owner resource =>
      owner.pool < world.pools.length ∧ world.makerOf? resource = some owner
  | .loose id resource | .grip id resource | .listed id resource | .mention id resource =>
      id < world.pools.length ∧ world.Made id resource

theorem Holding.Fits.mono {holding : Holding} (h : holding.Fits world)
    (hlength : after.pools.length = world.pools.length) (hmaker : world.KeepsMakers after) :
    holding.Fits after := by
  have hmade : ∀ {id resource}, world.Made id resource → after.Made id resource := by
    rintro id resource ⟨owner, howner, hpool⟩
    exact ⟨owner, hmaker _ _ howner, hpool⟩
  cases holding with
  | turn | pause | slot => simpa only [Fits, hlength] using h
  | lease => exact ⟨hlength ▸ h.1, h.2.1, hmaker _ _ h.2.2⟩
  | handed => exact ⟨hlength ▸ h.1, hmaker _ _ h.2⟩
  | loose | grip | listed | mention => exact ⟨hlength ▸ h.1, hmade h.2⟩

/-- Pools, leases and operations go by the makers of their resources. -/
structure Scene.Fits (scene : Scene) : Prop where
  pools : scene.world.EachPool (Pool.Fits scene.world)
  hand : ∀ holding ∈ scene.hand, holding.Fits scene.world
  held : ∀ lease ∈ scene.world.held, lease.owner.pool < scene.world.pools.length ∧
    scene.world.makerOf? lease.resource = some lease.owner

namespace Scene.Fits

variable {change : Pool → Pool}

/-- One pool changes, and nothing comes up in hand or with callers that does not belong there. -/
theorem modify (h : Fits ⟨world, hand⟩) (hpools : after.pools = (world.modifyPool id change).pools)
    (hmaker : world.KeepsMakers after)
    (hchange : ∀ pool, world.pools[id]? = some pool → pool.Fits world id →
      (change pool).Fits after id)
    (hhand : ∀ holding ∈ left, holding ∈ hand ∨ holding.Fits after)
    (hheld : ∀ lease ∈ after.held, lease ∈ world.held ∨ lease.owner.pool < world.pools.length ∧
      after.makerOf? lease.resource = some lease.owner) : Fits ⟨after, left⟩ := by
  have hlength : after.pools.length = world.pools.length := by
    rw [hpools, World.length_modifyPool]
  refine ⟨?_, ?_, ?_⟩
  · have heach : (world.modifyPool id change).EachPool (Pool.Fits after) :=
      h.pools.modify hchange fun other pool _ hfits => hfits.mono hmaker
    intro other pool hpool
    rw [hpools] at hpool
    exact heach other pool hpool
  · intro holding hmem
    rcases hhand holding hmem with hold | hnew
    · exact (h.hand holding hold).mono hlength hmaker
    · exact hnew
  · intro lease hmem
    rcases hheld lease hmem with hold | hnew
    · exact ⟨hlength ▸ (h.held lease hold).1, hmaker _ _ (h.held lease hold).2⟩
    · exact ⟨hlength ▸ hnew.1, hnew.2⟩

/-- No pool changes. -/
theorem spare (h : Fits ⟨world, hand⟩) (hpools : after.pools = world.pools)
    (hmaker : ∀ resource, after.makerOf? resource = world.makerOf? resource)
    (hhand : ∀ holding ∈ left, holding ∈ hand ∨ holding.Fits after)
    (hheld : ∀ lease ∈ after.held, lease ∈ world.held ∨ lease.owner.pool < world.pools.length ∧
      after.makerOf? lease.resource = some lease.owner) : Fits ⟨after, left⟩ := by
  have hsame : world.modifyPool 0 (fun pool => pool) = world := World.modifyPool_eq_self rfl
  refine h.modify (hpools.trans (congrArg World.pools hsame.symm)) (.of_eq hmaker) ?_ hhand hheld
  exact fun pool _ hfits => hfits.mono (.of_eq hmaker)

end Scene.Fits

theorem Move.fits {scene next : Scene} (move : Move id scene next) (h : scene.Fits) :
    next.Fits := by
  have hswap : ∀ {kept new : Holding} {hand : Multiset Holding} {world : World},
      new.Fits world → ∀ holding ∈ new ::ₘ hand, holding ∈ kept ::ₘ hand ∨ holding.Fits world := by
    intro kept new hand world hnew holding hmem
    rcases Multiset.mem_cons.1 hmem with rfl | hold
    · exact .inr hnew
    · exact .inl (Multiset.mem_cons_of_mem hold)
  have hless : ∀ {gone : Holding} {hand : Multiset Holding} {world : World},
      ∀ holding ∈ hand, holding ∈ gone ::ₘ hand ∨ holding.Fits world :=
    fun _ hold => .inl (Multiset.mem_cons_of_mem hold)
  cases move with
  | tell notice => exact h.spare rfl (fun _ => rfl) (fun _ => .inl) (fun _ => .inl)
  | @refresh world hand hid =>
      refine h.modify World.checkOwner_pools (.of_eq fun _ => World.makerOf?_checkOwner) ?_
        (fun _ => .inl) fun lease hmem => .inl (World.checkOwner_held ▸ hmem)
      intro pool _ hpool
      split
      · exact hpool.mono (.of_eq fun _ => World.makerOf?_checkOwner)
      · exact .reset true hpool.pool_eq
  | enqueue hid hpid =>
      refine h.modify rfl (.of_eq fun _ => rfl) ?_ ?_ (fun _ => .inl)
      · exact fun pool _ hpool =>
          hpool.change (.of_eq fun _ => rfl) rfl rfl (fun _ => .inl) (fun _ => .inl)
      · intro holding hmem
        rcases Multiset.mem_cons.1 hmem with rfl | hold
        · exact .inr (by simpa [Holding.Fits] using hid)
        · exact .inl hold
  | giveUp hfree =>
      refine h.modify rfl (.of_eq fun _ => rfl) ?_ hless (fun _ => .inl)
      exact fun pool _ hpool =>
        hpool.change (.of_eq fun _ => rfl) rfl rfl (fun _ => .inl) (fun _ => .inl)
  | @take world hand slot rest hfree =>
      have hid : id < world.pools.length := h.hand (.turn id) (Multiset.mem_cons_self _ _)
      have hpool := h.pools.pool hid
      refine h.modify rfl (.of_eq fun _ => rfl) ?_ (hswap ?_) (fun _ => .inl)
      · intro pool hget hfits
        rw [World.getElem?_pools hid] at hget
        cases hget
        exact (hfits.take hfree).mono (.of_eq fun _ => rfl)
      · cases slot with
        | vacant => exact ⟨by simpa [World.emit] using hid, hpool.pool_eq⟩
        | idle entry =>
            refine ⟨by simpa [World.emit] using hid, hpool.pool_eq, hpool.idle entry.resource ?_⟩
            rw [hfree, idleFromBottom_cons_idle]
            exact List.mem_append_right _ (List.mem_singleton_self _)
  | @make world hand owner kind =>
      obtain ⟨hid, hpool⟩ := h.hand (.slot id owner) (Multiset.mem_cons_self _ _)
      have hmade : (world.addResource kind owner).makerOf? world.resources.length = some owner := by
        rw [World.makerOf?_addResource, if_pos rfl]
      have hkeeps := world.keepsMakers_addResource kind owner
      refine h.modify rfl hkeeps ?_ (hswap ⟨?_, hpool, hmade⟩) (fun _ => .inl)
      · exact fun pool _ hfits =>
          ((hfits.mono hkeeps).enroll _ hmade).mono (.of_eq fun _ => rfl)
      · simpa [World.addResource] using hid
  | countFailure =>
      refine h.modify rfl (.of_eq fun _ => rfl) ?_ (fun _ => .inl) (fun _ => .inl)
      exact fun pool _ hpool =>
        hpool.change (.of_eq fun _ => rfl) rfl rfl (fun _ => .inl) (fun _ => .inl)
  | lend lease => exact h.spare rfl (fun _ => rfl) (fun _ => .inl) (fun _ => .inl)
  | @keep world hand lease =>
      obtain ⟨hid, hpool, hmaker⟩ := h.hand _ (Multiset.mem_cons_self _ _)
      refine h.spare rfl (fun _ => rfl) hless ?_
      intro other hmem
      rcases List.mem_cons.1 hmem with rfl | hold
      · exact .inr ⟨hpool ▸ hid, hmaker⟩
      · exact .inl hold
  | @part world hand lease hheld =>
      refine h.spare rfl (fun _ => rfl) ?_ fun other hmem => .inl (List.mem_of_mem_erase hmem)
      intro holding hmem
      rcases Multiset.mem_cons.1 hmem with rfl | hold
      · exact .inr (h.held lease hheld)
      · exact .inl hold
  | handIn =>
      obtain ⟨hid, hpool, hmaker⟩ := h.hand _ (Multiset.mem_cons_self _ _)
      exact h.spare rfl (fun _ => rfl) (hswap ⟨hpool ▸ hid, hmaker⟩) (fun _ => .inl)
  | accept hpool hpid =>
      obtain ⟨hid, hmaker⟩ := h.hand _ (Multiset.mem_cons_self _ _)
      exact h.spare rfl (fun _ => rfl) (hswap ⟨hpool ▸ hid, hpool, hmaker⟩) (fun _ => .inl)
  | @detach world hand owner resource =>
      obtain ⟨hid, hpool, hmaker⟩ := h.hand _ (Multiset.mem_cons_self _ _)
      have hloose : Holding.Fits world (.loose id resource) := ⟨hid, owner, hmaker, hpool⟩
      refine h.spare rfl (fun _ => rfl) ?_ (fun _ => .inl)
      intro holding hmem
      rcases Multiset.mem_cons.1 hmem with rfl | hmem
      · exact .inr ⟨hid, hpool⟩
      · exact hswap hloose holding hmem
  | @shelve world hand owner entry howner hpool hroom =>
      obtain ⟨hid, hmaker⟩ := h.hand _ (Multiset.mem_cons_self _ _)
      rw [hpool] at hid
      refine h.modify rfl (.of_eq fun _ => rfl) ?_ hless (fun _ => .inl)
      intro pool hget hfits
      rw [World.getElem?_pools hid] at hget
      cases hget
      exact (hfits.giveBack entry (hmaker.trans (congrArg some howner.symm))).mono
        (.of_eq fun _ => rfl)
  | restore =>
      refine h.modify rfl (.of_eq fun _ => rfl) ?_ hless (fun _ => .inl)
      exact fun pool _ hfits => hfits.restoreVacant.mono (.of_eq fun _ => rfl)
  | refuse | disown =>
      exact h.spare rfl (fun _ => World.makerOf?_forget) hless (fun _ => .inl)
  | shed | letGo | ungrasp =>
      exact h.spare World.letGo_pools (fun _ => World.makerOf?_letGo) hless
        fun lease hmem => .inl (World.letGo_held ▸ hmem)
  | grasp halive =>
      obtain ⟨hid, hmade⟩ := h.hand _ (Multiset.mem_cons_self _ _)
      have hmade' : Holding.Fits _ (.grip id _) := ⟨hid, hmade⟩
      refine h.spare rfl (fun _ => World.makerOf?_hold) (hswap ?_) (fun _ => .inl)
      exact hmade'.mono rfl (.of_eq fun _ => World.makerOf?_hold)
  | skip | closed => exact h.spare rfl (fun _ => rfl) hless (fun _ => .inl)
  | @vacate world hand hid takes hpid =>
      refine h.modify rfl (.of_eq fun _ => rfl) ?_ ?_ (fun _ => .inl)
      · exact fun pool _ hfits => (hfits.vacate takes).mono (.of_eq fun _ => rfl)
      · have hselected : ∀ resource ∈ (world.pool id).selected takes,
            id < (world.modifyPool id fun pool => pool.vacate takes).pools.length ∧
              world.Made id resource := by
          intro resource hmem
          have hidle := Pool.mem_idle_of_mem_selected hmem
          have hpool := h.pools.pool hid
          exact ⟨by rwa [World.length_modifyPool], _, hpool.idle resource hidle, hpool.pool_eq⟩
        intro holding hmem
        simp only [Multiset.mem_add, Multiset.mem_coe, List.mem_map] at hmem
        rcases hmem with ⟨resource, hmem, rfl⟩ | ⟨resource, hmem, rfl⟩ | hold
        · exact .inr (hselected resource hmem)
        · exact .inr (hselected resource hmem)
        · exact .inl hold
  | pause hid =>
      refine h.spare rfl (fun _ => rfl) ?_ (fun _ => .inl)
      intro holding hmem
      rcases Multiset.mem_cons.1 hmem with rfl | hold
      · exact .inr hid
      · exact .inl hold
  | resume => exact h.spare rfl (fun _ => rfl) hless (fun _ => .inl)

theorem Move.keepsMakers {scene next : Scene} (move : Move id scene next) :
    scene.world.KeepsMakers next.world := by
  cases move with
  | refresh => exact .of_eq fun _ => World.makerOf?_checkOwner
  | make owner kind => exact World.keepsMakers_addResource _ kind owner
  | shed | letGo | ungrasp => exact .of_eq fun _ => World.makerOf?_letGo
  | grasp => exact .of_eq fun _ => World.makerOf?_hold
  | refuse | disown => exact .of_eq fun _ => World.makerOf?_forget
  | _ => exact .of_eq fun _ => rfl

theorem Moves.fits {scene next : Scene} (moves : Moves id scene next) (h : scene.Fits) :
    next.Fits := by
  induction moves with
  | refl => exact h
  | tail _ move ih => exact move.fits ih

namespace Scene.Fits

theorem hosts (h : Fits ⟨world, hand⟩) (hid : id < world.pools.length) : world.Hosts id :=
  ⟨hid, (h.pools.pool hid).pool_eq, (h.pools.pool hid).pid_eq⟩

theorem tearDown (h : Fits ⟨world, hand⟩) (hid : id < world.pools.length) :
    (Scene.tearDown ⟨world, hand⟩ id).Fits := by
  have hpool := h.pools.pool hid
  have hid' : id < (world.modifyPool id Pool.tearDown).pools.length := by
    rwa [World.length_modifyPool]
  refine h.modify rfl (.of_eq fun _ => rfl) ?_ ?_ (fun _ => .inl)
  · exact fun pool _ hfits => hfits.tearDown.mono (.of_eq fun _ => rfl)
  · intro holding hmem
    simp only [Multiset.mem_add, Multiset.mem_coe, List.mem_map] at hmem
    rcases hmem with ⟨resource, hmem, rfl⟩ | ⟨resource, hmem, rfl⟩ | hold
    · exact .inr ⟨hid', _, hpool.registry resource hmem, hpool.pool_eq⟩
    · exact .inr ⟨hid', _, hpool.idle resource hmem, hpool.pool_eq⟩
    · exact .inl hold

theorem invalidate (h : Fits ⟨world, hand⟩) : Fits ⟨world.invalidate id, hand⟩ := by
  refine h.modify World.invalidate_pools (.of_eq fun _ => World.makerOf?_invalidate) ?_
    (fun _ => .inl) fun lease hmem => .inl (World.invalidate_held ▸ hmem)
  exact fun pool _ hfits => .reset false hfits.pool_eq

theorem dropLease (h : Fits ⟨world, hand⟩) (lease : Lease) :
    Fits ⟨world.dropLease lease, hand⟩ := by
  refine h.spare World.letGo_pools (fun _ => World.makerOf?_letGo) (fun _ => .inl) ?_
  intro other hmem
  rw [World.dropLease, World.letGo_held] at hmem
  exact .inl (List.mem_of_mem_erase hmem)

end Scene.Fits

namespace System

variable {system next : System} {event : Event}

theorem hosted_of_fits (h : system.scene.Fits) : system.Hosted := by
  refine ⟨fun id => h.hosts, ?_⟩
  intro task htask
  have hhand : ∀ holding ∈ task.holdings, holding.Fits system.world :=
    fun holding hmem => h.hand holding (mem_handOf.2 ⟨task, htask, hmem⟩)
  apply h.hosts
  cases task with
  | waiting | pausing => exact hhand _ (Multiset.mem_singleton_self _)
  | validating | replacing | creating | working | discarding =>
      exact (hhand _ (Multiset.mem_singleton_self _)).1
  | disconnecting id resource =>
      refine (hhand (.grip id resource) ?_).1
      simp [Task.holdings]
  | sweeping id resource rest taken =>
      refine (hhand (.mention id resource) ?_).1
      simp [Task.holdings]

theorem step?_fits (h : system.scene.Fits) (hstep : system.step? event = some next) :
    next.scene.Fits := by
  cases step?_passage (hosted_of_fits h) hstep with
  | moves _ _ _ hmoves => exact hmoves.fits h
  | invalidate hid hscene =>
      rw [hscene]
      exact h.invalidate
  | @disconnect next id hid hmoves =>
      have hfresh : Scene.Fits ⟨system.world.checkOwner id, handOf system.tasks⟩ :=
        Move.fits (.refresh hid) h
      refine hmoves.fits (hfresh.tearDown ?_)
      rwa [World.length_checkOwner]
  | drop hheld hscene =>
      rw [hscene]
      exact h.dropLease _
  | fork _ hscene | advance hscene =>
      rw [hscene]
      exact h.spare rfl (fun _ => rfl) (fun _ => .inl) (fun _ => .inl)

theorem init_fits (pids : List Pid) (pools : List (ProcessId × Config)) :
    (init pids pools).scene.Fits := by
  refine ⟨?_, ?_, ?_⟩
  · intro id pool hget
    obtain ⟨config, process, rfl⟩ := init_each_pool pids pools id pool hget
    exact .of_empty rfl rfl (idleFromBottom_replicate_vacant _) rfl
  · exact fun holding hmem => absurd hmem (Multiset.notMem_zero holding)
  · intro lease hmem
    rw [scene, init_held] at hmem
    exact absurd hmem List.not_mem_nil

theorem run?_fits {events : List Event} (h : system.scene.Fits)
    (hrun : system.run? events = some next) : next.scene.Fits :=
  run?_induction (fun _ _ _ => step?_fits) h hrun

end System

/-- A property of scenes that outlasts whatever can happen. -/
structure Scene.Lasting (holds : Scene → Prop) : Prop where
  move : ∀ {id scene next}, Fits scene → Move id scene next → holds scene → holds next
  tearDown : ∀ {world hand id}, Fits ⟨world, hand⟩ → id < world.pools.length →
    holds ⟨world, hand⟩ → holds (Scene.tearDown ⟨world, hand⟩ id)
  invalidate : ∀ {world hand id}, Fits ⟨world, hand⟩ → id < world.pools.length →
    holds ⟨world, hand⟩ → holds ⟨world.invalidate id, hand⟩
  drop : ∀ {world hand lease}, Fits ⟨world, hand⟩ → lease ∈ world.held →
    holds ⟨world, hand⟩ → holds ⟨world.dropLease lease, hand⟩
  fork : ∀ {world hand process pid}, holds ⟨world, hand⟩ → holds ⟨world.fork process pid, hand⟩
  advance : ∀ {world hand time}, holds ⟨world, hand⟩ → holds ⟨world.advance time, hand⟩

namespace Scene.Lasting

variable {holds : Scene → Prop} {system next : System} {event : Event}

theorem moves {scene next : Scene} (lasting : Lasting holds) (moves : Moves id scene next)
    (fits : Fits scene) (h : holds scene) : holds next := by
  induction moves with
  | refl => exact h
  | tail earlier move ih => exact lasting.move (Moves.fits earlier fits) move ih

theorem step? (lasting : Lasting holds) (fits : Fits system.scene) (h : holds system.scene)
    (hstep : system.step? event = some next) : holds next.scene := by
  cases System.step?_passage (System.hosted_of_fits fits) hstep with
  | moves _ _ _ hmoves => exact lasting.moves hmoves fits h
  | invalidate hid hscene =>
      rw [hscene]
      exact lasting.invalidate fits hid h
  | @disconnect next id hid hmoves =>
      have hfits : Fits ⟨system.world.checkOwner id, handOf system.tasks⟩ :=
        Move.fits (.refresh hid) fits
      have hid' : id < (system.world.checkOwner id).pools.length := by
        rwa [World.length_checkOwner]
      exact lasting.moves hmoves (hfits.tearDown hid')
        (lasting.tearDown hfits hid' (lasting.move fits (.refresh hid) h))
  | drop hheld hscene =>
      rw [hscene]
      exact lasting.drop fits hheld h
  | fork _ hscene =>
      rw [hscene]
      exact lasting.fork h
  | advance hscene =>
      rw [hscene]
      exact lasting.advance h

theorem run? {events : List Event} (lasting : Lasting holds) (fits : Fits system.scene)
    (h : holds system.scene) (hrun : system.run? events = some next) : holds next.scene := by
  have hkept : ∀ (system : System) (event : Event) (next : System),
      Fits system.scene ∧ holds system.scene → system.step? event = some next →
        Fits next.scene ∧ holds next.scene := by
    intro system event next hboth hstep
    exact ⟨System.step?_fits hboth.1 hstep, lasting.step? hboth.1 hboth.2 hstep⟩
  exact (System.run?_induction hkept ⟨fits, h⟩ hrun).2

end Scene.Lasting

/-- Resources keep their makers along every run. -/
theorem lasting_makers (start : World) :
    Scene.Lasting fun scene => start.KeepsMakers scene.world where
  move _ move h := fun resource owner hmaker => move.keepsMakers _ _ (h resource owner hmaker)
  tearDown _ _ h := h
  invalidate _ _ h := fun resource owner hmaker =>
    World.makerOf?_invalidate.trans (h resource owner hmaker)
  drop _ _ h := fun resource owner hmaker => World.makerOf?_letGo.trans (h resource owner hmaker)
  fork h := h
  advance h := h

end LeasePool
