import LeasePool.Proofs.Fetching
import LeasePool.Proofs.Layers
import LeasePool.Proofs.Stacking

/-!
Preference for warm resources. An acquisition that takes a slot decides by that slot alone, whatever
happens meanwhile: it lends the idle resource there if it is of use, and else it has a new one made.
So an idle resource that is of use is preferred exactly if the slot on top holds one. In a run that
buries nothing an idle resource is on top whenever there is one, and it is the one that came back
last.
-/

namespace LeasePool

/-- What an acquisition asks that takes a slot. -/
def Pool.asks (pool : Pool) (id : PoolId) (factory : Factory) (now : Instant) :
    Slot → List Question
  | .vacant => [.create id]
  | .idle entry =>
      if pool.isExpired now entry then [.close id entry.resource, .create id]
      else if pool.config.testOnCheckout then
        if factory.isValid entry.resource then [.isValid id entry.resource]
        else [.isValid id entry.resource, .close id entry.resource, .create id]
      else []

/-- Where an acquisition stands that took a slot, with what it has asked. -/
inductive Uses (id : PoolId) (factory : Factory) (pool : Pool) (now : Instant) (count : Nat) :
    Slot → List Question → Progress → Prop where
  | validating {entry} (hfresh : pool.isExpired now entry = false)
      (htested : pool.config.testOnCheckout = true) :
      Uses id factory pool now count (.idle entry) [.isValid id entry.resource]
        (.pending (.validating id pool.owner entry .lend))
  | replacing {entry asked}
      (hasks : pool.asks id factory now (.idle entry) = asked ++ [.create id]) :
      Uses id factory pool now count (.idle entry) asked
        (.pending (.replacing id pool.owner entry.resource .lend))
  | creating {slot} (hunfit : pool.fits factory now slot = false) :
      Uses id factory pool now count slot (pool.asks id factory now slot)
        (.pending (.creating id pool.owner .lend))
  | reused {entry} (hfits : pool.fits factory now (.idle entry) = true) :
      Uses id factory pool now count (.idle entry) (pool.asks id factory now (.idle entry))
        (.done (.lent (entry.leaseUnder pool.owner)))
  | made {slot kind lease} (hunfit : pool.fits factory now slot = false)
      (hmakes : factory.creation = .ok kind) (hnew : count ≤ lease.resource) :
      Uses id factory pool now count slot (pool.asks id factory now slot) (.done (.lent lease))
  | notMade {slot failure} (hunfit : pool.fits factory now slot = false)
      (hfails : factory.creation = .error failure) :
      Uses id factory pool now count slot (pool.asks id factory now slot)
        (.done (.failed failure))

section Slots

variable {id : PoolId} {factory : Factory} {pool : Pool} {now : Instant} {count : Nat}
  {entry : IdleResource} {slot : Slot} {asked : List Question} {progress : Progress}

theorem Pool.asks_expired (h : pool.isExpired now entry = true) :
    pool.asks id factory now (.idle entry) = [.close id entry.resource, .create id] := if_pos h

theorem Pool.asks_untested (hfresh : pool.isExpired now entry = false)
    (huntested : pool.config.testOnCheckout = false) :
    pool.asks id factory now (.idle entry) = [] := by
  simp only [asks, hfresh, huntested, Bool.false_eq_true, if_false]

theorem Pool.asks_valid (hfresh : pool.isExpired now entry = false)
    (htested : pool.config.testOnCheckout = true)
    (hvalid : factory.isValid entry.resource = true) :
    pool.asks id factory now (.idle entry) = [.isValid id entry.resource] := by
  simp only [asks, hfresh, htested, hvalid, Bool.false_eq_true, if_false, if_true]

theorem Pool.asks_invalid (hfresh : pool.isExpired now entry = false)
    (htested : pool.config.testOnCheckout = true)
    (hinvalid : factory.isValid entry.resource = false) :
    pool.asks id factory now (.idle entry) =
      [.isValid id entry.resource, .close id entry.resource, .create id] := by
  simp only [asks, hfresh, htested, hinvalid, Bool.false_eq_true, if_false, if_true]

/-- A resource is to be made exactly if the slot has none of use. -/
theorem Pool.create_mem_asks_iff : .create id ∈ pool.asks id factory now slot ↔
    pool.fits factory now slot = false := by
  cases slot with
  | vacant => simp [asks, fits]
  | idle entry =>
      cases hexpired : pool.isExpired now entry with
      | true => simp [asks_expired hexpired, fits, hexpired]
      | false =>
          cases htested : pool.config.testOnCheckout with
          | false => simp [asks_untested hexpired htested, fits, hexpired, htested]
          | true =>
              cases hvalid : factory.isValid entry.resource with
              | true => simp [asks_valid hexpired htested hvalid, fits, hexpired, htested, hvalid]
              | false =>
                  simp [asks_invalid hexpired htested hvalid, fits, hexpired, htested, hvalid]

theorem Uses.prefix_asks (h : Uses id factory pool now count slot asked progress) :
    asked <+: pool.asks id factory now slot := by
  cases h with
  | validating hfresh htested =>
      cases hvalid : factory.isValid _ with
      | true => rw [Pool.asks_valid hfresh htested hvalid]
      | false =>
          rw [Pool.asks_invalid hfresh htested hvalid]
          exact List.prefix_append _ _
  | replacing hasks =>
      rw [hasks]
      exact List.prefix_append _ _
  | creating | reused | made | notMade => exact List.prefix_rfl

theorem Uses.asked_eq {outcome : Outcome}
    (h : Uses id factory pool now count slot asked (.done outcome)) :
    asked = pool.asks id factory now slot := by
  cases h with
  | reused | made | notMade => rfl

/-- An acquisition takes a slot. -/
theorem World.takeSlot_uses {world : World} (hpool : world.pool id = pool.enqueue)
    (hclock : world.clock = now) (slot : Slot) :
    Uses id factory pool now count slot (world.takeSlot id slot .lend).2.question?.toList
      (world.takeSlot id slot .lend).2 := by
  have howner : (world.pool id).owner = pool.owner := by
    rw [hpool]
    rfl
  cases slot with
  | vacant =>
      rw [takeSlot_vacant, howner]
      exact .creating rfl
  | idle entry =>
      have hsame : (world.pool id).isExpired world.clock entry = pool.isExpired now entry := by
        rw [hpool, hclock]
        rfl
      cases hexpired : pool.isExpired now entry with
      | true =>
          rw [takeSlot_expired (hsame.trans hexpired), howner]
          exact .replacing (Pool.asks_expired hexpired)
      | false =>
          have hconfig : (world.pool id).config = pool.config := by
            rw [hpool]
            rfl
          rw [takeSlot_fresh (hsame.trans hexpired), howner, hconfig]
          cases htested : pool.config.testOnCheckout with
          | true =>
              rw [if_pos rfl]
              exact .validating hexpired htested
          | false =>
              have hfits : pool.fits factory now (.idle entry) = true := by
                rw [Pool.fits, hexpired, htested]
                rfl
              have hreused : Uses id factory pool now count (.idle entry) _ _ := .reused hfits
              rw [Pool.asks_untested hexpired htested] at hreused
              rw [if_neg Bool.false_ne_true]
              exact hreused

end Slots

namespace System

variable {system next start final : System} {id : PoolId} {event : Event} {events : List Event}
  {task : Task} {progress : Progress} {acts : List Act} {aside : System → Event → Prop}
  {factory : Factory} {pool : Pool} {now : Instant} {count : Nat} {slot top : Slot}
  {rest : List Slot} {asked : List Question} {patience : Option Patience}

/-- An acquisition that has a slot goes on. -/
theorem Turn.uses (turn : system.Turn id event (some task) next progress)
    (hanswers : factory.Answers ⟨system, some task, event, next, progress⟩)
    (hcount : count ≤ system.world.resources.length)
    (h : Uses id factory pool now count slot asked (.pending task)) :
    Uses id factory pool now count slot (asked ++ progress.question?.toList) progress := by
  rcases turn.resumes_or_wakes with ⟨place, reply, result, rfl, hresume, -, rfl⟩ |
    ⟨place, result, rfl, hwake, -, -⟩
  · cases h with
    | @validating entry hfresh htested =>
        obtain rfl := hanswers _ _ _ _ rfl rfl rfl
        cases hresume
        have hfits : pool.fits factory now (.idle entry) = factory.isValid entry.resource := by
          rw [Pool.fits, hfresh, htested]
          rfl
        cases hvalid : factory.isValid entry.resource with
        | true =>
            have hreused : Uses id factory pool now count (.idle entry) _ _ :=
              .reused (hfits.trans hvalid)
            rw [Pool.asks_valid hfresh htested hvalid] at hreused
            exact hreused
        | false => exact .replacing (Pool.asks_invalid hfresh htested hvalid)
    | @replacing entry asked hasks =>
        cases reply with
        | created | notCreated | valid | worked | broke => cases hresume
        | closed failure =>
            cases hresume
            have hcreates : .create id ∈ pool.asks id factory now (.idle entry) := by
              rw [hasks]
              exact List.mem_concat_self
            have hunfit : pool.fits factory now (.idle entry) = false :=
              Pool.create_mem_asks_iff.1 hcreates
            have hcreating : Uses id factory pool now count (.idle entry) _ _ := .creating hunfit
            rw [hasks] at hcreating
            exact hcreating
    | creating hunfit =>
        obtain rfl := hanswers _ _ _ _ rfl rfl rfl
        cases hcreation : factory.creation with
        | ok kind =>
            rw [hcreation] at hresume
            cases hresume
            exact (List.append_nil _).symm ▸ .made hunfit hcreation hcount
        | error failure =>
            rw [hcreation] at hresume
            cases hresume
            exact (List.append_nil _).symm ▸ .notMade hunfit hcreation
  · cases h with
    | validating | replacing | creating => cases hwake

/-- Whatever happens meanwhile, an acquisition does with the top slot what it is to do with it. -/
theorem Story.uses (story : Story aside start id (.acquire patience) events final progress acts)
    (reach : start.Reachable)
    (hnoted : (start.world.pool id).notedPid = start.world.currentPid id)
    (hfree : (start.world.pool id).free = top :: rest)
    (hanswers : ∀ act ∈ acts, factory.Answers act) :
    Uses id factory (start.world.pool id) start.world.clock start.world.resources.length top
      (acts.filterMap Act.question?) progress := by
  have hid : id < start.world.pools.length := story.lt_start reach
  induction story with
  | @begins next progress turn =>
      have hpool : (start.world.modifyPool id Pool.enqueue).pool id =
          (start.world.pool id).enqueue := World.pool_modifyPool_self hid
      have htop : ((start.world.modifyPool id Pool.enqueue).pool id).free = top :: rest := by
        rw [hpool]
        exact hfree
      have hbegin : start.world.begin id (.acquire patience) =
          (start.world.modifyPool id Pool.enqueue).takeSlot id top .lend := by
        rw [World.begin, World.acquire_of_noted hnoted, World.awaitSlot_of_free htop]
      have hprogress : progress = _ := congrArg Prod.snd (turn.eq_begin.trans hbegin)
      rw [filterMap_singleton, Act.question?, hprogress]
      exact World.takeSlot_uses hpool rfl top
  | waits _ _ _ _ ih => exact ih hanswers
  | goesOn before turn ih =>
      rw [filterMap_concat]
      refine turn.uses (hanswers _ List.mem_concat_self) (length_resources_le reach before.run?) ?_
      exact ih fun act hmem => hanswers act (List.mem_append_left _ hmem)

/-- An acquisition that takes the slot `top`, after any story of its call. -/
structure Preference (start : System) (id : PoolId) (factory : Factory) (top : Slot)
    (final : System) (progress : Progress) (acts : List Act) : Prop where
  /-- It asks what is to be asked about the slot, and when it ends it has asked all of it. -/
  asked : acts.filterMap Act.question? <+:
    (start.world.pool id).asks id factory start.world.clock top
  asked_eq : ∀ outcome, progress = .done outcome → acts.filterMap Act.question? =
    (start.world.pool id).asks id factory start.world.clock top
  /-- It lends one of the idle resources and has none made exactly if the one on top is of use. -/
  warm_iff : ∀ outcome, progress = .done outcome →
    ((∃ entry, .idle entry ∈ (start.world.pool id).free ∧
        outcome = .lent (entry.leaseUnder (start.world.pool id).owner)) ∧
      .create id ∉ acts.filterMap Act.question? ↔
        (start.world.pool id).fits factory start.world.clock top = true)
  /-- That is the one that it lends. -/
  reused : ∀ entry outcome, top = .idle entry → progress = .done outcome →
    (start.world.pool id).fits factory start.world.clock top = true →
      outcome = .lent (entry.leaseUnder (start.world.pool id).owner)
  /-- Else it comes to what the factory makes. -/
  made : ∀ outcome, progress = .done outcome →
    (start.world.pool id).fits factory start.world.clock top = false →
      (∃ kind lease, factory.creation = .ok kind ∧ outcome = .lent lease ∧
        start.world.resources.length ≤ lease.resource) ∨
      ∃ failure, factory.creation = .error failure ∧ outcome = .failed failure
  /-- It does not stop before it ends. -/
  goesOn : ∀ task, progress = .pending task → final.CanGoOn id task

theorem preference_of_uses (hfree : (start.world.pool id).free = top :: rest)
    (h : Uses id factory (start.world.pool id) start.world.clock start.world.resources.length top
      (acts.filterMap Act.question?) progress) :
    Preference start id factory top final progress acts := by
  have hcreates : .create id ∈ (start.world.pool id).asks id factory start.world.clock top ↔
      (start.world.pool id).fits factory start.world.clock top = false :=
    Pool.create_mem_asks_iff
  have hreused : ∀ entry outcome, top = .idle entry → progress = .done outcome →
      (start.world.pool id).fits factory start.world.clock top = true →
        outcome = .lent (entry.leaseUnder (start.world.pool id).owner) := by
    rintro entry outcome rfl rfl hfits
    generalize acts.filterMap Act.question? = asked at h
    cases h with
    | reused => rfl
    | made hunfit | notMade hunfit => cases hfits.symm.trans hunfit
  refine ⟨h.prefix_asks, ?_, ?_, hreused, ?_, ?_⟩
  · rintro outcome rfl
    exact h.asked_eq
  · rintro outcome rfl
    rw [h.asked_eq, hcreates, Bool.not_eq_false]
    refine ⟨And.right, fun hfits => ⟨?_, hfits⟩⟩
    cases top with
    | vacant => cases hfits
    | idle entry =>
        refine ⟨entry, ?_, hreused entry outcome rfl rfl hfits⟩
        rw [hfree]
        exact List.mem_cons_self
  · rintro outcome rfl hunfit
    generalize acts.filterMap Act.question? = asked at h
    cases h with
    | reused hfits => cases hunfit.symm.trans hfits
    | made _ hmakes hnew => exact .inl ⟨_, _, hmakes, rfl, hnew⟩
    | notMade _ hfails => exact .inr ⟨_, hfails, rfl⟩
  · rintro task rfl
    generalize acts.filterMap Act.question? = asked at h
    cases h with
    | validating | replacing | creating => exact canGoOn_of_isSome final rfl (.inl rfl)

/-- A resource on top that came back last and has no lifetime is of use if any of the list is, apart
from what the factory says of it. -/
theorem fits_of_recent {entry other : IdleResource}
    (hnone : (system.world.pool id).config.maxLifetime = none)
    (hle : other.idleSince ≤ entry.idleSince)
    (hfits : (system.world.pool id).fits factory now (.idle other) = true) :
    (system.world.pool id).fits factory now (.idle entry) =
      (!(system.world.pool id).config.testOnCheckout || factory.isValid entry.resource) := by
  rw [Pool.fits, Bool.and_eq_true, Bool.not_eq_true'] at hfits
  have hfresh : (system.world.pool id).isExpired now entry = false := by
    refine Bool.eq_false_of_not_eq_true fun hexpired => ?_
    cases hfits.1.symm.trans (Pool.isExpired_of_le hnone hle hexpired)
  rw [Pool.fits, hfresh, Bool.not_false, Bool.true_and]

/-- When warm resources are preferred. A pool that runs in the process it knows has an idle resource
that is neither past a limit nor, if it is to be checked, invalid. An acquisition takes the top slot
and comes to an end; it lends an idle resource and has none made exactly if the one on top is of
use. If nothing was buried before, the top slot has the idle resource that came back last, and it is
of use unless resources have a lifetime or the factory finds it invalid. -/
theorem acquire_prefers_warm {pids : List Pid} {pools : List (ProcessId × Config)}
    {process : ProcessId} {config : Config} (hpool : pools[id]? = some (process, config))
    (hrun : (init pids pools).run? events = some system)
    (hnoted : (system.world.pool id).notedPid = system.world.currentPid id) (factory : Factory)
    (hwarm : ∃ slot ∈ (system.world.pool id).free,
      (system.world.pool id).fits factory system.world.clock slot = true) :
    ∃ top rest, (system.world.pool id).free = top :: rest ∧
      (∀ patience,
        (∃ events final outcome acts, Story (fun _ _ => False) system id (.acquire patience) events
          final (.done outcome) acts ∧ ∀ act ∈ acts, factory.Answers act) ∧
        ∀ events final progress acts,
          Story (fun _ _ => True) system id (.acquire patience) events final progress acts →
          (∀ act ∈ acts, factory.Answers act) →
            Preference system id factory top final progress acts) ∧
      ((init pids pools).Throughout (fun middle event => ¬ middle.Buries id event) events →
        ∃ entry, top = .idle entry ∧
          (∀ other, .idle other ∈ (system.world.pool id).free →
            other.idleSince ≤ entry.idleSince) ∧
          (config.maxLifetime = none →
            (system.world.pool id).fits factory system.world.clock top =
              (!config.testOnCheckout || factory.isValid entry.resource))) := by
  have hinit : (init pids pools).Reachable := ⟨pids, pools, [], rfl⟩
  have reach : system.Reachable := hinit.run? hrun
  have hid : id < system.world.pools.length := hinit.lt_of_run? (init_pool pids hpool).1 hrun
  have hconfig : (system.world.pool id).config = config := (run?_slots hpool hrun).1
  obtain ⟨slot, hmem, hfits⟩ := hwarm
  cases hfree : (system.world.pool id).free with
  | nil =>
      rw [hfree] at hmem
      cases hmem
  | cons top rest =>
      refine ⟨top, rest, rfl, fun patience => ⟨?_, ?_⟩, fun hnever => ?_⟩
      · exact exists_fetch_of_free hid hnoted hfree
      · intro events final progress acts story hanswers
        exact preference_of_uses hfree (story.uses reach hnoted hfree hanswers)
      · cases slot with
        | vacant => cases hfits
        | idle other =>
            obtain ⟨entry, below, htop⟩ := (run?_layered hpool hrun hnever).exists_top hmem
            obtain ⟨rfl, rfl⟩ := List.cons.inj (hfree.symm.trans htop)
            have hrecent := reachable_recent reach hid
            rw [hfree] at hrecent hmem
            refine ⟨entry, rfl, fun _ => hrecent.idleSince_le, fun hnone => ?_⟩
            rw [← hconfig] at hnone ⊢
            exact fits_of_recent hnone (hrecent.idleSince_le hmem) hfits

/-- Two leases are released one after the other to a pool that checks its resources. -/
theorem acquire_prefers_warm_released : ∃ system,
    (init [7] [(0, { Config.ofSize 3 with testOnCheckout := true })]).run?
        [.call 0 (.acquire none), .reply 0 (.created "db"), .call 0 (.acquire none),
          .reply 0 (.created "db"), .call 0 (.release ⟨0, ⟨0, 7, 0⟩, 0⟩),
          .call 0 (.release ⟨1, ⟨0, 7, 0⟩, 0⟩)] = some system ∧
      ∃ entry rest, (system.world.pool 0).free = .idle entry :: rest ∧
        (system.world.pool 0).fits ⟨.ok "db", fun _ => true⟩ system.world.clock
          (.idle entry) = true ∧
        ∀ events final progress acts,
          Story (fun _ _ => True) system 0 (.acquire none) events final progress acts →
          (∀ act ∈ acts, Factory.Answers ⟨.ok "db", fun _ => true⟩ act) →
            Preference system 0 ⟨.ok "db", fun _ => true⟩ (.idle entry) final progress acts := by
  refine exists_run? rfl fun system hrun => ?_
  have hpool : [((0 : ProcessId), { Config.ofSize 3 with testOnCheckout := true })][0]? =
      some (0, { Config.ofSize 3 with testOnCheckout := true }) := rfl
  have hnoted : (system.world.pool 0).notedPid = system.world.currentPid 0 := by
    cases hrun
    rfl
  have hwarm : ∃ slot ∈ (system.world.pool 0).free,
      (system.world.pool 0).fits ⟨.ok "db", fun _ => true⟩ system.world.clock slot = true := by
    cases hrun
    exact ⟨.idle ⟨0, 0, 0⟩, by decide, by decide⟩
  obtain ⟨top, rest, hfree, hserves, hlayered⟩ :=
    acquire_prefers_warm hpool hrun hnoted ⟨.ok "db", fun _ => true⟩ hwarm
  obtain ⟨entry, rfl, -, hfits⟩ := hlayered <|
    .cons rfl (not_buries_of_vacant (by decide)) <|
    .cons rfl (not_buries_of_vacant (by decide)) <|
    .cons rfl (not_buries_of_vacant (by decide)) <|
    .cons rfl (not_buries_of_vacant (by decide)) <|
    .cons rfl (not_buries_of_vacant (by decide)) <|
    .cons rfl (not_buries_release rfl) throughout_nil
  exact ⟨entry, rest, hfree, hfits rfl, (hserves none).2⟩

/-- A slot that came back vacant lies above an idle resource that is past no limit: the acquisition
makes a new one. -/
theorem created_above_warm : ∃ system next entry,
    (init [7] [(0, Config.ofSize 2)]).run?
        [.call 0 (.acquire none), .reply 0 (.created "db"), .call 0 (.acquire none),
          .reply 0 (.created "db"), .call 0 (.release ⟨0, ⟨0, 7, 0⟩, 0⟩),
          .call 0 (.discard ⟨1, ⟨0, 7, 0⟩, 0⟩), .reply 0 (.closed none)] = some system ∧
      system.IsQuiet ∧ (system.world.pool 0).notedPid = system.world.currentPid 0 ∧
      (system.world.pool 0).config.testOnCheckout = false ∧
      (system.world.pool 0).free = [.vacant, .idle entry] ∧
      (system.world.pool 0).isExpired system.world.clock entry = false ∧
      system.Turn 0 (.call 0 (.acquire none)) none next
        (.pending (.creating 0 ⟨0, 7, 0⟩ .lend)) :=
  ⟨_, _, ⟨0, 0, 0⟩, rfl, rfl, by decide, rfl, rfl, by decide, turn_of_call _ (by decide) rfl⟩

end System
end LeasePool
