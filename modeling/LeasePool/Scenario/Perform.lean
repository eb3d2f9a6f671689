import LeasePool.Scenario.Stage

/-!
Performance: the steps of a script are taken one after the other, and a call that a step makes is
followed to its end. Where the call waits for a factory or for a unit of work, the planned
reaction is performed, whose steps may call the pools again. Acquisitions by others that wait are
served whenever their pool has a free slot, and give up when time passes the end of their patience.
-/

namespace LeasePool.Scenario

abbrev Attempts := List (Damage × Reaction Step Ending)

namespace Stage

/-- What an attempt does that the script says nothing about. -/
def idleAttempt : Damage × Reaction Step Ending := (⟨false, false⟩, ⟨[], .value .null⟩)

/-- The result of a unit of work on a resource. -/
def conclude (stage : Stage) (resource : ResourceId) : Ending → Reply
  | .fail failure => .broke failure
  | .value value => .worked value
  | .execute statement =>
      match stage.execute resource statement with
      | .ok result => .worked result.toJson
      | .error failure => .broke failure

/-- The answer of a step that acquired, or tried to. -/
def lentOrFailed (stage : Stage) : Outcome → Answer
  | .lent lease => .lent (stage.leaseView lease)
  | .failed failure => .failed failure
  | _ => .nothing

/-- Record a step that looks at a lease. -/
def look (stage : Stage) (name : String) (label : String) (answer : Lease → Answer) : Stage :=
  match stage.lease? label with
  | some lease => stage.record name (answer lease)
  | none => stage.record name .noLease

/-- Record a step that acts on a leased resource. -/
def act (stage : Stage) (name : String) (label : String) (change : Stage → ResourceId → Stage) :
    Stage :=
  match stage.lease? label with
  | some lease => (change stage lease.resource).record name .nothing
  | none => stage.record name .noLease

/-- The entries since `before` become those of a time in which several callers act at once. -/
def unorderSince (before : List Entry) (stage : Stage) : Stage :=
  { stage with trace := (unordered stage.trace.reverse).reverse ++ before }

/-- The number of times a unit of work ran, after the answer to a question. -/
def countWork (calls : Nat) : Question → Nat
  | .work .. => calls + 1
  | _ => calls

mutual

/-- Follow a call to its end; also gives how often a unit of work ran. -/
def follow (fuel : Nat) (stage : Stage) (attempts : Attempts) (calls : Nat) (progress : Progress) :
    Stage × Option (Outcome × Nat) :=
  match fuel, progress with
  | 0, _ => ({ stage with stuck := true }, none)
  | _ + 1, .done outcome => (stage, some (outcome, calls))
  | fuel + 1, .pending task =>
      if stage.stuck then (stage, none)
      else match task.question? with
        | some question =>
            let (stage, reply) := answer fuel stage attempts question
            match stage.world.resume task reply with
            | some (world, progress) =>
                follow fuel (serve fuel (stage.enter world)) attempts (countWork calls question)
                  progress
            | none => (stage, none)
        | none => waitOut fuel stage attempts calls task
termination_by structural fuel

/-- A call waits, and nobody is left to give it a slot: time passes until the call goes on by
itself. -/
def waitOut (fuel : Nat) (stage : Stage) (attempts : Attempts) (calls : Nat) (task : Task) :
    Stage × Option (Outcome × Nat) :=
  match fuel, task.due? with
  | fuel + 1, some due =>
      let stage := pass fuel stage due
      match stage.world.wake task with
      | some (world, progress) =>
          follow fuel (serve fuel (stage.enter world)) attempts calls progress
      | none => (stage, none)
  | _, _ => ({ stage with stuck := true }, none)
termination_by structural fuel

/-- Time passes up to an instant. The others whose patience ends on the way give up then. -/
def pass (fuel : Nat) (stage : Stage) (limit : Instant) : Stage :=
  match fuel, stage.nextDue? limit with
  | 0, _ => { stage with stuck := true }
  | _ + 1, none => stage.enter (stage.world.advanceTo limit)
  | fuel + 1, some (due, other, stage) =>
      match (stage.world.advanceTo due).wake other.task with
      | some (world, progress) =>
          let (stage, ended) := follow fuel (stage.enter world) [] 0 progress
          match ended with
          | some (outcome, _) => pass fuel (stage.settle other.group outcome) limit
          | none => stage
      | none => stage
termination_by structural fuel

/-- Perform what a factory or a unit of work does when it is asked. -/
def answer (fuel : Nat) (stage : Stage) (attempts : Attempts) (question : Question) :
    Stage × Reply :=
  match fuel, question with
  | 0, _ => ({ stage with stuck := true }, .valid false)
  | fuel + 1, .create pool =>
      let (reaction, stage) := stage.nextCreate pool
      let stage := steps fuel stage reaction.steps
      match reaction.result with
      | some failure =>
          (stage.tell ("create_failed " ++ stage.names.getD pool ""), .notCreated failure)
      | none => (stage.addDevice pool, .created deviceKind)
  | fuel + 1, .close pool resource =>
      let (reaction, stage) := stage.nextClose pool
      let stage := steps fuel (stage.closeDevice resource) reaction.steps
      (stage, .closed reaction.result)
  | fuel + 1, .isValid pool resource =>
      match stage.nextValid? pool with
      | some (reaction, stage) =>
          let stage := steps fuel stage reaction.steps
          let valid := reaction.result.getD (stage.isOpen resource)
          (stage.tell ("valid " ++ stage.resourceName resource ++ " " ++ toString valid),
            .valid valid)
      | none => (stage, .valid (stage.isOpen resource))
  | fuel + 1, .work _ lease retries =>
      let (harm, reaction) := attempts.getD retries.toNat idleAttempt
      let stage := stage.tell ("attempt " ++ stage.resourceName lease.resource)
      let stage := steps fuel (stage.damage lease.resource harm) reaction.steps
      (stage, stage.conclude lease.resource reaction.result)
termination_by structural fuel

/-- Serve the acquisitions by others that wait, as long as there are slots for them. -/
def serve (fuel : Nat) (stage : Stage) : Stage :=
  match fuel, stage.nextServed? with
  | fuel + 1, some (other, stage) =>
      match stage.world.wake other.task with
      | some (world, progress) =>
          let (stage, ended) := follow fuel (stage.enter world) [] 0 progress
          match ended with
          | some (outcome, _) => serve fuel (stage.settle other.group outcome)
          | none => stage
      | none => stage
  | _, _ => stage
termination_by structural fuel

/-- Make a call and follow it to its end. -/
def request (fuel : Nat) (stage : Stage) (attempts : Attempts) (pool : PoolId) (call : Call) :
    Stage × Option (Outcome × Nat) :=
  match fuel with
  | 0 => ({ stage with stuck := true }, none)
  | fuel + 1 =>
      match stage.world.call pool call with
      | some (world, progress) =>
          follow fuel (serve fuel (stage.enter world)) attempts 0 progress
      | none => (stage, none)
termination_by structural fuel

/-- Let `count` others of a group acquire. Those that find no slot wait in the queue. -/
def gather (fuel : Nat) (stage : Stage) (group : Nat) (pool : PoolId) (patience : Option Patience)
    (count : Nat) : Stage :=
  match fuel, count with
  | fuel + 1, count + 1 =>
      match stage.world.call pool (.acquire patience) with
      | some (world, .pending (.waiting pool' patience' since purpose)) =>
          let stage := stage.enter world
          let other : Other := ⟨group, .waiting pool' patience' since purpose⟩
          gather fuel { stage with queue := stage.queue ++ [other] } group pool patience count
      | some (world, progress) =>
          let (stage, ended) := follow fuel (stage.enter world) [] 0 progress
          match ended with
          | some (outcome, _) => gather fuel (stage.settle group outcome) group pool patience count
          | none => stage
      | none => stage
  | _, _ => stage
termination_by structural fuel

/-- Time passes until the last of a group runs out of patience. -/
def disperse (fuel : Nat) (stage : Stage) (group : Nat) : Stage :=
  match fuel, stage.queue.find? (·.group == group) with
  | _, none => stage
  | 0, some _ => { stage with stuck := true }
  | fuel + 1, some other =>
      match stage.stuck, other.task.due? with
      | false, some due => disperse fuel (pass fuel stage due) group
      | _, _ => { stage with stuck := true }
termination_by structural fuel

/-- Take a lease from its label and make a call with it. -/
def giveBack (fuel : Nat) (stage : Stage) (name : String) (pool : PoolId) (label : String)
    (call : Lease → Call) : Stage :=
  match fuel, stage.lease? label with
  | 0, _ => { stage with stuck := true }
  | _ + 1, none => stage.record name .noLease
  | fuel + 1, some lease =>
      let (stage, ended) := request fuel (stage.unlabel label) [] pool (call lease)
      if ended.isSome then stage.record name .nothing else stage
termination_by structural fuel

/-- Make a call that gives no lease, and record its end. -/
def carryOut (fuel : Nat) (stage : Stage) (name : String) (pool : PoolId) (call : Call) : Stage :=
  match fuel with
  | 0 => { stage with stuck := true }
  | fuel + 1 =>
      let (stage, ended) := request fuel stage [] pool call
      match ended with
      | some (.swept count, _) => stage.record name (.count count)
      | some _ => stage.record name .nothing
      | none => stage
termination_by structural fuel

def step (fuel : Nat) (stage : Stage) (step : Step) : Stage :=
  match fuel, step with
  | 0, _ => { stage with stuck := true }
  | fuel + 1, .acquire pool label patience =>
      let (stage, ended) := request fuel stage [] pool (.acquire patience)
      match ended with
      | some (outcome, _) =>
          let answer := stage.lentOrFailed outcome
          let stage := match outcome with
            | .lent lease => stage.label label lease
            | _ => stage
          stage.record "acquire" answer
      | none => stage
  | fuel + 1, .release pool label => giveBack fuel stage "release" pool label .release
  | fuel + 1, .discard pool label => giveBack fuel stage "discard" pool label .discard
  | _ + 1, .drop label =>
      match stage.lease? label with
      | some lease =>
          ((stage.unlabel label).enter (stage.world.dropLease lease)).record "drop" .nothing
      | none => stage.record "drop" .noLease
  | fuel + 1, .disconnectAll pool => carryOut fuel stage "disconnect_all" pool .disconnectAll
  | fuel + 1, .invalidate pool => carryOut fuel stage "invalidate" pool .invalidate
  | fuel + 1, .closeIdle pool => carryOut fuel stage "close_idle" pool .closeIdle
  | fuel + 1, .evictExpired pool => carryOut fuel stage "evict_expired" pool .evictExpired
  | _ + 1, .fork process pid =>
      (stage.enter (stage.world.fork process pid)).record "fork" .nothing
  | fuel + 1, .sleep time =>
      (pass fuel stage (stage.world.clock + time)).record "sleep" .nothing
  | _ + 1, .plan pool create close valid =>
      (stage.plan pool create close valid).record "plan" .nothing
  | _ + 1, .breakResource label => stage.act "break" label breakDevice
  | _ + 1, .closeResource label => stage.act "res_close" label closeDevice
  | _ + 1, .execute label statement =>
      stage.look "execute" label fun lease =>
        match stage.execute lease.resource statement with
        | .ok result => .statement result
        | .error failure => .failed failure
  | _ + 1, .inspect label =>
      stage.look "inspect" label fun lease =>
        match stage.resourceView? lease with
        | some view => .resource view
        | none => .nothing
  | _ + 1, .age label time =>
      stage.look "age" label fun lease => .flag (decide (time ≤ lease.age stage.world.clock))
  | _ + 1, .describe label => stage.look "debug" label fun lease => .text (describeLease lease)
  | _ + 1, .same first second =>
      match stage.lease? second with
      | some other => stage.look "same" first fun lease => .flag (lease.sameResource other)
      | none => stage.record "same" .noLease
  | _ + 1, .info pool =>
      (stage.enter (stage.world.checkConfig pool)).record "info"
        (.config (stage.world.pool pool).config)
  | _ + 1, .factory pool =>
      match stage.makers[pool]? with
      | some maker => stage.record "factory" (.factory maker.make maker.made)
      | none => stage.record "factory" .nothing
  | fuel + 1, .guard pool patience harm inner ending =>
      let (stage, ended) := request fuel stage [] pool (.acquire patience)
      match ended with
      | some (.lent lease, _) =>
          let stage := steps fuel (stage.damage lease.resource harm) inner
          let answer := Answer.lent (stage.leaseView lease)
          match ending with
          | .keepAs label => (stage.label label lease).record "guard" answer
          | .release =>
              let (stage, ended) := request fuel stage [] pool (.release lease)
              if ended.isSome then stage.record "guard" answer else stage
          | .discard =>
              let (stage, ended) := request fuel stage [] pool (.discard lease)
              if ended.isSome then stage.record "guard" answer else stage
      | some (outcome, _) => stage.record "guard" (stage.lentOrFailed outcome)
      | none => stage
  | fuel + 1, .run pool policy attempts =>
      let (stage, ended) := request fuel stage attempts pool (.run policy)
      match ended with
      | some (.worked value, calls) => stage.record "run" (.ran (.ok value) calls)
      | some (.failed failure, calls) => stage.record "run" (.ran (.error failure) calls)
      | _ => stage
  | fuel + 1, .blocked pool count patience label inner =>
      let group := stage.groups
      let stage := gather fuel stage.openGroup group pool (some patience) count
      let before := stage.state
      let earlier := stage.trace
      let stage := steps fuel { stage with trace := [] } inner
      let stage := (disperse fuel stage group).unorderSince earlier
      let got := stage.gotten group
      let answer := Answer.blocked before (got.map stage.leaseView) (stage.failures group)
      let stage := stage.closeGroup group
      if stage.stuck then stage else (stage.labelAll label got).record "blocked" answer
  | fuel + 1, .forkRace pool process pid count label =>
      let group := stage.groups
      let earlier := stage.trace
      let stage := { stage.enter (stage.world.fork process pid) with trace := [] }
      let stage := gather fuel (stage.record "fork" .nothing).openGroup group pool none count
      let stage := (disperse fuel stage group).unorderSince earlier
      let got := stage.gotten group
      let answer := Answer.raced (got.map stage.leaseView) (stage.failures group)
      let stage := stage.closeGroup group
      if stage.stuck then stage else (stage.labelAll label got).record "fork_race" answer
termination_by structural fuel

def steps (fuel : Nat) (stage : Stage) (all : List Step) : Stage :=
  match fuel, all with
  | _, [] => stage
  | 0, _ :: _ => { stage with stuck := true }
  | fuel + 1, next :: rest =>
      if stage.stuck then stage else steps fuel (step fuel stage next) rest
termination_by structural fuel

end

end Stage

/-- A bound for the number of moves of a script, which no script reaches: each step makes a call
that asks a bounded number of times for each resource there is, and nests at most as deep as there
are steps. -/
def Script.fuel (script : Script) : Nat :=
  let size := Step.sizeAll script.steps
  (8 * size + 64) * (size + 1)

def Script.perform (script : Script) : List Entry :=
  let stage := (Stage.ofScript script).record "new" .nothing
  (stage.steps script.fuel script.steps).trace.reverse

end LeasePool.Scenario
