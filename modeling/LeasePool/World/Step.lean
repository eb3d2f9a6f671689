import LeasePool.World.Close
import LeasePool.World.Return

/-!
The two ways in which pools move: a caller makes a call, and a task that waits is resumed. Neither
is defined where it makes no sense: a call of a pool that is not there, the return of a lease that
no caller holds, an answer to another question than the task's.
-/

namespace LeasePool.World

/-- A caller makes a call of a pool that is there, with a lease it holds. -/
def begin (world : World) (id : PoolId) : Call → World × Progress
  | .acquire patience => world.acquire id (patience.getD (world.usualPatience id)) .lend
  | .release lease => ((world.part lease).release id lease, .done .finished)
  | .discard lease => (world.part lease).discard id lease .finish
  | .disconnectAll => world.disconnectAll id
  | .invalidate => (world.invalidate id, .done .finished)
  | .closeIdle => world.closeIdle id
  | .evictExpired => world.evictExpired id
  | .run policy => world.acquire id (world.usualPatience id) (.attempt policy 0)

def call (world : World) (id : PoolId) (call : Call) : Option (World × Progress) :=
  if id < world.pools.length && call.lease?.all (world.held.contains ·) then
    some (world.begin id call)
  else none

/-- A task gets the answer to its question. -/
def resume (world : World) (task : Task) (reply : Reply) : Option (World × Progress) :=
  match task, reply with
  | .validating id owner entry purpose, .valid isValid =>
      some (world.validated id owner entry purpose isValid)
  | .replacing id owner resource purpose, .closed failure =>
      some (world.replaced id owner resource purpose failure)
  | .creating id owner purpose, .created kind => some (world.created id owner purpose kind)
  | .creating id owner _, .notCreated failure => some (world.notCreated id owner failure)
  | .working id lease _ _, .worked value => some (world.worked id lease value)
  | .working id lease policy retries, .broke failure =>
      some (world.broke id lease policy retries failure)
  | .discarding id owner resource sequel, .closed failure =>
      some (world.discarded id owner resource sequel failure)
  | .disconnecting id resource rest free closed, .closed failure =>
      some (world.disconnected id resource rest free closed failure)
  | .sweeping id resource rest taken, .closed failure =>
      some (world.swept id resource rest taken failure)
  | _, _ => none

/-- A task that waits for a slot or for time looks again: it goes on, gives up, or waits on. -/
def wake (world : World) : Task → Option (World × Progress)
  | .waiting id patience since purpose => some (world.awaitSlot id patience since purpose)
  | .pausing id due policy retries => some (world.awaitAttempt id due policy retries)
  | _ => none

end LeasePool.World
