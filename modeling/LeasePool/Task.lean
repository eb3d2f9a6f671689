import LeasePool.Json.Basic
import LeasePool.Owner
import LeasePool.Pool
import LeasePool.Retry

/-!
Calls and tasks. A call of a pool either ends at once or has to wait: for the answer of the pool's
factory, for the end of a caller's work, for a slot, or for time. What is then left of it is a task.
Callers and factories may make further calls while tasks wait, so any number of tasks can be under
way.
-/

namespace LeasePool

/-- How long an acquisition waits for a slot. -/
inductive Patience where
  | within (timeout : Duration)
  | forever
deriving Repr, DecidableEq

/-- The last instant of waiting that began at `since`, if there is one. -/
def Patience.deadline? (patience : Patience) (since : Instant) : Option Instant :=
  match patience with
  | .within timeout => some (since + timeout)
  | .forever => none

/-- What a caller asks of a pool. -/
inductive Call where
  /-- Lend a resource; without a patience of its own the call waits as the pool is configured. -/
  | acquire (patience : Option Patience)
  /-- Take a resource back. -/
  | release (lease : Lease)
  /-- Close a resource that turned out broken, and keep its slot. -/
  | discard (lease : Lease)
  /-- Close every resource and lend no more. -/
  | disconnectAll
  /-- Start over without the resources made so far. -/
  | invalidate
  /-- Close all idle resources. -/
  | closeIdle
  /-- Close the idle resources that are past a limit. -/
  | evictExpired
  /-- Do a unit of work on a resource, again on a fresh one as the policy says. -/
  | run (policy : RetryPolicy)

/-- The lease that a call gives back. -/
def Call.lease? : Call → Option Lease
  | .release lease => some lease
  | .discard lease => some lease
  | _ => none

/-- What an acquisition is for. -/
inductive Purpose where
  /-- The caller gets the lease. -/
  | lend
  /-- A unit of work is tried on the resource, after `retries` retries. -/
  | attempt (policy : RetryPolicy) (retries : UInt32)

/-- What follows a discard. -/
inductive Sequel where
  | finish
  /-- The work that failed on the discarded resource may be tried again. -/
  | retry (policy : RetryPolicy) (retries : UInt32) (failure : Failure)

/-- What is left of a call that waits. -/
inductive Task where
  /-- An acquisition waits for a slot. -/
  | waiting (pool : PoolId) (patience : Patience) (since : Instant) (purpose : Purpose)
  /-- The factory says whether an idle resource is still valid. -/
  | validating (pool : PoolId) (owner : Owner) (entry : IdleResource) (purpose : Purpose)
  /-- The factory closes an idle resource that a new one will replace. -/
  | replacing (pool : PoolId) (owner : Owner) (resource : ResourceId) (purpose : Purpose)
  /-- The factory makes a resource. -/
  | creating (pool : PoolId) (owner : Owner) (purpose : Purpose)
  /-- A unit of work runs on the resource of a lease. -/
  | working (pool : PoolId) (lease : Lease) (policy : RetryPolicy) (retries : UInt32)
  /-- The factory closes a discarded resource. -/
  | discarding (pool : PoolId) (owner : Owner) (resource : ResourceId) (sequel : Sequel)
  /-- A unit of work that failed waits until `due` for its next attempt. -/
  | pausing (pool : PoolId) (due : Instant) (policy : RetryPolicy) (retries : UInt32)
  /-- The factory closes one of the resources of a pool that was torn down. `rest` is what is left
  of the registry, `free` the idle resources the pool had, and `closed` the number closed so far. -/
  | disconnecting (pool : PoolId) (resource : ResourceId) (rest free : List ResourceId)
      (closed : Nat)
  /-- The factory closes one of the idle resources that a sweep took out of the free list. `rest`
  is still to be closed, `taken` is all the sweep took. -/
  | sweeping (pool : PoolId) (resource : ResourceId) (rest taken : List ResourceId)

/-- What a factory or a caller is asked while a task waits. -/
inductive Question where
  | create (pool : PoolId)
  | close (pool : PoolId) (resource : ResourceId)
  | isValid (pool : PoolId) (resource : ResourceId)
  | work (pool : PoolId) (lease : Lease) (retries : UInt32)
deriving Repr, DecidableEq

/-- The question that a task waits for the answer of; a task that waits for a slot or for time has
none. -/
def Task.question? : Task → Option Question
  | .waiting .. => none
  | .pausing .. => none
  | .validating pool _ entry _ => some (.isValid pool entry.resource)
  | .replacing pool _ resource _ => some (.close pool resource)
  | .creating pool _ _ => some (.create pool)
  | .working pool lease _ retries => some (.work pool lease retries)
  | .discarding pool _ resource _ => some (.close pool resource)
  | .disconnecting pool resource _ _ _ => some (.close pool resource)
  | .sweeping pool resource _ _ => some (.close pool resource)

/-- The instant at which a task that waits for a slot or for time goes on by itself, if there is
one. -/
def Task.due? : Task → Option Instant
  | .waiting _ patience since _ => patience.deadline? since
  | .pausing _ due _ _ => some due
  | _ => none

inductive Reply where
  /-- A resource of some kind was made. -/
  | created (kind : String)
  | notCreated (failure : Failure)
  /-- A resource was closed, perhaps with a failure on the way. -/
  | closed (failure : Option Failure)
  | valid (isValid : Bool)
  /-- The work is done. -/
  | worked (value : Json)
  | broke (failure : Failure)

inductive Outcome where
  | finished
  | lent (lease : Lease)
  | failed (failure : Failure)
  /-- The number of idle resources that a sweep closed. -/
  | swept (count : Nat)
  | worked (value : Json)

/-- Where a call stands: at its end, or at a task that waits. -/
inductive Progress where
  | done (outcome : Outcome)
  | pending (task : Task)

end LeasePool
