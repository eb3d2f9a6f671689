import LeasePool.Backoff
import LeasePool.Failure

/-!
When work on a resource is tried again: how often, after which delay, and after which failures.
-/

namespace LeasePool

/-- How a unit of work reacts to a failure. -/
structure RetryPolicy where
  /-- Attempts after the first one. -/
  maxRetries : UInt32
  backoff : Backoff
  /-- A failed query, too, calls for a fresh resource. -/
  retryQueries : Bool

namespace RetryPolicy

/-- Retries that leave failed queries alone. -/
def new (maxRetries : UInt32) (backoff : Backoff) : RetryPolicy := ⟨maxRetries, backoff, false⟩

/-- One retry at once. -/
def usual : RetryPolicy := new 1 Backoff.none

def noRetry : RetryPolicy := new 0 Backoff.none

instance : Inhabited RetryPolicy := ⟨usual⟩

/-- The failure means that the resource has to go. -/
def shouldDiscard (policy : RetryPolicy) : Failure → Bool
  | .query _ => policy.retryQueries
  | failure => failure.isStale

def same (first second : RetryPolicy) : Bool :=
  first.maxRetries == second.maxRetries && first.backoff.same second.backoff &&
    first.retryQueries == second.retryQueries

end RetryPolicy
end LeasePool
