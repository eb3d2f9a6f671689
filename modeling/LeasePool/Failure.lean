import LeasePool.Text.Duration

/-!
What can go wrong when a pool lends a resource or a resource does its work: one constructor for
each cause, the wording of each in `Failure.message`, and which of them mean that the resource
itself is broken.
-/

namespace LeasePool

inductive IoFault where
  | notFound
  | permissionDenied
  | connectionRefused
  | connectionReset
  | brokenPipe
  | timedOut
  | unexpectedEnd
  | other
deriving Repr, DecidableEq

def IoFault.description : IoFault → String
  | .notFound => "entity not found"
  | .permissionDenied => "permission denied"
  | .connectionRefused => "connection refused"
  | .connectionReset => "connection reset"
  | .brokenPipe => "broken pipe"
  | .timedOut => "timed out"
  | .unexpectedEnd => "unexpected end of file"
  | .other => "other error"

/-- The cause of a failed acquisition or a failed piece of work. -/
inductive Failure where
  /-- No slot became free before the deadline. -/
  | poolExhausted (maxSize : Nat) (timeout : Duration)
  | resourceCreation (reason : String)
  | connection (reason : String)
  | query (reason : String)
  | configuration (reason : String)
  /-- A system fault; `detail`, where there is one, replaces the standard wording. -/
  | io (fault : IoFault) (detail : Option String)
  | timeout (reason : String)
  | other (reason : String)
deriving Repr, DecidableEq

namespace Failure

def label : Failure → String
  | .poolExhausted _ _ => "PoolExhausted"
  | .resourceCreation _ => "ResourceCreation"
  | .connection _ => "Connection"
  | .query _ => "Query"
  | .configuration _ => "Configuration"
  | .io _ _ => "Io"
  | .timeout _ => "Timeout"
  | .other _ => "Other"

def message : Failure → String
  | .poolExhausted maxSize waited =>
      "Pool exhausted: no resource available within " ++ waited.text ++
        " (max_size: " ++ toString maxSize ++ ")"
  | .resourceCreation reason => "Resource creation failed: " ++ reason
  | .connection reason => "Connection error: " ++ reason
  | .query reason => "Query error: " ++ reason
  | .configuration reason => "Configuration error: " ++ reason
  | .io fault detail => "IO error: " ++ detail.getD fault.description
  | .timeout reason => "Timeout: " ++ reason
  | .other reason => reason

/-- The failure says that the resource is broken or stale, so that a fresh one may succeed. -/
def isStale : Failure → Bool
  | .connection _ => true
  | .io _ _ => true
  | .timeout _ => true
  | _ => false

/-- The failure says that the pool had nothing to lend in time. -/
def isExhausted : Failure → Bool
  | .poolExhausted _ _ => true
  | _ => false

end Failure
end LeasePool
