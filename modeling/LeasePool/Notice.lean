import LeasePool.Config
import LeasePool.Owner

/-!
Notices: what a pool tells about its work while it works. Each has a level, a message and named
values.
-/

namespace LeasePool

/-- How much a notice matters. -/
inductive Level where
  | trace
  | debug
  | info
  | warn
deriving Repr, DecidableEq

def Level.name : Level → String
  | .trace => "TRACE"
  | .debug => "DEBUG"
  | .info => "INFO"
  | .warn => "WARN"

/-- One notice, with the values it tells. -/
inductive Notice where
  | poolCreated (maxSize : Nat) (acquireTimeoutMs : Nat) (pid : Pid) (pool : PoolId)
  | reused (kind : String)
  | replaced (kind : String)
  | created (kind : String) (total : Nat)
  | creationFailed (failure : Failure)
  | exhausted (maxSize : Nat) (timeoutMs : Nat)
  /-- A lease of another pool came back. -/
  | foreignReleased (pool resourcePool : PoolId)
  /-- A lease of an earlier owner came back. -/
  | staleReleased (pid : Pid) (epoch : Nat)
  | freeListFull (maxSize : Nat)
  | foreignDiscarded (pool resourcePool : PoolId)
  | discarded (kind : String)
  | disconnected (closed : Nat)
  | invalidated (epoch : Nat)
  | processChanged (previous pid : Pid)
  | reset (discarded : Nat) (pid : Pid) (epoch : Nat)
  | idleClosed (closed : Nat)
  | closeFailed (kind : String) (failure : Failure)
  | retrying (attempt maxRetries delayMs : Nat) (failure : Failure)
  | idleBeyondLifetime (idleTimeoutMs maxLifetimeMs : Nat)
deriving Repr, DecidableEq

namespace Notice

def level : Notice → Level
  | .poolCreated .. | .replaced _ | .created .. | .staleReleased .. | .discarded _ | .reset ..
  | .idleClosed _ => .debug
  | .reused _ => .trace
  | .disconnected _ | .invalidated _ | .processChanged .. => .info
  | .creationFailed _ | .exhausted .. | .foreignReleased .. | .freeListFull _
  | .foreignDiscarded .. | .closeFailed .. | .retrying .. | .idleBeyondLifetime .. => .warn

def message : Notice → String
  | .poolCreated .. => "creating resource pool"
  | .reused _ => "reusing idle resource"
  | .replaced _ => "idle resource expired or failed validation, replacing it"
  | .created .. => "created pooled resource"
  | .creationFailed _ => "resource creation failed, restoring slot"
  | .exhausted .. => "no resource available before the acquire deadline"
  | .foreignReleased .. => "released resource belongs to another pool, dropping it"
  | .staleReleased .. => "dropping resource from a previous pool owner"
  | .freeListFull _ => "free list already full, dropping released resource"
  | .foreignDiscarded .. => "discarded resource belongs to another pool, dropping it"
  | .discarded _ => "discarding resource"
  | .disconnected _ => "disconnected all pooled resources"
  | .invalidated _ => "invalidating pooled resources"
  | .processChanged .. => "process change detected, discarding inherited resources"
  | .reset .. => "pool reset"
  | .idleClosed _ => "closed idle resources"
  | .closeFailed .. => "failed to close pooled resource, ignoring"
  | .retrying .. => "discarded stale resource, retrying"
  | .idleBeyondLifetime .. => "idle timeout exceeds max lifetime and will never apply"

/-- A value that a notice tells: a number, a text, or the identity of a pool. -/
inductive Value where
  | number (n : Nat)
  | text (s : String)
  | pool (id : PoolId)
deriving Repr, DecidableEq

/-- The named values of a notice, in order of their names. -/
def values : Notice → List (String × Value)
  | .poolCreated maxSize acquireTimeoutMs pid pool =>
      [("acquire_timeout_ms", .number acquireTimeoutMs), ("max_size", .number maxSize),
       ("pid", .number pid), ("pool_id", .pool pool)]
  | .reused kind | .replaced kind | .discarded kind => [("kind", .text kind)]
  | .created kind total => [("kind", .text kind), ("total_created", .number total)]
  | .creationFailed failure => [("error", .text failure.message)]
  | .exhausted maxSize timeoutMs =>
      [("max_size", .number maxSize), ("timeout_ms", .number timeoutMs)]
  | .foreignReleased pool resourcePool | .foreignDiscarded pool resourcePool =>
      [("pool_id", .pool pool), ("resource_pool_id", .pool resourcePool)]
  | .staleReleased pid epoch => [("resource_epoch", .number epoch), ("resource_pid", .number pid)]
  | .freeListFull maxSize => [("max_size", .number maxSize)]
  | .disconnected closed | .idleClosed closed => [("closed", .number closed)]
  | .invalidated epoch => [("epoch", .number epoch)]
  | .processChanged previous pid => [("pid", .number pid), ("previous_pid", .number previous)]
  | .reset dropped pid epoch =>
      [("discarded", .number dropped), ("epoch", .number epoch), ("pid", .number pid)]
  | .closeFailed kind failure => [("error", .text failure.message), ("kind", .text kind)]
  | .retrying attempt maxRetries delayMs failure =>
      [("attempt", .number attempt), ("delay_ms", .number delayMs),
       ("error", .text failure.message), ("max_retries", .number maxRetries)]
  | .idleBeyondLifetime idleTimeoutMs maxLifetimeMs =>
      [("idle_timeout_ms", .number idleTimeoutMs), ("max_lifetime_ms", .number maxLifetimeMs)]

end Notice
end LeasePool
