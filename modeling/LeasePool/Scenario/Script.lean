import LeasePool.Json.Basic
import LeasePool.Task

/-!
Scripts: what happens on a stage with pools over scripted factories. A script names leases by
labels and pools by their places. What a factory does when it is asked is planned in advance, and
may hold steps of its own.
-/

namespace LeasePool.Scenario

/-- What a factory or a unit of work does when its turn comes: first some steps, then a result. -/
structure Reaction (σ : Type) (α : Type) where
  steps : List σ
  result : α

inductive Ending where
  | fail (failure : Failure)
  | execute (statement : String)
  | value (value : Json)

/-- Damage done to a resource before the steps of a unit of work. -/
structure Damage where
  /-- The resource is broken. -/
  breaks : Bool
  /-- The resource is closed. -/
  closes : Bool

/-- What becomes of the lease of a guard. -/
inductive GuardEnd where
  | release
  | discard
  | keepAs (label : String)

inductive Step where
  | acquire (pool : PoolId) (label : String) (patience : Option Patience)
  | release (pool : PoolId) (label : String)
  | discard (pool : PoolId) (label : String)
  | drop (label : String)
  | disconnectAll (pool : PoolId)
  | invalidate (pool : PoolId)
  | closeIdle (pool : PoolId)
  | evictExpired (pool : PoolId)
  | fork (process : ProcessId) (pid : Pid)
  | sleep (time : Duration)
  /-- Append to what the factory of a pool will do when it is asked to make, to close and to check
  resources. -/
  | plan (pool : PoolId) (create close : List (Reaction Step (Option Failure)))
      (valid : List (Reaction Step (Option Bool)))
  | breakResource (label : String)
  | closeResource (label : String)
  | execute (label : String) (statement : String)
  | inspect (label : String)
  | age (label : String) (time : Duration)
  | describe (label : String)
  | same (first second : String)
  | info (pool : PoolId)
  | factory (pool : PoolId)
  /-- Lend a resource for the length of some steps. -/
  | guard (pool : PoolId) (patience : Option Patience) (damage : Damage) (steps : List Step)
      (ending : GuardEnd)
  | run (pool : PoolId) (policy : RetryPolicy) (attempts : List (Damage × Reaction Step Ending))
  /-- Steps while `count` acquisitions by others wait. -/
  | blocked (pool : PoolId) (count : Nat) (patience : Patience) (label : String)
      (steps : List Step)
  /-- A fork, and `count` acquisitions at the same moment. -/
  | forkRace (pool : PoolId) (process : ProcessId) (pid : Pid) (count : Nat) (label : String)

namespace Step

instance : Inhabited Step := ⟨.sleep 0⟩

mutual

/-- The number of steps in a step, those of its reactions included. -/
def size : Step → Nat
  | .plan _ create close valid => 1 + sizeReactions create + sizeReactions close + sizeChecks valid
  | .guard _ _ _ steps _ => 1 + sizeAll steps
  | .run _ _ attempts => 1 + sizeAttempts attempts
  | .blocked _ count _ _ steps => 1 + count + sizeAll steps
  | .forkRace _ _ _ count _ => 1 + count
  | _ => 1

def sizeAll : List Step → Nat
  | [] => 0
  | step :: rest => size step + sizeAll rest

def sizeReactions : List (Reaction Step (Option Failure)) → Nat
  | [] => 0
  | ⟨steps, _⟩ :: rest => 1 + sizeAll steps + sizeReactions rest

def sizeChecks : List (Reaction Step (Option Bool)) → Nat
  | [] => 0
  | ⟨steps, _⟩ :: rest => 1 + sizeAll steps + sizeChecks rest

def sizeAttempts : List (Damage × Reaction Step Ending) → Nat
  | [] => 0
  | (_, ⟨steps, _⟩) :: rest => 1 + sizeAll steps + sizeAttempts rest

end

end Step

/-- How the factory of a pool is built, which decides which of its actions are planned. -/
inductive Make where
  /-- All of its actions are planned. -/
  | scripted
  /-- All of its actions are planned, and it is shared with others. -/
  | shared
  /-- Making and closing are planned; a resource is valid unless it is closed. -/
  | closures
  /-- Only making is planned. -/
  | minimal
deriving Repr, DecidableEq

def Make.plansClose : Make → Bool
  | .minimal => false
  | _ => true

def Make.plansValid : Make → Bool
  | .scripted | .shared => true
  | _ => false

structure PoolSpec where
  name : String
  make : Make
  process : ProcessId
  config : Config

structure Script where
  /-- The pids of the processes at the beginning. -/
  pids : List Pid
  pools : List PoolSpec
  steps : List Step
  /-- Notices are part of the trace. -/
  notices : Bool

end LeasePool.Scenario
