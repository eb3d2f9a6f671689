import LeasePool.World.Step

/-!
Systems: a world together with all tasks that are under way in it. An event makes or resumes a
call, lets a caller drop a lease, changes a pid or lets time pass; any call may come while tasks
wait, whoever makes it. A state is reachable if events lead to it from a world with new pools.
-/

namespace LeasePool

/-- A world and the tasks under way in it. -/
structure System where
  world : World
  tasks : List Task

/-- What can happen next. -/
inductive Event where
  | call (pool : PoolId) (call : Call)
  /-- The task at a place in the list gets an answer. -/
  | reply (place : Nat) (reply : Reply)
  /-- The task at a place in the list, which waits for a slot or for time, looks again. -/
  | wake (place : Nat)
  /-- A caller drops a lease without giving it back. -/
  | drop (lease : Lease)
  | fork (process : ProcessId) (pid : Pid)
  | advance (time : Duration)

namespace System

/-- A system with new pools: one for each process and configuration in the list. -/
def init (pids : List Pid) (pools : List (ProcessId × Config)) : System :=
  ⟨pools.foldl (fun world pool => world.addPool pool.1 pool.2) (World.ofPids pids), []⟩

/-- No operation is under way. -/
def IsQuiet (system : System) : Prop := system.tasks = []

/-- The system after a call or a task came to `progress` while `others` wait. -/
def settle (others : List Task) : World × Progress → System
  | (world, .done _) => ⟨world, others⟩
  | (world, .pending task) => ⟨world, task :: others⟩

/-- The system after an event, if the event can happen. -/
def step? (system : System) : Event → Option System
  | .call pool call => (system.world.call pool call).map (settle system.tasks)
  | .reply place reply => do
      let task ← system.tasks[place]?
      (system.world.resume task reply).map (settle (system.tasks.eraseIdx place))
  | .wake place => do
      let task ← system.tasks[place]?
      (system.world.wake task).map (settle (system.tasks.eraseIdx place))
  | .drop lease =>
      if lease ∈ system.world.held then some { system with world := system.world.dropLease lease }
      else none
  | .fork process pid => some { system with world := system.world.fork process pid }
  | .advance time => some { system with world := system.world.advance time }

def run? (system : System) : List Event → Option System
  | [] => some system
  | event :: rest => (system.step? event).bind fun next => run? next rest

/-- The system can come about from new pools. -/
def Reachable (system : System) : Prop :=
  ∃ pids pools events, (init pids pools).run? events = some system

end System
end LeasePool
