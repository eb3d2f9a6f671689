import LeasePool.World.Acquire

/-!
Closing many resources: a teardown closes everything the pool made under its owner that is still
alive, idle or lent; a sweep closes idle resources only and keeps their slots. Both close one
resource after the other and destroy what they hold after the last one.
-/

namespace LeasePool.World

/-- Close the next resource of a torn-down pool that is still alive, or end. -/
def disconnectNext (world : World) (id : PoolId) (free : List ResourceId) (closed : Nat) :
    List ResourceId → World × Progress
  | [] => ((world.letGoAll free).note (.disconnected closed), .done .finished)
  | resource :: rest =>
      if world.isAlive resource then
        (world.hold resource, .pending (.disconnecting id resource rest free closed))
      else disconnectNext world id free closed rest

/-- Begin to close every resource of a pool. -/
def disconnectAll (world : World) (id : PoolId) : World × Progress :=
  let world := world.checkOwner id
  let old := world.pool id
  (world.modifyPool id Pool.tearDown).disconnectNext id (idleFromBottom old.free) 0 old.registry

def disconnected (world : World) (id : PoolId) (resource : ResourceId)
    (rest free : List ResourceId) (closed : Nat) (failure : Option Failure) : World × Progress :=
  ((world.noteClose resource failure).letGo resource).disconnectNext id free (closed + 1) rest

/-- Close the next resource that a sweep took, or end. -/
def sweepNext (world : World) (id : PoolId) (taken : List ResourceId) :
    List ResourceId → World × Progress
  | resource :: rest => (world, .pending (.sweeping id resource rest taken))
  | [] =>
      let world := if taken.isEmpty then world else world.note (.idleClosed taken.length)
      (world.letGoAll taken, .done (.swept taken.length))

/-- Begin to close the idle resources that `takes` selects. Their slots are vacant at once. -/
def sweep (world : World) (id : PoolId) (takes : Pool → IdleResource → Bool) : World × Progress :=
  let world := world.checkOwner id
  let pool := world.pool id
  let taken := pool.selected (takes pool)
  (world.modifyPool id fun pool => pool.vacate (takes pool)).sweepNext id taken taken

def closeIdle (world : World) (id : PoolId) : World × Progress := world.sweep id fun _ _ => true

def evictExpired (world : World) (id : PoolId) : World × Progress :=
  world.sweep id fun pool entry => pool.isExpired world.clock entry

def swept (world : World) (id : PoolId) (resource : ResourceId) (rest taken : List ResourceId)
    (failure : Option Failure) : World × Progress :=
  (world.noteClose resource failure).sweepNext id taken rest

end LeasePool.World
