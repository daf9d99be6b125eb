import Ractor.FactoryQueues
import Ractor.FactoryRouting
import Ractor.FiniteMapTotals

/-!
# Factory state and its operations

`FactoryState` and its methods, from `factoryimpl.rs`. The field `world` stands for
everything outside the factory. A method that may end the factory (a failed spawn, a
failing lifecycle hook, a panic) returns in `Except`. Loops that pop a job per round
run on the queue length as fuel; the queue laws make that enough. Timers, the
statistics layer and join handles are left out.
-/

namespace Ractor.Factory
open Queue Router

def globalWorkerPoolMaximum : ℕ:=1000000

inductive DrainState where
  | notDraining
  | draining
  | drained
  deriving DecidableEq, Repr

/-- `FactoryState`. A capacity controller and the lifecycle hooks answer through the
oracle, so the state only knows whether they are installed. -/
structure FactoryState (Key Msg R Q : Type) where
  poolSize : ℕ
  pool : Pool Key Msg
  workerByActor : AList (fun _ : ActorId => WorkerId)
  router : R
  queue : Q
  discardHandler : Option HandlerId
  discardSettings : DiscardSettings
  drainState : DrainState
  deadMansSwitch : Option DeadMansSwitchConfiguration
  capacityController : Bool
  lifecycleHooks : Bool
  world : World Key Msg

structure UpdateSettingsRequest where
  discardHandler : Option (Option HandlerId):=none
  discardSettings : Option DiscardSettings:=none
  deadMansSwitch : Option (Option DeadMansSwitchConfiguration):=none
  capacityController : Option Bool:=none
  lifecycleHooks : Option Bool:=none
  workerCount : Option ℕ:=none

namespace FactoryState
variable {Key Msg R Q : Type} [DecidableEq Key] [Router R Key Msg] [Queue Q Key Msg]

/-! ### Routing the backlog -/

/-- The first loop of `try_route_next_active_job`: discard expired jobs at the head. -/
def expireHead : ℕ → FactoryState Key Msg R Q → FactoryState Key Msg R Q
  | 0,s => s
  | fuel+1,s =>
    match peek s.queue with
    | none => s
    | some head =>
      if head.isExpired s.world.now then
        match popFront s.queue with
        | none => {s with world:=s.world.tick}
        | some (job,queue) =>
          expireHead fuel
            { s with
              queue:=queue
              world:=(s.world.tick.discard s.discardHandler .ttlExpired job).reject job }
      else {s with world:=s.world.tick}

/-- The second loop: route the head job; go on while jobs are rate limited. -/
def routeHead (hint : Option WorkerId) :
    ℕ → FactoryState Key Msg R Q → Except FactoryError (FactoryState Key Msg R Q)
  | 0,s => .ok s
  | fuel+1,s =>
    match peek s.queue with
    | none => .ok s
    | some head =>
      let choice := chooseTargetWorker s.router head s.poolSize hint s.pool s.world
      match choice.target with
      | none => .ok {s with router:=choice.router,world:=choice.world}
      | some worker =>
        match popFront s.queue with
        | none => routeHead hint fuel {s with router:=choice.router,world:=choice.world}
        | some (job,queue) =>
          let routed :=
            routeMessage choice.router job s.poolSize (some worker) s.pool choice.world
          match routed.result with
          | .handled =>
            .ok {s with
              queue:=queue,router:=routed.router,pool:=routed.pool,world:=routed.world}
          | .rateLimited job =>
            routeHead hint fuel
              { s with
                queue:=queue,router:=routed.router,pool:=routed.pool
                world:=(routed.world.discard s.discardHandler .rateLimited job).reject job }
          | .backlog _ => .error .backlogAfterTarget

def tryRouteNextActiveJob (hint : Option WorkerId) (s : FactoryState Key Msg R Q) :
    Except FactoryError (FactoryState Key Msg R Q) :=
  let s := expireHead (len s.queue) s
  routeHead hint (len s.queue) s

/-! ### Dispatch -/

def shedQueue (limit : ℕ) : ℕ → FactoryState Key Msg R Q → FactoryState Key Msg R Q
  | 0,s => s
  | fuel+1,s =>
    if limit<len s.queue then
      match discardOldest s.queue with
      | none => shedQueue limit fuel s
      | some (job,queue) =>
        shedQueue limit fuel
          {s with queue:=queue,world:=s.world.discard s.discardHandler .loadshed job}
    else s

variable (s : FactoryState Key Msg R Q) (wid : WorkerId) (who : WorkerId)
  (request : UpdateSettingsRequest) (key : Key) (job : Job Key Msg)

def acceptIntoQueue : Except FactoryError (FactoryState Key Msg R Q) :=
  match pushBack s.queue job.taken with
  | .error e => .error e
  | .ok queue => .ok {s with queue:=queue,world:=s.world.accept job}

def discardAndReject (reason : DiscardReason) (job : Job Key Msg) : FactoryState Key Msg R Q :=
  {s with world:=(s.world.discard s.discardHandler reason job).reject job}

def maybeEnqueue : Except FactoryError (FactoryState Key Msg R Q) :=
  match s.discardSettings.getLimitAndMode with
  | some (limit,.newest) =>
    if isJobDiscardable s.queue job.key && decide (limit≤len s.queue) then
      .ok (s.discardAndReject .loadshed job)
    else s.acceptIntoQueue job
  | some (limit,.oldest) =>
    match s.acceptIntoQueue job with
    | .error e => .error e
    | .ok s => .ok (shedQueue limit (len s.queue) s)
  | none => s.acceptIntoQueue job

def dispatchNumbered : Except FactoryError (FactoryState Key Msg R Q) :=
  let expired := job.isExpired s.world.now
  let s := {s with world:=s.world.tick}
  if expired then .ok (s.discardAndReject .ttlExpired job)
  else if s.drainState=.notDraining then
    let routed := routeMessage s.router job s.poolSize none s.pool s.world
    let s := {s with router:=routed.router,pool:=routed.pool,world:=routed.world}
    match routed.result with
    | .handled => .ok s
    | .rateLimited job => .ok (s.discardAndReject .rateLimited job)
    | .backlog job => s.maybeEnqueue job
  else .ok (s.discardAndReject .shutdown job)

/-- Ghost bookkeeping of an arrival: the job is logged and the counter moves on. -/
def arrived : FactoryState Key Msg R Q :=
  {s with world:={s.world.record (.dispatched job) with nextJob:=s.world.nextJob+1}}

/-- `dispatch`. The ghost counter numbers the job on arrival. -/
def dispatch : Except FactoryError (FactoryState Key Msg R Q) :=
  (s.arrived (job.numbered s.world.nextJob)).dispatchNumbered (job.numbered s.world.nextJob)

/-! ### Pings -/

def pingWorkers : FactoryState Key Msg R Q :=
  let pinged := FiniteMap.visit WorkerProperties.sendFactoryPing s.pool.keys s.pool s.world
  {s with pool:=pinged.1,world:=pinged.2}

def workerPong : FactoryState Key Msg R Q :=
  let discardLimit := (s.discardSettings.getLimitAndMode.map Prod.fst).getD 0
  match s.pool.lookup wid with
  | none => s
  | some worker => {s with pool:=s.pool.insert wid (worker.pingReceived discardLimit)}

/-! ### Resizing the pool -/

def workerSettings : WorkerDiscardSettings :=
  if isFactoryQueueing s.router then .none else s.discardSettings.getWorkerSettings

/-- Spawn a worker actor and register it under a free worker id. -/
def addWorker : Except FactoryError (FactoryState Key Msg R Q) :=
  match s.world.spawn wid with
  | .error e => .error e
  | .ok (actor,world) =>
    .ok {s with
      pool:=s.pool.insert wid (.new wid actor s.workerSettings s.discardHandler)
      workerByActor:=s.workerByActor.insert actor wid
      router:=onWorkerAvailabilityChange s.router wid true
      world:=world}

def growWorker : Except FactoryError (FactoryState Key Msg R Q) :=
  match s.pool.lookup wid with
  | none => s.addWorker wid
  | some existing =>
    let healthy := existing.setDraining false
    .ok {s with
      pool:=s.pool.insert wid healthy
      router:=
        if healthy.isAvailable then onWorkerAvailabilityChange s.router wid true
        else s.router}

def growPool (toAdd : ℕ) : Except FactoryError (FactoryState Key Msg R Q) :=
  match (List.range' s.poolSize toAdd).foldlM growWorker s with
  | .error e => .error e
  | .ok s => .ok (if s.deadMansSwitch.isSome then s.pingWorkers else s)

def shrinkWorker : FactoryState Key Msg R Q :=
  match s.pool.lookup wid with
  | none => s
  | some existing =>
    if existing.isWorking then {s with pool:=s.pool.insert wid (existing.setDraining true)}
    else
      { s with
        pool:=s.pool.erase wid
        workerByActor:=s.workerByActor.erase existing.actor
        router:=onWorkerAvailabilityChange s.router wid false
        world:=s.world.record (.stopped existing.actor) }

def shrinkPool (toRemove : ℕ) : FactoryState Key Msg R Q :=
  (List.range' (s.poolSize - toRemove) toRemove).foldl shrinkWorker s

def routeBacklog : ℕ → FactoryState Key Msg R Q → Except FactoryError (FactoryState Key Msg R Q)
  | 0,s => .ok s
  | rounds+1,s =>
    if (peek s.queue).isNone then .ok s
    else
      match s.tryRouteNextActiveJob none with
      | .error e => .error e
      | .ok s => routeBacklog rounds s

def resizePool (requestedPoolSize : ℕ) : Except FactoryError (FactoryState Key Msg R Q) :=
  if requestedPoolSize=0 then .ok s
  else
    let newPoolSize := min globalWorkerPoolMaximum requestedPoolSize
    if s.poolSize<newPoolSize then
      match s.growPool (newPoolSize - s.poolSize) with
      | .error e => .error e
      | .ok s => routeBacklog newPoolSize {s with poolSize:=newPoolSize}
    else if newPoolSize<s.poolSize then
      .ok {s.shrinkPool (s.poolSize - newPoolSize) with poolSize:=newPoolSize}
    else .ok {s with poolSize:=newPoolSize}

/-! ### Completions -/

/-- The end of `worker_finished_job` and of a replacement: one routing attempt for the
worker, which is then announced if it is still free. -/
def routeToFreed : Except FactoryError (FactoryState Key Msg R Q) :=
  match s.tryRouteNextActiveJob (some wid) with
  | .error e => .error e
  | .ok s =>
    if (s.pool.lookup wid).any WorkerProperties.isAvailable then
      .ok {s with router:=onWorkerAvailabilityChange s.router wid true}
    else .ok s

def completeJob : FactoryState Key Msg R Q :=
  match s.pool.lookup who with
  | none => s
  | some worker =>
    let completed := worker.workerComplete key s.world
    {s with pool:=s.pool.insert who completed.2.1,world:=completed.2.2}

def dropWorker (worker : WorkerProperties Key Msg) : FactoryState Key Msg R Q :=
  { s with
    pool:=s.pool.erase who
    workerByActor:=s.workerByActor.erase worker.actor
    world:=s.world.record (.stopped worker.actor) }

def workerFinishedJob : Except FactoryError (FactoryState Key Msg R Q) :=
  let s := s.completeJob who key
  match s.pool.lookup who with
  | none => s.routeToFreed who
  | some worker =>
    if worker.isDraining then
      -- a draining worker gets no more work
      if worker.isWorking then .ok s else .ok (s.dropWorker who worker)
    else s.routeToFreed who

/-! ### Periodic work and settings -/

def controlCapacity : Except FactoryError (FactoryState Key Msg R Q) :=
  if s.capacityController then
    let answer := s.world.askSize
    let s := {s with world:=answer.2}
    if s.poolSize=answer.1 then .ok s else s.resizePool answer.1
  else .ok s

def sweepQueue : FactoryState Key Msg R Q :=
  if isFactoryQueueing s.router then
    let swept := removeExpiredItems s.queue s.discardHandler s.world
    {s with queue:=swept.2.1,world:=swept.2.2}
  else s

def calculateMetrics : Except FactoryError (FactoryState Key Msg R Q) :=
  match s.controlCapacity with
  | .error e => .error e
  | .ok s => .ok s.sweepQueue

def sendPings : FactoryState Key Msg R Q :=
  match s.discardSettings with
  | .dynamic _ mode =>
    let answer := s.world.askLimit
    pingWorkers {s with discardSettings:=.dynamic answer.1 mode,world:=answer.2}
  | _ => s.pingWorkers

/-- Kill one stuck worker; its exit event comes back through supervision. -/
def killIfStuck (switch : DeadMansSwitchConfiguration) (worker : WorkerProperties Key Msg)
    (world : World Key Msg) : WorkerProperties Key Msg × World Key Msg :=
  if worker.heartbeat.isStuckAt world.now switch.detectionTimeout && switch.killWorker then
    (worker,world.tick.record (.killed worker.actor))
  else (worker,world.tick)

def identifyStuckWorkers : FactoryState Key Msg R Q :=
  match s.deadMansSwitch with
  | none => s
  | some switch =>
    let visited := FiniteMap.visit (killIfStuck switch) s.pool.keys s.pool s.world
    {s with pool:=visited.1,world:=visited.2}

def drainRequests : Except FactoryError (FactoryState Key Msg R Q) :=
  let s := {s with drainState:=.draining}
  if s.lifecycleHooks then
    let answer := s.world.askHook
    if answer.1 then .ok {s with world:=answer.2} else .error .hookFailed
  else .ok s

def mapWorkers (f : WorkerProperties Key Msg → WorkerProperties Key Msg)
    (s : FactoryState Key Msg R Q) : FactoryState Key Msg R Q :=
  {s with pool:=(FiniteMap.visit (fun worker _ => (f worker,())) s.pool.keys s.pool ()).1}

def setDiscardHandler (handler : Option HandlerId) : FactoryState Key Msg R Q :=
  { s.mapWorkers fun worker => {worker with discardHandler:=handler} with
    discardHandler:=handler }

def setDiscardSettings (settings : DiscardSettings) : FactoryState Key Msg R Q :=
  let workerSettings :=
    if isFactoryQueueing s.router then .none else settings.getWorkerSettings
  { s.mapWorkers fun worker => {worker with discardSettings:=workerSettings} with
    discardSettings:=settings }

def setDeadMansSwitch (switch : Option DeadMansSwitchConfiguration) : FactoryState Key Msg R Q :=
  let s := {s with deadMansSwitch:=switch}
  if switch.isSome then s.pingWorkers else s

def applySettings : FactoryState Key Msg R Q :=
  let s := request.discardHandler.elim s s.setDiscardHandler
  let s := request.discardSettings.elim s s.setDiscardSettings
  let s := request.deadMansSwitch.elim s s.setDeadMansSwitch
  { s with
    capacityController:=request.capacityController.getD s.capacityController
    lifecycleHooks:=request.lifecycleHooks.getD s.lifecycleHooks }

def updateSettings : Except FactoryError (FactoryState Key Msg R Q) :=
  match request.workerCount with
  | none => .ok (s.applySettings request)
  | some workerCount => (s.applySettings request).resizePool workerCount

/-! ### Queries -/

/-- `saturating_add` of numbers of 64 bits. -/
def saturatingAdd (m n : ℕ) : ℕ:=min (m+n) (2^64 - 1)

def availableCapacity : ℕ :=
  let workerAvailability :=
    s.pool.entries.countP fun entry => !entry.2.isDraining && entry.2.isAvailable
  match s.discardSettings.getLimitAndMode with
  | none => workerAvailability
  | some (limit,_) =>
    let queueCapacity :=
      if isFactoryQueueing s.router then limit - len s.queue
      else ((s.pool.entries.filter fun entry => !entry.2.isDraining).map
        fun entry => limit - entry.2.queuedJobCount).foldl saturatingAdd 0
    saturatingAdd workerAvailability queueCapacity

def numActiveWorkers : ℕ :=
  s.pool.entries.countP fun entry => entry.2.isWorking

def reply (port : ReplyPort) (value : ℕ) : FactoryState Key Msg R Q :=
  {s with world:=s.world.record (.replied port value)}

/-- `is_drained`, with the state it leaves behind. -/
def isDrained : Bool × FactoryState Key Msg R Q :=
  match s.drainState with
  | .notDraining => (false,s)
  | .drained => (true,s)
  | .draining =>
    if (s.pool.entries.all fun entry => entry.2.isAvailable) && len s.queue == 0 then
      (true,{s with drainState:=.drained})
    else (false,s)

end FactoryState
end Ractor.Factory
