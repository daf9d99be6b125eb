import Ractor.FactoryState
import Ractor.ReachableRuns

/-!
# Message handlers and runs of a factory

The `Actor` implementation of `Factory`: `pre_start`, `handle`,
`handle_supervisor_evt` and `post_stop`. A run starts the factory and then handles
messages and supervision events one at a time, each under its own oracle. A handler
that returns an error ends the factory, so the run has no further state.
-/

namespace Ractor.Factory
open LawfulQueue

inductive FactoryMessage (Key Msg : Type) where
  | dispatch (job : Job Key Msg)
  | finished (who : WorkerId) (key : Key)
  | doPings (sentAt : Instant)
  | calculate
  | workerPong (wid : WorkerId) (time : Duration)
  | identifyStuckWorkers
  | getQueueDepth (reply : ReplyPort)
  | adjustWorkerPool (requestedPoolSize : ℕ)
  | getAvailableCapacity (reply : ReplyPort)
  | getNumActiveWorkers (reply : ReplyPort)
  | drainRequests
  | updateSettings (request : UpdateSettingsRequest)

inductive SupervisionEvent where
  | actorStarted (who : ActorId)
  | actorTerminated (who : ActorId)
  | actorFailed (who : ActorId)
  | other

structure FactoryArguments (R Q : Type) where
  numInitialWorkers : ℕ:=1
  router : R
  queue : Q
  discardHandler : Option HandlerId:=none
  discardSettings : DiscardSettings:=.none
  deadMansSwitch : Option DeadMansSwitchConfiguration:=none
  capacityController : Bool:=false
  lifecycleHooks : Bool:=false

inductive FactoryEvent (Key Msg : Type) where
  | message (message : FactoryMessage Key Msg)
  | supervision (event : SupervisionEvent)

namespace FactoryState
variable {Key Msg R Q : Type} [DecidableEq Key] [Router R Key Msg] [Queue Q Key Msg]
  (s : FactoryState Key Msg R Q) (who : ActorId) (args : FactoryArguments R Q) (oracle : Oracle)

def withOracle : FactoryState Key Msg R Q :=
  {s with world:={s.world with oracle:=oracle}}

/-- The state `pre_start` returns, before any worker is spawned. -/
def initial (firstPid firstJob : ℕ) : FactoryState Key Msg R Q where
  poolSize:=args.numInitialWorkers
  pool:=∅
  workerByActor:=∅
  router:=args.router
  queue:=args.queue
  discardHandler:=args.discardHandler
  discardSettings:=args.discardSettings
  drainState:=.notDraining
  deadMansSwitch:=args.deadMansSwitch
  capacityController:=args.capacityController
  lifecycleHooks:=args.lifecycleHooks
  world:={oracle:=oracle,nextPid:=firstPid,nextJob:=firstJob,log:=[]}

def preStart (firstPid firstJob : ℕ) : Except FactoryError (FactoryState Key Msg R Q) :=
  match (List.range args.numInitialWorkers).foldlM addWorker
    (initial args oracle firstPid firstJob) with
  | .error e => .error e
  | .ok s => .ok (if s.deadMansSwitch.isSome then s.pingWorkers else s)

/-- The part of `handle` before the drain check. -/
def handleMessage : FactoryMessage Key Msg → Except FactoryError (FactoryState Key Msg R Q)
  | .dispatch job => s.dispatch job
  | .finished who key => s.workerFinishedJob who key
  | .workerPong wid _ => .ok (s.workerPong wid)
  | .calculate => s.calculateMetrics
  | .doPings _ => .ok s.sendPings
  | .identifyStuckWorkers => .ok s.identifyStuckWorkers
  | .getQueueDepth port => .ok (s.reply port (Queue.len s.queue))
  | .adjustWorkerPool requestedPoolSize => s.resizePool requestedPoolSize
  | .getAvailableCapacity port => .ok (s.reply port s.availableCapacity)
  | .getNumActiveWorkers port => .ok (s.reply port s.numActiveWorkers)
  | .drainRequests => s.drainRequests
  | .updateSettings request => s.updateSettings request

def stopIfDrained : FactoryState Key Msg R Q :=
  let drained := s.isDrained
  if drained.1 then {drained.2 with world:=drained.2.world.record .stoppedSelf} else drained.2

def handle (message : FactoryMessage Key Msg) : Except FactoryError (FactoryState Key Msg R Q) :=
  match s.handleMessage message with
  | .error e => .error e
  | .ok s => .ok s.stopIfDrained

/-- Replace the exited worker `wid` by a fresh actor, ping it if the dead man's switch
is on, and index the new actor. -/
def replaceExited (wid : WorkerId) (worker : WorkerProperties Key Msg) :
    Except FactoryError (FactoryState Key Msg R Q) :=
  match s.world.spawn worker.wid with
  | .error e => .error e
  | .ok (replacement,world) =>
    let replaced := worker.replaceWorker replacement world
    let pinged :=
      if s.deadMansSwitch.isSome then replaced.1.sendFactoryPing replaced.2 else replaced
    .ok {s with
      pool:=s.pool.insert wid pinged.1
      workerByActor:=(s.workerByActor.erase who).insert replacement worker.wid
      world:=pinged.2}

/-- The common body of the `ActorTerminated` and `ActorFailed` branches. -/
def handleExit : Except FactoryError (FactoryState Key Msg R Q) :=
  match (s.workerByActor.lookup who).bind fun wid =>
    (s.pool.lookup wid).map fun worker => (wid,worker) with
  | none => .ok s
  | some (wid,worker) =>
    match s.replaceExited who wid worker with
    | .error e => .error e
    | .ok s => s.routeToFreed worker.wid

def handleSupervisorEvt : SupervisionEvent → Except FactoryError (FactoryState Key Msg R Q)
  | .actorTerminated who => s.handleExit who
  | .actorFailed who => s.handleExit who
  | _ => .ok s

def handleEvent : FactoryEvent Key Msg → Except FactoryError (FactoryState Key Msg R Q)
  | .message message => s.handle message
  | .supervision event => s.handleSupervisorEvt event

def discardQueue : ℕ → FactoryState Key Msg R Q → FactoryState Key Msg R Q
  | 0,s => s
  | fuel+1,s =>
    match Queue.popFront s.queue with
    | none => s
    | some (job,queue) =>
      discardQueue fuel
        {s with queue:=queue,world:=s.world.discard s.discardHandler .shutdown job}

def stopWorkers : FactoryState Key Msg R Q :=
  { s with
    world:={s.world with
      log:=s.world.log++s.pool.entries.map fun entry => .stopped entry.2.actor} }

/-- `post_stop`. Without a discard handler the queue is not even emptied. -/
def postStop : Except FactoryError (FactoryState Key Msg R Q) :=
  let s := if s.discardHandler.isSome then discardQueue (Queue.len s.queue) s else s
  let s := s.stopWorkers
  if s.lifecycleHooks then
    let answer := s.world.askHook
    if answer.1 then .ok {s with world:=answer.2} else .error .hookFailed
  else .ok s

/-! ### Runs -/

omit [DecidableEq Key] [Router R Key Msg] in
/-- The ghost tags of the jobs a queue already holds are distinct and below the first tag
that a dispatched job will get. -/
def Prenumbered [LawfulQueue Q] (queue : Q) (firstJob : ℕ) : Prop :=
  ((contents queue).map Job.tag).Nodup ∧ ∀job∈contents queue,job.tag<firstJob

def Starts [LawfulQueue Q] (args : FactoryArguments R Q) (s : FactoryState Key Msg R Q) : Prop :=
  ∃oracle firstPid firstJob,
    Prenumbered args.queue firstJob ∧ preStart args oracle firstPid firstJob=.ok s

def Step (label : FactoryEvent Key Msg × Oracle) (s' : FactoryState Key Msg R Q) : Prop :=
  (s.withOracle label.2).handleEvent label.1=.ok s'

def Reached [LawfulQueue Q] (args : FactoryArguments R Q) : FactoryState Key Msg R Q → Prop :=
  Reachable (Starts args) Step

variable (check : FactoryState Key Msg R Q→FactoryEvent Key Msg × Oracle→Bool)

/-- `Step` as a function, to replay a concrete run. It stops where the check fails. -/
def step? (s : FactoryState Key Msg R Q) (label : FactoryEvent Key Msg × Oracle) :
    Option (FactoryState Key Msg R Q) :=
  if check s label then ((s.withOracle label.2).handleEvent label.1).toOption else none

omit [DecidableEq Key] [Router R Key Msg] [Queue Q Key Msg] in
theorem eq_ok_of_toOption {e : Except FactoryError (FactoryState Key Msg R Q)}
    {s : FactoryState Key Msg R Q} (h : e.toOption=some s) : e=.ok s := by
  cases e with
  | error e => cases h
  | ok t =>
    cases h
    rfl

def replay (args : FactoryArguments R Q) (oracle : Oracle) (firstPid : ℕ)
    (labels : List (FactoryEvent Key Msg × Oracle)) : Option (FactoryState Key Msg R Q) :=
  (preStart args oracle firstPid 0).toOption.bind fun s => execute (step? check) s labels

/-- A test on the last state of a checked replay exhibits a state that passes it, reached
by steps that all meet the guard. -/
theorem exists_guarded [LawfulQueue Q] (args : FactoryArguments R Q)
    (guard : FactoryState Key Msg R Q→FactoryEvent Key Msg × Oracle→Prop)
    (check : FactoryState Key Msg R Q→FactoryEvent Key Msg × Oracle→Bool)
    (hch : ∀s label,check s label=true → guard s label) (oracle : Oracle) (firstPid : ℕ)
    (labels : List (FactoryEvent Key Msg × Oracle)) (test : FactoryState Key Msg R Q→Bool)
    (hq : contents args.queue=[])
    (h : (replay check args oracle firstPid labels).any test=true) :
    ∃s,Reachable (Starts args) (guarded guard Step) s ∧ test s=true := by
  refine exists_of_execute (fun t label t' hs => ?_) (fun s₀ hs₀ => ?_) labels h
  · unfold step? at hs
    split at hs
    next hc => exact ⟨hch t label hc,eq_ok_of_toOption hs⟩
    next => cases hs
  · exact ⟨oracle,firstPid,0,by simp [Prenumbered,hq],eq_ok_of_toOption hs₀⟩

theorem exists_reached [LawfulQueue Q] (args : FactoryArguments R Q) (oracle : Oracle)
    (firstPid : ℕ) (labels : List (FactoryEvent Key Msg × Oracle))
    (test : FactoryState Key Msg R Q→Bool) (hq : contents args.queue=[])
    (h : (replay (fun _ _ => true) args oracle firstPid labels).any test=true) :
    ∃s,Reached args s ∧ test s=true := by
  obtain ⟨s,hs,ht⟩:=exists_guarded args (fun _ _ => True) (fun _ _ => true)
    (fun _ _ _ => trivial) oracle firstPid labels test hq h
  exact ⟨s,hs.mono (fun _ h => h) fun _ _ _ h => h.2,ht⟩

theorem exists_step [LawfulQueue Q] (args : FactoryArguments R Q) (oracle : Oracle)
    (firstPid : ℕ) (labels : List (FactoryEvent Key Msg × Oracle))
    (label : FactoryEvent Key Msg × Oracle)
    (test : FactoryState Key Msg R Q→FactoryState Key Msg R Q→Bool)
    (hq : contents args.queue=[])
    (h : (replay (fun _ _ => true) args oracle firstPid labels).any (fun s =>
      ((s.withOracle label.2).handleEvent label.1).toOption.any (test s))=true) :
    ∃s s',Reached args s ∧ Step s label s' ∧ test s s'=true := by
  obtain ⟨s,hs,ht⟩:=exists_reached args oracle firstPid labels _ hq h
  obtain ⟨s',hs',ht⟩:=(Option.any_eq_true _ _).mp ht
  exact ⟨s,s',hs,eq_ok_of_toOption hs',ht⟩

end FactoryState

/-! ### Ingredients of concrete runs -/

def Oracle.calm : Oracle where
  clock _:=0
  casts _:=true
  spawns _:=some 0
  picks _:=0
  sizes _:=0
  limits _:=0
  hooks _:=true

/-- Like `calm`, but the worker actors are closed. -/
def Oracle.closed : Oracle:={Oracle.calm with casts:=fun _ => false}

def Job.plain (key : ℕ) : Job ℕ Unit:=⟨key,(),⟨0,none,none,0⟩,none⟩

def FactoryArguments.plain {R : Type} (numInitialWorkers : ℕ) (router : R) :
    FactoryArguments R (BuiltInQueue ℕ Unit StandardPriority) where
  numInitialWorkers:=numInitialWorkers
  router:=router
  queue:=.default {}

structure Unlimited where

instance : RateLimiter Unlimited where
  check limiter _:=(true,limiter)
  bump limiter:=limiter

def calmly (messages : List (FactoryMessage ℕ Unit)) : List (FactoryEvent ℕ Unit × Oracle) :=
  messages.map fun message => (.message message,.calm)

end Ractor.Factory
