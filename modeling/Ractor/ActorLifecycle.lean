import Ractor.ActorRuntime
import Ractor.MessageDecoding
import Ractor.ReachableRuns
import Mathlib.Order.MinMax

/-!
# The lifecycle of one actor

`start` and `processing_loop` of the two runtimes with all their ways out: a callback may return an
error or panic, a kill signal may win against any callback, and the task may be cancelled wherever
it is. The lifecycle guard of the actor cleans up in each case. Signals, stop requests, supervision
events, messages and the `Drain` marker arrive at any time. What the children of the actor and its
monitors see is left out; the supervisor stays alive once it has taken the actor in.
-/

namespace Ractor

inductive Callback where
  | preStart | postStart | handle | handleSupervisorEvt | postStop
  deriving DecidableEq, Repr

inductive Signal where
  | kill
  deriving DecidableEq, Repr

def Signal.text : Signal → String
  | .kill => "killed"

inductive StopMessage where
  | stop
  | reason (text : String)
  deriving DecidableEq, Repr

def StopMessage.exitReason : StopMessage → Option String
  | .stop => none
  | .reason text => some text

/-- The events of an actor that its supervisor is sent. A terminated actor may hand over its
state. -/
inductive LifecycleEvent where
  | actorStarted
  | actorTerminated (withState : Bool) (reason : Option String)
  | actorFailed (error : String)
  deriving DecidableEq, Repr

def LifecycleEvent.isExit : LifecycleEvent → Bool
  | .actorStarted => false
  | .actorTerminated _ _ => true
  | .actorFailed _ => true

structure ActorLoopResult where
  shouldExit : Bool
  exitReason : Option String
  wasKilled : Bool
  deriving DecidableEq, Repr

def ActorLoopResult.stop (reason : Option String) : ActorLoopResult :=
  {shouldExit:=true,exitReason:=reason,wasKilled:=false}

def ActorLoopResult.signal (signalStr : Option String) : ActorLoopResult :=
  {shouldExit:=true,exitReason:=signalStr,wasKilled:=true}

/-! ### The ports -/

/-- The receiving end of a oneshot channel. A value that has been received stays: nobody looks
twice. -/
inductive Oneshot (α : Type) where
  | pending
  | sent (value : α)
  | closed
  deriving DecidableEq, Repr

def Oneshot.send {α : Type} (value : α) : Oneshot α → Oneshot α
  | .pending => .sent value
  | port => port

def Oneshot.close {α : Type} : Oneshot α → Oneshot α
  | .pending => .closed
  | port => port

structure ActorPortSet (Evt Msg : Type) where
  signal : Oneshot Signal:=.pending
  stop : Oneshot StopMessage:=.pending
  supervision : List Evt:=[]
  message : List (MuxedMessage Msg):=[]
  /-- The senders of the two queues are gone. -/
  closed : Bool:=false

inductive ActorPortMessage (Evt Msg : Type) where
  | signal (signal : Signal)
  | stop (message : StopMessage)
  | supervision (event : Evt)
  | message (message : MuxedMessage Msg)

inductive PortPoll (Evt Msg : Type) where
  | pending
  | channelClosed
  | ready (message : ActorPortMessage Evt Msg)

def ActorPortSet.listenInPriority {Evt Msg : Type} (ports : ActorPortSet Evt Msg) :
    PortPoll Evt Msg × ActorPortSet Evt Msg :=
  match ports.signal with
  | .sent signal => (.ready (.signal signal),ports)
  | .closed => (.channelClosed,ports)
  | .pending =>
    match ports.stop with
    | .sent message => (.ready (.stop message),ports)
    | .closed => (.channelClosed,ports)
    | .pending =>
      match ports.supervision with
      | event::rest => (.ready (.supervision event),{ports with supervision:=rest})
      | [] =>
        if ports.closed then (.channelClosed,ports)
        else
          match ports.message with
          | message::rest => (.ready (.message message),{ports with message:=rest})
          | [] => (.pending,ports)

/-! ### The state of an actor -/

/-- What runs beside the signal port, see `run_with_signal`. -/
inductive Task where
  | preStart
  | postStart
  | supervision
  | message
  | postStop (reason : Option String)
  deriving DecidableEq, Repr

def Task.callback : Task → Callback
  | .preStart => .preStart
  | .postStart => .postStart
  | .supervision => .handleSupervisorEvt
  | .message => .handle
  | .postStop _ => .postStop

/-- Where `ActorLifecycleGuard::cleanup` stands, by what it does next. -/
inductive CleanupStage where
  | publishStopping | terminate | notify | unlink | publishStopped
  deriving DecidableEq, Repr

/-- What the actor does next. A task begins before its callback is called: the signal may be faster,
and a message may fail to decode. -/
inductive LifecyclePhase where
  | checkStatus
  | publishStarting
  | link
  | run (task : Task) (called : Bool)
  | publishRunning
  | notifyStarted
  | listen
  | loopDone (result : Except String ActorLoopResult)
  | exit (result : Except ActorErr (Option String))
  | cleanup (stage : CleanupStage) (event : Option LifecycleEvent)
  | drop
  | ended

/-- The flags of the lifecycle guard, and what the outside has seen of the actor. -/
structure LifecycleRecord (Evt Msg : Type) where
  kind : RuntimeKind
  /-- Whether the actor is spawned under a supervisor. -/
  supervised : Bool
  /-- `notify_on_cancel` of the guard -/
  notifyOnCancel : Bool:=false
  armed : Bool:=true
  /-- Whether `pre_start` has returned a state. -/
  preStarted : Bool:=false
  /-- Whether `try_link` has returned true. -/
  linkAccepted : Bool:=false
  /-- Whether the supervisor is the actor's supervisor now. -/
  linked : Bool:=false
  /-- The callbacks that were called, oldest first. -/
  callbacks : List Callback:=[]
  /-- What `listen_in_priority` has returned last. -/
  lastTaken : PortPoll Evt Msg:=.pending
  /-- What the supervision port of the supervisor has received from the actor, oldest first. -/
  events : List LifecycleEvent:=[]

structure Lifecycle (Evt Msg : Type) extends LifecycleRecord Evt Msg where
  phase : LifecyclePhase:=.checkStatus
  status : ActorStatus:=.unstarted
  /-- How often the actor was taken out of the registries and the process groups. -/
  cleanups : ℕ:=0
  ports : ActorPortSet Evt Msg:={}
  /-- The error that `start` has returned. -/
  startErr : Option SpawnErr:=none

/-- The choices of the actor, of its handlers, of the executor and of other threads. -/
inductive LifecycleStep (Evt Msg : Type) where
  | proceed
  | link (accepted : Bool)
  /-- The callback of the task is called. -/
  | call
  /-- The task returns. A callback that panics may do so before it has made its future. -/
  | complete (outcome : Outcome String Unit) (early : Bool)
  | interrupt
  | spawnerFailed (reason : String)
  | cancel
  | sendSignal
  | sendStop (message : StopMessage)
  | sendSupervision (event : Evt)
  | sendMessage (message : MuxedMessage Msg)
  | closePorts
  | drain
  | remoteSpawnFailed

namespace Lifecycle
variable {Evt Msg : Type} (s : Lifecycle Evt Msg)

def setStatus (status : ActorStatus) : Lifecycle Evt Msg :=
  { s with
    status:=max s.status status
    cleanups:=if .stopping ≤ status ∧ s.status < .stopping then s.cleanups+1 else s.cleanups }

def notifySupervisor (event : LifecycleEvent) : Lifecycle Evt Msg :=
  {s with events:=if s.linked then s.events++[event] else s.events}

def kill (s : Lifecycle Evt Msg) : Lifecycle Evt Msg :=
  {s with ports:={s.ports with signal:=s.ports.signal.send .kill}}

/-- What `terminate` does to the actor itself. -/
def terminate : Lifecycle Evt Msg :=
  if s.status ≤ .upgrading then s.kill else s

def handleSignal : Signal → Lifecycle Evt Msg
  | .kill => s.terminate

/-- `start` returns an error and drops the guard. -/
def fail (err : SpawnErr) : Lifecycle Evt Msg :=
  {s with startErr:=some err,phase:=.drop}

def markRunning : Lifecycle Evt Msg :=
  {s with notifyOnCancel:=true,phase:=.run .postStart false}

/-- `ActorRuntime::start` links the actor when `pre_start` has returned, the thread-local runtime
before it runs. -/
def preStartDone : Lifecycle Evt Msg :=
  match s.kind with
  | .actorRuntime =>
    if s.supervised then {s with preStarted:=true,phase:=.link}
    else {s with preStarted:=true}.markRunning
  | .threadLocal => {s with preStarted:=true}.markRunning

def startingPublished : Lifecycle Evt Msg :=
  match s.kind with
  | .actorRuntime => {s with phase:=.run .preStart false}
  | .threadLocal =>
    if s.supervised then {s with phase:=.link} else {s with phase:=.run .preStart false}

def link (accepted : Bool) : Lifecycle Evt Msg :=
  if accepted then
    match s.kind with
    | .actorRuntime => {s with linkAccepted:=true,linked:=true}.markRunning
    | .threadLocal =>
      {s with linkAccepted:=true,linked:=true,phase:=.run .preStart false}
  else s.fail (.startupFailed "Supervisor is shutting down")

/-- What follows a task that has returned. A panic is caught while the future of the callback is
polled; in the processing loop it is caught around the loop. -/
def complete (early : Bool) : Task → Outcome String Unit → Lifecycle Evt Msg
  | .preStart,.ok () => s.preStartDone
  | .preStart,.err error => s.fail (.startupFailed error)
  | .preStart,.panicked payload =>
    if early then {s with phase:=.drop} else s.fail (.startupFailed payload.getPanicString)
  | .postStart,.ok () => {s with phase:=.publishRunning}
  | .postStart,.err error => {s with phase:=.exit (.error (.failed error))}
  | .postStart,.panicked payload =>
    if early then {s with phase:=.drop}
    else {s with phase:=.exit (.error (.failed payload.getPanicString))}
  | .supervision,.ok () | .message,.ok () => {s with phase:=.listen}
  | .supervision,.err error | .message,.err error =>
    {s with phase:=.loopDone (.error error)}
  | .supervision,.panicked payload | .message,.panicked payload =>
    {s with phase:=.loopDone (.error payload.getPanicString)}
  | .postStop reason,.ok () => {s with phase:=.exit (.ok reason)}
  | .postStop _,.err error => {s with phase:=.exit (.error (.failed error))}
  | .postStop _,.panicked payload =>
    if early then {s with phase:=.drop}
    else {s with phase:=.exit (.error (.failed payload.getPanicString))}

/-- What follows when the signal port wins. A signal port without a sender counts as a kill. -/
def interrupt : Task → Lifecycle Evt Msg
  | .preStart => (s.handleSignal .kill).fail (.startupFailed "Actor killed during startup")
  | .postStart | .postStop _ => {s.handleSignal .kill with phase:=.exit (.error .cancelled)}
  | .supervision | .message =>
    {s.handleSignal .kill with phase:=.loopDone (.ok (.signal (some Signal.kill.text)))}

/-- What `process_message` does with what the ports have to offer. -/
def processMessage : PortPoll Evt Msg → Option (Lifecycle Evt Msg)
  | .pending => none
  | .channelClosed =>
    some {s.handleSignal .kill with phase:=.loopDone (.ok (.signal (some Signal.kill.text)))}
  | .ready (.signal signal) =>
    some {s.handleSignal signal with phase:=.loopDone (.ok (.signal (some signal.text)))}
  | .ready (.stop message) =>
    some {s with phase:=.loopDone (.ok (.stop message.exitReason))}
  | .ready (.supervision _) => some {s with phase:=.run .supervision false}
  | .ready (.message (.message _)) => some {s with phase:=.run .message false}
  | .ready (.message .drain) =>
    some {s with phase:=.loopDone (.ok (.stop (some "Drained")))}

def listen : Option (Lifecycle Evt Msg) :=
  let poll := s.ports.listenInPriority
  {s with ports:=poll.2,lastTaken:=poll.1}.processMessage poll.1

/-- The end of `processing_loop`: `post_stop` is for actors that were not killed. -/
def loopDone : Except String ActorLoopResult → Lifecycle Evt Msg
  | .error error => {s with phase:=.exit (.error (.failed error))}
  | .ok result =>
    if !result.wasKilled then {s with phase:=.run (.postStop result.exitReason) false}
    else {s with phase:=.exit (.ok result.exitReason)}

def exitEvent (kind : RuntimeKind) : Except ActorErr (Option String) → LifecycleEvent
  | .ok reason => .actorTerminated (kind == .actorRuntime) reason
  | .error .cancelled => .actorTerminated false (some "killed")
  | .error (.failed error) => .actorFailed error

def beginCleanup (event : Option LifecycleEvent) : Lifecycle Evt Msg :=
  if s.armed then {s with phase:=.cleanup .publishStopping event} else {s with phase:=.ended}

def dropEvent (notifyOnCancel : Bool) : Option LifecycleEvent :=
  if notifyOnCancel then some (.actorTerminated false (some "actor_task_cancelled")) else none

/-- The steps of the cleanup. A guard that has cleaned up is dropped. -/
def cleanup (s : Lifecycle Evt Msg) (event : Option LifecycleEvent) :
    CleanupStage → Lifecycle Evt Msg
  | .publishStopping => {s.setStatus .stopping with phase:=.cleanup .terminate event}
  | .terminate => {s.terminate with phase:=.cleanup .notify event}
  | .notify =>
    match event with
    | some event => {s.notifySupervisor event with phase:=.cleanup .unlink (some event)}
    | none => {s with phase:=.cleanup .unlink none}
  | .unlink => {s with linked:=false,phase:=.cleanup .publishStopped event}
  | .publishStopped => {s.setStatus .stopped with armed:=false,phase:=.drop}

def proceed : Option (Lifecycle Evt Msg) :=
  match s.phase with
  | .checkStatus =>
    if s.status≠.unstarted then some (s.fail .actorAlreadyStarted)
    else some {s with phase:=.publishStarting}
  | .publishStarting => some (s.setStatus .starting).startingPublished
  | .publishRunning => some {s.setStatus .running with phase:=.notifyStarted}
  | .notifyStarted => some {s.notifySupervisor .actorStarted with phase:=.listen}
  | .listen => s.listen
  | .loopDone result => some ((s.setStatus .stopping).loopDone result)
  | .exit result => some (s.beginCleanup (some (exitEvent s.kind result)))
  | .cleanup stage event => some (s.cleanup event stage)
  | .drop => some (s.beginCleanup (dropEvent s.notifyOnCancel))
  | .link | .run _ _ | .ended => none

/-- The guard is dropped with the future that owns it, unless it cleans up already. -/
def cancel : Option (Lifecycle Evt Msg) :=
  match s.phase with
  | .exit _ | .cleanup _ _ | .drop | .ended => none
  | _ => some {s with phase:=.drop}

def step : LifecycleStep Evt Msg → Option (Lifecycle Evt Msg)
  | .proceed => s.proceed
  | .link accepted =>
    match s.phase with
    | .link => some (s.link accepted)
    | _ => none
  | .call =>
    match s.phase with
    | .run task false =>
      some {s with callbacks:=s.callbacks++[task.callback],phase:=.run task true}
    | _ => none
  | .complete outcome early =>
    match s.phase with
    | .run task true => some (s.complete early task outcome)
    -- a message that does not decode
    | .run .message false => some (s.complete early .message outcome)
    | _ => none
  | .interrupt =>
    match s.phase with
    | .run task _ => if s.ports.signal≠.pending then some (s.interrupt task) else none
    | _ => none
  | .spawnerFailed reason =>
    match s.kind,s.phase with
    | .threadLocal,.run .preStart false => some (s.fail (.startupFailed reason))
    | _,_ => none
  | .cancel => s.cancel
  | .sendSignal => some s.kill
  | .sendStop message =>
    some {s with ports:={s.ports with stop:=s.ports.stop.send message}}
  | .sendSupervision event =>
    some {s with ports:={s.ports with supervision:=s.ports.supervision++[event]}}
  | .sendMessage message =>
    some {s with ports:={s.ports with message:=s.ports.message++[message]}}
  | .closePorts =>
    some {s with
      ports:={s.ports with
        signal:=s.ports.signal.close,stop:=s.ports.stop.close,closed:=true}}
  | .drain => some (s.setStatus .draining)
  | .remoteSpawnFailed =>
    match s.phase,s.startErr with
    | .ended,some _ => some (s.setStatus .stopped)
    | _,_ => none

def Step (label : LifecycleStep Evt Msg) (s' : Lifecycle Evt Msg) : Prop :=
  s.step label=some s'

def Initial (kind : RuntimeKind) (supervised : Bool) (s : Lifecycle Evt Msg) : Prop :=
  s={kind:=kind,supervised:=supervised}

end Lifecycle
end Ractor
