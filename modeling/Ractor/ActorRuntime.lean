import Ractor.MessageAdmission

/-!
# Starting an actor and running its processing loop

An actor that gets no stop or kill and whose callbacks succeed. `start` checks the status, publishes
`Starting`, runs `pre_start`, links the actor to its supervisor and hands over to the processing
loop, which takes one entry of the message channel after the other until it meets the `Drain`
marker. Senders and drainers interleave with the steps of the actor as soon as they can hold an
`ActorRef`: from the beginning for the instant spawns and for a name in the registry, otherwise
when `pre_start` is given one. The supervisor, if there is one, stays alive.
-/

namespace Ractor
open Option

/-- How an actor is spawned: by one of the `_linked` functions, by one of the `_instant` functions,
under a name. -/
structure Spawn where
  linked : Bool
  instant : Bool
  named : Bool
  deriving DecidableEq, Repr

inductive SpawnErr where
  | actorAlreadyStarted
  | startupFailed (reason : String)
  deriving DecidableEq, Repr

/-- What a failed `start` drops on its way out: the ports, and the lifecycle guard, which cleans
up. -/
inductive Teardown where
  | ports | lifecycle
  deriving DecidableEq, Repr

inductive Phase (Thread Msg : Type) where
  | checkStatus
  | publishStarting
  | preStart
  | link
  | postStart
  | publishRunning
  | listen
  | handle (envelope : Envelope Thread Msg)
  | publishStopping (reason : Option String)
  | postStop (reason : Option String)
  | dropPorts (reason : Option String)
  | cleanup (reason : Option String)
  | exited (reason : Option String)
  | failing (err : SpawnErr) (rest : List Teardown)
  deriving DecidableEq, Repr

structure Runtime (Thread Msg : Type) where
  spawn : Spawn
  mailbox : Mailbox Thread Msg:={}
  phase : Phase Thread Msg:=.checkStatus
  /-- How many entries the actor has taken from the channel. -/
  taken : ℕ:=0
  /-- The messages whose handler has returned, oldest first. -/
  handled : List (Envelope Thread Msg):=[]

/-- Calls on the message port, and the steps of the actor itself. -/
inductive RuntimeEvent (Thread Msg : Type) where
  | call (event : CallEvent Thread Msg)
  | proceed

namespace Runtime
variable {Thread Msg : Type}

def available (s : Runtime Thread Msg) : Bool :=
  s.spawn.instant || s.spawn.named || match s.phase with
    | .checkStatus | .publishStarting => false
    | _ => true

/-- The next step of the actor. An actor without a message in its channel waits. -/
def proceed (s : Runtime Thread Msg) : Option (Runtime Thread Msg) :=
  match s.phase with
  | .checkStatus =>
    if s.mailbox.status≠.unstarted then
      some {s with phase:=.failing .actorAlreadyStarted [.ports,.lifecycle]}
    else some {s with phase:=.publishStarting}
  | .publishStarting => some {s with mailbox:=s.mailbox.setStatus .starting,phase:=.preStart}
  | .preStart => some {s with phase:=.link}
  | .link =>
    -- `SupervisionTree::link` under a supervisor that is alive
    if s.spawn.linked=true ∧ .draining ≤ s.mailbox.status then
      some {s with
        phase:=.failing (.startupFailed "Supervisor is shutting down") [.lifecycle,.ports]}
    else some {s with phase:=.postStart}
  | .postStart => some {s with phase:=.publishRunning}
  | .publishRunning => some {s with mailbox:=s.mailbox.setStatus .running,phase:=.listen}
  | .listen =>
    match s.mailbox.pushed[s.taken]? with
    | none => none
    | some (.message e) => some {s with phase:=.handle e,taken:=s.taken+1}
    | some .drain =>
      some {s with phase:=.publishStopping (some "Drained"),taken:=s.taken+1}
  | .handle e => some {s with phase:=.listen,handled:=s.handled++[e]}
  | .publishStopping reason =>
    some {s with mailbox:=s.mailbox.setStatus .stopping,phase:=.postStop reason}
  | .postStop reason => some {s with phase:=.dropPorts reason}
  | .dropPorts reason => some {s with mailbox:=s.mailbox.dropReceiver,phase:=.cleanup reason}
  | .cleanup reason => some {s with mailbox:=s.mailbox.setStatus .stopped,phase:=.exited reason}
  | .exited _ => none
  | .failing _ [] => none
  | .failing err (.ports::rest) => some {s with mailbox:=s.mailbox.dropReceiver,phase:=.failing err rest}
  | .failing err (.lifecycle::rest) =>
    some {s with mailbox:=s.mailbox.setStatus .stopped,phase:=.failing err rest}

inductive Proceeded (s : Runtime Thread Msg) : Runtime Thread Msg→Prop where
  | checkFailed (h : s.phase=.checkStatus) (hs : s.mailbox.status≠.unstarted) :
      Proceeded s {s with phase:=.failing .actorAlreadyStarted [.ports,.lifecycle]}
  | checkPassed (h : s.phase=.checkStatus) (hs : s.mailbox.status=.unstarted) :
      Proceeded s {s with phase:=.publishStarting}
  | startingPublished (h : s.phase=.publishStarting) :
      Proceeded s {s with mailbox:=s.mailbox.setStatus .starting,phase:=.preStart}
  | preStarted (h : s.phase=.preStart) : Proceeded s {s with phase:=.link}
  | linkFailed (h : s.phase=.link) (hl : s.spawn.linked=true) (hs : .draining ≤ s.mailbox.status) :
      Proceeded s {s with
        phase:=.failing (.startupFailed "Supervisor is shutting down") [.lifecycle,.ports]}
  | linked (h : s.phase=.link) (hs : ¬(s.spawn.linked=true ∧ .draining ≤ s.mailbox.status)) :
      Proceeded s {s with phase:=.postStart}
  | postStarted (h : s.phase=.postStart) : Proceeded s {s with phase:=.publishRunning}
  | runningPublished (h : s.phase=.publishRunning) :
      Proceeded s {s with mailbox:=s.mailbox.setStatus .running,phase:=.listen}
  | messageTaken (e : Envelope Thread Msg) (h : s.phase=.listen)
      (hm : s.mailbox.pushed[s.taken]?=some (.message e)) :
      Proceeded s {s with phase:=.handle e,taken:=s.taken+1}
  | markerTaken (h : s.phase=.listen) (hm : s.mailbox.pushed[s.taken]?=some .drain) :
      Proceeded s {s with phase:=.publishStopping (some "Drained"),taken:=s.taken+1}
  | messageHandled (e : Envelope Thread Msg) (h : s.phase=.handle e) :
      Proceeded s {s with phase:=.listen,handled:=s.handled++[e]}
  | stoppingPublished (reason : Option String) (h : s.phase=.publishStopping reason) :
      Proceeded s {s with mailbox:=s.mailbox.setStatus .stopping,phase:=.postStop reason}
  | postStopped (reason : Option String) (h : s.phase=.postStop reason) :
      Proceeded s {s with phase:=.dropPorts reason}
  | portsDropped (reason : Option String) (h : s.phase=.dropPorts reason) :
      Proceeded s {s with mailbox:=s.mailbox.dropReceiver,phase:=.cleanup reason}
  | cleanedUp (reason : Option String) (h : s.phase=.cleanup reason) :
      Proceeded s {s with mailbox:=s.mailbox.setStatus .stopped,phase:=.exited reason}
  | portsTornDown (err : SpawnErr) (rest : List Teardown)
      (h : s.phase=.failing err (.ports::rest)) :
      Proceeded s {s with mailbox:=s.mailbox.dropReceiver,phase:=.failing err rest}
  | lifecycleTornDown (err : SpawnErr) (rest : List Teardown)
      (h : s.phase=.failing err (.lifecycle::rest)) :
      Proceeded s {s with mailbox:=s.mailbox.setStatus .stopped,phase:=.failing err rest}

variable {s s' : Runtime Thread Msg}

theorem proceed_proceeded (h : s.proceed=some s') : s.Proceeded s' := by
  unfold proceed at h
  split at h
  case h_1 hp =>
    split at h
    next hs => exact some.inj h ▸ .checkFailed hp hs
    next hs => exact some.inj h ▸ .checkPassed hp (not_not.mp hs)
  case h_2 hp => exact some.inj h ▸ .startingPublished hp
  case h_3 hp => exact some.inj h ▸ .preStarted hp
  case h_4 hp =>
    split at h
    next hs => exact some.inj h ▸ .linkFailed hp hs.1 hs.2
    next hs => exact some.inj h ▸ .linked hp hs
  case h_5 hp => exact some.inj h ▸ .postStarted hp
  case h_6 hp => exact some.inj h ▸ .runningPublished hp
  case h_7 hp =>
    split at h
    next => cases h
    next e hm => exact some.inj h ▸ .messageTaken e hp hm
    next hm => exact some.inj h ▸ .markerTaken hp hm
  case h_8 e hp => exact some.inj h ▸ .messageHandled e hp
  case h_9 reason hp => exact some.inj h ▸ .stoppingPublished reason hp
  case h_10 reason hp => exact some.inj h ▸ .postStopped reason hp
  case h_11 reason hp => exact some.inj h ▸ .portsDropped reason hp
  case h_12 reason hp => exact some.inj h ▸ .cleanedUp reason hp
  case h_13 => cases h
  case h_14 => cases h
  case h_15 err rest hp => exact some.inj h ▸ .portsTornDown err rest hp
  case h_16 err rest hp => exact some.inj h ▸ .lifecycleTornDown err rest hp

variable [DecidableEq Thread]

def step (s : Runtime Thread Msg) : RuntimeEvent Thread Msg → Option (Runtime Thread Msg)
  | .call event =>
    if s.available then
      (s.mailbox.call event).map fun mailbox => {s with mailbox:=mailbox}
    else none
  | .proceed => s.proceed

def Step (s : Runtime Thread Msg) (event : RuntimeEvent Thread Msg) (s' : Runtime Thread Msg) :
    Prop :=
  s.step event=some s'

def Initial (spawn : Spawn) (s : Runtime Thread Msg) : Prop:=s={spawn:=spawn}

theorem Step.elim {P : Runtime Thread Msg→Prop} {event : RuntimeEvent Thread Msg}
    (h : s.Step event s')
    (call : ∀callEvent mailbox,event=.call callEvent→s.mailbox.call callEvent=some mailbox →
      P {s with mailbox:=mailbox}) (proceed : s.Proceeded s'→P s') : P s' := by
  cases event with
  | call event =>
    obtain ⟨mailbox,hm,rfl⟩:=map_eq_some_iff.mp (ite_none_right_eq_some.mp h).2
    exact call event mailbox rfl hm
  | proceed => exact proceed (proceed_proceeded h)

/-- The actor publishes a status, drops its receiver, or leaves its port alone. -/
theorem Proceeded.mailbox (h : s.Proceeded s') :
    s'.mailbox=s.mailbox ∨ ∃event,s.mailbox.Step event s'.mailbox := by
  cases h with
  | startingPublished | runningPublished | stoppingPublished | cleanedUp | lifecycleTornDown =>
    exact .inr ⟨.setStatus _,rfl⟩
  | portsDropped | portsTornDown => exact .inr ⟨.dropReceiver,rfl⟩
  | _ => exact .inl rfl

/-- The port of a running actor is in a state that the port alone can reach. -/
theorem mailbox_reachable {spawn : Spawn} (h : Reachable (Initial spawn) Step s) :
    Reachable Mailbox.Initial Mailbox.Step s.mailbox := by
  refine h.invariant (P:=fun s => Reachable Mailbox.Initial Mailbox.Step s.mailbox) ?_ ?_
  · rintro _ rfl
    exact .start rfl
  · intro s event s' hr hs
    refine hs.elim (P:=fun s' => Reachable Mailbox.Initial Mailbox.Step s'.mailbox) ?_ ?_
    · intro callEvent mailbox _ hm
      have hc : s.mailbox.Step (.call callEvent) mailbox:=hm
      exact .next hr hc
    · intro hp
      rcases hp.mailbox with he | ⟨portEvent,hm⟩
      · rwa [he]
      · exact .next hr hm

end Runtime
end Ractor
