import Ractor.ActorStatus
import Ractor.FlaggedCounters
import Ractor.ReachableRuns
import Mathlib.Logic.Function.Basic

/-!
# The message port of an actor

Threads send messages to an actor and drain it. A send is admitted by incrementing the counter in
`message_admission` and gives its admission back when it ends; `drain` closes the admission. The
`Drain` marker goes into the channel once the admission is closed and nobody is admitted any more,
and the `DRAIN_MARKER_SENT` flag elects the one thread that pushes it.

A call is a little program: `Call` says which atomic operation comes next, together with the local
variables that are still needed, and `Mailbox.resume` performs it. Calls of different threads
interleave in any order. `compare_exchange_weak` may fail although the word has not changed.
-/

namespace Ractor
open Option

def messageAdmissionClosed : BitVec 64:=highFlag 62

def drainMarkerSent : BitVec 64:=lowFlag 62

def messageAdmissionCountMask : BitVec 64:=countMask 62

inductive MuxedMessage (Msg : Type) where
  | drain
  | message (message : Msg)
  deriving DecidableEq, Repr

inductive MessagingErr (Msg : Type) where
  | sendErr (message : Msg)
  | invalidActorType
  deriving DecidableEq, Repr

/-- `send_message_unchecked` boxes the message itself, which may fail; `send_serialized` is given
a serialized message. -/
inductive SendKind where
  | unchecked | serialized
  deriving DecidableEq, Repr

/-- A message together with the call that sends it: the calling thread, and how many sends that
thread has made before. Only the message is data of the program. -/
structure Envelope (Thread Msg : Type) where
  sender : Thread
  number : ℕ
  message : Msg
  deriving DecidableEq, Repr

inductive Answer (Thread Msg : Type) where
  | send (envelope : Envelope Thread Msg) (result : Except (MessagingErr Msg) Unit)
  | drain (result : Except (MessagingErr Unit) Unit)

/-- Who runs `send_drain_marker`: a send that gives back the last admission, with the result it is
going to return, or `drain`. -/
inductive MarkerSender (Thread Msg : Type) where
  | send (envelope : Envelope Thread Msg) (result : Except (MessagingErr Msg) Unit)
  | drain

/-- A call in progress, by the operation it performs next. -/
inductive Call (Thread Msg : Type) where
  | readStatus (kind : SendKind) (envelope : Envelope Thread Msg)
  | loadAdmission (kind : SendKind) (envelope : Envelope Thread Msg)
  | tryAdmit (kind : SendKind) (envelope : Envelope Thread Msg) (state : BitVec 64)
  | box (kind : SendKind) (envelope : Envelope Thread Msg)
  | push (envelope : Envelope Thread Msg)
  | release (envelope : Envelope Thread Msg) (result : Except (MessagingErr Msg) Unit)
  | closeAdmission
  | publishDraining
  | loadMarker (sender : MarkerSender Thread Msg)
  | mark (sender : MarkerSender Thread Msg) (state : BitVec 64)
  | pushMarker (sender : MarkerSender Thread Msg)

/-- The shared state of an actor's message port, and the calls on it. -/
structure Mailbox (Thread Msg : Type) where
  status : ActorStatus:=.unstarted
  admission : BitVec 64:=0
  /-- Everything ever pushed to the channel, oldest first. -/
  pushed : List (MuxedMessage (Envelope Thread Msg)):=[]
  receiverAlive : Bool:=true
  calls : Thread → Option (Call Thread Msg):=fun _ => none
  /-- How many sends each thread has begun. -/
  sends : Thread → ℕ:=fun _ => 0
  returned : List (Answer Thread Msg):=[]
  drainCalled : Bool:=false

/-- A thread makes a call, or performs the next operation of the one it is in. -/
inductive CallEvent (Thread Msg : Type) where
  | send (thread : Thread) (kind : SendKind) (message : Msg)
  | drain (thread : Thread)
  | resume (thread : Thread) (fails : Bool)

/-- Besides, the actor publishes a status or drops the receiving end of the channel. -/
inductive MailboxEvent (Thread Msg : Type) where
  | call (event : CallEvent Thread Msg)
  | setStatus (status : ActorStatus)
  | dropReceiver

namespace Mailbox
variable {Thread Msg : Type} [DecidableEq Thread] (s : Mailbox Thread Msg)

def goto (i : Thread) (call : Call Thread Msg) : Mailbox Thread Msg :=
  {s with calls:=Function.update s.calls i (some call)}

def answer (i : Thread) (reply : Answer Thread Msg) : Mailbox Thread Msg :=
  {s with calls:=Function.update s.calls i none,returned:=s.returned++[reply]}

/-- `send_drain_marker` returns. The drop of a `MessageAdmission` ignores the result. -/
def answerMarker (i : Thread) (result : Except (MessagingErr Unit) Unit) :
    MarkerSender Thread Msg → Mailbox Thread Msg
  | .send e sent => s.answer i (.send e sent)
  | .drain => s.answer i (.drain result)

def push (m : MuxedMessage (Envelope Thread Msg)) : Mailbox Thread Msg :=
  if s.receiverAlive then {s with pushed:=s.pushed++[m]} else s

omit [DecidableEq Thread] in
theorem push_eq (s : Mailbox Thread Msg) (m : MuxedMessage (Envelope Thread Msg)) :
    s.push m={s with pushed:=s.pushed++if s.receiverAlive then [m] else []} := by
  unfold push
  split
  · rfl
  · rw [List.append_nil]

/-- Perform the next operation of thread `i`. When `fails` is set, `box_message` returns an error
and `compare_exchange_weak` fails. -/
def resume (i : Thread) (fails : Bool) : Call Thread Msg → Mailbox Thread Msg
  | .readStatus kind e =>
    if .draining ≤ s.status then s.answer i (.send e (.error (.sendErr e.message)))
    else s.goto i (.loadAdmission kind e)
  | .loadAdmission kind e => s.goto i (.tryAdmit kind e s.admission)
  | .tryAdmit kind e state =>
    if state &&& messageAdmissionClosed≠0 then
      s.answer i (.send e (.error (.sendErr e.message)))
    else if s.admission=state ∧ fails=false then
      {s with admission:=state+1}.goto i (.box kind e)
    else s.goto i (.tryAdmit kind e s.admission)
  | .box kind e =>
    if kind=.unchecked ∧ fails=true then s.goto i (.release e (.error .invalidActorType))
    else s.goto i (.push e)
  | .push e =>
    (s.push (.message e)).goto i
      (.release e (if s.receiverAlive then .ok () else .error (.sendErr e.message)))
  | .release e result =>
    -- the drop of the `MessageAdmission`
    let released := {s with admission:=s.admission - 1}
    if s.admission &&& messageAdmissionClosed≠0 ∧ s.admission &&& messageAdmissionCountMask=1
    then released.goto i (.loadMarker (.send e result))
    else released.answer i (.send e result)
  | .closeAdmission =>
    {s with admission:=s.admission ||| messageAdmissionClosed}.goto i .publishDraining
  | .publishDraining => {s with status:=max s.status .draining}.goto i (.loadMarker .drain)
  | .loadMarker sender => s.goto i (.mark sender s.admission)
  | .mark sender state =>
    if state &&& messageAdmissionClosed=0 ∨ state &&& messageAdmissionCountMask≠0 ∨
        state &&& drainMarkerSent≠0 then
      s.answerMarker i (.ok ()) sender
    else if s.admission=state ∧ fails=false then
      {s with admission:=state ||| drainMarkerSent}.goto i (.pushMarker sender)
    else s.goto i (.mark sender s.admission)
  | .pushMarker sender =>
    (s.push .drain).answerMarker i (if s.receiverAlive then .ok () else .error (.sendErr ())) sender

/-- The outcomes of one operation of thread `i`. -/
inductive Resumed (s : Mailbox Thread Msg) (i : Thread) :
    Call Thread Msg→Mailbox Thread Msg→Prop where
  | statusRejected (kind : SendKind) (e : Envelope Thread Msg) :
      Resumed s i (.readStatus kind e) (s.answer i (.send e (.error (.sendErr e.message))))
  | statusRead (kind : SendKind) (e : Envelope Thread Msg) :
      Resumed s i (.readStatus kind e) (s.goto i (.loadAdmission kind e))
  | admissionLoaded (kind : SendKind) (e : Envelope Thread Msg) :
      Resumed s i (.loadAdmission kind e) (s.goto i (.tryAdmit kind e s.admission))
  | rejected (kind : SendKind) (e : Envelope Thread Msg) (state : BitVec 64) :
      Resumed s i (.tryAdmit kind e state) (s.answer i (.send e (.error (.sendErr e.message))))
  | admitted (kind : SendKind) (e : Envelope Thread Msg)
      (h : s.admission &&& messageAdmissionClosed=0) :
      Resumed s i (.tryAdmit kind e s.admission)
        ({s with admission:=s.admission+1}.goto i (.box kind e))
  | notAdmitted (kind : SendKind) (e : Envelope Thread Msg) (state : BitVec 64) :
      Resumed s i (.tryAdmit kind e state) (s.goto i (.tryAdmit kind e s.admission))
  | notBoxed (kind : SendKind) (e : Envelope Thread Msg) :
      Resumed s i (.box kind e) (s.goto i (.release e (.error .invalidActorType)))
  | boxed (kind : SendKind) (e : Envelope Thread Msg) :
      Resumed s i (.box kind e) (s.goto i (.push e))
  | pushed (e : Envelope Thread Msg) (h : s.receiverAlive=true) :
      Resumed s i (.push e)
        ({s with pushed:=s.pushed++[MuxedMessage.message e]}.goto i (.release e (.ok ())))
  | notPushed (e : Envelope Thread Msg) :
      Resumed s i (.push e) (s.goto i (.release e (.error (.sendErr e.message))))
  | releasedLast (e : Envelope Thread Msg) (result : Except (MessagingErr Msg) Unit) :
      Resumed s i (.release e result)
        ({s with admission:=s.admission - 1}.goto i (.loadMarker (.send e result)))
  | released (e : Envelope Thread Msg) (result : Except (MessagingErr Msg) Unit)
      (h : ¬(s.admission &&& messageAdmissionClosed≠0 ∧
        s.admission &&& messageAdmissionCountMask=1)) :
      Resumed s i (.release e result)
        ({s with admission:=s.admission - 1}.answer i (.send e result))
  | admissionClosed :
      Resumed s i .closeAdmission
        ({s with admission:=s.admission ||| messageAdmissionClosed}.goto i .publishDraining)
  | drainingPublished :
      Resumed s i .publishDraining
        ({s with status:=max s.status .draining}.goto i (.loadMarker .drain))
  | markerLoaded (sender : MarkerSender Thread Msg) :
      Resumed s i (.loadMarker sender) (s.goto i (.mark sender s.admission))
  | noMarker (sender : MarkerSender Thread Msg) (state : BitVec 64)
      (h : state &&& messageAdmissionClosed=0 ∨ state &&& messageAdmissionCountMask≠0 ∨
        state &&& drainMarkerSent≠0) :
      Resumed s i (.mark sender state) (s.answerMarker i (.ok ()) sender)
  | marked (sender : MarkerSender Thread Msg) (h : ¬(s.admission &&& messageAdmissionClosed=0 ∨
        s.admission &&& messageAdmissionCountMask≠0 ∨ s.admission &&& drainMarkerSent≠0)) :
      Resumed s i (.mark sender s.admission)
        ({s with admission:=s.admission ||| drainMarkerSent}.goto i (.pushMarker sender))
  | notMarked (sender : MarkerSender Thread Msg) (state : BitVec 64) :
      Resumed s i (.mark sender state) (s.goto i (.mark sender s.admission))
  | markerPushed (sender : MarkerSender Thread Msg) (result : Except (MessagingErr Unit) Unit) :
      Resumed s i (.pushMarker sender) ((s.push .drain).answerMarker i result sender)

theorem resume_resumed (i : Thread) (fails : Bool) (call : Call Thread Msg) :
    s.Resumed i call (s.resume i fails call) := by
  cases call with
  | readStatus kind e =>
    simp only [resume]
    split
    · exact .statusRejected kind e
    · exact .statusRead kind e
  | loadAdmission kind e => exact .admissionLoaded kind e
  | tryAdmit kind e state =>
    simp only [resume]
    split
    · exact .rejected kind e state
    · next ho =>
      split
      · next hs =>
        obtain rfl:=hs.1
        exact .admitted kind e (not_not.mp ho)
      · exact .notAdmitted kind e state
  | box kind e =>
    simp only [resume]
    split
    · exact .notBoxed kind e
    · exact .boxed kind e
  | push e =>
    simp only [resume,push]
    split
    · next hr => exact .pushed e hr
    · exact .notPushed e
  | release e result =>
    simp only [resume]
    split
    · exact .releasedLast e result
    · next h => exact .released e result h
  | closeAdmission => exact .admissionClosed
  | publishDraining => exact .drainingPublished
  | loadMarker sender => exact .markerLoaded sender
  | mark sender state =>
    simp only [resume]
    split
    · next h => exact .noMarker sender state h
    · next h =>
      split
      · next hs =>
        obtain rfl:=hs.1
        exact .marked sender h
      · exact .notMarked sender state
  | pushMarker sender => exact .markerPushed sender _

def send (i : Thread) (kind : SendKind) (message : Msg) : Mailbox Thread Msg :=
  { s.goto i (.readStatus kind ⟨i,s.sends i,message⟩) with
    sends:=Function.update s.sends i (s.sends i+1) }

def drain (i : Thread) : Mailbox Thread Msg :=
  {s.goto i .closeAdmission with drainCalled:=true}

def call : CallEvent Thread Msg → Option (Mailbox Thread Msg)
  | .send i kind message => if (s.calls i).isNone then some (s.send i kind message) else none
  | .drain i => if (s.calls i).isNone then some (s.drain i) else none
  | .resume i fails => (s.calls i).map (s.resume i fails)

def setStatus (status : ActorStatus) : Mailbox Thread Msg :=
  {s with status:=max s.status status}

def dropReceiver : Mailbox Thread Msg :=
  {s with receiverAlive:=false}

def step : MailboxEvent Thread Msg → Option (Mailbox Thread Msg)
  | .call event => s.call event
  | .setStatus status => some (s.setStatus status)
  | .dropReceiver => some s.dropReceiver

def Step (event : MailboxEvent Thread Msg) (s' : Mailbox Thread Msg) : Prop :=
  s.step event=some s'

/-- What holds after every kind of call event holds after a call event. -/
theorem call_elim {P : Mailbox Thread Msg→Prop} {s s' : Mailbox Thread Msg}
    {event : CallEvent Thread Msg} (h : s.call event=some s')
    (send : ∀i kind message,s.calls i=none→P (s.send i kind message))
    (drain : ∀i,s.calls i=none→P (s.drain i))
    (resume : ∀i fails call next,event=.resume i fails→s.calls i=some call →
      s.Resumed i call next→P next) : P s' := by
  cases event with
  | send i kind message =>
    obtain ⟨hi,hs⟩:=ite_none_right_eq_some.mp h
    cases hs
    exact send i kind message (isNone_iff_eq_none.mp hi)
  | drain i =>
    obtain ⟨hi,hs⟩:=ite_none_right_eq_some.mp h
    cases hs
    exact drain i (isNone_iff_eq_none.mp hi)
  | resume i fails =>
    obtain ⟨call,hi,rfl⟩:=map_eq_some_iff.mp h
    exact resume i fails call _ rfl hi (resume_resumed s i fails call)

theorem Step.elim {P : Mailbox Thread Msg→Prop} {s s' : Mailbox Thread Msg}
    {event : MailboxEvent Thread Msg} (h : s.Step event s')
    (send : ∀i kind message,s.calls i=none→P (s.send i kind message))
    (drain : ∀i,s.calls i=none→P (s.drain i))
    (resume : ∀i call next,s.calls i=some call→s.Resumed i call next→P next)
    (setStatus : ∀status,P (s.setStatus status)) (dropReceiver : P s.dropReceiver) : P s' := by
  cases event with
  | call event =>
    exact call_elim h send drain fun i _ call next _ hi hr => resume i call next hi hr
  | setStatus status =>
    cases h
    exact setStatus status
  | dropReceiver =>
    cases h
    exact dropReceiver

def Initial : Prop:=s={}

theorem exists_reachable (events : List (CallEvent Thread Msg)) (test : Mailbox Thread Msg→Bool)
    (h : (execute step {} (events.map .call)).any test=true) :
    ∃s : Mailbox Thread Msg,Reachable Initial Step s ∧ test s=true :=
  exists_of_execute (fun _ _ _ hs => hs) (fun _ hs => (some.inj hs).symm) _ h

end Mailbox
end Ractor
