import Mathlib.Data.List.Basic

/-!
# Decoding the messages of other nodes

A message reaches a local actor as the value that a local sender has boxed, or in the serialized form
in which a `NodeSession` has received it. The two runtimes turn it into a message of the actor in
`handle_message`, which was written once for each of them. The bytes are chosen by another node, and
the decoder is the user's own: it may return an error, and it may panic.
-/

namespace Ractor
open List

/-- The payload of a panic, which is a text or a value of some other type. -/
inductive PanicPayload where
  | text (message : String)
  | other
  deriving DecidableEq, Repr

inductive Outcome (ε α : Type) where
  | ok (value : α)
  | err (error : ε)
  | panicked (payload : PanicPayload)
  deriving DecidableEq, Repr

def PanicPayload.getPanicString : PanicPayload → String
  | .text message => message
  | .other => "Unknown panic occurred which couldn't be coerced to a string"

structure BoxedDowncastErr where
  deriving DecidableEq, Repr

def BoxedDowncastErr.text (_ : BoxedDowncastErr) : String :=
  "An error occurred handling a boxed message"

inductive SerializedMessage (Port : Type) where
  | cast (variant : String) (args : List UInt8) (metadata : Option (List UInt8))
  | call (variant : String) (args : List UInt8) (reply : Port) (metadata : Option (List UInt8))
  | callReply (tag : UInt64) (data : List UInt8)
  deriving DecidableEq, Repr

/-- A boxed value, by whether it downcasts to the message type of the actor. -/
inductive AnyMessage (Msg : Type) where
  | own (message : Msg)
  | foreign
  deriving DecidableEq, Repr

structure BoxedMessage (Port Msg : Type) where
  msg : Option (AnyMessage Msg)
  serializedMsg : Option (SerializedMessage Port)
  deriving DecidableEq, Repr

structure MessageCodec (Port Msg : Type) where
  serializable : Bool
  serialize : Msg → Outcome BoxedDowncastErr (SerializedMessage Port)
  deserialize : SerializedMessage Port → Outcome BoxedDowncastErr Msg

namespace MessageCodec
variable {Port Msg : Type} (codec : MessageCodec Port Msg)

def fromBoxed (m : BoxedMessage Port Msg) : Outcome BoxedDowncastErr Msg :=
  match m.msg with
  | some (.own message) => .ok message
  | some .foreign => .err ⟨⟩
  | none =>
    match m.serializedMsg with
    | some serialized => codec.deserialize serialized
    | none => .err ⟨⟩

def boxMessage (isLocal : Bool) (message : Msg) : Outcome BoxedDowncastErr (BoxedMessage Port Msg) :=
  if codec.serializable && !isLocal then
    match codec.serialize message with
    | .ok serialized => .ok {msg:=none,serializedMsg:=some serialized}
    | .err error => .err error
    | .panicked payload => .panicked payload
  else if isLocal then .ok {msg:=some (.own message),serializedMsg:=none}
  else .err ⟨⟩

end MessageCodec

/-! ### The two runtimes -/

/-- The handlers of an actor, which may change its state before they fail. -/
structure Handler (Port Msg State : Type) where
  handle : Msg → State → State × Outcome String Unit
  handleSerialized : SerializedMessage Port → State → State × Outcome String Unit

structure RunningActor (Msg State : Type) where
  state : State
  /-- The messages that `handle` was called with, oldest first. -/
  handled : List Msg:=[]
  deriving DecidableEq, Repr

inductive ActorErr where
  | cancelled
  | failed (error : String)
  deriving DecidableEq, Repr

inductive RuntimeKind where
  | actorRuntime
  | threadLocal
  deriving DecidableEq, Repr

section Runtimes
variable {Port Msg State : Type} (handler : Handler Port Msg State) (actor : RunningActor Msg State)

def Handler.call (message : Msg) : RunningActor Msg State × Outcome String Unit :=
  let result := handler.handle message actor.state
  ({state:=result.1,handled:=actor.handled++[message]},result.2)

/-- What both runtimes do for the stand-in of a remote actor. -/
def forwardMessage (msg : BoxedMessage Port Msg) : RunningActor Msg State × Outcome String Unit :=
  match msg.serializedMsg with
  | some serialized =>
    let result := handler.handleSerialized serialized actor.state
    ({actor with state:=result.1},result.2)
  | none =>
    (actor,.err "`RemoteActor` failed to read `SerializedMessage` from `BoxedMessage`")

def handleTyped (codec : MessageCodec Port Msg) (handler : Handler Port Msg State)
    (actor : RunningActor Msg State) (msg : BoxedMessage Port Msg) :
    RunningActor Msg State × Outcome String Unit :=
  match codec.fromBoxed msg with
  | .ok message => handler.call actor message
  | .err error => (actor,.err error.text)
  | .panicked payload => (actor,.panicked payload)

def handleMessage (kind : RuntimeKind) (isLocal : Bool) (codec : MessageCodec Port Msg)
    (handler : Handler Port Msg State) (actor : RunningActor Msg State)
    (msg : BoxedMessage Port Msg) : RunningActor Msg State × Outcome String Unit :=
  if !isLocal then forwardMessage handler actor msg
  else
    match kind with
    | .actorRuntime =>
      if msg.serializedMsg.isSome then
        match codec.fromBoxed msg with
        | .ok message => handler.call actor message
        | .err _ => (actor,.ok ())
        | .panicked _ => (actor,.ok ())
      else handleTyped codec handler actor msg
    | .threadLocal => handleTyped codec handler actor msg

/-- The error with which a call ends the loop. A panic is caught around it. -/
def Outcome.exit? : Outcome String Unit → Option ActorErr
  | .ok () => none
  | .err error => some (.failed error)
  | .panicked payload => some (.failed payload.getPanicString)

/-- The loop of an actor that gets messages and nothing else, over the messages it gets. -/
def processingLoop {M : Type}
    (handleOne : RunningActor Msg State → M → RunningActor Msg State × Outcome String Unit) :
    RunningActor Msg State → List M → RunningActor Msg State × Option ActorErr
  | actor,[] => (actor,none)
  | actor,message::rest =>
    match (handleOne actor message).2.exit? with
    | none => processingLoop handleOne (handleOne actor message).1 rest
    | some error => ((handleOne actor message).1,some error)

section Loops
variable {M : Type}
  {handleOne : RunningActor Msg State→M→RunningActor Msg State × Outcome String Unit} {actor}
  {message : M}

theorem processingLoop_of_ok (h : (handleOne actor message).2.exit?=none) (rest : List M) :
    processingLoop handleOne actor (message::rest) =
      processingLoop handleOne (handleOne actor message).1 rest := by
  simp [processingLoop,h]

theorem processingLoop_of_exit {error : ActorErr}
    (h : (handleOne actor message).2.exit?=some error) (rest : List M) :
    processingLoop handleOne actor (message::rest) = ((handleOne actor message).1,some error) := by
  simp [processingLoop,h]

end Loops
end Runtimes

/-! ### Deliveries -/

inductive Delivery (Port Msg : Type) where
  | sendMessage (message : Msg)
  | sendSerialized (message : SerializedMessage Port)
  deriving DecidableEq, Repr

namespace MessageCodec
variable {Port Msg State : Type} (codec : MessageCodec Port Msg)

/-- What a running actor finds in its channel. A message that cannot be boxed is not sent. -/
def boxed? (isLocal : Bool) : Delivery Port Msg → Option (BoxedMessage Port Msg)
  | .sendMessage message =>
    match codec.boxMessage isLocal message with
    | .ok boxed => some boxed
    | _ => none
  | .sendSerialized message => some {msg:=none,serializedMsg:=some message}

def decoded? : Delivery Port Msg → Option Msg
  | .sendMessage message => some message
  | .sendSerialized message =>
    match codec.deserialize message with
    | .ok message => some message
    | _ => none

/-- What is in the channel of a local actor after a message was delivered. -/
def localBox : Delivery Port Msg → BoxedMessage Port Msg
  | .sendMessage message => {msg:=some (.own message),serializedMsg:=none}
  | .sendSerialized message => {msg:=none,serializedMsg:=some message}

theorem boxed?_local (delivery : Delivery Port Msg) :
    codec.boxed? true delivery=some (localBox delivery) := by
  cases delivery with
  | sendMessage message => simp [boxed?,boxMessage,localBox]
  | sendSerialized message => rfl

theorem filterMap_boxed?_local (deliveries : List (Delivery Port Msg)) :
    deliveries.filterMap (codec.boxed? true)=deliveries.map localBox := by
  rw [← filterMap_eq_map]
  exact congrArg (deliveries.filterMap ·) (funext codec.boxed?_local)

variable {codec} (handler : Handler Port Msg State) (actor : RunningActor Msg State)
  {delivery : Delivery Port Msg} {message : Msg}

theorem fromBoxed_localBox_of_decoded (h : codec.decoded? delivery=some message) :
    codec.fromBoxed (localBox delivery)=.ok message := by
  cases delivery with
  | sendMessage sent =>
    cases h
    rfl
  | sendSerialized sent =>
    simp only [decoded?] at h
    split at h
    next hs => exact hs.trans (congrArg _ (Option.some.inj h))
    next => cases h

theorem localBox_of_not_decoded (h : codec.decoded? delivery=none) :
    (localBox delivery).serializedMsg.isSome=true ∧
      ∀message,codec.fromBoxed (localBox delivery)≠.ok message := by
  cases delivery with
  | sendMessage sent => cases h
  | sendSerialized sent =>
    refine ⟨rfl,fun message hok => ?_⟩
    have hs : codec.deserialize sent=.ok message:=hok
    simp [decoded?,hs] at h

/-- Both runtimes hand a message that decodes to the handler. -/
theorem handleMessage_of_decoded (kind : RuntimeKind) (h : codec.decoded? delivery=some message) :
    handleMessage kind true codec handler actor (localBox delivery) =
      handler.call actor message := by
  have hbox:=fromBoxed_localBox_of_decoded h
  cases kind <;> simp [handleMessage,handleTyped,hbox]

theorem actorRuntime_handleMessage_of_not_decoded (h : codec.decoded? delivery=none) :
    handleMessage .actorRuntime true codec handler actor (localBox delivery)=(actor,.ok ()) := by
  obtain ⟨hs,hnot⟩:=localBox_of_not_decoded h
  simp only [handleMessage,hs]
  cases hbox : codec.fromBoxed (localBox delivery) with
  | ok message => exact absurd hbox (hnot message)
  | err error | panicked payload => rfl

/-- In the thread-local runtime the failure of the decoder is that of the actor. -/
theorem threadLocal_handleMessage_of_not_decoded (h : codec.decoded? delivery=none) :
    ∃outcome error,Outcome.exit? outcome=some error ∧
      handleMessage .threadLocal true codec handler actor (localBox delivery) =
        (actor,outcome) := by
  obtain ⟨-,hnot⟩:=localBox_of_not_decoded h
  simp only [handleMessage,handleTyped]
  cases hbox : codec.fromBoxed (localBox delivery) with
  | ok message => exact absurd hbox (hnot message)
  | err error => exact ⟨.err error.text,_,rfl,rfl⟩
  | panicked payload => exact ⟨.panicked payload,_,rfl,rfl⟩

end MessageCodec

/-! ### Runs -/

section Runs

open MessageCodec

variable {Port Msg State : Type} {codec : MessageCodec Port Msg} {handler : Handler Port Msg State}
  {actor : RunningActor Msg State}

/-- An actor whose handler fails has handled one more message. -/
theorem handled_lt_of_exit (messages : List Msg) :
    ∀actor : RunningActor Msg State,(processingLoop handler.call actor messages).2≠none →
      actor.handled.length<(processingLoop handler.call actor messages).1.handled.length := by
  induction messages with
  | nil => exact fun actor h => absurd rfl h
  | cons message rest ih =>
    intro actor he
    have hl : actor.handled.length<(handler.call actor message).1.handled.length := by
      simp [Handler.call]
    cases hone : (handler.call actor message).2.exit? with
    | none =>
      rw [processingLoop_of_ok hone] at he ⊢
      exact Nat.lt_trans hl (ih _ he)
    | some error => rwa [processingLoop_of_exit hone]

theorem actorRuntime_drops_undecodable (codec : MessageCodec Port Msg)
    (handler : Handler Port Msg State) (deliveries : List (Delivery Port Msg)) :
    ∀actor,processingLoop (handleMessage .actorRuntime true codec handler) actor
        (deliveries.map localBox) =
      processingLoop handler.call actor (deliveries.filterMap codec.decoded?) := by
  induction deliveries with
  | nil => exact fun actor => rfl
  | cons delivery rest ih =>
    intro actor
    cases hd : codec.decoded? delivery with
    | none =>
      have hone:=actorRuntime_handleMessage_of_not_decoded handler actor hd
      rw [filterMap_cons_none hd,← ih,map_cons,processingLoop_of_ok (by rw [hone]; rfl),hone]
    | some message =>
      rw [filterMap_cons_some hd,map_cons]
      simp only [processingLoop,handleMessage_of_decoded handler actor .actorRuntime hd,ih]

/-- Every message decodes that the actor gets to before a handler fails. -/
def DecodedWhileRunning (codec : MessageCodec Port Msg) (handler : Handler Port Msg State)
    (actor : RunningActor Msg State) (deliveries : List (Delivery Port Msg)) : Prop :=
  ∀before delivery after,deliveries=before++delivery::after →
    codec.decoded? delivery=none →
      (processingLoop handler.call actor (before.filterMap codec.decoded?)).2≠none

theorem not_decodedWhileRunning_of_first {delivery : Delivery Port Msg}
    (rest : List (Delivery Port Msg)) (h : codec.decoded? delivery=none) :
    ¬ DecodedWhileRunning codec handler actor (delivery::rest) :=
  fun hall => hall [] delivery rest rfl h rfl

theorem decodedWhileRunning_cons {delivery : Delivery Port Msg} {message : Msg}
    (rest : List (Delivery Port Msg)) (h : codec.decoded? delivery=some message) :
    DecodedWhileRunning codec handler actor (delivery::rest) ↔
      ∀before next after,rest=before++next::after→codec.decoded? next=none →
        (processingLoop handler.call actor (message::before.filterMap codec.decoded?)).2 ≠
          none := by
  constructor
  · intro hall before next after hr hn
    have he:=hall (delivery::before) next after (by rw [hr]; rfl) hn
    rwa [filterMap_cons_some h] at he
  · intro hall before next after hs hn
    cases before with
    | nil =>
      cases hs
      exact absurd (h.symm.trans hn) (Option.some_ne_none _)
    | cons first before =>
      cases hs
      rw [filterMap_cons_some h]
      exact hall before next after rfl hn

theorem threadLocal_drops_undecodable_iff (deliveries : List (Delivery Port Msg)) :
    ∀actor,processingLoop (handleMessage .threadLocal true codec handler) actor
          (deliveries.map localBox) =
        processingLoop handler.call actor (deliveries.filterMap codec.decoded?) ↔
      DecodedWhileRunning codec handler actor deliveries := by
  induction deliveries with
  | nil => exact fun actor => iff_of_true rfl fun before delivery after h => by simp at h
  | cons delivery rest ih =>
    intro actor
    cases hd : codec.decoded? delivery with
    | none =>
      refine iff_of_false (fun heq => ?_) (not_decodedWhileRunning_of_first rest hd)
      -- the actor fails before it handles a message, the handler only fails on one it handles
      obtain ⟨outcome,error,he,hone⟩ := threadLocal_handleMessage_of_not_decoded handler actor hd
      rw [map_cons,processingLoop_of_exit (by rw [hone]; exact he),hone] at heq
      have hlt:=handled_lt_of_exit _ actor (by rw [← heq]; exact Option.some_ne_none _)
      rw [← heq] at hlt
      exact Nat.lt_irrefl _ hlt
    | some message =>
      have hone:=handleMessage_of_decoded handler actor .threadLocal hd
      rw [decodedWhileRunning_cons rest hd,filterMap_cons_some hd,map_cons]
      cases hc : (handler.call actor message).2.exit? with
      | none =>
        rw [processingLoop_of_ok (by rw [hone]; exact hc),hone]
        simp only [processingLoop_of_ok hc]
        exact ih _
      | some error =>
        rw [processingLoop_of_exit (by rw [hone]; exact hc),hone]
        refine iff_of_true (processingLoop_of_exit hc _).symm fun before _ _ _ _ => ?_
        rw [processingLoop_of_exit hc]
        exact Option.some_ne_none _

/-- What a local actor does with the messages it is given is what it does with those that decode, in
the runtime of ordinary actors and as long as the messages that a thread-local actor gets to
decode. -/
theorem undecodable_messages_dropped_iff (kind : RuntimeKind) (codec : MessageCodec Port Msg)
    (handler : Handler Port Msg State) (actor : RunningActor Msg State)
    (deliveries : List (Delivery Port Msg)) :
    processingLoop (handleMessage kind true codec handler) actor
          (deliveries.filterMap (codec.boxed? true)) =
        processingLoop handler.call actor (deliveries.filterMap codec.decoded?) ↔
      kind=.actorRuntime ∨ DecodedWhileRunning codec handler actor deliveries := by
  rw [filterMap_boxed?_local]
  cases kind with
  | actorRuntime =>
    exact iff_of_true (actorRuntime_drops_undecodable codec handler deliveries actor) (.inl rfl)
  | threadLocal => simp [threadLocal_drops_undecodable_iff]

/-- A thread-local actor that gets a serialized message with an unknown variant exits, and does not
see the message behind it. -/
theorem undecodable_message_kills_threadLocal :
    let codec : MessageCodec ℕ ℕ :=
      { serializable:=true
        serialize:=fun n => .ok (.cast "Set" [UInt8.ofNat n] none)
        deserialize:=fun
          | .cast "Set" [byte] _ => .ok byte.toNat
          | _ => .err ⟨⟩ }
    let handler : Handler ℕ ℕ ℕ :=
      {handle:=fun n _ => (n,.ok ()),handleSerialized:=fun _ n => (n,.ok ())}
    let deliveries : List (Delivery ℕ ℕ) := [.sendSerialized (.cast "Add" [1] none),.sendMessage 3]
    processingLoop (handleMessage .threadLocal true codec handler) {state:=0}
        (deliveries.filterMap (codec.boxed? true)) =
      ({state:=0},some (.failed "An error occurred handling a boxed message")) ∧
    processingLoop handler.call {state:=0} (deliveries.filterMap codec.decoded?) =
      ({state:=3,handled:=[3]},none) := by
  decide

end Runs
end Ractor
