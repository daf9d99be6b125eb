import Mathlib.Data.Multiset.AddSub
import Mathlib.Data.List.Basic

/-!
# Batched dispatch of an output port

The task behind an output port takes its messages in batches, and calls one subscriber after the
other with all the data between two subscription changes. However the messages are batched, every
subscriber is called as if they were processed one by one.
-/

namespace Ractor
open List

/-- A subscriber moves with every call of `send`, so that its state can hold all it was called with,
and leaves with the first that returns `false`. -/
class Subscriber (Id Msg : outParam Type*) (State : Type*) where
  send : State → Msg → State × Bool
  id : State → Id

inductive OutportMessage (Msg State : Type*) where
  | data (value : Msg)
  | setSubscriber (subscriber : Option State)

/-- The subscribers of a port and, as history, those that it has dropped. -/
structure OutputPort (Id State : Type*) where
  subscribers : List (Id × State):=[]
  gone : Multiset State:=0

variable {Id Msg State : Type*}

def OutportMessage.isSetSubscriber : OutportMessage Msg State → Bool
  | .data _ => false
  | .setSubscriber _ => true

namespace OutputPort
variable (values : List Msg) (port : OutputPort Id State)

/-! ### Rounds of calls -/

section Rounds
variable (f g : State → State × Bool) (entries : List (Id × State))

def kept : List (Id × State) :=
  entries.filterMap fun entry => if (f entry.2).2 then some (entry.1,(f entry.2).1) else none

def lost : Multiset State :=
  entries.filterMap fun entry => if (f entry.2).2 then none else some (f entry.2).1

/-- Every subscriber is called through `f`, and stays if that returns `true`. -/
def serve : OutputPort Id State :=
  ⟨kept f port.subscribers,port.gone+lost f port.subscribers⟩

variable {f g} {both : State → State × Bool}

/-- Two rounds are one round in which a subscriber lost in the first is not called again. -/
theorem serve_serve (h : ∀s,both s=if (f s).2 then g (f s).1 else f s) :
    serve (serve port f) g=serve port both := by
  have hk : ∀entries : List (Id × State),kept g (kept f entries)=kept both entries ∧
      lost f entries+lost g (kept f entries)=lost both entries := by
    intro entries
    induction entries with
    | nil => simp [kept,lost]
    | cons entry rest ih =>
      simp only [kept,lost,filterMap_cons,h] at ih ⊢
      cases hf : (f entry.2).2 with
      | false => simp [hf,ih.1,← ih.2,← Multiset.cons_coe]
      | true => cases hg : (g (f entry.2).1).2 <;> simp [hg,ih.1,← ih.2,← Multiset.cons_coe]
  obtain ⟨hs,hl⟩:=hk port.subscribers
  simp only [serve,hs,← hl,Multiset.add_assoc]

end Rounds

variable [Subscriber Id Msg State]

/-! ### The code of the task -/

/-- The calls one subscriber gets for a segment, and whether it is retained. A subscription change
inside a segment is `unreachable!`. -/
def sendSegment : List (OutportMessage Msg State) → State → Option (State × Bool)
  | [],s => some (s,true)
  | .data value::rest,s =>
    let answer := Subscriber.send s value
    if answer.2 then sendSegment rest answer.1 else some answer
  | .setSubscriber _::_,_ => none

/-- The loop over the subscribers, by `subscriber_index`. -/
def dispatchSegment (segment : List (OutportMessage Msg State)) (index : ℕ)
    (port : OutputPort Id State) : Option (OutputPort Id State) :=
  if h : index<port.subscribers.length then
    (sendSegment segment port.subscribers[index].2).bind fun answer =>
      if answer.2 then
        dispatchSegment segment (index+1)
          ⟨port.subscribers.set index (port.subscribers[index].1,answer.1),port.gone⟩
      else
        dispatchSegment segment index ⟨port.subscribers.eraseIdx index,port.gone+{answer.1}⟩
  else some port
termination_by port.subscribers.length - index
decreasing_by all_goals simp [length_eraseIdx,h]; omega

section Batches
variable [DecidableEq Id] (allow : Bool)

/-- A new subscriber takes the place of one with its id, unless duplicates are allowed. -/
def applySubscriber (subscriber : State) : OutputPort Id State :=
  let id := Subscriber.id subscriber
  match if allow then none else port.subscribers.findIdx? (·.1=id) with
  | some index =>
    ⟨port.subscribers.modify index fun entry => (entry.1,subscriber),
      port.gone+(port.subscribers[index]?.map Prod.snd).toList⟩
  | none => ⟨port.subscribers++[(id,subscriber)],port.gone⟩

/-- The loop over the segments, on the rest of the batch from `segment_start` on. A segment ends at
the next subscription change, or with the batch. -/
def dispatchBatch (port : OutputPort Id State) (batch : List (OutportMessage Msg State)) :
    Option (OutputPort Id State) :=
  if 0<batch.length then
    let stop := batch.findIdx (·.isSetSubscriber)
    let served := if 0<stop then dispatchSegment (batch.take stop) 0 port else some port
    if stop=batch.length then served
    else
      match batch[stop]? with
      | some (.setSubscriber subscriber) =>
        served.bind fun port =>
          dispatchBatch (subscriber.elim port (applySubscriber port allow)) (batch.drop (stop+1))
      | _ => none
  else some port
termination_by batch.length
decreasing_by simp only [length_drop]; omega

/-- One message at a time: data goes to every current subscriber. -/
def process (port : OutputPort Id State) : OutportMessage Msg State → OutputPort Id State
  | .data value => serve port (Subscriber.send · value)
  | .setSubscriber subscriber => subscriber.elim port (applySubscriber port allow)

end Batches

/-! ### Segments -/

def sendAll : List Msg → State → State × Bool
  | [],s => (s,true)
  | value::rest,s =>
    let answer := Subscriber.send s value
    if answer.2 then sendAll rest answer.1 else answer

theorem sendSegment_data (s : State) :
    sendSegment (values.map .data) s=some (sendAll values s) := by
  induction values generalizing s with
  | nil => rfl
  | cons value rest ih =>
    simp only [map_cons,sendSegment,sendAll,ih]
    split <;> rfl

/-- The subscribers before `subscriber_index` have been served, the others not yet. -/
theorem dispatchSegment_data (before after : List (Id × State)) (gone : Multiset State) :
    dispatchSegment (values.map .data) before.length ⟨before++after,gone⟩ =
      some ⟨before++kept (sendAll values) after,gone+lost (sendAll values) after⟩ := by
  induction after generalizing before gone with
  | nil =>
    unfold dispatchSegment
    simp [kept,lost]
  | cons entry after ih =>
    unfold dispatchSegment
    cases hs : (sendAll values entry.2).2 with
    | true =>
      have h:=ih (before++[(entry.1,(sendAll values entry.2).1)]) gone
      simpa [sendSegment_data,kept,lost,hs] using h
    | false =>
      have h:=ih before (gone+{(sendAll values entry.2).1})
      simpa [sendSegment_data,kept,lost,hs,eraseIdx_append_of_length_le,Multiset.add_assoc,
        ← Multiset.cons_coe] using h

/-- The first segment of the messages, and what follows it. -/
theorem exists_segment (messages : List (OutportMessage Msg State)) :
    ∃(values : List Msg) (rest : List (OutportMessage Msg State)),messages=values.map .data++rest ∧
      messages.findIdx (·.isSetSubscriber)=values.length ∧
      (rest=[] ∨ ∃subscriber tail,rest=.setSubscriber subscriber::tail) := by
  induction messages with
  | nil => exact ⟨[],[],rfl,rfl,.inl rfl⟩
  | cons message messages ih =>
    cases message with
    | data value =>
      obtain ⟨values,rest,rfl,hi,hr⟩:=ih
      exact ⟨value::values,rest,rfl,findIdx_cons.trans (congrArg (· + 1) hi),hr⟩
    | setSubscriber subscriber =>
      exact ⟨[],_,rfl,findIdx_cons,.inr ⟨subscriber,_,rfl⟩⟩

variable [DecidableEq Id] (allow : Bool)

theorem foldl_process_data :
    (values.map .data).foldl (process allow) port=serve port (sendAll values) := by
  induction values generalizing port with
  | nil => simp [serve,kept,lost,sendAll]
  | cons value rest ih =>
    rw [map_cons,foldl_cons,ih,process]
    exact serve_serve port fun _ => rfl

theorem dispatchBatch_eq (batch : List (OutportMessage Msg State)) :
    dispatchBatch allow port batch=some (batch.foldl (process allow) port) := by
  induction hn : batch.length using Nat.strong_induction_on generalizing batch port with
  | _ n ih =>
    obtain ⟨values,rest,rfl,hi,hr⟩:=exists_segment batch
    have hserved : (if 0<values.length then
        dispatchSegment ((values.map OutportMessage.data++rest).take values.length) 0 port
        else some port)=some ((values.map .data).foldl (process allow) port) := by
      rw [foldl_process_data]
      have h:=dispatchSegment_data values [] port.subscribers port.gone
      cases values with
      | nil => simp [serve,kept,lost,sendAll]
      | cons value values => simpa [serve] using h
    unfold dispatchBatch
    simp only [hi,hserved]
    rw [foldl_append]
    obtain rfl | ⟨subscriber,tail,rfl⟩:=hr
    · cases values <;> simp
    · have ht : tail.length<n := by simp [← hn]; omega
      rw [if_pos (length_pos_of_ne_nil (by simp))]
      simp [ih _ ht _ tail rfl,drop_append,drop_eq_nil_of_le,process]

end OutputPort
end Ractor
