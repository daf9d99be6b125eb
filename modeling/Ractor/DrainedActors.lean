import Ractor.ActorRuntime
import Ractor.DrainMarkerProtocol

/-!
# A drained actor handles what it was sent

`start` reads the status twice: it refuses to start an actor that is not `Unstarted`, and linking
refuses one that is `Draining`. As long as no `drain` publishes `Draining` before `start` has passed
these checks, the actor handles every message whose send has returned `Ok`, in the order of the
channel, and then stops with the reason `Drained`. A `drain` that publishes earlier keeps the actor
from starting at all, and its messages are lost.
-/

namespace Ractor
open List MuxedMessage Mailbox

variable {Thread Msg : Type}

def Phase.inHand : Phase Thread Msg → List (MuxedMessage (Envelope Thread Msg))
  | .handle e => [.message e]
  | .publishStopping _ | .postStop _ | .dropPorts _ | .cleanup _ | .exited _ => [.drain]
  | _ => []

def Phase.reason : Phase Thread Msg → Option (Option String)
  | .publishStopping reason | .postStop reason | .dropPorts reason | .cleanup reason
  | .exited reason => some reason
  | _ => none

def Phase.hasPorts : Phase Thread Msg → Bool
  | .cleanup _ | .exited _ | .failing _ _ => false
  | _ => true

/-- How far a phase is from the end, apart from the messages in between. -/
def Phase.rank : Phase Thread Msg → ℕ
  | .checkStatus => 11
  | .publishStarting => 10
  | .preStart => 9
  | .link => 8
  | .postStart => 7
  | .publishRunning => 6
  | .handle _ => 6
  | .listen => 5
  | .publishStopping _ => 4
  | .postStop _ => 3
  | .dropPorts _ => 2
  | .cleanup _ => 1
  | .exited _ | .failing _ _ => 0

def Call.publishes : Call Thread Msg → Bool
  | .publishDraining => true
  | _ => false

def Answer.accepted : Answer Thread Msg → Option (Envelope Thread Msg)
  | .send e (.ok ()) => some e
  | _ => none

namespace Mailbox
variable {s s' : Mailbox Thread Msg}

def accepted (s : Mailbox Thread Msg) : List (Envelope Thread Msg) :=
  s.returned.filterMap Answer.accepted

theorem Accounted.accepted_subset (h : s.Accounted) : s.accepted ⊆ s.messages := by
  intro e he
  obtain ⟨reply,hr,hacc⟩:=mem_filterMap.mp he
  unfold Answer.accepted at hacc
  split at hacc
  next e' =>
    cases hacc
    exact (h.returned_iff hr).mp rfl
  next => cases hacc

variable [DecidableEq Thread]

/-- What a call event may do to the fields that the actor reads. -/
theorem call_frame {event : CallEvent Thread Msg} (h : s.call event=some s') :
    s.pushed <+: s'.pushed ∧ s'.receiverAlive=s.receiverAlive ∧ (s'.status=s.status ∨
        ∃i fails,event=.resume i fails ∧ s.calls i=some .publishDraining ∧
          s'.status=max s.status .draining) := by
  refine call_elim (P:=fun s' => s.pushed <+: s'.pushed ∧
    s'.receiverAlive=s.receiverAlive ∧ (s'.status=s.status ∨
      ∃i fails,event=.resume i fails ∧ s.calls i=some .publishDraining ∧
        s'.status=max s.status .draining)) h ?_ ?_ ?_
  · exact fun _ _ _ _ => ⟨prefix_rfl,rfl,.inl rfl⟩
  · exact fun _ _ => ⟨prefix_rfl,rfl,.inl rfl⟩
  · intro i fails call next he hi hr
    cases hr with
    | pushed => exact ⟨prefix_append _ _,rfl,.inl rfl⟩
    | drainingPublished => exact ⟨prefix_rfl,rfl,.inr ⟨i,fails,he,hi,rfl⟩⟩
    | noMarker sender => cases sender <;> exact ⟨prefix_rfl,rfl,.inl rfl⟩
    | markerPushed sender =>
      rw [push_eq]
      cases sender <;> exact ⟨prefix_append _ _,rfl,.inl rfl⟩
    | _ => exact ⟨prefix_rfl,rfl,.inl rfl⟩

end Mailbox

variable {phase : Phase Thread Msg} {spawn : Spawn}

namespace Runtime

/-- Whether `start` still depends on the status: it has not checked it, or it has not linked the
actor to its supervisor. -/
def starting (s : Runtime Thread Msg) : Bool :=
  match s.phase with
  | .checkStatus => true
  | .publishStarting | .preStart | .link => s.spawn.linked
  | _ => false

/-- No `drain` publishes `Draining` while `start` depends on the status. -/
def drainsLate (s : Runtime Thread Msg) : RuntimeEvent Thread Msg → Bool
  | .call (.resume i _) => !(s.starting && (s.mailbox.calls i).any Call.publishes)
  | _ => true

structure Orderly (s : Runtime Thread Msg) : Prop where
  unstarted : s.phase=.checkStatus → s.mailbox.status=.unstarted
  admits : s.starting=true → s.mailbox.status < .draining
  started : ∀err rest,s.phase≠.failing err rest
  alive : s.phase.hasPorts=true → s.mailbox.receiverAlive=true
  taken_le : s.taken ≤ s.mailbox.pushed.length
  taken : s.handled.map .message++s.phase.inHand=s.mailbox.pushed.take s.taken
  drained : ∀reason,s.phase.reason=some reason → reason=some "Drained"

variable {s s' : Runtime Thread Msg}

/-! ### The actor gets to the end -/

def stepsLeft (s : Runtime Thread Msg) : ℕ :=
  2*(s.mailbox.pushed.length - s.taken)+s.phase.rank

theorem Proceeded.pushed (h : s.Proceeded s') : s'.mailbox.pushed=s.mailbox.pushed := by
  cases h <;> rfl

theorem Proceeded.accepted (h : s.Proceeded s') : s'.mailbox.accepted=s.mailbox.accepted := by
  cases h <;> rfl

theorem Proceeded.stepsLeft_lt (h : s.Proceeded s') (hf : ∀err rest,s'.phase≠.failing err rest) :
    s'.stepsLeft<s.stepsLeft := by
  have hp:=h.pushed
  unfold stepsLeft
  rw [hp]
  cases h with
  | checkFailed | linkFailed | portsTornDown | lifecycleTornDown => exact absurd rfl (hf _ _)
  | messageTaken e hq hm =>
    have hlt : s.taken<s.mailbox.pushed.length:=(List.getElem?_eq_some_iff.mp hm).1
    rw [hq]
    simp only [Phase.rank]
    omega
  | markerTaken hq hm
  | checkPassed hq | startingPublished hq | preStarted hq | linked hq | postStarted hq
  | runningPublished hq | messageHandled e hq | stoppingPublished reason hq | postStopped reason hq
  | portsDropped reason hq | cleanedUp reason hq =>
    
    rw [hq]
    simp only [Phase.rank]
    omega

section
variable (h : s.Orderly)
include h

/-- A step that takes nothing from the channel and handles nothing. -/
theorem Orderly.advance (hq : s.phase=phase) (hc : s'.phase≠.checkStatus)
    (hs : s'.starting=true→s'.mailbox.status < .draining)
    (hf : ∀err rest,s'.phase≠.failing err rest) (ha : s'.phase.hasPorts=true →
      phase.hasPorts=true ∧ s'.mailbox.receiverAlive=s.mailbox.receiverAlive)
    (hp : s'.mailbox.pushed=s.mailbox.pushed) (ht : s'.taken=s.taken)
    (hh : s'.handled=s.handled) (hi : s'.phase.inHand=phase.inHand)
    (hr : s'.phase.reason=phase.reason) : s'.Orderly := by
  rw [← hq] at ha hi hr
  refine ⟨fun he => absurd he hc,hs,hf,fun hpo => ?_,?_,?_,?_⟩
  · obtain ⟨hpo,he⟩:=ha hpo
    rw [he]
    exact h.alive hpo
  · rw [ht,hp]
    exact h.taken_le
  · rw [hh,hi,hp,ht]
    exact h.taken
  · rw [hr]
    exact h.drained

theorem Orderly.take (hl : s.phase=.listen)
    {m : MuxedMessage (Envelope Thread Msg)} (hm : s.mailbox.pushed[s.taken]?=some m)
    (hi : phase.inHand=[m]) (hp : phase.hasPorts=true)
    (hr : ∀reason,phase.reason=some reason → reason=some "Drained")
    (hs : ∀spawn mailbox taken handled,starting ⟨spawn,mailbox,phase,taken,handled⟩=false) :
    Orderly {s with phase:=phase,taken:=s.taken+1} := by
  have hlt : s.taken<s.mailbox.pushed.length:=(List.getElem?_eq_some_iff.mp hm).1
  refine ⟨?_,?_,?_,fun _ => h.alive (by rw [hl]; rfl),hlt,?_,hr⟩
  · rintro rfl
    cases hi
  · exact fun hst => nomatch hst.symm.trans (hs _ _ _ _)
  · rintro err rest rfl
    cases hi
  · have ht:=h.taken
    rw [hl] at ht
    show s.handled.map .message++phase.inHand=_
    rw [hi,take_add_one,hm,← ht]
    simp [Phase.inHand]

theorem Orderly.lt_draining (hq : s.phase=phase)
    (hs : starting {s with phase:=phase}=true) : s.mailbox.status < .draining := by
  subst hq
  exact h.admits hs

theorem Orderly.proceeded (hp : s.Proceeded s') : s'.Orderly := by
  cases hp with
  | checkFailed hq hs => exact absurd (h.unstarted hq) hs
  | checkPassed hq hs =>
    exact h.advance hq nofun (fun _ => by rw [hs]; decide) nofun (fun _ => ⟨rfl,rfl⟩) rfl rfl rfl
      rfl rfl
  | startingPublished hq =>
    exact h.advance hq nofun (fun hs => max_lt (h.lt_draining hq hs) (by decide)) nofun
      (fun _ => ⟨rfl,rfl⟩) rfl rfl rfl rfl rfl
  | preStarted hq =>
    exact h.advance hq nofun (fun hs => h.lt_draining hq hs) nofun (fun _ => ⟨rfl,rfl⟩) rfl rfl rfl
      rfl rfl
  | linkFailed hq hl hs => exact absurd (h.lt_draining hq hl) (not_lt_of_ge hs)
  | linked hq | postStarted hq =>
    exact h.advance hq nofun nofun nofun (fun _ => ⟨rfl,rfl⟩) rfl rfl rfl rfl rfl
  | runningPublished hq =>
    exact h.advance hq nofun nofun nofun (fun _ => ⟨rfl,rfl⟩) rfl rfl rfl rfl rfl
  | messageTaken e hq hm => exact h.take hq hm rfl rfl nofun fun _ _ _ _ => rfl
  | markerTaken hq hm => exact h.take hq hm rfl rfl (by rintro _ ⟨⟩; rfl) fun _ _ _ _ => rfl
  | messageHandled e hq =>
    refine ⟨nofun,nofun,nofun,fun _ => h.alive (by rw [hq]; rfl),h.taken_le,?_,nofun⟩
    have ht:=h.taken
    rw [hq] at ht
    show (s.handled++[e]).map message++[]=_
    rw [append_nil,map_append]
    exact ht
  | stoppingPublished reason hq | postStopped reason hq =>
    exact h.advance hq nofun nofun nofun (fun _ => ⟨rfl,rfl⟩) rfl rfl rfl rfl rfl
  | portsDropped reason hq | cleanedUp reason hq =>
    exact h.advance hq nofun nofun nofun nofun rfl rfl rfl rfl rfl
  | portsTornDown err rest hq | lifecycleTornDown err rest hq => exact absurd hq (h.started _ _)

/-! ### When the loop has ended -/

theorem Orderly.handled_prefix : s.handled.map .message <+: s.mailbox.pushed := by
  have hp : s.handled.map .message <+: s.mailbox.pushed.take s.taken := by
    rw [← h.taken]
    exact prefix_append _ _
  exact hp.trans (List.take_prefix _ _)

theorem Orderly.handled_sublist : s.handled.Sublist s.mailbox.messages := by
  have hm : (s.handled.map message).filterMap message?=s.handled := by
    rw [filterMap_map]
    exact filterMap_some
  have hs:=h.handled_prefix.sublist.filterMap message?
  rwa [hm] at hs

/-- After its processing loop an actor has handled every message of the channel. -/
theorem Orderly.pushed_eq [Fintype Thread] {closed sent : Bool}
    (hp : s.mailbox.Protocol closed sent) {reason : Option String}
    (hr : s.phase.reason=some reason) : s.mailbox.pushed=s.handled.map .message++[.drain] := by
  have hi : s.phase.inHand=[.drain] := by
    cases hq : s.phase <;> rw [hq] at hr <;> first | rfl | cases hr
  have ht:=h.taken
  rw [hi] at ht
  have hs:=take_append_drop s.taken s.mailbox.pushed
  rw [← ht,append_assoc,singleton_append] at hs
  rw [← hs,hp.eq_nil_of_drain hs.symm]

/-- An actor that has started gives up its ports after its processing loop only. -/
theorem Orderly.exists_reason (hp : s.phase.hasPorts=false) :
    ∃reason,s.phase.reason=some reason := by
  cases hq : s.phase with
  | cleanup reason | exited reason => exact ⟨reason,rfl⟩
  | failing err rest => exact absurd hq (h.started err rest)
  | _ =>
    rw [hq] at hp
    cases hp

theorem Orderly.accepted_subset [Fintype Thread] {closed sent : Bool}
    (hp : s.mailbox.Protocol closed sent) (ha : s.mailbox.Accounted) {reason : Option String}
    (hr : s.phase.reason=some reason) : s.mailbox.accepted ⊆ s.handled := by
  intro e he
  have hm:=mem_messages.mp (ha.accepted_subset he)
  rw [h.pushed_eq hp hr,mem_append,mem_singleton] at hm
  rcases hm with hm | hm
  · simpa using hm
  · cases hm

/-- An actor whose channel has the marker is not stuck before the end. -/
theorem Orderly.exists_proceed (hd : .drain∈s.mailbox.pushed)
    (he : ∀reason,s.phase≠.exited reason) : ∃s',s.proceed=some s' := by
  unfold proceed
  split
  case h_1 => split <;> exact ⟨_,rfl⟩
  case h_4 => split <;> exact ⟨_,rfl⟩
  case h_7 hq =>
    -- what has been taken so far are messages, so the marker is still to come
    have hlt : s.taken<s.mailbox.pushed.length := by
      by_contra hge
      have ht:=h.taken
      rw [hq,take_of_length_le (by omega)] at ht
      rw [← ht] at hd
      simp [Phase.inHand] at hd
    rw [List.getElem?_eq_getElem hlt]
    split
    next hn => cases hn
    next => exact ⟨_,rfl⟩
    next => exact ⟨_,rfl⟩
  case h_13 reason hq => exact absurd hq (he reason)
  case h_14 err hq => exact absurd hq (h.started _ _)
  all_goals exact ⟨_,rfl⟩

end

/-! ### Runs -/

variable [DecidableEq Thread]

theorem Orderly.call (h : s.Orderly) {event : CallEvent Thread Msg}
    {mailbox : Mailbox Thread Msg} (late : s.drainsLate (.call event)=true)
    (hm : s.mailbox.call event=some mailbox) : Orderly {s with mailbox:=mailbox} := by
  obtain ⟨hp,ha,hst⟩:=call_frame hm
  have status (hs : s.starting=true) : mailbox.status=s.mailbox.status := by
    rcases hst with hst | ⟨i,fails,rfl,hi,-⟩
    · exact hst
    · simp [drainsLate,hs,hi,Call.publishes] at late
  refine ⟨fun hc => ?_,fun hs => ?_,h.started,fun hl => ha.trans (h.alive hl),
    h.taken_le.trans hp.length_le,?_,h.drained⟩
  · have hs : s.starting=true := by
      unfold starting
      rw [show s.phase=.checkStatus from hc]
    exact (status hs).trans (h.unstarted hc)
  · exact (status hs).trans_lt (h.admits hs)
  · obtain ⟨more,hmo⟩:=hp
    show _=mailbox.pushed.take s.taken
    rw [← hmo,take_append_of_le_length h.taken_le]
    exact h.taken

theorem Orderly.step (h : s.Orderly) {event : RuntimeEvent Thread Msg}
    (hs : guarded (fun s event => s.drainsLate event=true) Step s event s') : s'.Orderly := by
  refine hs.2.elim ?_ h.proceeded
  rintro callEvent mailbox rfl hm
  exact h.call hs.1 hm

/-- The states of the runs in which every `drain` publishes late enough. -/
def ReachedLate (spawn : Spawn) (s : Runtime Thread Msg) : Prop :=
  Reachable (Initial spawn) (guarded (fun s event => s.drainsLate event=true) Step) s

theorem ReachedLate.orderly (h : ReachedLate spawn s) : s.Orderly := by
  refine h.invariant (P:=Orderly) ?_ fun _ _ _ hp hs => hp.step hs
  rintro _ rfl
  exact ⟨fun _ => rfl,fun _ => by show ActorStatus.unstarted<_; decide,nofun,fun _ => rfl,
    Nat.le_refl _,rfl,nofun⟩

theorem ReachedLate.mailbox (h : ReachedLate spawn s) :
    Reachable Mailbox.Initial Mailbox.Step s.mailbox :=
  mailbox_reachable (h.mono (fun _ hs => hs) fun _ _ _ hs => hs.2)

/-- With the marker in its channel the actor runs to its end by itself. -/
theorem ReachedLate.exits (h : ReachedLate spawn s) (hd : .drain∈s.mailbox.pushed) :
    ∃s',Relation.ReflTransGen (fun s s' => s.proceed=some s') s s' ∧ ReachedLate spawn s' ∧
      s'.phase=.exited (some "Drained") ∧ s'.mailbox.accepted=s.mailbox.accepted := by
  generalize hn : s.stepsLeft=n
  induction n using Nat.strong_induction_on generalizing s with
  | _ n ih =>
    by_cases he : ∃reason,s.phase=.exited reason
    · obtain ⟨reason,hq⟩:=he
      obtain rfl:=h.orderly.drained reason (by rw [hq]; rfl)
      exact ⟨s,.refl,h,hq,rfl⟩
    · obtain ⟨t,ht⟩:=h.orderly.exists_proceed hd fun reason hq => he ⟨reason,hq⟩
      have hr : ReachedLate spawn t:=.next h (show guarded _ Step s .proceed t from ⟨rfl,ht⟩)
      have hp:=proceed_proceeded ht
      obtain ⟨s',hs',hr',hq,ha⟩:=ih _ (hn ▸ hp.stepsLeft_lt hr.orderly.started) hr
        (by rw [hp.pushed]; exact hd) rfl
      exact ⟨s',.head ht hs',hr',hq,ha.trans hp.accepted⟩

/-- Where no `drain` publishes `Draining` before `start` has passed its checks of the status, the
actor starts and handles the messages in the order they were pushed, none of them twice; when its
loop has ended, the reason is `Drained` and every message whose send has returned `Ok` has been
handled; and once `drain` has been called and the calls have ended, the actor gets there by
itself. -/
theorem drained_actor_handles_accepted [Fintype Thread] (hcard : Fintype.card Thread<2^62)
    {spawn : Spawn} (h : ReachedLate spawn s) :
    (∀err rest,s.phase≠.failing err rest) ∧
      s.handled.map .message <+: s.mailbox.pushed ∧ s.handled.Nodup ∧
      (∀reason,s.phase.reason=some reason →
        reason=some "Drained" ∧ s.mailbox.accepted ⊆ s.handled) ∧
      (s.mailbox.drainCalled=true → (∀i,s.mailbox.calls i=none) → .drain∈s.mailbox.pushed) ∧
      (.drain∈s.mailbox.pushed → ∃s',Relation.ReflTransGen (fun s s' => s.proceed=some s') s s' ∧
        s'.phase=.exited (some "Drained") ∧ s.mailbox.accepted ⊆ s'.handled) := by
  have ho:=h.orderly
  have ha:=accounted_of_reachable h.mailbox
  obtain ⟨closed,sent,hp⟩:=protocol_of_reachable hcard h.mailbox
  refine ⟨ho.started,ho.handled_prefix,ha.nodup.sublist ho.handled_sublist,
    fun reason hr => ⟨ho.drained reason hr,ho.accepted_subset hp ha hr⟩,?_,?_⟩
  · intro hcalled hidle
    cases hports : s.phase.hasPorts with
    | true =>
      have hone:=hp.countP_isDrain (ho.alive hports) hidle hcalled
      obtain ⟨m,hm,hd⟩:=countP_pos_iff.mp (hone ▸ Nat.one_pos)
      cases m with
      | drain => exact hm
      | message e => cases hd
    | false =>
      obtain ⟨reason,hr⟩:=ho.exists_reason hports
      rw [ho.pushed_eq hp hr]
      exact mem_append_right _ mem_cons_self
  · intro hd
    obtain ⟨s',hs',hr',hq,hacc⟩:=h.exits hd
    obtain ⟨closed',sent',hp'⟩:=protocol_of_reachable hcard hr'.mailbox
    refine ⟨s',hs',hq,?_⟩
    rw [← hacc]
    exact hr'.orderly.accepted_subset hp' (accounted_of_reachable hr'.mailbox) (by rw [hq]; rfl)

/-! ### Concrete runs -/

theorem exists_reachable (spawn : Spawn) (events : List (RuntimeEvent Thread Msg))
    (test : Runtime Thread Msg→Bool)
    (h : (execute step {spawn:=spawn} events).any test=true) :
    ∃s : Runtime Thread Msg,Reachable (Initial spawn) Step s ∧ test s=true :=
  exists_of_execute (fun _ _ _ hs => hs) (fun _ hs => (Option.some.inj hs).symm) events h

/-- A test on the last state of a replay in which every `drain` publishes late enough. -/
theorem exists_reachedLate (spawn : Spawn) (events : List (RuntimeEvent Thread Msg))
    (test : Runtime Thread Msg→Bool)
    (h : (execute (fun s event => if s.drainsLate event=true then s.step event else none)
      {spawn:=spawn} events).any test=true) :
    ∃s : Runtime Thread Msg,ReachedLate spawn s ∧ test s=true := by
  obtain ⟨s,hs,ht⟩:=(Option.any_eq_true _ _).mp h
  exact ⟨s,Reachable.guarded_execute (fun _ _ _ hs => hs) events (.start rfl) hs,ht⟩

def sendEvents (i : Thread) (message : Msg) : List (RuntimeEvent Thread Msg) :=
  .call (.send i .unchecked message)::replicate 6 (.call (.resume i false))

def drainEvents (i : Thread) : List (RuntimeEvent Thread Msg) :=
  .call (.drain i)::replicate 5 (.call (.resume i false))

/-- A message is sent before `start` and the actor is drained while it runs `post_start`. -/
theorem drained_actor_handles_accepted_replayed :
    ∃s : Runtime Bool ℕ,ReachedLate ⟨true,true,false⟩ s ∧
      s.phase=.postStop (some "Drained") ∧ s.mailbox.accepted=[⟨false,0,7⟩] ∧
      s.mailbox.accepted ⊆ s.handled := by
  obtain ⟨s,hs,ht⟩:=exists_reachedLate ⟨true,true,false⟩
    (sendEvents false 7++replicate 4 .proceed++drainEvents true++replicate 6 .proceed)
    (fun s : Runtime Bool ℕ => decide (s.phase=.postStop (some "Drained")) &&
      decide (s.mailbox.accepted=[⟨false,0,7⟩]))
    (by decide +kernel)
  rw [Bool.and_eq_true_iff,decide_eq_true_eq,decide_eq_true_eq] at ht
  obtain ⟨hq,ha⟩:=ht
  have hall:=drained_actor_handles_accepted (by decide) hs
  exact ⟨s,hs,hq,ha,(hall.2.2.2.1 _ (by rw [hq]; rfl)).2⟩

/-- A `drain` that overtakes `start` keeps the actor from starting: an actor from `spawn_instant`
fails its check of the status, and one from `spawn_linked` that is drained during `pre_start` is
told that its supervisor is shutting down. Either way the message that was accepted is lost. -/
theorem early_drain_loses_message :
    (∃s : Runtime Bool ℕ,Reachable (Initial ⟨false,true,false⟩) Step s ∧
      s.mailbox.accepted=[⟨false,0,7⟩] ∧ s.phase=.failing .actorAlreadyStarted [] ∧
      s.handled=[] ∧ s.mailbox.receiverAlive=false) ∧
    ∃s : Runtime Bool ℕ,Reachable (Initial ⟨true,false,false⟩) Step s ∧
      s.mailbox.accepted=[⟨false,0,7⟩] ∧
      s.phase=.failing (.startupFailed "Supervisor is shutting down") [] ∧
      s.handled=[] ∧ s.mailbox.receiverAlive=false := by
  constructor
  · obtain ⟨s,hs,ht⟩:=exists_reachable ⟨false,true,false⟩
      (sendEvents false 7++drainEvents true++replicate 3 .proceed)
      (fun s : Runtime Bool ℕ => decide (s.mailbox.accepted=[⟨false,0,7⟩] ∧
        s.phase=.failing .actorAlreadyStarted [] ∧ s.handled=[] ∧
        s.mailbox.receiverAlive=false))
      (by decide +kernel)
    exact ⟨s,hs,of_decide_eq_true ht⟩
  · obtain ⟨s,hs,ht⟩:=exists_reachable ⟨true,false,false⟩
      (replicate 2 .proceed++sendEvents false 7++drainEvents true++replicate 4 .proceed)
      (fun s : Runtime Bool ℕ => decide (s.mailbox.accepted=[⟨false,0,7⟩] ∧
        s.phase=.failing (.startupFailed "Supervisor is shutting down") [] ∧ s.handled=[] ∧
        s.mailbox.receiverAlive=false))
      (by decide +kernel)
    exact ⟨s,hs,of_decide_eq_true ht⟩

end Runtime
end Ractor
