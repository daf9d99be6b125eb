import Ractor.ActorLifecycle

/-!
# What is seen of an actor over its life

At every point of an actor's life the callbacks that were called, the events that its supervisor has
received and the flags of its lifecycle guard are determined by what the actor does next, up to the
number of messages it has handled. A step takes one such point to another. In the end the guard has
cleaned up once, whatever the way out was.
-/

namespace Ractor
open Lifecycle LifecycleRecord ActorStatus List

def InLoop (callbacks : List Callback) : Prop :=
  ∃handled,(∀c∈handled,c=.handle ∨ c=.handleSupervisorEvt) ∧
    callbacks=.preStart::.postStart::handled

/-- The callbacks come in the order in which the documentation of `Actor` gives them. -/
def IsTrace (callbacks : List Callback) : Prop :=
  ∃handled,(∀c∈handled,c=.handle ∨ c=.handleSupervisorEvt) ∧
    callbacks <+: [.preStart,.postStart]++handled++[.postStop]

theorem InLoop.initial : InLoop [.preStart,.postStart]:=⟨[],by simp⟩

variable {callbacks : List Callback} {phase : LifecyclePhase} {task : Task}

theorem InLoop.append (h : InLoop callbacks) {c : Callback}
    (hc : c=.handle ∨ c=.handleSupervisorEvt) : InLoop (callbacks++[c]) := by
  obtain ⟨handled,hh,rfl⟩:=h
  refine ⟨handled++[c],fun d hd => ?_,rfl⟩
  rcases mem_append.mp hd with hd | hd
  · exact hh d hd
  · exact mem_singleton.mp hd ▸ hc

theorem InLoop.postStop_not_mem (h : InLoop callbacks) : Callback.postStop∉callbacks := by
  obtain ⟨handled,hh,rfl⟩:=h
  intro hmem
  simp only [mem_cons,reduceCtorEq,false_or] at hmem
  rcases hh _ hmem with h | h <;> cases h

theorem InLoop.isTrace (h : InLoop callbacks) : IsTrace callbacks := by
  obtain ⟨handled,hh,rfl⟩:=h
  exact ⟨handled,hh,prefix_append _ _⟩

theorem InLoop.isTrace_postStop (h : InLoop callbacks) : IsTrace (callbacks++[.postStop]) := by
  obtain ⟨handled,hh,rfl⟩:=h
  exact ⟨handled,hh,prefix_rfl⟩

theorem isTrace_nil : IsTrace []:=⟨[],by simp⟩

theorem isTrace_preStart : IsTrace [.preStart]:=⟨[],by simp⟩

theorem IsTrace.count_postStop_le (h : IsTrace callbacks) : callbacks.count .postStop≤1 := by
  obtain ⟨handled,hh,ht⟩:=h
  refine (ht.sublist.count_le _).trans ?_
  have hn : handled.count .postStop=0 := by
    refine count_eq_zero.mpr fun hmem => ?_
    rcases hh _ hmem with h | h <;> cases h
  simp [hn]

/-- The supervisor has received one exit event, and nothing but `ActorStarted` before it. -/
def ExitReported (events : List LifecycleEvent) : Prop :=
  ∃event : LifecycleEvent,event.isExit=true ∧
    (events=[event] ∨ events=[.actorStarted,event])

namespace LifecycleRecord
variable {Evt Msg : Type} (r : LifecycleRecord Evt Msg)

/-- Neither `pre_start` nor the link to the supervisor has failed. -/
def StartupCompleted : Prop:=r.preStarted=true ∧ (r.supervised=true → r.linkAccepted=true)

/-- The processing loop has last found a stop request or the `Drain` marker. -/
def StopTaken : Prop :=
  (∃message,r.lastTaken=.ready (.stop message)) ∨ r.lastTaken=.ready (.message .drain)

structure Fresh : Prop where
  notifyOnCancel : r.notifyOnCancel=false
  armed : r.armed=true
  preStarted : r.preStarted=false
  linked : r.linked=r.linkAccepted
  events : r.events=[]

structure Live : Prop where
  notifyOnCancel : r.notifyOnCancel=true
  armed : r.armed=true
  preStarted : r.preStarted=true
  linkAccepted : r.linkAccepted=r.supervised
  linked : r.linked=r.supervised

/-- What the supervisor has received from an actor in its processing loop. -/
def started : List LifecycleEvent:=if r.supervised then [.actorStarted] else []

/-- An actor on its way out that has not notified its supervisor. -/
structure Leaving : Prop where
  armed : r.armed=true
  linked : r.linked=r.linkAccepted
  supervised : r.linkAccepted=true → r.supervised=true
  startup : r.notifyOnCancel=true ↔ r.StartupCompleted
  events : r.events=[] ∨ r.events=r.started ∧ r.notifyOnCancel=true
  trace : IsTrace r.callbacks
  stop : .postStop∈r.callbacks → r.StopTaken

/-- An actor on its way out that has notified its supervisor if it had to. -/
structure Left : Prop where
  exit : r.StartupCompleted → r.supervised=true → ExitReported r.events
  quiet : ¬(r.StartupCompleted ∧ r.supervised=true) → r.events=[]
  trace : IsTrace r.callbacks
  stop : .postStop∈r.callbacks → r.StopTaken

/-- The event of a cleanup is an exit event, and there is one if startup was completed. -/
def EventFor (event : Option LifecycleEvent) : Prop :=
  event.isSome=r.notifyOnCancel ∧ ∀e∈event,e.isExit=true

def At : LifecyclePhase → Prop
  | .checkStatus | .publishStarting =>
    r.Fresh ∧ r.linkAccepted=false ∧ r.callbacks=[]
  | .link =>
    r.notifyOnCancel=false ∧ r.armed=true ∧ r.supervised=true ∧ r.linkAccepted=false ∧
      r.linked=false ∧ r.events=[] ∧
      match r.kind with
      | .actorRuntime => r.preStarted=true ∧ r.callbacks=[.preStart]
      | .threadLocal => r.preStarted=false ∧ r.callbacks=[]
  | .run .preStart called =>
    r.Fresh ∧ (r.linkAccepted=match r.kind with
      | .actorRuntime => false
      | .threadLocal => r.supervised) ∧
      r.callbacks=if called then [.preStart] else []
  | .run .postStart called =>
    r.Live ∧ r.events=[] ∧
      r.callbacks=if called then [.preStart,.postStart] else [.preStart]
  | .publishRunning | .notifyStarted =>
    r.Live ∧ r.events=[] ∧ r.callbacks=[.preStart,.postStart]
  | .listen | .loopDone (.error _) => r.Live ∧ r.events=r.started ∧ InLoop r.callbacks
  | .run .supervision _ | .run .message _ =>
    r.Live ∧ r.events=r.started ∧ InLoop r.callbacks
  | .loopDone (.ok result) =>
    r.Live ∧ r.events=r.started ∧ InLoop r.callbacks ∧ (result.wasKilled=false → r.StopTaken)
  | .run (.postStop _) called =>
    r.Live ∧ r.events=r.started ∧ r.StopTaken ∧
      ∃callbacks,InLoop callbacks ∧
        r.callbacks=if called then callbacks++[.postStop] else callbacks
  | .exit _ => r.Leaving ∧ r.notifyOnCancel=true
  | .cleanup .publishStopping event | .cleanup .terminate event | .cleanup .notify event =>
    r.Leaving ∧ r.EventFor event
  | .cleanup .unlink _ | .cleanup .publishStopped _ => r.Left
  | .drop => r.Leaving ∨ r.armed=false ∧ r.Left
  | .ended => r.armed=false ∧ r.Left

variable {r}

theorem Fresh.leaving (h : r.Fresh) (hl : r.linkAccepted=true → r.supervised=true)
    (ht : IsTrace r.callbacks) (hst : .postStop∉r.callbacks) : r.Leaving where
  armed:=h.armed
  linked:=h.linked
  supervised:=hl
  startup:=iff_of_false (by simp [h.notifyOnCancel]) fun hs =>
    Bool.false_ne_true (h.preStarted.symm.trans hs.1)
  events:=.inl h.events
  trace:=ht
  stop:=fun hmem => absurd hmem hst

theorem Live.leaving (h : r.Live) (hev : r.events=[] ∨ r.events=r.started)
    (ht : IsTrace r.callbacks) (hst : .postStop∈r.callbacks → r.StopTaken) :
    r.Leaving where
  armed:=h.armed
  linked:=h.linked.trans h.linkAccepted.symm
  supervised:=fun hl => h.linkAccepted ▸ hl
  startup:=iff_of_true h.notifyOnCancel ⟨h.preStarted,fun hs => h.linkAccepted.trans hs⟩
  events:=hev.imp_right fun he => ⟨he,h.notifyOnCancel⟩
  trace:=ht
  stop:=hst

theorem Fresh.leaving_at (h : r.Fresh) {called : Bool} (hli : r.linkAccepted=match r.kind with
      | .actorRuntime => false
      | .threadLocal => r.supervised)
    (hc : r.callbacks=if called then [.preStart] else []) : r.Leaving := by
  refine h.leaving (fun hl => ?_) ?_ ?_
  · cases hk : r.kind with
    | actorRuntime => simp [hli,hk] at hl
    | threadLocal => simpa [hli,hk] using hl
  · cases called <;> simp [hc,isTrace_nil,isTrace_preStart]
  · cases called <;> simp [hc]

theorem At.leaving (h : r.At phase) :
    match phase with
    | .cleanup _ _ | .drop | .ended => True
    | _ => r.Leaving := by
  match phase,h with
  | .checkStatus,⟨hf,hlink,hc⟩ | .publishStarting,⟨hf,hlink,hc⟩ =>
    exact hf.leaving (by simp [hlink]) (hc ▸ isTrace_nil) (by simp [hc])
  | .link,⟨hn,har,hsup,ha,hl,he,hki⟩ =>
    have hc : r.callbacks=[.preStart] ∨ r.callbacks=[] := by
      cases hk : r.kind <;> simp [hk] at hki <;> simp [hki.2]
    refine ⟨har,hl.trans ha.symm,fun _ => hsup,?_,.inl he,?_,?_⟩
    · exact iff_of_false (by simp [hn]) fun hs =>
        Bool.false_ne_true (ha.symm.trans (hs.2 hsup))
    · rcases hc with h | h <;> simp [h,isTrace_nil,isTrace_preStart]
    · rcases hc with h | h <;> simp [h]
  | .run .preStart called,⟨hf,hlink,hc⟩ => exact hf.leaving_at hlink hc
  | .run .postStart called,⟨hli,he,hc⟩ =>
    refine hli.leaving (.inl he) ?_ ?_
    · cases called
      · simp [hc,isTrace_preStart]
      · exact hc ▸ InLoop.initial.isTrace
    · cases called <;> simp [hc]
  | .publishRunning,⟨hli,he,hc⟩ | .notifyStarted,⟨hli,he,hc⟩ =>
    exact hli.leaving (.inl he) (hc ▸ InLoop.initial.isTrace) (by simp [hc])
  | .listen,⟨hli,he,hlo⟩ | .loopDone (.error _),⟨hli,he,hlo⟩
  | .run .supervision _,⟨hli,he,hlo⟩ | .run .message _,⟨hli,he,hlo⟩
  | .loopDone (.ok _),⟨hli,he,hlo,_⟩ =>
    exact hli.leaving (.inr he) hlo.isTrace fun hmem => absurd hmem hlo.postStop_not_mem
  | .run (.postStop _) called,⟨hli,he,hst,callbacks,hlo,hc⟩ =>
    refine hli.leaving (.inr he) ?_ fun _ => hst
    cases called
    · exact hc ▸ hlo.isTrace
    · exact hc ▸ hlo.isTrace_postStop
  | .exit _,h => exact h.1
  | .cleanup _ _,_ => trivial
  | .drop,_ => trivial
  | .ended,_ => trivial

theorem At.leaving_or_left (h : r.At phase) : r.Leaving ∨ r.Left := by
  cases phase
  case cleanup stage event =>
    cases stage
    case unlink | publishStopped => exact .inr h
    all_goals exact .inl h.1
  case drop => exact h.imp_right And.right
  case ended => exact .inr h.2
  all_goals exact .inl (At.leaving h)

theorem At.isTrace (h : r.At phase) :
    IsTrace r.callbacks ∧ (.postStop∈r.callbacks → r.StopTaken) := by
  rcases h.leaving_or_left with h | h <;> exact ⟨h.trace,h.stop⟩

theorem At.events_eq_nil (h : r.At phase) (hnot : ¬ r.StartupCompleted) : r.events=[] := by
  rcases h.leaving_or_left with h | h
  · exact h.events.resolve_right fun he => hnot (h.startup.mp he.2)
  · exact h.quiet fun hb => hnot hb.1

theorem At.events_cases (h : r.At phase) :
    r.events=[] ∨ r.events=[.actorStarted] ∨ ExitReported r.events := by
  rcases h.leaving_or_left with h | h
  · rcases h.events with he | ⟨he,-⟩
    · exact .inl he
    · unfold started at he
      split at he
      · exact .inr (.inl he)
      · exact .inl he
  · by_cases hb : r.StartupCompleted ∧ r.supervised=true
    · exact .inr (.inr (h.exit hb.1 hb.2))
    · exact .inl (h.quiet hb)

theorem Leaving.left_quiet (h : r.Leaving) (hev : r.EventFor none) : r.Left := by
  have hn : r.notifyOnCancel=false:=hev.1.symm
  have he : r.events=[] := by
    rcases h.events with he | ⟨-,hnot⟩
    · exact he
    · exact absurd (hn.symm.trans hnot) Bool.false_ne_true
  refine ⟨fun hs => ?_,fun _ => he,h.trace,h.stop⟩
  exact absurd (hn.symm.trans (h.startup.mpr hs)) Bool.false_ne_true

theorem Fresh.update (h : r.Fresh) (callbacks : List Callback) :
    ({r with callbacks:=callbacks}).Fresh :=
  ⟨h.notifyOnCancel,h.armed,h.preStarted,h.linked,h.events⟩

theorem Live.update (h : r.Live) (callbacks : List Callback) (poll : PortPoll Evt Msg)
    (events : List LifecycleEvent) :
    ({r with callbacks:=callbacks,lastTaken:=poll,events:=events}).Live :=
  ⟨h.notifyOnCancel,h.armed,h.preStarted,h.linkAccepted,h.linked⟩

end LifecycleRecord

namespace Lifecycle
variable {Evt Msg : Type} {s s' : Lifecycle Evt Msg}

def Sound (s : Lifecycle Evt Msg) : Prop:=s.toLifecycleRecord.At s.phase

theorem terminate_record (s : Lifecycle Evt Msg) :
    s.terminate.toLifecycleRecord=s.toLifecycleRecord := by
  unfold terminate
  split <;> rfl

theorem sound_markRunning (hl : ({s.toLifecycleRecord with notifyOnCancel:=true}).Live)
    (he : s.events=[]) (hc : s.callbacks=[.preStart]) : s.markRunning.Sound :=
  ⟨hl,he,hc⟩

theorem sound_fail (h : s.toLifecycleRecord.Leaving) (err : SpawnErr) : (s.fail err).Sound:=.inl h

theorem sound_startingPublished (h : s.toLifecycleRecord.At .publishStarting) :
    s.startingPublished.Sound := by
  obtain ⟨hf,hli,hc⟩:=h
  have hl:=hf.linked.trans hli
  unfold startingPublished
  cases hk : s.kind with
  | actorRuntime => exact ⟨hf,by simp [hli,hk],hc⟩
  | threadLocal =>
    simp only
    split
    next hsup =>
      exact ⟨hf.notifyOnCancel,hf.armed,hsup,hli,hl,hf.events,by simp [hk,hf.preStarted,hc]⟩
    next hsup => exact ⟨hf,by simpa [hli,hk] using hsup,hc⟩

theorem sound_preStartDone (h : s.toLifecycleRecord.At (.run .preStart true)) :
    s.preStartDone.Sound := by
  obtain ⟨hf,hli,hc⟩:=h
  simp only [if_true] at hc
  unfold preStartDone
  cases hk : s.kind with
  | actorRuntime =>
    have ha : s.linkAccepted=false := by simpa [hk] using hli
    have hl:=hf.linked.trans ha
    simp only
    split
    next hsup =>
      exact ⟨hf.notifyOnCancel,hf.armed,hsup,ha,hl,hf.events,by simp [hc]⟩
    next hsup =>
      rw [Bool.not_eq_true] at hsup
      exact sound_markRunning ⟨rfl,hf.armed,rfl,ha.trans hsup.symm,hl.trans hsup.symm⟩ hf.events hc
  | threadLocal =>
    have ha : s.linkAccepted=s.supervised := by simpa [hk] using hli
    exact sound_markRunning ⟨rfl,hf.armed,rfl,ha,hf.linked.trans ha⟩ hf.events hc

theorem sound_link (h : s.toLifecycleRecord.At .link) (accepted : Bool) :
    (s.link accepted).Sound := by
  have hl : s.toLifecycleRecord.Leaving:=h.leaving
  obtain ⟨hn,ha,hsup,hac,hli,he,hki⟩:=h
  unfold link
  cases accepted with
  | false => exact sound_fail hl _
  | true =>
    cases hk : s.kind with
    | actorRuntime =>
      simp only [hk] at hki
      exact sound_markRunning ⟨rfl,ha,hki.1,hsup.symm,hsup.symm⟩ he hki.2
    | threadLocal =>
      simp only [hk] at hki
      exact ⟨⟨hn,ha,hki.1,rfl,he⟩,by simp [hsup],hki.2⟩

theorem sound_complete (h : s.toLifecycleRecord.At (.run task true)) (early : Bool)
    (outcome : Outcome String Unit) : (s.complete early task outcome).Sound := by
  have hl : s.toLifecycleRecord.Leaving:=h.leaving
  have he {reason} (hli : s.Live) : ({s with phase:=.exit reason} : Lifecycle Evt Msg).Sound :=
    ⟨hl,hli.notifyOnCancel⟩
  match task,outcome with
  | .preStart,.ok () => exact sound_preStartDone h
  | .preStart,.err error => exact sound_fail hl _
  | .preStart,.panicked payload =>
    cases early
    · exact sound_fail hl _
    · exact .inl hl
  | .postStart,.ok () => exact h
  | .postStart,.err error => exact he h.1
  | .postStart,.panicked payload | .postStop _,.panicked payload =>
    cases early
    · exact he h.1
    · exact .inl hl
  | .supervision,.ok () | .message,.ok () => exact h
  | .supervision,.err error | .message,.err error => exact h
  | .supervision,.panicked payload | .message,.panicked payload => exact h
  | .postStop reason,.ok () => exact he h.1
  | .postStop _,.err error => exact he h.1

theorem sound_interrupt {called : Bool} (h : s.toLifecycleRecord.At (.run task called)) :
    (s.interrupt task).Sound := by
  have hl : s.toLifecycleRecord.Leaving:=h.leaving
  have hr:=terminate_record s
  match task with
  | .preStart => exact .inl (hr ▸ hl)
  | .postStart | .postStop _ => exact ⟨hr ▸ hl,hr ▸ h.1.notifyOnCancel⟩
  | .supervision | .message =>
    obtain ⟨hli,he,hlo⟩:=h
    exact ⟨hr ▸ hli,hr ▸ he,hr ▸ hlo,nofun⟩

theorem sound_killed (h : s.toLifecycleRecord.At .listen) (reason : Option String) :
    ({s.terminate with phase:=.loopDone (.ok (.signal reason))} : Lifecycle Evt Msg).Sound := by
  obtain ⟨hl,he,hlo⟩:=h
  have hr:=terminate_record s
  exact ⟨hr ▸ hl,hr ▸ he,hr ▸ hlo,nofun⟩

/-- What was taken from the ports is on record when the loop reacts to it. -/
theorem sound_processMessage (h : s.toLifecycleRecord.At .listen) {poll : PortPoll Evt Msg}
    (hp : s.lastTaken=poll) (hs : s.processMessage poll=some s') : s'.Sound := by
  match poll with
  | .pending => cases hs
  | .channelClosed => cases hs; exact sound_killed h _
  | .ready (.signal .kill) => cases hs; exact sound_killed h _
  | .ready (.stop message) => cases hs; exact ⟨h.1,h.2.1,h.2.2,fun _ => .inl ⟨message,hp⟩⟩
  | .ready (.supervision event) => cases hs; exact h
  | .ready (.message (.message message)) => cases hs; exact h
  | .ready (.message .drain) => cases hs; exact ⟨h.1,h.2.1,h.2.2,fun _ => .inr hp⟩

theorem sound_listen (h : s.toLifecycleRecord.At .listen) (hs : s.listen=some s') : s'.Sound := by
  refine sound_processMessage ?_ ?_ hs
  · exact ⟨h.1.update _ _ _,h.2.1,h.2.2⟩
  · rfl

theorem sound_loopDone {result : Except String ActorLoopResult}
    (h : s.toLifecycleRecord.At (.loopDone result)) : (s.loopDone result).Sound := by
  have hl : s.toLifecycleRecord.Leaving:=h.leaving
  match result with
  | .error error => exact ⟨hl,h.1.notifyOnCancel⟩
  | .ok result =>
    obtain ⟨hli,he,hlo,hs⟩:=h
    cases hk : result.wasKilled with
    | false =>
      simp only [loopDone,hk]
      exact ⟨hli,he,hs hk,s.callbacks,hlo,rfl⟩
    | true =>
      simp only [loopDone,hk]
      exact ⟨hl,hli.notifyOnCancel⟩

theorem sound_beginCleanup (h : s.toLifecycleRecord.Leaving) {event : Option LifecycleEvent}
    (he : s.toLifecycleRecord.EventFor event) : (s.beginCleanup event).Sound := by
  unfold beginCleanup
  rw [if_pos h.armed]
  exact ⟨h,he⟩

theorem eventFor_exit (h : s.notifyOnCancel=true) (result : Except ActorErr (Option String)) :
    s.toLifecycleRecord.EventFor (some (exitEvent s.kind result)) := by
  refine ⟨h.symm,fun e he => ?_⟩
  cases he
  match result with
  | .ok _ | .error .cancelled | .error (.failed _) => rfl

theorem eventFor_drop (s : Lifecycle Evt Msg) :
    s.toLifecycleRecord.EventFor (dropEvent s.notifyOnCancel) := by
  cases hn : s.notifyOnCancel with
  | false => exact ⟨hn.symm,nofun⟩
  | true => exact ⟨hn.symm,fun e he => by cases he; rfl⟩

/-- The one place where the supervisor is told of the exit. -/
theorem left_notifySupervisor (h : s.toLifecycleRecord.Leaving) {event : LifecycleEvent}
    (hev : s.toLifecycleRecord.EventFor (some event)) :
    (s.notifySupervisor event).toLifecycleRecord.Left where
  exit := by
    intro hs hsup
    have hl : s.linked=true:=h.linked.trans (hs.2 hsup)
    refine ⟨event,hev.2 event rfl,?_⟩
    rcases h.events with he | ⟨he,-⟩
    · exact .inl (by simp [notifySupervisor,hl,he])
    · have hs' : s.supervised=true:=hsup
      exact .inr (by simp [notifySupervisor,hl,he,started,hs'])
  quiet := by
    intro hnot
    have hs:=h.startup.mp hev.1.symm
    have hsup : s.supervised=false := by
      by_contra hsup
      exact hnot ⟨hs,Bool.eq_true_of_not_eq_false hsup⟩
    have hl : s.linked=false := by
      by_contra hl
      exact Bool.false_ne_true (hsup.symm.trans (h.supervised (h.linked ▸ by simpa using hl)))
    rcases h.events with he | ⟨he,-⟩
    · simp [notifySupervisor,hl,he]
    · simp [notifySupervisor,hl,he,started,hsup]
  trace:=h.trace
  stop:=h.stop

theorem sound_cleanup {stage : CleanupStage} {event : Option LifecycleEvent}
    (h : s.toLifecycleRecord.At (.cleanup stage event)) : (s.cleanup event stage).Sound := by
  match stage,event with
  | .publishStopping,_ => exact h
  | .terminate,_ =>
    have hr:=terminate_record s
    exact ⟨hr ▸ h.1,hr ▸ h.2⟩
  | .notify,some event => exact left_notifySupervisor h.1 h.2
  | .notify,none => exact h.1.left_quiet h.2
  | .unlink,_ => exact ⟨h.exit,h.quiet,h.trace,h.stop⟩
  | .publishStopped,_ => exact .inr ⟨rfl,h.exit,h.quiet,h.trace,h.stop⟩

theorem sound_drop (h : s.toLifecycleRecord.At .drop) :
    (s.beginCleanup (dropEvent s.notifyOnCancel)).Sound := by
  rcases h with hl | ⟨ha,hle⟩
  · exact sound_beginCleanup hl (eventFor_drop s)
  · unfold beginCleanup
    rw [if_neg (by simp [ha])]
    exact ⟨ha,hle⟩

theorem sound_notifyStarted (h : s.toLifecycleRecord.At .notifyStarted) :
    ({s.notifySupervisor .actorStarted with phase:=.listen} : Lifecycle Evt Msg).Sound := by
  obtain ⟨hl,he,hc⟩:=h
  refine ⟨hl.update _ _ _,?_,hc ▸ InLoop.initial⟩
  simp [notifySupervisor,started,hl.linked,he]

theorem Sound.proceed (h : s.Sound) (hs : s.proceed=some s') : s'.Sound := by
  unfold Sound at h
  unfold Lifecycle.proceed at hs
  split at hs
  case h_1 hp =>
    rw [hp] at h
    split at hs <;> cases hs
    · exact sound_fail h.leaving _
    · exact h
  case h_2 hp => cases hs; exact sound_startingPublished (hp ▸ h)
  case h_3 hp =>
    cases hs
    rw [hp] at h
    exact h
  case h_4 hp => cases hs; exact sound_notifyStarted (hp ▸ h)
  case h_5 hp =>
    rw [hp] at h
    exact sound_listen h hs
  case h_6 result hp => cases hs; exact sound_loopDone (hp ▸ h)
  case h_7 result hp =>
    cases hs
    rw [hp] at h
    exact sound_beginCleanup h.1 (eventFor_exit h.2 result)
  case h_8 stage event hp => cases hs; exact sound_cleanup (hp ▸ h)
  case h_9 hp => cases hs; exact sound_drop (hp ▸ h)
  all_goals cases hs

theorem Sound.call (h : s.Sound) (hp : s.phase=.run task false) :
    ({s with callbacks:=s.callbacks++[task.callback],phase:=.run task true} :
      Lifecycle Evt Msg).Sound := by
  unfold Sound at h
  rw [hp] at h
  match task with
  | .preStart =>
    obtain ⟨hf,hli,hc⟩:=h
    exact ⟨hf.update _,hli,congrArg (· ++ _) hc⟩
  | .postStart =>
    obtain ⟨hl,he,hc⟩:=h
    exact ⟨hl.update _ _ _,he,congrArg (· ++ _) hc⟩
  | .supervision => exact ⟨h.1.update _ _ _,h.2.1,h.2.2.append (.inr rfl)⟩
  | .message => exact ⟨h.1.update _ _ _,h.2.1,h.2.2.append (.inl rfl)⟩
  | .postStop reason =>
    obtain ⟨hl,he,hs,callbacks,hlo,hc⟩:=h
    exact ⟨hl.update _ _ _,he,hs,callbacks,hlo,congrArg (· ++ _) hc⟩

theorem Sound.cancel (h : s.Sound) (hs : s.cancel=some s') : s'.Sound := by
  unfold Sound at h
  unfold Lifecycle.cancel at hs
  cases hp : s.phase <;> rw [hp] at h <;> simp only [hp] at hs <;> cases hs
  all_goals exact .inl h.leaving

variable {label : LifecycleStep Evt Msg}

theorem Sound.step (h : s.Sound) (hs : s.Step label s') : s'.Sound := by
  cases label with
  | proceed => exact h.proceed hs
  | link accepted =>
    simp only [Step,step] at hs
    split at hs <;> cases hs
    next hp => exact sound_link (by rw [← hp]; exact h) accepted
  | call =>
    simp only [Step,step] at hs
    split at hs <;> cases hs
    next task hp => exact h.call hp
  | complete outcome early =>
    simp only [Step,step] at hs
    split at hs <;> cases hs
    next task hp => exact sound_complete (by rw [← hp]; exact h) early outcome
    next hp =>
      have h' : s.toLifecycleRecord.At (.run .message false) := by rw [← hp]; exact h
      exact sound_complete (show s.toLifecycleRecord.At (.run .message true) from h') early outcome
  | interrupt =>
    simp only [Step,step] at hs
    split at hs
    next task called hp =>
      cases (Option.ite_none_right_eq_some.mp hs).2
      exact sound_interrupt (show s.toLifecycleRecord.At (.run task called) from hp ▸ h)
    next => cases hs
  | spawnerFailed reason =>
    simp only [Step,step] at hs
    split at hs <;> cases hs
    next hk hp =>
      have h' : s.toLifecycleRecord.At (.run .preStart false) := by rw [← hp]; exact h
      exact sound_fail h'.leaving _
  | cancel => exact h.cancel hs
  | sendSignal | sendStop | sendSupervision | sendMessage | closePorts | drain =>
    cases hs
    exact h
  | remoteSpawnFailed =>
    simp only [Step,step] at hs
    split at hs <;> cases hs
    exact h

/-! ### The status and the cleanup -/

structure Quiet (s s' : Lifecycle Evt Msg) : Prop where
  status : s'.status=s.status
  cleanups : s'.cleanups=s.cleanups
  armed : s'.armed=s.armed

variable (s)

theorem quiet_terminate : s.Quiet s.terminate := by
  unfold terminate
  split <;> exact ⟨rfl,rfl,rfl⟩

theorem quiet_preStartDone : s.Quiet s.preStartDone := by
  unfold preStartDone
  repeat' split
  all_goals exact ⟨rfl,rfl,rfl⟩

theorem quiet_startingPublished : s.Quiet s.startingPublished := by
  unfold startingPublished
  repeat' split
  all_goals exact ⟨rfl,rfl,rfl⟩

theorem quiet_link (accepted : Bool) : s.Quiet (s.link accepted) := by
  unfold link
  repeat' split
  all_goals exact ⟨rfl,rfl,rfl⟩

theorem quiet_complete (early : Bool) (task : Task)
    (outcome : Outcome String Unit) : s.Quiet (s.complete early task outcome) := by
  unfold complete
  split
  case h_1 => exact s.quiet_preStartDone
  all_goals
    try split
    all_goals exact ⟨rfl,rfl,rfl⟩

theorem quiet_interrupt (task : Task) : s.Quiet (s.interrupt task) := by
  obtain ⟨hs,hc,ha⟩:=s.quiet_terminate
  unfold interrupt
  split <;> exact ⟨hs,hc,ha⟩

variable {s} in
theorem quiet_listen (hs : s.listen=some s') : s.Quiet s' := by
  have hq:=quiet_terminate
    {s with ports:=s.ports.listenInPriority.2,lastTaken:=s.ports.listenInPriority.1}
  obtain ⟨hst,hc,ha⟩:=hq
  unfold listen processMessage at hs
  simp only at hs
  split at hs <;> cases hs
  all_goals first | exact ⟨rfl,rfl,rfl⟩ | exact ⟨hst,hc,ha⟩

theorem quiet_loopDone (result : Except String ActorLoopResult) : s.Quiet (s.loopDone result) := by
  unfold loopDone
  repeat' split
  all_goals exact ⟨rfl,rfl,rfl⟩

theorem quiet_beginCleanup (event : Option LifecycleEvent) : s.Quiet (s.beginCleanup event) := by
  unfold beginCleanup
  split <;> exact ⟨rfl,rfl,rfl⟩

/-- The cleanup is counted by the status, and an actor whose guard is disarmed has stopped. -/
structure Kept : Prop where
  cleanups : s.cleanups=if s.status < .stopping then 0 else 1
  stopped : s.armed=false → s.status=.stopped

/-- A step publishes a status, possibly the lowest, and disarms the guard with `Stopped` only. -/
def Publishes (status : ActorStatus) (s' : Lifecycle Evt Msg) : Prop :=
  s'.status=(s.setStatus status).status ∧ s'.cleanups=(s.setStatus status).cleanups ∧
    (s'.armed=s.armed ∨ status=.stopped)

variable {s}

theorem Quiet.publishes (h : s.Quiet s') : s.Publishes .unstarted s' := by
  refine ⟨?_,?_,.inl h.armed⟩
  · rw [h.status]
    exact (max_eq_left (unstarted_le _)).symm
  · rw [h.cleanups]
    have hnot : ¬ stopping ≤ .unstarted := by decide
    simp [setStatus,hnot]

theorem Quiet.publishes_after {status : ActorStatus} (h : (s.setStatus status).Quiet s') :
    s.Publishes status s':=⟨h.status,h.cleanups,.inl h.armed⟩

theorem publishes_setStatus (s : Lifecycle Evt Msg) (status : ActorStatus) :
    s.Publishes status (s.setStatus status):=⟨rfl,rfl,.inl rfl⟩

theorem publishes_cleanup (s : Lifecycle Evt Msg) (event : Option LifecycleEvent)
    (stage : CleanupStage) : ∃status,s.Publishes status (s.cleanup event stage) := by
  cases stage with
  | publishStopping => exact ⟨_,publishes_setStatus s .stopping⟩
  | terminate =>
    obtain ⟨hs,hc,ha⟩:=s.quiet_terminate
    exact ⟨_,Quiet.publishes ⟨hs,hc,ha⟩⟩
  | notify => cases event <;> exact ⟨_,Quiet.publishes ⟨rfl,rfl,rfl⟩⟩
  | unlink => exact ⟨_,Quiet.publishes ⟨rfl,rfl,rfl⟩⟩
  | publishStopped => exact ⟨.stopped,rfl,rfl,.inr rfl⟩

theorem publishes_proceed (hs : s.proceed=some s') : ∃status,s.Publishes status s' := by
  unfold Lifecycle.proceed at hs
  split at hs
  case h_1 =>
    split at hs <;> cases hs
    all_goals exact ⟨_,Quiet.publishes ⟨rfl,rfl,rfl⟩⟩
  case h_2 => cases hs; exact ⟨_,(quiet_startingPublished _).publishes_after⟩
  case h_3 => cases hs; exact ⟨_,publishes_setStatus s .running⟩
  case h_4 => cases hs; exact ⟨_,Quiet.publishes ⟨rfl,rfl,rfl⟩⟩
  case h_5 => exact ⟨_,(quiet_listen hs).publishes⟩
  case h_6 => cases hs; exact ⟨_,(quiet_loopDone _ _).publishes_after⟩
  case h_7 => cases hs; exact ⟨_,(quiet_beginCleanup _ _).publishes⟩
  case h_8 => cases hs; exact publishes_cleanup _ _ _
  case h_9 => cases hs; exact ⟨_,(quiet_beginCleanup _ _).publishes⟩
  all_goals cases hs

theorem Step.publishes (hs : s.Step label s') : ∃status,s.Publishes status s' := by
  cases label with
  | proceed => exact publishes_proceed hs
  | link accepted =>
    simp only [Step,step] at hs
    split at hs <;> cases hs
    exact ⟨_,(quiet_link _ _).publishes⟩
  | call =>
    simp only [Step,step] at hs
    split at hs <;> cases hs
    exact ⟨_,Quiet.publishes ⟨rfl,rfl,rfl⟩⟩
  | complete outcome early =>
    simp only [Step,step] at hs
    split at hs <;> cases hs
    all_goals exact ⟨_,(quiet_complete _ _ _ _).publishes⟩
  | interrupt =>
    simp only [Step,step] at hs
    split at hs
    next =>
      cases (Option.ite_none_right_eq_some.mp hs).2
      exact ⟨_,(quiet_interrupt _ _).publishes⟩
    next => cases hs
  | spawnerFailed reason =>
    simp only [Step,step] at hs
    split at hs <;> cases hs
    exact ⟨_,Quiet.publishes ⟨rfl,rfl,rfl⟩⟩
  | cancel =>
    simp only [Step,step,Lifecycle.cancel] at hs
    split at hs <;> cases hs
    exact ⟨_,Quiet.publishes ⟨rfl,rfl,rfl⟩⟩
  | sendSignal | sendStop | sendSupervision | sendMessage | closePorts =>
    cases hs
    exact ⟨_,Quiet.publishes ⟨rfl,rfl,rfl⟩⟩
  | drain =>
    cases hs
    exact ⟨_,publishes_setStatus s .draining⟩
  | remoteSpawnFailed =>
    simp only [Step,step] at hs
    split at hs <;> cases hs
    exact ⟨_,publishes_setStatus s .stopped⟩

theorem Step.status_le (hs : s.Step label s') : s.status ≤ s'.status := by
  obtain ⟨status,hst,-⟩:=hs.publishes
  rw [hst]
  exact le_max_left _ _

theorem Kept.step (h : s.Kept) (hs : s.Step label s') : s'.Kept := by
  obtain ⟨status,hst,hc,ha⟩:=hs.publishes
  have hmax : s'.status=max s.status status:=hst
  constructor
  · rw [hc,hmax]
    simp only [setStatus,h.cleanups,max_lt_iff]
    by_cases hb : s.status < .stopping <;> by_cases hnew : status < .stopping <;>
      simp [hb,hnew,not_lt.mp,not_le.mpr]
  · intro hd
    rw [hmax]
    rcases ha with hsa | rfl
    · rw [h.stopped (hsa ▸ hd)]
      exact max_eq_left (le_stopped _)
    · exact max_eq_right (le_stopped _)

/-! ### Whole lives -/

def OwnStep (s s' : Lifecycle Evt Msg) : Prop :=
  s.Step .proceed s' ∨ (∃accepted,s.Step (.link accepted) s') ∨ s.Step .call s' ∨
    ∃outcome early,s.Step (.complete outcome early) s'

theorem exists_processMessage (s : Lifecycle Evt Msg) :
    ∀{poll : PortPoll Evt Msg},poll≠.pending→∃s',s.processMessage poll=some s'
  | .pending,h => absurd rfl h
  | .channelClosed,_ | .ready (.signal _),_ | .ready (.stop _),_ | .ready (.supervision _),_
  | .ready (.message .drain),_ | .ready (.message (.message _)),_ => ⟨_,rfl⟩

/-- An actor that has not ended goes on, unless its ports are empty. -/
theorem exists_ownStep (h : s.phase≠.ended)
    (hpo : s.phase=.listen→s.ports.listenInPriority.1≠.pending) :
    ∃s',s.OwnStep s' := by
  cases hp : s.phase with
  | ended => exact absurd hp h
  | listen =>
    obtain ⟨s',hs⟩:=exists_processMessage _ (hpo hp)
    exact ⟨s',.inl (by simp only [Step,step,proceed,hp]; exact hs)⟩
  | link => exact ⟨_,.inr (.inl ⟨true,by simp only [Step,step,hp]; rfl⟩)⟩
  | run task called =>
    cases called with
    | false => exact ⟨_,.inr (.inr (.inl (by simp only [Step,step,hp]; rfl)))⟩
    | true => exact ⟨_,.inr (.inr (.inr ⟨.ok (),false,by simp only [Step,step,hp]; rfl⟩))⟩
  | checkStatus =>
    by_cases hst : s.status≠.unstarted
    · exact ⟨_,.inl (by simp only [Step,step,proceed,hp,if_pos hst]; rfl)⟩
    · exact ⟨_,.inl (by simp only [Step,step,proceed,hp,if_neg hst]; rfl)⟩
  | publishStarting | publishRunning | notifyStarted | loopDone | exit | cleanup | drop =>
    exact ⟨_,.inl (by simp only [Step,step,proceed,hp]; rfl)⟩

/-- The life of an actor, up to any point and whatever happens. -/
theorem lifecycle_trace {kind : RuntimeKind} {supervised : Bool}
    (h : Reachable (Initial kind supervised) Step s) :
    IsTrace s.callbacks ∧ (.postStop∈s.callbacks → s.callbacks.count .postStop=1 ∧ s.StopTaken) ∧
      (∀label s',s.Step label s' → s.status ≤ s'.status) ∧
      s.cleanups≤1 ∧
      (¬ s.StartupCompleted → s.events=[]) ∧
      (s.events=[] ∨ s.events=[.actorStarted] ∨ ExitReported s.events) ∧
      (s.phase=.ended → s.status=.stopped ∧ s.cleanups=1 ∧
        (s.StartupCompleted → s.supervised=true → ExitReported s.events)) ∧
      (s.phase≠.ended → (s.phase=.listen → s.ports.listenInPriority.1≠.pending) →
        ∃s',s.OwnStep s') := by
  have hsound : s.Sound := by
    refine h.invariant (P:=Sound) ?_ fun _ _ _ hs hstep => hs.step hstep
    rintro t rfl
    exact ⟨⟨rfl,rfl,rfl,rfl,rfl⟩,rfl,rfl⟩
  have hkept : s.Kept := by
    refine h.invariant (P:=Kept) ?_ fun _ _ _ hs hstep => hs.step hstep
    rintro t rfl
    exact ⟨rfl,nofun⟩
  obtain ⟨htrace,hstop⟩:=At.isTrace hsound
  refine ⟨htrace,fun hmem => ⟨?_,hstop hmem⟩,fun _ _ hs => hs.status_le,?_,
    At.events_eq_nil hsound,At.events_cases hsound,fun hended => ?_,
    exists_ownStep⟩
  · exact le_antisymm htrace.count_postStop_le (one_le_count_iff.mpr hmem)
  · rw [hkept.cleanups]
    split <;> decide
  · unfold Sound at hsound
    rw [hended] at hsound
    have hstatus:=hkept.stopped hsound.1
    exact ⟨hstatus,by rw [hkept.cleanups,hstatus]; rfl,hsound.2.exit⟩

/-- A supervised actor that handles a message and is stopped. -/
theorem lifecycle_trace_stopped :
    ∃s : Lifecycle ℕ ℕ,Reachable (Initial .actorRuntime true) Step s ∧ s.phase=.ended ∧
      s.callbacks=[.preStart,.postStart,.handle,.postStop] ∧
      s.events=[.actorStarted,.actorTerminated true (some "done")] ∧
      s.status=.stopped ∧ s.cleanups=1 ∧ ExitReported s.events := by
  have hrun : ∃s : Lifecycle ℕ ℕ,execute step {kind:=.actorRuntime,supervised:=true}
        ([.proceed,.proceed,.call,.complete (.ok ()) false,.link true,.call,
          .complete (.ok ()) false,.proceed,.proceed,.sendMessage (.message 7),.proceed,.call,
          .complete (.ok ()) false,.sendStop (.reason "done"),.proceed,.proceed,.call,
          .complete (.ok ()) false]++replicate 7 .proceed)=some s ∧
      s.phase=.ended ∧ s.callbacks=[.preStart,.postStart,.handle,.postStop] ∧
      s.events=[.actorStarted,.actorTerminated true (some "done")] ∧
      s.preStarted=true ∧ s.linkAccepted=true ∧ s.supervised=true :=
    ⟨_,rfl,rfl,rfl,rfl,rfl,rfl,rfl⟩
  obtain ⟨s,hs,hended,hcallbacks,hevents,hstarted,hlinked,hsup⟩:=hrun
  have hreach : Reachable (Initial .actorRuntime true) Step s :=
    Reachable.execute (fun _ _ _ => id) _ (.start rfl) hs
  obtain ⟨-,-,-,-,-,-,hend,-⟩:=lifecycle_trace hreach
  obtain ⟨hstatus,hcleanups,hexit⟩:=hend hended
  exact ⟨s,hreach,hended,hcallbacks,hevents,hstatus,hcleanups,hexit ⟨hstarted,fun _ => hlinked⟩ hsup⟩

end Lifecycle
end Ractor
