import Ractor.FactoryStaff

/-!
# A factory together with its worker actors

The system adds to a factory what its worker actors do on their own. An actor works through the
jobs delivered to it and sends `Finished(wid, key)` for each; it may terminate at any time, which
the factory learns from an exit event. Messages and exit events in flight are handled one at a
time, in any order, so that a supervision event may overtake a `Finished` message. While the
factory handles something, further actors may terminate: a cast is delivered only to an actor
that was open, and bounces only off one that has terminated by then.
-/

namespace Ractor.Factory
open Effect
open FactoryState List Option

variable {Key Msg R Q : Type}

/-- A `Finished(wid, key)` message on its way to the factory. The factory only sees the worker
id and the key of the job; the rest is ghost. -/
structure FinishedReport (Key Msg : Type) where
  wid : WorkerId
  sender : ActorId
  job : Job Key Msg

structure System (Key Msg R Q : Type) where
  factory : FactoryState Key Msg R Q
  /-- How many of the jobs delivered to it an actor has finished. -/
  done : ActorId → ℕ:=fun _ => 0
  /-- The worker actors that have terminated. -/
  closed : List ActorId:=[]
  /-- The `Finished` messages in flight. -/
  reports : List (FinishedReport Key Msg):=[]
  /-- The exit events in flight. -/
  exits : List ActorId:=[]

/-- What the factory takes up next: a message that is not a `Finished`, one of the `Finished`
messages in flight, or one of the exit events in flight. -/
inductive SystemInput (Key Msg : Type) where
  | request (message : FactoryMessage Key Msg)
  | report (index : ℕ)
  | exit (index : ℕ) (failed : Bool)

/-- The factory handles an input while the actors in `closing` terminate, a worker actor
finishes its oldest job, or it terminates. -/
inductive SystemEvent (Key Msg : Type) where
  | handle (input : SystemInput Key Msg) (oracle : Oracle) (closing : List ActorId)
  | finish (actor : ActorId) (wid : WorkerId)
  | crash (actor : ActorId)

variable {sys : System Key Msg R Q} {s : FactoryState Key Msg R Q} {args : FactoryArguments R Q}

namespace System

def mailbox (sys : System Key Msg R Q) (actor : ActorId) : List (Job Key Msg) :=
  (deliveries actor sys.factory.world.log).drop (sys.done actor)

def reported (sys : System Key Msg R Q) (actor : ActorId) : List (Job Key Msg) :=
  (sys.reports.filter fun report => report.sender=actor).map FinishedReport.job

def eventOf (sys : System Key Msg R Q) : SystemInput Key Msg → Option (FactoryEvent Key Msg)
  | .request (.finished _ _) => none
  | .request message => some (.message message)
  | .report index =>
    sys.reports[index]?.map fun report => .message (.finished report.wid report.job.key)
  | .exit index failed =>
    sys.exits[index]?.map fun who =>
      .supervision (if failed then .actorFailed who else .actorTerminated who)

def without (sys : System Key Msg R Q) : SystemInput Key Msg → System Key Msg R Q
  | .request _ => sys
  | .report index => {sys with reports:=sys.reports.eraseIdx index}
  | .exit index _ => {sys with exits:=sys.exits.eraseIdx index}

/-- Whether the outcome of a cast agrees with the actors that were closed before and after. -/
def agrees (before after : List ActorId) : Effect Key Msg → Bool
  | .cast actor _ true => decide (actor∉before)
  | .cast actor _ false => decide (actor∈after)
  | _ => true

def employs (log : List (Effect Key Msg)) (actor : ActorId) (wid : WorkerId → Bool) : Bool :=
  log.any fun effect =>
    match effect with
    | .spawned actor' wid' => decide (actor'=actor) && wid wid'
    | _ => false

def isOpen (sys : System Key Msg R Q) (log : List (Effect Key Msg)) (actor : ActorId) : Bool :=
  decide (actor∉sys.closed) && employs log actor fun _ => true

/-- Actors terminate; their exit events are on their way. -/
def close (sys : System Key Msg R Q) (actors : List ActorId) : System Key Msg R Q :=
  {sys with closed:=sys.closed++actors,exits:=sys.exits++actors}

theorem employs_iff {log : List (Effect Key Msg)} {actor : ActorId} {test : WorkerId→Bool} :
    employs log actor test=true ↔ ∃wid,spawned actor wid∈log ∧ test wid=true := by
  unfold employs
  rw [List.any_eq_true]
  constructor
  · rintro ⟨effect,hm,he⟩
    split at he
    next actor' wid =>
      obtain ⟨ha,ht⟩:=Bool.and_eq_true_iff.mp he
      exact ⟨wid,of_decide_eq_true ha ▸ hm,ht⟩
    next => cases he
  · rintro ⟨wid,hm,ht⟩
    exact ⟨_,hm,by simp [ht]⟩

theorem isOpen_iff {log : List (Effect Key Msg)} {actor : ActorId} :
    sys.isOpen log actor=true ↔ actor∉sys.closed ∧ ∃wid,spawned actor wid∈log := by
  unfold isOpen
  rw [Bool.and_eq_true_iff,employs_iff]
  simp

theorem drop_log {s' : FactoryState Key Msg R Q} {effects : List (Effect Key Msg)}
    (h : s'.world.log=s.world.log++effects) :
    s'.world.log.drop s.world.log.length=effects := by
  rw [h,drop_left]

theorem without_frame (sys : System Key Msg R Q) (input : SystemInput Key Msg) :
    (sys.without input).factory=sys.factory ∧ (sys.without input).done=sys.done ∧
      (sys.without input).closed=sys.closed := by
  cases input <;> exact ⟨rfl,rfl,rfl⟩

variable [DecidableEq Key] [Router R Key Msg] [Queue Q Key Msg]

inductive Step : System Key Msg R Q → SystemEvent Key Msg → System Key Msg R Q→Prop where
  | handle {sys : System Key Msg R Q} {input : SystemInput Key Msg} {event : FactoryEvent Key Msg}
      {oracle : Oracle} {closing : List ActorId} {factory : FactoryState Key Msg R Q}
      (input_eq : sys.eventOf input=some event)
      (step : FactoryState.Step sys.factory (event,oracle) factory)
      (casts : ∀effect∈factory.world.log.drop sys.factory.world.log.length,
        agrees sys.closed (sys.closed++closing) effect=true)
      (open_ : ∀actor∈closing,sys.isOpen factory.world.log actor=true) :
      Step sys (.handle input oracle closing)
        ({sys.without input with factory:=factory}.close closing)
  | finish {sys : System Key Msg R Q} {actor : ActorId} {wid : WorkerId} {job : Job Key Msg}
      {rest : List (Job Key Msg)} (open_ : actor∉sys.closed)
      (employed : employs sys.factory.world.log actor (fun wid' => decide (wid'=wid))=true)
      (mailbox : sys.mailbox actor=job::rest) :
      Step sys (.finish actor wid)
        { sys with
          done:=Function.update sys.done actor (sys.done actor+1)
          reports:=sys.reports++[⟨wid,actor,job⟩] }
  | crash {sys : System Key Msg R Q} {actor : ActorId}
      (open_ : sys.isOpen sys.factory.world.log actor=true) :
      Step sys (.crash actor) (sys.close [actor])

def Starts [LawfulQueue Q] (args : FactoryArguments R Q) (sys : System Key Msg R Q) : Prop :=
  FactoryState.Starts args sys.factory ∧ sys={factory:=sys.factory}

def Meets (G : FactoryState Key Msg R Q → Work Key Msg → Prop) (sys : System Key Msg R Q) :
    SystemEvent Key Msg → Prop
  | .handle input oracle _ =>
    ∀event,sys.eventOf input=some event → FactoryState.WorkMeets G sys.factory (event,oracle)
  | _ => True

instance (G : FactoryState Key Msg R Q → Work Key Msg→Prop) [∀s work,Decidable (G s work)]
    (sys : System Key Msg R Q) (event : SystemEvent Key Msg) : Decidable (sys.Meets G event) :=
  match event with
  | .handle input oracle _ =>
    match h : sys.eventOf input with
    | none => .isTrue fun _ he => by rw [h] at he; cases he
    | some event =>
      decidable_of_iff (FactoryState.WorkMeets G sys.factory (event,oracle))
        ⟨fun hm _ he => by rw [h] at he; cases he; exact hm,fun hm => hm event h⟩
  | .finish _ _ => .isTrue trivial
  | .crash _ => .isTrue trivial

/-! ### Concrete runs -/

def step? (check : System Key Msg R Q → SystemEvent Key Msg → Bool) (sys : System Key Msg R Q)
    (event : SystemEvent Key Msg) : Option (System Key Msg R Q) :=
  if check sys event then
    match event with
    | .handle input oracle closing =>
      (sys.eventOf input).bind fun event =>
        ((sys.factory.withOracle oracle).handleEvent event).toOption.bind fun factory =>
          if (factory.world.log.drop sys.factory.world.log.length).all
              (agrees sys.closed (sys.closed++closing)) ∧
              closing.all (sys.isOpen factory.world.log) then
            some ({sys.without input with factory:=factory}.close closing)
          else none
    | .finish actor wid =>
      if actor∉sys.closed ∧ employs sys.factory.world.log actor (fun wid' => decide (wid'=wid)) then
        match sys.mailbox actor with
        | [] => none
        | job::_ =>
          some {sys with
            done:=Function.update sys.done actor (sys.done actor+1)
            reports:=sys.reports++[⟨wid,actor,job⟩]}
      else none
    | .crash actor =>
      if sys.isOpen sys.factory.world.log actor then some (sys.close [actor]) else none
  else none

theorem step?_sound {check : System Key Msg R Q → SystemEvent Key Msg→Bool}
    {sys' : System Key Msg R Q} {event : SystemEvent Key Msg}
    (h : sys.step? check event=some sys') : check sys event=true ∧ Step sys event sys' := by
  unfold step? at h
  split at h
  next hc =>
    refine ⟨hc,?_⟩
    cases event with
    | handle input oracle closing =>
      obtain ⟨event,he,h⟩:=bind_eq_some_iff.mp h
      obtain ⟨factory,hf,h⟩:=bind_eq_some_iff.mp h
      split at h
      next hok =>
        cases h
        exact .handle he (eq_ok_of_toOption hf) (all_eq_true.mp hok.1) (all_eq_true.mp hok.2)
      next => cases h
    | finish actor wid =>
      dsimp only at h
      split at h
      next hok =>
        split at h
        next => cases h
        next job rest hm =>
          cases h
          exact .finish hok.1 hok.2 hm
      next => cases h
    | crash actor =>
      dsimp only at h
      split at h
      next hok =>
        cases h
        exact .crash hok
      next => cases h
  next => cases h

/-- A test on the last state of a checked replay exhibits a state that passes it, reached by
steps that all meet the guard. -/
theorem exists_guarded [LawfulQueue Q] (args : FactoryArguments R Q)
    (guard : System Key Msg R Q → SystemEvent Key Msg→Prop)
    (check : System Key Msg R Q → SystemEvent Key Msg→Bool)
    (hch : ∀sys event,check sys event=true → guard sys event) (oracle : Oracle)
    (firstPid : ℕ) (events : List (SystemEvent Key Msg)) (test : System Key Msg R Q→Bool)
    (hq : LawfulQueue.contents args.queue=[])
    (h : (((preStart args oracle firstPid 0).toOption.map
      fun factory => ({factory:=factory} : System Key Msg R Q)).bind
        fun sys => execute (step? check) sys events).any test=true) :
    ∃sys,Reachable (Starts args) (guarded guard Step) sys ∧ test sys=true := by
  refine exists_of_execute (fun sys event sys' hs => ?_) (fun sys hs => ?_) events h
  · obtain ⟨hc,hs⟩:=step?_sound hs
    exact ⟨hch sys event hc,hs⟩
  · obtain ⟨factory,hf,rfl⟩:=map_eq_some_iff.mp hs
    exact ⟨⟨oracle,firstPid,0,by simp [FactoryState.Prenumbered,hq],eq_ok_of_toOption hf⟩,rfl⟩

theorem exists_reached [LawfulQueue Q] (args : FactoryArguments R Q) (oracle : Oracle)
    (firstPid : ℕ) (events : List (SystemEvent Key Msg)) (test : System Key Msg R Q→Bool)
    (hq : LawfulQueue.contents args.queue=[])
    (h : (((preStart args oracle firstPid 0).toOption.map
      fun factory => ({factory:=factory} : System Key Msg R Q)).bind
        fun sys => execute (step? fun _ _ => true) sys events).any test=true) :
    ∃sys,Reachable (Starts args) Step sys ∧ test sys=true := by
  obtain ⟨sys,hs,ht⟩:=exists_guarded args (fun _ _ => True) (fun _ _ => true)
    (fun _ _ _ => trivial) oracle firstPid events test hq h
  exact ⟨sys,hs.mono (fun _ h => h) fun _ _ _ h => h.2,ht⟩

/-! ### The factory of a system -/

variable [LawfulQueue Q]

/-- A step of the system is a step of its factory, or leaves the factory alone. -/
theorem guarded_factory {G : FactoryState Key Msg R Q → Work Key Msg→Prop}
    (h : Reachable (Starts args) (guarded (Meets G) Step) sys) :
    Reachable (FactoryState.Starts args) (guarded (FactoryState.WorkMeets G) FactoryState.Step)
      sys.factory := by
  induction h with
  | start h => exact .start h.1
  | next _ hs ih =>
    obtain ⟨hg,hs⟩:=hs
    cases hs with
    | handle he hst _ _ => exact .next ih ⟨hg _ he,hst⟩
    | finish | crash => exact ih

theorem reached_factory {guard : System Key Msg R Q → SystemEvent Key Msg→Prop}
    (h : Reachable (Starts args) (guarded guard Step) sys) :
    Reached args sys.factory := by
  have hall : Reachable (Starts args) (guarded (Meets fun _ _ => True) Step) sys := by
    refine h.mono (fun _ hs => hs) fun sys event sys' hs => ⟨?_,hs.2⟩
    cases event with
    | handle => exact fun _ _ _ _ _ => trivial
    | finish | crash => trivial
  exact (guarded_factory hall).mono (fun _ hs => hs) fun _ _ _ hs => hs.2

end System

namespace FactoryState
variable [DecidableEq Key] [Router R Key Msg] [LawfulRouter R] [Queue Q Key Msg] [LawfulQueue Q]

/-- Once its exit is handled, an actor is nobody's worker. -/
theorem handleExit_leaves {s' : FactoryState Key Msg R Q} {who : ActorId}
    (h : s.handleExit who=.ok s') (hs : Shaped s) (hc : WorkersConsistent s)
    (hk : ¬s.Fresh who) {wid : WorkerId} {w : WorkerProperties Key Msg}
    (hl : s'.pool.lookup wid=some w) : w.actor≠who := by
  intro ha
  have hi':=((handleExit_shape hs hc h).inverse who wid).mpr ⟨w,hl,ha⟩
  cases handleExit_cases h with
  | unknown hu => simp [hi',hl] at hu
  | @replaced k worker t _ hi hlk ht hr =>
    have hsa:=(routeToFreed_routing hr : Routing (fun _ => True) _ _ _).sameProfile
    rw [hsa.workerByActor] at hi'
    unfold replaceExited at ht
    cases hsp : s.world.spawn worker.wid with
    | error e => simp [hsp] at ht
    | ok spawned =>
      obtain ⟨replacement,world⟩:=spawned
      rw [hsp] at ht
      cases ht
      rcases FiniteMap.lookup_insert_eq_some.mp hi' with ⟨rfl,-⟩ | ⟨-,hi'⟩
      · exact hk (spawn_fresh hsp)
      · exact (FiniteMap.lookup_erase_eq_some.mp hi').1 rfl

omit [DecidableEq Key] [LawfulRouter R] in
theorem starts_uncast (h : Starts args s) (actor : ActorId) (job : Job Key Msg) (delivered : Bool) :
    cast actor job delivered∉s.world.log := by
  refine starts_rec (P:=fun _ t => cast actor job delivered∉t.world.log)
    (fun _ _ _ _ hm => by cases hm) ?_ ?_ h
  · intro n t t' ha ht hm
    obtain ⟨_,_,hs,rfl⟩:=addWorker_ok ha
    obtain ⟨_,-,-,-,hlog⟩:=World.spawn_ok t.world hs
    rw [hlog] at hm
    simpa using (mem_append.mp hm).resolve_left ht
  · intro n t t' hk ht hm
    obtain ⟨effects,hlog,he⟩:=hk.log
    rw [hlog] at hm
    exact he _ ((mem_append.mp hm).resolve_left ht)

end FactoryState

namespace System
variable [DecidableEq Key] [Router R Key Msg] [LawfulRouter R] [Queue Q Key Msg] [LawfulQueue Q]

/-! ### Terminated actors -/

/-- A terminated actor was a worker, casts bounce off terminated actors only, and the exit of a
terminated actor that still has its place in the pool is on its way. -/
structure Attended (sys : System Key Msg R Q) : Prop where
  known : ∀actor∈sys.closed,¬sys.factory.Fresh actor
  bounced : ∀actor job,cast actor job false∈sys.factory.world.log → actor∈sys.closed
  awaited : ∀wid w,sys.factory.pool.lookup wid=some w → w.actor∈sys.closed →
    w.actor∈sys.exits

/-- An exit event leaves the flight only when the factory has let the actor go. -/
theorem exits_without {input : SystemInput Key Msg} {event : FactoryEvent Key Msg} {oracle : Oracle}
    {factory : FactoryState Key Msg R Q} (he : sys.eventOf input=some event)
    (hst : FactoryState.Step sys.factory (event,oracle) factory) (hs : Shaped sys.factory)
    (hc : WorkersConsistent sys.factory) {wid : WorkerId} {w : WorkerProperties Key Msg}
    (hl : factory.pool.lookup wid=some w) (hkn : ¬sys.factory.Fresh w.actor)
    (hm : w.actor∈sys.exits) : w.actor∈(sys.without input).exits := by
  cases input with
  | request message | report index => exact hm
  | exit index failed =>
    obtain ⟨who,hwho,rfl⟩:=map_eq_some_iff.mp he
    have hex : (sys.factory.withOracle oracle).handleExit who=.ok factory := by
      cases failed <;> exact hst
    have hk:=withOracle_housekeeping sys.factory oracle
    by_cases hw : w.actor=who
    · rw [hw] at hkn
      exact absurd hw (handleExit_leaves hex (hs.congr hk.sameProfile)
        (hk.workersConsistent hc) hkn hl)
    · obtain ⟨i,hi⟩:=mem_iff_getElem?.mp hm
      refine mem_eraseIdx_iff_getElem?.mpr ⟨i,?_,hi⟩
      rintro rfl
      rw [hwho] at hi
      exact hw (some.inj hi).symm

theorem Step.attended {sys' : System Key Msg R Q} {event : SystemEvent Key Msg}
    (h : Step sys event sys') (hs : Shaped sys.factory) (hc : WorkersConsistent sys.factory)
    (hf : Staffed sys.factory) (hf' : Staffed sys'.factory) (ha : Attended sys) :
    Attended sys' := by
  cases h with
  | @handle input event oracle closing factory he hst hca ho =>
    have hco:=step_continues hst hf
    obtain ⟨effects,hlog⟩:=hco.log
    rw [drop_log hlog] at hca
    have hcl : ∀actor,actor∈(sys.without input).closed ↔ actor∈sys.closed := by
      intro actor
      rw [(without_frame sys input).2.2]
    refine ⟨fun actor hm hfr => ?_,fun actor job hm => ?_,fun wid w hl hm => ?_⟩
    · rcases mem_append.mp hm with hm | hm
      · refine ha.known actor ((hcl actor).mp hm) fun pid hlt => ?_
        exact hfr pid (Nat.lt_of_lt_of_le hlt hco.pid)
      · obtain ⟨_,wid,hsp⟩:=isOpen_iff.mp (ho actor hm)
        exact hf'.known _ hsp actor rfl hfr
    · have hm : cast actor job false∈factory.world.log:=hm
      rw [hlog] at hm
      refine mem_append.mpr ?_
      rw [hcl]
      rcases mem_append.mp hm with hm | hm
      · exact .inl (ha.bounced actor job hm)
      · exact mem_append.mp (of_decide_eq_true (hca _ hm))
    · have hl : factory.pool.lookup wid=some w:=hl
      refine mem_append.mpr ((mem_append.mp hm).imp (fun hm => ?_) id)
      have hm:=(hcl w.actor).mp hm
      have hk:=ha.known w.actor hm
      rcases hco.actor wid w hl with ⟨v,hv,hva⟩ | hfr
      · rw [← hva] at hm
        have hex:=ha.awaited wid v hv hm
        rw [hva] at hex
        exact exits_without he hst hs hc hl hk hex
      · exact absurd hfr hk
  | finish => exact ⟨ha.known,ha.bounced,ha.awaited⟩
  | @crash actor ho =>
    obtain ⟨_,wid,hsp⟩:=isOpen_iff.mp ho
    refine ⟨fun actor' hm => ?_,fun actor' job hm => ?_,fun wid w hl hm => ?_⟩
    · rcases mem_append.mp hm with hm | hm
      · exact ha.known actor' hm
      · obtain rfl:=mem_singleton.mp hm
        exact hf.known _ hsp actor' rfl
    · exact mem_append_left _ (ha.bounced actor' job hm)
    · exact mem_append.mpr ((mem_append.mp hm).imp (ha.awaited wid w hl) id)

theorem guarded_attended {guard : System Key Msg R Q → SystemEvent Key Msg→Prop}
    (h : Reachable (Starts args) (guarded guard Step) sys) : Attended sys := by
  induction h with
  | @start sys h =>
    obtain ⟨hst,hsys⟩:=h
    rw [hsys]
    refine ⟨fun _ hm => (by cases hm),fun actor job hm => ?_,fun _ _ _ hm => (by cases hm)⟩
    exact absurd hm (starts_uncast hst actor job false)
  | @next sys event sys' h hs ih =>
    have hr:=reached_factory h
    obtain ⟨hsh,hcon⟩:=reached_shaped hr
    exact hs.2.attended hsh hcon (reached_staffed hr)
      (reached_staffed (reached_factory (.next h hs))) ih

end System
end Ractor.Factory
