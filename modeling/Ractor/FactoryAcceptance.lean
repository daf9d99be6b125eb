import Ractor.FactoryChronicles
import Ractor.FactoryConfirmedTargets
import Ractor.FactoryJobConservation
import Ractor.FactoryWorkerShedding

/-!
# Acceptance replies

A job may carry a reply port, on which the factory tells the submitter that the job was accepted or
hands the job back. The port is taken out of the job when it is used, so whatever the factory keeps
of a job that it has answered carries no port. `replies` lists what is sent on a port. A reply port
cannot be copied: the port of a job that is dispatched is in no other job.
-/

namespace Ractor.Factory
open World FactoryState List Effect Queue LawfulRouter Router

variable {Key Msg : Type}

open LawfulQueue (contents)
open WorkerProperties

/-! ### Replies -/

variable (port : ReplyPort)

def Effect.replyOn : Effect Key Msg → Option (Option (Job Key Msg))
  | .accepted answered => if answered=port then some none else none
  | .rejected answered job => if answered=port then some (some job) else none
  | _ => none

def World.replies (world : World Key Msg) : List (Option (Job Key Msg)) :=
  world.log.filterMap (replyOn port)

def World.Mute (a b : World Key Msg) : Prop :=
  a.Writes (fun effect => effect.replyOn port=none) b

section Worlds
variable {port} {a b : World Key Msg} {job : Job Key Msg}

theorem World.Mute.replies (h : a.Mute port b) : b.replies port=a.replies port := by
  obtain ⟨effects,hlog,hn⟩:=h
  rw [World.replies,hlog,List.filterMap_append,List.filterMap_eq_nil_iff.mpr hn,List.append_nil]
  rfl

theorem World.Mute.trans {c : World Key Msg} (h : a.Mute port b) (h' : b.Mute port c) :
    a.Mute port c :=
  Writes.trans h h'

theorem World.mute_discard (a : World Key Msg) (handler : Option HandlerId)
    (reason : DiscardReason) (job : Job Key Msg) : a.Mute port (a.discard handler reason job) :=
  .discard a handler reason job (fun _ => rfl) rfl

theorem World.Quiet.mute (h : a.Quiet b) : a.Mute port b := by
  obtain ⟨oracle,rfl⟩:=h
  exact .of_log rfl

theorem World.mute_chronicle (port : ReplyPort) :
    Chronicle fun a b : World Key Msg => a.Mute port b where
  trans:=.trans
  of_log _ hlog:=.of_log hlog
  tick _:=.of_log rfl
  record a effect h:=.record a (by cases effect <;> first | rfl | exact h.elim)
  expire a handler job:=mute_discard a.tick handler .ttlExpired job

theorem World.mute_accept (a : World Key Msg) (h : job.accepted≠some port) :
    a.Mute port (a.accept job) := by
  unfold accept
  split
  next answered hp =>
    refine .record a (if_neg ?_)
    rintro rfl
    exact h hp
  next => exact .of_log rfl

theorem World.mute_reject (a : World Key Msg) (h : job.accepted≠some port) :
    a.Mute port (a.reject job) := by
  unfold reject
  split
  next answered hp =>
    refine .record a (if_neg ?_)
    rintro rfl
    exact h hp
  next => exact .of_log rfl

theorem World.replies_accept (a : World Key Msg) (h : job.accepted=some port) :
    (a.accept job).replies port=a.replies port++[none] := by
  simp [accept,h,World.replies,replyOn]

theorem World.replies_reject (a : World Key Msg) (h : job.accepted=some port) :
    (a.reject job).replies port=a.replies port++[some job.taken] := by
  simp [reject,h,World.replies,replyOn,Job.taken]

end Worlds

/-! ### Workers -/

variable {port} {job : Job Key Msg}

section Workers
variable [DecidableEq Key]

theorem WorkerMove.mute {d d' : Desk Key Msg} (h : WorkerMove d d') : d.2.Mute port d'.2 := by
  cases h with
  | tick => exact .of_log rfl
  | discard world reason => exact world.mute_discard _ reason _
  | deliver | bounce => exact ⟨[_],rfl,by simp [replyOn]⟩

theorem Moves.mute {d d' : Desk Key Msg} (h : Moves d d') : d.2.Mute port d'.2 :=
  h.preserves (P:=fun e => d.2.Mute port e.2) (fun _ _ hm he => he.trans hm.mute) (.of_log rfl)

namespace WorkerProperties
variable (w : WorkerProperties Key Msg) (world : World Key Msg)

theorem enqueueJob_mute (h : job.accepted≠some port) :
    world.Mute port (w.enqueueJob job world).2 := by
  have hre : world.Mute port (world.record (.enqueued w job)):=.record world rfl
  cases hr : w.refusesNewest with
  | true =>
    rw [enqueueJob_refused job world hr]
    exact (hre.trans (mute_discard _ _ _ _)).trans (mute_reject _ h)
  | false => exact (hre.trans (mute_accept _ h)).trans (enqueueJob_moves job world hr).mute

/-- A worker answers the job that it is given, and no other one. -/
theorem enqueueJob_replies (h : job.accepted=some port) :
    (w.enqueueJob job world).2.replies port =
      world.replies port++[if w.refusesNewest then some job.taken else none] := by
  have hre : world.Mute port (world.record (.enqueued w job)):=.record world rfl
  cases hr : w.refusesNewest with
  | true =>
    rw [enqueueJob_refused job world hr,replies_reject _ h,
      (hre.trans (mute_discard _ _ _ _)).replies]
    rfl
  | false =>
    rw [(enqueueJob_moves job world hr).mute.replies,replies_accept _ h,hre.replies]
    rfl

theorem enqueueJob_log (job : Job Key Msg) (world : World Key Msg) :
    ∃rest,(w.enqueueJob job world).2.log=world.log++.enqueued w job::rest := by
  obtain ⟨effects,hlog,-⟩:=(enqueueJob_frame w job world).log
  exact ⟨effects,by rw [hlog,record_log,append_assoc,singleton_append]⟩

theorem dispatchNext_mute : world.Mute port (w.dispatchNext world).2 := by
  have hs:=(mute_chronicle port).nextNonExpired w.messageQueue w world
  have hc (w : WorkerProperties Key Msg) (job : Job Key Msg) (world : World Key Msg) :
      world.Mute port (w.dispatchJob job world).2 := by
    unfold dispatchJob
    split <;> exact ⟨[_],rfl,by simp [replyOn]⟩
  unfold dispatchNext getNextNonExpiredJob
  generalize nextNonExpired w.messageQueue w world=next at hs
  obtain ⟨_ | job,w',world'⟩:=next
  · exact hs
  · exact hs.trans (hc w' job world')

theorem workerComplete_mute (key : Key) (world : World Key Msg) :
    world.Mute port (w.workerComplete key world).2.2 := by
  unfold workerComplete
  split
  · exact .of_log rfl
  · refine Writes.trans ?_ (dispatchNext_mute _ _)
    exact .record world rfl

theorem replaceWorker_mute (nworker : ActorId) (world : World Key Msg) :
    world.Mute port (w.replaceWorker nworker world).2 :=
  ((mute_chronicle port).abandonJobs _ _ world).trans (dispatchNext_mute _ _)

end WorkerProperties
end Workers

variable {R Q : Type} {s s' : FactoryState Key Msg R Q} {H : Option HandlerId→Prop}
  {hint : Option WorkerId}

namespace FactoryState

theorem discardAndReject_mute (s : FactoryState Key Msg R Q) (reason : DiscardReason)
    (h : job.accepted≠some port) : s.world.Mute port (s.discardAndReject reason job).world :=
  (mute_discard _ _ reason job).trans (mute_reject _ h)

theorem arrived_mute (s : FactoryState Key Msg R Q) (job : Job Key Msg) :
    s.world.Mute port (s.arrived job).world :=
  ⟨[.dispatched job],rfl,by simp [replyOn]⟩

theorem completeJob_mute [DecidableEq Key] (s : FactoryState Key Msg R Q) (who : WorkerId) (key : Key) :
    s.world.Mute port (s.completeJob who key).world := by
  unfold completeJob
  split
  · exact .of_log rfl
  next worker _ => exact worker.workerComplete_mute key s.world

/-! ### The queue -/

variable [Queue Q Key Msg]

theorem shedQueue_mute (limit fuel : ℕ) (s : FactoryState Key Msg R Q) :
    s.world.Mute port (shedQueue limit fuel s).world := by
  induction fuel generalizing s with
  | zero => exact .of_log rfl
  | succ fuel ih =>
    unfold shedQueue
    split
    · split
      · exact ih s
      · exact (mute_discard _ _ _ _).trans (ih _)
    · exact .of_log rfl

theorem acceptIntoQueue_world (h : s.acceptIntoQueue job=.ok s') : s'.world=s.world.accept job := by
  unfold acceptIntoQueue at h
  split at h
  · cases h
  · cases h
    rfl

def ShedsNewest (s : FactoryState Key Msg R Q) (job : Job Key Msg) : Prop :=
  ∃limit,s.discardSettings.getLimitAndMode=some (limit,.newest) ∧
    isJobDiscardable s.queue job.key=true ∧ limit≤len s.queue

/-- A job for the queue is shed right away, or it is accepted and others may be shed. -/
theorem maybeEnqueue_cases (h : s.maybeEnqueue job=.ok s') :
    s.ShedsNewest job ∧ s'=s.discardAndReject .loadshed job ∨
      ¬ s.ShedsNewest job ∧ ∀port,(s.world.accept job).Mute port s'.world := by
  unfold maybeEnqueue at h
  split at h
  next limit hm =>
    split at h
    next hs =>
      cases h
      obtain ⟨hd,hl⟩:=Bool.and_eq_true_iff.mp hs
      exact .inl ⟨⟨limit,hm,hd,of_decide_eq_true hl⟩,rfl⟩
    next hk =>
      refine .inr ⟨?_,fun port => .of_log (by rw [acceptIntoQueue_world h])⟩
      rintro ⟨limit',hm',hd,hl⟩
      rw [hm] at hm'
      cases hm'
      simp [hd,hl] at hk
  next limit hm =>
    split at h
    · cases h
    next t ht =>
      cases h
      refine .inr ⟨fun ⟨_,hm',_⟩ => ?_,fun port => ?_⟩
      · rw [hm] at hm'
        cases hm'
      · rw [← acceptIntoQueue_world ht]
        exact shedQueue_mute limit _ t
  next hm =>
    refine .inr ⟨fun ⟨_,hm',_⟩ => ?_,fun port => .of_log (by rw [acceptIntoQueue_world h])⟩
    rw [hm] at hm'
    cases hm'

theorem discardQueue_mute (fuel : ℕ) (s : FactoryState Key Msg R Q) :
    s.world.Mute port (discardQueue fuel s).world := by
  induction fuel generalizing s with
  | zero => exact .of_log rfl
  | succ fuel ih =>
    unfold discardQueue
    split
    · exact .of_log rfl
    · exact (mute_discard _ _ _ _).trans (ih _)

theorem postStop_mute (h : s.postStop=.ok s') : s.world.Mute port s'.world := by
  have hq : s.world.Mute port
      (if s.discardHandler.isSome then discardQueue (len s.queue) s else s).world := by
    split
    · exact discardQueue_mute _ s
    · exact .of_log rfl
  have hs (t : FactoryState Key Msg R Q) : t.world.Mute port t.stopWorkers.world := by
    refine ⟨_,rfl,fun effect hm => ?_⟩
    obtain ⟨entry,-,rfl⟩:=mem_map.mp hm
    rfl
  unfold postStop at h
  dsimp only at h
  generalize (if s.discardHandler.isSome then discardQueue (len s.queue) s else s)=t at h hq
  refine (hq.trans (hs t)).trans ?_
  split at h
  · split at h
    · cases h
      exact .of_log rfl
    · cases h
  · cases h
    exact .of_log rfl

/-! ### Dispatch -/

section Dispatch
variable [Router R Key Msg]

def routed (s : FactoryState Key Msg R Q) (job : Job Key Msg) : Routed R Key Msg :=
  routeMessage s.router job s.poolSize none s.pool s.world.tick

/-- The job is discarded on arrival: it is expired, the factory is draining, a rate limiter turns
it away, or it is shed as the newest job of the factory queue or of the worker it is routed to. -/
inductive DiscardsOnArrival (s : FactoryState Key Msg R Q) (job : Job Key Msg) :
    DiscardReason→Prop where
  | expired (h : job.isExpired s.world.now=true) : DiscardsOnArrival s job .ttlExpired
  | draining (hlive : job.isExpired s.world.now=false) (h : s.drainState≠.notDraining) :
      DiscardsOnArrival s job .shutdown
  | rateLimited (hlive : job.isExpired s.world.now=false) (hopen : s.drainState=.notDraining)
      (h : (s.routed job).result=.rateLimited job) : DiscardsOnArrival s job .rateLimited
  | queueFull (hlive : job.isExpired s.world.now=false) (hopen : s.drainState=.notDraining)
      (hrouted : (s.routed job).result=.backlog job) (h : s.ShedsNewest job) :
      DiscardsOnArrival s job .loadshed
  | workerFull {w : WorkerProperties Key Msg} {rest : List (Effect Key Msg)}
      (hlive : job.isExpired s.world.now=false) (hopen : s.drainState=.notDraining)
      (hrouted : (s.routed job).result=.handled)
      (hlog : (s.routed job).world.log=s.world.log++.enqueued w job::rest)
      (h : w.refusesNewest=true) : DiscardsOnArrival s job .loadshed

inductive Answered (port : ReplyPort) (s : FactoryState Key Msg R Q) (job : Job Key Msg)
    (s' : FactoryState Key Msg R Q) : Prop where
  | rejected {reason : DiscardReason} (handler : Option HandlerId)
      (hdiscards : s.DiscardsOnArrival job reason)
      (hlog : .discard handler reason job∈s'.world.log)
      (hreplies : s'.world.replies port=s.world.replies port++[some job.taken])
  | accepted (hkeeps : ∀reason,¬ s.DiscardsOnArrival job reason)
      (hreplies : s'.world.replies port=s.world.replies port++[none])

theorem answered_discardAndReject {t : FactoryState Key Msg R Q} {reason : DiscardReason}
    (hp : job.accepted=some port) (hd : s.DiscardsOnArrival job reason)
    (hq : s.world.Quiet t.world) : Answered port s job (t.discardAndReject reason job) := by
  refine .rejected t.discardHandler hd ?_ ?_
  · simp [discardAndReject,reject,hp,discard_log]
  · have hm : s.world.Mute port (t.world.discard t.discardHandler reason job) :=
      hq.mute.trans (mute_discard _ _ _ _)
    rw [discardAndReject,replies_reject _ hp,hm.replies]

variable [DecidableEq Key]

theorem answered_routed {w : WorkerProperties Key Msg} {world : World Key Msg} {router : R}
    {pool : Pool Key Msg} (hp : job.accepted=some port)
    (hl : job.isExpired s.world.now=false) (ho : s.drainState=.notDraining)
    (hq : s.world.Quiet world)
    (hro : s.routed job=⟨.handled,router,pool,(w.enqueueJob job world).2⟩)
    (hw : s'.world=(w.enqueueJob job world).2) : Answered port s job s' := by
  obtain ⟨rest,hlog⟩:=w.enqueueJob_log job world
  have hre:=w.enqueueJob_replies world hp
  rw [hq.mute.replies,← hw] at hre
  have hb : world.log=s.world.log := by
    obtain ⟨_,rfl⟩:=hq
    rfl
  rw [hb] at hlog
  cases hr : w.refusesNewest with
  | true =>
    rw [hr] at hre
    refine .rejected w.discardHandler
      (.workerFull hl ho (by rw [hro]) (by rw [hro]; exact hlog) hr) ?_ hre
    simp [hw,enqueueJob_refused job world hr,reject,hp,discard_log]
  | false =>
    rw [hr] at hre
    refine .accepted (fun reason hd => ?_) hre
    cases hd with
    | workerFull _ _ _ hl' hr' =>
      rw [hro] at hl'
      cases append_cancel_left (hlog.symm.trans hl')
      simp [hr] at hr'
    | _ => simp_all

variable [LawfulRouter R]

theorem dispatchNumbered_answered (hp : job.accepted=some port)
    (h : s.dispatchNumbered job=.ok s') : Answered port s job s' := by
  have ht : s.world.Quiet s.world.tick:=s.world.quiet_tick
  unfold dispatchNumbered at h
  dsimp only at h
  split at h
  next he =>
    cases h
    exact answered_discardAndReject hp (.expired he) ht
  next he =>
    have hl : job.isExpired s.world.now=false := by simpa using he
    split at h
    next hop =>
      have ho:=route_outcome s.router job s.poolSize none s.pool s.world.tick
      generalize hr : routeMessage s.router job s.poolSize none s.pool s.world.tick=routed at h ho
      change s.routed job=routed at hr
      obtain ⟨result,router,pool,world⟩:=routed
      cases ho with
      | @handled wid w world quiet =>
        cases h
        exact answered_routed hp hl hop (ht.trans quiet) hr rfl
      | backlog quiet =>
        rcases maybeEnqueue_cases h with ⟨hs,rfl⟩ | ⟨hk,hm⟩
        · exact answered_discardAndReject hp (.queueFull hl hop (by rw [hr]) hs) (ht.trans quiet)
        · refine .accepted (fun reason hd => ?_) ?_
          · cases hd with
            | queueFull _ _ _ hs => exact hk hs
            | _ => simp_all
          · rw [(hm port).replies,replies_accept _ hp]
            exact congrArg (· ++ [none]) (ht.trans quiet).mute.replies
      | rateLimited quiet =>
        cases h
        exact answered_discardAndReject hp (.rateLimited hl hop (by rw [hr])) (ht.trans quiet)
    next hdr =>
      cases h
      exact answered_discardAndReject hp (.draining hl hdr) ht

theorem dispatchNumbered_mute (hjob : job.accepted≠some port)
    (h : s.dispatchNumbered job=.ok s') : s.world.Mute port s'.world := by
  have ht : s.world.Quiet s.world.tick:=s.world.quiet_tick
  unfold dispatchNumbered at h
  dsimp only at h
  split at h
  · cases h
    exact ht.mute.trans (discardAndReject_mute {s with world:=s.world.tick} _ hjob)
  · split at h
    · have ho:=route_outcome s.router job s.poolSize none s.pool s.world.tick
      generalize routeMessage s.router job s.poolSize none s.pool s.world.tick=routed at h ho
      obtain ⟨result,router,pool,world⟩:=routed
      cases ho with
      | @handled wid w world quiet =>
        cases h
        exact (ht.trans quiet).mute.trans (w.enqueueJob_mute world hjob)
      | backlog quiet =>
        refine (ht.trans quiet).mute.trans ?_
        rcases maybeEnqueue_cases h with ⟨-,rfl⟩ | ⟨-,hm⟩
        · exact discardAndReject_mute _ _ hjob
        · exact (mute_accept _ hjob).trans (hm port)
      | rateLimited quiet =>
        cases h
        exact (ht.trans quiet).mute.trans
          (discardAndReject_mute {s with router:=router,world:=world} _ hjob)
    · cases h
      exact ht.mute.trans (discardAndReject_mute {s with world:=s.world.tick} _ hjob)

theorem dispatch_mute (hjob : job.accepted≠some port)
    (h : s.dispatch job=.ok s') : s.world.Mute port s'.world := by
  have hn : (job.numbered s.world.nextJob).accepted≠some port:=hjob
  exact (s.arrived_mute _).trans (dispatchNumbered_mute hn h)

end Dispatch

/-! ### Jobs that have been answered -/

variable [LawfulQueue Q]

def Unported (port : ReplyPort) (s : FactoryState Key Msg R Q) : Prop :=
  ∀job∈contents s.queue,job.accepted≠some port

theorem Unported.subset (h : s.Unported port) (hq : contents s'.queue ⊆ contents s.queue) :
    s'.Unported port :=
  fun job hm => h job (hq hm)

theorem expireHead_mute (fuel : ℕ) (s : FactoryState Key Msg R Q) (hs : s.Unported port) :
    s.world.Mute port (expireHead fuel s).world := by
  induction fuel generalizing s with
  | zero => exact .of_log rfl
  | succ fuel ih =>
    unfold expireHead
    cases hp : peek s.queue with
    | none => exact .of_log rfl
    | some head =>
      dsimp only
      split
      · obtain ⟨queue,hq,hc⟩:=popFront_of_peek hp
        have hh : head.accepted≠some port:=hs head (by simp [hc])
        rw [hq]
        refine Mute.trans ?_ (ih _ (hs.subset (by simp [hc])))
        exact discardAndReject_mute {s with world:=s.world.tick} .ttlExpired hh
      · exact .of_log rfl

theorem discarded_absent (ha : Accounted (s,none)) {handler : Option HandlerId}
    {reason : DiscardReason} (hlog : .discard handler reason job∈s.world.log) :
    s.queueCount job.tag=0 ∧ s.workerQueueCount job.tag=0 ∧ s.slotCount job.tag=0 := by
  have hse : 0<s.world.settledCount job.tag := by
    refine List.countP_pos_iff.mpr ⟨_,hlog,?_⟩
    cases handler <;> simp [Effect.discard,Effect.settledTag]
  have ht : FiniteMap.total (WorkerProperties.tally job.tag) s.pool =
      s.workerQueueCount job.tag+s.slotCount job.tag:=FiniteMap.total_add _ _ _
  have hs:=ha.single job.tag
  simp only [Hand.books,ht] at hs
  omega

variable [Router R Key Msg]

theorem stopIfDrained_mute (hs : s.Unported port) :
    s.world.Mute port s.stopIfDrained.world ∧ s.stopIfDrained.Unported port :=
  have hk : Keeping (fun _ => True) s s.stopIfDrained:=stopIfDrained_keeping s
  ⟨(mute_chronicle port).keeping hk,hs.subset hk.housekeeping.queue.subset⟩

variable [DecidableEq Key]

theorem replaceExited_mute {who : ActorId} {wid : WorkerId} {worker : WorkerProperties Key Msg}
    (h : s.replaceExited who wid worker=.ok s') : s.world.Mute port s'.world := by
  obtain ⟨replacement,world,hs,hk⟩:=replaceExited_kept (H:=fun _ => True) h
  have hr : s.world.Mute port (worker.replaceWorker replacement world).2 :=
    ((mute_chronicle port).spawn hs).trans (worker.replaceWorker_mute replacement world)
  exact hr.trans ((mute_chronicle port).keeping hk)

end FactoryState

variable [DecidableEq Key] [Router R Key Msg] [LawfulRouter R] [Queue Q Key Msg] [LawfulQueue Q]

theorem RoutingMove.unported {a b : Hand Key Msg R Q} (h : RoutingMove H hint a b)
    (ha : a.1.Unported port) : b.1.Unported port := by
  cases h with
  | take s hq => exact ha.subset fun _ hm => hq.perm.symm.subset (mem_cons_of_mem _ hm)
  | @store s job queue hq =>
    intro other hm
    rcases mem_cons.mp ((LawfulQueue.pushBack_ok hq).subset hm) with rfl | hm
    · exact nofun
    · exact ha other hm
  | keep hk => exact ha.subset hk.housekeeping.queue.subset
  | _ => exact ha

theorem Routing.unported (h : Routing H hint (s,none) (s',none)) (hs : s.Unported port) :
    s'.Unported port :=
  h.preserves (P:=fun a => a.1.Unported port) (fun _ _ hm => hm.unported) hs

theorem FactoryMoves.unported (h : FactoryMoves H s s') (hs : s.Unported port) :
    s'.Unported port := by
  refine FactoryMoves.preserves (P:=fun t => t.Unported port) ?_ h hs
  intro t t' hm ht
  cases hm with
  | routing hr => exact hr.unported ht
  | add _ ha => exact ht.subset (by simp [addWorker_queue ha])
  | _ => exact ht

/-! ### Routing the backlog -/

namespace FactoryState

theorem routeHead_mute {fuel : ℕ} (h : routeHead hint fuel s=.ok s') (hs : s.Unported port) :
    s.world.Mute port s'.world := by
  replace h:=routeHead_routed h
  induction h with
  | spent | empty => exact .of_log rfl
  | @untargeted _ s head _ choice _ hc _ =>
    subst hc
    exact (choose_world s.router head s.poolSize hint s.pool s.world).mute
  | @handled _ s head rest _ _ _ _ _ hp hc ht hr =>
    obtain ⟨-,wid,w,world,hq,-,-,rfl,rfl⟩:=handled_outcome hc ht hr
    have hh : head.accepted≠some port:=hs head (by simp [hp.contents])
    exact hq.mute.trans (w.enqueueJob_mute world hh)
  | @limited _ s _ head _ _ _ _ _ _ _ hp hc _ hr _ ih =>
    obtain ⟨rfl,rfl,-,hq⟩:=limited_outcome hc hr
    have hh:=hs _ (by rw [hp.contents]; exact mem_cons_self)
    refine hq.mute.trans ((discardAndReject_mute _ .rateLimited hh).trans (ih ?_))
    exact hs.subset (by simp [discardAndReject,hp.contents])

theorem tryRouteNextActiveJob_mute (h : s.tryRouteNextActiveJob hint=.ok s')
    (hs : s.Unported port) : s.world.Mute port s'.world := by
  have he : Routing (fun _ => True) hint (s,none) (expireHead (len s.queue) s,none) :=
    expireHead_routing _ s
  exact (expireHead_mute _ s hs).trans (routeHead_mute h (he.unported hs))

end FactoryState

/-! ### Whole events -/

def FactoryEvent.Spares (port : ReplyPort) : FactoryEvent Key Msg → Prop
  | .message (.dispatch job) => job.accepted≠some port
  | _ => True

namespace FactoryState

theorem work_mute {work : Work Key Msg} (h : s.work work=.ok s')
    (hw : ∀job,work≠.dispatch job) (hs : s.Unported port) : s.world.Mute port s'.world :=
  work_rec (I:=fun t => s.world.Mute port t.world) (G:=fun _ => True) (s.completeJob_mute)
    (fun _ _ _ _ _ ht => ht.trans (.record _ rfl)) (fun _ _ _ _ _ _ => replaceExited_mute)
    (fun _ _ => (mute_chronicle port).growPool) ((mute_chronicle port).shrinkPool s)
    (fun _ _ _ _ _ hm hr ht => ht.trans (tryRouteNextActiveJob_mute hr (hm.unported hs)))
    (fun _ _ _ _ hw ht => hw ▸ ht) (.of_log rfl) h hw fun _ _ => trivial

theorem handleEvent_mute {event : FactoryEvent Key Msg} (h : s.handleEvent event=.ok s')
    (hs : s.Unported port) (he : event.Spares port) : s.world.Mute port s'.world := by
  refine (mute_chronicle port).handleEvent h fun a work b ha hk hb => ?_
  have hu : a.Unported port:=hs.subset hk.housekeeping.queue.subset
  by_cases hd : ∃job,work=.dispatch job
  · obtain ⟨job,rfl⟩:=hd
    obtain ⟨rfl,-⟩:=workOf_dispatch ha
    exact dispatch_mute he hb
  · exact work_mute hb (fun job hjob => hd ⟨job,hjob⟩) hu

/-- Once a job is answered, no run replies on its port again. -/
theorem reachable_mute (hs : s.Unported port) {t : FactoryState Key Msg R Q}
    (h : Reachable (· = s) (guarded (fun _ label => label.1.Spares port) Step) t) :
    s.world.Mute port t.world ∧ t.Unported port := by
  refine h.invariant (P:=fun t => s.world.Mute port t.world ∧ t.Unported port) ?_ ?_
  · rintro _ rfl
    exact ⟨.of_log rfl,hs⟩
  · rintro t label t' ⟨hmu,ht⟩ ⟨hsp,hst⟩
    have ho : (t.withOracle label.2).Unported port:=ht
    have he : (t.withOracle label.2).world.Mute port t'.world := handleEvent_mute hst ho hsp
    have hm:=step_moves (H:=fun _ => True) (installs_all _) hst
    exact ⟨hmu.trans he,hm.unported ht⟩

theorem dispatch_accounted {args : FactoryArguments R Q} (h : Reached args s) (oracle : Oracle)
    (hd : (s.withOracle oracle).dispatch job=.ok s') : Accounted (s',none) := by
  have hmo : FactoryMoves (fun _ => True) s s' :=
    (withOracle_moves s oracle).trans (dispatch_routing hd).moves
  exact (hmo.preserves (P:=fun t => Accounted (t,none) ∧ WorkersConsistent t)
    (fun _ _ hm => hm.accounted) (reached_accounted h)).1

end FactoryState

/-- Exactly one acceptance reply per job: a dispatch that returns has sent one reply on the job's
port, which no other job carries. It hands the job back exactly if the job is discarded on arrival,
and then the job is nowhere in the factory. Nothing is sent on the port after that, neither by a
later step nor when the factory stops. -/
theorem one_reply_per_job [Hashable Key] {L P : Type} [RateLimiter L] [Priority P]
    (args : FactoryArguments (BuiltInRouter Key Msg L) (BuiltInQueue Key Msg P))
    {s : FactoryState Key Msg (BuiltInRouter Key Msg L) (BuiltInQueue Key Msg P)}
    (h : Reached args s) (oracle : Oracle) (job : Job Key Msg)
    (hport : job.accepted=some port) (hown : s.Unported port) :
    let arriving := job.numbered s.world.nextJob
    let arrived := (s.withOracle oracle).arrived arriving
    match (s.withOracle oracle).dispatch job with
    | .error e => e=.priorityOutOfRange
    | .ok s' =>
      ((∃reason,arrived.DiscardsOnArrival arriving reason) →
        s'.world.replies port=s.world.replies port++[some arriving.taken] ∧
          s'.queueCount arriving.tag=0 ∧ s'.workerQueueCount arriving.tag=0 ∧
          s'.slotCount arriving.tag=0) ∧
      ((∀reason,¬ arrived.DiscardsOnArrival arriving reason) →
        s'.world.replies port=s.world.replies port++[none]) ∧
      ∀t,Reachable (· = s'.stopIfDrained) (guarded (fun _ label => label.1.Spares port) Step) t →
        t.world.replies port=s'.world.replies port ∧
          ∀t',t.postStop=.ok t'→t'.world.replies port=s'.world.replies port := by
  intro arriving arrived
  split
  next e he => exact dispatch_error he
  next s' hs' =>
    have hbefore : arrived.world.replies port=s.world.replies port :=
      ((s.withOracle oracle).arrived_mute arriving).replies
    have haccounted : Accounted (s',none):=dispatch_accounted h oracle hs'
    have hanswered : Answered port arrived arriving s' := dispatchNumbered_answered hport hs'
    refine ⟨?_,?_,?_⟩
    · rintro ⟨reason,hreason⟩
      cases hanswered with
      | rejected _ hdiscards hlog hreplies =>
        exact ⟨hreplies.trans (by rw [hbefore]),discarded_absent haccounted hlog⟩
      | accepted hkeeps => exact absurd hreason (hkeeps reason)
    · intro hkept
      cases hanswered with
      | rejected _ hdiscards => exact absurd hdiscards (hkept _)
      | accepted _ hreplies => exact hreplies.trans (by rw [hbefore])
    · intro t ht
      have hrouting:=dispatch_routing (H:=fun _ => True) hs'
      have hunported : s'.Unported port:=hrouting.unported hown
      obtain ⟨hstopped,hlater⟩:=stopIfDrained_mute hunported
      obtain ⟨hmute,-⟩:=reachable_mute hlater ht
      have hmute:=hstopped.trans hmute
      exact ⟨hmute.replies,fun t' ht' => (hmute.trans (postStop_mute ht')).replies⟩

/-- A job that reaches a draining factory is handed back. -/
theorem one_reply_per_job_draining :
    let job : Job ℕ Unit := {Job.plain 1 with accepted:=some 7}
    ∃s s' : FactoryState ℕ Unit (BuiltInRouter ℕ Unit Unlimited) (BuiltInQueue ℕ Unit StandardPriority),
      Reached (.plain 1 (.bare (.queuer {}))) s ∧ s.Unported 7 ∧
        (s.withOracle .calm).dispatch job=.ok s' ∧
        s'.world.replies 7=s.world.replies 7++[some (job.numbered s.world.nextJob).taken] := by
  intro job
  obtain ⟨s,hs,ht⟩:=exists_reached
    (.plain 1 (.bare (.queuer {}) : BuiltInRouter ℕ Unit Unlimited)) .calm 0
    (calmly [.drainRequests])
    (fun s => s.drainState != .notDraining && (contents s.queue).isEmpty &&
      ((s.withOracle .calm).dispatch job).toOption.isSome) rfl (by decide +kernel)
  simp only [Bool.and_eq_true,bne_iff_ne,List.isEmpty_iff] at ht
  obtain ⟨⟨hdrain,hempty⟩,hsome⟩:=ht
  obtain ⟨s',hs'⟩:=Option.isSome_iff_exists.mp hsome
  have hok:=FactoryState.eq_ok_of_toOption hs'
  have hown : s.Unported 7 := by simp [Unported,hempty]
  have hreply:=one_reply_per_job _ hs .calm job (rfl : job.accepted=some 7) hown
  rw [hok] at hreply
  exact ⟨s,s',hs,hown,hok,(hreply.1 ⟨_,.draining rfl hdrain⟩).1⟩

end Ractor.Factory
