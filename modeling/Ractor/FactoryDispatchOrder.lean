import Ractor.FactoryWorkConservation

/-!
# The order of dispatch under queuer routing

The log records every call of `dispatch` and every call of `enqueue_job`. The jobs passed to the
latter, followed by the jobs that still wait, form a subsequence of the jobs passed to the
former. A dispatched job that goes straight to a worker joins at the end, which is right only
if no job waits then: work conservation says so, since the worker is available.
-/

namespace Ractor.Factory
open Effect.IsHousekeeping List Effect.IsStaffing Effect.OfWorker Job Effect World.Writes

variable {Key Msg R Q : Type}

open LawfulQueue (contents)

/-- Log entries that are no call of `dispatch` and no call of `enqueue_job`. -/
def Effect.IsRouteless (effect : Effect Key Msg) : Prop :=
  effect.dispatchedJob=none ∧ effect.enqueuedJob=none

variable {effect : Effect Key Msg}

theorem Effect.IsHousekeeping.routeless (h : effect.IsHousekeeping) : effect.IsRouteless := by
  cases effect <;> first | exact ⟨rfl,rfl⟩ | exact h.elim

theorem Effect.IsStaffing.routeless (h : effect.IsStaffing) : effect.IsRouteless := by
  cases effect <;> first | exact ⟨rfl,rfl⟩ | exact h.elim

theorem Effect.OfWorker.routeless {w : WorkerProperties Key Msg} (h : effect.OfWorker w) :
    effect.IsRouteless := by
  cases effect <;> first | exact ⟨rfl,rfl⟩ | exact h.elim

namespace World.Writes
variable {world world' : World Key Msg}

theorem dispatchedJobs (h : world.Writes IsRouteless world') :
    world'.dispatchedJobs=world.dispatchedJobs :=
  (h.imp fun _ => And.left).filterMap_log

theorem enqueuedJobs (h : world.Writes IsRouteless world') :
    world'.enqueuedJobs=world.enqueuedJobs :=
  (h.imp fun _ => And.right).filterMap_log

end World.Writes

variable {s s' : FactoryState Key Msg R Q}

namespace FactoryState

/-! ### Taking a job into the queue -/

theorem arrived_calls (s : FactoryState Key Msg R Q) (job : Job Key Msg) :
    (s.arrived job).world.dispatchedJobs=s.world.dispatchedJobs++[job] ∧
      (s.arrived job).world.enqueuedJobs=s.world.enqueuedJobs := by
  simp [arrived,World.dispatchedJobs,World.enqueuedJobs,dispatchedJob,enqueuedJob]

theorem completeJob_routeless [DecidableEq Key] (hc : WorkersConsistent s) (who : WorkerId) (key : Key) :
    s.world.Writes IsRouteless (s.completeJob who key).world := by
  unfold completeJob
  split
  next => exact .of_log rfl
  next worker hl =>
    exact imp (worker.workerComplete_frame (hc who worker hl).slot key s.world).log
      fun _ => routeless

section Storing
variable [Queue Q Key Msg] {F : Q → List (Job Key Msg)}

theorem shedQueue_sublist (hs : ∀q q' (job : Job Key Msg),Queue.discardOldest q=some (job,q') →
      (F q').Sublist (F q))
    (limit fuel : ℕ) (s : FactoryState Key Msg R Q) :
    (F (shedQueue limit fuel s).queue).Sublist (F s.queue) := by
  induction fuel generalizing s with
  | zero => exact .refl _
  | succ fuel ih =>
    unfold shedQueue
    split
    · split
      · exact ih s
      next job queue hd => exact (ih _).trans (hs _ _ _ hd)
    · exact .refl _

/-- A view of the queue in which a stored job comes last, if it is kept at all. -/
theorem maybeEnqueue_sublist {s s' : FactoryState Key Msg R Q} {job : Job Key Msg}
    {added : List (Job Key Msg)}
    (hp : ∀q',Queue.pushBack s.queue job.taken=.ok q'→(F q').Sublist (F s.queue++added))
    (hs : ∀q q' (job : Job Key Msg),Queue.discardOldest q=some (job,q')→(F q').Sublist (F q))
    (h : s.maybeEnqueue job=.ok s') : (F s'.queue).Sublist (F s.queue++added) := by
  have ha : ∀t,s.acceptIntoQueue job=.ok t→(F t.queue).Sublist (F s.queue++added) := by
    intro t ht
    unfold acceptIntoQueue at ht
    split at ht
    · cases ht
    next queue hq =>
      cases ht
      exact hp queue hq
  unfold maybeEnqueue at h
  split at h
  · split at h
    · cases h
      exact sublist_append_left _ _
    · exact ha s' h
  · split at h
    · cases h
    next t ht =>
      cases h
      exact (shedQueue_sublist hs _ _ t).trans (ha t ht)
  · exact ha s' h

end Storing
end FactoryState

/-! ### The order of the dispatches -/

variable [Queue Q Key Msg] [LawfulQueue Q]

/-- What was routed and what waits, in this order, is a subsequence of what was dispatched. A job
gives up its port when it is accepted into the queue. -/
def InDispatchOrder (s : FactoryState Key Msg R Q) : Prop :=
  ((s.world.enqueuedJobs++contents s.queue).map taken).Sublist (s.world.dispatchedJobs.map taken)

namespace InDispatchOrder

theorem shrinks (h : InDispatchOrder s) (hw : s.world.Writes IsRouteless s'.world)
    (hq : (contents s'.queue).Sublist (contents s.queue)) : InDispatchOrder s' := by
  unfold InDispatchOrder
  rw [hw.dispatchedJobs,hw.enqueuedJobs]
  exact ((hq.append_left _).map _).trans h

theorem housekeeping (h : InDispatchOrder s) (hk : Housekeeping s s') : InDispatchOrder s' :=
  h.shrinks (hk.writes.imp fun _ => routeless) hk.queue

end InDispatchOrder

/-- Nothing is routed while the workers are spawned. -/
theorem FactoryState.starts_inOrder [Router R Key Msg] {args : FactoryArguments R Q}
    (hq : contents args.queue=[]) (h : Starts args s) : InDispatchOrder s := by
  refine starts_rec (P:=fun _ t => InDispatchOrder t) ?_ ?_ ?_ h
  · intro oracle firstPid firstJob _
    simp [InDispatchOrder,initial,hq,World.enqueuedJobs,World.dispatchedJobs]
  · intro n t t' ha ht
    obtain ⟨hq,hw⟩:=addWorker_staffing ha
    exact ht.shrinks (hw.imp fun _ => routeless) (by rw [hq])
  · intro n t t' hk ht
    exact ht.housekeeping hk

variable [DecidableEq Key]

/-- `enqueue_job` is called once, and nothing is dispatched meanwhile. -/
theorem WorkerProperties.enqueueJob_calls (w : WorkerProperties Key Msg) (job : Job Key Msg)
    (world : World Key Msg) :
    (w.enqueueJob job world).2.dispatchedJobs=world.dispatchedJobs ∧
      (w.enqueueJob job world).2.enqueuedJobs=world.enqueuedJobs++[job] := by
  have hw : (world.record (.enqueued w job)).Writes IsRouteless (w.enqueueJob job world).2 :=
    imp (w.enqueueJob_frame job world).log fun _ => routeless
  rw [hw.dispatchedJobs,hw.enqueuedJobs]
  simp [World.dispatchedJobs,World.enqueuedJobs,dispatchedJob,enqueuedJob]

theorem WorkerProperties.replaceWorker_routeless (w : WorkerProperties Key Msg)
    (h : w.currJobs.entries.length≤1) (nworker : ActorId) (world : World Key Msg) :
    world.Writes IsRouteless (w.replaceWorker nworker world).2 := by
  have hg : world.Writes IsRouteless
      {world with log:=world.log++w.currJobs.entries.map fun e => .abandoned w.actor e.2} :=
    ⟨_,rfl,forall_mem_map.mpr fun _ _ => ⟨rfl,rfl⟩⟩
  exact hg.trans (imp (w.replaceWorker_frame h nworker world).log fun _ => routeless)

namespace FactoryState

/-! ### Routing -/

section Routing
variable [Router R Key Msg]

theorem replaceExited_routeless {who : ActorId} {wid : WorkerId}
    {worker : WorkerProperties Key Msg} (hc : worker.Consistent)
    (h : s.replaceExited who wid worker=.ok s') :
    s.world.Writes IsRouteless s'.world := by
  obtain ⟨replacement,world,hsp,hk⟩:=replaceExited_cases h
  obtain ⟨_,-,-,-,hlog⟩:=s.world.spawn_ok hsp
  have hs : s.world.Writes IsRouteless world := ⟨_,hlog,forall_mem_singleton.mpr ⟨rfl,rfl⟩⟩
  exact (hs.trans (worker.replaceWorker_routeless hc.slot replacement world)).trans
    (hk.writes.imp fun _ => routeless)

variable [LawfulRouter R] [RoutesByChoice R]

/-- The head of the backlog is routed first. -/
theorem tryRouteNextActiveJob_inOrder {hint : Option WorkerId}
    (h : s.tryRouteNextActiveJob hint=.ok s') (hs : InDispatchOrder s) : InDispatchOrder s' := by
  have hsu:=liveBacklog_suffix s.world.oracle.clock (contents s.queue)
  cases tryRouteNextActiveJob_attempted h with
  | exhausted _ hq _ hw =>
    refine hs.shrinks (hw.imp fun _ => routeless) ?_
    rw [hq]
    exact nil_sublist _
  | stuck hj hq _ _ hw =>
    refine hs.shrinks (hw.imp fun _ => routeless) ?_
    rw [hq,← hj]
    exact hsu.sublist
  | @routed job rest wid w world hj hq _ _ _ hw hwr =>
    have hw:=hw.imp fun _ => routeless
    obtain ⟨hd,he⟩:=w.enqueueJob_calls job world
    have hr : (job::rest).Sublist (contents s.queue) := by
      rw [← hj]
      exact hsu.sublist
    unfold InDispatchOrder
    rw [hwr,hd,he,hq,hw.dispatchedJobs,hw.enqueuedJobs,append_assoc]
    exact ((hr.append_left _).map _).trans hs

/-- The work other than a dispatch routes jobs from the head of the backlog only. -/
theorem work_inOrder {work : Work Key Msg} (h : s.work work=.ok s')
    (hwo : ∀job,work≠.dispatch job) (hc : WorkersConsistent s) (hs : InDispatchOrder s) :
    InDispatchOrder s' := by
  refine work_rec (I:=InDispatchOrder) (G:=fun _ => True) ?_ ?_ ?_ ?_ ?_
    (fun _ _ _ _ _ _ hro ht => tryRouteNextActiveJob_inOrder hro ht) ?_ hs h hwo fun _ _ => trivial
  · intro who key
    exact hs.shrinks (completeJob_routeless hc who key) (by rw [(completeJob_frame s who key).1])
  · exact fun t _ _ _ _ ht => ht.shrinks (.record t.world ⟨rfl,rfl⟩) (.refl _)
  · intro who wid worker t _ hl ht
    exact hs.shrinks (replaceExited_routeless (hc _ _ hl) ht) (by rw [(replaceExited_frame ht).1])
  · intro toAdd t hg
    obtain ⟨hq,hw⟩:=growPool_staffing hg
    exact hs.shrinks (hw.imp fun _ => routeless) (by rw [hq])
  · intro toRemove
    obtain ⟨hq,hw⟩:=shrinkPool_staffing s toRemove
    exact hs.shrinks (hw.imp fun _ => routeless) (by rw [hq])
  · intro t t' _ hq hw ht
    unfold InDispatchOrder at ht ⊢
    rwa [hq,hw]

end Routing

/-! ### Dispatch -/

/-- A job that a queuer routes on arrival overtakes nobody: the worker is available, so no job
waits. -/
theorem dispatch_inOrder
    {s s' : FactoryState Key Msg (QueuerRouting Key Msg) (DefaultQueue Key Msg)} {job : Job Key Msg}
    (h : s.dispatch job=.ok s') (hco : s.WorkConserving) (hs : InDispatchOrder s) :
    InDispatchOrder s' := by
  have hd:=dispatch_dispatched h
  generalize job.numbered s.world.nextJob=job at hd
  obtain ⟨har,hca⟩:=s.arrived_calls job
  have hmap : (s.world.dispatchedJobs++[job]).map taken =
      s.world.dispatchedJobs.map taken++[job.taken] := by simp
  unfold InDispatchOrder at hs ⊢
  cases hd with
  | refused hq _ hw =>
    have hw:=hw.imp fun _ => routeless
    rw [hw.dispatchedJobs,hw.enqueuedJobs,har,hca,hmap,hq]
    exact hs.trans (sublist_append_left _ _)
  | @routed wid w world _ _ hq hl ht _ hw hwr =>
    have hw:=hw.imp fun _ => routeless
    have hem : contents s.queue=[] := by
      by_contra hne
      have ha : w.isAvailable=true:=ht.1
      rw [hco hne wid w hl] at ha
      cases ha
    obtain ⟨hd,he⟩:=w.enqueueJob_calls job world
    rw [hwr,hd,he,hw.dispatchedJobs,hw.enqueuedJobs,har,hca,hmap,hq,hem,append_nil,map_append]
    rw [hem,append_nil] at hs
    exact hs.append_right _
  | stored _ _ _ hac =>
    obtain ⟨t,hq,-,hw,ht⟩:=hac
    have hw:=(hw.trans (maybeEnqueue_frame ht).2.2).imp fun _ => routeless
    have hst : (contents s'.queue).Sublist (contents t.queue++[job.taken]) := by
      refine maybeEnqueue_sublist ?_ ?_ ht
      · rintro _ ⟨⟩
        exact .refl _
      · intro q q' shed hd
        have hc : contents q=shed::contents q':=LawfulQueue.popFront_some hd
        rw [hc]
        exact sublist_cons_self _ _
    rw [hw.dispatchedJobs,hw.enqueuedJobs,har,hca,hmap]
    rw [hq] at hst
    refine ((hst.append_left _).map _).trans ?_
    rw [← append_assoc,map_append]
    exact hs.append_right _

/-! ### Runs -/

theorem reached_inOrder {args : FactoryArguments (QueuerRouting Key Msg) (DefaultQueue Key Msg)}
    (hr : args.router={}) (hq : contents args.queue=[])
    {s : FactoryState Key Msg (QueuerRouting Key Msg) (DefaultQueue Key Msg)} (h : Reached args s) :
    InDispatchOrder s := by
  have ht : IndexedRouter.Tracks args.router fun _ => False := by
    rw [hr]
    exact AvailableWorkers.tracks_empty
  refine (shaped_rec (P:=fun s => InDispatchOrder s ∧ Balanced True none 0 s) ?_ ?_ ?_
    (reached_meets h)).1.1
  · intro s hs
    exact ⟨starts_inOrder hq hs,starts_balanced hq ht (fun _ _ _ => id) hs⟩
  · intro s s' hk ⟨ho,hb⟩
    exact ⟨ho.housekeeping hk,hk.balanced hb⟩
  · intro s work s' _ hw hsh hc ⟨ho,hb⟩
    refine ⟨?_,work_balanced hw hsh.own ?_ hb⟩
    · by_cases hd : ∃job,work=.dispatch job
      · obtain ⟨job,rfl⟩:=hd
        exact dispatch_inOrder hw hb.workConserving ho
      · exact work_inOrder hw (fun job hjob => hd ⟨job,hjob⟩) hc ho
    · rintro - attempt - job rest - ⟨_,w,_,hst⟩
      exact hst.elim

end FactoryState

/-- A factory with queuer routing and the default queue passes jobs to `enqueue_job` in the
order in which they were dispatched. -/
theorem queuer_never_overtakes
    (args : FactoryArguments (QueuerRouting Key Msg) (DefaultQueue Key Msg))
    (hr : args.router={}) (hq : contents args.queue=[])
    {s : FactoryState Key Msg (QueuerRouting Key Msg) (DefaultQueue Key Msg)}
    (h : FactoryState.Reached args s) :
    (s.world.enqueuedJobs.map taken).Sublist (s.world.dispatchedJobs.map taken) := by
  have hs:=FactoryState.reached_inOrder hr hq h
  unfold InDispatchOrder at hs
  rw [map_append] at hs
  exact (sublist_append_left _ _).trans hs

/-- One worker, three jobs and a completion: the first two are routed and the third waits. -/
theorem queuer_never_overtakes_replayed :
    ∃s,FactoryState.Reached (⟨1,{},{},none,.none,none,false,false⟩ :
        FactoryArguments (QueuerRouting ℕ Unit) (DefaultQueue ℕ Unit)) s ∧
      s.world.enqueuedJobs.map key=[1,2] ∧
      s.world.dispatchedJobs.map key=[1,2,3] ∧
      (s.world.enqueuedJobs.map taken).Sublist (s.world.dispatchedJobs.map taken) := by
  obtain ⟨s,hs,ht⟩:=FactoryState.exists_reached (⟨1,{},{},none,.none,none,false,false⟩ :
      FactoryArguments (QueuerRouting ℕ Unit) (DefaultQueue ℕ Unit)) .calm 0
    (calmly [.dispatch (.plain 1),.dispatch (.plain 2),.dispatch (.plain 3),.finished 0 1])
    (fun s => decide (s.world.enqueuedJobs.map key=[1,2] ∧
      s.world.dispatchedJobs.map key=[1,2,3])) rfl (by decide +kernel)
  obtain ⟨he,hd⟩:=of_decide_eq_true ht
  exact ⟨s,hs,he,hd,queuer_never_overtakes _ rfl rfl hs⟩

end Ractor.Factory
