import Ractor.FactoryWorkerInvariants

/-!
# What the worker operations leave alone

`Frame` lists everything a chain of moves does not touch: who the worker is, its
settings, the pid and job counters, and the part of the log that is already written.
The last sections say when a worker is available after an operation, and in which order it sends.
-/

namespace Ractor.Factory
variable {Key Msg : Type} [DecidableEq Key]

open WorkerProperties

def Effect.OfWorker (w : WorkerProperties Key Msg) : Effect Key Msg → Prop
  | .cast actor _ _ => actor=w.actor
  | .discarded handler _ _ => w.discardHandler=some handler
  | .dropped _ _ => w.discardHandler=none
  | .completed actor _ => actor=w.actor
  | .accepted _ => True
  | .rejected _ _ => True
  | _ => False

structure Frame (d d' : Desk Key Msg) : Prop where
  wid : d'.1.wid=d.1.wid
  actor : d'.1.actor=d.1.actor
  isDraining : d'.1.isDraining=d.1.isDraining
  discardHandler : d'.1.discardHandler=d.1.discardHandler
  discardSettings : d'.1.discardSettings=d.1.discardSettings
  nextPid : d'.2.nextPid=d.2.nextPid
  nextJob : d'.2.nextJob=d.2.nextJob
  log : ∃effects,d'.2.log=d.2.log++effects ∧ ∀effect∈effects,effect.OfWorker d.1

namespace Frame

omit [DecidableEq Key]

theorem refl (d : Desk Key Msg) : Frame d d := ⟨rfl,rfl,rfl,rfl,rfl,rfl,rfl,[],by simp⟩

theorem trans {a b c : Desk Key Msg} (h : Frame a b) (h' : Frame b c) : Frame a c := by
  obtain ⟨es,hl,he⟩:=h.log
  obtain ⟨es',hl',he'⟩:=h'.log
  refine ⟨h'.wid.trans h.wid,h'.actor.trans h.actor,h'.isDraining.trans h.isDraining,
    h'.discardHandler.trans h.discardHandler,h'.discardSettings.trans h.discardSettings,
    h'.nextPid.trans h.nextPid,h'.nextJob.trans h.nextJob,es++es',by simp [hl,hl'],?_⟩
  intro effect hm
  rcases List.mem_append.mp hm with hm | hm
  · exact he effect hm
  · have ho:=he' effect hm
    cases effect <;> simp_all [Effect.OfWorker,h.actor,h.discardHandler]

variable (w : WorkerProperties Key Msg) (world : World Key Msg) (job : Job Key Msg)

/-- A change of the world that appends one entry and keeps the counters. -/
theorem record {effect : Effect Key Msg} (h : effect.OfWorker w) :
    Frame (w,world) (w,world.record effect) :=
  ⟨rfl,rfl,rfl,rfl,rfl,rfl,rfl,[effect],rfl,by simpa using h⟩

theorem accept : Frame (w,world) (w,world.accept job) := by
  unfold World.accept
  split
  · exact record w world trivial
  · exact refl _

theorem reject : Frame (w,world) (w,world.reject job) := by
  unfold World.reject
  split
  · exact record w world trivial
  · exact refl _

theorem discard (reason : DiscardReason) (job : Job Key Msg) :
    Frame (w,world) (w,world.discard w.discardHandler reason job) := by
  cases hh : w.discardHandler with
  | none | some handler => exact record w world hh

end Frame

theorem WorkerMove.frame {d d' : Desk Key Msg} (h : WorkerMove d d') : Frame d d' := by
  cases h with
  | tick w world => exact ⟨rfl,rfl,rfl,rfl,rfl,rfl,rfl,[],by simp⟩
  | @discard w world job rest reason hq =>
    have hd:=Frame.discard w world reason job
    exact ⟨by simp,by simp,by simp,by simp,by simp,hd.nextPid,hd.nextJob,hd.log⟩
  | @deliver w world job rest hq hs hd | @bounce w world job rest hq hs hd =>
    exact ⟨rfl,rfl,rfl,rfl,rfl,rfl,rfl,_,rfl,by simp [Effect.OfWorker]⟩

theorem Moves.frame {d d' : Desk Key Msg} (h : Moves d d') : Frame d d' :=
  h.preserves (P:=Frame d) (fun _ _ hm hf => hf.trans hm.frame) (.refl d)

namespace WorkerProperties
variable (w : WorkerProperties Key Msg) (job : Job Key Msg) (world : World Key Msg)

theorem enqueueJob_frame : Frame (w,world.record (.enqueued w job)) (w.enqueueJob job world) := by
  cases hr : w.refusesNewest with
  | true =>
    rw [enqueueJob_refused job world hr]
    exact (Frame.discard w _ _ job).trans (Frame.reject w _ job)
  | false =>
    have ha:=Frame.accept w (world.record (.enqueued w job)) job
    have hm:=(enqueueJob_moves job world hr).frame
    refine ha.trans ⟨hm.wid,hm.actor,hm.isDraining,hm.discardHandler,hm.discardSettings,
      hm.nextPid,hm.nextJob,?_⟩
    obtain ⟨es,hl,he⟩:=hm.log
    refine ⟨es,hl,fun effect h => ?_⟩
    have ho:=he effect h
    cases effect <;> exact ho

omit [DecidableEq Key] in
/-- What a log entry of a worker is only depends on its actor and its handler. -/
theorem ofWorker_congr {w w' : WorkerProperties Key Msg} (ha : w'.actor=w.actor)
    (hh : w'.discardHandler=w.discardHandler) {effect : Effect Key Msg}
    (h : effect.OfWorker w') : effect.OfWorker w := by
  cases effect <;> simp_all [Effect.OfWorker]

theorem workerComplete_frame {w : WorkerProperties Key Msg} (h : w.currJobs.entries.length≤1)
    (key : Key) (world : World Key Msg) : Frame (w,world) (w.workerComplete key world).2 := by
  cases hk : w.currJobs.lookup key with
  | none =>
    simp only [workerComplete,hk]
    exact .refl _
  | some options =>
    have hr : Frame (w,world) (w,world.record (.completed w.actor options)):=.record w world rfl
    have hm:=(workerComplete_moves h hk world).frame
    have ha : (w.freeSlot key).actor=w.actor:=untrackPendingKey_actor _ _
    have hh : (w.freeSlot key).discardHandler=w.discardHandler :=
      untrackPendingKey_discardHandler _ _
    obtain ⟨es,hl,he⟩:=hm.log
    exact hr.trans ⟨hm.wid.trans (untrackPendingKey_wid _ _),hm.actor.trans ha,
      hm.isDraining.trans (untrackPendingKey_isDraining _ _),hm.discardHandler.trans hh,
      hm.discardSettings.trans (untrackPendingKey_discardSettings _ _),hm.nextPid,hm.nextJob,
      es,hl,fun effect h => ofWorker_congr ha hh (he effect h)⟩

/-- A replacement logs the job it gives up, under the old actor, and then acts for the
new one. -/
theorem replaceWorker_frame {w : WorkerProperties Key Msg} (h : w.currJobs.entries.length≤1)
    (nworker : ActorId) (world : World Key Msg) :
    Frame (w.rehired nworker,
        {world with log:=world.log++w.currJobs.entries.map fun e => .abandoned w.actor e.2})
      (w.replaceWorker nworker world) := by
  rcases replaceWorker_moves h nworker world with ⟨hs,hm⟩ | ⟨key,options,hk,hm⟩
  · simpa [hs] using hm.frame
  · have hm:=hm.frame
    have hf : (w.freeSlot key).discardHandler=w.discardHandler :=
      untrackPendingKey_discardHandler _ _
    obtain ⟨es,hl,he⟩:=hm.log
    refine ⟨hm.wid.trans (untrackPendingKey_wid _ _),hm.actor,
      hm.isDraining.trans (untrackPendingKey_isDraining _ _),hm.discardHandler.trans hf,
      hm.discardSettings.trans (untrackPendingKey_discardSettings _ _),hm.nextPid,hm.nextJob,
      es,?_,fun effect h => ?_⟩
    · rw [hl,slot_lookup h hk]
      rfl
    · have ha : ((w.freeSlot key).rehired nworker).actor=(w.rehired nworker).actor:=rfl
      exact ofWorker_congr ha hf (he effect h)

/-! ### Availability -/

theorem shedOldest_currJobs (limit fuel : ℕ) (w : WorkerProperties Key Msg)
    (world : World Key Msg) : (shedOldest limit fuel w world).1.currJobs=w.currJobs := by
  induction fuel generalizing w world with
  | zero => rfl
  | succ fuel ih =>
    have hc:=nextNonExpired_currJobs w.messageQueue w world
    unfold shedOldest getNextNonExpiredJob
    split
    · rcases hr : nextNonExpired w.messageQueue w world with ⟨_ | job,w',world'⟩
      · rw [hr] at hc
        exact (ih w' world').trans hc
      · rw [hr] at hc
        exact (ih _ _).trans ((untrackPendingKey_currJobs _ _).trans hc)
    · rfl

theorem dispatchJob_not_available : (w.dispatchJob job world).1.isAvailable=false := by
  unfold dispatchJob
  split <;> simp [isAvailable]

/-- A worker that was just given a job is not available, whatever became of the job. -/
theorem enqueueJob_not_available : (w.enqueueJob job world).1.isAvailable=false := by
  cases hr : w.refusesNewest with
  | true =>
    rw [enqueueJob_refused job world hr]
    unfold refusesNewest at hr
    split at hr
    · simp only [Bool.and_eq_true,Bool.not_eq_true'] at hr
      exact hr.1
    · cases hr
  | false =>
    by_cases hs : w.currJobs.entries=[]
    · rw [enqueueJob_idle job world hr (w.currJobs_eq_empty hs)]
      split
      · exact dispatchJob_not_available _ _ _
      · exact dispatchJob_not_available _ _ _
    · have hc : (w.acceptJob job).isAvailable=false := by
        simp [isAvailable,acceptJob]
      rw [enqueueJob_busy job world hr hs]
      split
      · have hb:=shedOldest_currJobs ‹ℕ› (w.messageQueue.length+1) (w.acceptJob job)
          ((world.record (.enqueued w job)).accept job)
        rw [isAvailable,hb]
        simp [acceptJob,hs]
      · exact hc

end WorkerProperties

/-! ### A worker and its queue -/

section Lines

open List Effect

def Effect.DeliversNone (effect : Effect Key Msg) : Prop:=effect.deliveredJob=none

variable {world world' : World Key Msg} {w : WorkerProperties Key Msg} {d d' : Desk Key Msg}
  {line : List (Job Key Msg)}

omit [DecidableEq Key] in
theorem World.Writes.deliveredJobs (h : world.Writes DeliversNone world') :
    world'.deliveredJobs=world.deliveredJobs :=
  h.filterMap_log

/-- What was delivered since, followed by what the worker has queued, comes from a line of jobs
in the same order. -/
def SendsFrom (line : List (Job Key Msg)) (world : World Key Msg) (d : Desk Key Msg) : Prop :=
  ∃sent,d.2.deliveredJobs=world.deliveredJobs++sent ∧ (sent++d.1.messageQueue).Sublist line

namespace SendsFrom

omit [DecidableEq Key]

theorem of_queue (hq : w.messageQueue.Sublist line) (hw : world.Writes DeliversNone world') :
    SendsFrom line world (w,world') :=
  ⟨[],by rw [hw.deliveredJobs,List.append_nil],hq⟩

theorem trans (h : SendsFrom line world d) (h' : SendsFrom d.1.messageQueue d.2 d') :
    SendsFrom line world d' := by
  obtain ⟨sent,hd,hs⟩:=h
  obtain ⟨sent',hd',hs'⟩:=h'
  refine ⟨sent++sent',by rw [hd',hd,append_assoc],?_⟩
  rw [append_assoc]
  exact (hs'.append_left sent).trans hs

/-- The jobs that were delivered and then those that wait are still in the order of a list. -/
theorem sublist {jobs : List (Job Key Msg)} (h : SendsFrom line world d)
    (hl : (world.deliveredJobs++line).Sublist jobs) :
    (d.2.deliveredJobs++d.1.messageQueue).Sublist jobs := by
  obtain ⟨sent,hd,hs⟩:=h
  rw [hd,append_assoc]
  exact (hs.append_left _).trans hl

end SendsFrom

theorem WorkerMove.sendsFrom (h : WorkerMove d d') : SendsFrom d.1.messageQueue d.2 d' := by
  cases h with
  | tick w world => exact .of_queue (.refl _) (.of_log rfl)
  | @discard w world job rest reason hq =>
    refine .of_queue ?_ (.discard world _ _ _ (fun _ => rfl) rfl)
    rw [hq]
    simp
  | @deliver w world job rest hq hs hd =>
    refine ⟨[job],?_,by rw [hq]; exact .refl _⟩
    simp [World.deliveredJobs,hd,deliveredJob]
  | @bounce w world job rest hq hs hd =>
    refine ⟨[],?_,.refl _⟩
    simp [World.deliveredJobs,hd,deliveredJob]

theorem Moves.sendsFrom (h : Moves d d') : SendsFrom d.1.messageQueue d.2 d' :=
  h.preserves (P:=SendsFrom d.1.messageQueue d.2) (fun _ _ hm hs => hs.trans hm.sendsFrom)
    (.of_queue (.refl _) (.of_log rfl))

namespace WorkerProperties

/-- A job given to a worker joins the end of its line. -/
theorem enqueueJob_sendsFrom (w : WorkerProperties Key Msg) (job : Job Key Msg)
    (world : World Key Msg) :
    SendsFrom (w.messageQueue++[job.taken]) world (w.enqueueJob job world) := by
  have hre : world.Writes DeliversNone (world.record (.enqueued w job)):=.record world rfl
  cases hr : w.refusesNewest with
  | true =>
    rw [enqueueJob_refused job world hr]
    exact .of_queue (sublist_append_left _ _) (hre.trans
      (.trans (.discard _ _ _ _ (fun _ => rfl) rfl) (.reject _ job fun _ => rfl)))
  | false =>
    exact SendsFrom.trans (.of_queue (.refl _) (hre.trans (.accept _ job fun _ => rfl)))
      (enqueueJob_moves job world hr).sendsFrom

theorem workerComplete_sendsFrom (h : w.currJobs.entries.length≤1) (key : Key)
    (world : World Key Msg) : SendsFrom w.messageQueue world (w.workerComplete key world).2 := by
  cases hk : w.currJobs.lookup key with
  | none =>
    simp only [workerComplete,hk]
    exact .of_queue (.refl _) (.of_log rfl)
  | some options =>
    refine SendsFrom.trans ?_ (workerComplete_moves h hk world).sendsFrom
    exact .of_queue (by simp [freeSlot]) (.record world rfl)

theorem replaceWorker_sendsFrom (h : w.currJobs.entries.length≤1) (nworker : ActorId)
    (world : World Key Msg) : SendsFrom w.messageQueue world (w.replaceWorker nworker world) := by
  rcases replaceWorker_moves h nworker world with ⟨_,hm⟩ | ⟨key,options,_,hm⟩
  · exact hm.sendsFrom
  · refine SendsFrom.trans ?_ hm.sendsFrom
    exact .of_queue (by simp [rehired,freeSlot]) (.record world rfl)

end WorkerProperties
end Lines
end Ractor.Factory
