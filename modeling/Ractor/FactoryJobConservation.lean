import Ractor.FactoryPoolShape

/-!
# Job conservation

Every dispatched job carries its own tag. The books of a factory count, for a tag, the
jobs in the factory queue, in the workers' queues and slots, in hand, and the log entries
that settle one. No move but an arrival changes that sum, and an arrival uses a tag that
occurs nowhere else.
-/

namespace Ractor.Factory
open Effect FactoryState List World FiniteMap Option

variable {Key Msg R Q : Type} {H : Option HandlerId→Prop} {hint : Option WorkerId}

open LawfulQueue (contents)
open WorkerProperties

/-! ### Counting the log -/

def Effect.dispatchedTag : Effect Key Msg → Option ℕ
  | .dispatched job => some job.tag
  | _ => none

def Effect.completedTag : Effect Key Msg → Option ℕ
  | .completed _ options => some options.tag
  | _ => none

def Effect.discardedTag : Effect Key Msg → Option ℕ
  | .discarded _ _ job => some job.tag
  | _ => none

def Effect.droppedTag : Effect Key Msg → Option ℕ
  | .dropped _ job => some job.tag
  | _ => none

def Effect.abandonedTag : Effect Key Msg → Option ℕ
  | .abandoned _ options => some options.tag
  | _ => none

def World.tagCount (classify : Effect Key Msg → Option ℕ) (tag : ℕ) (world : World Key Msg) : ℕ :=
  world.log.countP fun effect => classify effect=some tag

variable {world : World Key Msg} {s s' : FactoryState Key Msg R Q} {w : WorkerProperties Key Msg}
  {effect : Effect Key Msg} {a b : Hand Key Msg R Q} {args : FactoryArguments R Q}

section TagCount
variable (classify : Effect Key Msg→Option ℕ) (tag : ℕ) (world)

theorem World.tagCount_append {world world' : World Key Msg} {effects : List (Effect Key Msg)}
    (h : world'.log=world.log++effects) :
    world'.tagCount classify tag =
      world.tagCount classify tag+effects.countP fun effect => classify effect=some tag := by
  unfold tagCount
  rw [h,countP_append]

/-- Entries the classification ignores do not change its counts. -/
theorem World.tagCount_of_ignored {world world' : World Key Msg} {effects : List (Effect Key Msg)}
    (h : world'.log=world.log++effects) (he : ∀effect∈effects,classify effect=none) :
    world'.tagCount classify tag=world.tagCount classify tag := by
  rw [tagCount_append classify tag h,countP_eq_zero.mpr,Nat.add_zero]
  intro effect hm
  simp [he effect hm]

/-- What settles a job is a completion, a discard, a drop without handler or a loss. -/
theorem World.settledCount_eq :
    world.settledCount tag=world.tagCount completedTag tag+world.tagCount discardedTag tag +
        world.tagCount droppedTag tag+world.tagCount abandonedTag tag := by
  unfold settledCount tagCount
  induction world.log with
  | nil => rfl
  | cons effect log ih =>
    have hone : (if decide (effect.settledTag=some tag)=true then 1 else 0) =
        (if decide (effect.completedTag=some tag)=true then 1 else 0) +
          (if decide (effect.discardedTag=some tag)=true then 1 else 0) +
          (if decide (effect.droppedTag=some tag)=true then 1 else 0) +
          if decide (effect.abandonedTag=some tag)=true then 1 else 0 := by
      cases effect <;> simp [settledTag,completedTag,discardedTag,droppedTag,abandonedTag]
    simp only [countP_cons,ih]
    omega

end TagCount

theorem Effect.OfWorker.dispatchedTag (h : effect.OfWorker w) : effect.dispatchedTag=none := by
  cases effect <;> first | rfl | cases h

theorem retainLive_settled (tag : ℕ) (handler : Option HandlerId) (jobs : List (Job Key Msg))
    (world : World Key Msg) :
    ((retainLive handler jobs world).1.countP fun job => job.tag=tag) +
        (retainLive handler jobs world).2.settledCount tag =
      (jobs.countP fun job => job.tag=tag)+world.settledCount tag := by
  induction jobs generalizing world with
  | nil => rfl
  | cons job rest ih =>
    unfold retainLive
    split
    · rw [ih,settledCount_discard,settledCount_tick,countP_cons]
      simp only [decide_eq_true_eq]
      omega
    · have hr:=ih world.tick
      simp only [countP_cons,settledCount_tick] at hr ⊢
      omega

/-! ### With a discard handler nothing is dropped silently -/

/-- A discard handler is installed at the factory and at every worker, and has been so far. -/
structure HandlerInstalled (s : FactoryState Key Msg R Q) : Prop where
  factory : s.discardHandler.isSome=true
  workers : ∀wid w,s.pool.lookup wid=some w → w.discardHandler.isSome=true
  log : ∀effect∈s.world.log,effect.droppedTag=none

def FactoryEvent.KeepsHandler (event : FactoryEvent Key Msg) : Prop :=
  event.Installs fun handler => handler.isSome=true

def FactoryEvent.isDispatch : FactoryEvent Key Msg → Bool
  | .message (.dispatch _) => true
  | _ => false

theorem keepsHandler_of_isDispatch {event : FactoryEvent Key Msg} (h : event.isDispatch=true) :
    event.KeepsHandler := by
  unfold FactoryEvent.isDispatch at h
  split at h
  · trivial
  · cases h

namespace HandlerInstalled

theorem of_worker (h : HandlerInstalled s) {wid : WorkerId} {w' : WorkerProperties Key Msg}
    (hw : w'.discardHandler.isSome=true) (effects : List (Effect Key Msg))
    (hlog : world.log=s.world.log++effects) (he : ∀effect∈effects,effect.droppedTag=none)
    {index : AList (fun _ : ActorId => WorkerId)} {router : R} :
    HandlerInstalled {s with
      pool:=s.pool.insert wid w',workerByActor:=index,router:=router,world:=world} := by
  refine ⟨h.factory,?_,?_⟩
  · intro k v hk
    rcases lookup_insert_eq_some.mp hk with ⟨_,rfl⟩ | ⟨_,hk⟩
    · exact hw
    · exact h.workers k v hk
  · intro effect hm
    rw [hlog] at hm
    rcases mem_append.mp hm with hm | hm
    · exact h.log effect hm
    · exact he effect hm

theorem of_log (h : HandlerInstalled s) (hd : s'.discardHandler.isSome=true)
    (hp : s'.pool=s.pool) (effects : List (Effect Key Msg))
    (hlog : s'.world.log=s.world.log++effects)
    (he : ∀effect∈effects,effect.droppedTag=none) : HandlerInstalled s' := by
  refine ⟨hd,by rw [hp]; exact h.workers,?_⟩
  intro effect hm
  rw [hlog] at hm
  rcases mem_append.mp hm with hm | hm
  · exact h.log effect hm
  · exact he effect hm

theorem note (hs : HandlerInstalled s) (h : effect.IsNote) :
    HandlerInstalled {s with world:=s.world.record effect} := by
  refine hs.of_log hs.factory rfl [effect] rfl ?_
  intro e he
  obtain rfl:=mem_singleton.mp he
  cases e <;> first | rfl | cases h

end HandlerInstalled

theorem Effect.OfWorker.droppedTag (h : effect.OfWorker w) (hw : w.discardHandler.isSome=true) :
    effect.droppedTag=none := by
  cases effect with
  | dropped reason job =>
    change w.discardHandler=none at h
    rw [h] at hw
    cases hw
  | _ => rfl

/-- A sweep with a handler hands every expired job to it. -/
theorem retainLive_handled (handler : HandlerId) (jobs : List (Job Key Msg))
    (world : World Key Msg) :
    ∃effects,(retainLive (some handler) jobs world).2.log=world.log++effects ∧
      ∀effect∈effects,effect.droppedTag=none := by
  induction jobs generalizing world with
  | nil => exact ⟨[],by simp [retainLive]⟩
  | cons job rest ih =>
    unfold retainLive
    split
    · obtain ⟨es,hl,he⟩:=ih (world.tick.discard (some handler) .ttlExpired job)
      refine ⟨.discarded handler .ttlExpired job::es,by simpa [World.discard] using hl,?_⟩
      intro effect hm
      rcases mem_cons.mp hm with rfl | hm
      · rfl
      · exact he effect hm
    · exact ih world.tick

/-! ### The books -/

variable [Queue Q Key Msg] [LawfulQueue Q]

namespace FactoryState

section
variable (tag : ℕ) (s)

def queueCount : ℕ :=
  (contents s.queue).countP fun job => job.tag=tag

def workerQueueCount : ℕ :=
  total (fun w => w.messageQueue.countP fun job => job.tag=tag) s.pool

def slotCount : ℕ :=
  total (fun w => w.currJobs.entries.countP fun entry => entry.2.tag=tag) s.pool

end
end FactoryState

def Hand.books (tag : ℕ) (a : Hand Key Msg R Q) : ℕ :=
  a.1.queueCount tag+total (WorkerProperties.tally tag) a.1.pool +
    a.1.world.settledCount tag+a.2.toList.countP fun job => job.tag=tag

/-- Neither the counter, nor the dispatches, nor the books change. -/
structure BooksKept (a b : Hand Key Msg R Q) : Prop where
  nextJob : b.1.world.nextJob=a.1.world.nextJob
  dispatched : ∀tag,b.1.world.tagCount dispatchedTag tag=a.1.world.tagCount dispatchedTag tag
  books : ∀tag,Hand.books tag b=Hand.books tag a

/-- Rewriting one worker and the world keeps the books if worker and world together do. -/
theorem BooksKept.of_worker {hand hand' : Option (Job Key Msg)} {wid : WorkerId}
    {w' : WorkerProperties Key Msg} (hl : s.pool.lookup wid=some w)
    (hj : world.nextJob=s.world.nextJob) (effects : List (Effect Key Msg))
    (hlog : world.log=s.world.log++effects)
    (he : ∀effect∈effects,effect.dispatchedTag=none)
    (ht : ∀tag,w'.tally tag+world.settledCount tag + (hand'.toList.countP fun job => job.tag=tag) =
      w.tally tag+s.world.settledCount tag+hand.toList.countP fun job => job.tag=tag)
    {index : AList (fun _ : ActorId => WorkerId)} :
    BooksKept (s,hand)
      ({s with pool:=s.pool.insert wid w',workerByActor:=index,world:=world},hand') := by
  refine ⟨hj,fun tag => tagCount_of_ignored _ tag hlog he,fun tag => ?_⟩
  have hp:=total_insert_of_lookup (WorkerProperties.tally tag) w' hl
  have hw:=ht tag
  simp only [Hand.books,queueCount]
  omega

theorem BooksKept.note (s : FactoryState Key Msg R Q) (hand : Option (Job Key Msg))
    (h : effect.IsNote) :
    BooksKept (s,hand) ({s with world:=s.world.record effect},hand) := by
  have hs : effect.settledTag=none := by cases effect <;> first | rfl | cases h
  have hd : effect.dispatchedTag=none := by cases effect <;> first | rfl | cases h
  refine ⟨rfl,fun tag => tagCount_of_ignored _ tag (record_log _ _) ?_,fun tag => ?_⟩
  · simpa using hd
  · simp [Hand.books,queueCount,hs]

/-- The books of a factory whose log has no silent drop, place by place. -/
theorem books_eq (hs : HandlerInstalled s) (tag : ℕ) :
    Hand.books tag (s,none)=s.queueCount tag+s.workerQueueCount tag+s.slotCount tag +
        s.world.tagCount completedTag tag+s.world.tagCount discardedTag tag +
        s.world.tagCount abandonedTag tag := by
  have hd : s.world.tagCount droppedTag tag=0 := by
    unfold tagCount
    rw [countP_eq_zero]
    intro effect hm
    simp [hs.log effect hm]
  have ht : total (WorkerProperties.tally tag) s.pool =
      s.workerQueueCount tag+s.slotCount tag:=total_add _ _ _
  unfold Hand.books
  rw [ht,settledCount_eq,hd]
  simp only [toList_none,countP_nil]
  omega

/-! ### Every dispatched job is at one place -/

/-- Tags from the counter on are unused, no tag is at two places, and the tag of a
dispatched job is at one. -/
structure Accounted (a : Hand Key Msg R Q) : Prop where
  fresh : ∀tag,a.1.world.nextJob≤tag →
    a.1.world.tagCount dispatchedTag tag=0 ∧ Hand.books tag a=0
  single : ∀tag,Hand.books tag a≤1
  once : ∀tag,a.1.world.tagCount dispatchedTag tag≠0 →
    a.1.world.tagCount dispatchedTag tag=1 ∧ Hand.books tag a=1

theorem Accounted.congr (h : Accounted a) (hk : BooksKept a b) : Accounted b := by
  refine ⟨fun tag ht => ?_,fun tag => by rw [hk.books]; exact h.single tag,fun tag ht => ?_⟩
  · rw [hk.dispatched,hk.books]
    rw [hk.nextJob] at ht
    exact h.fresh tag ht
  · rw [hk.dispatched] at ht ⊢
    rw [hk.books]
    exact h.once tag ht

theorem Accounted.arrive (h : Accounted (s,none)) (job : Job Key Msg) :
    Accounted (s.arrived (job.numbered s.world.nextJob),some (job.numbered s.world.nextJob)) := by
  have hd : ∀tag,(s.arrived (job.numbered s.world.nextJob)).world.tagCount dispatchedTag tag =
      s.world.tagCount dispatchedTag tag+if s.world.nextJob=tag then 1 else 0 := by
    intro tag
    rw [tagCount_append dispatchedTag tag rfl]
    by_cases ht : s.world.nextJob=tag <;> simp [dispatchedTag,ht]
  have hb : ∀tag,Hand.books tag
      (s.arrived (job.numbered s.world.nextJob),some (job.numbered s.world.nextJob)) =
        Hand.books tag (s,none)+if s.world.nextJob=tag then 1 else 0 := by
    intro tag
    have hs : (s.arrived (job.numbered s.world.nextJob)).world.settledCount tag =
        s.world.settledCount tag := by
      simp [arrived,settledCount,settledTag]
    have hq : (s.arrived (job.numbered s.world.nextJob)).queueCount tag=s.queueCount tag:=rfl
    have hp : (s.arrived (job.numbered s.world.nextJob)).pool=s.pool:=rfl
    unfold Hand.books
    rw [hs,hq,hp]
    by_cases ht : s.world.nextJob=tag <;> simp [ht]
  have hn : (s.arrived (job.numbered s.world.nextJob)).world.nextJob=s.world.nextJob+1:=rfl
  refine ⟨fun tag ht => ?_,fun tag => ?_,fun tag ht => ?_⟩
  · rw [hn] at ht
    rw [hd,hb,if_neg (by omega),Nat.add_zero,Nat.add_zero]
    exact h.fresh tag (by dsimp only; omega)
  · rw [hb]
    by_cases htag : s.world.nextJob=tag
    · rw [if_pos htag,(h.fresh tag htag.le).2]
    · rw [if_neg htag]
      exact h.single tag
  · rw [hd] at ht
    rw [hd,hb]
    by_cases htag : s.world.nextJob=tag
    · -- the new tag was used nowhere before
      obtain ⟨h0,hb0⟩:=h.fresh tag htag.le
      dsimp only at h0
      rw [if_pos htag,h0,hb0]
      exact ⟨rfl,rfl⟩
    · rw [if_neg htag,Nat.add_zero] at ht ⊢
      exact h.once tag ht

theorem initial_accounted (oracle : Oracle) (firstPid : ℕ) {firstJob : ℕ}
    (hta : Prenumbered args.queue firstJob) :
    Accounted (initial args oracle firstPid firstJob,none) := by
  have hb : ∀tag,Hand.books tag (initial args oracle firstPid firstJob,none) =
      ((contents args.queue).map Job.tag).count tag := by
    intro tag
    rw [count_eq_countP,countP_map]
    rfl
  refine ⟨fun tag ht => ⟨rfl,?_⟩,fun tag => ?_,fun tag ht => absurd rfl ht⟩
  · rw [hb,count_eq_zero]
    intro hm
    obtain ⟨job,hj,rfl⟩:=mem_map.mp hm
    exact absurd (hta.2 job hj) (Nat.not_lt.mpr ht)
  · rw [hb]
    exact nodup_iff_count_le_one.mp hta.1 tag

/-! ### Moves -/

variable [Router R Key Msg]

theorem KeepingMove.booksKept (h : KeepingMove H s s') : BooksKept (s,none) (s',none) := by
  cases h with
  | ask | tick | settings | handler => exact ⟨rfl,fun _ => rfl,fun _ => rfl⟩
  | note hn => exact .note s none hn
  | adjust _ hl =>
    refine .of_worker hl rfl [] (by simp) (by simp) ?_
    exact fun _ => rfl
  | sweep =>
    have h:=LawfulQueue.removeExpiredItems_eq s.queue s.discardHandler s.world
    obtain ⟨-,-,hj,effects,hlog,he⟩ :=
      retainLive_housekeeping s.discardHandler (contents s.queue) s.world
    have hs:=fun tag => retainLive_settled tag s.discardHandler (contents s.queue) s.world
    rw [← h] at hj hlog
    refine ⟨hj,fun tag => tagCount_of_ignored _ tag hlog ?_,fun tag => ?_⟩
    · intro effect hm
      have hk:=he effect hm
      cases effect <;> first | rfl | cases hk
    · have ht:=hs tag
      rw [← h] at ht
      dsimp only at ht
      simp only [Hand.books,queueCount]
      omega

theorem KeepingMove.handlerInstalled (h : KeepingMove (fun handler => handler.isSome=true) s s')
    (hs : HandlerInstalled s) : HandlerInstalled s' := by
  cases h with
  | ask | tick | settings => exact ⟨hs.factory,hs.workers,hs.log⟩
  | handler h => exact ⟨h,hs.workers,hs.log⟩
  | note hn => exact hs.note hn
  | @adjust wid w _ _ _ hl _ hh =>
    refine hs.of_worker ?_ [] (by simp) (by simp)
    rcases hh with rfl | hh
    · exact hs.workers wid w hl
    · exact hh
  | sweep =>
    have he:=LawfulQueue.removeExpiredItems_eq s.queue s.discardHandler s.world
    obtain ⟨handler,hh⟩:=isSome_iff_exists.mp hs.factory
    obtain ⟨effects,hlog,hno⟩:=retainLive_handled handler (contents s.queue) s.world
    rw [hh] at he
    rw [← he,← hh] at hlog
    exact hs.of_log hs.factory rfl effects hlog hno

variable [DecidableEq Key] [LawfulRouter R]

/-- Routing moves keep the books, except for the job that arrives. -/
theorem RoutingMove.booksKept (h : RoutingMove H hint a b) :
    BooksKept a b ∨ ∃s,∃job : Job Key Msg,a=(s,none) ∧
      b=(s.arrived (job.numbered s.world.nextJob),some (job.numbered s.world.nextJob)) := by
  cases h with
  | quiet s hand hr hw =>
    obtain ⟨oracle,rfl⟩:=hw
    exact .inl ⟨rfl,fun _ => rfl,fun _ => rfl⟩
  | keep hk => exact .inl hk.booksKept
  | note s hand h => exact .inl (.note s hand h)
  | arrive s job => exact .inr ⟨s,job,rfl,rfl⟩
  | @take s job queue h =>
    refine .inl ⟨rfl,fun _ => rfl,fun tag => ?_⟩
    have hc:=h.perm.countP_eq fun job => decide (job.tag=tag)
    simp only [countP_cons] at hc
    simp only [Hand.books,queueCount,toList_some,toList_none,countP_cons,countP_nil]
    omega
  | @store s job queue h =>
    refine .inl ⟨rfl,fun _ => rfl,fun tag => ?_⟩
    have hc:=(LawfulQueue.pushBack_ok h).countP_eq fun job => decide (job.tag=tag)
    have hj : (if decide (job.taken.tag=tag)=true then 1 else 0) =
        if decide (job.tag=tag)=true then 1 else 0:=rfl
    simp only [countP_cons] at hc
    simp only [Hand.books,queueCount,toList_some,toList_none,countP_cons,countP_nil]
    omega
  | discard s job reason =>
    refine .inl ⟨?_,fun tag => ?_,fun tag => ?_⟩
    · cases hh : s.discardHandler <;> rfl
    · cases hh : s.discardHandler <;>
        exact tagCount_of_ignored _ tag (record_log _ _) (by simp [dispatchedTag])
    · simp only [Hand.books,queueCount,settledCount_discard,
        toList_some,toList_none,countP_cons,countP_nil,decide_eq_true_eq]
      omega
  | @enqueue s wid w job hl ht =>
    have hf:=w.enqueueJob_frame job s.world
    obtain ⟨effects,hlog,he⟩:=hf.log
    refine .inl (.of_worker hl hf.nextJob (.enqueued w job::effects) ?_ ?_ fun tag => ?_)
    · rw [hlog]
      simp
    · intro effect hm
      rcases mem_cons.mp hm with rfl | hm
      · rfl
      · exact (he effect hm).dispatchedTag
    · have hw:=w.enqueueJob_tally tag job s.world
      simp only [toList_some,toList_none,countP_cons,countP_nil,decide_eq_true_eq]
      omega

/-- Other moves keep the books; a worker that leaves the pool leaves empty-handed. -/
theorem FactoryMove.booksKept (h : FactoryMove H s s') (hc : WorkersConsistent s) :
    BooksKept (s,none) (s',none) ∨ ∃hint,Routing H hint (s,none) (s',none) := by
  cases h with
  | routing h => exact .inr ⟨_,h⟩
  | @complete _ who w key hl =>
    left
    have hsl:=(hc _ _ hl).slot
    have hf:=workerComplete_frame hsl key s.world
    obtain ⟨effects,hlog,he⟩:=hf.log
    refine .of_worker hl hf.nextJob effects hlog (fun e hm => (he e hm).dispatchedTag) fun tag => ?_
    simpa using workerComplete_tally tag hsl key s.world
  | @replace _ who replacement wid w world hi hl hs =>
    left
    have hsl:=(hc _ _ hl).slot
    have hf:=replaceWorker_frame hsl replacement world
    obtain ⟨effects,hlog,he⟩:=hf.log
    obtain ⟨-,-,-,hj,hsp⟩:=s.world.spawn_ok hs
    refine .of_worker hl (hf.nextJob.trans hj) (.spawned replacement w.wid ::
      (w.currJobs.entries.map fun e => .abandoned w.actor e.2)++effects) ?_ ?_ fun tag => ?_
    · rw [hlog]
      simp [hsp]
    · intro effect hm
      rw [cons_append,mem_cons,mem_append] at hm
      rcases hm with rfl | hm | hm
      · rfl
      · obtain ⟨e,_,rfl⟩:=mem_map.mp hm
        rfl
      · exact (he effect hm).dispatchedTag
    · have ht:=replaceWorker_tally tag hsl replacement world
      have hset : world.settledCount tag=s.world.settledCount tag := by
        unfold settledCount
        rw [hsp,countP_append]
        simp [settledTag]
      simp only [toList_none,countP_nil]
      omega
  | @add _ _ wid hl h =>
    left
    obtain ⟨actor,world,hs,rfl⟩:=addWorker_ok h
    obtain ⟨_,-,-,hj,hlog⟩:=s.world.spawn_ok hs
    refine ⟨hj,fun tag => tagCount_of_ignored _ tag hlog (by simp [dispatchedTag]),fun tag => ?_⟩
    have hn : wid∉s.pool:=AList.lookup_eq_none.mp hl
    have ht:=total_insert_of_notMem (WorkerProperties.tally tag)
      (.new wid actor s.workerSettings s.discardHandler) hn
    have hnew : WorkerProperties.tally tag (.new wid actor
        s.workerSettings s.discardHandler : WorkerProperties Key Msg)=0:=rfl
    rw [hnew] at ht
    simp [Hand.books,queueCount,settledCount,hlog,settledTag,ht]
  | setDraining isDraining hl =>
    refine .inl (.of_worker hl rfl [] (by simp) (by simp) ?_)
    exact fun _ => rfl
  | @remove _ wid w hl ha =>
    left
    refine ⟨rfl,fun tag => tagCount_of_ignored _ tag (record_log _ _)
      (by simp [dispatchedTag]),fun tag => ?_⟩
    obtain ⟨hj,hq⟩:=w.isAvailable_iff.mp ha
    have hw : w.tally tag=0 := by simp [WorkerProperties.tally,hj,hq]
    have ht:=total_erase (WorkerProperties.tally tag) hl
    simp only [Hand.books,queueCount,settledCount_record,settledTag,reduceCtorEq,if_false]
    omega
  | setPoolSize => exact .inl ⟨rfl,fun _ => rfl,fun _ => rfl⟩

theorem FactoryMove.accounted (h : FactoryMove H s s')
    (hs : Accounted (s,none) ∧ WorkersConsistent s) :
    Accounted (s',none) ∧ WorkersConsistent s' := by
  refine ⟨?_,h.workersConsistent hs.2⟩
  rcases h.booksKept hs.2 with hk | ⟨hint,hr⟩
  · exact hs.1.congr hk
  · refine hr.preserves (P:=Accounted) ?_ hs.1
    intro a b hm ha
    rcases hm.booksKept with hk | ⟨t,job,rfl,rfl⟩
    · exact ha.congr hk
    · exact ha.arrive job

theorem RoutingMove.handlerInstalled
    (h : RoutingMove (fun handler => handler.isSome=true) hint a b) (ha : HandlerInstalled a.1) :
    HandlerInstalled b.1 := by
  cases h with
  | quiet s hand hr hw =>
    obtain ⟨oracle,rfl⟩:=hw
    exact ⟨ha.factory,ha.workers,ha.log⟩
  | keep hk => exact hk.handlerInstalled ha
  | note s hand h => exact ha.note h
  | arrive s job => exact ha.of_log ha.factory rfl [_] rfl (by simp [droppedTag])
  | take | store => exact ⟨ha.factory,ha.workers,ha.log⟩
  | discard s job reason =>
    have hf:=ha.factory
    obtain ⟨handler,hh⟩:=isSome_iff_exists.mp hf
    refine ha.of_log hf rfl [.discarded handler reason job] ?_ (by simp [droppedTag])
    dsimp only at hh ⊢
    rw [hh]
    rfl
  | @enqueue s wid w job hl ht =>
    have hw:=ha.workers wid w hl
    have hf:=w.enqueueJob_frame job s.world
    obtain ⟨effects,hlog,he⟩:=hf.log
    refine ha.of_worker (by rw [hf.discardHandler]; exact hw) (.enqueued w job::effects) ?_ ?_
    · rw [hlog]
      simp
    · intro effect hm
      rcases mem_cons.mp hm with rfl | hm
      · rfl
      · exact (he effect hm).droppedTag hw

theorem FactoryMove.handlerInstalled (h : FactoryMove (fun handler => handler.isSome=true) s s')
    (hc : WorkersConsistent s) (hs : HandlerInstalled s) : HandlerInstalled s' := by
  cases h with
  | routing h =>
    exact h.preserves (P:=fun a => HandlerInstalled a.1) (fun _ _ => RoutingMove.handlerInstalled) hs
  | @complete _ who w key hl =>
    have hw:=hs.workers _ _ hl
    have hf:=workerComplete_frame (hc _ _ hl).slot key s.world
    obtain ⟨effects,hlog,he⟩:=hf.log
    exact hs.of_worker (by rw [hf.discardHandler]; exact hw) effects hlog
      fun effect hm => (he effect hm).droppedTag hw
  | @replace _ who replacement wid w world hi hl hsp =>
    have hw:=hs.workers _ _ hl
    have hf:=replaceWorker_frame (hc _ _ hl).slot replacement world
    obtain ⟨effects,hlog,he⟩:=hf.log
    obtain ⟨-,-,-,-,hwo⟩:=s.world.spawn_ok hsp
    refine hs.of_worker (by rw [hf.discardHandler]; exact hw) (.spawned replacement w.wid ::
      (w.currJobs.entries.map fun e => .abandoned w.actor e.2)++effects) ?_ ?_
    · rw [hlog]
      simp [hwo]
    · intro effect hm
      rw [cons_append,mem_cons,mem_append] at hm
      rcases hm with rfl | hm | hm
      · rfl
      · obtain ⟨e,_,rfl⟩:=mem_map.mp hm
        rfl
      · exact (he effect hm).droppedTag hw
  | add hl h =>
    obtain ⟨_,_,hsp,rfl⟩:=addWorker_ok h
    obtain ⟨_,-,-,-,hlog⟩:=s.world.spawn_ok hsp
    exact hs.of_worker hs.factory [_] hlog (by simp [droppedTag])
  | setDraining isDraining hl =>
    have hw:=hs.workers _ _ hl
    refine hs.of_worker ?_ [] (append_nil _).symm (by simp)
    exact hw
  | remove hl _ =>
    refine ⟨hs.factory,?_,?_⟩
    · intro k v hk
      exact hs.workers k v (lookup_erase_eq_some.mp hk).2
    · intro effect hm
      rcases mem_append.mp hm with hm | hm
      · exact hs.log effect hm
      · obtain rfl:=mem_singleton.mp hm
        rfl
  | setPoolSize => exact ⟨hs.factory,hs.workers,hs.log⟩

/-! ### Runs -/

namespace FactoryState

theorem reached_accounted (h : Reached args s) : Accounted (s,none) ∧ WorkersConsistent s := by
  refine reached_of_moves (P:=fun s => Accounted (s,none) ∧ WorkersConsistent s) ?_
    (fun _ _ hm => hm.accounted) h
  intro oracle firstPid firstJob ht
  refine ⟨initial_accounted oracle firstPid ht,?_⟩
  intro wid w hl
  cases hl

theorem reached_handled (hh : args.discardHandler.isSome=true)
    (h : Reachable (Starts args) (guarded (fun _ label => label.1.KeepsHandler) Step) s) :
    Accounted (s,none) ∧ WorkersConsistent s ∧ HandlerInstalled s := by
  refine reached_invariant
    (P:=fun s => Accounted (s,none) ∧ WorkersConsistent s ∧ HandlerInstalled s)
    ?_ ?_ (fun _ _ hg => hg) h
  · intro oracle firstPid firstJob ht
    refine ⟨initial_accounted oracle firstPid ht,?_,hh,?_,?_⟩
    · intro wid w hl
      cases hl
    · intro wid w hl
      cases hl
    · simp [initial]
  · rintro s s' hm ⟨ha,hc,hi⟩
    obtain ⟨ha,hc'⟩:=hm.accounted ⟨ha,hc⟩
    exact ⟨ha,hc',hm.handlerInstalled hc hi⟩

end FactoryState

/-- Job conservation: a dispatched job was dispatched once, and is at exactly one place:
in the factory queue, in one worker's queue, in one worker's active slot, completed,
discarded once, or lost with a replaced worker. -/
theorem jobs_conserved [Hashable Key] {L P : Type} [RateLimiter L] [Priority P]
    (args : FactoryArguments (BuiltInRouter Key Msg L) (BuiltInQueue Key Msg P))
    (hh : args.discardHandler.isSome=true)
    {s : FactoryState Key Msg (BuiltInRouter Key Msg L) (BuiltInQueue Key Msg P)}
    (h : Reachable (Starts args) (guarded (fun _ label => label.1.KeepsHandler) Step) s)
    {job : Job Key Msg} (hj : .dispatched job∈s.world.log) :
    s.world.tagCount dispatchedTag job.tag=1 ∧
      s.queueCount job.tag+s.workerQueueCount job.tag+s.slotCount job.tag +
        s.world.tagCount completedTag job.tag +
        s.world.tagCount discardedTag job.tag +
        s.world.tagCount abandonedTag job.tag=1 := by
  obtain ⟨ha,-,hi⟩:=reached_handled hh h
  have hpos : 0<s.world.tagCount dispatchedTag job.tag :=
    countP_pos_iff.mpr ⟨_,hj,by simp [dispatchedTag]⟩
  obtain ⟨hd,hb⟩:=ha.once job.tag (Nat.pos_iff_ne_zero.mp hpos)
  rw [books_eq hi] at hb
  exact ⟨hd,hb⟩

/-- Of three jobs one is active, one waits and one is shed. -/
theorem jobs_conserved_replayed :
    ∃s,Reachable (Starts
        { FactoryArguments.plain 1 (.bare (.queuer {}) : BuiltInRouter ℕ Unit Unlimited) with
          discardHandler:=some 0,discardSettings:=.static 1 .newest })
        (guarded (fun _ label => label.1.KeepsHandler) Step) s ∧
      (s.queueCount 1 == 1 && s.world.tagCount discardedTag 2 == 1)=true ∧
      ∃job,.dispatched job∈s.world.log ∧ (s.world.tagCount dispatchedTag job.tag=1 ∧
          s.queueCount job.tag+s.workerQueueCount job.tag+s.slotCount job.tag +
            s.world.tagCount completedTag job.tag +
            s.world.tagCount discardedTag job.tag +
            s.world.tagCount abandonedTag job.tag=1) := by
  obtain ⟨s,hs,ht⟩:=exists_guarded
    { FactoryArguments.plain 1 (.bare (.queuer {}) : BuiltInRouter ℕ Unit Unlimited) with
      discardHandler:=some 0,discardSettings:=.static 1 .newest }
    (fun _ label => label.1.KeepsHandler)
    (fun _ label => label.1.isDispatch) (fun _ _ => keepsHandler_of_isDispatch) .calm 0
    (calmly [.dispatch (.plain 1),.dispatch (.plain 2),.dispatch (.plain 3)])
    (fun s => (s.queueCount 1 == 1 && s.world.tagCount discardedTag 2 == 1) &&
      s.world.log.any fun effect => effect.dispatchedTag.isSome) rfl (by decide +kernel)
  obtain ⟨ht,hd⟩:=Bool.and_eq_true_iff.mp ht
  obtain ⟨effect,hm,he⟩:=any_eq_true.mp hd
  cases effect with
  | dispatched job => exact ⟨s,hs,ht,job,hm,jobs_conserved _ rfl hs hm⟩
  | _ => cases he

end Ractor.Factory
