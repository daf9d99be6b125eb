import Ractor.FactoryJobConservation

/-!
# Jobs waiting at shutdown

`post_stop` hands the jobs of the factory queue to the discard handler, in order. It does
not look into the workers' own queues, so a job that waits there is dropped without the
handler being called.
-/

namespace Ractor.Factory
open FactoryState Effect FactoryArguments List Option

variable {Key Msg R Q : Type} {s : FactoryState Key Msg R Q}

open LawfulQueue (contents)

/-- The tag of a job the discard handler was given because of the shutdown. -/
def Effect.shutdownTag : Effect Key Msg → Option ℕ
  | .discarded _ .shutdown job => some job.tag
  | _ => none

theorem World.tagCount_shutdown_le (tag : ℕ) (world : World Key Msg) :
    world.tagCount shutdownTag tag≤world.tagCount discardedTag tag := by
  refine countP_mono_left fun effect _ h => ?_
  cases effect with
  | discarded handler reason job =>
    cases reason with
    | shutdown => exact h
    | _ => simp [shutdownTag] at h
  | _ => simp [shutdownTag] at h

namespace FactoryState

theorem workerQueueCount_pos {wid : WorkerId} {w : WorkerProperties Key Msg}
    (hl : s.pool.lookup wid=some w) {job : Job Key Msg} (hj : job∈w.messageQueue) :
    0<s.workerQueueCount job.tag := by
  have hle:=FiniteMap.le_total
    (fun w : WorkerProperties Key Msg => w.messageQueue.countP fun j => j.tag=job.tag) hl
  have hpos : 0<w.messageQueue.countP fun j => j.tag=job.tag := countP_pos_iff.mpr ⟨job,hj,by simp⟩
  exact Nat.lt_of_lt_of_le hpos hle

variable [Queue Q Key Msg] [LawfulQueue Q]

theorem queueCount_pos {job : Job Key Msg} (hj : job∈contents s.queue) : 0<s.queueCount job.tag :=
  countP_pos_iff.mpr ⟨job,hj,by simp⟩

/-- Places and discards of one tag in a state whose books are in order. -/
theorem books_places (ha : Accounted (s,none)) (tag : ℕ) :
    s.queueCount tag+s.workerQueueCount tag+s.world.tagCount discardedTag tag≤1 := by
  have hb:=ha.single tag
  have ht : FiniteMap.total (WorkerProperties.tally tag) s.pool =
      s.workerQueueCount tag+s.slotCount tag:=FiniteMap.total_add _ _ _
  unfold Hand.books at hb
  rw [ht,World.settledCount_eq] at hb
  dsimp only at hb
  omega

/-- The job is in the factory's custody and has not been cast to a worker actor. -/
def Waiting (s : FactoryState Key Msg R Q) (job : Job Key Msg) : Prop :=
  job∈contents s.queue ∨ ∃wid w,s.pool.lookup wid=some w ∧ job∈w.messageQueue

/-- What a shutdown owes the jobs that wait in `s`, as seen in the world it leaves. -/
def ShutdownHandled (s : FactoryState Key Msg R Q) (world : World Key Msg) : Prop :=
  ∀job,s.Waiting job → world.tagCount discardedTag job.tag=1 ∧
    world.tagCount shutdownTag job.tag=1

/-- The loop of `post_stop` logs one discard per job of the queue and touches nothing else. -/
theorem discardQueue_log {handler : HandlerId} (fuel : ℕ) (hh : s.discardHandler=some handler)
    (hf : (contents s.queue).length≤fuel) :
    (discardQueue fuel s).world.log =
      s.world.log++(contents s.queue).map (.discarded handler .shutdown) := by
  induction fuel generalizing s with
  | zero =>
    have hn : contents s.queue=[]:=length_eq_zero_iff.mp (Nat.le_zero.mp hf)
    simp [discardQueue,hn]
  | succ fuel ih =>
    unfold discardQueue
    cases hp : Queue.popFront s.queue with
    | none => simp [LawfulQueue.popFront_none hp]
    | some popped =>
      obtain ⟨job,queue⟩:=popped
      have hc:=LawfulQueue.popFront_some hp
      rw [hc,length_cons] at hf
      have hr := @ih {s with queue:=queue,world:=s.world.discard s.discardHandler .shutdown job}
        hh (by dsimp only; omega)
      dsimp only at hr ⊢
      rw [hr,hc,hh]
      simp [World.discard]

theorem postStop_log {s' : FactoryState Key Msg R Q} {handler : HandlerId}
    (hh : s.discardHandler=some handler) (h : s.postStop=.ok s') :
    ∃effects,s'.world.log =
        s.world.log++(contents s.queue).map (.discarded handler .shutdown)++effects ∧
      ∀effect∈effects,effect.discardedTag=none := by
  have hq:=discardQueue_log (Queue.len s.queue) hh (LawfulQueue.len_eq s.queue).ge
  have hlog : s'.world.log=(discardQueue (Queue.len s.queue) s).stopWorkers.world.log := by
    unfold postStop at h
    simp only [hh,isSome_some,if_true] at h
    split at h
    · split at h
      · cases h
        rfl
      · cases h
    · cases h
      rfl
  refine ⟨(discardQueue (Queue.len s.queue) s).pool.entries.map
    fun entry => .stopped entry.2.actor,by rw [hlog,← hq]; rfl,?_⟩
  intro effect hm
  obtain ⟨entry,_,rfl⟩:=mem_map.mp hm
  rfl

/-- After `post_stop` the discards of a tag are those before it and the occurrences in the
factory queue. -/
theorem postStop_tagCount {s' : FactoryState Key Msg R Q} (hh : s.discardHandler.isSome=true)
    (h : s.postStop=.ok s') (tag : ℕ) :
    s'.world.tagCount discardedTag tag=s.world.tagCount discardedTag tag+s.queueCount tag ∧
      s'.world.tagCount shutdownTag tag=s.world.tagCount shutdownTag tag+s.queueCount tag := by
  obtain ⟨handler,hh⟩:=isSome_iff_exists.mp hh
  obtain ⟨effects,hlog,he⟩:=postStop_log hh h
  have hno : ∀effect∈effects,effect.shutdownTag=none := by
    intro effect hm
    have hd:=he effect hm
    cases effect with
    | discarded handler reason job => cases hd
    | _ => rfl
  have hmap : ∀classify : Effect Key Msg→Option ℕ,
      (∀job,classify (.discarded handler .shutdown job)=some job.tag) →
      (((contents s.queue).map (.discarded handler .shutdown)).countP
        fun effect => classify effect=some tag)=s.queueCount tag := by
    intro classify hc
    rw [countP_map]
    refine countP_congr fun job _ => ?_
    simp [hc]
  have hco : ∀classify : Effect Key Msg→Option ℕ,(∀effect∈effects,classify effect=none) →
      (∀job,classify (.discarded handler .shutdown job)=some job.tag) →
      s'.world.tagCount classify tag=s.world.tagCount classify tag+s.queueCount tag := by
    intro classify hn hc
    rw [append_assoc] at hlog
    rw [World.tagCount_append classify tag hlog,countP_append,hmap classify hc,
      countP_eq_zero.mpr,Nat.add_zero]
    intro effect hm
    simp [hn effect hm]
  exact ⟨hco _ he fun _ => rfl,hco _ hno fun _ => rfl⟩

end FactoryState

/-- A shutdown hands every waiting job to the discard handler, once and with the reason
`Shutdown`, exactly if no job waits in a worker's own queue. -/
theorem shutdown_handled_iff [DecidableEq Key] [Hashable Key] {L P : Type} [RateLimiter L] [Priority P]
    (args : FactoryArguments (BuiltInRouter Key Msg L) (BuiltInQueue Key Msg P))
    {s s' : FactoryState Key Msg (BuiltInRouter Key Msg L) (BuiltInQueue Key Msg P)}
    (h : Reached args s) (hh : s.discardHandler.isSome=true) (oracle : Oracle)
    (hstop : (s.withOracle oracle).postStop=.ok s') :
    s.ShutdownHandled s'.world ↔ ∀wid w,s.pool.lookup wid=some w → w.messageQueue=[] := by
  have ha:=(reached_accounted h).1
  have hcount : ∀tag,s'.world.tagCount discardedTag tag =
        s.world.tagCount discardedTag tag+s.queueCount tag ∧
      s'.world.tagCount shutdownTag tag=s.world.tagCount shutdownTag tag+s.queueCount tag :=
    postStop_tagCount (s:=s.withOracle oracle) hh hstop
  constructor
  · intro hd wid w hl
    by_contra hne
    obtain ⟨job,hj⟩:=exists_mem_of_ne_nil _ hne
    -- its tag is used up by the worker's queue, so nothing was or will be discarded
    have hpos:=workerQueueCount_pos hl hj
    have hb:=books_places ha job.tag
    have h1:=(hd job (.inr ⟨wid,w,hl,hj⟩)).1
    have h2:=(hcount job.tag).1
    omega
  · intro hempty job hw
    obtain hq | ⟨wid,w,hl,hj⟩:=hw
    · have hpos:=queueCount_pos hq
      have hb:=books_places ha job.tag
      have hle:=s.world.tagCount_shutdown_le job.tag
      obtain ⟨h1,h2⟩:=hcount job.tag
      omega
    · rw [hempty wid w hl] at hj
      cases hj

/-- One worker runs a job, a second job waits in the factory queue. -/
theorem shutdown_handled_replayed :
    ∃s s',Reached {plain 1 (.bare (.queuer {}) : BuiltInRouter ℕ Unit Unlimited) with
          discardHandler:=some 0} s ∧
      (s.withOracle .calm).postStop=.ok s' ∧ (contents s.queue).length=1 ∧
      (s.ShutdownHandled s'.world ↔ ∀wid w,s.pool.lookup wid=some w→w.messageQueue=[]) := by
  obtain ⟨s,hs,ht⟩:=exists_reached
    { plain 1 (.bare (.queuer {}) : BuiltInRouter ℕ Unit Unlimited) with
      discardHandler:=some 0 } .calm 0
    (calmly [.dispatch (.plain 1),.dispatch (.plain 2)])
    (fun s => s.discardHandler.isSome && (contents s.queue).length == 1 &&
      (s.withOracle .calm).postStop.toOption.isSome) rfl (by decide +kernel)
  simp only [Bool.and_eq_true,beq_iff_eq] at ht
  obtain ⟨⟨hh,hq⟩,hstop⟩:=ht
  obtain ⟨s',hs'⟩:=isSome_iff_exists.mp hstop
  have hok:=eq_ok_of_toOption hs'
  exact ⟨s,s',hs,hok,hq,shutdown_handled_iff _ hs hh .calm hok⟩

/-- Two jobs of one key under key-persistent routing: the second waits in the worker's own
queue, and the shutdown drops it without calling the handler. -/
theorem shutdown_skips_worker_queue :
    ∃s s',Reached {plain 1 (.bare (.keyPersistent ⟨⟩) : BuiltInRouter ℕ Unit Unlimited) with
          discardHandler:=some 0} s ∧
      s.discardHandler.isSome=true ∧ (s.withOracle .calm).postStop=.ok s' ∧
      ∃job,s.Waiting job ∧ s'.world.tagCount discardedTag job.tag=0 := by
  obtain ⟨s,hs,ht⟩:=exists_reached
    { plain 1 (.bare (.keyPersistent ⟨⟩) : BuiltInRouter ℕ Unit Unlimited) with
      discardHandler:=some 0 } .calm 0
    (calmly [.dispatch (.plain 1),.dispatch (.plain 1)])
    (fun s => s.discardHandler.isSome && (s.withOracle .calm).postStop.toOption.any fun s' =>
      (s.pool.lookup 0).any fun w => w.messageQueue.any fun job =>
        s'.world.tagCount discardedTag job.tag == 0) rfl (by decide +kernel)
  obtain ⟨hh,hstop⟩:=Bool.and_eq_true_iff.mp ht
  obtain ⟨s',hs',hw⟩:=(any_eq_true _ _).mp hstop
  obtain ⟨w,hl,hw⟩:=(any_eq_true _ _).mp hw
  obtain ⟨job,hj,htag⟩:=any_eq_true.mp hw
  exact ⟨s,s',hs,hh,eq_ok_of_toOption hs',job,.inr ⟨0,w,hl,hj⟩,beq_iff_eq.mp htag⟩

end Ractor.Factory
