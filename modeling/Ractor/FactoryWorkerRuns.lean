import Ractor.FactoryWorkerShedding

/-!
# Calls on one worker record

A factory calls `enqueue_job`, `worker_complete` and `replace_worker` on the record of a worker in
any order, and each call is made under its own oracle, so the worker actor may be closed or alive
at every cast. The backlog of the record is followed over whole sequences of calls: how long it
gets, and in which order its jobs reach worker actors.
-/

namespace Ractor.Factory
open List World Effect

variable {Key Msg : Type}

inductive WorkerCall (Key Msg : Type) where
  | enqueueJob (job : Job Key Msg)
  | workerComplete (key : Key)
  | replaceWorker (nworker : ActorId)

/-- The jobs that were passed to `enqueue_job`, as the worker holds them. -/
def World.offered (world : World Key Msg) : List (Job Key Msg) :=
  world.enqueuedJobs.map Job.taken

variable {w : WorkerProperties Key Msg} {d d' : Desk Key Msg} {limit : ℕ} {world : World Key Msg}
  {mode : DiscardMode}

open WorkerProperties

theorem World.offered_eq {world' : World Key Msg}
    (h : world.Writes (fun effect => effect.enqueuedJob=none) world') :
    world'.offered=world.offered :=
  congrArg (List.map Job.taken) h.filterMap_log

theorem Effect.OfWorker.not_offered {effect : Effect Key Msg} (h : effect.OfWorker w) :
    effect.enqueuedJob=none := by
  cases effect with
  | enqueued => exact h.elim
  | _ => rfl

theorem WorkerProperties.refusesNewest_newest (h : w.discardSettings=.static limit .newest)
    (hr : w.refusesNewest=false) : w.messageQueue=[] ∨ w.messageQueue.length<limit := by
  rcases Nat.lt_or_ge w.messageQueue.length limit with hlt | hge
  · exact .inr hlt
  · left
    have ha : w.isAvailable=true := by
      simpa [refusesNewest,h,WorkerDiscardSettings.getLimitAndMode,hge] using hr
    exact (w.isAvailable_iff.mp ha).2

theorem WorkerProperties.Scanned.pos {queue : List (Job Key Msg)} {n : ℕ} {next : Option (Job Key Msg)}
    {w' : WorkerProperties Key Msg} {world' : World Key Msg}
    (h : Scanned queue w world n next w' world') {first : Job Key Msg} (hf : first∈queue.head?)
    (hx : first.isExpired world.now=true) : 0<n := by
  cases queue with
  | nil => cases hf
  | cons job rest =>
    obtain rfl : job=first := by simpa using hf
    refine Nat.pos_of_ne_zero ?_
    rintro rfl
    have hfound:=h.found
    change job.isExpired (world.oracle.clock 0)=true at hx
    cases next <;> simp [hx] at hfound

theorem Frame.offered (h : Frame d d') : d'.2.offered=d.2.offered := by
  obtain ⟨effects,hlog,hef⟩:=h.log
  exact offered_eq ⟨effects,hlog,fun effect he => (hef effect he).not_offered⟩

variable [DecidableEq Key]

namespace Desk

def Starts (settings : WorkerDiscardSettings) (d : Desk Key Msg) : Prop :=
  ∃wid actor handler,d.1=.new wid actor settings handler ∧ d.2.log=[]

variable (d : Desk Key Msg) (label : WorkerCall Key Msg × Oracle)

/-- One call, under an oracle of its own. A ghost counter numbers the jobs that are passed to
`enqueue_job`. -/
def call : Desk Key Msg :=
  match label.1 with
  | .enqueueJob job =>
    d.1.enqueueJob (job.numbered d.2.nextJob)
      {d.2 with oracle:=label.2,nextJob:=d.2.nextJob+1}
  | .workerComplete key => (d.1.workerComplete key {d.2 with oracle:=label.2}).2
  | .replaceWorker nworker => d.1.replaceWorker nworker {d.2 with oracle:=label.2}

def Step (d' : Desk Key Msg) : Prop :=
  d.call label=d'

end Desk

namespace Desk

/-- A call other than `enqueue_job` at most frees the slot; what it does then are moves. -/
theorem call_moves (hd : d.1.Consistent) {label : WorkerCall Key Msg × Oracle}
    (hc : ∀job,label.1≠.enqueueJob job) :
    ∃w world,w.messageQueue=d.1.messageQueue ∧ w.discardSettings=d.1.discardSettings ∧
      world.nextJob=d.2.nextJob ∧ d.2.Writes (fun e => e.enqueuedJob=none ∧ e.deliveredJob=none) world ∧
      Moves (w,world) (d.call label) := by
  obtain ⟨call,oracle⟩:=label
  cases call with
  | enqueueJob job => exact absurd rfl (hc job)
  | workerComplete key =>
    cases hk : d.1.currJobs.lookup key with
    | none =>
      refine ⟨d.1,{d.2 with oracle:=oracle},rfl,rfl,rfl,.of_log rfl,?_⟩
      simp only [call,workerComplete,hk]
      exact .refl
    | some options =>
      have hm:=workerComplete_moves hd.slot hk {d.2 with oracle:=oracle}
      refine ⟨_,_,?_,?_,?_,?_,hm⟩
      · exact untrackPendingKey_messageQueue _ _
      · exact untrackPendingKey_discardSettings _ _
      · rfl
      · exact .record d.2 ⟨rfl,rfl⟩
  | replaceWorker nworker =>
    rcases replaceWorker_moves hd.slot nworker {d.2 with oracle:=oracle} with
      ⟨-,hm⟩ | ⟨key,options,-,hm⟩
    · refine ⟨_,_,?_,?_,?_,?_,hm⟩
      · rfl
      · rfl
      · rfl
      · exact .of_log rfl
    · refine ⟨_,_,?_,?_,?_,?_,hm⟩
      · exact untrackPendingKey_messageQueue _ _
      · exact untrackPendingKey_discardSettings _ _
      · rfl
      · exact .record d.2 ⟨rfl,rfl⟩

theorem call_consistent (hd : d.1.Consistent) (label : WorkerCall Key Msg × Oracle) :
    (d.call label).1.Consistent := by
  obtain ⟨call,oracle⟩:=label
  cases call with
  | enqueueJob job => exact enqueueJob_consistent hd _ _
  | workerComplete key => exact workerComplete_consistent hd key _
  | replaceWorker nworker => exact replaceWorker_consistent hd nworker _

end Desk

/-! ### The length of the backlog -/

theorem WorkerMove.length_le (h : WorkerMove d d') :
    d'.1.messageQueue.length≤d.1.messageQueue.length := by
  cases h with
  | tick | bounce => exact le_rfl
  | discard _ _ hq =>
    rw [untrackPendingKey_messageQueue,hq]
    exact Nat.le_succ _
  | deliver hq =>
    rw [hq]
    exact Nat.le_succ _

theorem Moves.length_le (h : Moves d d') : d'.1.messageQueue.length≤d.1.messageQueue.length :=
  h.preserves (P:=fun e => e.1.messageQueue.length≤d.1.messageQueue.length)
    (fun _ _ hm he => hm.length_le.trans he) le_rfl

namespace WorkerProperties

/-- A cast of an idle worker that is delivered makes room for the job that is passed, and so does an
expired job at the head of the queue. -/
theorem enqueueJob_idle_length_le (job : Job Key Msg) (hr : w.refusesNewest=false)
    (hs : w.currJobs=∅)
    (hd : (∀first∈w.messageQueue.head?,first.isExpired world.now=false) → world.delivers=true) :
    (w.enqueueJob job world).1.messageQueue.length≤w.messageQueue.length := by
  rw [enqueueJob_idle job world hr hs]
  obtain ⟨n,hsc⟩:=nextNonExpired_scanned w.messageQueue (w.trackPendingKey job.key)
    ((world.record (.enqueued w job)).accept job)
  generalize nextNonExpired w.messageQueue (w.trackPendingKey job.key)
    ((world.record (.enqueued w job)).accept job)=next at hsc
  obtain ⟨next,w',world'⟩:=next
  have hde : world'.delivers=world.delivers := by
    rw [delivers,hsc.casts,accept_oracle]
    rfl
  have hre : w'.messageQueue=w.messageQueue.drop (n+1):=hsc.rest
  have hroom : world.delivers=false→0<n ∧ 0<w.messageQueue.length := by
    intro hno
    obtain ⟨first,hf,hx⟩ : ∃first∈w.messageQueue.head?,first.isExpired world.now≠false := by
      by_contra hlive
      push Not at hlive
      exact absurd (hd hlive) (by simp [hno])
    refine ⟨hsc.pos hf ?_,length_pos_of_mem (mem_of_mem_head? hf)⟩
    rw [now,accept_oracle]
    exact Bool.not_eq_false _ |>.mp hx
  cases next with
  | none =>
    cases hdel : world.delivers with
    | true => simp [dispatchJob,hde,hdel,hre]
    | false =>
      have hroom:=hroom hdel
      simp [dispatchJob,hde,hdel,hre]
      omega
  | some older =>
    have hn : n<w.messageQueue.length := by
      obtain ⟨hn,-⟩:=List.getElem?_eq_some_iff.mp hsc.found
      rwa [length_verdicts] at hn
    cases hdel : world.delivers with
    | true =>
      simp only [dispatchJob,hde,hdel,if_true,hre,length_append,length_drop,length_singleton]
      omega
    | false =>
      have hroom:=hroom hdel
      simp [dispatchJob,hde,hdel,hre]
      omega

theorem enqueueJob_length_le (hse : w.discardSettings=.static limit mode)
    (job : Job Key Msg) (hl : w.messageQueue.length ≤ max limit 1)
    (ht : mode=.oldest→w.currJobs=∅→max limit 1≤w.messageQueue.length →
      (∀first∈w.messageQueue.head?,first.isExpired world.now=false) →
      world.delivers=true) : (w.enqueueJob job world).1.messageQueue.length ≤ max limit 1 := by
  cases hr : w.refusesNewest with
  | true => rwa [enqueueJob_refused job world hr]
  | false =>
    rcases Nat.lt_or_ge w.messageQueue.length (max limit 1) with hlt | hge
    · have hm:=(enqueueJob_moves job world hr).length_le
      simp only [acceptJob,length_append,length_singleton] at hm
      omega
    · -- the queue is full, so only a worker that sheds its oldest jobs takes another one
      cases mode with
      | newest =>
        rcases refusesNewest_newest hse hr with he | hsh
        · simp [he] at hge
        · omega
      | oldest =>
        by_cases hs : w.currJobs.entries=[]
        · have hs:=w.currJobs_eq_empty hs
          exact (enqueueJob_idle_length_le job hr hs (ht rfl hs hge)).trans hl
        · have hshed:=enqueueJob_shed hs hse job world
          have hen:=hshed.enough
          rw [hshed.rest,length_drop]
          omega

end WorkerProperties

namespace Desk

/-- A worker that sheds its oldest jobs, is idle and has a full queue with a live job in front gets a
job through to its actor when it is passed another one. -/
def GetsThrough (limit : ℕ) (mode : DiscardMode) (d : Desk Key Msg)
    (label : WorkerCall Key Msg × Oracle) : Prop :=
  mode=.oldest → ∀job,label.1=.enqueueJob job → d.1.currJobs=∅ →
    max limit 1≤d.1.messageQueue.length →
    (∀first∈d.1.messageQueue.head?,first.isExpired (label.2.clock 0)=false) →
    label.2.casts 0=true

/-- What is kept by every call that meets `GetsThrough`. -/
structure Bounded (limit : ℕ) (mode : DiscardMode) (d : Desk Key Msg) : Prop where
  consistent : d.1.Consistent
  settings : d.1.discardSettings=.static limit mode
  length_le : d.1.messageQueue.length ≤ max limit 1

theorem Bounded.call (h : Bounded limit mode d) {label : WorkerCall Key Msg × Oracle}
    (ht : GetsThrough limit mode d label) : Bounded limit mode (d.call label) := by
  refine ⟨call_consistent h.consistent label,?_,?_⟩
  all_goals by_cases hc : ∃job,label.1=.enqueueJob job
  · obtain ⟨job,hjob⟩:=hc
    simp only [Desk.call,hjob]
    exact (enqueueJob_frame _ _ _).discardSettings.trans h.settings
  · obtain ⟨w,world,-,hs,-,-,hm⟩ := call_moves h.consistent (not_exists.mp hc)
    exact hm.frame.discardSettings.trans (hs.trans h.settings)
  · obtain ⟨job,hjob⟩:=hc
    simp only [Desk.call,hjob]
    exact enqueueJob_length_le h.settings _ h.length_le fun hmo => ht hmo job hjob
  · obtain ⟨w,world,hq,-,-,-,hm⟩ := call_moves h.consistent (not_exists.mp hc)
    exact hm.length_le.trans ((congrArg length hq).le.trans h.length_le)

theorem Starts.bounded (h : Starts (.static limit mode) d) : Bounded limit mode d := by
  obtain ⟨wid,actor,handler,hd,-⟩:=h
  rw [show d=(d.1,d.2) from rfl,hd]
  exact ⟨new_consistent _ _ _ _,rfl,Nat.zero_le _⟩

/-- The backlog of a worker stays within its limit, or one job if the limit is 0. -/
theorem backlog_bounded {limit : ℕ} {mode : DiscardMode} {d : Desk Key Msg}
    (h : Reachable (Starts (.static limit mode)) (guarded (GetsThrough limit mode) Step) d) :
    d.1.messageQueue.length ≤ max limit 1 := by
  have hbounded : Bounded limit mode d := by
    refine h.invariant (fun _ => Starts.bounded) ?_
    rintro d label _ hd ⟨hthrough,rfl⟩
    exact hd.call hthrough
  exact hbounded.length_le

def fresh : Desk ℕ Unit:=(.new 0 (.ofLocal 0) (.static 1 .oldest) none,.calm)

/-- The first cast fails and the second one, of the job that was kept, is delivered. -/
theorem backlog_bounded_reopened :
    ∃d : Desk ℕ Unit,Reachable (Starts (.static 1 .oldest)) (guarded (GetsThrough 1 .oldest) Step) d ∧
      d.1.messageQueue.map Job.key=[2] ∧ d.1.messageQueue.length ≤ max 1 1 := by
  have hfirst : Reachable (Starts (.static 1 .oldest)) (guarded (GetsThrough 1 .oldest) Step)
      (fresh.call (.enqueueJob (.plain 1),.closed)) :=
    .next (.start ⟨0,.ofLocal 0,none,rfl,rfl⟩) ⟨fun _ _ _ _ hfull _ => absurd hfull (by decide),rfl⟩
  have hsecond:=hfirst.next (e:=(.enqueueJob (.plain 2),.calm)) ⟨fun _ _ _ _ _ _ => rfl,rfl⟩
  exact ⟨_,hsecond,rfl,backlog_bounded hsecond⟩

/-- As long as the worker actor is closed, nothing is shed. -/
theorem backlog_grows_while_closed :
    ∃d : Desk ℕ Unit,Reachable (Starts (.static 1 .oldest)) Step d ∧
      max 1 1<d.1.messageQueue.length := by
  have hstart : Reachable (Starts (.static 1 .oldest)) Step fresh :=
    .start ⟨0,.ofLocal 0,none,rfl,rfl⟩
  have hfirst:=hstart.next (e:=(.enqueueJob (.plain 1),.closed)) rfl
  have hsecond:=hfirst.next (e:=(.enqueueJob (.plain 2),.closed)) rfl
  exact ⟨_,hsecond,by decide⟩

end Desk

/-! ### The order of the casts -/

namespace WorkerProperties

theorem enqueueJob_offered (w : WorkerProperties Key Msg) (job : Job Key Msg)
    (world : World Key Msg) :
    (w.enqueueJob job world).2.offered=world.offered++[job.taken] := by
  rw [(enqueueJob_frame w job world).offered]
  simp [offered,enqueuedJobs,enqueuedJob]

end WorkerProperties

namespace Desk

/-- The jobs offered so far are numbered in the order of the calls, and those that were sent come
before those that wait. -/
structure InOrder (d : Desk Key Msg) : Prop where
  consistent : d.1.Consistent
  sublist : (d.2.deliveredJobs++d.1.messageQueue).Sublist d.2.offered
  numbered : (d.2.offered.map Job.tag).Pairwise (· < ·)
  below : ∀job∈d.2.offered,job.tag<d.2.nextJob

theorem InOrder.call (h : InOrder d) (label : WorkerCall Key Msg × Oracle) :
    InOrder (d.call label) := by
  by_cases hca : ∃job,label.1=.enqueueJob job
  · obtain ⟨job,hjob⟩:=hca
    have hc:=call_consistent h.consistent label
    simp only [Desk.call,hjob] at hc ⊢
    refine ⟨hc,(enqueueJob_sendsFrom _ _ _).sublist ?_,?_,?_⟩
    · rw [enqueueJob_offered,← append_assoc]
      exact h.sublist.append (.refl _)
    · rw [enqueueJob_offered,map_append,pairwise_append]
      refine ⟨h.numbered,pairwise_singleton _ _,fun tag htag last hl => ?_⟩
      obtain ⟨earlier,he,rfl⟩:=mem_map.mp htag
      obtain rfl:=mem_singleton.mp hl
      exact h.below earlier he
    · rw [enqueueJob_offered,(enqueueJob_frame _ _ _).nextJob]
      intro earlier he
      rcases mem_append.mp he with he | he
      · exact Nat.lt_succ_of_lt (h.below earlier he)
      · obtain rfl:=mem_singleton.mp he
        exact Nat.lt_succ_self _
  · obtain ⟨w,world,hq,-,hn,hw,hm⟩ := call_moves h.consistent (not_exists.mp hca)
    have ho : (d.call label).2.offered=d.2.offered :=
      hm.frame.offered.trans (offered_eq (hw.imp fun _ he => he.1))
    have hs : world.deliveredJobs=d.2.deliveredJobs := (hw.imp fun _ he => he.2).filterMap_log
    refine ⟨call_consistent h.consistent label,?_,by rw [ho]; exact h.numbered,?_⟩
    · rw [ho]
      refine hm.sendsFrom.sublist ?_
      rw [hs,hq]
      exact h.sublist
    · rw [ho,hm.frame.nextJob,hn]
      exact h.below

theorem Starts.inOrder {settings : WorkerDiscardSettings} (h : Starts settings d) : InOrder d := by
  obtain ⟨wid,actor,handler,hd,hlog⟩:=h
  have ho : d.2.offered=[] := by simp [offered,enqueuedJobs,hlog]
  have hs : d.2.deliveredJobs=[] := by rw [deliveredJobs,hlog,filterMap_nil]
  refine ⟨?_,?_,?_,?_⟩
  · rw [hd]
    exact new_consistent _ _ _ _
  · rw [hs,hd]
    exact nil_sublist _
  · rw [ho]
    exact .nil
  · rw [ho]
    exact forall_mem_nil _

/-- The jobs that reach worker actors do so in the order in which they were passed to `enqueue_job`,
and each at most once. -/
theorem casts_in_order {settings : WorkerDiscardSettings} {d : Desk Key Msg}
    (h : Reachable (Starts settings) Step d) :
    d.2.deliveredJobs.Sublist d.2.offered ∧ (d.2.deliveredJobs.map Job.tag).Nodup := by
  have horder : InOrder d := by
    refine h.invariant (fun _ => Starts.inOrder) ?_
    rintro d label _ hd rfl
    exact hd.call label
  have hsent : d.2.deliveredJobs.Sublist d.2.offered:=(sublist_append_left _ _).trans horder.sublist
  refine ⟨hsent,?_⟩
  have hincreasing : (d.2.deliveredJobs.map Job.tag).Pairwise (· < ·) :=
    horder.numbered.sublist (hsent.map Job.tag)
  exact hincreasing.imp fun hlt => hlt.ne

/-- The first cast fails, so the job waits in front of the second one. -/
theorem casts_in_order_reopened :
    ∃d : Desk ℕ Unit,Reachable (Starts (.static 1 .oldest)) Step d ∧
      d.2.deliveredJobs.map Job.key=[1,2] ∧ d.2.deliveredJobs.Sublist d.2.offered ∧
      (d.2.deliveredJobs.map Job.tag).Nodup := by
  have hstart : Reachable (Starts (.static 1 .oldest)) Step fresh :=
    .start ⟨0,.ofLocal 0,none,rfl,rfl⟩
  have hfirst:=hstart.next (e:=(.enqueueJob (.plain 1),.closed)) rfl
  have hsecond:=hfirst.next (e:=(.enqueueJob (.plain 2),.calm)) rfl
  have hthird:=hsecond.next (e:=(.workerComplete 1,.calm)) rfl
  exact ⟨_,hthird,rfl,casts_in_order hthird⟩

end Desk
end Ractor.Factory
