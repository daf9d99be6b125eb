import Ractor.FactoryExpiredJobs
import Ractor.FactoryWorkConservation

/-!
# The reported capacity

A factory with queuer routing that sheds the newest jobs reports as its capacity the idle workers
and the free places of its queue. The router tracks every idle worker, so each of the next
dispatches takes one of these.
-/

namespace Ractor.Factory
open FactoryState FiniteMap Pool AvailableWorkers Router List WorkerProperties

variable {Key Msg : Type}

theorem countP_entries (p : WorkerProperties Key Msg→Bool) (pool : Pool Key Msg) :
    pool.entries.countP (fun entry => p entry.2)=total (fun w => (p w).toNat) pool := by
  unfold total
  induction pool.entries with
  | nil => rfl
  | cons entry rest ih => cases hp : p entry.2 <;> simp [hp,ih,Nat.add_comm]

variable [DecidableEq Key] {w : WorkerProperties Key Msg} {job : Job Key Msg}

/-- A worker that counts for the capacity. -/
def WorkerProperties.isSpare (w : WorkerProperties Key Msg) : Bool :=
  !w.isDraining && w.isAvailable

theorem enqueueJob_discards_none (h : w.isAvailable=true) (world : World Key Msg) :
    world.Writes (·.discards=none) (w.enqueueJob job world).2 := by
  have hr : w.refusesNewest=false := by
    unfold refusesNewest
    split <;> simp [h]
  obtain ⟨hc,hm⟩:=w.isAvailable_iff.mp h
  rw [enqueueJob_idle job world hr (w.currJobs_eq_empty hc),hm]
  have he : world.Writes (·.discards=none) (world.record (.enqueued w job)):=.record world rfl
  refine he.trans (.trans (.accept _ job fun _ => rfl) ?_)
  simp only [nextNonExpired,dispatchJob]
  split <;> exact .record _ rfl

namespace FactoryState

/-- The factory handles these dispatches one after the other and discards nothing, as long as the
jobs are not expired when they arrive. -/
def AcceptsNext {R Q : Type} [Router R Key Msg] [Queue Q Key Msg] :
    FactoryState Key Msg R Q → List (Job Key Msg × Oracle) → Prop
  | _,[] => True
  | s,(job,oracle)::rest => job.isExpired (s.withOracle oracle).world.now=false →
      ∃s',Step s (.message (.dispatch job),oracle) s' ∧
        s.world.Writes (·.discards=none) s'.world ∧ AcceptsNext s' rest

variable {s t : FactoryState Key Msg (QueuerRouting Key Msg) (DefaultQueue Key Msg)} {limit : ℕ}

/-- The factory takes jobs, sheds the newest at a limit, and its router tracks the idle workers. -/
structure Open (limit : ℕ)
    (s : FactoryState Key Msg (QueuerRouting Key Msg) (DefaultQueue Key Msg)) : Prop where
  sheds : s.discardSettings.getLimitAndMode=some (limit,.newest)
  notDraining : s.drainState=.notDraining
  balanced : Balanced False none 0 s

/-- The idle workers that are not draining, and the free places of the queue. -/
def room (limit : ℕ) (s : FactoryState Key Msg (QueuerRouting Key Msg) (DefaultQueue Key Msg)) : ℕ :=
  (s.pool.entries.countP fun entry => !entry.2.isDraining && entry.2.isAvailable) +
    (limit - s.queue.q.length)

omit [DecidableEq Key] in
theorem room_eq (limit : ℕ)
    (s : FactoryState Key Msg (QueuerRouting Key Msg) (DefaultQueue Key Msg)) :
    s.room limit=total (fun w => w.isSpare.toNat) s.pool+(limit - s.queue.q.length) := by
  rw [← countP_entries]
  rfl

/-- While there is capacity, a job goes to an idle worker or, without one, into the queue. -/
theorem Open.dispatchNumbered (h : s.Open limit) (hpos : 0<s.room limit)
    (he : job.isExpired s.world.now=false) :
    ∃s',s.dispatchNumbered job=.ok s' ∧ s.world.Writes (·.discards=none) s'.world ∧
      s'.discardSettings=s.discardSettings ∧ s'.drainState=s.drainState ∧
      s.room limit ≤ s'.room limit+1 := by
  obtain ⟨hs,hd,hb⟩:=h
  simp only [room_eq] at hpos ⊢
  obtain ⟨ht,hn⟩:=s.router.choose_indexed job s.poolSize none s.pool s.world.tick _
    (fun _ hk => hk.1) hb.tracked
  have hroute : routeMessage s.router job s.poolSize none s.pool s.world.tick=routeByChoice s.pool
    job (s.router.chooseTargetWorker job s.poolSize none s.pool s.world.tick):=rfl
  have hw : (s.router.chooseTargetWorker job s.poolSize none s.pool s.world.tick).world =
    s.world.tick:=rfl
  generalize s.router.chooseTargetWorker job s.poolSize none s.pool s.world.tick=choice
    at ht hn hroute hw
  obtain ⟨target,router,_⟩:=choice
  subst hw
  cases target with
  | none =>
    have hz : total (fun w => w.isSpare.toNat) s.pool=0 := by
      by_contra hne
      obtain ⟨wid,w,hl,hpos⟩:=exists_of_total_pos _ (Nat.pos_of_ne_zero hne)
      refine (hn rfl).2.1 wid ⟨idle_iff.mpr ⟨w,hl,?_⟩,by simp⟩
      cases ha : w.isAvailable <;> simp_all [isSpare]
    have hlt : ¬ limit ≤ s.queue.q.length := by omega
    simp only [routeByChoice,Option.bind_none] at hroute
    refine ⟨{s with
      router:=router
      queue:=⟨s.queue.q++[job.taken]⟩
      world:=s.world.tick.accept job},?_,.accept s.world.tick job fun _ => rfl,rfl,rfl,?_⟩
    · simp only [FactoryState.dispatchNumbered,he,hd,hroute,maybeEnqueue,hs,acceptIntoQueue]
      simp [Queue.len,Queue.isJobDiscardable,Queue.pushBack,hlt]
    · simp only [length_append,length_singleton]
      omega
  | some wid =>
    obtain ⟨⟨w,hl,ha⟩,-⟩:=ht wid rfl
    simp only [routeByChoice,Option.bind_some,hl,Option.map_some] at hroute
    refine ⟨{s with
      router:=router
      pool:=s.pool.insert wid (w.enqueueJob job s.world.tick).1
      world:=(w.enqueueJob job s.world.tick).2},?_,
      enqueueJob_discards_none (ha.resolve_right id) s.world.tick,rfl,rfl,?_⟩
    · simp only [FactoryState.dispatchNumbered,he,hd,hroute]
      rfl
    · have hi:=total_insert_of_lookup (fun w : WorkerProperties Key Msg => w.isSpare.toNat)
        (w.enqueueJob job s.world.tick).1 hl
      have hle:=Bool.toNat_le w.isSpare
      dsimp only
      omega

theorem Open.handle (h : s.Open limit) {message : FactoryMessage Key Msg} {oracle : Oracle}
    (hs : (t.withOracle oracle).handleMessage message=.ok s) :
    Step t (.message message,oracle) s := by
  simp only [Step,handleEvent,FactoryState.handle,hs,stopIfDrained,isDrained,h.notDraining]
  rfl

theorem Open.acceptsNext (h : s.Open limit) {dispatches : List (Job Key Msg × Oracle)}
    (hc : dispatches.length ≤ s.room limit) : s.AcceptsNext dispatches := by
  induction dispatches generalizing s with
  | nil => trivial
  | cons dispatch rest ih =>
    obtain ⟨job,oracle⟩:=dispatch
    intro he
    have hb : Balanced False none 0 (s.withOracle oracle) :=
      (withOracle_housekeeping s oracle).balanced h.balanced
    let arriving := job.numbered (s.withOracle oracle).world.nextJob
    have ha : ((s.withOracle oracle).arrived arriving).Open limit :=
      ⟨h.sheds,h.notDraining,hb.congr rfl rfl rfl⟩
    have he : arriving.isExpired ((s.withOracle oracle).arrived arriving).world.now=false:=he
    obtain ⟨s',hs',hw,hds,hdr,hcap⟩ :=
      ha.dispatchNumbered (Nat.lt_of_lt_of_le (Nat.succ_pos _) hc) he
    have hopen : s'.Open limit := ⟨hds ▸ h.sheds,hdr.trans h.notDraining,dispatch_balanced hs' hb⟩
    refine ⟨s',hopen.handle hs',.trans (.record s.world rfl) hw,ih hopen ?_⟩
    exact Nat.le_of_succ_le_succ (hc.trans hcap)

/-- The router tracks the idle workers, whatever the queue was at the start. -/
theorem reached_tracked {args : FactoryArguments (QueuerRouting Key Msg) (DefaultQueue Key Msg)}
    (hr : args.router={}) (h : Reached args s) : Balanced False none 0 s := by
  refine (shaped_rec (P:=Balanced False none 0) ?_ (fun _ _ hk => hk.balanced)
    (fun _ _ _ _ hw hs _ => work_balanced hw hs.own False.elim) (reached_meets h)).1
  · intro s hs
    refine starts_rec (P:=fun _ t => Balanced False none 0 t) ?_ ?_ ?_ hs
    · intro oracle firstPid firstJob _
      have ht : args.router.Tracks fun _ => False:=hr.symm ▸ tracks_empty
      refine ⟨ht.imp fun k hk => ?_,False.elim,False.elim⟩
      obtain ⟨w,hl,_⟩:=idle_iff.mp hk.1
      cases hl
    · intro n t t' ha ht
      exact ⟨(addWorker_balanced ha ht).tracked,False.elim,False.elim⟩
    · intro n t t' hk ht
      exact hk.balanced ht

/-- A factory reports as its capacity the idle workers that are not draining and the free places of
its queue, and then handles that many dispatches without discarding a job. -/
theorem reported_capacity_honoured
    (args : FactoryArguments (QueuerRouting Key Msg) (DefaultQueue Key Msg))
    (hrouter : args.router={}) (h : Reached args s)
    (hsheds : s.discardSettings.getLimitAndMode=some (limit,.newest))
    (hopen : s.drainState=.notDraining) (port : ReplyPort) (oracle : Oracle) :
    ∃s' n,Step s (.message (.getAvailableCapacity port),oracle) s' ∧
      s'.world.log=s.world.log++[.replied port n] ∧
      n=min ((s.pool.entries.countP fun entry => !entry.2.isDraining && entry.2.isAvailable) +
        (limit - s.queue.q.length)) (2^64 - 1) ∧
      ∀dispatches : List (Job Key Msg × Oracle),dispatches.length=n →
        s'.AcceptsNext dispatches := by
  let asked := s.withOracle oracle
  have hb : Balanced False none 0 asked :=
    (withOracle_housekeeping s oracle).balanced (reached_tracked hrouter h)
  have hs' : (asked.reply port asked.availableCapacity).Open limit :=
    ⟨hsheds,hopen,hb.congr rfl rfl rfl⟩
  have hcap : asked.availableCapacity=min (s.room limit) (2^64 - 1) := by
    have hs : asked.discardSettings.getLimitAndMode=some (limit,.newest):=hsheds
    simp only [availableCapacity,hs]
    rfl
  refine ⟨_,_,hs'.handle rfl,rfl,hcap,fun _ hn => hs'.acceptsNext ?_⟩
  rw [hn,hcap]
  exact Nat.min_le_left _ _

/-- One idle worker and a queue with one place. -/
theorem reported_capacity_honoured_idle :
    let args : FactoryArguments (QueuerRouting ℕ Unit) (DefaultQueue ℕ Unit) :=
      {router:={},queue:={},discardSettings:=.static 1 .newest}
    ∃s s' : FactoryState ℕ Unit (QueuerRouting ℕ Unit) (DefaultQueue ℕ Unit),Reached args s ∧
      s.discardSettings=.static 1 .newest ∧ s.drainState=.notDraining ∧
      Step s (.message (.getAvailableCapacity 7),.calm) s' ∧
      s'.world.log=s.world.log++[.replied 7 2] ∧
      s'.AcceptsNext [(.plain 1,.calm),(.plain 2,.calm)] := by
  intro args
  obtain ⟨s,hs,ht⟩:=exists_reached args .calm 0 [] (fun s => s.room 1=2 &&
    s.discardSettings=.static 1 .newest && s.drainState=.notDraining) rfl (by decide +kernel)
  simp only [Bool.and_eq_true,decide_eq_true_eq] at ht
  obtain ⟨⟨hcap,hsheds⟩,hopen⟩:=ht
  obtain ⟨s',n,hstep,hlog,hn,hnext⟩:=reported_capacity_honoured args rfl hs
    (congrArg DiscardSettings.getLimitAndMode hsheds) hopen 7 .calm
  obtain rfl : n=2:=hn.trans (congrArg (min · (2^64 - 1)) hcap)
  exact ⟨s,s',hs,hsheds,hopen,hstep,hlog,hnext _ rfl⟩

end FactoryState
end Ractor.Factory
