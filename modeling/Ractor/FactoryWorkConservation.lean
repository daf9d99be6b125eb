import Ractor.FactoryAvailability
import Ractor.FactoryRoutingAttempts

/-!
# Work conservation of the queueing routers

With a queueing router no worker idles while jobs wait in the factory queue. Inside a message
the two may coexist for a while: `Balanced C hint n` allows for as many waiting jobs or idle
workers as there are routing attempts to come, and for one idle worker, the hinted one, that
the router does not know of yet. A routing attempt takes `Balanced C hint (n + 1)` to
`Balanced C hint n`, unless it spends itself on a busy worker that the router prefers for the
head job. With `C` false nothing is said about waiting jobs: what is left is that the router
tracks every idle worker, and that needs no condition on the attempts.
-/

namespace Ractor.Factory
open IndexedRouter FactoryState FiniteMap Pool AvailableWorkers Router List

variable {Key Msg R Q : Type}

open LawfulQueue (contents)

/-! ### Idle workers of a pool -/

variable {pool : Pool Key Msg} {k n wid : ℕ} {w : WorkerProperties Key Msg} {hint : Option ℕ}
  {s s' : FactoryState Key Msg R Q} {args : FactoryArguments R Q}

theorem Pool.idle_iff : pool.Idle wid ↔ ∃w,pool.lookup wid=some w ∧ w.isAvailable=true :=
  Option.any_eq_true _ _

def idleCount (pool : Pool Key Msg) : ℕ :=
  total (fun w => w.isAvailable.toNat) pool

theorem idleCount_eq_zero : idleCount pool=0 ↔ ∀wid,¬pool.Idle wid := by
  constructor
  · intro h wid hw
    obtain ⟨w,hl,ha⟩:=idle_iff.mp hw
    have hle:=le_total (fun w : WorkerProperties Key Msg => w.isAvailable.toNat) hl
    rw [ha] at hle
    unfold idleCount at h
    rw [h] at hle
    cases hle
  · intro h
    by_contra hne
    obtain ⟨wid,w,hl,hpos⟩:=exists_of_total_pos _ (Nat.pos_of_ne_zero hne)
    refine h wid (idle_iff.mpr ⟨w,hl,?_⟩)
    cases ha : w.isAvailable with
    | true => rfl
    | false => simp [ha] at hpos

theorem Pool.idle_insert :
    Pool.Idle (pool.insert wid w) k ↔ k=wid ∧ w.isAvailable=true ∨ k≠wid ∧ pool.Idle k := by
  simp only [idle_iff,lookup_insert_eq_some]
  constructor
  · rintro ⟨v,⟨rfl,rfl⟩ | ⟨hk,hl⟩,ha⟩
    · exact .inl ⟨rfl,ha⟩
    · exact .inr ⟨hk,v,hl,ha⟩
  · rintro (⟨rfl,ha⟩ | ⟨hk,v,hl,ha⟩)
    · exact ⟨w,.inl ⟨rfl,rfl⟩,ha⟩
    · exact ⟨v,.inr ⟨hk,hl⟩,ha⟩

theorem Pool.idle_erase : Pool.Idle (pool.erase wid) k ↔ k≠wid ∧ pool.Idle k := by
  simp only [idle_iff,lookup_erase_eq_some]
  constructor
  · rintro ⟨v,⟨hk,hl⟩,ha⟩
    exact ⟨hk,v,hl,ha⟩
  · rintro ⟨hk,v,hl,ha⟩
    exact ⟨v,⟨hk,hl⟩,ha⟩

theorem idleCount_insert (hl : pool.lookup wid=some w) (w' : WorkerProperties Key Msg) :
    idleCount (pool.insert wid w')+w.isAvailable.toNat=idleCount pool+w'.isAvailable.toNat :=
  total_insert_of_lookup _ w' hl

theorem idleCount_insert_le (pool : Pool Key Msg) (wid : ℕ) (w : WorkerProperties Key Msg) :
    idleCount (pool.insert wid w) ≤ idleCount pool+1 := by
  have hle : w.isAvailable.toNat≤1:=Bool.toNat_le _
  cases hl : pool.lookup wid with
  | none =>
    have ht:=total_insert_of_notMem
      (fun w : WorkerProperties Key Msg => w.isAvailable.toNat) w (AList.lookup_eq_none.mp hl)
    unfold idleCount
    omega
  | some old =>
    have ht:=idleCount_insert hl w
    omega

theorem Housekeeping.map_isAvailable [Queue Q Key Msg] [LawfulQueue Q] (h : Housekeeping s s') (wid : ℕ) :
    (s'.pool.lookup wid).map WorkerProperties.isAvailable =
      (s.pool.lookup wid).map WorkerProperties.isAvailable := by
  have hp:=congrArg (Option.map fun core => core.2.2.2.1.entries.isEmpty && core.2.2.1.isEmpty)
    (h.pool wid)
  rwa [Option.map_map,Option.map_map] at hp

variable [DecidableEq Key]

theorem Pool.idle_enqueue {job : Job Key Msg} {world : World Key Msg} :
    Pool.Idle (pool.insert wid (w.enqueueJob job world).1) k ↔ k≠wid ∧ pool.Idle k := by
  rw [idle_insert,w.enqueueJob_not_available job world]
  simp

theorem idleCount_enqueue (hl : pool.lookup wid=some w) (job : Job Key Msg)
    (world : World Key Msg) :
    idleCount (pool.insert wid (w.enqueueJob job world).1)+w.isAvailable.toNat =
      idleCount pool := by
  have h:=idleCount_insert hl (w.enqueueJob job world).1
  rwa [w.enqueueJob_not_available job world,Bool.toNat_false,Nat.add_zero] at h

theorem FactoryState.replaceExited_frame {t : FactoryState Key Msg R Q} {who : ActorId}
    {worker : WorkerProperties Key Msg} (h : s.replaceExited who wid worker=.ok t) :
    t.queue=s.queue ∧ t.router=s.router ∧ t.poolSize=s.poolSize ∧
      ∃w,t.pool=s.pool.insert wid w := by
  unfold replaceExited at h
  split at h
  · cases h
  · cases h
    exact ⟨rfl,rfl,rfl,_,rfl⟩

variable [Router R Key Msg] [IndexedRouter R] [Queue Q Key Msg] [LawfulQueue Q]

/-! ### Balance inside a message -/

structure Balanced (C : Prop) (hint : Option ℕ) (n : ℕ) (s : FactoryState Key Msg R Q) :
    Prop where
  tracked : IndexedRouter.Tracks s.router fun k => s.pool.Idle k ∧ hint≠some k
  gapless : C → ∀(m : ℕ) (pool : Pool Key Msg),¬IndexedRouter.Gap R m pool
  conserves : C → (contents s.queue).length≤n ∨ idleCount s.pool≤n

/-- A routing attempt reaches an idle worker: if its head job sticks to a busy worker, then the
attempts to come are enough for the jobs behind it or for the idle workers. -/
def Attempt.FeedsIdle (attempt : Attempt Key Msg R Q) : Prop :=
  ∀job rest,liveBacklog attempt.state.world.oracle.clock (contents attempt.state.queue) =
      job::rest →
    (∃wid w,attempt.state.pool.lookup wid=some w ∧ IndexedRouter.Sticks R job w) →
    rest.length≤attempt.later ∨ idleCount attempt.state.pool≤attempt.later

namespace FactoryState

/-- The target chosen for the head of the backlog, seen from the index of the router. -/
theorem route_chosen_of_tracked {C : Prop} {head : Job Key Msg} {choice : Choice R Key Msg}
    {worker : WorkerId} (hs : Balanced C hint n s)
    (hc : chooseTargetWorker s.router head s.poolSize hint s.pool s.world=choice)
    (ht : choice.target=some worker) :
    IndexedOutcome IndexedRouter.Tracks (IndexedRouter.Sticks R)
      (IndexedRouter.Gap R s.poolSize s.pool) (fun k => s.pool.Idle k ∧ hint≠some k) s.pool head
      (routeMessage choice.router head s.poolSize (some worker) s.pool choice.world).result
      (routeMessage choice.router head s.poolSize (some worker) s.pool choice.world).pool
      (routeMessage choice.router head s.poolSize (some worker) s.pool choice.world).router := by
  subst hc
  exact route_chosen (fun _ hk => hk.1) hs.tracked ht _

theorem routeHead_balanced {C : Prop} {later fuel : ℕ} (h : routeHead hint fuel s=.ok s')
    (hf : (contents s.queue).length≤fuel)
    (hfe : C→∀job rest,contents s.queue=job::rest →
      (∃wid w,s.pool.lookup wid=some w ∧ IndexedRouter.Sticks R job w) →
      rest.length≤later ∨ idleCount s.pool≤later) (hs : Balanced C hint (later+1) s) :
    Balanced C hint later s' := by
  replace h:=routeHead_routed h
  induction h with
  | spent s => exact ⟨hs.tracked,hs.gapless,fun _ => .inl (hf.trans (Nat.zero_le _))⟩
  | empty _ s hp => exact ⟨hs.tracked,hs.gapless,fun _ => .inl (by simp [peek_none hp])⟩
  | @untargeted _ s head _ choice _ hc ht =>
    have hn := @choose_none R Key Msg _ _ _ s.router head s.poolSize hint s.pool
      s.world _ (fun _ hk => hk.1) hs.tracked
    rw [hc] at hn
    obtain ⟨htr,hn⟩:=hn ht
    refine ⟨htr,hs.gapless,fun hC => .inr ?_⟩
    obtain ⟨hn,hhi⟩:=hn.resolve_left (hs.gapless hC _ _)
    -- nobody is idle, neither a tracked worker nor the hinted one
    have hz : idleCount s.pool=0 := by
      refine idleCount_eq_zero.mpr fun k hk => ?_
      by_cases hh : hint=some k
      · exact hhi k hh hk
      · exact hn k ⟨hk,hh⟩
    dsimp only
    omega
  | @handled _ s head rest choice worker router pool world hp hc ht hr =>
    have ho:=route_chosen_of_tracked hs hc ht
    rw [hr] at ho
    dsimp only at ho
    cases ho with
    | @handled target w index hl hw world htr =>
      have hcou:=idleCount_enqueue hl head world
      refine ⟨tracks_imp htr fun k hk => ?_,hs.gapless,fun hC => ?_⟩
      · obtain ⟨hne,hk'⟩:=idle_enqueue.mp hk.1
        exact ⟨⟨hk',hk.2⟩,hne⟩
      · have hco:=hs.conserves hC
        rw [hp.contents,length_cons] at hco
        dsimp only
        rcases hw with ha | hst
        · rw [ha,Bool.toNat_true] at hcou
          omega
        · have:=hfe hC head _ hp.contents ⟨target,w,hl,hst⟩
          omega
  | @limited _ s _ head job rest choice worker router pool world hp hc ht hr _ ih =>
    have ho:=route_chosen_of_tracked hs hc ht
    rw [hr] at ho
    dsimp only at ho
    rw [hp.contents,length_cons] at hf
    cases ho with
    | rateLimited htr hfr =>
      refine ih (by simpa [discardAndReject] using hf) ?_ ⟨htr,hs.gapless,fun hC => ?_⟩
      · rintro _ job rest _ ⟨_,w,_,hst⟩
        exact absurd hst (hfr job w)
      · have hco:=hs.conserves hC
        rw [hp.contents,length_cons] at hco
        simp only [discardAndReject]
        omega

end FactoryState

namespace Balanced
variable {C : Prop} {t : FactoryState Key Msg R Q} {m : ℕ}

/-- Balance is about the queue, the pool and the router only. -/
theorem congr (h : Balanced C hint n s) (hq : t.queue=s.queue) (hp : t.pool=s.pool)
    (hr : t.router=s.router) : Balanced C hint n t := by
  refine ⟨?_,h.gapless,?_⟩
  · rw [hr,hp]
    exact h.tracked
  · rw [hq,hp]
    exact h.conserves

theorem weaken (h : Balanced C hint n s) (hle : n ≤ m) : Balanced C hint m s :=
  ⟨h.tracked,h.gapless,fun hC =>
    (h.conserves hC).imp (fun hl => hl.trans hle) (fun hi => hi.trans hle)⟩

theorem of_empty (h : Balanced C hint n s) (hq : contents s.queue=[]) : Balanced C hint m s :=
  ⟨h.tracked,h.gapless,fun _ => .inl (by simp [hq])⟩

/-- One worker was touched and may have become idle without the router knowing. -/
theorem changed (h : Balanced C none 0 s) (hq : t.queue=s.queue) (hr : t.router=s.router)
    (hp : t.pool=s.pool.insert wid w) : Balanced C (some wid) 1 t := by
  refine ⟨?_,h.gapless,fun hC => ?_⟩
  · rw [hr,hp]
    refine tracks_imp h.tracked fun k hk => ?_
    rcases idle_insert.mp hk.1 with ⟨rfl,_⟩ | ⟨_,hi⟩
    · exact absurd rfl hk.2
    · exact ⟨hi,by simp⟩
  · have hle:=idleCount_insert_le s.pool wid w
    have hc:=h.conserves hC
    rw [hq,hp]
    omega

theorem settled (h : Balanced C none 0 s) (hq : t.queue=s.queue)
    (hr : IndexedRouter.Tracks t.router fun k => s.pool.Idle k ∧ none≠some k)
    (hp : ∀k,t.pool.Idle k→s.pool.Idle k) : Balanced C none 0 t := by
  refine ⟨tracks_imp hr fun k hk => ⟨hp k hk.1,hk.2⟩,h.gapless,fun hC => ?_⟩
  rw [hq]
  refine (h.conserves hC).imp id fun hz => (idleCount_eq_zero.mpr fun k hk => ?_).le
  exact idleCount_eq_zero.mp (Nat.le_zero.mp hz) k (hp k hk)

end Balanced

theorem Housekeeping.balanced (h : Housekeeping s s') {C : Prop} (hs : Balanced C hint n s) :
    Balanced C hint n s' := by
  have hi : ∀k,s'.pool.Idle k→s.pool.Idle k := by
    intro k hk
    have hm:=congrArg (Option.any id) (h.map_isAvailable k)
    rw [Option.any_map,Option.any_map] at hm
    exact hm.symm.trans hk
  have hc : idleCount s'.pool=idleCount s.pool := by
    refine total_congr _ fun wid => ?_
    have hm:=congrArg (Option.map Bool.toNat) (h.map_isAvailable wid)
    rwa [Option.map_map,Option.map_map] at hm
  refine ⟨?_,hs.gapless,fun hC => ?_⟩
  · rw [h.router]
    exact tracks_imp hs.tracked fun k hk => ⟨hi k hk.1,hk.2⟩
  · rw [hc]
    exact (hs.conserves hC).imp h.queue.length_le.trans id

namespace FactoryState
variable {C : Prop}

/-! ### Routing attempts -/

theorem tryRouteNextActiveJob_balanced {later : ℕ} (h : s.tryRouteNextActiveJob hint=.ok s')
    (hf : C → Attempt.FeedsIdle ⟨hint,later,s⟩) (hs : Balanced C hint (later+1) s) :
    Balanced C hint later s' := by
  have hlen:=LawfulQueue.len_eq s.queue
  have hco:=expireHead_contents _ s hlen.ge
  refine routeHead_balanced h (LawfulQueue.len_eq _).ge ?_
    ((expireHead_housekeeping _ s).balanced hs)
  intro hC job rest hc hst
  rw [hco] at hc
  rw [expireHead_pool] at hst ⊢
  exact hf hC job rest hc hst

theorem routeToFreed_balanced (h : s.routeToFreed wid=.ok s')
    (hf : C → Attempt.FeedsIdle ⟨some wid,0,s⟩) (hs : Balanced C (some wid) 1 s) :
    Balanced C none 0 s' := by
  unfold routeToFreed at h
  cases hr : s.tryRouteNextActiveJob (some wid) with
  | error e => simp [hr] at h
  | ok t =>
    have ht:=tryRouteNextActiveJob_balanced hr hf hs
    rw [hr] at h
    dsimp only at h
    split at h
    next =>
      cases h
      refine ⟨tracks_imp (tracks_announce ht.tracked wid) fun k hk => ?_,ht.gapless,ht.conserves⟩
      by_cases hkw : k=wid
      · exact .inr hkw
      · exact .inl ⟨hk.1,by simpa using Ne.symm hkw⟩
    next hb =>
      cases h
      refine ⟨tracks_imp ht.tracked fun k hk => ⟨hk.1,?_⟩,ht.gapless,ht.conserves⟩
      rintro ⟨⟩
      exact hb hk.1

/-! ### The four kinds of work -/

theorem dispatch_balanced {job : Job Key Msg} (h : s.dispatch job=.ok s')
    (hs : Balanced C none 0 s) : Balanced C none 0 s' := by
  unfold dispatch dispatchNumbered at h
  generalize job.numbered s.world.nextJob=job at h
  dsimp only at h
  split at h
  · cases h
    exact hs.congr rfl rfl rfl
  · split at h
    · have ho := @route_unhinted R Key Msg _ _ _ s.router job s.poolSize s.pool
        (s.arrived job).world.tick _ (fun _ hk => hk.1) hs.tracked
      dsimp only [arrived] at h ho
      generalize routeMessage s.router job s.poolSize none s.pool _=routed at h ho
      obtain ⟨result,router,pool,world⟩:=routed
      dsimp only at ho
      cases ho with
      | @handled wid w _ hl _ world ht =>
        cases h
        refine ⟨tracks_imp ht fun k hk => ?_,hs.gapless,fun hC =>
          (hs.conserves hC).imp id fun hz => ?_⟩
        · obtain ⟨hne,hk'⟩:=idle_enqueue.mp hk.1
          exact ⟨⟨hk',hk.2⟩,hne⟩
        · have hc:=idleCount_enqueue hl job world
          dsimp only
          omega
      | backlog ht hn =>
        -- with nobody idle the backlog may grow
        obtain ⟨hp,hr,-⟩:=maybeEnqueue_frame h
        refine ⟨by rw [hr,hp]; exact ht,hs.gapless,fun hC => .inr ?_⟩
        have hn:=hn.resolve_left (hs.gapless hC _ _)
        rw [hp]
        exact (idleCount_eq_zero.mpr fun k hk => hn k ⟨hk,by simp⟩).le
      | rateLimited ht _ =>
        cases h
        exact ⟨ht,hs.gapless,hs.conserves⟩
    · cases h
      exact hs.congr rfl rfl rfl

theorem completeJob_balanced (hs : Balanced C none 0 s) (who : ℕ) (key : Key) :
    Balanced C (some who) 1 (s.completeJob who key) := by
  unfold completeJob
  split
  next =>
    exact ⟨tracks_imp hs.tracked fun k hk => ⟨hk.1,by simp⟩,hs.gapless,
      (hs.weaken (Nat.zero_le 1)).conserves⟩
  next => exact hs.changed rfl rfl rfl

theorem workerFinishedJob_balanced {who : ℕ} {key : Key} (h : s.workerFinishedJob who key=.ok s')
    (hf : C→∀attempt∈s.attempts (.finished who key),attempt.FeedsIdle)
    (hs : Balanced C none 0 s) : Balanced C none 0 s' := by
  obtain ⟨hq,hr,-,hlo⟩:=completeJob_frame s who key
  have hid : ∀k,k≠who→(s.completeJob who key).pool.Idle k→s.pool.Idle k := by
    intro k hk hi
    unfold Pool.Idle at hi
    rwa [hlo k hk] at hi
  have ht : IndexedRouter.Tracks (s.completeJob who key).router
      fun k => s.pool.Idle k ∧ none≠some k := by
    rw [hr]
    exact hs.tracked
  cases workerFinishedJob_cases h with
  | @draining worker hl _ ha =>
    refine hs.settled hq ht fun k hk => hid k ?_ hk
    rintro rfl
    obtain ⟨w,hl',ha'⟩:=idle_iff.mp hk
    rw [hl] at hl'
    cases hl'
    rw [ha] at ha'
    cases ha'
  | dropped =>
    refine hs.settled hq ht fun k hk => ?_
    obtain ⟨hne,hk⟩:=idle_erase.mp hk
    exact hid k hne hk
  | freed hd hro =>
    exact routeToFreed_balanced hro (fun hC => hf hC _ (mem_attempts_finished hd))
      (completeJob_balanced hs who key)

theorem handleExit_balanced {who : ActorId} (h : s.handleExit who=.ok s')
    (hown : ∀wid w,s.pool.lookup wid=some w→w.wid=wid)
    (hf : C→∀attempt∈s.attempts (.exited who),attempt.FeedsIdle)
    (hs : Balanced C none 0 s) : Balanced C none 0 s' := by
  cases handleExit_cases h with
  | unknown => exact hs
  | @replaced wid worker t _ hi hl ht hr =>
    have hfe:=fun hC => hf hC _ (mem_attempts_exited hi hl ht)
    obtain ⟨hq,hro,-,w,hp⟩:=replaceExited_frame ht
    rw [hown wid worker hl] at hr hfe
    exact routeToFreed_balanced hr hfe (hs.changed hq hro hp)

theorem addWorker_balanced (h : s.addWorker wid=.ok s') (hs : Balanced C none n s) :
    Balanced C none (n+1) s' := by
  obtain ⟨_,_,-,rfl⟩:=addWorker_ok h
  refine ⟨?_,hs.gapless,fun hC => ?_⟩
  · refine tracks_imp (tracks_announce hs.tracked wid) fun k hk => ?_
    rcases idle_insert.mp hk.1 with ⟨rfl,_⟩ | ⟨_,hi⟩
    · exact .inr rfl
    · exact .inl ⟨hi,hk.2⟩
  · have hc:=hs.conserves hC
    have hle:=fun w => idleCount_insert_le s.pool wid w
    dsimp only
    rcases hc with hc | hc
    · exact .inl (by omega)
    · exact .inr ((hle _).trans (Nat.succ_le_succ hc))

/-- Whether a worker drains does not matter for whether it is idle. -/
theorem setDraining_balanced (hl : s.pool.lookup wid=some w) (b : Bool) (hs : Balanced C none n s) :
    Balanced C none n {s with pool:=s.pool.insert wid (w.setDraining b)} := by
  have ha : (w.setDraining b).isAvailable=w.isAvailable:=rfl
  refine ⟨tracks_imp hs.tracked fun k hk => ?_,hs.gapless,fun hC => ?_⟩
  · rcases idle_insert.mp hk.1 with ⟨rfl,hw⟩ | ⟨_,hi⟩
    · exact ⟨idle_iff.mpr ⟨w,hl,hw⟩,hk.2⟩
    · exact ⟨hi,hk.2⟩
  · have hco:=idleCount_insert hl (w.setDraining b)
    rw [ha] at hco
    have hc:=hs.conserves hC
    dsimp only
    omega

theorem growWorker_balanced (h : s.growWorker wid=.ok s') (hs : Balanced C none n s) :
    Balanced C none (n+1) s' := by
  unfold growWorker at h
  split at h
  next => exact addWorker_balanced h hs
  next existing hl =>
    cases h
    have hset:=setDraining_balanced hl false hs
    refine Balanced.weaken ⟨?_,hset.gapless,hset.conserves⟩ (Nat.le_succ n)
    dsimp only
    split
    · exact tracks_imp (tracks_announce hset.tracked wid) fun k hk => .inl hk
    · exact hset.tracked

theorem growPool_balanced {toAdd : ℕ} (h : s.growPool toAdd=.ok s') (hs : Balanced C none 0 s) :
    Balanced C none toAdd s' := by
  rw [← Nat.add_sub_cancel_left s.poolSize toAdd]
  refine growPool_rec (P:=fun i t => Balanced C none (i - s.poolSize) t) h ?_
    (fun _ t ht => (pingWorkers_housekeeping t).balanced ht) (by simpa using hs)
  intro i t t' hi _ ht hg
  rw [Nat.succ_sub hi]
  exact growWorker_balanced hg ht

theorem shrinkPool_balanced (hs : Balanced C none 0 s) (toRemove : ℕ) :
    Balanced C none 0 (s.shrinkPool toRemove) := by
  refine shrinkPool_rec (fun _ _ _ _ hl _ ht => setDraining_balanced hl true ht) ?_ hs
  intro wid _ t _ _ _ ht
  exact ht.settled rfl (tracks_withdraw ht.tracked wid) fun k hk => (idle_erase.mp hk).2

theorem resizePool_balanced {requestedPoolSize : ℕ} (h : s.resizePool requestedPoolSize=.ok s')
    (hf : C→∀attempt∈s.attempts (.resized requestedPoolSize),attempt.FeedsIdle)
    (hs : Balanced C none 0 s) : Balanced C none 0 s' := by
  cases resizePool_cases h with
  | unchanged => exact hs
  | @grown t _ newPoolSize hn hlt hg hr =>
    rw [attempts_resized hn hlt hg] at hf
    have ht : Balanced C none newPoolSize {t with poolSize:=newPoolSize} :=
      ((growPool_balanced hg hs).weaken (Nat.sub_le _ _)).congr rfl rfl rfl
    exact routeBacklog_rec (I:=Balanced C none) (G:=fun attempt => C→attempt.FeedsIdle)
      (fun _ _ _ hfe hro ht => tryRouteNextActiveJob_balanced hro hfe ht)
      (fun _ _ hq ht => ht.of_empty hq) hr (fun attempt ha hC => hf hC attempt ha) ht
  | @shrunk newPoolSize _ _ _ => exact (shrinkPool_balanced hs _).congr rfl rfl rfl

/-! ### Runs -/

def FeedsIdle (s : FactoryState Key Msg R Q) (work : Work Key Msg) : Prop :=
  ∀attempt∈s.attempts work,attempt.FeedsIdle

theorem work_balanced {work : Work Key Msg} (h : s.work work=.ok s')
    (hown : ∀wid w,s.pool.lookup wid=some w→w.wid=wid) (hf : C→s.FeedsIdle work)
    (hs : Balanced C none 0 s) : Balanced C none 0 s' := by
  cases work with
  | dispatch job => exact dispatch_balanced h hs
  | finished who key => exact workerFinishedJob_balanced h hf hs
  | exited who => exact handleExit_balanced h hown hf hs
  | resized requestedPoolSize => exact resizePool_balanced h hf hs

omit [DecidableEq Key] [IndexedRouter R] in
theorem starts_contents (hq : contents args.queue=[]) (h : Starts args s) :
    contents s.queue=[] := by
  refine starts_rec (P:=fun _ t => contents t.queue=[]) (fun _ _ _ _ => hq) ?_ ?_ h
  · intro n t t' ha ht
    rw [addWorker_queue ha]
    exact ht
  · intro n t t' hk ht
    exact sublist_nil.mp (ht ▸ hk.queue)

theorem starts_balanced (hq : contents args.queue=[])
    (hr : IndexedRouter.Tracks args.router fun _ => False)
    (hg : C→∀(m : ℕ) (pool : Pool Key Msg),¬IndexedRouter.Gap R m pool) (h : Starts args s) :
    Balanced C none 0 s := by
  refine (starts_rec (P:=fun _ t => Balanced C none 0 t ∧ contents t.queue=[]) ?_ ?_ ?_ h).1
  · intro oracle firstPid firstJob _
    refine ⟨⟨tracks_imp hr fun k hk => ?_,hg,fun _ => .inl (by simp [initial,hq])⟩,hq⟩
    obtain ⟨w,hl,_⟩:=idle_iff.mp hk.1
    cases hl
  · intro n t t' ha ht
    have hq':=addWorker_queue ha
    rw [hq']
    exact ⟨(addWorker_balanced ha ht.1).of_empty (by rw [hq']; exact ht.2),ht.2⟩
  · intro n t t' hk ht
    exact ⟨hk.balanced ht.1,sublist_nil.mp (ht.2 ▸ hk.queue)⟩

variable [LawfulRouter R]

/-- In a run whose routing attempts all reach an idle worker, jobs wait only while nobody is
idle. -/
theorem guarded_balanced (hq : contents args.queue=[])
    (hr : IndexedRouter.Tracks args.router fun _ => False)
    (hg : ∀(m : ℕ) (pool : Pool Key Msg),¬IndexedRouter.Gap R m pool)
    (h : Reachable (Starts args) (guarded (WorkMeets FeedsIdle) Step) s) :
    Balanced True none 0 s := by
  exact (shaped_rec (P:=Balanced True none 0) (fun _ hs => starts_balanced hq hr (fun _ => hg) hs)
    (fun _ _ hk => hk.balanced)
    (fun _ _ _ hf hw hs _ => work_balanced hw hs.own fun _ => hf) h).1

theorem reached_balanced (hf : ∀(job : Job Key Msg) w,¬IndexedRouter.Sticks R job w)
    (hq : contents args.queue=[]) (hr : IndexedRouter.Tracks args.router fun _ => False)
    (hg : ∀(m : ℕ) (pool : Pool Key Msg),¬IndexedRouter.Gap R m pool) (h : Reached args s) :
    Balanced True none 0 s := by
  refine guarded_balanced hq hr hg (h.mono (fun _ hs => hs) fun _ _ _ hs => ⟨?_,hs⟩)
  rintro a work _ attempt _ job rest _ ⟨_,w,_,hst⟩
  exact absurd hst (hf job w)

def WorkConserving (s : FactoryState Key Msg R Q) : Prop :=
  contents s.queue≠[] → ∀wid w,s.pool.lookup wid=some w → w.isAvailable=false

end FactoryState

theorem Balanced.workConserving (h : Balanced True none 0 s) : s.WorkConserving := by
  intro hne wid w hl
  have hz : idleCount s.pool=0 := Nat.le_zero.mp ((h.conserves trivial).resolve_left fun hlen =>
      hne (length_eq_zero_iff.mp (Nat.le_zero.mp hlen)))
  rw [Bool.eq_false_iff]
  exact fun ha => idleCount_eq_zero.mp hz wid (idle_iff.mpr ⟨w,hl,ha⟩)

/-- A factory with queuer routing, bare or behind any rate limiter, never leaves a worker
available while jobs wait. -/
theorem queuer_conserves_work {L P : Type} [RateLimiter L] [Priority P] :
    (∀(args : FactoryArguments (QueuerRouting Key Msg) (BuiltInQueue Key Msg P)) s,
      args.router={} → contents args.queue=[] → FactoryState.Reached args s → s.WorkConserving) ∧
    ∀(args : FactoryArguments (RateLimitedRouter (QueuerRouting Key Msg) L)
        (BuiltInQueue Key Msg P)) s,
      args.router.router={} → contents args.queue=[] → FactoryState.Reached args s →
        s.WorkConserving := by
  constructor
  · intro args s hr hq h
    refine (reached_balanced (fun _ _ => id) hq ?_ (fun _ _ => id) h).workConserving
    rw [hr]
    exact tracks_empty
  · intro args s hr hq h
    refine (reached_balanced (fun _ _ => id) hq ?_ (fun _ _ => id) h).workConserving
    change args.router.router.toAvailableWorkers.Tracks _
    rw [hr]
    exact tracks_empty

/-- Two workers, three jobs: the third one waits behind two busy workers. -/
theorem queuer_conserves_work_replayed :
    ∃s,FactoryState.Reached (.plain 2 ({} : QueuerRouting ℕ Unit)) s ∧
      contents s.queue≠[] ∧ s.WorkConserving := by
  obtain ⟨s,hs,ht⟩:=exists_reached (.plain 2 ({} : QueuerRouting ℕ Unit)) .calm 0
    (calmly [.dispatch (.plain 1),.dispatch (.plain 2),.dispatch (.plain 3)])
    (fun s => !(contents s.queue).isEmpty) rfl (by decide +kernel)
  refine ⟨s,hs,by simpa using ht,?_⟩
  exact (queuer_conserves_work (L:=Unlimited)).1 _ s rfl rfl hs

/-! ### Sticky queuer routing -/

instance (job : Job Key Msg) (w : WorkerProperties Key Msg) :
    Decidable (IndexedRouter.Sticks (StickyQueuerRouting Key Msg) job w) :=
  inferInstanceAs (Decidable (w.isProcessingKey job.key=true))

/-- The condition on an attempt, by looking at the head job and at the entries of the pool. -/
theorem Attempt.feedsIdle_iff (attempt : Attempt Key Msg R Q) :
    attempt.FeedsIdle ↔ ∀job∈(liveBacklog attempt.state.world.oracle.clock
          (contents attempt.state.queue)).head?,
        (∃entry∈attempt.state.pool.entries,IndexedRouter.Sticks R job entry.2) →
        (liveBacklog attempt.state.world.oracle.clock
          (contents attempt.state.queue)).length≤attempt.later+1 ∨
        idleCount attempt.state.pool≤attempt.later := by
  unfold FeedsIdle
  cases liveBacklog attempt.state.world.oracle.clock (contents attempt.state.queue) with
  | nil => simp
  | cons job rest =>
    have he : (∃wid w,attempt.state.pool.lookup wid=some w ∧ IndexedRouter.Sticks R job w) ↔
        ∃entry∈attempt.state.pool.entries,IndexedRouter.Sticks R job entry.2 := by
      constructor
      · rintro ⟨wid,w,hl,hs⟩
        exact ⟨⟨wid,w⟩,AList.mem_lookup_iff.mp hl,hs⟩
      · rintro ⟨⟨wid,w⟩,hm,hs⟩
        exact ⟨wid,w,AList.mem_lookup_iff.mpr hm,hs⟩
    constructor
    · rintro h _ ⟨⟩ hs
      simpa using h job rest rfl (he.mpr hs)
    · rintro h _ _ ⟨⟩ hs
      simpa using h job rfl (he.mp hs)

section Decidable
variable [∀(job : Job Key Msg) w,Decidable (IndexedRouter.Sticks R job w)]

instance (attempt : Attempt Key Msg R Q) : Decidable attempt.FeedsIdle :=
  decidable_of_iff' _ attempt.feedsIdle_iff

instance (s : FactoryState Key Msg R Q) (work : Work Key Msg) : Decidable (s.FeedsIdle work) :=
  inferInstanceAs (Decidable (∀attempt∈s.attempts work,attempt.FeedsIdle))

end Decidable

/-- A factory with sticky queuer routing leaves no worker available while jobs wait, as long as
no routing attempt is spent on a busy worker while idle ones stand by. -/
theorem sticky_conserves_work
    (args : FactoryArguments (StickyQueuerRouting Key Msg) (DefaultQueue Key Msg))
    (hr : args.router={}) (hq : contents args.queue=[])
    {s : FactoryState Key Msg (StickyQueuerRouting Key Msg) (DefaultQueue Key Msg)}
    (h : Reachable (FactoryState.Starts args)
      (guarded (FactoryState.WorkMeets FactoryState.FeedsIdle) FactoryState.Step) s) :
    s.WorkConserving := by
  refine (guarded_balanced hq ?_ (fun _ _ => id) h).workConserving
  rw [hr]
  exact tracks_empty

/-- One worker, three jobs and a completion: the worker is fed and one job still waits. -/
theorem sticky_conserves_work_replayed :
    ∃s,Reachable (FactoryState.Starts (⟨1,{},{},none,.none,none,false,false⟩ :
          FactoryArguments (StickyQueuerRouting ℕ Unit) (DefaultQueue ℕ Unit)))
        (guarded (FactoryState.WorkMeets FactoryState.FeedsIdle) FactoryState.Step) s ∧
      contents s.queue≠[] ∧ s.WorkConserving := by
  obtain ⟨s,hs,ht⟩:=exists_guarded (⟨1,{},{},none,.none,none,false,false⟩ :
      FactoryArguments (StickyQueuerRouting ℕ Unit) (DefaultQueue ℕ Unit))
    (FactoryState.WorkMeets FactoryState.FeedsIdle)
    (fun s label => decide (FactoryState.WorkMeets FactoryState.FeedsIdle s label))
    (fun _ _ => of_decide_eq_true) .calm 0
    (calmly [.dispatch (.plain 1),.dispatch (.plain 2),.dispatch (.plain 3),.finished 0 1])
    (fun s => !(contents s.queue).isEmpty) rfl (by decide +kernel)
  exact ⟨s,hs,by simpa using ht,sticky_conserves_work _ rfl rfl hs⟩

/-- Two workers. When the second one completes its job, the head of the backlog sticks to the
first one; the job behind it waits although the second worker is free. -/
theorem sticky_starves_idle_worker :
    ∃s,FactoryState.Reached (⟨2,{},{},none,.none,none,false,false⟩ :
          FactoryArguments (StickyQueuerRouting ℕ Unit) (DefaultQueue ℕ Unit)) s ∧
      contents s.queue≠[] ∧ ∃w,s.pool.lookup 1=some w ∧ w.isAvailable=true := by
  obtain ⟨s,hs,ht⟩:=exists_reached (⟨2,{},{},none,.none,none,false,false⟩ :
      FactoryArguments (StickyQueuerRouting ℕ Unit) (DefaultQueue ℕ Unit)) .calm 0
    (calmly [.dispatch (.plain 1),.dispatch (.plain 2),.dispatch (.plain 3),.dispatch (.plain 3),
      .dispatch (.plain 4),.finished 0 1,.finished 1 2])
    (fun s => !(contents s.queue).isEmpty && (s.pool.lookup 1).any WorkerProperties.isAvailable)
    rfl (by decide +kernel)
  obtain ⟨hq,hw⟩:=Bool.and_eq_true_iff.mp ht
  exact ⟨s,hs,by simpa using hq,(Option.any_eq_true _ _).mp hw⟩

end Ractor.Factory
