import Ractor.FactoryPoolShape

/-!
# Routing attempts

A job leaves the backlog only through `tryRouteNextActiveJob`. Handling a completion or an
exit calls it once, a growth calls it up to as often as the pool is large. `attempts` lists
these calls with the states they start in, so that a condition can be put on each of them.
-/

namespace Ractor.Factory
open LawfulRouter Router Queue World.Writes List

variable {Key Msg R Q : Type} {s s' : FactoryState Key Msg R Q}

open LawfulQueue (contents)

/-! ### Routers without a rate limiter -/

theorem routeByChoice_mapRouter [DecidableEq Key] {R' : Type} (pool : Pool Key Msg) (job : Job Key Msg)
    (choice : Choice R Key Msg) (f : R→R') :
    (routeByChoice pool job choice).mapRouter f=routeByChoice pool job (choice.mapRouter f) := by
  unfold routeByChoice Choice.mapRouter
  dsimp only
  split <;> rfl

instance [DecidableEq Key] [Hashable Key] : RoutesByChoice (BareRouter Key Msg) where
  route_eq router job n hint pool world := by
    cases router <;> exact routeByChoice_mapRouter pool job _ _

namespace FactoryState

theorem completeJob_frame [DecidableEq Key] (s : FactoryState Key Msg R Q) (who : WorkerId) (key : Key) :
    (s.completeJob who key).queue=s.queue ∧ (s.completeJob who key).router=s.router ∧
      (s.completeJob who key).poolSize=s.poolSize ∧
      ∀k,k≠who→(s.completeJob who key).pool.lookup k=s.pool.lookup k := by
  unfold completeJob
  split
  · exact ⟨rfl,rfl,rfl,fun _ _ => rfl⟩
  · exact ⟨rfl,rfl,rfl,fun _ hk => AList.lookup_insert_ne hk⟩

/-! ### Taking a job into the backlog -/

variable [Queue Q Key Msg]

theorem shedQueue_frame (limit fuel : ℕ) (s : FactoryState Key Msg R Q) :
    (shedQueue limit fuel s).pool=s.pool ∧ (shedQueue limit fuel s).router=s.router ∧
      s.world.Writes Effect.IsHousekeeping (shedQueue limit fuel s).world := by
  induction fuel generalizing s with
  | zero => exact ⟨rfl,rfl,.of_log rfl⟩
  | succ fuel ih =>
    unfold shedQueue
    split
    · split
      · exact ih s
      next job queue _ =>
        obtain ⟨hp,hr,hw⟩:=ih {s with
          queue:=queue,world:=s.world.discard s.discardHandler .loadshed job}
        exact ⟨hp,hr,(discard _ _ _ _ (fun _ => trivial) trivial).trans hw⟩
    · exact ⟨rfl,rfl,.of_log rfl⟩

/-- Taking a job into the backlog touches neither the workers nor the router. -/
theorem maybeEnqueue_frame {job : Job Key Msg} (h : s.maybeEnqueue job=.ok s') :
    s'.pool=s.pool ∧ s'.router=s.router ∧ s.world.Writes Effect.IsHousekeeping s'.world := by
  have ha : ∀t,s.acceptIntoQueue job=.ok t→t.pool=s.pool ∧ t.router=s.router ∧
      s.world.Writes Effect.IsHousekeeping t.world := by
    intro t ht
    unfold acceptIntoQueue at ht
    split at ht
    · cases ht
    · cases ht
      exact ⟨rfl,rfl,.accept s.world job fun _ => trivial⟩
  unfold maybeEnqueue at h
  split at h
  · split at h
    · cases h
      exact ⟨rfl,rfl,(discard _ _ _ _ (fun _ => trivial) trivial).trans
        (.reject _ job fun _ => trivial)⟩
    · exact ha s' h
  · split at h
    · cases h
    next limit _ _ t ht =>
      cases h
      obtain ⟨hp,hr,hw⟩:=shedQueue_frame limit (len t.queue) t
      obtain ⟨hp',hr',hw'⟩:=ha t ht
      exact ⟨hp.trans hp',hr.trans hr',hw'.trans hw⟩
  · exact ha s' h

/-! ### Expired jobs at the head -/

/-- What is left of a backlog once the expired jobs at its head are discarded. Each test reads
the clock anew. -/
def liveBacklog : (ℕ → Instant) → List (Job Key Msg) → List (Job Key Msg)
  | _,[] => []
  | clock,job::rest =>
    if job.isExpired (clock 0) then liveBacklog (fun i => clock (i+1)) rest else job::rest

theorem liveBacklog_suffix (clock : ℕ→Instant) (jobs : List (Job Key Msg)) :
    liveBacklog clock jobs <:+ jobs := by
  induction jobs generalizing clock with
  | nil => exact suffix_rfl
  | cons job rest ih =>
    unfold liveBacklog
    split
    · exact (ih _).trans (suffix_cons job rest)
    · exact suffix_rfl

theorem expireHead_pool (fuel : ℕ) (s : FactoryState Key Msg R Q) :
    (expireHead fuel s).pool=s.pool := by
  induction fuel generalizing s with
  | zero => rfl
  | succ fuel ih =>
    unfold expireHead
    split
    · rfl
    · split
      · split
        · rfl
        · exact ih _
      · rfl

section
variable [LawfulQueue Q]

theorem expireHead_contents (fuel : ℕ) (s : FactoryState Key Msg R Q)
    (hf : (contents s.queue).length≤fuel) :
    contents (expireHead fuel s).queue=liveBacklog s.world.oracle.clock (contents s.queue) := by
  induction fuel generalizing s with
  | zero =>
    have hn : contents s.queue=[]:=length_eq_zero_iff.mp (Nat.le_zero.mp hf)
    simp [expireHead,hn,liveBacklog]
  | succ fuel ih =>
    unfold expireHead
    cases hp : peek s.queue with
    | none => simp [peek_none hp,liveBacklog]
    | some head =>
      obtain ⟨queue,hq,hc⟩:=popFront_of_peek hp
      rw [hc] at hf ⊢
      dsimp only
      unfold liveBacklog
      rw [hq]
      have hnow : s.world.oracle.clock 0=s.world.now:=rfl
      rw [hnow]
      by_cases he : head.isExpired s.world.now=true
      · rw [if_pos he,if_pos he]
        dsimp only
        rw [ih _ (by simpa using hf)]
        simp only [World.reject_oracle,World.discard_oracle]
        rfl
      · rw [if_neg he,if_neg he]
        exact hc

theorem discard_housekeeping (s : FactoryState Key Msg R Q) (reason : DiscardReason)
    (job : Job Key Msg) :
    Housekeeping s {s with world:=s.world.discard s.discardHandler reason job} := by
  refine ⟨rfl,rfl,rfl,fun _ => rfl,.refl _,World.discard_nextPid _ _ _ _,?_⟩
  exact discard _ _ _ _ (fun _ => trivial) trivial

theorem discardAndReject_housekeeping (s : FactoryState Key Msg R Q) (reason : DiscardReason)
    (job : Job Key Msg) : Housekeeping s (s.discardAndReject reason job) := by
  refine (discard_housekeeping s reason job).trans ?_
  unfold discardAndReject World.reject
  split
  · exact .note _ trivial
  · exact .refl _

theorem expireHead_housekeeping (fuel : ℕ) (s : FactoryState Key Msg R Q) :
    Housekeeping s (expireHead fuel s) := by
  induction fuel generalizing s with
  | zero => exact .refl s
  | succ fuel ih =>
    unfold expireHead
    cases hp : peek s.queue with
    | none => exact .refl s
    | some head =>
      obtain ⟨queue,hq,hc⟩:=popFront_of_peek hp
      dsimp only
      split
      · have hpop : Housekeeping s {s with queue:=queue,world:=s.world.tick} :=
          ⟨rfl,rfl,rfl,fun _ => rfl,by rw [hc]; exact sublist_cons_self _ _,rfl,[],by simp,by simp⟩
        rw [hq]
        exact (hpop.trans (discardAndReject_housekeeping _ .ttlExpired head)).trans (ih _)
      · exact .of_settings rfl rfl rfl rfl rfl s.world.quiet_tick

end
end FactoryState

/-! ### Attempts -/

/-- One call of `tryRouteNextActiveJob`: its hint, how many calls may still follow in the same
message, and the state it starts in. -/
structure Attempt (Key Msg R Q : Type) where
  hint : Option WorkerId
  later : ℕ
  state : FactoryState Key Msg R Q

namespace FactoryState
variable [Router R Key Msg] [Queue Q Key Msg]

def backlogAttempts : ℕ → FactoryState Key Msg R Q → List (Attempt Key Msg R Q)
  | 0,_ => []
  | rounds+1,s =>
    if (peek s.queue).isNone then []
    else
      ⟨none,rounds,s⟩ ::
        match s.tryRouteNextActiveJob none with
        | .error _ => []
        | .ok s => backlogAttempts rounds s

/-- Routing for a freed worker is one attempt; afterwards only the router may hear of the
worker. -/
theorem routeToFreed_attempt {wid : WorkerId} (h : s.routeToFreed wid=.ok s') :
    ∃t,s.tryRouteNextActiveJob (some wid)=.ok t ∧ s'.pool=t.pool ∧ s'.queue=t.queue ∧
      s'.world=t.world := by
  unfold routeToFreed at h
  cases hr : s.tryRouteNextActiveJob (some wid) with
  | error e => simp [hr] at h
  | ok t =>
    rw [hr] at h
    dsimp only at h
    refine ⟨t,rfl,?_⟩
    split at h <;> cases h <;> exact ⟨rfl,rfl,rfl⟩

/-- The rule for the rounds after a growth: `I n` is a property of states with `n` rounds to go. -/
theorem routeBacklog_rec [LawfulQueue Q] {I : ℕ→FactoryState Key Msg R Q→Prop}
    {G : Attempt Key Msg R Q→Prop}
    (hst : ∀n t t',G ⟨none,n,t⟩→t.tryRouteNextActiveJob none=.ok t'→I (n+1) t→I n t')
    (hd : ∀n t,contents t.queue=[]→I n t→I 0 t) {rounds : ℕ}
    (h : routeBacklog rounds s=.ok s') (hg : ∀attempt∈backlogAttempts rounds s,G attempt)
    (hs : I rounds s) : I 0 s' := by
  induction rounds generalizing s with
  | zero =>
    cases h
    exact hs
  | succ rounds ih =>
    unfold routeBacklog at h
    unfold backlogAttempts at hg
    split at h
    next hp =>
      cases h
      exact hd _ _ (peek_none (Option.isNone_iff_eq_none.mp hp)) hs
    next hp =>
      rw [if_neg hp] at hg
      cases ht : s.tryRouteNextActiveJob none with
      | error e => simp [ht] at h
      | ok t =>
        rw [ht] at h hg
        exact ih h (fun a ha => hg a (mem_cons_of_mem _ ha)) (hst _ _ _ (hg _ mem_cons_self) ht hs)

variable [DecidableEq Key]

def attempts (s : FactoryState Key Msg R Q) : Work Key Msg → List (Attempt Key Msg R Q)
  | .dispatch _ => []
  | .finished who key =>
    let s := s.completeJob who key
    if (s.pool.lookup who).any WorkerProperties.isDraining then [] else [⟨some who,0,s⟩]
  | .exited who =>
    match (s.workerByActor.lookup who).bind fun wid =>
      (s.pool.lookup wid).map fun worker => (wid,worker) with
    | none => []
    | some (wid,worker) =>
      match s.replaceExited who wid worker with
      | .error _ => []
      | .ok s => [⟨some worker.wid,0,s⟩]
  | .resized requestedPoolSize =>
    let newPoolSize := min globalWorkerPoolMaximum requestedPoolSize
    if s.poolSize<newPoolSize then
      match s.growPool (newPoolSize - s.poolSize) with
      | .error _ => []
      | .ok s => backlogAttempts newPoolSize {s with poolSize:=newPoolSize}
    else []

theorem mem_attempts_finished {who : WorkerId} {key : Key}
    (hd : ((s.completeJob who key).pool.lookup who).any WorkerProperties.isDraining=false) :
    ⟨some who,0,s.completeJob who key⟩∈s.attempts (.finished who key) := by
  unfold attempts
  simp [hd]

theorem mem_attempts_exited {t : FactoryState Key Msg R Q} {who : ActorId} {wid : WorkerId}
    {worker : WorkerProperties Key Msg} (hi : s.workerByActor.lookup who=some wid)
    (hl : s.pool.lookup wid=some worker) (ht : s.replaceExited who wid worker=.ok t) :
    ⟨some worker.wid,0,t⟩∈s.attempts (.exited who) := by
  unfold attempts
  simp [hi,hl,ht]

theorem attempts_resized {t : FactoryState Key Msg R Q} {requestedPoolSize newPoolSize : ℕ}
    (hn : newPoolSize=min globalWorkerPoolMaximum requestedPoolSize)
    (hlt : s.poolSize<newPoolSize) (hg : s.growPool (newPoolSize - s.poolSize)=.ok t) :
    s.attempts (.resized requestedPoolSize) =
      backlogAttempts newPoolSize {t with poolSize:=newPoolSize} := by
  subst hn
  unfold attempts
  simp only [hlt,if_true,hg]

/-- The rule for the work other than a dispatch: an invariant that the changes of the staff keep,
and that each routing attempt keeps in a state the staff has moved to. -/
theorem work_rec [LawfulRouter R] [LawfulQueue Q] {I : FactoryState Key Msg R Q→Prop}
    {G : Attempt Key Msg R Q→Prop} {work : Work Key Msg}
    (hcomplete : ∀who key,I (s.completeJob who key))
    (hdrop : ∀t who worker,t.pool.lookup who=some worker→worker.isAvailable=true→I t →
      I (t.dropWorker who worker))
    (hreplace : ∀who wid worker t,s.workerByActor.lookup who=some wid →
      s.pool.lookup wid=some worker→s.replaceExited who wid worker=.ok t→I t)
    (hgrow : ∀toAdd t,s.growPool toAdd=.ok t→I t) (hshrink : ∀toRemove,I (s.shrinkPool toRemove))
    (htry : ∀hint later t t',G ⟨hint,later,t⟩→FactoryMoves (fun _ => True) s t →
      t.tryRouteNextActiveJob hint=.ok t'→I t→I t')
    (hframe : ∀t t',t'.pool=t.pool→t'.queue=t.queue→t'.world=t.world→I t→I t') (hs : I s)
    (h : s.work work=.ok s') (hw : ∀job,work≠.dispatch job)
    (hg : ∀attempt∈s.attempts work,G attempt) : I s' := by
  have hfreed : ∀{wid t},G ⟨some wid,0,t⟩→FactoryMoves (fun _ => True) s t →
      t.routeToFreed wid=.ok s'→I t→I s' := by
    intro wid t ha hm hr ht
    obtain ⟨t',hro,hp,hq,hw⟩:=routeToFreed_attempt hr
    exact hframe t' s' hp hq hw (htry _ _ _ _ ha hm hro ht)
  cases work with
  | dispatch job => exact absurd rfl (hw job)
  | finished who key =>
    cases workerFinishedJob_cases h with
    | draining => exact hcomplete who key
    | dropped hl _ ha => exact hdrop _ _ _ hl ha (hcomplete who key)
    | freed hd hr =>
      exact hfreed (hg _ (mem_attempts_finished hd)) (completeJob_moves s who key) hr
        (hcomplete who key)
  | exited who =>
    cases handleExit_cases h with
    | unknown => exact hs
    | replaced hi hl ht hr =>
      exact hfreed (hg _ (mem_attempts_exited hi hl ht)) (replaceExited_moves hi hl ht) hr
        (hreplace _ _ _ _ hi hl ht)
  | resized requestedPoolSize =>
    cases resizePool_cases h with
    | unchanged => exact hs
    | @grown t _ newPoolSize hn hlt hgr hr =>
      rw [attempts_resized hn hlt hgr] at hg
      refine (routeBacklog_rec (I:=fun _ t => FactoryMoves (fun _ => True) s t ∧ I t) ?_
        (fun _ _ _ ht => ht) hr hg
        ⟨(growPool_moves hgr).tail (.setPoolSize t _),hframe t _ rfl rfl rfl (hgrow _ t hgr)⟩).2
      intro n t t' ha hro ⟨hm,ht⟩
      exact ⟨hm.tail (.routing (tryRouteNextActiveJob_routing hro)),htry _ _ _ _ ha hm hro ht⟩
    | shrunk => exact hframe (s.shrinkPool _) _ rfl rfl rfl (hshrink _)

end FactoryState

/-! ### What one attempt does -/

variable [DecidableEq Key] [Router R Key Msg] [LawfulRouter R] [RoutesByChoice R]
  [Queue Q Key Msg] [LawfulQueue Q]

/-- A router that routes by choice enqueues the job at an allowed worker, or has no choice. -/
theorem routeMessage_cases (r : R) (job : Job Key Msg) (n : ℕ) (hint : Option WorkerId)
    (pool : Pool Key Msg) (world : World Key Msg) :
    (∃wid w world',pool.lookup wid=some w ∧
      (rule r).Targets n pool hint job.key wid w ∧ world.Quiet world' ∧
      (routeMessage r job n hint pool world).result=.handled ∧
      (routeMessage r job n hint pool world).pool=pool.insert wid (w.enqueueJob job world').1 ∧
      (routeMessage r job n hint pool world).world=(w.enqueueJob job world').2) ∨
    (chooseTargetWorker r job n hint pool world).target=none ∧
      (routeMessage r job n hint pool world).result=.backlog job ∧
      (routeMessage r job n hint pool world).pool=pool ∧
      world.Quiet (routeMessage r job n hint pool world).world := by
  have hq:=choose_world r job n hint pool world
  have hta := @choose_target R Key Msg _ _ _ r job n hint pool world
  rw [RoutesByChoice.route_eq]
  generalize chooseTargetWorker r job n hint pool world=choice at hq hta ⊢
  unfold routeByChoice
  cases hc : choice.target with
  | none => exact .inr ⟨rfl,rfl,rfl,hq⟩
  | some wid =>
    obtain ⟨w,hl,ht⟩:=hta hc
    simp only [Option.bind_some,hl,Option.map_some]
    exact .inl ⟨wid,w,choice.world,hl,ht,hq,trivial,rfl,rfl⟩

namespace FactoryState

/-- The ways a routing attempt can go: the backlog is used up, its head has no target, or the
head is enqueued at an allowed worker. -/
inductive Attempted (hint : Option WorkerId) (s s' : FactoryState Key Msg R Q) : Prop where
  | exhausted (jobs : liveBacklog s.world.oracle.clock (contents s.queue)=[])
      (queue : contents s'.queue=[]) (pool : s'.pool=s.pool)
      (log : s.world.Writes Effect.IsHousekeeping s'.world)
  | stuck {job : Job Key Msg} {rest : List (Job Key Msg)} {world : World Key Msg}
      (jobs : liveBacklog s.world.oracle.clock (contents s.queue)=job::rest)
      (queue : contents s'.queue=job::rest) (pool : s'.pool=s.pool)
      (none : (chooseTargetWorker s.router job s.poolSize hint s.pool world).target=none)
      (log : s.world.Writes Effect.IsHousekeeping s'.world)
  | routed {job : Job Key Msg} {rest : List (Job Key Msg)} {wid : WorkerId}
      {w : WorkerProperties Key Msg} {world : World Key Msg}
      (jobs : liveBacklog s.world.oracle.clock (contents s.queue)=job::rest)
      (queue : contents s'.queue=rest) (lookup : s.pool.lookup wid=some w)
      (targets : (rule s.router).Targets s.poolSize s.pool hint job.key wid w)
      (pool : s'.pool=s.pool.insert wid (w.enqueueJob job world).1)
      (log : s.world.Writes Effect.IsHousekeeping world)
      (written : s'.world=(w.enqueueJob job world).2)

theorem tryRouteNextActiveJob_attempted {hint : Option WorkerId}
    (h : s.tryRouteNextActiveJob hint=.ok s') : Attempted hint s s' := by
  have hlen:=LawfulQueue.len_eq s.queue
  have hj:=expireHead_contents (len s.queue) s hlen.ge
  have hk:=expireHead_housekeeping (len s.queue) s
  have hpo:=expireHead_pool (len s.queue) s
  unfold tryRouteNextActiveJob at h
  dsimp only at h
  generalize expireHead (len s.queue) s=t at h hj hk hpo
  cases hlen' : len t.queue with
  | zero =>
    rw [hlen'] at h
    cases h
    have hnil : contents s'.queue=[] := by
      rw [LawfulQueue.len_eq] at hlen'
      exact length_eq_zero_iff.mp hlen'
    exact .exhausted (hj.symm.trans hnil) hnil hpo hk.writes
  | succ fuel =>
    rw [hlen'] at h
    unfold routeHead at h
    cases hp : peek t.queue with
    | none =>
      rw [hp] at h
      cases h
      exact .exhausted (hj.symm.trans (peek_none hp)) (peek_none hp) hpo hk.writes
    | some head =>
      obtain ⟨queue,hq,hc⟩:=popFront_of_peek hp
      rw [hp] at h
      dsimp only at h
      rw [hc] at hj
      rw [hk.router,hk.poolSize,hpo] at h
      have hqu:=choose_world s.router head s.poolSize hint s.pool t.world
      cases ht : (chooseTargetWorker s.router head s.poolSize hint s.pool t.world).target with
      | none =>
        rw [ht] at h
        cases h
        exact .stuck hj.symm hc rfl ht (hk.writes.trans (.of_log hqu.log))
      | some worker =>
        rw [ht,hq] at h
        dsimp only at h
        obtain ⟨w,hl,hf⟩:=choose_target s.router head s.poolSize hint s.pool t.world ht
        have hru:=choose_rule s.router head s.poolSize hint s.pool t.world
        generalize chooseTargetWorker s.router head s.poolSize hint s.pool t.world=choice
          at h hru hqu
        rcases routeMessage_cases choice.router head s.poolSize (some worker) s.pool choice.world
          with ⟨wid,w',world',hl',ht',hq',hr,hp',hw'⟩ | ⟨_,hr,_⟩
        · rw [hr] at h
          cases h
          rw [hru] at ht'
          exact .routed hj.symm rfl hl' (RoutingRule.targets_compose _ hl hf ht') hp'
            (hk.writes.trans (.of_log (hqu.trans hq').log)) hw'
        · rw [hr] at h
          cases h

/-- The ways a dispatch can go: the job is turned away, enqueued at an allowed worker, or it has
no target and goes to the backlog, if that has room. -/
inductive Dispatched (s : FactoryState Key Msg R Q) (job : Job Key Msg)
    (s' : FactoryState Key Msg R Q) : Prop where
  | refused (queue : s'.queue=s.queue) (pool : s'.pool=s.pool)
      (log : (s.arrived job).world.Writes Effect.IsHousekeeping s'.world)
  | routed {wid : WorkerId} {w : WorkerProperties Key Msg} {world : World Key Msg}
      (live : job.isExpired s.world.now=false) (open_ : s.drainState=.notDraining)
      (queue : s'.queue=s.queue) (lookup : s.pool.lookup wid=some w)
      (targets : (rule s.router).Targets s.poolSize s.pool none job.key wid w)
      (pool : s'.pool=s.pool.insert wid (w.enqueueJob job world).1)
      (log : (s.arrived job).world.Writes Effect.IsHousekeeping world)
      (written : s'.world=(w.enqueueJob job world).2)
  | stored {world : World Key Msg} (open_ : s.drainState=.notDraining) (pool : s'.pool=s.pool)
      (none : (chooseTargetWorker s.router job s.poolSize none s.pool world).target=none)
      (accepts : ∃t : FactoryState Key Msg R Q,t.queue=s.queue ∧
        t.discardSettings=s.discardSettings ∧
        (s.arrived job).world.Writes Effect.IsHousekeeping t.world ∧ t.maybeEnqueue job=.ok s')

theorem dispatch_dispatched {job : Job Key Msg} (h : s.dispatch job=.ok s') :
    Dispatched s (job.numbered s.world.nextJob) s' := by
  unfold dispatch dispatchNumbered at h
  generalize job.numbered s.world.nextJob=job at h ⊢
  have hre : ∀reason,(s.arrived job).world.Writes Effect.IsHousekeeping
      ({s.arrived job with world:=(s.arrived job).world.tick}.discardAndReject reason job).world :=
    fun reason => (of_log rfl).trans (discardAndReject_housekeeping _ reason job).writes
  dsimp only at h
  split at h
  next =>
    cases h
    exact .refused rfl rfl (hre .ttlExpired)
  next hli =>
    split at h
    next ho =>
      dsimp only [arrived] at h
      have hw : (s.arrived job).world.Writes Effect.IsHousekeeping
          (s.arrived job).world.tick:=.of_log rfl
      dsimp only [arrived] at hw
      generalize World.tick _=world at h hw
      rcases routeMessage_cases s.router job s.poolSize none s.pool world
        with ⟨wid,w,world',hl,ht,hq,hr,hpo,hwr⟩ | ⟨hn,hr,hpo,hq⟩
      · rw [hr] at h
        cases h
        exact .routed (Bool.eq_false_iff.mpr hli) ho rfl hl ht hpo (hw.trans (.of_log hq.log)) hwr
      · rw [hr] at h
        obtain ⟨hp,-⟩:=maybeEnqueue_frame h
        refine .stored ho (hp.trans hpo) hn ⟨_,?_,?_,hw.trans ?_,h⟩
        · rfl
        · rfl
        · exact .of_log hq.log
    next =>
      cases h
      exact .refused rfl rfl (hre .shutdown)

end FactoryState
end Ractor.Factory
