import Ractor.FactorySystem
import Ractor.FactoryWorkConservation

/-!
# Progress of a draining factory

Jobs leave the factory queue only when a worker below the pool size completes a job or exits, or
when the pool grows. So the queue of a draining factory empties as long as the following holds
between messages: while jobs wait, some worker below the pool size is working. A shrink breaks
this if it leaves only idle workers below the new pool size, and a routing attempt breaks it if
it hands the head of the queue to a draining worker that owns its key, while nobody else works
and more jobs wait behind.
-/

namespace Ractor.Factory
open WorkerProperties AList FactoryState Option

variable {Key Msg R Q : Type} {s s' : FactoryState Key Msg R Q} {n : ℕ}

open LawfulQueue (contents)
namespace FactoryState

/-! ### Working workers -/

def Working (s : FactoryState Key Msg R Q) (n : ℕ) : Prop :=
  ∃wid<n,(s.pool.lookup wid).any isWorking=true

instance (s : FactoryState Key Msg R Q) (n : ℕ) : Decidable (s.Working n) :=
  inferInstanceAs (Decidable (∃wid<n,_))

theorem working_iff : s.Working n ↔ ∃wid<n,∃w,s.pool.lookup wid=some w ∧ w.isAvailable=false := by
  unfold Working
  simp only [Option.any_eq_true,WorkerProperties.isWorking_iff]

theorem Working.congr (h : s.Working n)
    (hp : ∀wid<n,s'.pool.lookup wid=s.pool.lookup wid) : s'.Working n := by
  obtain ⟨wid,hlt,hw⟩:=h
  exact ⟨wid,hlt,by rwa [hp wid hlt]⟩

theorem SameProfile.unstaffed (hp : SameProfile s s')
    (h : s.poolSize=0→∀wid,s.pool.lookup wid=none) (hz : s'.poolSize=0) (wid : WorkerId) :
    s'.pool.lookup wid=none := by
  cases hl : s'.pool.lookup wid with
  | none => rfl
  | some w =>
    obtain ⟨w',hl',_⟩:=hp.lookup hl
    rw [h (hp.poolSize.symm.trans hz) wid] at hl'
    cases hl'

theorem shrinkPool_frame [Router R Key Msg] (s : FactoryState Key Msg R Q) {newPoolSize : ℕ}
    (hle : newPoolSize ≤ s.poolSize) :
    (s.shrinkPool (s.poolSize - newPoolSize)).queue=s.queue ∧ ∀wid<newPoolSize,
        (s.shrinkPool (s.poolSize - newPoolSize)).pool.lookup wid=s.pool.lookup wid := by
  refine shrinkPool_rec (P:=fun t =>
    t.queue=s.queue ∧ ∀wid<newPoolSize,t.pool.lookup wid=s.pool.lookup wid) ?_ ?_
    ⟨rfl,fun _ _ => rfl⟩
  · intro i _ t hi _ _ ⟨hq,hl⟩
    exact ⟨hq,fun wid hw => (lookup_insert_ne (by omega)).trans (hl wid hw)⟩
  · intro i _ t hi _ _ ⟨hq,hl⟩
    exact ⟨hq,fun wid hw => (lookup_erase_ne (by omega)).trans (hl wid hw)⟩

section Progress
variable [Queue Q Key Msg] [LawfulQueue Q]

structure Progressing (s : FactoryState Key Msg R Q) : Prop where
  moving : contents s.queue≠[] → 0<s.poolSize → s.Working s.poolSize
  unstaffed : s.poolSize=0 → ∀wid,s.pool.lookup wid=none

theorem Progressing.housekeeping (h : Progressing s) (hk : Housekeeping s s') : Progressing s' := by
  refine ⟨fun hne hpos => ?_,hk.sameProfile.unstaffed h.unstaffed⟩
  have hold : contents s.queue≠[] := by
    intro he
    have hq:=hk.queue
    rw [he] at hq
    exact hne (List.sublist_nil.mp hq)
  rw [hk.poolSize] at hpos ⊢
  obtain ⟨wid,hlt,w,hl,ha⟩:=working_iff.mp (h.moving hold hpos)
  have hm:=hk.map_isAvailable wid
  rw [hl,map_some,ha] at hm
  obtain ⟨w',hl',ha'⟩:=map_eq_some_iff.mp hm
  exact working_iff.mpr ⟨wid,hlt,w',hl',ha'⟩

/-- A drain that was asked for is over once every worker is available and the queue empty. -/
theorem isDrained_of_available (hd : s.drainState≠.notDraining) (hem : contents s.queue=[])
    (ha : ∀wid w,s.pool.lookup wid=some w→w.isAvailable=true) :
    s.isDrained.1=true := by
  have hall : (s.pool.entries.all fun entry => entry.2.isAvailable)=true :=
    List.all_eq_true.mpr fun entry he =>
      ha entry.1 entry.2 (AList.mem_lookup_iff.mpr he)
  unfold isDrained
  split
  · contradiction
  · rfl
  · simp [hall,LawfulQueue.len_eq,hem]

end Progress
end FactoryState

variable [DecidableEq Key]

/-- The draining workers a rule may prefer for a key. -/
def RoutingRule.owns (rule : RoutingRule) (w : WorkerProperties Key Msg) (key : Key) : Bool :=
  match rule with
  | .keyPersistent => w.hasPendingKey key
  | .stickyQueuer => w.isProcessingKey key
  | _ => false

section Guard
variable [Router R Key Msg] [LawfulRouter R] [Queue Q Key Msg] [LawfulQueue Q]

/-- A routing attempt does not spend itself on a draining worker while jobs wait and nobody else
is working. -/
def Attempt.FeedsPool (attempt : Attempt Key Msg R Q) : Prop :=
  attempt.state.Working attempt.state.poolSize ∨ (liveBacklog attempt.state.world.oracle.clock
      (contents attempt.state.queue)).length≤1 ∨
    ∀job∈(liveBacklog attempt.state.world.oracle.clock (contents attempt.state.queue)).head?,
      ∀entry∈attempt.state.pool.entries,attempt.state.poolSize≤entry.1 →
        (LawfulRouter.rule attempt.state.router).owns entry.2 job.key=false

instance (attempt : Attempt Key Msg R Q) : Decidable attempt.FeedsPool :=
  inferInstanceAs (Decidable (_ ∨ _ ∨ _))

/-- A shrink leaves a working worker below the new pool size while jobs wait. -/
def FactoryState.ShrinksBusy (s : FactoryState Key Msg R Q) : Work Key Msg → Prop
  | .resized requestedPoolSize =>
    0<requestedPoolSize → min globalWorkerPoolMaximum requestedPoolSize<s.poolSize →
      contents s.queue=[] ∨ s.Working (min globalWorkerPoolMaximum requestedPoolSize)
  | _ => True

instance (s : FactoryState Key Msg R Q) : ∀work,Decidable (s.ShrinksBusy work)
  | .resized _ => inferInstanceAs (Decidable (_→_→_))
  | .dispatch _ => .isTrue trivial
  | .finished _ _ => .isTrue trivial
  | .exited _ => .isTrue trivial

def FactoryState.KeepsMoving (s : FactoryState Key Msg R Q) (work : Work Key Msg) : Prop :=
  (∀attempt∈s.attempts work,attempt.FeedsPool) ∧ s.ShrinksBusy work

instance (s : FactoryState Key Msg R Q) (work : Work Key Msg) : Decidable (s.KeepsMoving work) :=
  inferInstanceAs (Decidable (_ ∧ _))

end Guard

variable {w : WorkerProperties Key Msg} {job : Job Key Msg}
  {t : FactoryState Key Msg (BareRouter Key Msg) Q}

namespace FactoryState

theorem working_enqueue {wid : WorkerId} {world : World Key Msg}
    (hp : s'.pool=s.pool.insert wid (w.enqueueJob job world).1) (h : s.Working n ∨ wid<n) :
    s'.Working n := by
  have hw : (s'.pool.lookup wid).any isWorking=true := by
    rw [hp,lookup_insert]
    exact (WorkerProperties.isWorking_iff _).mpr (w.enqueueJob_not_available job world)
  rcases h with ⟨k,hlt,hk⟩ | hlt
  · by_cases hkw : k=wid
    · subst hkw
      exact ⟨k,hlt,hw⟩
    · refine ⟨k,hlt,?_⟩
      rw [hp,lookup_insert_ne hkw]
      exact hk
  · exact ⟨wid,hlt,hw⟩

/-! ### Routing attempts -/

section Attempts
variable [Hashable Key] [Queue Q Key Msg] [LawfulQueue Q]
  {t' : FactoryState Key Msg (BareRouter Key Msg) Q} {hint : Option WorkerId} {m later : ℕ}

/-- A job without a target means that everybody is working. -/
theorem stuck_working (hb : Balanced False hint m t)
    (hc : ∀wid<t.poolSize,∃w,t.pool.lookup wid=some w) (hpos : 0<t.poolSize)
    {world : World Key Msg}
    (h : (Router.chooseTargetWorker t.router job t.poolSize hint t.pool world).target=none) :
    t.Working t.poolSize := by
  obtain ⟨-,hgap | ⟨hn,hhi⟩⟩:=IndexedRouter.choose_none (fun _ hk => hk.1) hb.tracked h
  · rcases hgap with hz | ⟨wid,hlt,hw⟩
    · exact absurd hz hpos.ne'
    · obtain ⟨w,hl⟩:=hc wid hlt
      rw [hw] at hl
      cases hl
  · obtain ⟨w,hl⟩:=hc 0 hpos
    refine working_iff.mpr ⟨0,hpos,w,hl,Bool.eq_false_iff.mpr fun ha => ?_⟩
    have hi : t.pool.Idle 0:=Pool.idle_iff.mpr ⟨w,hl,ha⟩
    by_cases hh : hint=some 0
    · exact hhi 0 hh hi
    · exact hn 0 ⟨hi,hh⟩

theorem attempt_keeps (h : t.tryRouteNextActiveJob hint=.ok t') (ht : t.Working n) :
    t'.Working n := by
  cases tryRouteNextActiveJob_attempted h with
  | exhausted _ _ pool | stuck _ _ pool => exact ht.congr fun _ _ => by rw [pool]
  | routed _ _ _ _ pool => exact working_enqueue pool (.inl ht)

/-- No attempt adds to the backlog. -/
theorem attempt_contents (h : t.tryRouteNextActiveJob hint=.ok t')
    (hne : contents t'.queue≠[]) : contents t.queue≠[] := by
  intro hnil
  cases tryRouteNextActiveJob_attempted h with
  | exhausted _ queue _ => exact hne queue
  | stuck jobs | routed jobs => simp [hnil,liveBacklog] at jobs

omit [Hashable Key] in
/-- A target beyond the pool size owns the key, or another worker is working anyway. -/
theorem targets_draining {poolSize : ℕ} {pool : Pool Key Msg} {rule : RoutingRule} {key : Key}
    {wid : ℕ} (hle : poolSize≤wid) (h : rule.Targets poolSize pool hint key wid w) {k : ℕ}
    (hh : hint=some k) (hk : k<poolSize) : rule.owns w key=true ∨ ¬pool.Idle k := by
  have hne : wid≠k := by omega
  have hhi : hint≠some wid := by
    rw [hh]
    exact fun he => hne (some.inj he).symm
  cases rule with
  | keyPersistent =>
    rcases h with h | ⟨_,h | h⟩
    · exact .inl h
    · exact absurd h hhi
    · exact absurd h (Nat.not_lt.mpr hle)
  | queuer => exact .inr fun hi => hne (h.2 k hh hi)
  | stickyQueuer =>
    rcases h with h | ⟨_,_,hf⟩
    · exact .inl h
    · exact .inr fun hi => hne (hf k hh hi)
  | roundRobin =>
    rcases h with h | h
    · exact absurd h.1 hhi
    · exact absurd h (Nat.not_lt.mpr hle)
  | custom => exact absurd h (Nat.not_lt.mpr hle)

theorem attempt_working (h : t.tryRouteNextActiveJob hint=.ok t') (hb : Balanced False hint m t)
    (hc : ∀wid<t.poolSize,∃w,t.pool.lookup wid=some w) (hpos : 0<t.poolSize)
    (hf : Attempt.FeedsPool ⟨hint,later,t⟩)
    (hp : t.Working t.poolSize ∨ (∀wid,t.poolSize≤wid→t.pool.lookup wid=none) ∨
      ∃k<t.poolSize,hint=some k)
    (hne : contents t'.queue≠[]) : t'.Working t.poolSize := by
  by_cases hwo : t.Working t.poolSize
  · exact attempt_keeps h hwo
  cases tryRouteNextActiveJob_attempted h with
  | exhausted _ queue _ => exact absurd queue hne
  | stuck _ _ _ hno => exact absurd (stuck_working hb hc hpos hno) hwo
  | @routed job rest wid w world jobs queue lookup targets pool =>
    by_cases hlt : wid<t.poolSize
    · exact working_enqueue pool (.inr hlt)
    have hle : t.poolSize≤wid:=Nat.le_of_not_lt hlt
    exfalso
    have hfr : (LawfulRouter.rule t.router).owns w job.key=false := by
      rcases hf with hw | hlen | hfr
      · exact absurd hw hwo
      · dsimp only at hlen
        rw [jobs,List.length_cons,Nat.add_le_add_iff_right,Nat.le_zero] at hlen
        rw [queue] at hne
        exact absurd (List.length_eq_zero_iff.mp hlen) hne
      · dsimp only at hfr
        rw [jobs] at hfr
        exact hfr job rfl ⟨wid,w⟩ (AList.mem_lookup_iff.mp lookup) hle
    rcases hp with hw | hn | ⟨k,hk,hh⟩
    · exact hwo hw
    · rw [hn wid hle] at lookup
      cases lookup
    · rcases targets_draining hle targets hh hk with ho | hbu
      · rw [hfr] at ho
        cases ho
      · obtain ⟨v,hv⟩:=hc k hk
        refine hwo (working_iff.mpr ⟨k,hk,v,hv,Bool.eq_false_iff.mpr fun ha => ?_⟩)
        exact hbu (Pool.idle_iff.mpr ⟨v,hv,ha⟩)

end Attempts

/-! ### Progress between messages -/

section Work
variable [Hashable Key] [Queue Q Key Msg] [LawfulQueue Q]
  {s s' : FactoryState Key Msg (BareRouter Key Msg) Q}

theorem dispatch_progressing (h : s.dispatch job=.ok s') (hs : Progressing s)
    (hb : Balanced False none 0 s) (hsh : Shaped s) : Progressing s' := by
  have hsa:=(dispatch_routing h : Routing (fun _ => True) _ _ _).sameProfile
  refine ⟨fun hne hpos => ?_,hsa.unstaffed hs.unstaffed⟩
  rw [hsa.poolSize] at hpos ⊢
  cases dispatch_dispatched h with
  | refused queue pool =>
    rw [queue] at hne
    exact (hs.moving hne hpos).congr fun _ _ => by rw [pool]
  | routed _ _ queue _ _ pool =>
    rw [queue] at hne
    exact working_enqueue pool (.inl (hs.moving hne hpos))
  | stored _ pool none =>
    exact (stuck_working hb hsh.covers hpos none).congr fun _ _ => by rw [pool]

/-- Routing for a freed worker keeps the backlog moving: the worker is below the pool size, or
another one is working. -/
theorem freed_working {wid : ℕ} (hr : t.routeToFreed wid=.ok s') (hs : Progressing s)
    (hq : t.queue=s.queue) (hn : t.poolSize=s.poolSize)
    (hl : ∀k,k≠wid→t.pool.lookup k=s.pool.lookup k) (hsh : Shaped t)
    (hb : Balanced False (some wid) 1 t) (hf : Attempt.FeedsPool ⟨some wid,0,t⟩)
    (hne : contents s'.queue≠[]) (hpos : 0<s.poolSize) : s'.Working s.poolSize := by
  obtain ⟨t',ha,hp,hqu,-⟩:=routeToFreed_attempt hr
  rw [hqu] at hne
  rw [← hn] at hpos ⊢
  have hpa : t.Working t.poolSize ∨ wid<t.poolSize := by
    by_cases hlt : wid<t.poolSize
    · exact .inr hlt
    · have hold:=attempt_contents ha hne
      rw [hq] at hold
      rw [hn] at hpos hlt ⊢
      refine .inl ((hs.moving hold hpos).congr fun k hk => hl k ?_)
      rintro rfl
      exact hlt hk
  refine (attempt_working ha hb hsh.covers hpos hf ?_ hne).congr fun _ _ => by rw [hp]
  exact hpa.imp id fun hlt => .inr ⟨wid,hlt,rfl⟩

theorem workerFinishedJob_progressing {who : ℕ} {key : Key} (h : s.workerFinishedJob who key=.ok s')
    (hg : ∀attempt∈s.attempts (.finished who key),attempt.FeedsPool) (hs : Progressing s)
    (hb : Balanced False none 0 s) (hsh : Shaped s) (hc : WorkersConsistent s) :
    Progressing s' := by
  obtain ⟨hq,-,hn,hlo⟩:=completeJob_frame s who key
  have hsa:=completeJob_sameProfile hc who key
  have ht:=hsh.congr hsa
  have hu:=hsa.unstaffed hs.unstaffed
  -- a draining worker is beyond the pool size, so the others keep the backlog moving
  have ho : s.poolSize≤who→∀k<s.poolSize,(s.completeJob who key).pool.lookup k=s.pool.lookup k := by
    intro hle k hk
    refine hlo k ?_
    rintro rfl
    omega
  cases workerFinishedJob_cases h with
  | @draining worker hl hd _ =>
    have hle:=(ht.draining who worker hl).mp hd
    refine ⟨fun hne hpos => ?_,hu⟩
    rw [hq] at hne
    rw [hn] at hpos hle ⊢
    exact (hs.moving hne hpos).congr (ho hle)
  | @dropped worker hl hd _ =>
    have hle:=(ht.draining who worker hl).mp hd
    refine ⟨fun hne hpos => ?_,fun hz k => ?_⟩
    · have hne : contents (s.completeJob who key).queue≠[]:=hne
      have hpos : 0<(s.completeJob who key).poolSize:=hpos
      change Working _ (s.completeJob who key).poolSize
      rw [hq] at hne
      rw [hn] at hpos hle ⊢
      refine (hs.moving hne hpos).congr fun k hk => ?_
      rw [← ho hle k hk]
      exact lookup_erase_ne fun he => by omega
    · exact absurd (hu hz who) (by rw [hl]; simp)
  | freed hd hr =>
    have hro:=(routeToFreed_routing hr : Routing (fun _ => True) _ _ _).sameProfile
    refine ⟨fun hne hpos => ?_,hro.unstaffed hu⟩
    have hsi : s'.poolSize=s.poolSize:=hro.poolSize.trans hn
    rw [hsi] at hpos ⊢
    exact freed_working hr hs hq hn hlo ht (completeJob_balanced hb who key)
      (hg _ (mem_attempts_finished hd)) hne hpos

theorem handleExit_progressing {who : ActorId} (h : s.handleExit who=.ok s')
    (hg : ∀attempt∈s.attempts (.exited who),attempt.FeedsPool) (hs : Progressing s)
    (hb : Balanced False none 0 s) (hsh : Shaped s) (hc : WorkersConsistent s) :
    Progressing s' := by
  cases handleExit_cases h with
  | unknown => exact hs
  | @replaced wid worker t _ hi hl ht hr =>
    have hf:=hg _ (mem_attempts_exited hi hl ht)
    obtain ⟨hq,hrou,hn,w,hp⟩:=replaceExited_frame ht
    have hts:=replaceExited_shape hsh hc hi hl ht
    have hro:=(routeToFreed_routing hr : Routing (fun _ => True) _ _ _).sameProfile
    rw [hsh.own wid worker hl] at hr hf
    refine ⟨fun hne hpos => ?_,fun hz => ?_⟩
    · rw [hro.poolSize,hn] at hpos ⊢
      refine freed_working hr hs hq hn (fun k hk => ?_) hts (hb.changed hq hrou hp) hf hne hpos
      rw [hp,lookup_insert_ne hk]
    · rw [hro.poolSize,hn] at hz
      rw [hs.unstaffed hz wid] at hl
      cases hl

/-- A growth only touches workers from the old to the new pool size. -/
theorem growPool_frame {toAdd : ℕ} (h : s.growPool toAdd=.ok t) :
    t.queue=s.queue ∧ ∀wid,wid<s.poolSize ∨ s.poolSize+toAdd≤wid →
      (t.pool.lookup wid).map isAvailable=(s.pool.lookup wid).map isAvailable := by
  refine ⟨(growPool_staffing h).1,?_⟩
  refine growPool_rec (P:=fun _ t => ∀wid,wid<s.poolSize ∨ s.poolSize+toAdd≤wid →
    (t.pool.lookup wid).map isAvailable =
      (s.pool.lookup wid).map isAvailable) h ?_ ?_ fun _ _ => rfl
  · intro i t t' hi hlt ht hg wid hw
    have hne : wid≠i := by omega
    rw [← ht wid hw]
    unfold growWorker at hg
    split at hg
    · rw [addWorker_lookup hg hne]
    · cases hg
      rw [lookup_insert_ne hne]
  · intro _ t ht wid hw
    exact ((pingWorkers_housekeeping t).map_isAvailable wid).trans (ht wid hw)

/-- The state of a growth with `k` routing rounds to go: the backlog moves once a round is
over, and until then no worker is draining, unless the backlog was moving before. -/
structure Growing (n k : ℕ) (t : FactoryState Key Msg (BareRouter Key Msg) Q) : Prop where
  poolSize : t.poolSize=n
  shaped : Shaped t
  balanced : Balanced False none k t
  path : contents t.queue≠[] → t.Working n ∨ ∀wid,n≤wid → t.pool.lookup wid=none
  moving : k<n → contents t.queue≠[] → t.Working n

theorem Growing.round {k : ℕ} {t' : FactoryState Key Msg (BareRouter Key Msg) Q}
    (h : Growing n (k+1) t) (hr : t.tryRouteNextActiveJob none=.ok t')
    (hf : Attempt.FeedsPool ⟨none,k,t⟩) (hpos : 0<n) : Growing n k t' := by
  have hs:=(tryRouteNextActiveJob_routing hr : Routing (fun _ => True) _ _ _).sameProfile
  have hm : contents t'.queue≠[]→t'.Working n := by
    intro hne
    have hp:=h.path (attempt_contents hr hne)
    have hsi:=h.poolSize
    subst hsi
    exact attempt_working hr h.balanced h.shaped.covers hpos hf (hp.imp id .inl) hne
  exact ⟨hs.poolSize.trans h.poolSize,h.shaped.congr hs,
    tryRouteNextActiveJob_balanced hr False.elim h.balanced,fun hne => .inl (hm hne),
    fun _ => hm⟩

theorem growPool_growing (hgr : s.growPool (n - s.poolSize)=.ok t) (hlt : s.poolSize<n)
    (hs : Progressing s) (hb : Balanced False none 0 s) (hsh : Shaped s) :
    Growing n n {t with poolSize:=n} := by
  have hsum : s.poolSize+(n - s.poolSize)=n := by omega
  obtain ⟨hq,hav⟩:=growPool_frame hgr
  have hg:=growPool_shape hsh hgr
  have hba:=(growPool_balanced hgr hb).weaken (Nat.sub_le n s.poolSize)
  rw [hsum] at hg hav
  refine ⟨rfl,⟨hg.covers,hg.draining,hg.inverse,hg.own,hg.fresh⟩,
    hba.congr rfl rfl rfl,fun hne => ?_,fun hk => absurd hk (Nat.lt_irrefl n)⟩
  have hne : contents s.queue≠[] := by
    rw [← hq]
    exact hne
  rcases Nat.eq_zero_or_pos s.poolSize with hz | hpos
  · refine .inr fun wid hw => ?_
    have ha:=hav wid (.inr hw)
    rwa [hs.unstaffed hz wid,map_none,map_eq_none_iff] at ha
  · obtain ⟨wid,hw,w,hl,hbu⟩:=working_iff.mp (hs.moving hne hpos)
    have ha:=hav wid (.inl hw)
    rw [hl,map_some,hbu] at ha
    obtain ⟨w',hl',ha'⟩:=map_eq_some_iff.mp ha
    exact .inl (working_iff.mpr ⟨wid,hw.trans hlt,w',hl',ha'⟩)

theorem resizePool_progressing {requestedPoolSize : ℕ} (h : s.resizePool requestedPoolSize=.ok s')
    (hg : s.KeepsMoving (.resized requestedPoolSize)) (hs : Progressing s)
    (hb : Balanced False none 0 s) (hsha : Shaped s) : Progressing s' := by
  obtain ⟨hfe,hsh⟩:=hg
  cases resizePool_cases h with
  | unchanged => exact hs
  | @grown t _ n hn hlt hgr hr =>
    rw [attempts_resized hn hlt hgr] at hfe
    have hpos : 0<n:=Nat.zero_lt_of_lt hlt
    have hend : Growing n 0 s' := routeBacklog_rec (I:=Growing n) (G:=Attempt.FeedsPool)
        (fun _ _ _ hf hro ht => ht.round hro hf hpos)
        (fun k t hq ht => ⟨ht.poolSize,ht.shaped,ht.balanced.of_empty hq,ht.path,
          fun _ hne => absurd hq hne⟩)
        hr hfe (growPool_growing hgr hlt hs hb hsha)
    refine ⟨fun hne _ => ?_,fun hz => ?_⟩
    · rw [hend.poolSize]
      exact hend.moving hpos hne
    · exact absurd (hend.poolSize.symm.trans hz) hpos.ne'
  | @shrunk n hn hpos hlt =>
    obtain ⟨hq,hl⟩:=shrinkPool_frame s hlt.le
    refine ⟨fun hne _ => ?_,fun hz => ?_⟩
    · have hold : contents s.queue≠[] := by
        rw [← hq]
        exact hne
      have hre : 0<requestedPoolSize := by
        rw [hn] at hpos
        exact (Nat.lt_min.mp hpos).2
      subst hn
      exact ((hsh hre hlt).resolve_left hold).congr hl
    · exact absurd hz hpos.ne'

/-! ### Runs -/

theorem work_progressing {work : Work Key Msg} (h : s.work work=.ok s')
    (hg : s.KeepsMoving work) (hs : Progressing s) (hb : Balanced False none 0 s)
    (hsh : Shaped s) (hc : WorkersConsistent s) : Progressing s' := by
  cases work with
  | dispatch job => exact dispatch_progressing h hs hb hsh
  | finished who key => exact workerFinishedJob_progressing h hg.1 hs hb hsh hc
  | exited who => exact handleExit_progressing h hg.1 hs hb hsh hc
  | resized requestedPoolSize => exact resizePool_progressing h hg hs hb hsh

/-- In a run whose work keeps the backlog moving, jobs wait only while somebody works. -/
theorem guarded_progressing {args : FactoryArguments (BareRouter Key Msg) Q}
    (hq : contents args.queue=[]) (hr : IndexedRouter.Tracks args.router fun _ => False)
    (h : Reachable (Starts args) (guarded (WorkMeets KeepsMoving) Step) s) : Progressing s := by
  refine (shaped_rec (P:=fun s => Progressing s ∧ Balanced False none 0 s) ?_ ?_ ?_ h).1.1
  · intro s hs
    obtain ⟨-,hn⟩:=starts_exact hs
    have he:=starts_contents hq hs
    refine ⟨⟨fun hne => absurd he hne,fun hz wid => hn wid (by rw [hz]; exact Nat.zero_le _)⟩,
      starts_balanced hq hr False.elim hs⟩
  · intro s s' hk ⟨hp,hb⟩
    exact ⟨hp.housekeeping hk,hk.balanced hb⟩
  · intro s work s' hg hw hsh hc ⟨hp,hb⟩
    exact ⟨work_progressing hw hg hp hb hsh hc,work_balanced hw hsh.own False.elim hb⟩

end Work
end FactoryState

def BareRouter.Unused : BareRouter Key Msg → Prop
  | .queuer router => router={}
  | .stickyQueuer router => router={}
  | _ => True

theorem BareRouter.Unused.tracks [Hashable Key] {router : BareRouter Key Msg}
    (h : router.Unused) : IndexedRouter.Tracks router fun _ => False := by
  cases router with
  | queuer router | stickyQueuer router =>
    obtain rfl : router={}:=h
    exact AvailableWorkers.tracks_empty
  | _ => trivial

/-- Once no exit is on its way, a worker without an active job has nothing queued. -/
theorem System.queue_empty [Queue Q Key Msg] [LawfulQueue Q] [Router R Key Msg] [LawfulRouter R]
    {args : FactoryArguments R Q} {guard : System Key Msg R Q → SystemEvent Key Msg→Prop}
    {sys : System Key Msg R Q} (h : Reachable (System.Starts args) (guarded guard System.Step) sys)
    (he : sys.exits=[]) {wid : WorkerId} (hl : sys.factory.pool.lookup wid=some w)
    (hi : w.currJobs=∅) : w.messageQueue=[] := by
  by_contra hq
  have ha:=System.guarded_attended h
  have hp:=(reached_staffed (System.reached_factory h)).posted wid w hl
  obtain ⟨job,hm⟩:=hp.retained hi hq
  have hex:=ha.awaited wid w hl (ha.bounced _ _ hm)
  rw [he] at hex
  cases hex

/-- A draining factory cannot get stuck, as long as its work keeps the backlog moving: when no
worker has an active job and no exit is on its way, all queues are empty and the drain check
succeeds. -/
theorem drain_unstuck {P : Type} [Hashable Key] [Priority P]
    (args : FactoryArguments (BareRouter Key Msg) (BuiltInQueue Key Msg P))
    (hr : args.router.Unused) (hq : contents args.queue=[])
    {sys : System Key Msg (BareRouter Key Msg) (BuiltInQueue Key Msg P)}
    (h : Reachable (System.Starts args) (guarded (System.Meets KeepsMoving) System.Step) sys)
    (hsize : 1 ≤ sys.factory.poolSize) (hdrain : sys.factory.drainState≠.notDraining)
    (hidle : ∀wid w,sys.factory.pool.lookup wid=some w → w.currJobs=∅)
    (hexits : sys.exits=[]) :
    contents sys.factory.queue=[] ∧ (∀wid w,sys.factory.pool.lookup wid=some w→w.messageQueue=[]) ∧
      sys.factory.isDrained.1=true := by
  have hqueues : ∀wid w,sys.factory.pool.lookup wid=some w→w.messageQueue=[] :=
    fun wid w hl => System.queue_empty h hexits hl (hidle wid w hl)
  have havailable : ∀wid w,sys.factory.pool.lookup wid=some w→w.isAvailable=true :=
    fun wid w hl => (w.isAvailable_iff).mpr ⟨congrArg entries (hidle wid w hl),hqueues wid w hl⟩
  have hprogress:=guarded_progressing hq hr.tracks (System.guarded_factory h)
  have hempty : contents sys.factory.queue=[] := by
    by_contra hne
    obtain ⟨wid,_,w,hl,hw⟩:=working_iff.mp (hprogress.moving hne hsize)
    rw [havailable wid w hl] at hw
    cases hw
  exact ⟨hempty,hqueues,isDrained_of_available hdrain hempty havailable⟩

/-- One worker, one waiting job, and a drain that both completions see through. -/
theorem drain_unstuck_replayed :
    ∃sys,Reachable (System.Starts (.plain 1 (.queuer {} : BareRouter ℕ Unit)))
        (guarded (System.Meets KeepsMoving) System.Step) sys ∧
      contents sys.factory.queue=[] ∧
      (∀wid w,sys.factory.pool.lookup wid=some w→w.messageQueue=[]) ∧
      sys.factory.isDrained.1=true := by
  obtain ⟨sys,hs,ht⟩:=System.exists_guarded (.plain 1 (.queuer {} : BareRouter ℕ Unit))
    (System.Meets KeepsMoving)
    (fun sys event => decide (System.Meets KeepsMoving sys event))
    (fun _ _ => of_decide_eq_true) .calm 10
    [.handle (.request (.dispatch (.plain 1))) .calm [],
      .handle (.request (.dispatch (.plain 2))) .calm [],
      .handle (.request .drainRequests) .calm [],
      .finish (.ofLocal 10) 0,.handle (.report 0) .calm [],
      .finish (.ofLocal 10) 0,.handle (.report 0) .calm []]
    (fun sys => decide (sys.factory.poolSize=1) && decide (sys.factory.drainState=.drained) &&
      (sys.factory.pool.entries.all fun entry => entry.2.currJobs.entries.isEmpty) &&
      sys.exits.isEmpty) rfl (by decide +kernel)
  simp only [Bool.and_eq_true,decide_eq_true_eq,List.all_eq_true,List.isEmpty_iff] at ht
  obtain ⟨⟨⟨hsize,hdrain⟩,hidle⟩,hexits⟩:=ht
  exact ⟨sys,hs,drain_unstuck (.plain 1 (.queuer {})) rfl rfl hs (by omega) (by rw [hdrain]; decide)
    (fun wid w hl => AList.ext (hidle ⟨wid,w⟩ (AList.mem_lookup_iff.mp hl))) hexits⟩

/-- No workers at first. Three jobs wait when the pool grows to two; the hasher sends everything
to the second worker. A shrink lets it drain, so its completions route nothing: it leaves the
pool, and the third job waits although nobody works and nothing is in flight. -/
theorem drain_stuck_after_shrink :
    ∃sys,Reachable
        (System.Starts (.plain 0 (.custom ⟨fun _ _ => 1⟩ : BareRouter ℕ Unit))) System.Step sys ∧
      1 ≤ sys.factory.poolSize ∧ sys.factory.drainState=.draining ∧
      (∀wid w,sys.factory.pool.lookup wid=some w→w.currJobs=∅) ∧
      sys.reports=[] ∧ sys.exits=[] ∧ contents sys.factory.queue≠[] := by
  obtain ⟨sys,hs,ht⟩:=System.exists_reached
    (.plain 0 (.custom ⟨fun _ _ => 1⟩ : BareRouter ℕ Unit)) .calm 10
    [.handle (.request (.dispatch (.plain 1))) .calm [],
      .handle (.request (.dispatch (.plain 2))) .calm [],
      .handle (.request (.dispatch (.plain 3))) .calm [],
      .handle (.request (.adjustWorkerPool 2)) .calm [],
      .handle (.request (.adjustWorkerPool 1)) .calm [],
      .finish (.ofLocal 11) 1,.handle (.report 0) .calm [],
      .finish (.ofLocal 11) 1,.handle (.report 0) .calm [],
      .crash (.ofLocal 11),.handle (.exit 0 false) .calm [],
      .handle (.request .drainRequests) .calm []]
    (fun sys => decide (sys.factory.poolSize=1) && decide (sys.factory.drainState=.draining) &&
      (sys.factory.pool.entries.all fun entry => entry.2.currJobs.entries.isEmpty) &&
      sys.reports.isEmpty && sys.exits.isEmpty && !(contents sys.factory.queue).isEmpty) rfl
    (by decide +kernel)
  simp only [Bool.and_eq_true,decide_eq_true_eq,List.all_eq_true,List.isEmpty_iff,
    Bool.not_eq_true',List.isEmpty_eq_false_iff] at ht
  obtain ⟨⟨⟨⟨⟨hsize,hdrain⟩,hidle⟩,hreports⟩,hexits⟩,hqueue⟩:=ht
  exact ⟨sys,hs,by omega,hdrain,
    fun wid w hl => AList.ext (hidle ⟨wid,w⟩ (AList.mem_lookup_iff.mp hl)),
    hreports,hexits,hqueue⟩

end Ractor.Factory
