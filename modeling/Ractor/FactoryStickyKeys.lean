import Ractor.FactoryRoutingAttempts
import Ractor.FactoryAvailability

/-!
# Keys under sticky queuer routing

Sticky routing sends a job to the worker that processes its key, and to an available worker
if there is none. A worker therefore only ever holds jobs of one key. What the router looks at
is the active job, though: a job that a worker retains after a failed cast is invisible to it,
and the next job of the same key goes to another worker.
-/

namespace Ractor.Factory
open FactoryState

variable {Key Msg R Q : Type} [DecidableEq Key]

open LawfulQueue (contents)
open FiniteMap (lookup_insert_eq_some lookup_erase_eq_some)
open WorkerProperties

structure StickyKeys (s : FactoryState Key Msg R Q) : Prop where
  own : ∀wid w,s.pool.lookup wid=some w → ∀k k',w.Holds k → w.Holds k' → k=k'
  exclusive : Exclusive s

/-- Every worker of the second state holds nothing, or only what it held in the first. -/
def Releases (s s' : FactoryState Key Msg R Q) : Prop :=
  ∀wid w',s'.pool.lookup wid=some w' → (∀key,¬w'.Holds key) ∨
    ∃w,s.pool.lookup wid=some w ∧ ∀key,w'.Holds key → w.Holds key

variable {wid : WorkerId} {s s' : FactoryState Key Msg R Q}

namespace Releases
variable {a b c : FactoryState Key Msg R Q}

theorem of_pool (h : b.pool=a.pool) : Releases a b :=
  fun _ w' hl => .inr ⟨w',by rwa [h] at hl,fun _ hk => hk⟩

theorem trans (h : Releases a b) (h' : Releases b c) : Releases a c := by
  intro wid w' hl
  rcases h' wid w' hl with hn | ⟨w,hw,hsub⟩
  · exact .inl hn
  · rcases h wid w hw with hn | ⟨w₀,hw₀,hsub₀⟩
    · exact .inl fun key hk => hn key (hsub key hk)
    · exact .inr ⟨w₀,hw₀,fun key hk => hsub₀ key (hsub key hk)⟩

theorem insert {w w' : WorkerProperties Key Msg} (hl : s.pool.lookup wid=some w)
    (hw : ∀key,w'.Holds key→w.Holds key) (hp : a.pool=s.pool.insert wid w') :
    Releases s a := by
  intro k v hk
  rw [hp] at hk
  rcases lookup_insert_eq_some.mp hk with ⟨rfl,rfl⟩ | ⟨_,hk⟩
  · exact .inr ⟨w,hl,hw⟩
  · exact .inr ⟨v,hk,fun _ h => h⟩

theorem insert_empty {w' : WorkerProperties Key Msg} (hw : ∀key,¬w'.Holds key)
    (hp : a.pool=s.pool.insert wid w') : Releases s a := by
  intro k v hk
  rw [hp] at hk
  rcases lookup_insert_eq_some.mp hk with ⟨rfl,rfl⟩ | ⟨_,hk⟩
  · exact .inl hw
  · exact .inr ⟨v,hk,fun _ h => h⟩

theorem erase (hp : a.pool=s.pool.erase wid) : Releases s a := by
  intro k v hk
  rw [hp] at hk
  exact .inr ⟨v,(lookup_erase_eq_some.mp hk).2,fun _ h => h⟩

end Releases

theorem StickyKeys.releases (hs : StickyKeys s) (h : Releases s s') : StickyKeys s' := by
  have hb : ∀wid w' key,s'.pool.lookup wid=some w'→w'.Holds key →
      ∃w,s.pool.lookup wid=some w ∧ ∀key,w'.Holds key→w.Holds key := by
    intro wid w' key hl hk
    exact (h wid w' hl).resolve_left fun hn => hn key hk
  refine ⟨?_,?_⟩
  · intro wid w' hl k k' hk hk'
    obtain ⟨w,hw,hsub⟩:=hb wid w' k hl hk
    exact hs.own wid w hw k k' (hsub k hk) (hsub k' hk')
  · intro key wid w wid' w' hl hl' hk hk'
    obtain ⟨v,hv,hsub⟩:=hb wid w key hl hk
    obtain ⟨v',hv',hs'⟩:=hb wid' w' key hl' hk'
    exact hs.exclusive key wid v wid' v' hv hv' (hsub key hk) (hs' key hk')

/-! ### What releases keys -/

theorem Housekeeping.releases [Queue Q Key Msg] [LawfulQueue Q] (h : Housekeeping s s') :
    Releases s s' := by
  intro wid w' hl
  obtain ⟨w,hw,hc⟩:=h.lookup hl
  simp only [WorkerProperties.core,Prod.mk.injEq] at hc
  obtain ⟨-,-,hq,hj,-,-⟩:=hc
  refine .inr ⟨w,hw,fun key hk => ?_⟩
  unfold Holds isProcessingKey at hk ⊢
  rwa [hq,hj] at hk

namespace FactoryState

theorem completeJob_releases (hc : WorkersConsistent s) (who : WorkerId) (key : Key) :
    Releases s (s.completeJob who key) := by
  unfold completeJob
  split
  next => exact .of_pool rfl
  next worker hl => exact .insert hl (fun _ => workerComplete_holds (hc _ _ hl).slot) rfl

theorem replaceExited_releases {t : FactoryState Key Msg R Q} {who : ActorId}
    {worker : WorkerProperties Key Msg} (hc : WorkersConsistent s)
    (hl : s.pool.lookup wid=some worker) (h : s.replaceExited who wid worker=.ok t) :
    Releases s t := by
  unfold replaceExited at h
  split at h
  · cases h
  next replacement world _ =>
    cases h
    refine .insert hl (fun key hk => ?_) rfl
    have hrep : (worker.replaceWorker replacement world).1.Holds key := by
      split at hk
      · unfold sendFactoryPing at hk
        split at hk
        · exact hk
        · split at hk <;> exact hk
      · exact hk
    exact replaceWorker_holds (hc wid worker hl).slot hrep

variable [Router R Key Msg]

theorem addWorker_releases (h : s.addWorker wid=.ok s') : Releases s s' := by
  obtain ⟨_,_,-,rfl⟩:=addWorker_ok h
  refine .insert_empty ?_ rfl
  rintro key (hk | ⟨job,hj,_⟩)
  · cases hk
  · cases hj

theorem growWorker_releases (h : s.growWorker wid=.ok s') : Releases s s' := by
  unfold growWorker at h
  split at h
  next => exact addWorker_releases h
  next existing hl =>
    cases h
    refine .insert hl ?_ rfl
    exact fun _ hk => hk

theorem shrinkPool_releases (s : FactoryState Key Msg R Q) (toRemove : ℕ) :
    Releases s (s.shrinkPool toRemove) := by
  refine shrinkPool_rec ?_ (fun _ _ _ _ _ _ ht => ht.trans (.erase rfl)) (.of_pool rfl)
  intro wid w t _ hl _ ht
  refine ht.trans (.insert hl ?_ rfl)
  exact fun _ hk => hk

variable [Queue Q Key Msg] [LawfulQueue Q]

theorem starts_sticky {args : FactoryArguments R Q} (h : Starts args s) : StickyKeys s := by
  refine starts_rec (P:=fun _ t => StickyKeys t) ?_
    (fun _ _ _ ha ht => ht.releases (addWorker_releases ha))
    (fun _ _ _ hk ht => ht.releases hk.releases) h
  intro oracle firstPid firstJob _
  refine ⟨?_,?_⟩
  · intro wid w hl
    cases hl
  · intro key wid w wid' w' hl
    cases hl

theorem growPool_releases {toAdd : ℕ} (h : s.growPool toAdd=.ok s') : Releases s s' :=
  growPool_rec (P:=fun _ t => Releases s t) h
    (fun _ _ _ _ _ ht hg => ht.trans (growWorker_releases hg))
    (fun _ t ht => ht.trans (pingWorkers_housekeeping t).releases) (.of_pool rfl)

end FactoryState

/-! ### Routing a job -/

/-- Some worker is available while one without an active job retains a job of the key. -/
def Pool.Splits (pool : Pool Key Msg) (key : Key) : Prop :=
  (∃entry∈pool.entries,entry.2.isAvailable=true) ∧
    ∃entry∈pool.entries,entry.2.currJobs.entries.isEmpty=true ∧
      ∃job∈entry.2.messageQueue,job.key=key

instance (pool : Pool Key Msg) (key : Key) : Decidable (pool.Splits key) :=
  inferInstanceAs (Decidable (_ ∧ _))

/-- A job enqueued where sticky routing allows it keeps the keys apart. -/
theorem StickyKeys.enqueue (hs : StickyKeys s) {w : WorkerProperties Key Msg} {job : Job Key Msg}
    {world : World Key Msg} {n : ℕ} {hint : Option WorkerId} (hl : s.pool.lookup wid=some w)
    (ht : RoutingRule.stickyQueuer.Targets n s.pool hint job.key wid w)
    (hsp : ¬s.pool.Splits job.key) (hp : s'.pool=s.pool.insert wid (w.enqueueJob job world).1) :
    StickyKeys s' := by
  have hg : ∀key,(w.enqueueJob job world).1.Holds key→key=job.key := by
    intro key hk
    rcases enqueueJob_holds hk with hk | rfl
    · rcases ht with ht | ⟨_,ha,_⟩
      · exact hs.own wid w hl key job.key hk (.inl ht)
      · obtain ⟨hj,hq⟩:=w.isAvailable_iff.mp ha
        rcases hk with hk | ⟨j,hm,_⟩
        · rw [isProcessingKey,w.currJobs_eq_empty hj] at hk
          cases hk
        · rw [hq] at hm
          cases hm
    · rfl
  have hh : ∀k v,s.pool.lookup k=some v→v.Holds job.key→k=wid := by
    intro k v hv hvk
    rcases ht with ht | ⟨hf,ha,_⟩
    · exact hs.exclusive job.key k v wid w hv hl hvk (.inl ht)
    · -- the holder does not process the key, so it retains it without an active job
      exfalso
      have hqu:=hvk.resolve_left fun hp => by
        rw [hf k v hv] at hp
        cases hp
      refine hsp ⟨⟨⟨wid,w⟩,AList.mem_lookup_iff.mp hl,ha⟩,⟨k,v⟩,AList.mem_lookup_iff.mp hv,?_,hqu⟩
      cases hj : v.currJobs.entries with
      | nil => rfl
      | cons entry rest =>
        have hac : v.isProcessingKey entry.1=true := by
          rw [isProcessingKey,AList.lookup_isSome,AList.mem_keys,AList.keys,hj]
          exact List.mem_cons_self
        have hkey:=hs.own k v hv entry.1 job.key (.inl hac) hvk
        rw [hkey,hf k v hv] at hac
        cases hac
  refine ⟨?_,hs.exclusive.insert (fun key k v hk hv hvk => ?_) hp⟩
  · intro k v hv key key' hk hk'
    rw [hp] at hv
    rcases lookup_insert_eq_some.mp hv with ⟨_,rfl⟩ | ⟨_,hv⟩
    · exact (hg key hk).trans (hg key' hk').symm
    · exact hs.own k v hv key key' hk hk'
  · rw [hg key hk] at hvk
    exact hh k v hv hvk

variable [Queue Q Key Msg] [LawfulQueue Q]

/-- The job the attempt is about is not kept apart from a retained job of its key. -/
def Attempt.SerializesKey (attempt : Attempt Key Msg R Q) : Prop :=
  ∀job∈(liveBacklog attempt.state.world.oracle.clock
      (contents attempt.state.queue)).head?,¬attempt.state.pool.Splits job.key

instance (attempt : Attempt Key Msg R Q) : Decidable attempt.SerializesKey := by
  unfold Attempt.SerializesKey
  infer_instance

namespace FactoryState

/-- Whenever the work routes a job, no worker is available while another one without an active
job retains a job of the same key. -/
def SerializesKeys [Router R Key Msg] (s : FactoryState Key Msg R Q) : Work Key Msg → Prop
  | .dispatch job =>
    job.isExpired s.world.now=false → s.drainState=.notDraining → ¬s.pool.Splits job.key
  | work => ∀attempt∈s.attempts work,attempt.SerializesKey

instance [Router R Key Msg] (s : FactoryState Key Msg R Q) (work : Work Key Msg) :
    Decidable (s.SerializesKeys work) := by
  cases work <;> unfold SerializesKeys <;> infer_instance

variable {s s' : FactoryState Key Msg (StickyQueuerRouting Key Msg) Q}

theorem tryRouteNextActiveJob_sticky {hint : Option WorkerId} {later : ℕ}
    (h : s.tryRouteNextActiveJob hint=.ok s') (hg : Attempt.SerializesKey ⟨hint,later,s⟩)
    (hs : StickyKeys s) : StickyKeys s' := by
  cases tryRouteNextActiveJob_attempted h with
  | exhausted _ _ hp | stuck _ _ hp _ => exact hs.releases (.of_pool hp)
  | routed hj _ hl ht hp => exact hs.enqueue hl ht (hg _ (by rw [hj]; rfl)) hp

theorem work_sticky {work : Work Key Msg} (h : s.work work=.ok s') (hg : s.SerializesKeys work)
    (hc : WorkersConsistent s) (hs : StickyKeys s) : StickyKeys s' := by
  by_cases hd : ∃job,work=.dispatch job
  · obtain ⟨job,rfl⟩:=hd
    cases dispatch_dispatched h with
    | refused _ hp => exact hs.releases (.of_pool hp)
    | routed hli ho _ hl ht hp => exact hs.enqueue hl ht (hg hli ho) hp
    | stored _ hp _ => exact hs.releases (.of_pool hp)
  · refine work_rec (I:=StickyKeys) (G:=Attempt.SerializesKey)
      (fun who key => hs.releases (completeJob_releases hc who key))
      (fun _ _ _ _ _ ht => ht.releases (.erase rfl))
      (fun _ _ _ _ _ hl ht => hs.releases (replaceExited_releases hc hl ht))
      (fun _ _ hg => hs.releases (growPool_releases hg))
      (fun _ => hs.releases (shrinkPool_releases s _))
      (fun _ _ _ _ hg _ hro ht => tryRouteNextActiveJob_sticky hro hg ht)
      (fun _ _ hp _ _ ht => ht.releases (.of_pool hp)) hs h (fun job hjob => hd ⟨job,hjob⟩) ?_
    cases work with
    | dispatch job => exact absurd ⟨job,rfl⟩ hd
    | finished | exited | resized => exact hg

end FactoryState

/-- Sticky serialization: at most one worker holds a key among its active or queued jobs, as
long as no job is routed past a retained job of its key. -/
theorem sticky_serializes {P : Type} [Priority P]
    (args : FactoryArguments (StickyQueuerRouting Key Msg) (BuiltInQueue Key Msg P))
    {s : FactoryState Key Msg (StickyQueuerRouting Key Msg) (BuiltInQueue Key Msg P)}
    (h : Reachable (Starts args) (guarded (WorkMeets SerializesKeys) Step) s)
    (key : Key) :
    ∀wid w wid' w',s.pool.lookup wid=some w → s.pool.lookup wid'=some w' →
      w.Holds key → w'.Holds key → wid=wid' := by
  obtain ⟨hs,-⟩:=shaped_rec (P:=StickyKeys) (fun _ hs => starts_sticky hs)
    (fun _ _ hk hs => hs.releases hk.releases)
    (fun _ _ _ hg hw _ hc hs => work_sticky hw hg hc hs) h
  exact hs.exclusive key

/-- Two jobs of one key share a worker, a job of another key goes to the second one. -/
theorem sticky_serializes_replayed :
    ∃s,Reachable (Starts (.plain 2 ({} : StickyQueuerRouting ℕ Unit)))
        (guarded (WorkMeets SerializesKeys) Step) s ∧
      (s.pool.lookup 0).any (fun w => w.isProcessingKey 1 && w.messageQueue.length == 1)=true ∧
      ∀wid w wid' w',s.pool.lookup wid=some w→s.pool.lookup wid'=some w' →
        w.Holds 1→w'.Holds 1→wid=wid' := by
  obtain ⟨s,hs,ht⟩:=exists_guarded (.plain 2 ({} : StickyQueuerRouting ℕ Unit))
    (WorkMeets SerializesKeys)
    (fun s label => decide (WorkMeets SerializesKeys s label))
    (fun _ _ => of_decide_eq_true) .calm 0
    (calmly [.dispatch (.plain 1),.dispatch (.plain 1),.dispatch (.plain 2)])
    (fun s => (s.pool.lookup 0).any fun w => w.isProcessingKey 1 && w.messageQueue.length == 1)
    rfl (by decide +kernel)
  exact ⟨s,hs,ht,sticky_serializes _ hs 1⟩

/-- Two workers. The cast of the first job fails and its worker retains it; the second job of
the key goes to the other worker; the replaced first worker gets its job after all. -/
theorem sticky_splits_key :
    ∃s,Reached (.plain 2 ({} : StickyQueuerRouting ℕ Unit)) s ∧
      ∃w w',s.pool.lookup 0=some w ∧ s.pool.lookup 1=some w' ∧
        w.isProcessingKey 1=true ∧ w'.isProcessingKey 1=true := by
  obtain ⟨s,hs,ht⟩:=exists_reached (.plain 2 ({} : StickyQueuerRouting ℕ Unit)) .calm 10
    ([(.message (.dispatch (.plain 1)),.closed)]++calmly [.dispatch (.plain 1)]++[(.supervision
      (.actorTerminated (.ofLocal 10)),.calm)])
    (fun s => (s.pool.lookup 0).any (fun w => w.isProcessingKey 1) &&
      (s.pool.lookup 1).any fun w => w.isProcessingKey 1) rfl (by decide +kernel)
  obtain ⟨h0,h1⟩:=Bool.and_eq_true_iff.mp ht
  obtain ⟨w,hl,hw⟩:=(Option.any_eq_true _ _).mp h0
  obtain ⟨w',hl',hw'⟩:=(Option.any_eq_true _ _).mp h1
  exact ⟨s,hs,w,w',hl,hl',hw,hw'⟩

end Ractor.Factory
