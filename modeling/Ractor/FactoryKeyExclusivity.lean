import Ractor.FactoryHandlerCases

/-!
# Which keys a worker holds

In every run each worker record is `Consistent`: at most one active job, and pending
counts that name exactly the keys it holds. Key persistent routing consults these
counts, so no key is ever held by two workers.
-/

namespace Ractor.Factory
open FactoryState

variable {Key Msg R Q : Type} [DecidableEq Key] {H : Option HandlerId→Prop} {hint : Option WorkerId}

open FiniteMap (lookup_insert_eq_some lookup_erase_eq_some)
open WorkerProperties

def WorkersConsistent (s : FactoryState Key Msg R Q) : Prop :=
  ∀wid w,s.pool.lookup wid=some w → w.Consistent

variable {s s' : FactoryState Key Msg R Q} {w : WorkerProperties Key Msg} {k key : Key}
  {world : World Key Msg}

theorem WorkersConsistent.insert (h : WorkersConsistent s) (wid : WorkerId) (hw : w.Consistent) :
    ∀k v,(s.pool.insert wid w).lookup k=some v→v.Consistent := by
  intro k v hk
  rcases lookup_insert_eq_some.mp hk with ⟨_,rfl⟩ | ⟨_,hk⟩
  · exact hw
  · exact h k v hk

/-! ### What an operation adds to the held keys -/

theorem WorkerMove.heldCount_le {d d' : Desk Key Msg} (h : WorkerMove d d') (key : Key) :
    d'.1.heldCount key≤d.1.heldCount key := by
  cases h with
  | tick | bounce => exact Nat.le_refl _
  | discard world reason hq =>
    rw [heldCount_untrackPendingKey,heldCount_cons hq]
    exact Nat.le_add_right _ _
  | deliver hq hs _ => exact (heldCount_deliver hq hs key).le

theorem Moves.holds {d d' : Desk Key Msg} (h : Moves d d') (hk : d'.1.Holds key) :
    d.1.Holds key := by
  have hle : d'.1.heldCount key≤d.1.heldCount key :=
    h.preserves (P:=fun e => e.1.heldCount key≤d.1.heldCount key)
      (fun _ _ hm he => (hm.heldCount_le key).trans he) (Nat.le_refl _)
  rw [← heldCount_pos_iff] at hk ⊢
  exact Nat.lt_of_lt_of_le hk hle

namespace WorkerProperties

theorem enqueueJob_holds {job : Job Key Msg} (h : (w.enqueueJob job world).1.Holds key) :
    w.Holds key ∨ key=job.key := by
  cases hr : w.refusesNewest with
  | true =>
    rw [enqueueJob_refused job world hr] at h
    exact .inl h
  | false =>
    have ha:=(enqueueJob_moves job world hr).holds h
    rw [← heldCount_pos_iff,heldCount_acceptJob] at ha
    by_cases hk : key=job.key
    · exact .inr hk
    · rw [if_neg hk,Nat.add_zero,heldCount_pos_iff] at ha
      exact .inl ha

theorem freeSlot_holds {options : JobOptions} (hk : w.currJobs.lookup key=some options)
    (h : (w.freeSlot key).Holds k) : w.Holds k := by
  rw [← heldCount_pos_iff] at h ⊢
  unfold freeSlot at h
  rw [heldCount_untrackPendingKey] at h
  rw [heldCount_erase hk]
  omega

theorem workerComplete_holds (hw : w.currJobs.entries.length≤1)
    (h : (w.workerComplete key world).2.1.Holds k) : w.Holds k := by
  cases hk : w.currJobs.lookup key with
  | none =>
    simp only [workerComplete,hk] at h
    exact h
  | some options => exact freeSlot_holds hk ((workerComplete_moves hw hk world).holds h)

theorem replaceWorker_holds (hw : w.currJobs.entries.length≤1) {nworker : ActorId}
    (h : (w.replaceWorker nworker world).1.Holds k) : w.Holds k := by
  rcases replaceWorker_moves hw nworker world with ⟨_,hm⟩ | ⟨key,options,hk,hm⟩
  · exact hm.holds h
  · exact freeSlot_holds hk (hm.holds h)

end WorkerProperties

/-! ### At most one holder -/

def Exclusive (s : FactoryState Key Msg R Q) : Prop :=
  ∀key wid w wid' w',s.pool.lookup wid=some w → s.pool.lookup wid'=some w' →
    w.Holds key → w'.Holds key → wid=wid'

/-- Rewriting one worker keeps exclusivity if every key it gained is held by nobody else. -/
theorem Exclusive.insert (h : Exclusive s) {wid : WorkerId} {w' : WorkerProperties Key Msg}
    (hw : ∀key k v,w'.Holds key→s.pool.lookup k=some v→v.Holds key→k=wid)
    (hs : s'.pool=s.pool.insert wid w') : Exclusive s' := by
  intro key k v k' v' hk hk' hv hv'
  rw [hs] at hk hk'
  rcases lookup_insert_eq_some.mp hk with ⟨hkw,rfl⟩ | ⟨_,hold⟩
  · rcases lookup_insert_eq_some.mp hk' with ⟨hkw',_⟩ | ⟨_,hk'⟩
    · exact hkw.trans hkw'.symm
    · exact hkw.trans (hw key k' v' hv hk' hv').symm
  · rcases lookup_insert_eq_some.mp hk' with ⟨hkw',rfl⟩ | ⟨_,hk'⟩
    · exact (hw key k v hv' hold hv).trans hkw'.symm
    · exact h key k v k' v' hold hk' hv hv'

theorem Exclusive.insert_of_holds (h : Exclusive s) {wid : WorkerId} {w' : WorkerProperties Key Msg}
    (hl : s.pool.lookup wid=some w) (hw : ∀key,w'.Holds key→w.Holds key)
    (hs : s'.pool=s.pool.insert wid w') : Exclusive s' :=
  h.insert (fun key k v hk hv hvk => h key k v wid w hv hl hvk (hw key hk)) hs

variable [Queue Q Key Msg] [LawfulQueue Q]

theorem Housekeeping.workersConsistent (h : Housekeeping s s') (hs : WorkersConsistent s) :
    WorkersConsistent s' := by
  intro wid w' hl
  obtain ⟨w,hw,hc⟩:=h.lookup hl
  have hcon:=hs wid w hw
  simp only [WorkerProperties.core,Prod.mk.injEq] at hc
  obtain ⟨-,-,hq,hj,hp,-⟩:=hc
  refine ⟨by rw [hj]; exact hcon.slot,fun key => ?_⟩
  unfold heldCount
  rw [hp,hq,hj]
  exact hcon.counts key

theorem Housekeeping.exclusive (h : Housekeeping s s') (hs : Exclusive s) : Exclusive s' := by
  have hh : ∀wid w',s'.pool.lookup wid=some w' →
      ∃w,s.pool.lookup wid=some w ∧ ∀key,w'.Holds key→w.Holds key := by
    intro wid w' hl
    obtain ⟨w,hw,hc⟩:=h.lookup hl
    simp only [WorkerProperties.core,Prod.mk.injEq] at hc
    obtain ⟨-,-,hq,hj,-⟩:=hc
    refine ⟨w,hw,fun key hk => ?_⟩
    unfold Holds isProcessingKey at hk ⊢
    rwa [← hq,← hj]
  intro key wid w' wid₁ w₁' hl hl₁ hk hk₁
  obtain ⟨w,hw,hkw⟩:=hh wid w' hl
  obtain ⟨w₁,hw₁,hkw₁⟩:=hh wid₁ w₁' hl₁
  exact hs key wid w wid₁ w₁ hw hw₁ (hkw key hk) (hkw₁ key hk₁)

/-! ### Moves -/

section
variable [Router R Key Msg] [LawfulRouter R]

theorem RoutingMove.workersConsistent {a b : Hand Key Msg R Q} (h : RoutingMove H hint a b)
    (ha : WorkersConsistent a.1) : WorkersConsistent b.1 := by
  cases h with
  | keep hk => exact hk.housekeeping.workersConsistent ha
  | @enqueue s wid w job hl _ => exact ha.insert _ (enqueueJob_consistent (ha _ _ hl) job s.world)
  | _ => exact ha

theorem FactoryMove.workersConsistent (h : FactoryMove H s s') (hs : WorkersConsistent s) :
    WorkersConsistent s' := by
  cases h with
  | routing h =>
    exact h.preserves (P:=fun a => WorkersConsistent a.1) (fun _ _ => RoutingMove.workersConsistent) hs
  | complete key hl => exact hs.insert _ (workerComplete_consistent (hs _ _ hl) key s.world)
  | replace hi hl _ => exact hs.insert _ (replaceWorker_consistent (hs _ _ hl) _ _)
  | add hl h =>
    obtain ⟨_,_,-,rfl⟩:=addWorker_ok h
    exact hs.insert _ (new_consistent _ _ _ _)
  | setDraining isDraining hl =>
    have hw:=hs _ _ hl
    exact hs.insert _ ⟨hw.slot,hw.counts⟩
  | remove hl _ =>
    intro k v hk
    exact hs k v (lookup_erase_eq_some.mp hk).2
  | setPoolSize => exact hs

theorem FactoryMoves.workersConsistent (h : FactoryMoves H s s') (hs : WorkersConsistent s) :
    WorkersConsistent s' :=
  h.preserves (fun _ _ => FactoryMove.workersConsistent) hs

theorem FactoryState.work_consistent {work : Work Key Msg} (h : s.work work=.ok s')
    (hs : WorkersConsistent s) : WorkersConsistent s' :=
  (work_moves h : FactoryMoves (fun _ => True) s s').workersConsistent hs

end

section KeyPersistent
variable [Hashable Key]

theorem RoutingMove.exclusive {a b : Hand Key Msg (KeyPersistentRouting Key Msg) Q}
    (h : RoutingMove H hint a b) (ha : Exclusive a.1 ∧ WorkersConsistent a.1) : Exclusive b.1 := by
  cases h with
  | keep hk => exact hk.housekeeping.exclusive ha.1
  | @enqueue s wid w job hl ht =>
    refine ha.1.insert (fun key k v hk hv hvk => ?_) rfl
    rcases enqueueJob_holds hk with hk | rfl
    · exact ha.1 key k v wid w hv hl hvk hk
    · -- the router found the key pending here, or pending nowhere
      have hp:=((ha.2 k v hv).hasPendingKey_iff job.key).mpr hvk
      rcases ht with ht | ⟨hn,_⟩
      · exact ha.1 job.key k v wid w hv hl hvk (((ha.2 wid w hl).hasPendingKey_iff job.key).mp ht)
      · rw [hn k v hv] at hp
        cases hp
  | _ => exact ha.1

theorem FactoryMove.exclusive {s s' : FactoryState Key Msg (KeyPersistentRouting Key Msg) Q}
    (h : FactoryMove H s s') (hs : Exclusive s ∧ WorkersConsistent s) :
    Exclusive s' ∧ WorkersConsistent s' := by
  refine ⟨?_,h.workersConsistent hs.2⟩
  cases h with
  | routing h =>
    exact (h.preserves (P:=fun a => Exclusive a.1 ∧ WorkersConsistent a.1)
      (fun _ _ hm ha => ⟨hm.exclusive ha,hm.workersConsistent ha.2⟩) hs).1
  | complete key hl =>
    exact hs.1.insert_of_holds hl (fun _ => workerComplete_holds (hs.2 _ _ hl).slot) rfl
  | replace hi hl _ =>
    exact hs.1.insert_of_holds hl (fun _ => replaceWorker_holds (hs.2 _ _ hl).slot) rfl
  | add hl h =>
    obtain ⟨_,_,-,rfl⟩:=addWorker_ok h
    refine hs.1.insert (fun key k v hk _ _ => ?_) rfl
    rcases hk with hk | ⟨job,hj,_⟩
    · cases hk
    · cases hj
  | setDraining isDraining hl =>
    refine hs.1.insert_of_holds hl ?_ rfl
    exact fun _ hk => hk
  | remove hl _ =>
    intro key k v k' v' hk hk'
    exact hs.1 key k v k' v' (lookup_erase_eq_some.mp hk).2 (lookup_erase_eq_some.mp hk').2
  | setPoolSize => exact hs.1

/-- With key persistent routing a key is held by at most one worker, draining or not, and
`has_pending_key` holds exactly for the worker that holds it. -/
theorem keyPersistent_exclusive {P : Type} [Priority P]
    (args : FactoryArguments (KeyPersistentRouting Key Msg) (BuiltInQueue Key Msg P))
    {s : FactoryState Key Msg (KeyPersistentRouting Key Msg) (BuiltInQueue Key Msg P)}
    (h : Reached args s) (key : Key) :
    (∀wid w,s.pool.lookup wid=some w → (w.hasPendingKey key=true ↔ w.Holds key)) ∧
      ∀wid w wid' w',s.pool.lookup wid=some w → s.pool.lookup wid'=some w' →
        w.Holds key → w'.Holds key → wid=wid' := by
  have hs : Exclusive s ∧ WorkersConsistent s := by
    refine reached_of_moves ?_ (fun _ _ => FactoryMove.exclusive) h
    intro oracle firstPid firstJob _
    refine ⟨?_,?_⟩
    · intro key wid w wid' w' hl
      cases hl
    · intro wid w hl
      cases hl
  exact ⟨fun wid w hl => (hs.2 wid w hl).hasPendingKey_iff key,
    fun wid w wid' w' hl hl' hw hw' => hs.1 key wid w wid' w' hl hl' hw hw'⟩

end KeyPersistent

/-- Two workers, and three jobs of which two share a key. -/
theorem keyPersistent_exclusive_replayed :
    ∃s,Reached (.plain 2 (⟨⟩ : KeyPersistentRouting ℕ Unit)) s ∧
      (s.pool.lookup 1).any (fun w => w.hasPendingKey 1 && w.messageQueue.length == 1)=true ∧
      ((∀wid w,s.pool.lookup wid=some w→(w.hasPendingKey 1=true ↔ w.Holds 1)) ∧
        ∀wid w wid' w',s.pool.lookup wid=some w→s.pool.lookup wid'=some w' →
          w.Holds 1→w'.Holds 1→wid=wid') := by
  obtain ⟨s,hs,ht⟩:=exists_reached (.plain 2 (⟨⟩ : KeyPersistentRouting ℕ Unit)) .calm 0
    (calmly [.dispatch (.plain 1),.dispatch (.plain 1),.dispatch (.plain 2)])
    (fun s => (s.pool.lookup 1).any fun w => w.hasPendingKey 1 && w.messageQueue.length == 1)
    rfl (by decide +kernel)
  exact ⟨s,hs,ht,keyPersistent_exclusive _ hs 1⟩

end Ractor.Factory
