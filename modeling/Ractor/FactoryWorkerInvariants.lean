import Ractor.FactoryWorkerMoves
import Mathlib.Data.List.Count

/-!
# What the worker operations preserve

A worker record is `Consistent` when it has at most one active job and its pending
counts say exactly how often each key is held. A job is followed by its tag: `tally`
counts where a worker holds it, `settledCount` how often the log says it is gone.
Every move keeps the sum of both, leaves the identity of the worker alone and only
writes log entries of its own worker.
-/

namespace Ractor.Factory
open AList List Effect World

variable {Key Msg : Type} [DecidableEq Key] {w : WorkerProperties Key Msg} {key : Key}
  {options : JobOptions} {d d' : Desk Key Msg}

namespace WorkerProperties

def heldCount (w : WorkerProperties Key Msg) (key : Key) : ℕ :=
  w.messageQueue.countP (fun job => job.key=key)+(w.currJobs.lookup key).toList.length

def Holds (w : WorkerProperties Key Msg) (key : Key) : Prop :=
  w.isProcessingKey key=true ∨ ∃job∈w.messageQueue,job.key=key

structure Consistent (w : WorkerProperties Key Msg) : Prop where
  slot : w.currJobs.entries.length≤1
  counts : ∀key,w.pendingKeyCounts.lookup key =
    if w.heldCount key=0 then none else some (w.heldCount key)

omit [DecidableEq Key] in
/-- A worker with at most one active job has none or exactly one. -/
theorem slot_cases (h : w.currJobs.entries.length≤1) :
    w.currJobs=∅ ∨ ∃key options,w.currJobs.entries=[⟨key,options⟩] := by
  match hw : w.currJobs.entries with
  | [] => exact .inl (w.currJobs_eq_empty hw)
  | [⟨key,options⟩] => exact .inr ⟨key,options,rfl⟩
  | _::_::_ => simp [hw] at h

theorem slot_lookup (h : w.currJobs.entries.length≤1) (hk : w.currJobs.lookup key=some options) :
    w.currJobs.entries=[⟨key,options⟩] := by
  have hm : (⟨key,options⟩ : Sigma fun _ : Key => JobOptions)∈w.currJobs.entries :=
    mem_lookup_iff.mp hk
  rcases slot_cases h with he | ⟨key',options',he⟩
  · simp [he] at hk
  · rw [he,mem_singleton] at hm
    rw [he,hm]

theorem erase_slot (h : w.currJobs.entries.length≤1) (hk : w.currJobs.lookup key=some options) :
    w.currJobs.erase key=∅ := by
  have he:=slot_lookup h hk
  apply ext
  change w.currJobs.entries.kerase key=[]
  rw [he]
  exact kerase_cons_eq rfl

theorem heldCount_pos_iff (w : WorkerProperties Key Msg) (key : Key) :
    0<w.heldCount key ↔ w.Holds key := by
  unfold heldCount Holds isProcessingKey
  cases w.currJobs.lookup key <;> simp

/-- The pending counts of a consistent worker name exactly the keys it holds. -/
theorem Consistent.hasPendingKey_iff (h : w.Consistent) (key : Key) :
    w.hasPendingKey key=true ↔ w.Holds key := by
  rw [← heldCount_pos_iff]
  unfold hasPendingKey
  rw [h.counts key]
  split <;> simp <;> omega

/-! ### Pending counts -/

theorem trackPendingKey_lookup (w : WorkerProperties Key Msg) (key k : Key) :
    (w.trackPendingKey key).pendingKeyCounts.lookup k =
      if k=key then some ((w.pendingKeyCounts.lookup key).getD 0+1)
      else w.pendingKeyCounts.lookup k := by
  unfold trackPendingKey
  by_cases hk : k=key
  · subst hk
    rw [if_pos rfl,lookup_insert]
  · rw [if_neg hk,lookup_insert_ne hk]

/-- Untracking a held key lowers its count by one, and the last unit removes the entry. -/
theorem untrackPendingKey_lookup {n : ℕ} (h : w.pendingKeyCounts.lookup key=some (n+1)) (k : Key) :
    (w.untrackPendingKey key).pendingKeyCounts.lookup k =
      if k=key then if n=0 then none else some n else w.pendingKeyCounts.lookup k := by
  unfold untrackPendingKey
  simp only [h]
  by_cases hn : n=0
  · subst hn
    rw [if_pos rfl]
    by_cases hk : k=key
    · subst hk
      simp [lookup_erase]
    · simp [lookup_erase_ne hk,hk]
  · rw [if_neg (by omega)]
    by_cases hk : k=key
    · subst hk
      simp [lookup_insert,hn]
    · simp [lookup_insert_ne hk,hk]

/-- Counts stay exact when one held job of a key goes and the key is untracked. -/
theorem untrackPendingKey_counts (w w' : WorkerProperties Key Msg) (key : Key)
    (hw : ∀k,w.pendingKeyCounts.lookup k =
      if w'.heldCount k+(if k=key then 1 else 0)=0 then none
      else some (w'.heldCount k+if k=key then 1 else 0)) (k : Key) :
    (w.untrackPendingKey key).pendingKeyCounts.lookup k =
      if w'.heldCount k=0 then none else some (w'.heldCount k) := by
  have hkey : w.pendingKeyCounts.lookup key=some (w'.heldCount key+1) := by
    simpa using hw key
  rw [untrackPendingKey_lookup hkey]
  by_cases hk : k=key
  · subst hk
    simp
  · simpa [hk] using hw k

@[simp] theorem heldCount_untrackPendingKey (w : WorkerProperties Key Msg) (key k : Key) :
    (w.untrackPendingKey key).heldCount k=w.heldCount k := by
  unfold heldCount
  rw [untrackPendingKey_messageQueue,untrackPendingKey_currJobs]

/-- Taking the head of the queue away takes one held job of its key away. -/
theorem heldCount_cons {job : Job Key Msg} {rest : List (Job Key Msg)}
    (hq : w.messageQueue=job::rest) (k : Key) :
    w.heldCount k = {w with messageQueue:=rest}.heldCount k+if k=job.key then 1 else 0 := by
  simp only [heldCount,hq,countP_cons,decide_eq_true_eq,eq_comm (a:=job.key)]
  omega

/-- Moving the head of the queue into the empty slot keeps what is held. -/
theorem heldCount_deliver {job : Job Key Msg} {rest : List (Job Key Msg)}
    (hq : w.messageQueue=job::rest) (hs : w.currJobs=∅) (k : Key) :
    { w with
      messageQueue:=rest
      currJobs:=w.currJobs.insert job.key job.options }.heldCount k=w.heldCount k := by
  rw [heldCount_cons hq]
  simp only [heldCount,hs]
  by_cases hk : k=job.key
  · subst hk
    rw [lookup_insert,if_pos rfl]
    rfl
  · rw [lookup_insert_ne hk,if_neg hk]
    rfl

theorem heldCount_acceptJob (w : WorkerProperties Key Msg) (job : Job Key Msg) (k : Key) :
    (w.acceptJob job).heldCount k=w.heldCount k+if k=job.key then 1 else 0 := by
  simp only [acceptJob,heldCount,countP_append,countP_singleton,
    trackPendingKey_currJobs,Job.taken_key,decide_eq_true_eq,eq_comm (a:=job.key)]
  omega

end WorkerProperties

/-! ### Moves keep a worker consistent -/

open WorkerProperties

theorem WorkerMove.consistent (h : WorkerMove d d') (hd : d.1.Consistent) : d'.1.Consistent := by
  cases h with
  | tick | bounce => exact hd
  | @discard w world job rest reason hq =>
    refine ⟨by simpa using hd.slot,fun k => ?_⟩
    have hc:=untrackPendingKey_counts {w with messageQueue:=rest}
      {w with messageQueue:=rest} job.key
      (fun k => by rw [← heldCount_cons hq]; exact hd.counts k) k
    rw [hc,heldCount_untrackPendingKey]
  | @deliver w world job rest hq hs _ =>
    refine ⟨?_,fun k => ?_⟩
    · simp [hs]
    · rw [heldCount_deliver hq hs]
      exact hd.counts k

theorem Moves.consistent (h : Moves d d') (hd : d.1.Consistent) : d'.1.Consistent :=
  h.preserves (P:=fun d => d.1.Consistent) (fun _ _ => WorkerMove.consistent) hd

namespace WorkerProperties

theorem new_consistent (wid : WorkerId) (actor : ActorId)
    (settings : WorkerDiscardSettings) (handler : Option HandlerId) :
    (WorkerProperties.new wid actor settings handler : WorkerProperties Key Msg).Consistent :=
  ⟨Nat.zero_le 1,fun _ => rfl⟩

theorem acceptJob_consistent (h : w.Consistent) (job : Job Key Msg) :
    (w.acceptJob job).Consistent := by
  refine ⟨h.slot,fun k => ?_⟩
  have hk:=h.counts k
  rw [heldCount_acceptJob]
  refine (trackPendingKey_lookup w job.key k).trans ?_
  by_cases hj : k=job.key
  · subst hj
    rw [if_pos rfl,if_pos rfl,hk]
    split <;> simp_all
  · simpa [hj] using hk

theorem enqueueJob_consistent (h : w.Consistent) (job : Job Key Msg) (world : World Key Msg) :
    (w.enqueueJob job world).1.Consistent := by
  cases hr : w.refusesNewest with
  | true => rwa [enqueueJob_refused job world hr]
  | false => exact (enqueueJob_moves job world hr).consistent (acceptJob_consistent h job)

theorem heldCount_erase (hk : w.currJobs.lookup key=some options) (k : Key) :
    w.heldCount k =
      {w with currJobs:=w.currJobs.erase key}.heldCount k+if k=key then 1 else 0 := by
  unfold heldCount
  by_cases h : k=key
  · subst h
    simp [hk,lookup_erase]
  · simp [lookup_erase_ne h,h]

theorem freeSlot_consistent (h : w.Consistent) (hk : w.currJobs.lookup key=some options) :
    (w.freeSlot key).Consistent := by
  refine ⟨?_,fun k => ?_⟩
  · simp [freeSlot,erase_slot h.slot hk]
  · have hc:=untrackPendingKey_counts {w with currJobs:=w.currJobs.erase key}
      {w with currJobs:=w.currJobs.erase key} key
      (fun k => by rw [← heldCount_erase hk]; exact h.counts k) k
    unfold freeSlot
    rw [hc,heldCount_untrackPendingKey]

/-- A matching completion frees the slot; everything after that is moves. -/
theorem workerComplete_moves (h : w.currJobs.entries.length≤1)
    (hk : w.currJobs.lookup key=some options) (world : World Key Msg) :
    Moves (w.freeSlot key,world.record (.completed w.actor options))
      (w.workerComplete key world).2 := by
  unfold workerComplete
  simp only [hk,untrackPendingKey_actor]
  apply dispatchNext_moves
  exact (untrackPendingKey_currJobs _ _).trans (erase_slot h hk)

def rehired (w : WorkerProperties Key Msg) (nworker : ActorId) : WorkerProperties Key Msg :=
  {w with heartbeat:={},actor:=nworker}

omit [DecidableEq Key] in
theorem rehired_eq (w : WorkerProperties Key Msg) (nworker : ActorId) (hs : w.currJobs=∅) :
    w.rehired nworker={{w with heartbeat:={},currJobs:=∅} with actor:=nworker} := by
  unfold rehired
  rw [← hs]

/-- A replacement gives up the active job, if there is one; the rest is moves of the
new actor's desk. -/
theorem replaceWorker_moves (h : w.currJobs.entries.length≤1) (nworker : ActorId)
    (world : World Key Msg) :
    (w.currJobs=∅ ∧ Moves (w.rehired nworker,world) (w.replaceWorker nworker world)) ∨
      ∃key options,w.currJobs.lookup key=some options ∧
        Moves ((w.freeSlot key).rehired nworker,world.record (.abandoned w.actor options))
          (w.replaceWorker nworker world) := by
  rcases slot_cases h with hs | ⟨key,options,he⟩
  · refine .inl ⟨hs,?_⟩
    unfold replaceWorker
    simp only [abandonJobs,hs,empty_entries,foldl_nil]
    rw [rehired_eq w nworker hs]
    exact dispatchNext_moves world rfl
  · have hk : w.currJobs.lookup key=some options :=
      mem_lookup_iff.mpr (by rw [he]; exact mem_singleton_self _)
    refine .inr ⟨key,options,hk,?_⟩
    have hf : (w.freeSlot key).rehired nworker =
        {{w with heartbeat:={},currJobs:=∅}.untrackPendingKey key with actor:=nworker} := by
      unfold freeSlot
      rw [erase_slot h hk]
      unfold rehired untrackPendingKey
      dsimp only
      split
      · rfl
      · split <;> rfl
    unfold replaceWorker
    simp only [abandonJobs,he,foldl_cons,foldl_nil]
    rw [hf]
    exact dispatchNext_moves _ (untrackPendingKey_currJobs _ _)

theorem workerComplete_consistent (h : w.Consistent) (key : Key) (world : World Key Msg) :
    (w.workerComplete key world).2.1.Consistent := by
  cases hk : w.currJobs.lookup key with
  | none => simpa [workerComplete,hk] using h
  | some options => exact (workerComplete_moves h.slot hk world).consistent (freeSlot_consistent h hk)

theorem replaceWorker_consistent (h : w.Consistent) (nworker : ActorId) (world : World Key Msg) :
    (w.replaceWorker nworker world).1.Consistent := by
  rcases replaceWorker_moves h.slot nworker world with ⟨_,hm⟩ | ⟨key,options,hk,hm⟩
  · exact hm.consistent ⟨h.slot,h.counts⟩
  · have hf:=freeSlot_consistent h hk
    exact hm.consistent ⟨hf.slot,hf.counts⟩

end WorkerProperties

/-! ### Where a tagged job is -/

def Effect.settledTag : Effect Key Msg → Option ℕ
  | .discarded _ _ job => some job.tag
  | .dropped _ job => some job.tag
  | .completed _ options => some options.tag
  | .abandoned _ options => some options.tag
  | _ => none

def World.settledCount (tag : ℕ) (world : World Key Msg) : ℕ :=
  world.log.countP fun effect => effect.settledTag=some tag

def WorkerProperties.tally (tag : ℕ) (w : WorkerProperties Key Msg) : ℕ :=
  w.messageQueue.countP (fun job => job.tag=tag) +
    w.currJobs.entries.countP (fun entry => entry.2.tag=tag)

section Settled

omit [DecidableEq Key]

variable (tag : ℕ) (world : World Key Msg)

@[simp] theorem World.settledCount_record (effect : Effect Key Msg) :
    (world.record effect).settledCount tag =
      world.settledCount tag+if effect.settledTag=some tag then 1 else 0 := by
  simp [settledCount,countP_append,countP_singleton]

@[simp] theorem World.settledCount_tick : world.tick.settledCount tag=world.settledCount tag :=
  rfl

@[simp] theorem World.settledCount_castJob (actor : ActorId) (job : Job Key Msg) :
    (world.castJob actor job).settledCount tag=world.settledCount tag := by
  simp [settledCount,countP_append,settledTag]

@[simp] theorem World.settledCount_discard (handler : Option HandlerId) (reason : DiscardReason)
    (job : Job Key Msg) :
    (world.discard handler reason job).settledCount tag =
      world.settledCount tag+if job.tag=tag then 1 else 0 := by
  cases handler <;> simp [discard,settledTag]

@[simp] theorem World.settledCount_accept (job : Job Key Msg) :
    (world.accept job).settledCount tag=world.settledCount tag := by
  unfold accept
  split <;> simp [settledTag]

@[simp] theorem World.settledCount_reject (job : Job Key Msg) :
    (world.reject job).settledCount tag=world.settledCount tag := by
  unfold reject
  split <;> simp [settledTag]

end Settled

theorem WorkerMove.tally (tag : ℕ) (h : WorkerMove d d') :
    d'.1.tally tag+d'.2.settledCount tag=d.1.tally tag+d.2.settledCount tag := by
  cases h with
  | tick => rfl
  | bounce => simp
  | discard world reason hq =>
    simp only [WorkerProperties.tally,hq,untrackPendingKey_messageQueue,
      untrackPendingKey_currJobs,countP_cons,settledCount_discard,decide_eq_true_eq]
    omega
  | @deliver _ world job rest hq hs _ =>
    have hj : (if decide (job.tag=tag)=true then 1 else 0) =
        if decide (job.options.tag=tag)=true then 1 else 0:=rfl
    simp only [WorkerProperties.tally,hq,hs,entries_insert_of_notMem (notMem_empty _),
      empty_entries,countP_cons,countP_nil,settledCount_castJob]
    omega

theorem Moves.tally (tag : ℕ) (h : Moves d d') :
    d'.1.tally tag+d'.2.settledCount tag=d.1.tally tag+d.2.settledCount tag :=
  h.preserves (P:=fun e => e.1.tally tag+e.2.settledCount tag=_)
    (fun _ _ hm he => (hm.tally tag).trans he) rfl

namespace WorkerProperties
variable (tag : ℕ)

theorem tally_acceptJob (w : WorkerProperties Key Msg) (job : Job Key Msg) :
    (w.acceptJob job).tally tag=w.tally tag+if job.tag=tag then 1 else 0 := by
  have hj : [job.taken].countP (fun job => decide (job.tag=tag)) =
      if job.tag=tag then 1 else 0 := by
    by_cases h : job.tag=tag <;> simp [h]
  simp only [acceptJob,tally,trackPendingKey_currJobs,countP_append,hj]
  omega

theorem tally_freeSlot (h : w.currJobs.entries.length≤1) (hk : w.currJobs.lookup key=some options) :
    (w.freeSlot key).tally tag+(if options.tag=tag then 1 else 0)=w.tally tag := by
  simp only [freeSlot,tally,untrackPendingKey_messageQueue,untrackPendingKey_currJobs,
    erase_slot h hk,slot_lookup h hk,empty_entries,countP_nil,countP_singleton,
    decide_eq_true_eq]
  omega

/-- An enqueued job is afterwards held by the worker or settled, once. -/
theorem enqueueJob_tally (w : WorkerProperties Key Msg) (job : Job Key Msg)
    (world : World Key Msg) :
    (w.enqueueJob job world).1.tally tag+(w.enqueueJob job world).2.settledCount tag =
      w.tally tag+world.settledCount tag+if job.tag=tag then 1 else 0 := by
  cases hr : w.refusesNewest with
  | true =>
    rw [enqueueJob_refused job world hr]
    simp [settledTag]
    omega
  | false =>
    rw [(enqueueJob_moves job world hr).tally tag,tally_acceptJob]
    simp [settledTag]
    omega

theorem workerComplete_tally (h : w.currJobs.entries.length≤1) (key : Key) (world : World Key Msg) :
    (w.workerComplete key world).2.1.tally tag+(w.workerComplete key world).2.2.settledCount tag =
      w.tally tag+world.settledCount tag := by
  cases hk : w.currJobs.lookup key with
  | none => simp [workerComplete,hk]
  | some options =>
    have hf:=tally_freeSlot tag h hk
    rw [(workerComplete_moves h hk world).tally tag]
    simp only [settledCount_record,settledTag,Option.some.injEq]
    omega

theorem replaceWorker_tally (h : w.currJobs.entries.length≤1) (nworker : ActorId)
    (world : World Key Msg) : (w.replaceWorker nworker world).1.tally tag +
        (w.replaceWorker nworker world).2.settledCount tag =
      w.tally tag+world.settledCount tag := by
  rcases replaceWorker_moves h nworker world with ⟨_,hm⟩ | ⟨key,options,hk,hm⟩
  · rw [hm.tally tag]
    rfl
  · have hf:=tally_freeSlot tag h hk
    rw [hm.tally tag]
    simp only [settledCount_record,settledTag,Option.some.injEq]
    change (w.freeSlot key).tally tag+_=_
    omega

end WorkerProperties
end Ractor.Factory
