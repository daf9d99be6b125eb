import Ractor.FactoryAvailability
import Ractor.FactoryHandlers
import Ractor.ReachableRuns
import Mathlib.Data.List.Perm.Subperm

/-!
# How large the index of available workers gets

A worker that is withdrawn keeps its entry in the deque of a queueing router, with its flag lowered,
until the entry is popped. The flag is what `on_worker_availability_change` looks at, so a worker
that is announced again before that gets a second entry. Without such announcements the deque holds
every worker at most once and is no longer than the vector of flags.
-/

namespace Ractor.Factory
open AvailableWorkers List Router

variable {Key Msg : Type} {index : AvailableWorkers}

namespace AvailableWorkers

def Stale (index : AvailableWorkers) (wid : WorkerId) : Prop :=
  wid∈index.availableWorkers ∧ index.workerInQueue.getD wid false=false

def Flagged (index : AvailableWorkers) : Prop :=
  ∀wid,index.workerInQueue.getD wid false=true → wid∈index.availableWorkers

structure Bounded (index : AvailableWorkers) : Prop where
  nodup : index.availableWorkers.Nodup
  indexed : ∀wid∈index.availableWorkers,wid < index.workerInQueue.length

theorem Bounded.length_le (h : index.Bounded) :
    index.availableWorkers.length ≤ index.workerInQueue.length := by
  have hsub : index.availableWorkers ⊆ range index.workerInQueue.length :=
    fun wid hwid => mem_range.mpr (h.indexed wid hwid)
  simpa using (h.nodup.subperm hsub).length_le

theorem length_grownFlags (flags : List Bool) (wid : ℕ) :
    flags.length≤(grownFlags flags wid).length ∧ wid<(grownFlags flags wid).length := by
  simp only [grownFlags,length_append,length_replicate]
  omega

theorem Bounded.announce (h : index.Bounded) {wid : ℕ} (hs : ¬index.Stale wid) :
    (index.onWorkerAvailabilityChange wid true).Bounded := by
  obtain ⟨hg,hwid⟩:=length_grownFlags index.workerInQueue wid
  have hi (k : ℕ) (hk : k∈index.availableWorkers) :
      k<(grownFlags index.workerInQueue wid).length:=Nat.lt_of_lt_of_le (h.indexed k hk) hg
  unfold onWorkerAvailabilityChange
  dsimp only
  rw [if_pos rfl]
  split
  next => exact ⟨h.nodup,hi⟩
  next hf =>
    have hnew : wid∉index.availableWorkers := by
      intro hmem
      refine hs ⟨hmem,?_⟩
      rwa [getD_grownFlags,Bool.not_eq_true] at hf
    refine ⟨h.nodup.append (nodup_singleton wid) (disjoint_singleton.mpr hnew),?_⟩
    intro k hk
    rw [length_set]
    rcases mem_append.mp hk with hk | hk
    · exact hi k hk
    · exact mem_singleton.mp hk ▸ hwid

theorem Bounded.withdraw (h : index.Bounded) (wid : ℕ) :
    (index.onWorkerAvailabilityChange wid false).Bounded := by
  refine ⟨h.nodup,fun k hk => ?_⟩
  have hg:=(length_grownFlags index.workerInQueue wid).1
  simpa [onWorkerAvailabilityChange] using Nat.lt_of_lt_of_le (h.indexed k hk) hg

theorem Bounded.popAvailable {pool : Pool Key Msg} :
    ∀{wids : List ℕ} {flags : List Bool},Bounded ⟨wids,flags⟩ →
      (AvailableWorkers.popAvailable pool wids flags).2.Bounded
  | [],_,h => h
  | wid::wids,flags,h => by
    have hp : Bounded ⟨wids,flags.set wid false⟩ :=
      ⟨h.nodup.of_cons,fun k hk => by simpa using h.indexed k (mem_cons_of_mem wid hk)⟩
    unfold AvailableWorkers.popAvailable
    split
    · exact hp
    · exact hp.popAvailable

theorem Flagged.popAvailable {pool : Pool Key Msg} :
    ∀{wids : List ℕ} {flags : List Bool},Flagged ⟨wids,flags⟩ →
      (AvailableWorkers.popAvailable pool wids flags).2.Flagged
  | [],_,h => h
  | wid::wids,flags,h => by
    have ht : Tracks ⟨wid::wids,flags⟩ fun _ => False:=⟨fun _ => False.elim,h⟩
    have hp : Flagged ⟨wids,flags.set wid false⟩:=ht.pop.flagged
    unfold AvailableWorkers.popAvailable
    split
    · exact hp
    · exact hp.popAvailable

theorem Flagged.change (h : index.Flagged) (wid : ℕ) (available : Bool) :
    (index.onWorkerAvailabilityChange wid available).Flagged := by
  have ht : index.Tracks fun _ => False:=⟨fun _ => False.elim,h⟩
  cases available with
  | true => exact (ht.announce wid).flagged
  | false => exact (ht.withdraw wid).flagged

end AvailableWorkers

/-! ### Sequences of calls -/

/-- The calls that a queueing router maintains its index in. The pool is whatever it is at the time
of the call. -/
inductive IndexCall (Key Msg : Type) where
  | onWorkerAvailabilityChange (wid : WorkerId) (available : Bool)
  | chooseTargetWorker (job : Job Key Msg) (poolSize : ℕ) (hint : Option WorkerId)
      (pool : Pool Key Msg) (world : World Key Msg)

def Router.after {R : Type} [Router R Key Msg] (router : R) : IndexCall Key Msg → R
  | .onWorkerAvailabilityChange wid available =>
    onWorkerAvailabilityChange router wid available
  | .chooseTargetWorker job poolSize hint pool world =>
    (chooseTargetWorker router job poolSize hint pool world).router

def Router.Calls {R : Type} [Router R Key Msg] (router : R) (call : IndexCall Key Msg)
    (router' : R) : Prop :=
  router'=after router call

/-- No worker is announced while a stale entry of it is in the deque. -/
def AvailableWorkers.Fresh (index : AvailableWorkers) : IndexCall Key Msg → Prop
  | .onWorkerAvailabilityChange wid true => ¬index.Stale wid
  | _ => True

instance (call : IndexCall Key Msg) : Decidable (index.Fresh call) :=
  match call with
  | .onWorkerAvailabilityChange _ true => inferInstanceAs (Decidable (¬(_ ∧ _)))
  | .onWorkerAvailabilityChange _ false | .chooseTargetWorker .. => .isTrue trivial

inductive AvailableWorkers.Served (index : AvailableWorkers) :
    IndexCall Key Msg → AvailableWorkers→Prop where
  | changed (wid : WorkerId) (available : Bool) :
      Served index (.onWorkerAvailabilityChange wid available)
        (index.onWorkerAvailabilityChange wid available)
  | kept (job : Job Key Msg) (poolSize : ℕ) (hint : Option WorkerId) (pool : Pool Key Msg)
      (world : World Key Msg) : Served index (.chooseTargetWorker job poolSize hint pool world) index
  | popped (job : Job Key Msg) (poolSize : ℕ) (hint : Option WorkerId) (pool : Pool Key Msg)
      (world : World Key Msg) :
      Served index (.chooseTargetWorker job poolSize hint pool world)
        (AvailableWorkers.popAvailable pool index.availableWorkers index.workerInQueue).2

section Served
variable {index' : AvailableWorkers} {call : IndexCall Key Msg}

theorem AvailableWorkers.Served.flagged (h : index.Served call index') (hf : index.Flagged) :
    index'.Flagged := by
  cases h with
  | changed wid available => exact hf.change wid available
  | kept => exact hf
  | popped => exact hf.popAvailable

theorem AvailableWorkers.Served.bounded (h : index.Served call index') (hb : index.Bounded)
    (hf : index.Fresh call) : index'.Bounded := by
  cases h with
  | changed wid available =>
    cases available with
    | true => exact hb.announce hf
    | false => exact hb.withdraw wid
  | kept => exact hb
  | popped => exact hb.popAvailable

theorem QueuerRouting.served [DecidableEq Key] (router : QueuerRouting Key Msg)
    (call : IndexCall Key Msg) :
    router.toAvailableWorkers.Served call (after router call).toAvailableWorkers := by
  cases call with
  | onWorkerAvailabilityChange wid available => exact .changed wid available
  | chooseTargetWorker job poolSize hint pool world =>
    change Served _ _
      (router.chooseTargetWorker job poolSize hint pool world).router.toAvailableWorkers
    unfold QueuerRouting.chooseTargetWorker
    split
    · exact .kept ..
    · exact .popped ..

theorem StickyQueuerRouting.served [DecidableEq Key] (router : StickyQueuerRouting Key Msg)
    (call : IndexCall Key Msg) :
    router.toAvailableWorkers.Served call (after router call).toAvailableWorkers := by
  cases call with
  | onWorkerAvailabilityChange wid available => exact .changed wid available
  | chooseTargetWorker job poolSize hint pool world =>
    change Served _ _
      (router.chooseTargetWorker job poolSize hint pool world).router.toAvailableWorkers
    unfold StickyQueuerRouting.chooseTargetWorker
    split
    · exact .kept ..
    · split
      · exact .kept ..
      · split
        · exact .kept ..
        · exact .popped ..

end Served

section Runs
variable {R : Type} [Router R Key Msg] {index : R → AvailableWorkers} {initial router : R}

theorem AvailableWorkers.flagged_of_served (hi : index initial={})
    (hs : ∀router call,(index router).Served call (index (after router call)))
    (h : Reachable (· = initial) Calls router) : (index router).Flagged := by
  refine h.invariant (P:=fun router => (index router).Flagged) ?_ ?_
  · rintro _ rfl
    rw [hi]
    exact tracks_empty.flagged
  · rintro router call _ hr rfl
    exact (hs router call).flagged hr

theorem AvailableWorkers.bounded_of_served (hi : index initial={})
    (hs : ∀router call,(index router).Served call (index (after router call)))
    (h : Reachable (· = initial) (guarded (fun router => (index router).Fresh) Calls) router) :
    (index router).Bounded := by
  refine h.invariant (P:=fun router => (index router).Bounded) ?_ ?_
  · rintro _ rfl
    rw [hi]
    exact ⟨nodup_nil,nofun⟩
  · rintro router call _ hr ⟨hf,rfl⟩
    exact (hs router call).bounded hr hf

end Runs

/-- Both queueing routers: a raised flag always means that the worker is in the deque, and as long
as no worker is announced before its stale entry is popped, the deque has no duplicates and is no
longer than the vector of flags. -/
theorem available_workers_bounded [DecidableEq Key] :
    (∀router : QueuerRouting Key Msg,
      (Reachable (· = {}) Calls router → ∀wid,router.workerInQueue.getD wid false=true →
        wid∈router.availableWorkers) ∧
      (Reachable (· = {}) (guarded (fun router => router.toAvailableWorkers.Fresh) Calls) router →
        router.availableWorkers.Nodup ∧
          router.availableWorkers.length≤router.workerInQueue.length)) ∧
    ∀router : StickyQueuerRouting Key Msg,
      (Reachable (· = {}) Calls router → ∀wid,router.workerInQueue.getD wid false=true →
        wid∈router.availableWorkers) ∧
      (Reachable (· = {}) (guarded (fun router => router.toAvailableWorkers.Fresh) Calls) router →
        router.availableWorkers.Nodup ∧
          router.availableWorkers.length≤router.workerInQueue.length) := by
  refine ⟨fun router => ⟨flagged_of_served rfl QueuerRouting.served,fun h => ?_⟩,
    fun router => ⟨flagged_of_served rfl StickyQueuerRouting.served,fun h => ?_⟩⟩
  · have hb : router.Bounded:=bounded_of_served rfl QueuerRouting.served h
    exact ⟨hb.nodup,hb.length_le⟩
  · have hb : router.Bounded:=bounded_of_served rfl StickyQueuerRouting.served h
    exact ⟨hb.nodup,hb.length_le⟩

/-- The entry of a worker that was withdrawn is popped before the worker is announced again. -/
theorem available_workers_bounded_popped :
    ∃router : QueuerRouting ℕ Unit,
      Reachable (· = {}) (guarded (fun router => router.toAvailableWorkers.Fresh) Calls) router ∧
      router.availableWorkers=[1,0] ∧ router.availableWorkers.Nodup ∧
      router.availableWorkers.length≤router.workerInQueue.length := by
  obtain ⟨router,hs,hlist⟩ : ∃router,execute (fun (router : QueuerRouting ℕ Unit) call =>
      if router.toAvailableWorkers.Fresh call then some (Router.after router call) else none) {}
      [.onWorkerAvailabilityChange 0 true,.onWorkerAvailabilityChange 0 false,
        .chooseTargetWorker (.plain 3) 2 none ∅ ⟨.calm,0,0,[]⟩,.onWorkerAvailabilityChange 1 true,
        .onWorkerAvailabilityChange 0 true]=some router ∧ router.availableWorkers=[1,0] :=
    ⟨_,rfl,rfl⟩
  have hr : Reachable (· = {}) (guarded (fun router => router.toAvailableWorkers.Fresh) Calls)
      router:=Reachable.guarded_execute (fun _ _ _ h => (Option.some.inj h).symm) _ (.start rfl) hs
  exact ⟨router,hr,hlist,(available_workers_bounded.1 router).2 hr⟩

/-- A worker that is withdrawn and announced again stands in the deque twice. -/
theorem reannounced_worker_listed_twice :
    ∃router : QueuerRouting ℕ Unit,Reachable (· = {}) Calls router ∧
      router.availableWorkers=[0,0] ∧ router.workerInQueue=[true] := by
  have hstart : Reachable (· = {}) Calls ({} : QueuerRouting ℕ Unit):=.start rfl
  have hannounced:=hstart.next (e:=.onWorkerAvailabilityChange 0 true) rfl
  have hwithdrawn:=hannounced.next (e:=.onWorkerAvailabilityChange 0 false) rfl
  have hagain:=hwithdrawn.next (e:=.onWorkerAvailabilityChange 0 true) rfl
  exact ⟨_,hagain,rfl,rfl⟩

end Ractor.Factory
