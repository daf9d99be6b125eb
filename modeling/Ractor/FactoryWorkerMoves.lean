import Ractor.FactoryWorkers
import Mathlib.Logic.Relation

/-!
# Elementary moves of a worker

Every worker operation is a chain of four elementary moves: read the clock, discard
the job at the head of the queue, cast it to the worker actor, or have that cast
bounce. What a move preserves, every operation preserves. `Moves` is stated once per
operation here; the invariants of later modules only look at single moves.
-/

namespace Ractor.Factory
open Option List

variable {Key Msg : Type} [DecidableEq Key]

abbrev Desk (Key Msg : Type):=WorkerProperties Key Msg × World Key Msg

inductive WorkerMove : Desk Key Msg→Desk Key Msg→Prop where
  | tick (w world) : WorkerMove (w,world) (w,world.tick)
  | discard {w : WorkerProperties Key Msg} (world) {job rest} (reason : DiscardReason)
      (hq : w.messageQueue=job::rest) :
      WorkerMove (w,world) ({w with messageQueue:=rest}.untrackPendingKey job.key,
          world.discard w.discardHandler reason job)
  | deliver {w : WorkerProperties Key Msg} {world job rest} (hq : w.messageQueue=job::rest)
      (hs : w.currJobs=∅) (hd : world.delivers=true) :
      WorkerMove (w,world)
        ({w with messageQueue:=rest,currJobs:=w.currJobs.insert job.key job.options},
          world.castJob w.actor job)
  | bounce {w : WorkerProperties Key Msg} {world job rest} (hq : w.messageQueue=job::rest)
      (hs : w.currJobs=∅) (hd : world.delivers=false) :
      WorkerMove (w,world) (w,world.castJob w.actor job)

abbrev Moves : Desk Key Msg → Desk Key Msg → Prop:=Relation.ReflTransGen WorkerMove

/-- The induction rule for chains of moves. -/
theorem Moves.preserves {P : Desk Key Msg→Prop}
    (step : ∀d d',WorkerMove d d'→P d→P d') {d d' : Desk Key Msg} (h : Moves d d')
    (hd : P d) : P d' := by
  induction h with
  | refl => exact hd
  | tail _ hm ih => exact step _ _ hm ih

namespace WorkerProperties

section
variable (queue : List (Job Key Msg)) (w : WorkerProperties Key Msg) (world : World Key Msg)

def acceptJob (job : Job Key Msg) : WorkerProperties Key Msg :=
  {w.trackPendingKey job.key with messageQueue:=w.messageQueue++[job.taken]}

def freeSlot (key : Key) : WorkerProperties Key Msg :=
  {w with currJobs:=w.currJobs.erase key}.untrackPendingKey key

theorem nextNonExpired_currJobs : (nextNonExpired queue w world).2.1.currJobs=w.currJobs := by
  induction queue generalizing w world with
  | nil => rfl
  | cons job rest ih =>
    unfold nextNonExpired
    split
    · rw [ih,untrackPendingKey_currJobs]
    · rfl

theorem nextNonExpired_none (h : (nextNonExpired queue w world).1=none) :
    (nextNonExpired queue w world).2.1.messageQueue=[] := by
  induction queue generalizing w world with
  | nil => rfl
  | cons job rest ih =>
    unfold nextNonExpired at h ⊢
    split at h
    next he =>
      rw [if_pos he]
      exact ih _ _ h
    next => cases h

/-- The expiry scan of a queue, carried out at the head of any longer queue. -/
theorem nextNonExpired_moves (queue suffix : List (Job Key Msg)) (w : WorkerProperties Key Msg)
    (world : World Key Msg) :
    Moves ({w with messageQueue:=queue++suffix},world)
      ({(nextNonExpired queue w world).2.1 with
          messageQueue:=(nextNonExpired queue w world).1.toList ++
            (nextNonExpired queue w world).2.1.messageQueue++suffix},
        (nextNonExpired queue w world).2.2) := by
  induction queue generalizing w world with
  | nil => exact .refl
  | cons job rest ih =>
    have ht : WorkerMove ({w with messageQueue:=job::rest++suffix},world)
        ({w with messageQueue:=job::rest++suffix},world.tick):=.tick _ _
    unfold nextNonExpired
    split
    · have hd : WorkerMove ({w with messageQueue:=job::rest++suffix},world.tick) _ :=
        .discard world.tick .ttlExpired rfl
      have hu:=untrackPendingKey_setQueue w job.key (rest++suffix)
      exact .head ht (.head (hu ▸ hd) (ih _ _))
    · exact .single ht

theorem getNextNonExpiredJob_moves : Moves (w,world) ({(w.getNextNonExpiredJob world).2.1 with
          messageQueue:=(w.getNextNonExpiredJob world).1.toList ++
            (w.getNextNonExpiredJob world).2.1.messageQueue},
        (w.getNextNonExpiredJob world).2.2) := by
  have h:=nextNonExpired_moves w.messageQueue [] w world
  simp only [append_nil] at h
  exact h

end

variable {w : WorkerProperties Key Msg} (job : Job Key Msg) (world : World Key Msg)

/-- Casting a job that was just taken off the queue is one move. -/
theorem dispatchJob_move (hs : w.currJobs=∅) :
    WorkerMove ({w with messageQueue:=job::w.messageQueue},world) (w.dispatchJob job world) := by
  unfold dispatchJob
  split
  next hd =>
    exact WorkerMove.deliver (w:={w with messageQueue:=job::w.messageQueue}) rfl hs hd
  next hd =>
    exact WorkerMove.bounce (w:={w with messageQueue:=job::w.messageQueue}) rfl hs
      (Bool.not_eq_true _ ▸ hd)

theorem dispatchNext_moves (hs : w.currJobs=∅) : Moves (w,world) (w.dispatchNext world) := by
  have hm:=w.getNextNonExpiredJob_moves world
  have hc : (w.getNextNonExpiredJob world).2.1.currJobs=∅ :=
    (nextNonExpired_currJobs _ _ _).trans hs
  unfold dispatchNext
  rcases hr : w.getNextNonExpiredJob world with ⟨_ | job,w',world'⟩
  · simp only [hr,toList_none,nil_append] at hm
    exact hm
  · simp only [hr,toList_some] at hm hc
    exact hm.tail (dispatchJob_move job world' hc)

theorem shedOldest_moves (limit fuel : ℕ) (w : WorkerProperties Key Msg) (world : World Key Msg) :
    Moves (w,world) (shedOldest limit fuel w world) := by
  induction fuel generalizing w world with
  | zero => exact .refl
  | succ fuel ih =>
    have hm:=w.getNextNonExpiredJob_moves world
    unfold shedOldest
    split
    · rcases hr : w.getNextNonExpiredJob world with ⟨_ | job,w',world'⟩
      · simp only [hr,toList_none,nil_append] at hm
        exact hm.trans (ih _ _)
      · simp only [hr,toList_some] at hm
        have hd : WorkerMove ({w' with messageQueue:=[job]++w'.messageQueue},world') _ :=
          .discard world' .loadshed rfl
        exact (hm.tail hd).trans (ih _ _)
    · exact .refl

theorem enqueueJob_refused (h : w.refusesNewest=true) : w.enqueueJob job world =
      (w,((world.record (.enqueued w job)).discard w.discardHandler .loadshed job).reject job) := by
  simp only [enqueueJob,h,if_true]

theorem enqueueJob_idle (h : w.refusesNewest=false) (hs : w.currJobs=∅) :
    w.enqueueJob job world=match nextNonExpired w.messageQueue (w.trackPendingKey job.key)
        ((world.record (.enqueued w job)).accept job) with
      | (some older,w,world) =>
        {w with messageQueue:=w.messageQueue++[job.taken]}.dispatchJob older world
      | (none,w,world) => w.dispatchJob job.taken world := by
  unfold enqueueJob
  dsimp only
  rw [if_neg (by simp [h]),if_pos (by simp [hs])]
  rfl

theorem enqueueJob_busy (h : w.refusesNewest=false) (hs : w.currJobs.entries≠[]) :
    w.enqueueJob job world=match w.discardSettings.getLimitAndMode with
      | some (limit,.oldest) =>
        shedOldest limit (w.messageQueue.length+1) (w.acceptJob job)
          ((world.record (.enqueued w job)).accept job)
      | _ => (w.acceptJob job,(world.record (.enqueued w job)).accept job) := by
  unfold enqueueJob
  dsimp only
  rw [if_neg (by simp [h]),if_neg (by simpa using hs)]
  simp only [length_append,length_singleton]
  rfl

/-- An accepted job joins the queue; everything after that is moves. -/
theorem enqueueJob_moves (h : w.refusesNewest=false) :
    Moves (w.acceptJob job,(world.record (.enqueued w job)).accept job) (w.enqueueJob job world)
      := by
  by_cases hs : w.currJobs.entries=[]
  · have hm:=nextNonExpired_moves w.messageQueue [job.taken] (w.trackPendingKey job.key)
      ((world.record (.enqueued w job)).accept job)
    have hc:=nextNonExpired_currJobs w.messageQueue (w.trackPendingKey job.key)
      ((world.record (.enqueued w job)).accept job)
    have hn:=nextNonExpired_none w.messageQueue (w.trackPendingKey job.key)
      ((world.record (.enqueued w job)).accept job)
    rw [trackPendingKey_currJobs,w.currJobs_eq_empty hs] at hc
    rw [enqueueJob_idle job world h (w.currJobs_eq_empty hs)]
    rcases hr : nextNonExpired w.messageQueue (w.trackPendingKey job.key)
      ((world.record (.enqueued w job)).accept job) with ⟨_ | older,w',world'⟩
    · have hq:=hn (by rw [hr])
      simp only [hr,toList_none,nil_append] at hm hc hq
      rw [hq,nil_append] at hm
      have hd:=dispatchJob_move job.taken world' hc
      rw [hq] at hd
      exact hm.tail hd
    · simp only [hr,toList_some] at hm hc
      exact hm.tail (dispatchJob_move (w:={w' with messageQueue:=w'.messageQueue++[job.taken]})
        older world' hc)
  · rw [enqueueJob_busy job world h hs]
    split
    · exact shedOldest_moves _ _ _ _
    · exact .refl

end WorkerProperties
end Ractor.Factory
