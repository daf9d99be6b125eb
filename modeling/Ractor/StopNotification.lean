import Ractor.ActorStatus
import Ractor.ReachableRuns
import Mathlib.Logic.Function.Basic
import Mathlib.Order.MinMax

/-!
# Waiting for an actor to stop

`wait` makes a `Notified` future, reads the status of the actor, and awaits the future unless it has
read `Stopped`. The call of `set_status` that is the first to publish `Stopped` goes on to
`notify_stop_listener`: it completes the futures that have been made so far, and leaves one permit.

A future that is made after that belongs to a caller that reads `Stopped`. Any number of callers wait
and any number of them set the status, in any interleaving of their steps.
-/

namespace Ractor
open Option Function

/-- A call of `wait` by what it does next, and whether its future has been completed. -/
inductive StopWait where
  | makeFuture
  | readStatus (completed : Bool)
  | pollFuture (completed : Bool)
  | parked (completed : Bool)
  | returned

namespace StopWait

/-- A notification reaches the future, polled or not. -/
def complete : StopWait → StopWait
  | readStatus _ => readStatus true
  | pollFuture _ => pollFuture true
  | parked _ => parked true
  | makeFuture => makeFuture
  | returned => returned

/-- The future has been completed, or the call is over. -/
def Released : StopWait → Prop
  | makeFuture => False
  | readStatus completed | pollFuture completed | parked completed => completed=true
  | returned => True

/-- The call has read a status other than `Stopped`, and nothing has completed its future. -/
def Stranded (call : StopWait) : Prop:=call=pollFuture false ∨ call=parked false

theorem not_stranded_complete (call : StopWait) : ¬ call.complete.Stranded := by
  cases call <;> simp [complete,Stranded]

end StopWait

/-- A call of `set_status` by what it does next. -/
inductive StatusUpdate where
  | fetchMax
  | notifyWaiters
  | notifyOne
  | done
  deriving DecidableEq, Repr

/-- The status of an actor and its `wait_handler`, with the calls of both kinds. -/
structure StopListeners (Waiter Setter : Type) where
  status : ActorStatus:=.unstarted
  /-- The permit that `notify_one` leaves when no future is queued. -/
  permit : Bool:=false
  /-- The futures that have been polled in vain, the first one in front. -/
  queue : List Waiter:=[]
  waits : Waiter → StopWait:=fun _ => .makeFuture
  updates : Setter → StatusUpdate:=fun _ => .fetchMax

inductive StopEvent (Waiter Setter : Type) where
  | proceed (waiter : Waiter)
  | setStatus (setter : Setter) (status : ActorStatus)
  | notify (setter : Setter)

namespace StopListeners
variable {Waiter Setter : Type} [DecidableEq Waiter] [DecidableEq Setter]
  (s : StopListeners Waiter Setter)

def goto (waiter : Waiter) (call : StopWait) : StopListeners Waiter Setter :=
  {s with waits:=update s.waits waiter call}

def proceed (waiter : Waiter) : Option (StopListeners Waiter Setter) :=
  match s.waits waiter with
  | .makeFuture => some (s.goto waiter (.readStatus false))
  | .readStatus completed =>
    some (s.goto waiter (if s.status=.stopped then .returned else .pollFuture completed))
  | .pollFuture completed =>
    if s.permit then some {s.goto waiter .returned with permit:=false}
    else if completed then some (s.goto waiter .returned)
    else some {s.goto waiter (.parked false) with queue:=s.queue++[waiter]}
  | .parked true => some (s.goto waiter .returned)
  | .parked false | .returned => none

def notify (setter : Setter) : Option (StopListeners Waiter Setter) :=
  match s.updates setter with
  | .notifyWaiters => some {s with
      queue:=[]
      waits:=fun waiter => (s.waits waiter).complete
      updates:=update s.updates setter .notifyOne}
  | .notifyOne =>
    let s := {s with updates:=update s.updates setter .done}
    match s.queue with
    | [] => some {s with permit:=true}
    | waiter::queue => some {s.goto waiter (s.waits waiter).complete with queue}
  | .fetchMax | .done => none

def step :
    StopEvent Waiter Setter → Option (StopListeners Waiter Setter)
  | .proceed waiter => s.proceed waiter
  | .setStatus setter status =>
    if s.updates setter=.fetchMax then some {s with
      status:=max s.status status
      updates:=update s.updates setter
        (if status=.stopped ∧ s.status < .stopped then .notifyWaiters else .done)}
    else none
  | .notify setter => s.notify setter

def Step (event : StopEvent Waiter Setter) (s' : StopListeners Waiter Setter) : Prop :=
  s.step event=some s'

def Initial : Prop:=s={}

/-- Nobody is released before `Stopped` is published, and nobody is stranded once the waiters have
been notified of it. -/
structure Sound : Prop where
  early : s.status≠.stopped → s.permit=false ∧ (∀waiter,¬ (s.waits waiter).Released) ∧
    ∀setter,s.updates setter=.fetchMax ∨ s.updates setter=.done
  informed : s.status=.stopped → (∀setter,s.updates setter≠.notifyWaiters) →
    ∀waiter,¬ (s.waits waiter).Stranded

variable {s} {s' : StopListeners Waiter Setter} {waiter : Waiter} {setter : Setter} {call : StopWait}

omit [DecidableEq Waiter] [DecidableEq Setter] in
theorem Sound.stopped (h : s.Sound) (hw : s.waits waiter=call) (hr : call.Released) :
    s.status=.stopped := by
  subst hw
  by_contra hs
  exact (h.early hs).2.1 waiter hr

omit [DecidableEq Setter] in
/-- A step of a waiter that does not release it early and does not strand it late. -/
theorem Sound.goto (h : s.Sound) {permit : Bool} {queue : List Waiter}
    (hp : permit=true→s.permit=true) (hr : call.Released→s.status=.stopped)
    (hs : call.Stranded→s.status=.stopped→(s.waits waiter).Stranded) :
    Sound {s.goto waiter call with permit,queue} := by
  refine ⟨fun hne => ?_,fun hst hn other hother => ?_⟩
  · obtain ⟨hpe,hw,hu⟩:=h.early hne
    refine ⟨Bool.eq_false_iff.mpr fun hpt => ?_,fun other hother => ?_,hu⟩
    · exact Bool.eq_false_iff.mp hpe (hp hpt)
    · by_cases he : other=waiter
      · subst he
        exact hne (hr (by simpa [StopListeners.goto] using hother))
      · exact hw other (by simpa [StopListeners.goto,he] using hother)
  · by_cases he : other=waiter
    · subst he
      exact h.informed hst hn other (hs (by simpa [StopListeners.goto] using hother) hst)
    · exact h.informed hst hn other (by simpa [StopListeners.goto,he] using hother)

omit [DecidableEq Setter] in
theorem Sound.proceed (h : s.Sound) (hs : s.proceed waiter=some s') : s'.Sound := by
  unfold StopListeners.proceed at hs
  cases hw : s.waits waiter with
  | makeFuture =>
    simp only [hw,some.injEq] at hs
    exact hs ▸ h.goto id nofun nofun
  | readStatus completed =>
    simp only [hw,some.injEq] at hs
    subst hs
    by_cases hst : s.status=.stopped
    · exact h.goto id (fun _ => hst) (by simp [hst,StopWait.Stranded])
    · rw [if_neg hst]
      exact h.goto id (fun hr => h.stopped hw hr) fun _ he => absurd he hst
  | pollFuture completed =>
    simp only [hw] at hs
    split at hs
    next hp =>
      obtain rfl:=some.inj hs
      have hst : s.status=.stopped := by
        by_contra hne
        exact Bool.eq_false_iff.mp (h.early hne).1 hp
      exact h.goto nofun (fun _ => hst) nofun
    next =>
      split at hs
      next hc =>
        obtain rfl:=some.inj hs
        exact h.goto id (fun _ => h.stopped hw hc) nofun
      next hc =>
        obtain rfl:=some.inj hs
        refine h.goto id nofun fun _ _ => ?_
        rw [hw,Bool.eq_false_iff.mpr hc]
        exact .inl rfl
  | parked completed =>
    cases completed with
    | false => simp [hw] at hs
    | true =>
      simp only [hw,some.injEq] at hs
      exact hs ▸ h.goto id (fun _ => h.stopped hw rfl) nofun
  | returned => simp [hw] at hs

/-- A step of a call of `set_status` that is in the middle of its notifications. -/
theorem Sound.notify (h : s.Sound) (hs : s.notify setter=some s') : s'.Sound := by
  have hst (hu : s.updates setter=.notifyWaiters ∨ s.updates setter=.notifyOne) :
      s.status=.stopped := by
    by_contra hne
    rcases (h.early hne).2.2 setter with hn | hn <;> simp [hn] at hu
  unfold StopListeners.notify at hs
  cases hu : s.updates setter with
  | fetchMax | done => simp [hu] at hs
  | notifyWaiters =>
    simp only [hu,some.injEq] at hs
    subst hs
    exact ⟨fun hne => absurd (hst (.inl hu)) hne,fun _ _ waiter =>
      (s.waits waiter).not_stranded_complete⟩
  | notifyOne =>
    have hst:=hst (.inr hu)
    have hd : Sound {s with updates:=update s.updates setter .done} := by
      refine ⟨fun hne => absurd hst hne,fun _ hn => h.informed hst fun other he => ?_⟩
      by_cases ho : other=setter
      · simp [ho,hu] at he
      · exact hn other (by simpa [ho] using he)
    simp only [hu] at hs
    split at hs
    · obtain rfl:=some.inj hs
      exact ⟨fun hne => absurd hst hne,hd.informed⟩
    · obtain rfl:=some.inj hs
      exact hd.goto id (fun _ => hst) fun hs => absurd hs (StopWait.not_stranded_complete _)

theorem Sound.step (h : s.Sound) {event : StopEvent Waiter Setter} (hs : s.Step event s') :
    s'.Sound := by
  cases event with
  | proceed waiter => exact h.proceed hs
  | notify setter => exact h.notify hs
  | setStatus setter status =>
    obtain ⟨hu,rfl⟩:=ite_some_none_eq_some.mp hs
    refine ⟨fun hne => ?_,fun hst hn => ?_⟩
    · have hold : s.status≠.stopped:=fun he =>
        hne ((max_eq_left (he ▸ status.le_stopped)).trans he)
      have hnew : status≠.stopped:=fun he =>
        hne ((max_eq_right (he ▸ s.status.le_stopped)).trans he)
      obtain ⟨hp,hw,hup⟩:=h.early hold
      refine ⟨hp,hw,fun other => ?_⟩
      by_cases ho : other=setter
      · simp [ho,hnew]
      · simpa [ho] using hup other
    · -- had `Stopped` not been published before, this call would have to notify of it
      have hold : s.status=.stopped := by
        by_contra hne
        have hlt : s.status < .stopped:=lt_of_le_of_ne s.status.le_stopped hne
        have hnew : status=.stopped:=(max_choice s.status status).elim
          (fun he => absurd (he.symm.trans hst) hne) fun he => he.symm.trans hst
        exact hn setter (by simp [hnew,hlt])
      refine h.informed hold fun other he => ?_
      by_cases ho : other=setter
      · rw [ho,hu] at he
        cases he
      · exact hn other (by simpa [ho] using he)

/-- No caller of `wait` returns before `Stopped` is published. Once it is, and no call of
`set_status` is in the middle of its notifications, every caller that has read another status has a
future that has been completed: nobody is left parked, or about to park. -/
theorem no_lost_stop_wakeup (h : Reachable Initial Step s) :
    (∀waiter,s.waits waiter=.returned → s.status=.stopped) ∧
    (s.status=.stopped → (∀setter,s.updates setter=.fetchMax ∨ s.updates setter=.done) →
      ∀waiter,s.waits waiter≠.pollFuture false ∧ s.waits waiter≠.parked false) := by
  have hs : s.Sound := by
    refine h.invariant (fun s hs => ?_) fun s event s' hs hst => hs.step hst
    rw [hs]
    exact ⟨fun _ => ⟨rfl,fun _ => id,fun _ => .inl rfl⟩,nofun⟩
  refine ⟨fun waiter hw => hs.stopped hw trivial,fun hst hup waiter => ?_⟩
  have hn : ∀setter,s.updates setter≠.notifyWaiters := by
    intro setter he
    rcases hup setter with hu | hu <;> rw [he] at hu <;> cases hu
  exact not_or.mp (hs.informed hst hn waiter)

/-- One caller is parked and another one has read the status when the actor stops. A third one makes
its future afterwards. -/
theorem no_lost_stop_wakeup_three : ∃s : StopListeners ℕ Unit,
    Reachable Initial Step s ∧ s.waits 0=.parked true ∧ s.waits 1=.pollFuture true ∧
      s.waits 2=.returned ∧ s.status=.stopped ∧ ∀waiter,s.waits waiter≠.parked false := by
  have hs : Reachable Initial Step _:=Reachable.execute (fun _ _ _ h => h)
    [.proceed 0,.proceed 0,.proceed 0,.proceed 1,.proceed 1,.setStatus () .stopped,.notify (),
      .notify (),.proceed 2,.proceed 2] (.start (s:=({} : StopListeners ℕ Unit)) rfl) rfl
  obtain ⟨hreturned,hparked⟩:=no_lost_stop_wakeup hs
  have hstopped:=hreturned 2 rfl
  exact ⟨_,hs,rfl,rfl,rfl,hstopped,fun waiter => (hparked hstopped (fun _ => .inr rfl) waiter).2⟩

end StopListeners
end Ractor
