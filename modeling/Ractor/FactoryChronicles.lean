import Ractor.FactoryHandlerCases

/-!
# What housekeeping writes

A `Chronicle` relates a world to a later one and does not mind the log entries of housekeeping:
pings, changes of the staff, replies to queries, and the expiry of a job, which reads the clock
first. The parts of the handlers that do nothing else are related by every chronicle, whatever it
asks of the jobs that are cast, shed, accepted or rejected.
-/

namespace Ractor.Factory
open FactoryState

variable {Key Msg : Type}

structure Chronicle (rel : World Key Msg → World Key Msg → Prop) : Prop where
  trans : ∀{a b c},rel a b → rel b c → rel a c
  of_log : ∀{a b},b.oracle.clock=a.oracle.clock → b.log=a.log → rel a b
  tick : ∀a,rel a a.tick
  record : ∀a {effect},effect.IsNeutral → rel a (a.record effect)
  expire : ∀a handler job,rel a (a.tick.discard handler .ttlExpired job)

namespace Chronicle
variable {rel : World Key Msg → World Key Msg→Prop} (h : Chronicle rel)
include h

theorem refl (a : World Key Msg) : rel a a:=h.of_log rfl rfl

theorem spawn {a b : World Key Msg} {wid : WorkerId} {actor : ActorId}
    (hs : a.spawn wid=.ok (actor,b)) : rel a b := by
  obtain ⟨_,-,-,-,hlog⟩:=a.spawn_ok hs
  have hw : rel a (a.record (.spawned actor wid)):=h.record a trivial
  exact h.trans hw (h.of_log (a.spawn_clock hs) hlog)

theorem retainLive (handler : Option HandlerId) (jobs : List (Job Key Msg))
    (world : World Key Msg) : rel world (Factory.retainLive handler jobs world).2 := by
  induction jobs generalizing world with
  | nil => exact h.refl world
  | cons job rest ih =>
    unfold Factory.retainLive
    split
    · exact h.trans (h.expire world handler job) (ih _)
    · exact h.trans (h.tick world) (ih _)

section Workers
variable [DecidableEq Key]

theorem nextNonExpired (queue : List (Job Key Msg)) (w : WorkerProperties Key Msg)
    (world : World Key Msg) : rel world (WorkerProperties.nextNonExpired queue w world).2.2 := by
  induction queue generalizing w world with
  | nil => exact h.refl world
  | cons job rest ih =>
    unfold WorkerProperties.nextNonExpired
    split
    · exact h.trans (h.expire world _ job) (ih _ _)
    · exact h.tick world

theorem abandonJobs (entries : List (Sigma fun _ : Key => JobOptions))
    (w : WorkerProperties Key Msg) (world : World Key Msg) :
    rel world (WorkerProperties.abandonJobs entries w world).2 := by
  unfold WorkerProperties.abandonJobs
  induction entries generalizing w world with
  | nil => exact h.refl world
  | cons entry entries ih =>
    refine h.trans ?_ (ih _ _)
    exact h.record world trivial

end Workers

/-! ### Factories -/

section Factories
variable {R Q : Type} [Router R Key Msg] [Queue Q Key Msg] [LawfulQueue Q]
  {s s' : FactoryState Key Msg R Q} {H : Option HandlerId→Prop}

theorem keepingMove (hm : KeepingMove H s s') : rel s.world s'.world := by
  cases hm with
  | ask hc => exact h.of_log hc rfl
  | tick => exact h.tick s.world
  | note _ hn => exact h.record s.world hn
  | settings | handler | adjust => exact h.refl _
  | sweep =>
    have he:=LawfulQueue.removeExpiredItems_eq s.queue s.discardHandler s.world
    have hr:=h.retainLive s.discardHandler (LawfulQueue.contents s.queue) s.world
    rw [← he] at hr
    exact hr

theorem keeping (hk : Keeping H s s') : rel s.world s'.world := by
  induction hk with
  | refl => exact h.refl _
  | tail _ hm ih => exact h.trans ih (h.keepingMove hm)

theorem pingWorkers (s : FactoryState Key Msg R Q) : rel s.world s.pingWorkers.world :=
  h.keeping (pingWorkers_keeping s : Keeping (fun _ => True) _ _)

omit [Queue Q Key Msg] [LawfulQueue Q] in
theorem addWorker {wid : WorkerId} (ha : s.addWorker wid=.ok s') : rel s.world s'.world := by
  obtain ⟨_,_,hs,rfl⟩:=addWorker_ok ha
  exact h.spawn hs

theorem growPool {toAdd : ℕ} (hg : s.growPool toAdd=.ok s') : rel s.world s'.world := by
  refine growPool_rec (P:=fun _ t => rel s.world t.world) hg ?_
    (fun _ t ht => h.trans ht (h.pingWorkers t)) (h.refl _)
  intro wid t t' _ _ ht hw
  refine h.trans ht ?_
  unfold growWorker at hw
  split at hw
  · exact h.addWorker hw
  · cases hw
    exact h.refl _

omit [Queue Q Key Msg] [LawfulQueue Q] in
theorem shrinkPool (s : FactoryState Key Msg R Q) (toRemove : ℕ) :
    rel s.world (s.shrinkPool toRemove).world :=
  shrinkPool_rec (P:=fun t => rel s.world t.world) (fun _ _ _ _ _ _ ht => ht)
    (fun _ _ t _ _ _ ht => h.trans ht (h.record t.world trivial)) (h.refl _)

/-- A chronicle that relates the work an event asks for relates the handling of the event. -/
theorem handleEvent [DecidableEq Key] {event : FactoryEvent Key Msg}
    (he : s.handleEvent event=.ok s')
    (hwo : ∀a work b,s.workOf event=some (a,work)→Keeping (fun _ => True) s a →
      a.work work=.ok b → rel a.world b.world) : rel s.world s'.world := by
  rcases handleEvent_kept (installs_all event) he with
    ⟨-,hk⟩ | ⟨a,work,b,hw,ha,hab,hb⟩
  · exact h.keeping hk
  · exact h.trans (h.trans (h.keeping ha) (hwo a work b hw ha hab)) (h.keeping hb)

end Factories
end Chronicle
end Ractor.Factory
