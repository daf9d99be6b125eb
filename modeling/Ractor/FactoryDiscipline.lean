import Ractor.FactoryChronicles
import Ractor.FactoryUpkeep

/-!
# What may become of a job

A `Discipline` says which jobs may be cast to a worker actor and which may be shed. `Obeys` is
what an operation keeps of it: a job that the clock shows to be unexpired is live, and everything
the operation logs is permitted. Workers and routers obey whatever suits the jobs they are given.
-/

namespace Ractor.Factory
variable {Key Msg : Type} [DecidableEq Key]

open WorkerProperties

/-- The jobs that may be started, the jobs that may be shed, and the time at which the clock stands if
it does not move. -/
structure Discipline (Key Msg : Type) where
  Live : Job Key Msg → Prop
  Sheds : Job Key Msg → Prop
  now : Option Instant:=none
  live_taken : ∀job,Live job → Live job.taken

namespace Discipline
variable (d : Discipline Key Msg)

/-- The reasons for which a job may be discarded. An expired job is not asked about. -/
def Allows : DiscardReason → Job Key Msg → Prop
  | .ttlExpired,_ => True
  | .loadshed,job => d.Sheds job
  | .shutdown,job => d.Live job
  | .rateLimited,job => d.Live job

def Permits : Effect Key Msg → Prop
  | .cast _ job _ => d.Live job
  | .discarded _ reason job => d.Allows reason job
  | .dropped reason job => d.Allows reason job
  | _ => True

/-- A job that is not expired at a reading still to come is live. -/
def Sees (world : World Key Msg) : Prop :=
  (∀now∈d.now,∀i,world.oracle.clock i=now) ∧
    ∀i job,job.isExpired (world.oracle.clock i)=false → d.Live job

/-- Between two worlds the clock only moves on, and the log only says what is permitted. -/
def Obeys (a b : World Key Msg) : Prop:=d.Sees a → d.Sees b ∧ a.Writes d.Permits b

variable {d} {a b c : World Key Msg}

namespace Obeys

omit [DecidableEq Key]

theorem writes (hc : b.oracle.clock=a.oracle.clock) (hw : a.Writes d.Permits b) : d.Obeys a b := by
  intro h
  unfold Sees at h ⊢
  rw [hc]
  exact ⟨h,hw⟩

theorem of_log (hc : b.oracle.clock=a.oracle.clock) (hl : b.log=a.log) : d.Obeys a b :=
  .writes hc (.of_log hl)

theorem refl (a : World Key Msg) : d.Obeys a a:=.of_log rfl rfl

theorem trans (h : d.Obeys a b) (h' : d.Obeys b c) : d.Obeys a c := by
  intro ha
  obtain ⟨hb,hw⟩:=h ha
  obtain ⟨hc,hw'⟩:=h' hb
  exact ⟨hc,hw.trans hw'⟩

theorem tick (a : World Key Msg) : d.Obeys a a.tick :=
  fun h => ⟨⟨fun now hn i => h.1 now hn (i+1),fun i job => h.2 (i+1) job⟩,.of_log rfl⟩

theorem record (a : World Key Msg) {effect : Effect Key Msg} (h : d.Permits effect) :
    d.Obeys a (a.record effect):=.writes rfl (.record a h)

theorem discard (a : World Key Msg) (handler : Option HandlerId) (reason : DiscardReason)
    (job : Job Key Msg) (h : d.Allows reason job) : d.Obeys a (a.discard handler reason job) :=
  .writes (by rw [World.discard_oracle]) (.discard a handler reason job (fun _ => h) h)

theorem expire (a : World Key Msg) (handler : Option HandlerId) (job : Job Key Msg) :
    d.Obeys a (a.tick.discard handler .ttlExpired job) :=
  (tick a).trans (.discard _ handler .ttlExpired job trivial)

theorem accept (a : World Key Msg) (job : Job Key Msg) : d.Obeys a (a.accept job) := by
  unfold World.accept
  split
  · exact .record a trivial
  · exact .refl a

theorem reject (a : World Key Msg) (job : Job Key Msg) : d.Obeys a (a.reject job) :=
  .writes (by rw [World.reject_oracle]) (.reject a job fun _ => trivial)

theorem castJob (a : World Key Msg) (actor : ActorId) {job : Job Key Msg} (h : d.Live job) :
    d.Obeys a (a.castJob actor job) :=
  .writes rfl ⟨[.cast actor job a.delivers],rfl,by simpa [Permits] using h⟩

end Obeys

omit [DecidableEq Key] in
theorem chronicle (d : Discipline Key Msg) : Chronicle d.Obeys where
  trans:=.trans
  of_log:=.of_log
  tick:=.tick
  record a effect h:=.record a (by cases effect <;> first | exact trivial | exact h.elim)
  expire:=.expire

end Discipline

open Discipline (Obeys)

variable {d : Discipline Key Msg}

/-! ### Workers -/

namespace WorkerProperties

/-- The scan returns a job that is live. -/
theorem nextNonExpired_live (queue : List (Job Key Msg)) (w : WorkerProperties Key Msg)
    (world : World Key Msg) (hs : d.Sees world) :
    ∀job∈(nextNonExpired queue w world).1,d.Live job := by
  induction queue generalizing w world with
  | nil => nofun
  | cons job rest ih =>
    unfold nextNonExpired
    split
    · exact ih _ _ (Obeys.expire world _ job hs).1
    next he =>
      rintro _ ⟨⟩
      exact hs.2 0 job (by simpa [World.now] using he)

variable (w : WorkerProperties Key Msg) (world : World Key Msg)

theorem dispatchJob_obeys {job : Job Key Msg} (hj : d.Live job) :
    d.Obeys world (w.dispatchJob job world).2 := by
  unfold dispatchJob
  split <;> exact .castJob world w.actor hj

theorem dispatchNext_obeys : d.Obeys world (w.dispatchNext world).2 := by
  intro hs
  have hn:=d.chronicle.nextNonExpired w.messageQueue w world
  have hl:=nextNonExpired_live w.messageQueue w world hs
  unfold dispatchNext getNextNonExpiredJob
  generalize nextNonExpired w.messageQueue w world=next at hn hl
  obtain ⟨_ | job,w',world'⟩:=next
  · exact hn hs
  · exact hn.trans (w'.dispatchJob_obeys world' (hl job rfl)) hs

theorem shedOldest_obeys (hs : ∀job,d.Sheds job) (limit fuel : ℕ)
    (w : WorkerProperties Key Msg) (world : World Key Msg) :
    d.Obeys world (shedOldest limit fuel w world).2 := by
  induction fuel generalizing w world with
  | zero => exact .refl world
  | succ fuel ih =>
    have hn:=d.chronicle.nextNonExpired w.messageQueue w world
    unfold shedOldest getNextNonExpiredJob
    split
    · generalize nextNonExpired w.messageQueue w world=next at hn
      obtain ⟨_ | job,w',world'⟩:=next
      · exact hn.trans (ih _ _)
      · exact (hn.trans (.discard _ _ .loadshed job (hs job))).trans (ih _ _)
    · exact .refl world

/-- A live job may be given to a worker that sheds nothing, or sheds what may be shed. -/
theorem enqueueJob_obeys {w : WorkerProperties Key Msg} {job : Job Key Msg} (hj : d.Live job)
    (hsh : (∀job,d.Sheds job) ∨ w.discardSettings=.none) :
    d.Obeys world (w.enqueueJob job world).2 := by
  have hr : d.Obeys world (world.record (.enqueued w job)):=.record world trivial
  have hl : w.discardSettings.getLimitAndMode≠none→∀job,d.Sheds job := by
    intro hso
    rcases hsh with hsh | hn
    · exact hsh
    · rw [hn] at hso
      exact absurd rfl hso
  unfold enqueueJob
  dsimp only
  refine hr.trans ?_
  split
  next hre =>
    refine Obeys.trans (.discard _ _ .loadshed job (hl ?_ job)) (.reject _ _)
    intro hn
    simp [refusesNewest,hn] at hre
  next =>
    refine (Obeys.accept _ job).trans ?_
    split
    · intro hs
      have hne:=d.chronicle.nextNonExpired (w.trackPendingKey job.taken.key).messageQueue
        (w.trackPendingKey job.taken.key) ((world.record (.enqueued w job)).accept job)
      have hli:=nextNonExpired_live (w.trackPendingKey job.taken.key).messageQueue
        (w.trackPendingKey job.taken.key) ((world.record (.enqueued w job)).accept job) hs
      unfold getNextNonExpiredJob
      generalize nextNonExpired (w.trackPendingKey job.taken.key).messageQueue
        (w.trackPendingKey job.taken.key) ((world.record (.enqueued w job)).accept job)=next
        at hne hli
      obtain ⟨_ | older,w',world'⟩:=next
      · exact hne.trans (w'.dispatchJob_obeys world' (d.live_taken job hj)) hs
      · exact hne.trans (dispatchJob_obeys _ world' (hli older rfl)) hs
    · split
      next hm => exact shedOldest_obeys (hl (by simp_all)) _ _ _ _
      next => exact .refl _

theorem workerComplete_obeys (key : Key) (world : World Key Msg) :
    d.Obeys world (w.workerComplete key world).2.2 := by
  unfold workerComplete
  split
  · exact .refl world
  · refine Obeys.trans ?_ (dispatchNext_obeys _ _)
    exact .record world trivial

theorem replaceWorker_obeys (nworker : ActorId) (world : World Key Msg) :
    d.Obeys world (w.replaceWorker nworker world).2 :=
  (d.chronicle.abandonJobs _ _ world).trans (dispatchNext_obeys _ _)

end WorkerProperties

/-! ### Routers -/

section Routers
variable [Hashable Key] {job : Job Key Msg} {pool : Pool Key Msg}

/-- Every worker of a pool sheds nothing, or sheds what may be shed. -/
def Discipline.Covers (d : Discipline Key Msg) (pool : Pool Key Msg) : Prop :=
  (∀job,d.Sheds job) ∨ ∀wid w,pool.lookup wid=some w → w.discardSettings=.none

theorem BareRouter.route_obeys (router : BareRouter Key Msg) (n : ℕ) (hint : Option WorkerId)
    (world : World Key Msg) (hj : d.Live job) (hs : d.Covers pool) :
    d.Obeys world (Router.routeMessage router job n hint pool world).world := by
  have hp:=router.choose_picks job n hint pool world
  rw [RoutesByChoice.route_eq]
  generalize Router.chooseTargetWorker router job n hint pool world=choice at hp
  refine (Obeys.of_log hp.clock hp.quiet.log).trans ?_
  unfold routeByChoice
  split
  next wid worker hf =>
    obtain ⟨wid',-,hl⟩:=Option.bind_eq_some_iff.mp hf
    obtain ⟨worker',hl,he⟩:=Option.map_eq_some_iff.mp hl
    cases he
    exact enqueueJob_obeys _ hj (hs.imp id fun h => h wid worker hl)
  next => exact .refl _

theorem BuiltInRouter.choose_obeys {L : Type} [RateLimiter L] (router : BuiltInRouter Key Msg L)
    (job : Job Key Msg) (n : ℕ) (hint : Option WorkerId) (pool : Pool Key Msg)
    (world : World Key Msg) :
    d.Obeys world (Router.chooseTargetWorker router job n hint pool world).world :=
  .of_log (router.choose_clock job n hint pool world) (LawfulRouter.choose_world ..).log

theorem BuiltInRouter.route_obeys {L : Type} [RateLimiter L] (router : BuiltInRouter Key Msg L)
    (n : ℕ) (hint : Option WorkerId) (world : World Key Msg) (hj : d.Live job)
    (hs : d.Covers pool) :
    d.Obeys world (Router.routeMessage router job n hint pool world).world := by
  cases router with
  | bare router => exact router.route_obeys n hint world hj hs
  | rateLimited limited =>
    have hi:=limited.router.route_obeys n hint world.tick hj hs
    change d.Obeys world (limited.routeMessage job n hint pool world).world
    unfold RateLimitedRouter.routeMessage
    refine (Obeys.tick world).trans ?_
    dsimp only
    split
    · split <;> exact hi
    · split <;> exact .refl _

end Routers
end Ractor.Factory
