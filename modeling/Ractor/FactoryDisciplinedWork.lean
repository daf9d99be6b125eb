import Ractor.FactoryDiscipline

/-!
# Factories under a discipline

A factory tests jobs for expiry on arrival and at the head of its queue. What it does not test is
left as a condition on its queue: a job has to be live if the rate limiter is going to turn away all
jobs in front of it, and the jobs that are first in line to be shed have to be such as may be shed.
`handleEvent_obeys` is the result for a whole message.
-/

namespace Ractor.Factory
open Queue Router List

variable {Key Msg : Type} {d : Discipline Key Msg}

open LawfulQueue (contents)
open WorkerProperties
open Discipline (Obeys)

/-! ### Jobs that are taken off the queue -/

/-- The limiter turns the next `n` jobs away, if they all come now. -/
def RateLimiter.rejects {L : Type} [RateLimiter L] (now : Instant) : ℕ → L → Bool
  | 0,_ => true
  | n+1,limiter => !(check limiter now).1 && rejects now n (check limiter now).2

def BuiltInRouter.rejects {L : Type} [RateLimiter L] (now : Instant) (n : ℕ) :
    BuiltInRouter Key Msg L → Bool
  | .bare _ => n == 0
  | .rateLimited limited => RateLimiter.rejects now n limited.rateLimiter

/-- A job is live if the router may turn away all the jobs in front of it. -/
def Discipline.Shelters {L : Type} [RateLimiter L] (d : Discipline Key Msg)
    (router : BuiltInRouter Key Msg L) (jobs : List (Job Key Msg)) : Prop :=
  ∀p∈jobs.zipIdx,(∀now∈d.now,router.rejects now p.2=true) → d.Live p.1

section Rejecting
variable {L : Type} [RateLimiter L] {router : BuiltInRouter Key Msg L}

theorem Discipline.Shelters.head {job : Job Key Msg} {rest : List (Job Key Msg)}
    (h : d.Shelters router (job::rest)) : d.Live job := by
  refine h (job,0) (by simp) fun now _ => ?_
  cases router <;> rfl

variable [DecidableEq Key] [Hashable Key] {job job' : Job Key Msg} {n : ℕ} {hint : Option WorkerId}
  {pool pool' : Pool Key Msg} {world world' : World Key Msg}

theorem BuiltInRouter.rejects_choose (router : BuiltInRouter Key Msg L) (now : Instant) (k : ℕ) :
    (chooseTargetWorker router job n hint pool world).router.rejects now k =
      router.rejects now k := by
  cases router <;> rfl

theorem BareRouter.route_ne_rateLimited (router : BareRouter Key Msg) (job job' : Job Key Msg)
    (n : ℕ) (hint : Option WorkerId) (pool : Pool Key Msg) (world : World Key Msg) :
    (routeMessage router job n hint pool world).result≠.rateLimited job' := by
  rw [RoutesByChoice.route_eq]
  unfold routeByChoice
  split <;> nofun

/-- A job that is turned away is the first of those the router rejects. -/
theorem BuiltInRouter.rejects_succ {router' : BuiltInRouter Key Msg L}
    (h : routeMessage router job n hint pool world=⟨.rateLimited job',router',pool',world'⟩)
    (k : ℕ) : router.rejects world.now (k+1)=router'.rejects world.now k := by
  cases router with
  | bare router => exact absurd (congrArg Routed.result h) (router.route_ne_rateLimited _ _ _ _ _ _)
  | rateLimited limited =>
    have hi:=limited.router.route_ne_rateLimited job job' n hint pool world.tick
    change (limited.routeMessage job n hint pool world).mapRouter _=_ at h
    unfold RateLimitedRouter.routeMessage at h
    dsimp only at h
    split at h
    · generalize routeMessage limited.router job n hint pool world.tick=routed at h hi
      split at h
      · cases h
      · exact absurd (congrArg Routed.result h) hi
    next hc => split at h <;> cases h <;> simp [rejects,RateLimiter.rejects,hc]

end Rejecting

/-- `Shelters` for a routing attempt, once expired jobs are gone from the head of the queue. -/
def Attempt.Shelters {L Q : Type} [RateLimiter L] [Queue Q Key Msg] [LawfulQueue Q]
    (d : Discipline Key Msg) (attempt : Attempt Key Msg (BuiltInRouter Key Msg L) Q) : Prop :=
  d.Shelters attempt.state.router
    (FactoryState.liveBacklog attempt.state.world.oracle.clock (contents attempt.state.queue))

section Queues
variable {R Q : Type} [Queue Q Key Msg] {s s' : FactoryState Key Msg R Q} {job : Job Key Msg}

/-- The jobs that `discard_oldest` takes off the queue to get it down to a limit may be shed. -/
def Discipline.Yields (d : Discipline Key Msg) (limit : ℕ) (queue : Q) : Prop :=
  ∃I : Q → Prop,I queue ∧ ∀q job q',I q → limit<len q → discardOldest q=some (job,q') →
    d.Sheds job ∧ I q'

/-- What is shed when a job comes to the queue may be shed. -/
def Discipline.YieldsTo (d : Discipline Key Msg) (settings : DiscardSettings) (queue : Q)
    (job : Job Key Msg) : Prop :=
  match settings.getLimitAndMode with
  | some (_,.newest) => isJobDiscardable queue job.key=true → d.Sheds job
  | some (limit,.oldest) => ∀queue',pushBack queue job.taken=.ok queue' → d.Yields limit queue'
  | none => True

theorem Discipline.YieldsTo.of_sheds (h : ∀job,d.Sheds job) (settings : DiscardSettings) (queue : Q)
    (job : Job Key Msg) : d.YieldsTo settings queue job := by
  unfold YieldsTo
  split
  · exact fun _ => h job
  · exact fun _ _ => ⟨fun _ => True,trivial,fun _ job _ _ _ _ => ⟨h job,trivial⟩⟩
  · trivial

theorem QueueInvariant.trivial {Q : Type} [Queue Q Key Msg] : QueueInvariant fun _ : Q => True :=
  ⟨fun _ _ => True.intro,fun _ _ => True.intro,fun _ _ => True.intro,fun _ _ _ _ => True.intro⟩

namespace FactoryState

omit [Queue Q Key Msg] in
theorem discardAndReject_obeys (s : FactoryState Key Msg R Q) {reason : DiscardReason}
    (h : d.Allows reason job) : d.Obeys s.world (s.discardAndReject reason job).world :=
  (Obeys.discard _ _ reason job h).trans (.reject _ job)

theorem expireHead_obeys (fuel : ℕ) (s : FactoryState Key Msg R Q) :
    d.Obeys s.world (expireHead fuel s).world := by
  induction fuel generalizing s with
  | zero => exact .refl _
  | succ fuel ih =>
    unfold expireHead
    split
    · exact .refl _
    · split
      · split
        · exact .tick _
        next job queue _ =>
          refine Obeys.trans ?_ (ih _)
          exact (Obeys.expire s.world _ job).trans (.reject _ job)
      · exact .tick _

theorem shedQueue_obeys {limit : ℕ} (fuel : ℕ) {s : FactoryState Key Msg R Q}
    (h : d.Yields limit s.queue) : d.Obeys s.world (shedQueue limit fuel s).world := by
  obtain ⟨I,hi,hs⟩:=h
  induction fuel generalizing s with
  | zero => exact .refl _
  | succ fuel ih =>
    unfold shedQueue
    split
    next hlt =>
      cases hd : discardOldest s.queue with
      | none => exact ih hi
      | some popped =>
        obtain ⟨job,queue⟩:=popped
        obtain ⟨hj,hq⟩:=hs s.queue job queue hi hlt hd
        refine Obeys.trans ?_ (ih hq)
        exact .discard _ _ .loadshed job hj
    next => exact .refl _

theorem maybeEnqueue_obeys (h : s.maybeEnqueue job=.ok s')
    (hs : d.YieldsTo s.discardSettings s.queue job) : d.Obeys s.world s'.world := by
  have ha : ∀t,s.acceptIntoQueue job=.ok t→d.Obeys s.world t.world ∧
      pushBack s.queue job.taken=.ok t.queue := by
    intro t ht
    unfold acceptIntoQueue at ht
    split at ht
    · cases ht
    next hp =>
      cases ht
      exact ⟨.accept _ job,hp⟩
  unfold maybeEnqueue at h
  unfold Discipline.YieldsTo at hs
  split at h
  next limit hm =>
    rw [hm] at hs
    split at h
    next hr =>
      cases h
      have hshed : d.Allows .loadshed job:=hs (Bool.and_eq_true_iff.mp hr).1
      exact discardAndReject_obeys s hshed
    next => exact (ha s' h).1
  next limit hm =>
    rw [hm] at hs
    split at h
    · cases h
    next t ht =>
      cases h
      obtain ⟨ho,hp⟩:=ha t ht
      exact ho.trans (shedQueue_obeys _ (hs t.queue hp))
  next => exact (ha s' h).1

theorem starts_obeys [LawfulQueue Q] [Router R Key Msg] {args : FactoryArguments R Q}
    (h : Starts args s) :
    ∃oracle firstPid firstJob,
      d.Obeys (initial (R:=R) (Q:=Q) args oracle firstPid firstJob).world s.world := by
  obtain ⟨oracle,firstPid,firstJob,-,hs⟩:=h
  refine ⟨oracle,firstPid,firstJob,?_⟩
  exact preStart_rec (P:=fun _ t =>
      d.Obeys (initial args oracle firstPid firstJob : FactoryState Key Msg R Q).world t.world) hs
    (fun _ _ _ ht ha => ht.trans (d.chronicle.addWorker ha))
    (fun _ t ht => ht.trans (d.chronicle.pingWorkers t)) (.refl _)

end FactoryState
end Queues

/-! ### The work of a factory -/

/-- Every worker of the factory, present or future, sheds nothing or sheds what may be shed. -/
def Discipline.CoversStaff {R Q : Type} [Router R Key Msg] (d : Discipline Key Msg)
    (s : FactoryState Key Msg R Q) : Prop :=
  (∀job,d.Sheds job) ∨ isFactoryQueueing s.router=true ∧ Unshedding s

theorem Discipline.CoversStaff.covers {R Q : Type} [Router R Key Msg]
    {s : FactoryState Key Msg R Q} (h : d.CoversStaff s) : d.Covers s.pool :=
  h.imp id And.right

variable [DecidableEq Key]

theorem Discipline.CoversStaff.upkeep {R Q : Type} [Router R Key Msg] [LawfulRouter R]
    [QueueingByRule R] {I : Q→Prop} {s s' : FactoryState Key Msg R Q} (h : d.CoversStaff s)
    (hu : Upkeep I s s') : d.CoversStaff s' := by
  refine h.imp id fun ⟨hr,hs⟩ => ⟨?_,hu.unshedding hr hs⟩
  rw [QueueingByRule.queueing_eq hu.rule,hr]

section Moves
variable {R Q : Type} [Router R Key Msg] [LawfulRouter R] [QueueingByRule R] [Queue Q Key Msg]
  {s s' : FactoryState Key Msg R Q} {H : Option HandlerId→Prop}

theorem Discipline.CoversStaff.routing {hint : Option WorkerId} (h : d.CoversStaff s)
    (hr : Routing H hint (s,none) (s',none)) : d.CoversStaff s' :=
  h.upkeep (hr.upkeep QueueInvariant.trivial)

theorem Discipline.CoversStaff.moves [LawfulQueue Q] (h : d.CoversStaff s)
    (hm : FactoryMoves H s s') (hc : WorkersConsistent s) : d.CoversStaff s' :=
  h.upkeep (hm.upkeep QueueInvariant.trivial hc)

end Moves

namespace FactoryState

section Staff
variable {R Q : Type} {s s' : FactoryState Key Msg R Q}

theorem completeJob_obeys (s : FactoryState Key Msg R Q) (who : WorkerId) (key : Key) :
    d.Obeys s.world (s.completeJob who key).world := by
  unfold completeJob
  split
  · exact .refl _
  next worker _ => exact worker.workerComplete_obeys key s.world

theorem replaceExited_obeys [Router R Key Msg] [Queue Q Key Msg] [LawfulQueue Q]
    {who : ActorId} {wid : WorkerId} {worker : WorkerProperties Key Msg} (h : s.replaceExited who wid worker=.ok s') :
    d.Obeys s.world s'.world := by
  obtain ⟨replacement,world,hs,hk⟩:=replaceExited_kept (H:=fun _ => True) h
  have hr : d.Obeys s.world (worker.replaceWorker replacement world).2 :=
    (d.chronicle.spawn hs).trans (worker.replaceWorker_obeys replacement world)
  exact hr.trans (d.chronicle.keeping hk)

end Staff

variable {L Q : Type} [Hashable Key] [RateLimiter L] [Queue Q Key Msg]
  {s s' : FactoryState Key Msg (BuiltInRouter Key Msg L) Q} {hint : Option WorkerId}
  {job : Job Key Msg}

theorem dispatchNumbered_obeys (h : s.dispatchNumbered job=.ok s')
    (hsh : job.isExpired s.world.now=false→s.drainState=.notDraining →
      d.YieldsTo s.discardSettings s.queue job) (hc : d.CoversStaff s) :
    d.Obeys s.world s'.world := by
  intro hs
  unfold dispatchNumbered at h
  dsimp only at h
  have ht : d.Obeys s.world s.world.tick:=.tick s.world
  have hd : ∀reason,d.Allows reason job →
      d.Obeys s.world (discardAndReject {s with world:=s.world.tick} reason job).world :=
    fun _ ha => ht.trans (discardAndReject_obeys {s with world:=s.world.tick} ha)
  split at h
  · cases h
    exact hd .ttlExpired trivial hs
  next he =>
    have he : job.isExpired s.world.now=false := by simpa using he
    have hl : d.Live job:=hs.2 0 job he
    split at h
    next hdr =>
      have hr:=ht.trans (s.router.route_obeys s.poolSize none s.world.tick hl hc.covers)
      have ho:=LawfulRouter.route_outcome s.router job s.poolSize none s.pool s.world.tick
      generalize routeMessage s.router job s.poolSize none s.pool s.world.tick=routed at h hr ho
      obtain ⟨result,router,pool,world⟩:=routed
      cases ho with
      | handled =>
        cases h
        exact hr hs
      | rateLimited =>
        cases h
        have hra : d.Allows .rateLimited job:=hl
        exact (hr.trans (discardAndReject_obeys {s with router:=router,world:=world} hra)) hs
      | backlog => exact (hr.trans (maybeEnqueue_obeys h (hsh he hdr))) hs
    next =>
      cases h
      exact hd .shutdown hl hs

theorem dispatch_obeys (h : s.dispatch job=.ok s')
    (hs : job.isExpired s.world.now=false→s.drainState=.notDraining →
      d.YieldsTo s.discardSettings s.queue (job.numbered s.world.nextJob)) (hc : d.CoversStaff s) :
    d.Obeys s.world s'.world := by
  have ha : d.Obeys s.world (s.arrived (job.numbered s.world.nextJob)).world :=
    .writes rfl ⟨[.dispatched (job.numbered s.world.nextJob)],rfl,by simp [Discipline.Permits]⟩
  exact ha.trans (dispatchNumbered_obeys h hs hc)

variable [LawfulQueue Q]

theorem routeHead_obeys {fuel : ℕ} (h : routeHead hint fuel s=.ok s')
    (hl : d.Shelters s.router (contents s.queue)) (hco : d.CoversStaff s) :
    d.Obeys s.world s'.world := by
  replace h:=routeHead_routed h
  induction h with
  | spent | empty => exact .refl _
  | @untargeted _ s head _ choice _ hc _ =>
    subst hc
    exact s.router.choose_obeys head s.poolSize hint s.pool s.world
  | @handled _ s head rest choice worker _ _ _ hp hc ht hr =>
    rw [hp.contents] at hl
    have hro:=choice.router.route_obeys s.poolSize (some worker) choice.world hl.head hco.covers
    rw [hr] at hro
    subst hc
    exact (s.router.choose_obeys head s.poolSize hint s.pool s.world).trans hro
  | @limited fuel s _ _ head rest choice worker router _ world hp hc ht hr _ ih =>
    obtain ⟨rfl,rfl,hru,-⟩:=limited_outcome hc hr
    rw [hp.contents] at hl
    have hh:=hl.head
    have hro:=choice.router.route_obeys s.poolSize (some worker) choice.world hh hco.covers
    rw [hr] at hro
    have hn : d.CoversStaff (discardAndReject
        {s with queue:=rest,router:=router,world:=world} .rateLimited head) :=
      hco.upkeep (I:=fun _ : Q => True) (.of_pool id hru rfl)
    intro hs
    have hd:=hro.trans (.discard _ s.discardHandler .rateLimited head hh)
    refine Obeys.trans ?_ (ih ?_ hn) hs
    · subst hc
      exact (s.router.choose_obeys head s.poolSize hint s.pool s.world).trans
        (hd.trans (.reject _ head))
    · -- one more job of the queue has been turned away
      rintro ⟨job,i⟩ hm hrej
      refine hl (job,i+1) ?_ fun now hnow => ?_
      · rw [mk_mem_zipIdx_iff_getElem?] at hm ⊢
        exact hm
      · have hat : choice.world.now=now := by
          rw [← hs.1 now hnow 0,← hc]
          exact congrFun (s.router.choose_clock head s.poolSize hint s.pool s.world) 0
        have hsu:=BuiltInRouter.rejects_succ hr i
        rw [hat,← hc,BuiltInRouter.rejects_choose] at hsu
        exact hsu.trans (hrej now hnow)

/-- The jobs that an attempt routes after rate limited ones are live. -/
theorem tryRouteNextActiveJob_obeys {later : ℕ} (h : s.tryRouteNextActiveJob hint=.ok s')
    (hl : Attempt.Shelters d ⟨hint,later,s⟩) (hco : d.CoversStaff s) : d.Obeys s.world s'.world := by
  have hr : Routing (fun _ => True) hint (s,none) (expireHead (len s.queue) s,none) :=
    expireHead_routing _ s
  refine (expireHead_obeys (len s.queue) s).trans (routeHead_obeys h ?_ (hco.routing hr))
  unfold Attempt.Shelters at hl
  rwa [expireHead_contents _ s (LawfulQueue.len_eq s.queue).ge,(expireHead_housekeeping _ s).router]

/-! ### Whole messages -/

theorem work_obeys {work : Work Key Msg} (h : s.work work=.ok s')
    (hw : ∀job,work≠.dispatch job) (hl : ∀attempt∈s.attempts work,attempt.Shelters d)
    (hco : d.CoversStaff s) (hc : WorkersConsistent s) : d.Obeys s.world s'.world :=
  work_rec (I:=fun t => d.Obeys s.world t.world) (s.completeJob_obeys)
    (fun _ _ _ _ _ ht => ht.trans (.record _ trivial)) (fun _ _ _ _ _ _ => replaceExited_obeys)
    (fun _ _ => d.chronicle.growPool) (d.chronicle.shrinkPool s)
    (fun _ _ _ _ hg hm hr ht => ht.trans (tryRouteNextActiveJob_obeys hr hg (hco.moves hm hc)))
    (fun _ _ _ _ hw ht => hw ▸ ht) (.refl _) h hw hl

/-- What a piece of work asks of a discipline: the jobs that may be routed after rate limited ones are
live, and the jobs that the queue sheds for another one may be shed. -/
structure Suits (d : Discipline Key Msg)
    (s : FactoryState Key Msg (BuiltInRouter Key Msg L) Q) (work : Work Key Msg) : Prop where
  live : ∀attempt∈s.attempts work,attempt.Shelters d
  sheds : ∀job,work=.dispatch job → job.isExpired s.world.now=false →
    s.drainState=.notDraining → d.YieldsTo s.discardSettings s.queue (job.numbered s.world.nextJob)

/-- A handled event obeys a discipline that suits the work it asks for. -/
theorem handleEvent_obeys {event : FactoryEvent Key Msg} (h : s.handleEvent event=.ok s')
    (hs : ∀a work,s.workOf event=some (a,work) → Suits d a work)
    (hco : d.CoversStaff s) (hc : WorkersConsistent s) : d.Obeys s.world s'.world := by
  refine d.chronicle.handleEvent h fun a work b ha hk hb => ?_
  have hw:=hs a work ha
  have hco : d.CoversStaff a:=hco.routing (hk.routing : Routing _ none _ _)
  by_cases hd : ∃job,work=.dispatch job
  · obtain ⟨job,rfl⟩:=hd
    exact dispatch_obeys hb (hw.sheds job rfl) hco
  · exact work_obeys hb (fun job hjob => hd ⟨job,hjob⟩) hw.live hco
      (hk.housekeeping.workersConsistent hc)

end FactoryState
end Ractor.Factory
