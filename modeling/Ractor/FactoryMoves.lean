import Ractor.FactoryHousekeeping

/-!
# Elementary moves of a factory

`RoutingMove` is what happens between two points of a handler that neither touch the
set of workers nor a worker's active job from outside: a job is taken in hand, stored,
discarded or given to a worker its rule allows; the rest is housekeeping. `FactoryMove`
adds completions, replacements and the steps of a resize. Every handler is a chain of
such moves, so an invariant only has to be checked against the constructors. `hint` is the
worker hint the routing was started with.
-/

namespace Ractor.Factory
open LawfulRouter Router Queue

variable {Key Msg R Q : Type} [DecidableEq Key] [Router R Key Msg] [LawfulRouter R]
  [Queue Q Key Msg]

open LawfulQueue (contents)

/-- A factory state and the job that is in hand, on its way from one place to another. -/
abbrev Hand (Key Msg R Q : Type):=FactoryState Key Msg R Q × Option (Job Key Msg)

def Takes (queue : Q) (job : Job Key Msg) (rest : Q) : Prop :=
  popFront queue=some (job,rest) ∨ discardOldest queue=some (job,rest)

variable {job : Job Key Msg} {s s' : FactoryState Key Msg R Q}

omit [DecidableEq Key] in
theorem Takes.perm [LawfulQueue Q] {queue rest : Q} (h : Takes queue job rest) :
    (contents queue).Perm (job::contents rest) :=
  h.elim (fun h => .of_eq (LawfulQueue.popFront_some h)) LawfulQueue.discardOldest_some

inductive RoutingMove (H : Option HandlerId→Prop) (hint : Option WorkerId) :
    Hand Key Msg R Q→Hand Key Msg R Q→Prop where
  | quiet (s : FactoryState Key Msg R Q) (hand) {router : R} {world : World Key Msg}
      (hr : rule router=rule s.router) (hw : s.world.Quiet world) :
      RoutingMove H hint (s,hand) ({s with router:=router,world:=world},hand)
  | keep {s s' : FactoryState Key Msg R Q} (h : KeepingMove H s s') :
      RoutingMove H hint (s,none) (s',none)
  | note (s : FactoryState Key Msg R Q) (hand) {effect : Effect Key Msg} (h : effect.IsNote) :
      RoutingMove H hint (s,hand) ({s with world:=s.world.record effect},hand)
  | arrive (s : FactoryState Key Msg R Q) (job : Job Key Msg) :
      RoutingMove H hint (s,none)
        (s.arrived (job.numbered s.world.nextJob),some (job.numbered s.world.nextJob))
  | take (s : FactoryState Key Msg R Q) {job : Job Key Msg} {queue : Q}
      (h : Takes s.queue job queue) :
      RoutingMove H hint (s,none) ({s with queue:=queue},some job)
  | store (s : FactoryState Key Msg R Q) {job : Job Key Msg} {queue : Q}
      (h : pushBack s.queue job.taken=.ok queue) :
      RoutingMove H hint (s,some job) ({s with queue:=queue},none)
  | discard (s : FactoryState Key Msg R Q) (job : Job Key Msg) (reason : DiscardReason) :
      RoutingMove H hint (s,some job)
        ({s with world:=s.world.discard s.discardHandler reason job},none)
  | enqueue {s : FactoryState Key Msg R Q} {wid : WorkerId} {w : WorkerProperties Key Msg}
      {job : Job Key Msg} (hl : s.pool.lookup wid=some w)
      (ht : (rule s.router).Targets s.poolSize s.pool hint job.key wid w) :
      RoutingMove H hint (s,some job) ({s with
          pool:=s.pool.insert wid (w.enqueueJob job s.world).1
          world:=(w.enqueueJob job s.world).2},none)

abbrev Routing (H : Option HandlerId → Prop) (hint : Option WorkerId) :
    Hand Key Msg R Q → Hand Key Msg R Q → Prop :=
  Relation.ReflTransGen (RoutingMove H hint)

variable {H : Option HandlerId→Prop} {hint : Option WorkerId}

theorem Routing.preserves {P : Hand Key Msg R Q→Prop}
    (step : ∀a b,RoutingMove H hint a b→P a→P b) {a b : Hand Key Msg R Q}
    (h : Routing H hint a b) (ha : P a) : P b := by
  induction h with
  | refl => exact ha
  | tail _ hm ih => exact step _ _ hm ih

theorem Keeping.routing (h : Keeping H s s') : Routing H hint (s,none) (s',none) :=
  h.lift (·,none) fun _ _ hm => .keep hm

namespace FactoryState

/-! ### Small pieces -/

theorem quiet_routing (s : FactoryState Key Msg R Q) (hand : Option (Job Key Msg))
    {world : World Key Msg} (hw : s.world.Quiet world) :
    Routing H hint (s,hand) ({s with world:=world},hand) :=
  .single (.quiet s hand rfl hw)

theorem accept_routing (s : FactoryState Key Msg R Q) (hand : Option (Job Key Msg))
    (job : Job Key Msg) : Routing H hint (s,hand) ({s with world:=s.world.accept job},hand) := by
  unfold World.accept
  split
  · exact .single (.note s hand trivial)
  · exact .refl

theorem reject_routing (s : FactoryState Key Msg R Q) (hand : Option (Job Key Msg))
    (job : Job Key Msg) : Routing H hint (s,hand) ({s with world:=s.world.reject job},hand) := by
  unfold World.reject
  split
  · exact .single (.note s hand trivial)
  · exact .refl

theorem discardAndReject_routing (s : FactoryState Key Msg R Q) (reason : DiscardReason)
    (job : Job Key Msg) :
    Routing H hint (s,some job) (s.discardAndReject reason job,none) :=
  .head (.discard s job reason) (reject_routing _ none job)

/-! ### Dispatch -/

theorem shedQueue_routing (limit fuel : ℕ) (s : FactoryState Key Msg R Q) :
    Routing H hint (s,none) (shedQueue limit fuel s,none) := by
  induction fuel generalizing s with
  | zero => exact .refl
  | succ fuel ih =>
    unfold shedQueue
    split
    · cases hd : discardOldest s.queue with
      | none => exact ih s
      | some shed =>
        obtain ⟨job,queue⟩:=shed
        have ht : RoutingMove H hint (s,none) ({s with queue:=queue},some job) := .take s (.inr hd)
        exact .head ht (.head (.discard _ job .loadshed) (ih _))
    · exact .refl

theorem acceptIntoQueue_routing (h : s.acceptIntoQueue job=.ok s') :
    Routing H hint (s,some job) (s',none) := by
  unfold acceptIntoQueue at h
  cases hp : pushBack s.queue job.taken with
  | error e => simp [hp] at h
  | ok queue =>
    rw [hp] at h
    cases h
    exact .head (.store s hp) (accept_routing _ none job)

theorem maybeEnqueue_routing (h : s.maybeEnqueue job=.ok s') :
    Routing H hint (s,some job) (s',none) := by
  unfold maybeEnqueue at h
  split at h
  · split at h
    · cases h
      exact discardAndReject_routing s .loadshed job
    · exact acceptIntoQueue_routing h
  · cases ha : s.acceptIntoQueue job with
    | error e => simp [ha] at h
    | ok t =>
      rw [ha] at h
      cases h
      exact (acceptIntoQueue_routing ha).trans (shedQueue_routing _ _ t)
  · exact acceptIntoQueue_routing h

theorem dispatchNumbered_routing (h : s.dispatchNumbered job=.ok s') :
    Routing H none (s,some job) (s',none) := by
  refine (quiet_routing s _ s.world.quiet_tick).trans ?_
  unfold dispatchNumbered at h
  dsimp only at h
  split at h
  · cases h
    exact discardAndReject_routing _ .ttlExpired job
  · split at h
    · have ho:=route_outcome s.router job s.poolSize none s.pool s.world.tick
      have hr:=route_rule s.router job s.poolSize none s.pool s.world.tick
      generalize routeMessage s.router job s.poolSize none s.pool s.world.tick=routed at h ho hr
      obtain ⟨result,router,pool,world⟩:=routed
      cases ho with
      | handled quiet lookup targets =>
        cases h
        refine .head (.quiet _ _ hr quiet) (.single (.enqueue lookup ?_))
        rw [hr]
        exact targets
      | backlog quiet => exact .head (.quiet _ _ hr quiet) (maybeEnqueue_routing h)
      | rateLimited quiet =>
        cases h
        exact .head (.quiet _ _ hr quiet) (discardAndReject_routing _ .rateLimited job)
    · cases h
      exact discardAndReject_routing _ .shutdown job

theorem dispatch_routing (h : s.dispatch job=.ok s') : Routing H none (s,none) (s',none) :=
  .head (.arrive s job) (dispatchNumbered_routing h)

/-! ### Routing the backlog -/

variable [LawfulQueue Q]

theorem expireHead_routing (fuel : ℕ) (s : FactoryState Key Msg R Q) :
    Routing H hint (s,none) (expireHead fuel s,none) := by
  induction fuel generalizing s with
  | zero => exact .refl
  | succ fuel ih =>
    unfold expireHead
    cases hp : peek s.queue with
    | none => exact .refl
    | some head =>
      have ht : Routing H hint (s,none) ({s with world:=s.world.tick},none) :=
        quiet_routing s none s.world.quiet_tick
      dsimp only
      split
      · obtain ⟨queue,hq,hc⟩:=popFront_of_peek hp
        rw [hq]
        refine ht.trans (.head (.take _ (.inl hq)) ?_)
        exact (discardAndReject_routing _ .ttlExpired head).trans (ih _)
      · exact ht

/-- `head` is in front of the queue, and `rest` is the queue without it. -/
structure Pops (queue : Q) (head : Job Key Msg) (rest : Q) : Prop where
  peek : peek queue=some head
  popFront : popFront queue=some (head,rest)
  contents : contents queue=head::LawfulQueue.contents rest

/-- The routing loop, round by round: no fuel or no job is left, the head of the backlog has no
target, it is handed out, or a rate limiter turns it away and the loop goes on. -/
inductive HeadRouted (hint : Option WorkerId) :
    ℕ→FactoryState Key Msg R Q→FactoryState Key Msg R Q→Prop where
  | spent (s : FactoryState Key Msg R Q) : HeadRouted hint 0 s s
  | empty (fuel : ℕ) (s : FactoryState Key Msg R Q) (hp : peek s.queue=none) :
      HeadRouted hint (fuel+1) s s
  | untargeted (fuel : ℕ) {s : FactoryState Key Msg R Q} {head : Job Key Msg} {rest : Q}
      {choice : Choice R Key Msg} (hp : Pops s.queue head rest)
      (hchoice : chooseTargetWorker s.router head s.poolSize hint s.pool s.world=choice)
      (htarget : choice.target=none) :
      HeadRouted hint (fuel+1) s {s with router:=choice.router,world:=choice.world}
  | handled (fuel : ℕ) {s : FactoryState Key Msg R Q} {head : Job Key Msg} {rest : Q}
      {choice : Choice R Key Msg} {worker : WorkerId} {router : R} {pool : Pool Key Msg}
      {world : World Key Msg} (hp : Pops s.queue head rest)
      (hchoice : chooseTargetWorker s.router head s.poolSize hint s.pool s.world=choice)
      (htarget : choice.target=some worker)
      (hrouted : routeMessage choice.router head s.poolSize (some worker) s.pool
        choice.world=⟨.handled,router,pool,world⟩) :
      HeadRouted hint (fuel+1) s
        {s with queue:=rest,router:=router,pool:=pool,world:=world}
  | limited (fuel : ℕ) {s s' : FactoryState Key Msg R Q} {head job : Job Key Msg} {rest : Q}
      {choice : Choice R Key Msg} {worker : WorkerId} {router : R} {pool : Pool Key Msg}
      {world : World Key Msg} (hp : Pops s.queue head rest)
      (hchoice : chooseTargetWorker s.router head s.poolSize hint s.pool s.world=choice)
      (htarget : choice.target=some worker)
      (hrouted : routeMessage choice.router head s.poolSize (some worker) s.pool
        choice.world=⟨.rateLimited job,router,pool,world⟩)
      (hnext : HeadRouted hint fuel (discardAndReject
        {s with queue:=rest,router:=router,pool:=pool,world:=world} .rateLimited job)
        s') :
      HeadRouted hint (fuel+1) s s'

omit [DecidableEq Key] [LawfulRouter R] in
theorem routeHead_routed {fuel : ℕ} (h : routeHead hint fuel s=.ok s') :
    HeadRouted hint fuel s s' := by
  induction fuel generalizing s with
  | zero =>
    cases h
    exact .spent _
  | succ fuel ih =>
    unfold routeHead at h
    cases hp : peek s.queue with
    | none =>
      rw [hp] at h
      cases h
      exact .empty fuel _ hp
    | some head =>
      obtain ⟨rest,hq,hc⟩:=popFront_of_peek hp
      have hpo : Pops s.queue head rest:=⟨hp,hq,hc⟩
      rw [hp] at h
      dsimp only at h
      cases ht : (chooseTargetWorker s.router head s.poolSize hint s.pool s.world).target with
      | none =>
        rw [ht] at h
        cases h
        exact .untargeted fuel hpo rfl ht
      | some worker =>
        rw [ht,hq] at h
        dsimp only at h
        generalize hch : chooseTargetWorker s.router head s.poolSize hint s.pool
          s.world=choice at h ht
        generalize hr : routeMessage choice.router head s.poolSize (some worker) s.pool
          choice.world=routed at h
        obtain ⟨result,router,pool,world⟩:=routed
        cases result with
        | handled =>
          cases h
          exact .handled fuel hpo hch ht hr
        | backlog => cases h
        | rateLimited => exact .limited fuel hpo hch ht hr (ih h)

section Round
variable {head : Job Key Msg} {choice : Choice R Key Msg} {worker : WorkerId} {router : R}
  {pool : Pool Key Msg} {world : World Key Msg}

omit [Queue Q Key Msg] [LawfulQueue Q] in
/-- The head of the backlog goes to a worker that the rule allows under the hint. -/
theorem handled_outcome
    (hc : chooseTargetWorker s.router head s.poolSize hint s.pool s.world=choice)
    (ht : choice.target=some worker)
    (hr : routeMessage choice.router head s.poolSize (some worker) s.pool
      choice.world=⟨.handled,router,pool,world⟩) :
    rule router=rule s.router ∧ ∃wid w world',s.world.Quiet world' ∧ s.pool.lookup wid=some w ∧
        (rule s.router).Targets s.poolSize s.pool hint head.key wid w ∧
        pool=s.pool.insert wid (w.enqueueJob head world').1 ∧
        world=(w.enqueueJob head world').2 := by
  have hcw:=choose_world s.router head s.poolSize hint s.pool s.world
  have hcr:=choose_rule s.router head s.poolSize hint s.pool s.world
  have hct := @choose_target R Key Msg _ _ _ s.router head s.poolSize hint s.pool s.world
  rw [hc] at hcw hcr hct
  obtain ⟨w,hl,hf⟩:=hct ht
  have hrr:=route_rule choice.router head s.poolSize (some worker) s.pool choice.world
  have ho:=route_outcome choice.router head s.poolSize (some worker) s.pool choice.world
  rw [hr] at hrr ho
  cases ho with
  | @handled wid' w' world' quiet lookup targets =>
    rw [hcr] at targets
    exact ⟨hrr.trans hcr,wid',w',world',hcw.trans quiet,lookup,
      RoutingRule.targets_compose _ hl hf targets,rfl,rfl⟩

omit [Queue Q Key Msg] [LawfulQueue Q] in
/-- A rate limiter hands the head of the backlog back. -/
theorem limited_outcome
    (hc : chooseTargetWorker s.router head s.poolSize hint s.pool s.world=choice)
    (hr : routeMessage choice.router head s.poolSize (some worker) s.pool
      choice.world=⟨.rateLimited job,router,pool,world⟩) :
    job=head ∧ pool=s.pool ∧ rule router=rule s.router ∧ s.world.Quiet world := by
  have hcw:=choose_world s.router head s.poolSize hint s.pool s.world
  have hcr:=choose_rule s.router head s.poolSize hint s.pool s.world
  rw [hc] at hcw hcr
  have hrr:=route_rule choice.router head s.poolSize (some worker) s.pool choice.world
  have ho:=route_outcome choice.router head s.poolSize (some worker) s.pool choice.world
  rw [hr] at hrr ho
  cases ho with
  | rateLimited quiet => exact ⟨rfl,rfl,hrr.trans hcr,hcw.trans quiet⟩

end Round

theorem routeHead_routing {fuel : ℕ} (h : routeHead hint fuel s=.ok s') :
    Routing H hint (s,none) (s',none) := by
  replace h:=routeHead_routed h
  induction h with
  | spent | empty => exact .refl
  | @untargeted _ s head _ choice _ hc _ =>
    subst hc
    exact .single (.quiet s none (choose_rule ..) (choose_world ..))
  | @handled _ s _ _ _ _ _ _ _ hp hc hta hr =>
    obtain ⟨hru,wid,w,world,hq,hl,ht,rfl,rfl⟩ := handled_outcome hc hta hr
    refine .head (.take s (.inl hp.popFront)) (.head (.quiet _ _ hru hq) (.single ?_))
    refine .enqueue hl ?_
    rwa [hru]
  | @limited _ s _ head _ _ _ _ _ _ _ hp hc _ hr _ ih =>
    obtain ⟨rfl,rfl,hru,hq⟩:=limited_outcome hc hr
    refine .head (.take s (.inl hp.popFront)) (.head (.quiet _ _ hru hq) ?_)
    exact (discardAndReject_routing _ .rateLimited _).trans ih

theorem tryRouteNextActiveJob_routing (h : s.tryRouteNextActiveJob hint=.ok s') :
    Routing H hint (s,none) (s',none) :=
  (expireHead_routing _ s).trans (routeHead_routing h)

theorem routeBacklog_routing {rounds : ℕ} (h : routeBacklog rounds s=.ok s') :
    Routing H none (s,none) (s',none) := by
  induction rounds generalizing s with
  | zero =>
    cases h
    exact .refl
  | succ rounds ih =>
    unfold routeBacklog at h
    split at h
    · cases h
      exact .refl
    · cases hs : s.tryRouteNextActiveJob none with
      | error e => simp [hs] at h
      | ok t =>
        rw [hs] at h
        exact (tryRouteNextActiveJob_routing hs).trans (ih h)

theorem routeToFreed_routing {wid : WorkerId} (h : s.routeToFreed wid=.ok s') :
    Routing H (some wid) (s,none) (s',none) := by
  unfold routeToFreed at h
  cases hs : s.tryRouteNextActiveJob (some wid) with
  | error e => simp [hs] at h
  | ok t =>
    rw [hs] at h
    have hr : Routing H (some wid) (s,none) (t,none):=tryRouteNextActiveJob_routing hs
    dsimp only at h
    split at h
    · cases h
      exact hr.tail (.quiet t none (availability_rule _ _ _) (.refl _))
    · cases h
      exact hr

end FactoryState
end Ractor.Factory
