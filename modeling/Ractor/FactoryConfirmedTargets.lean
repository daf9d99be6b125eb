import Ractor.FactoryRoutingAttempts

/-!
# A chosen target is confirmed

`try_route_next_active_job` asks the router for a target, pops the job and routes it with the
target as the hint, which makes the router choose again. A second choice without a target would
be a panic. It does not happen: the pool contains every worker id below the pool size, and each
router accepts its own first choice as a hint or falls back to such an id.
-/

namespace Ractor.Factory
open Router Option FactoryState

variable {Key Msg L P : Type} [RateLimiter L] [Priority P]

open LawfulQueue (contents)

def Pool.Covers (pool : Pool Key Msg) (poolSize : ℕ) : Prop :=
  ∀wid : ℕ,wid<poolSize → ∃w,pool.lookup wid=some w

theorem FactoryState.spawn_confirmed (world : World Key Msg) (wid : WorkerId) :
    world.spawn wid≠.error .backlogAfterTarget := by
  unfold World.spawn
  split <;> nofun

/-! ### Errors of the queue -/

namespace FactoryState

section Errors
variable {R : Type} {s : FactoryState Key Msg R (BuiltInQueue Key Msg P)} {job : Job Key Msg}
  {e : FactoryError}

theorem acceptIntoQueue_error (h : s.acceptIntoQueue job=.error e) : e=.priorityOutOfRange := by
  unfold acceptIntoQueue at h
  split at h
  next hp =>
    cases h
    cases hq : s.queue with
    | default queue => simp [hq,Queue.pushBack,Except.map] at hp
    | priority queue =>
      simp only [hq,Queue.pushBack] at hp
      split at hp
      · cases hp
      · cases hp
        rfl
  next => cases h

theorem maybeEnqueue_error (h : s.maybeEnqueue job=.error e) : e=.priorityOutOfRange := by
  unfold maybeEnqueue at h
  split at h
  · split at h
    · cases h
    · exact acceptIntoQueue_error h
  · split at h
    next ha =>
      cases h
      exact acceptIntoQueue_error ha
    next => cases h
  · exact acceptIntoQueue_error h

/-- A dispatch fails only where the index of the priority is out of range. -/
theorem dispatch_error [Router R Key Msg] (h : s.dispatch job=.error e) : e=.priorityOutOfRange := by
  unfold dispatch dispatchNumbered at h
  dsimp only at h
  split at h
  · cases h
  · split at h
    · split at h
      · cases h
      · cases h
      · exact maybeEnqueue_error h
    · cases h

end Errors
end FactoryState

/-! ### The second choice -/

section Choices
variable {poolSize : ℕ} {hint : Option WorkerId} {pool : Pool Key Msg} {job : Job Key Msg}
  {world : World Key Msg} {wid : WorkerId} {w : WorkerProperties Key Msg}

theorem filter_lookup (hl : pool.lookup wid=some w) :
    ((some wid).filter fun wid => (pool.lookup wid).isSome)=some wid := by
  rw [filter_some,if_pos]
  rw [hl]
  rfl

theorem QueuerRouting.choose_hinted (router : QueuerRouting Key Msg)
    (hl : pool.lookup wid=some w) (ha : w.isAvailable=true) :
    (router.chooseTargetWorker job poolSize (some wid) pool world).target≠none := by
  unfold chooseTargetWorker
  rw [hintedWorker_eq ((any_eq_true _ _).mpr ⟨w,hl,ha⟩)]
  nofun

theorem StickyQueuerRouting.choose_hinted [DecidableEq Key] (router : StickyQueuerRouting Key Msg)
    (hl : pool.lookup wid=some w)
    (hw : w.isProcessingKey job.key=true ∨ w.isAvailable=true) :
    (router.chooseTargetWorker job poolSize (some wid) pool world).target≠none := by
  unfold chooseTargetWorker
  split
  · rintro ⟨⟩
  next hn =>
    split
    · rintro ⟨⟩
    · rcases hw with hp | ha
      · rw [hintedWorker_eq ((any_eq_true _ _).mpr ⟨w,hl,hp⟩)] at hn
        cases hn
      · rw [hintedWorker_eq ((any_eq_true _ _).mpr ⟨w,hl,ha⟩)]
        rintro ⟨⟩

theorem RoundRobinRouting.choose_covered (router : RoundRobinRouting Key Msg)
    (hc : pool.Covers poolSize) (hn : poolSize≠0) :
    (router.chooseTargetWorker job poolSize hint pool world).target≠none := by
  unfold chooseTargetWorker
  rw [if_neg hn]
  split
  · rintro ⟨⟩
  · obtain ⟨w,hl⟩:=hc _ (router.nextWorker_lt hn)
    dsimp only
    rw [filter_lookup hl]
    rintro ⟨⟩

theorem CustomRouting.choose_covered (router : CustomRouting Key Msg)
    (hc : pool.Covers poolSize) (hn : poolSize≠0) :
    (router.chooseTargetWorker job poolSize hint pool world).target≠none := by
  unfold chooseTargetWorker
  rw [if_neg hn]
  obtain ⟨w,hl⟩:=hc _ (Nat.mod_lt (router.hasher job.key poolSize) (Nat.pos_of_ne_zero hn))
  dsimp only
  rw [filter_lookup hl]
  nofun

variable [DecidableEq Key] [Hashable Key]

theorem KeyPersistentRouting.choose_hinted (router : KeyPersistentRouting Key Msg)
    (hl : pool.lookup wid=some w) :
    (router.chooseTargetWorker job poolSize (some wid) pool world).target≠none := by
  unfold chooseTargetWorker
  split
  · nofun
  · rw [filter_lookup hl]
    nofun

/-- With its first choice as the hint, a router chooses again. -/
theorem BareRouter.choose_again (router : BareRouter Key Msg) (hc : pool.Covers poolSize)
    (h : (chooseTargetWorker router job poolSize hint pool world).target=some wid)
    (world' : World Key Msg) :
    (chooseTargetWorker (chooseTargetWorker router job poolSize hint pool world).router job poolSize
      (some wid) pool world').target≠none := by
  obtain ⟨w,hl,ht⟩:=LawfulRouter.choose_target router job poolSize hint pool world h
  cases router with
  | keyPersistent router =>
    exact (router.chooseTargetWorker job poolSize hint pool world).router.choose_hinted hl
  | queuer router =>
    exact (router.chooseTargetWorker job poolSize hint pool world).router.choose_hinted hl ht.1
  | stickyQueuer router =>
    exact (router.chooseTargetWorker job poolSize hint pool world).router.choose_hinted hl
      (ht.imp id fun h => h.2.1)
  | roundRobin router | custom router =>
    refine (router.chooseTargetWorker job poolSize hint pool world).router.choose_covered hc ?_
    rintro rfl
    cases h

theorem BareRouter.route_confirmed (router : BareRouter Key Msg) (hc : pool.Covers poolSize)
    (h : (chooseTargetWorker router job poolSize hint pool world).target=some wid)
    (world' : World Key Msg) (returned : Job Key Msg) :
    (routeMessage (chooseTargetWorker router job poolSize hint pool world).router job poolSize
      (some wid) pool world').result≠.backlog returned := by
  rcases routeMessage_cases (chooseTargetWorker router job poolSize hint pool world).router
    job poolSize (some wid) pool world' with ⟨_,_,_,_,_,_,hr,_⟩ | ⟨hn,_⟩
  · rw [hr]
    nofun
  · exact absurd hn (router.choose_again hc h world')

theorem RateLimitedRouter.route_confirmed (limited : RateLimitedRouter (BareRouter Key Msg) L)
    (hc : pool.Covers poolSize)
    (h : (Router.chooseTargetWorker limited job poolSize hint pool world).target=some wid)
    (world' : World Key Msg) (returned : Job Key Msg) :
    (Router.routeMessage (Router.chooseTargetWorker limited job poolSize hint pool world).router job
      poolSize
      (some wid) pool world').result≠.backlog returned := by
  have hi:=limited.router.route_confirmed hc h world'.tick
  change (RateLimitedRouter.routeMessage ⟨(chooseTargetWorker limited.router job poolSize hint
    pool world).router,limited.rateLimiter⟩ job poolSize (some wid) pool world').result≠_
  unfold RateLimitedRouter.routeMessage
  dsimp only
  split
  · split
    · rintro ⟨⟩
    · exact hi returned
  · split <;> rintro ⟨⟩

theorem BuiltInRouter.route_confirmed (router : BuiltInRouter Key Msg L) (hc : pool.Covers poolSize)
    (h : (chooseTargetWorker router job poolSize hint pool world).target=some wid)
    (world' : World Key Msg) (returned : Job Key Msg) :
    (routeMessage (chooseTargetWorker router job poolSize hint pool world).router job poolSize
      (some wid) pool world').result≠.backlog returned := by
  cases router with
  | bare router | rateLimited router => exact router.route_confirmed hc h world' returned

end Choices

/-! ### The routing loop -/

variable [DecidableEq Key] [Hashable Key]

namespace FactoryState

section Loop
variable {Q : Type} [Queue Q Key Msg] [LawfulQueue Q]
  {s s' : FactoryState Key Msg (BuiltInRouter Key Msg L) Q}

theorem routeHead_confirmed {hint : Option WorkerId} (fuel : ℕ) (hco : s.pool.Covers s.poolSize) :
    routeHead hint fuel s≠.error .backlogAfterTarget := by
  induction fuel generalizing s with
  | zero => rintro ⟨⟩
  | succ fuel ih =>
    unfold routeHead
    split
    · rintro ⟨⟩
    next head hp =>
      dsimp only
      split
      · rintro ⟨⟩
      next worker hw =>
        obtain ⟨queue,hq,-⟩:=popFront_of_peek hp
        rw [hq]
        dsimp only
        have hc:=s.router.route_confirmed hco hw
          (chooseTargetWorker s.router head s.poolSize hint s.pool s.world).world
        have ho:=LawfulRouter.route_outcome
          (chooseTargetWorker s.router head s.poolSize hint s.pool s.world).router head
          s.poolSize (some worker) s.pool
          (chooseTargetWorker s.router head s.poolSize hint s.pool s.world).world
        generalize routeMessage
          (chooseTargetWorker s.router head s.poolSize hint s.pool s.world).router head
          s.poolSize (some worker) s.pool
          (chooseTargetWorker s.router head s.poolSize hint s.pool s.world).world=routed
          at hc ho
        obtain ⟨result,router,pool,world⟩:=routed
        cases ho with
        | handled => rintro ⟨⟩
        | backlog => exact absurd rfl (hc head)
        | rateLimited => exact ih hco

theorem tryRouteNextActiveJob_confirmed {hint : Option WorkerId} (hs : Shaped s) :
    s.tryRouteNextActiveJob hint≠.error .backlogAfterTarget := by
  have ht:=hs.congr (expireHead_housekeeping (Queue.len s.queue) s).sameProfile
  exact routeHead_confirmed _ ht.covers

theorem routeToFreed_confirmed {wid : WorkerId} (hs : Shaped s) :
    s.routeToFreed wid≠.error .backlogAfterTarget := by
  unfold routeToFreed
  split
  next e he =>
    rintro ⟨⟩
    exact tryRouteNextActiveJob_confirmed hs he
  next => split <;> nofun

theorem routeBacklog_confirmed (rounds : ℕ) (hs : Shaped s) :
    routeBacklog rounds s≠.error .backlogAfterTarget := by
  induction rounds generalizing s with
  | zero => rintro ⟨⟩
  | succ rounds ih =>
    unfold routeBacklog
    split
    · rintro ⟨⟩
    · split
      next e he =>
        rintro ⟨⟩
        exact tryRouteNextActiveJob_confirmed hs he
      next t ht =>
        exact ih (hs.congr (tryRouteNextActiveJob_routing ht : Routing (fun _ => True) _ _ _).sameProfile)

end Loop

/-! ### The handlers -/

section Handlers
variable {s : FactoryState Key Msg (BuiltInRouter Key Msg L) (BuiltInQueue Key Msg P)}

section

omit [Priority P]

theorem growWorker_confirmed (wid : WorkerId) : s.growWorker wid≠.error .backlogAfterTarget := by
  unfold growWorker
  split
  · unfold addWorker
    split
    next e he =>
      rintro ⟨⟩
      exact spawn_confirmed _ _ he
    next => nofun
  · nofun

theorem growWorkers_confirmed (wids : List WorkerId) :
    wids.foldlM growWorker s≠.error .backlogAfterTarget := by
  induction wids generalizing s with
  | nil => nofun
  | cons wid wids ih =>
    rw [List.foldlM_cons]
    cases hg : s.growWorker wid with
    | error e =>
      rintro ⟨⟩
      exact growWorker_confirmed wid hg
    | ok t => exact ih

theorem growPool_confirmed (toAdd : ℕ) : s.growPool toAdd≠.error .backlogAfterTarget := by
  unfold growPool
  split
  next e he =>
    rintro ⟨⟩
    exact growWorkers_confirmed _ he
  next => nofun

end

theorem resizePool_confirmed (requestedPoolSize : ℕ) (hs : Shaped s) :
    s.resizePool requestedPoolSize≠.error .backlogAfterTarget := by
  unfold resizePool
  split
  · nofun
  · dsimp only
    split
    next hlt =>
      split
      next e he =>
        rintro ⟨⟩
        exact growPool_confirmed _ he
      next t ht => exact routeBacklog_confirmed _ (growPool_shaped hs hlt ht)
    next => split <;> nofun

theorem workerFinishedJob_confirmed (who : WorkerId) (key : Key) (hs : Shaped s)
    (hc : WorkersConsistent s) : s.workerFinishedJob who key≠.error .backlogAfterTarget := by
  have ht:=hs.congr (completeJob_sameProfile hc who key)
  unfold workerFinishedJob
  dsimp only
  split
  · exact routeToFreed_confirmed ht
  · split
    · split <;> nofun
    · exact routeToFreed_confirmed ht

theorem handleExit_confirmed (who : ActorId) (hs : Shaped s) (hc : WorkersConsistent s) :
    s.handleExit who≠.error .backlogAfterTarget := by
  unfold handleExit
  split
  · nofun
  next wid worker hf =>
    obtain ⟨wid',hi,hl⟩:=bind_eq_some_iff.mp hf
    obtain ⟨worker',hl,he⟩:=map_eq_some_iff.mp hl
    cases he
    split
    next e he =>
      rintro ⟨⟩
      unfold replaceExited at he
      split at he
      next e' hsp =>
        cases he
        exact spawn_confirmed _ _ hsp
      next => cases he
    next t ht => exact routeToFreed_confirmed (replaceExited_shape hs hc hi hl ht)

theorem handleMessage_confirmed (message : FactoryMessage Key Msg) (hs : Shaped s)
    (hc : WorkersConsistent s) : s.handleMessage message≠.error .backlogAfterTarget := by
  cases message with
  | dispatch job => exact fun h => nomatch dispatch_error h
  | finished who key => exact workerFinishedJob_confirmed who key hs hc
  | calculate =>
    change s.calculateMetrics≠_
    unfold calculateMetrics controlCapacity
    split
    next e he =>
      rintro ⟨⟩
      split at he
      · dsimp only at he
        split at he
        · cases he
        · have hask : Shaped {s with world:=s.world.askSize.2} :=
            hs.congr (.of_pool rfl rfl rfl rfl)
          exact resizePool_confirmed _ hask he
      · cases he
    next => nofun
  | adjustWorkerPool requestedPoolSize => exact resizePool_confirmed requestedPoolSize hs
  | drainRequests =>
    change s.drainRequests≠_
    unfold drainRequests
    dsimp only
    split
    · split <;> nofun
    · nofun
  | updateSettings request =>
    change s.updateSettings request≠_
    unfold updateSettings
    split
    · nofun
    · have hk : Keeping (fun _ => True) s (s.applySettings request) :=
        applySettings_keeping s fun _ _ => trivial
      exact resizePool_confirmed _ (hs.congr hk.housekeeping.sameProfile)
  | _ => nofun

theorem handleEvent_confirmed (event : FactoryEvent Key Msg) (hs : Shaped s)
    (hc : WorkersConsistent s) : s.handleEvent event≠.error .backlogAfterTarget := by
  cases event with
  | message message =>
    change s.handle message≠_
    unfold handle
    split
    next e he =>
      rintro ⟨⟩
      exact handleMessage_confirmed message hs hc he
    next => nofun
  | supervision event =>
    cases event with
    | actorTerminated who | actorFailed who => exact handleExit_confirmed who hs hc
    | _ => nofun

end Handlers
end FactoryState

/-- In every state of a run, a job that is routed to its first choice is not sent back, and no
event ends the factory with the panic of `try_route_next_active_job`. -/
theorem target_confirmed
    (args : FactoryArguments (BuiltInRouter Key Msg L) (BuiltInQueue Key Msg P))
    {s : FactoryState Key Msg (BuiltInRouter Key Msg L) (BuiltInQueue Key Msg P)}
    (h : Reached args s) :
    (∀job hint world wid,
      let choice := chooseTargetWorker s.router job s.poolSize hint s.pool world
      choice.target=some wid→∀returned,
        (routeMessage choice.router job s.poolSize (some wid) s.pool choice.world).result ≠
          .backlog returned) ∧
    ∀event oracle,(s.withOracle oracle).handleEvent event≠.error .backlogAfterTarget := by
  obtain ⟨hs,hc⟩:=reached_shaped h
  constructor
  · intro job hint world wid choice hw
    exact s.router.route_confirmed hs.covers hw choice.world
  · intro event oracle
    exact handleEvent_confirmed event (hs.congr (.of_pool rfl rfl rfl rfl)) hc

/-- A rate limited queuer with a backlog, whose worker completes. -/
theorem target_confirmed_replayed :
    ∃s,Reached (.plain 1 (.rateLimited ⟨.queuer {},{}⟩ : BuiltInRouter ℕ Unit Unlimited)) s ∧
      LawfulQueue.contents s.queue≠[] ∧
      ((s.withOracle .calm).handleEvent (.message (.finished 0 1))).toOption.isSome ∧
      (s.withOracle .calm).handleEvent (.message (.finished 0 1))≠.error .backlogAfterTarget := by
  obtain ⟨s,hs,ht⟩:=exists_reached
    (.plain 1 (.rateLimited ⟨.queuer {},{}⟩ : BuiltInRouter ℕ Unit Unlimited)) .calm 0
    (calmly [.dispatch (.plain 1),.dispatch (.plain 2)])
    (fun s => decide (LawfulQueue.contents s.queue≠[] ∧
      ((s.withOracle .calm).handleEvent (.message (.finished 0 1))).toOption.isSome=true))
    rfl (by decide +kernel)
  obtain ⟨hqueue,hok⟩:=of_decide_eq_true ht
  exact ⟨s,hs,hqueue,hok,(target_confirmed _ hs).2 _ _⟩

end Ractor.Factory
