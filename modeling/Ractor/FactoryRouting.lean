import Ractor.FactoryWorkers

/-!
# Routing protocols

The trait `Router` of `routing.rs`, the five routers of the crate and the wrapper
`RateLimitedRouter` of `ratelim.rs`. All five implement `route_message` by the same
few lines around their own `choose_target_worker`; those lines are `routeByChoice`.
The two queueing routers share the deque of workers believed to be available.
-/

namespace Ractor.Factory
open WorkerProperties

variable {Key Msg : Type}

inductive RouteResult (Key Msg : Type) where
  | handled
  | backlog (job : Job Key Msg)
  | rateLimited (job : Job Key Msg)

/-- The result of `route_message`, with everything the call may have changed. -/
structure Routed (R Key Msg : Type) where
  result : RouteResult Key Msg
  router : R
  pool : Pool Key Msg
  world : World Key Msg

structure Choice (R Key Msg : Type) where
  target : Option WorkerId
  router : R
  world : World Key Msg

class Router (R : Type) (Key Msg : outParam Type) where
  routeMessage : R → Job Key Msg → ℕ → Option WorkerId → Pool Key Msg → World Key Msg →
    Routed R Key Msg
  chooseTargetWorker : R → Job Key Msg → ℕ → Option WorkerId → Pool Key Msg → World Key Msg →
    Choice R Key Msg
  isFactoryQueueing : R → Bool
  onWorkerAvailabilityChange : R → WorkerId → Bool → R:=fun router _ _ => router

/-- `worker_pool.iter().find(..)`: some entry that satisfies the test. The oracle picks
among several, because the iteration order of a hash map is unspecified. -/
def pickWorker (pool : Pool Key Msg) (test : WorkerProperties Key Msg → Bool)
    (world : World Key Msg) : Option WorkerId × World Key Msg :=
  match pool.entries.filter fun entry => test entry.2 with
  | [] => (none,world)
  | entry::entries =>
    (((entry::entries)[world.pick % (entries.length+1)]?).map Sigma.fst,world.picked)

def routeByChoice [DecidableEq Key] {R : Type} (pool : Pool Key Msg) (job : Job Key Msg)
    (choice : Choice R Key Msg) : Routed R Key Msg :=
  match choice.target.bind fun wid => (pool.lookup wid).map fun worker => (wid,worker) with
  | some (wid,worker) =>
    let enqueued := worker.enqueueJob job choice.world
    ⟨.handled,choice.router,pool.insert wid enqueued.1,enqueued.2⟩
  | none => ⟨.backlog job,choice.router,pool,choice.world⟩

/-! ### Key persistent routing -/

structure KeyPersistentRouting (Key Msg : Type) where

/-- `hash_with_max`. The hasher of the standard library is any function of the key. -/
def hashWithMax [Hashable Key] (key : Key) (excludedMax : ℕ) : ℕ :=
  (hash key).toNat % excludedMax

namespace KeyPersistentRouting
variable [DecidableEq Key] [Hashable Key]

def chooseTargetWorker (router : KeyPersistentRouting Key Msg) (job : Job Key Msg)
    (poolSize : ℕ) (hint : Option WorkerId) (pool : Pool Key Msg) (world : World Key Msg) :
    Choice (KeyPersistentRouting Key Msg) Key Msg :=
  match pickWorker pool (fun worker => worker.hasPendingKey job.key) world with
  | (some wid,world) => ⟨some wid,router,world⟩
  | (none,world) =>
    match hint.filter fun wid => (pool.lookup wid).isSome with
    | some hinted => ⟨some hinted,router,world⟩
    | none =>
      if poolSize=0 then ⟨none,router,world⟩
      else
        ⟨(some (hashWithMax job.key poolSize)).filter fun wid => (pool.lookup wid).isSome,
          router,world⟩

instance : Router (KeyPersistentRouting Key Msg) Key Msg where
  routeMessage router job poolSize hint pool world :=
    routeByChoice pool job (router.chooseTargetWorker job poolSize hint pool world)
  chooseTargetWorker:=chooseTargetWorker
  isFactoryQueueing _:=false

end KeyPersistentRouting

/-! ### The index of available workers -/

/-- The fields `available_workers` and `worker_in_queue` of both queueing routers. -/
structure AvailableWorkers where
  availableWorkers : List WorkerId:=[]
  workerInQueue : List Bool:=[]

namespace AvailableWorkers

/-- The popping loop at the end of `choose_target_worker`. Writing a flag outside the
vector does nothing, as in the source. -/
def popAvailable (pool : Pool Key Msg) :
    List WorkerId → List Bool → Option WorkerId × AvailableWorkers
  | [],flags => (none,⟨[],flags⟩)
  | wid::rest,flags =>
    if (pool.lookup wid).any isAvailable then
      (some wid,⟨rest,flags.set wid false⟩)
    else popAvailable pool rest (flags.set wid false)

def grownFlags (flags : List Bool) (wid : WorkerId) : List Bool :=
  flags++List.replicate (wid+1 - flags.length) false

def onWorkerAvailabilityChange (index : AvailableWorkers) (wid : WorkerId) (available : Bool) :
    AvailableWorkers :=
  let flags := grownFlags index.workerInQueue wid
  if available then
    if flags.getD wid false then ⟨index.availableWorkers,flags⟩
    else ⟨index.availableWorkers++[wid],flags.set wid true⟩
  else ⟨index.availableWorkers,flags.set wid false⟩

end AvailableWorkers

/-- `worker_hint.and_then(|worker| worker_pool.get(&worker))` followed by a test. -/
def hintedWorker (pool : Pool Key Msg) (hint : Option WorkerId)
    (test : WorkerProperties Key Msg → Bool) : Option WorkerId :=
  hint.filter fun wid => (pool.lookup wid).any test

/-! ### Queuer routing -/

structure QueuerRouting (Key Msg : Type) extends AvailableWorkers

namespace QueuerRouting

def chooseTargetWorker (router : QueuerRouting Key Msg) (_job : Job Key Msg) (_poolSize : ℕ)
    (hint : Option WorkerId) (pool : Pool Key Msg) (world : World Key Msg) :
    Choice (QueuerRouting Key Msg) Key Msg :=
  match hintedWorker pool hint isAvailable with
  | some wid => ⟨some wid,router,world⟩
  | none =>
    let popped := AvailableWorkers.popAvailable pool router.availableWorkers router.workerInQueue
    ⟨popped.1,⟨popped.2⟩,world⟩

instance [DecidableEq Key] : Router (QueuerRouting Key Msg) Key Msg where
  routeMessage router job poolSize hint pool world :=
    routeByChoice pool job (router.chooseTargetWorker job poolSize hint pool world)
  chooseTargetWorker:=chooseTargetWorker
  isFactoryQueueing _:=true
  onWorkerAvailabilityChange router wid available :=
    ⟨router.toAvailableWorkers.onWorkerAvailabilityChange wid available⟩

end QueuerRouting

/-! ### Sticky queuer routing -/

structure StickyQueuerRouting (Key Msg : Type) extends AvailableWorkers

namespace StickyQueuerRouting
variable [DecidableEq Key]

def chooseTargetWorker (router : StickyQueuerRouting Key Msg) (job : Job Key Msg) (_poolSize : ℕ)
    (hint : Option WorkerId) (pool : Pool Key Msg) (world : World Key Msg) :
    Choice (StickyQueuerRouting Key Msg) Key Msg :=
  match hintedWorker pool hint fun worker => worker.isProcessingKey job.key with
  | some wid => ⟨some wid,router,world⟩
  | none =>
    match pickWorker pool (fun worker => worker.isProcessingKey job.key) world with
    | (some wid,world) => ⟨some wid,router,world⟩
    | (none,world) =>
      match hintedWorker pool hint isAvailable with
      | some wid => ⟨some wid,router,world⟩
      | none =>
        let popped :=
          AvailableWorkers.popAvailable pool router.availableWorkers router.workerInQueue
        ⟨popped.1,⟨popped.2⟩,world⟩

instance : Router (StickyQueuerRouting Key Msg) Key Msg where
  routeMessage router job poolSize hint pool world :=
    routeByChoice pool job (router.chooseTargetWorker job poolSize hint pool world)
  chooseTargetWorker:=chooseTargetWorker
  isFactoryQueueing _:=true
  onWorkerAvailabilityChange router wid available :=
    ⟨router.toAvailableWorkers.onWorkerAvailabilityChange wid available⟩

end StickyQueuerRouting

/-! ### Round-robin routing -/

structure RoundRobinRouting (Key Msg : Type) where
  lastWorker : WorkerId:=0

namespace RoundRobinRouting

def nextWorker (router : RoundRobinRouting Key Msg) (poolSize : ℕ) : WorkerId :=
  if poolSize≤router.lastWorker+1 then 0 else router.lastWorker+1

def chooseTargetWorker (router : RoundRobinRouting Key Msg) (_job : Job Key Msg) (poolSize : ℕ)
    (hint : Option WorkerId) (pool : Pool Key Msg) (world : World Key Msg) :
    Choice (RoundRobinRouting Key Msg) Key Msg :=
  if poolSize=0 then ⟨none,router,world⟩
  else
    match hintedWorker pool hint isAvailable with
    | some wid => ⟨some wid,router,world⟩
    | none =>
      let key := router.nextWorker poolSize
      ⟨(some key).filter fun wid => (pool.lookup wid).isSome,⟨key⟩,world⟩

instance [DecidableEq Key] : Router (RoundRobinRouting Key Msg) Key Msg where
  routeMessage router job poolSize hint pool world :=
    routeByChoice pool job (router.chooseTargetWorker job poolSize hint pool world)
  chooseTargetWorker:=chooseTargetWorker
  isFactoryQueueing _:=false

end RoundRobinRouting

/-! ### Custom routing -/

structure CustomRouting (Key Msg : Type) where
  hasher : Key → ℕ → ℕ

namespace CustomRouting

def chooseTargetWorker (router : CustomRouting Key Msg) (job : Job Key Msg) (poolSize : ℕ)
    (_hint : Option WorkerId) (pool : Pool Key Msg) (world : World Key Msg) :
    Choice (CustomRouting Key Msg) Key Msg :=
  if poolSize=0 then ⟨none,router,world⟩
  else
    ⟨(some (router.hasher job.key poolSize % poolSize)).filter
      fun wid => (pool.lookup wid).isSome,router,world⟩

instance [DecidableEq Key] : Router (CustomRouting Key Msg) Key Msg where
  routeMessage router job poolSize hint pool world :=
    routeByChoice pool job (router.chooseTargetWorker job poolSize hint pool world)
  chooseTargetWorker:=chooseTargetWorker
  isFactoryQueueing _:=false

end CustomRouting

/-! ### Rate limiting -/

/-- The trait `RateLimiter`. A limiter may read the clock when it is checked. -/
class RateLimiter (L : Type) where
  check : L → Instant → Bool × L
  bump : L → L

structure RateLimitedRouter (R L : Type) where
  router : R
  rateLimiter : L

namespace RateLimitedRouter
variable {R L : Type} [Router R Key Msg] [RateLimiter L]

def routeMessage (limited : RateLimitedRouter R L) (job : Job Key Msg) (poolSize : ℕ)
    (hint : Option WorkerId) (pool : Pool Key Msg) (world : World Key Msg) :
    Routed (RateLimitedRouter R L) Key Msg :=
  let checked := RateLimiter.check limited.rateLimiter world.now
  if checked.1 then
    let routed := Router.routeMessage limited.router job poolSize hint pool world.tick
    match routed.result with
    | .handled =>
      ⟨.handled,⟨routed.router,RateLimiter.bump checked.2⟩,routed.pool,routed.world⟩
    | result => ⟨result,⟨routed.router,checked.2⟩,routed.pool,routed.world⟩
  else
    -- a reserved worker goes back to the inner router's index
    match hintedWorker pool hint isAvailable with
    | some wid =>
      ⟨.rateLimited job,
        ⟨Router.onWorkerAvailabilityChange limited.router wid true,checked.2⟩,pool,world.tick⟩
    | none => ⟨.rateLimited job,⟨limited.router,checked.2⟩,pool,world.tick⟩

instance : Router (RateLimitedRouter R L) Key Msg where
  routeMessage:=routeMessage
  chooseTargetWorker limited job poolSize hint pool world :=
    let choice := Router.chooseTargetWorker limited.router job poolSize hint pool world
    ⟨choice.target,⟨choice.router,limited.rateLimiter⟩,choice.world⟩
  isFactoryQueueing limited:=Router.isFactoryQueueing limited.router
  onWorkerAvailabilityChange limited wid available :=
    ⟨Router.onWorkerAvailabilityChange limited.router wid available,limited.rateLimiter⟩

end RateLimitedRouter

/-! ### The built-in routers as one type -/

inductive BareRouter (Key Msg : Type) where
  | keyPersistent (router : KeyPersistentRouting Key Msg)
  | queuer (router : QueuerRouting Key Msg)
  | stickyQueuer (router : StickyQueuerRouting Key Msg)
  | roundRobin (router : RoundRobinRouting Key Msg)
  | custom (router : CustomRouting Key Msg)

def Routed.mapRouter {R R' : Type} (f : R → R') (routed : Routed R Key Msg) : Routed R' Key Msg :=
  ⟨routed.result,f routed.router,routed.pool,routed.world⟩

def Choice.mapRouter {R R' : Type} (f : R → R') (choice : Choice R Key Msg) : Choice R' Key Msg :=
  ⟨choice.target,f choice.router,choice.world⟩

instance [DecidableEq Key] [Hashable Key] : Router (BareRouter Key Msg) Key Msg where
  routeMessage
    | .keyPersistent router,job,poolSize,hint,pool,world =>
      (Router.routeMessage router job poolSize hint pool world).mapRouter .keyPersistent
    | .queuer router,job,poolSize,hint,pool,world =>
      (Router.routeMessage router job poolSize hint pool world).mapRouter .queuer
    | .stickyQueuer router,job,poolSize,hint,pool,world =>
      (Router.routeMessage router job poolSize hint pool world).mapRouter .stickyQueuer
    | .roundRobin router,job,poolSize,hint,pool,world =>
      (Router.routeMessage router job poolSize hint pool world).mapRouter .roundRobin
    | .custom router,job,poolSize,hint,pool,world =>
      (Router.routeMessage router job poolSize hint pool world).mapRouter .custom
  chooseTargetWorker
    | .keyPersistent router,job,poolSize,hint,pool,world =>
      (Router.chooseTargetWorker router job poolSize hint pool world).mapRouter .keyPersistent
    | .queuer router,job,poolSize,hint,pool,world =>
      (Router.chooseTargetWorker router job poolSize hint pool world).mapRouter .queuer
    | .stickyQueuer router,job,poolSize,hint,pool,world =>
      (Router.chooseTargetWorker router job poolSize hint pool world).mapRouter .stickyQueuer
    | .roundRobin router,job,poolSize,hint,pool,world =>
      (Router.chooseTargetWorker router job poolSize hint pool world).mapRouter .roundRobin
    | .custom router,job,poolSize,hint,pool,world =>
      (Router.chooseTargetWorker router job poolSize hint pool world).mapRouter .custom
  isFactoryQueueing
    | .keyPersistent router => Router.isFactoryQueueing router
    | .queuer router => Router.isFactoryQueueing router
    | .stickyQueuer router => Router.isFactoryQueueing router
    | .roundRobin router => Router.isFactoryQueueing router
    | .custom router => Router.isFactoryQueueing router
  onWorkerAvailabilityChange
    | .keyPersistent router,wid,available =>
      .keyPersistent (Router.onWorkerAvailabilityChange router wid available)
    | .queuer router,wid,available =>
      .queuer (Router.onWorkerAvailabilityChange router wid available)
    | .stickyQueuer router,wid,available =>
      .stickyQueuer (Router.onWorkerAvailabilityChange router wid available)
    | .roundRobin router,wid,available =>
      .roundRobin (Router.onWorkerAvailabilityChange router wid available)
    | .custom router,wid,available =>
      .custom (Router.onWorkerAvailabilityChange router wid available)

inductive BuiltInRouter (Key Msg L : Type) where
  | bare (router : BareRouter Key Msg)
  | rateLimited (router : RateLimitedRouter (BareRouter Key Msg) L)

instance [DecidableEq Key] [Hashable Key] {L : Type} [RateLimiter L] :
    Router (BuiltInRouter Key Msg L) Key Msg where
  routeMessage
    | .bare router,job,poolSize,hint,pool,world =>
      (Router.routeMessage router job poolSize hint pool world).mapRouter .bare
    | .rateLimited router,job,poolSize,hint,pool,world =>
      (Router.routeMessage router job poolSize hint pool world).mapRouter .rateLimited
  chooseTargetWorker
    | .bare router,job,poolSize,hint,pool,world =>
      (Router.chooseTargetWorker router job poolSize hint pool world).mapRouter .bare
    | .rateLimited router,job,poolSize,hint,pool,world =>
      (Router.chooseTargetWorker router job poolSize hint pool world).mapRouter .rateLimited
  isFactoryQueueing
    | .bare router => Router.isFactoryQueueing router
    | .rateLimited router => Router.isFactoryQueueing router
  onWorkerAvailabilityChange
    | .bare router,wid,available =>
      .bare (Router.onWorkerAvailabilityChange router wid available)
    | .rateLimited router,wid,available =>
      .rateLimited (Router.onWorkerAvailabilityChange router wid available)

end Ractor.Factory
