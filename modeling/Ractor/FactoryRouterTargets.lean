import Ractor.FactoryRouting
import Ractor.FactoryWorkerFrames

/-!
# Where a router may send a job

Each built-in router follows one of five rules. `RoutingRule.Targets` says which
workers a rule allows for a job; a `LawfulRouter` only ever enqueues a job at such a
worker, and otherwise changes nothing but itself and the oracle.
-/

namespace Ractor.Factory
open Option Router

variable {Key Msg : Type} [DecidableEq Key]

inductive RoutingRule where
  | keyPersistent
  | queuer
  | stickyQueuer
  | roundRobin
  | custom
  deriving DecidableEq

def Pool.Idle (pool : Pool Key Msg) (wid : WorkerId) : Prop :=
  (pool.lookup wid).any WorkerProperties.isAvailable=true

def Pool.FavorsHint (pool : Pool Key Msg) (hint : Option WorkerId) (wid : WorkerId) : Prop :=
  ∀hinted,hint=some hinted → pool.Idle hinted → wid=hinted

/-- The workers a rule allows for a key, in a pool of the given size. -/
def RoutingRule.Targets (rule : RoutingRule) (poolSize : ℕ) (pool : Pool Key Msg)
    (hint : Option WorkerId) (key : Key) (wid : WorkerId) (w : WorkerProperties Key Msg) : Prop :=
  match rule with
  | .keyPersistent =>
    w.hasPendingKey key=true ∨
      (∀wid' w',pool.lookup wid'=some w' → w'.hasPendingKey key=false) ∧
        (hint=some wid ∨ wid<poolSize)
  | .queuer => w.isAvailable=true ∧ pool.FavorsHint hint wid
  | .stickyQueuer =>
    w.isProcessingKey key=true ∨
      (∀wid' w',pool.lookup wid'=some w' → w'.isProcessingKey key=false) ∧
        w.isAvailable=true ∧ pool.FavorsHint hint wid
  | .roundRobin => hint=some wid ∧ w.isAvailable=true ∨ wid<poolSize
  | .custom => wid<poolSize

variable {poolSize : ℕ} {pool : Pool Key Msg} {hint : Option WorkerId} {wid : WorkerId}

/-- Choosing again with the first choice as the hint stays within the rule. -/
theorem RoutingRule.targets_compose (rule : RoutingRule) {key : Key} {wid' : WorkerId}
    {w w' : WorkerProperties Key Msg} (hl : pool.lookup wid'=some w')
    (hf : rule.Targets poolSize pool hint key wid' w')
    (hs : rule.Targets poolSize pool (some wid') key wid w) :
    rule.Targets poolSize pool hint key wid w := by
  cases rule with
  | keyPersistent =>
    rcases hs with hp | ⟨hn,hw⟩
    · exact .inl hp
    · rcases hf with hp | ⟨_,hw'⟩
      · rw [hn wid' w' hl] at hp
        cases hp
      · refine .inr ⟨hn,?_⟩
        rcases hw with hw | hw
        · obtain rfl : wid'=wid := by simpa using hw
          exact hw'
        · exact .inr hw
  | queuer =>
    have hw : wid=wid':=hs.2 wid' rfl ((any_eq_true _ _).mpr ⟨w',hl,hf.1⟩)
    exact ⟨hs.1,hw ▸ hf.2⟩
  | stickyQueuer =>
    rcases hs with hp | ⟨hn,ha,hfa⟩
    · exact .inl hp
    · rcases hf with hp | ⟨_,ha',hf'⟩
      · rw [hn wid' w' hl] at hp
        cases hp
      · have hw : wid=wid':=hfa wid' rfl ((any_eq_true _ _).mpr ⟨w',hl,ha'⟩)
        exact .inr ⟨hn,ha,hw ▸ hf'⟩
  | roundRobin =>
    rcases hs with ⟨hw,ha⟩ | hlt
    · obtain rfl : wid'=wid := by simpa using hw
      exact hf.imp (fun hh => ⟨hh.1,ha⟩) id
    · exact .inr hlt
  | custom => exact hs

section Worlds

omit [DecidableEq Key]

namespace World

def Quiet (world world' : World Key Msg) : Prop :=
  ∃oracle,world'={world with oracle:=oracle}

def Picks (world world' : World Key Msg) : Prop:=world'=world ∨ world'=world.picked

variable {a b c : World Key Msg}

theorem Quiet.refl (world : World Key Msg) : world.Quiet world:=⟨world.oracle,rfl⟩

theorem Quiet.trans (h : a.Quiet b) (h' : b.Quiet c) : a.Quiet c := by
  obtain ⟨_,rfl⟩:=h
  obtain ⟨oracle,rfl⟩:=h'
  exact ⟨oracle,rfl⟩

theorem quiet_tick (world : World Key Msg) : world.Quiet world.tick:=⟨_,rfl⟩

theorem Picks.quiet (h : a.Picks b) : a.Quiet b := by
  rcases h with rfl | rfl
  · exact .refl b
  · exact ⟨_,rfl⟩

/-- Choosing does not read the clock. -/
theorem Picks.clock (h : a.Picks b) : b.oracle.clock=a.oracle.clock := by
  rcases h with rfl | rfl <;> rfl

end World
end Worlds

/-- What `route_message` may do to the pool and to the world. -/
inductive RouteOutcome (rule : RoutingRule) (poolSize : ℕ) (hint : Option WorkerId)
    (pool : Pool Key Msg) (job : Job Key Msg) (world : World Key Msg) :
    RouteResult Key Msg→Pool Key Msg → World Key Msg→Prop where
  | handled {wid w world'} (quiet : world.Quiet world') (lookup : pool.lookup wid=some w)
      (targets : rule.Targets poolSize pool hint job.key wid w) :
      RouteOutcome rule poolSize hint pool job world .handled
        (pool.insert wid (w.enqueueJob job world').1) (w.enqueueJob job world').2
  | backlog {world'} (quiet : world.Quiet world') :
      RouteOutcome rule poolSize hint pool job world (.backlog job) pool world'
  | rateLimited {world'} (quiet : world.Quiet world') :
      RouteOutcome rule poolSize hint pool job world (.rateLimited job) pool world'

class LawfulRouter (R : Type) {Key Msg : outParam Type} [DecidableEq Key] [Router R Key Msg] where
  rule : R → RoutingRule
  choose_rule (r : R) (job : Job Key Msg) (n hint pool world) :
    rule (chooseTargetWorker r job n hint pool world).router=rule r
  choose_world (r : R) (job : Job Key Msg) (n hint pool) (world : World Key Msg) :
    world.Quiet (chooseTargetWorker r job n hint pool world).world
  choose_target (r : R) (job : Job Key Msg) (n hint pool world) {wid : WorkerId}
    (h : (chooseTargetWorker r job n hint pool world).target=some wid) :
    ∃w,pool.lookup wid=some w ∧ (rule r).Targets n pool hint job.key wid w
  route_rule (r : R) (job : Job Key Msg) (n hint pool world) :
    rule (routeMessage r job n hint pool world).router=rule r
  route_outcome (r : R) (job : Job Key Msg) (n hint pool world) :
    RouteOutcome (rule r) n hint pool job world (routeMessage r job n hint pool world).result
      (routeMessage r job n hint pool world).pool
      (routeMessage r job n hint pool world).world
  availability_rule (r : R) (wid : WorkerId) (available : Bool) :
    rule (onWorkerAvailabilityChange r wid available)=rule r

/-! ### The parts routers are made of -/

section Parts

omit [DecidableEq Key]

theorem pickWorker_cases (pool : Pool Key Msg) (test : WorkerProperties Key Msg→Bool)
    (world : World Key Msg) :
    (∃wid w world',pickWorker pool test world=(some wid,world') ∧ world.Picks world' ∧
      pool.lookup wid=some w ∧ test w=true) ∨
    ∃world',pickWorker pool test world=(none,world') ∧ world.Picks world' ∧
      ∀wid w,pool.lookup wid=some w→test w=false := by
  unfold pickWorker
  cases hf : pool.entries.filter fun entry => test entry.2 with
  | nil =>
    refine .inr ⟨_,rfl,.inl rfl,fun wid w hw => ?_⟩
    have hm:=List.filter_eq_nil_iff.mp hf _ (AList.mem_lookup_iff.mp hw)
    simpa using hm
  | cons entry entries =>
    have hlt : world.pick % (entry::entries).length<(entry::entries).length :=
      Nat.mod_lt _ (Nat.succ_pos _)
    generalize he : (entry::entries).get ⟨_,hlt⟩=e
    have hm : e∈pool.entries.filter fun entry => test entry.2 := by
      rw [hf,← he]
      exact List.getElem_mem hlt
    obtain ⟨hm,ht⟩:=List.mem_filter.mp hm
    refine .inl ⟨_,_,_,?_,.inr rfl,AList.mem_lookup_iff.mpr hm,ht⟩
    exact congrArg (·.map Sigma.fst,world.picked) (List.getElem?_eq_some_iff.mpr ⟨hlt,he⟩)

theorem hintedWorker_some {test : WorkerProperties Key Msg→Bool}
    (h : hintedWorker pool hint test=some wid) :
    hint=some wid ∧ ∃w,pool.lookup wid=some w ∧ test w=true := by
  obtain ⟨hh,ht⟩:=filter_eq_some_iff.mp h
  obtain ⟨w,hw,ht⟩:=(any_eq_true _ _).mp ht
  exact ⟨hh,w,hw,ht⟩

theorem hintedWorker_eq {test : WorkerProperties Key Msg→Bool}
    (h : (pool.lookup wid).any test=true) : hintedWorker pool (some wid) test=some wid :=
  filter_eq_some_iff.mpr ⟨rfl,h⟩

theorem hintedWorker_none (h : hintedWorker pool hint WorkerProperties.isAvailable=none) :
    ∀k,hint=some k→¬pool.Idle k := by
  rintro k rfl
  exact filter_eq_none_iff.mp h k rfl

theorem popAvailable_some :
    ∀{wids : List WorkerId} {flags : List Bool},
      (AvailableWorkers.popAvailable pool wids flags).1=some wid →
        ∃w,pool.lookup wid=some w ∧ w.isAvailable=true
  | [],flags,h => by cases h
  | wid'::rest,flags,h => by
    unfold AvailableWorkers.popAvailable at h
    split at h
    next ha =>
      obtain rfl : wid'=wid := by simpa using h
      exact (any_eq_true _ _).mp ha
    next => exact popAvailable_some h

theorem filter_isSome {target : Option WorkerId}
    (h : (target.filter fun wid => (pool.lookup wid).isSome)=some wid) :
    target=some wid ∧ ∃w,pool.lookup wid=some w := by
  obtain ⟨ht,hs⟩:=filter_eq_some_iff.mp h
  exact ⟨ht,isSome_iff_exists.mp hs⟩

theorem RoundRobinRouting.nextWorker_lt (router : RoundRobinRouting Key Msg) (h : poolSize≠0) :
    router.nextWorker poolSize<poolSize := by
  unfold nextWorker
  split
  next => exact Nat.pos_of_ne_zero h
  next hlt => exact Nat.lt_of_not_le hlt

end Parts

structure RoutingRule.Chooses {R : Type} (rule : RoutingRule) (job : Job Key Msg) (poolSize : ℕ)
    (hint : Option WorkerId) (pool : Pool Key Msg) (world : World Key Msg)
    (choice : Choice R Key Msg) : Prop where
  picks : world.Picks choice.world
  targets : ∀wid,choice.target=some wid →
    ∃w,pool.lookup wid=some w ∧ rule.Targets poolSize pool hint job.key wid w

section Choices
variable {R : Type} {r : R} {rule : RoutingRule} {job : Job Key Msg} {world world' : World Key Msg}
  {w : WorkerProperties Key Msg}

theorem RoutingRule.Chooses.none (hp : world.Picks world') :
    rule.Chooses job poolSize hint pool world ⟨.none,r,world'⟩:=⟨hp,nofun⟩

theorem RoutingRule.Chooses.some (hp : world.Picks world') (hl : pool.lookup wid=some w)
    (ht : rule.Targets poolSize pool hint job.key wid w) :
    rule.Chooses job poolSize hint pool world ⟨some wid,r,world'⟩ :=
  ⟨hp,fun _ h => Option.some.inj h ▸ ⟨w,hl,ht⟩⟩

theorem RoutingRule.Chooses.filtered (hp : world.Picks world')
    (ht : ∀w,pool.lookup wid=.some w → rule.Targets poolSize pool hint job.key wid w) :
    rule.Chooses job poolSize hint pool world
      ⟨(Option.some wid).filter fun wid => (pool.lookup wid).isSome,r,world'⟩ := by
  refine ⟨hp,fun wid' h => ?_⟩
  dsimp only at h
  obtain ⟨hs,w,hl⟩:=filter_isSome h
  cases hs
  exact ⟨w,hl,ht w hl⟩

/-- A router that routes by its choice handles a job at its target or sends it back. -/
theorem routeByChoice_outcome {choice : Choice R Key Msg}
    (h : rule.Chooses job poolSize hint pool world choice) :
    RouteOutcome rule poolSize hint pool job world (routeByChoice pool job choice).result
      (routeByChoice pool job choice).pool (routeByChoice pool job choice).world := by
  unfold routeByChoice
  cases hc : choice.target with
  | none => exact .backlog h.picks.quiet
  | some wid =>
    obtain ⟨w,hl,hta⟩:=h.targets wid hc
    simp only [bind_some,hl,map_some]
    exact .handled h.picks.quiet hl hta

/-- A router whose `route_message` enqueues a job at its own choice, or sends it back. -/
class RoutesByChoice (R : Type) {Key Msg : outParam Type} [DecidableEq Key] [Router R Key Msg] :
    Prop where
  route_eq (r : R) (job : Job Key Msg) (n : ℕ) (hint : Option WorkerId) (pool : Pool Key Msg)
    (world : World Key Msg) : routeMessage r job n hint pool world =
      routeByChoice pool job (chooseTargetWorker r job n hint pool world)

instance [Hashable Key] : RoutesByChoice (KeyPersistentRouting Key Msg) :=
  ⟨fun _ _ _ _ _ _ => rfl⟩
instance : RoutesByChoice (QueuerRouting Key Msg):=⟨fun _ _ _ _ _ _ => rfl⟩
instance : RoutesByChoice (StickyQueuerRouting Key Msg):=⟨fun _ _ _ _ _ _ => rfl⟩
instance : RoutesByChoice (RoundRobinRouting Key Msg):=⟨fun _ _ _ _ _ _ => rfl⟩
instance : RoutesByChoice (CustomRouting Key Msg):=⟨fun _ _ _ _ _ _ => rfl⟩

/-- A router made of a choice and `routeByChoice` is lawful when its choices are. -/
@[reducible] def LawfulRouter.ofChoice [Router R Key Msg] [RoutesByChoice R] (rule : RoutingRule)
    (hchoose : ∀(r : R) (job : Job Key Msg) n hint pool world,
      rule.Chooses job n hint pool world (chooseTargetWorker r job n hint pool world)) :
    LawfulRouter R where
  rule _:=rule
  choose_rule _ _ _ _ _ _:=rfl
  choose_world r job n hint pool world:=(hchoose r job n hint pool world).picks.quiet
  choose_target r job n hint pool world _ h:=(hchoose r job n hint pool world).targets _ h
  route_rule _ _ _ _ _ _:=rfl
  route_outcome r job n hint pool world := by
    rw [RoutesByChoice.route_eq]
    exact routeByChoice_outcome (hchoose r job n hint pool world)
  availability_rule _ _ _:=rfl

end Choices

/-! ### The routers of the crate -/

section Routers
variable (job : Job Key Msg) (poolSize : ℕ) (hint : Option WorkerId) (pool : Pool Key Msg)
  (world : World Key Msg)

theorem KeyPersistentRouting.chooses [Hashable Key] (router : KeyPersistentRouting Key Msg) :
    RoutingRule.keyPersistent.Chooses job poolSize hint pool world
      (router.chooseTargetWorker job poolSize hint pool world) := by
  rw [chooseTargetWorker]
  rcases pickWorker_cases pool (fun w => w.hasPendingKey job.key) world with
    ⟨wid,w,world',he,hp,hl,hw⟩ | ⟨world',he,hp,hn⟩
  · rw [he]
    exact .some hp hl (.inl hw)
  · rw [he]
    dsimp only
    split
    next hinted hf =>
      obtain ⟨hh,w,hl⟩:=filter_isSome hf
      exact .some hp hl (.inr ⟨hn,.inl hh⟩)
    next =>
      split
      next => exact .none hp
      next hz =>
        refine .filtered hp fun _ _ => ?_
        exact .inr ⟨hn,.inr (Nat.mod_lt _ (Nat.pos_of_ne_zero hz))⟩

instance [Hashable Key] : LawfulRouter (KeyPersistentRouting Key Msg) :=
  .ofChoice .keyPersistent fun r job n hint pool world =>
    r.chooses job n hint pool world

theorem QueuerRouting.chooses (router : QueuerRouting Key Msg) :
    RoutingRule.queuer.Chooses job poolSize hint pool world
      (router.chooseTargetWorker job poolSize hint pool world) := by
  unfold chooseTargetWorker
  split
  next hinted hh =>
    obtain ⟨hhi,w,hl,ha⟩:=hintedWorker_some hh
    exact .some (.inl rfl) hl ⟨ha,fun k hk _ => Option.some.inj (hhi.symm.trans hk)⟩
  next hh =>
    refine ⟨.inl rfl,fun wid h => ?_⟩
    obtain ⟨w,hl,ha⟩:=popAvailable_some h
    exact ⟨w,hl,ha,fun k hk hi => absurd hi (hintedWorker_none hh k hk)⟩

instance : LawfulRouter (QueuerRouting Key Msg) :=
  .ofChoice .queuer fun r job n hint pool world =>
    r.chooses job n hint pool world

theorem StickyQueuerRouting.chooses (router : StickyQueuerRouting Key Msg) :
    RoutingRule.stickyQueuer.Chooses job poolSize hint pool world
      (router.chooseTargetWorker job poolSize hint pool world) := by
  unfold chooseTargetWorker
  split
  next hinted hh =>
    obtain ⟨-,w,hl,hw⟩:=hintedWorker_some hh
    exact .some (.inl rfl) hl (.inl hw)
  next =>
    rcases pickWorker_cases pool (fun w => w.isProcessingKey job.key) world with
      ⟨wid,w,world',he,hp,hl,hw⟩ | ⟨world',he,hp,hn⟩
    · rw [he]
      exact .some hp hl (.inl hw)
    · rw [he]
      dsimp only
      split
      next hinted hh =>
        obtain ⟨hhi,w,hl,ha⟩:=hintedWorker_some hh
        exact .some hp hl (.inr ⟨hn,ha,fun k hk _ => Option.some.inj (hhi.symm.trans hk)⟩)
      next hh =>
        refine ⟨hp,fun wid h => ?_⟩
        obtain ⟨w,hl,ha⟩:=popAvailable_some h
        exact ⟨w,hl,.inr ⟨hn,ha,fun k hk hi => absurd hi (hintedWorker_none hh k hk)⟩⟩

instance : LawfulRouter (StickyQueuerRouting Key Msg) :=
  .ofChoice .stickyQueuer fun r job n hint pool world =>
    r.chooses job n hint pool world

theorem RoundRobinRouting.chooses (router : RoundRobinRouting Key Msg) :
    RoutingRule.roundRobin.Chooses job poolSize hint pool world
      (router.chooseTargetWorker job poolSize hint pool world) := by
  unfold chooseTargetWorker
  split
  next => exact .none (.inl rfl)
  next hz =>
    split
    next hinted hh =>
      obtain ⟨hhi,w,hl,ha⟩:=hintedWorker_some hh
      exact .some (.inl rfl) hl (.inl ⟨hhi,ha⟩)
    next =>
      refine .filtered (.inl rfl) fun _ _ => ?_
      exact .inr (router.nextWorker_lt hz)

instance : LawfulRouter (RoundRobinRouting Key Msg) :=
  .ofChoice .roundRobin fun r job n hint pool world =>
    r.chooses job n hint pool world

theorem CustomRouting.chooses (router : CustomRouting Key Msg) :
    RoutingRule.custom.Chooses job poolSize hint pool world
      (router.chooseTargetWorker job poolSize hint pool world) := by
  unfold chooseTargetWorker
  split
  next => exact .none (.inl rfl)
  next hz =>
    refine .filtered (.inl rfl) fun _ _ => ?_
    exact Nat.mod_lt _ (Nat.pos_of_ne_zero hz)

instance : LawfulRouter (CustomRouting Key Msg) :=
  .ofChoice .custom fun r job n hint pool world =>
    r.chooses job n hint pool world

theorem BareRouter.choose_picks [Hashable Key] (router : BareRouter Key Msg) :
    world.Picks (chooseTargetWorker router job poolSize hint pool world).world := by
  cases router with
  | keyPersistent router | queuer router | stickyQueuer router | roundRobin router
  | custom router => exact (router.chooses job poolSize hint pool world).picks

theorem BuiltInRouter.choose_clock [Hashable Key] {L : Type} [RateLimiter L]
    (router : BuiltInRouter Key Msg L) :
    (chooseTargetWorker router job poolSize hint pool world).world.oracle.clock =
      world.oracle.clock := by
  cases router with
  | bare router => exact (router.choose_picks job poolSize hint pool world).clock
  | rateLimited limited => exact (limited.router.choose_picks job poolSize hint pool world).clock

end Routers

/-! ### Wrappers -/

/-- A rate limiter only delays or drops what the inner router would do. -/
instance {R L : Type} [Router R Key Msg] [RateLimiter L] [LawfulRouter R] :
    LawfulRouter (RateLimitedRouter R L) where
  rule limited:=LawfulRouter.rule limited.router
  choose_rule limited job n hint pool world :=
    LawfulRouter.choose_rule limited.router job n hint pool world
  choose_world limited job n hint pool world :=
    LawfulRouter.choose_world limited.router job n hint pool world
  choose_target limited job n hint pool world _ h :=
    LawfulRouter.choose_target limited.router job n hint pool world h
  route_rule limited job n hint pool world := by
    change LawfulRouter.rule (limited.routeMessage job n hint pool world).router.router=_
    have hr:=LawfulRouter.route_rule limited.router job n hint pool world.tick
    unfold RateLimitedRouter.routeMessage
    dsimp only
    split
    · split <;> exact hr
    · split
      · exact LawfulRouter.availability_rule _ _ _
      · rfl
  route_outcome limited job n hint pool world := by
    change RouteOutcome _ n hint pool job world (limited.routeMessage job n hint pool world).result
      (limited.routeMessage job n hint pool world).pool
      (limited.routeMessage job n hint pool world).world
    have ho:=LawfulRouter.route_outcome limited.router job n hint pool world.tick
    unfold RateLimitedRouter.routeMessage
    dsimp only
    split
    · have hq:=world.quiet_tick
      generalize routeMessage limited.router job n hint pool world.tick=routed at ho ⊢
      rcases routed with ⟨result,router,pool',world'⟩
      cases ho with
      | handled quiet lookup targets => exact .handled (hq.trans quiet) lookup targets
      | backlog quiet => exact .backlog (hq.trans quiet)
      | rateLimited quiet => exact .rateLimited (hq.trans quiet)
    · split <;> exact .rateLimited world.quiet_tick
  availability_rule limited wid available :=
    LawfulRouter.availability_rule limited.router wid available

instance [Hashable Key] : LawfulRouter (BareRouter Key Msg) where
  rule
    | .keyPersistent _ => .keyPersistent
    | .queuer _ => .queuer
    | .stickyQueuer _ => .stickyQueuer
    | .roundRobin _ => .roundRobin
    | .custom _ => .custom
  choose_rule router _ _ _ _ _ := by cases router <;> rfl
  choose_world router job n hint pool world:=(router.choose_picks job n hint pool world).quiet
  choose_target router job n hint pool world _ h := by
    cases router with
    | keyPersistent router | queuer router | stickyQueuer router | roundRobin router
    | custom router => exact LawfulRouter.choose_target router job n hint pool world h
  route_rule router _ _ _ _ _ := by cases router <;> rfl
  route_outcome router job n hint pool world := by
    cases router with
    | keyPersistent router | queuer router | stickyQueuer router | roundRobin router
    | custom router => exact LawfulRouter.route_outcome router job n hint pool world
  availability_rule router _ _ := by cases router <;> rfl

instance [Hashable Key] {L : Type} [RateLimiter L] : LawfulRouter (BuiltInRouter Key Msg L) where
  rule
    | .bare router => LawfulRouter.rule router
    | .rateLimited router => LawfulRouter.rule router
  choose_rule router job n hint pool world := by
    cases router with
    | bare router | rateLimited router =>
      exact LawfulRouter.choose_rule router job n hint pool world
  choose_world router job n hint pool world := by
    cases router with
    | bare router | rateLimited router =>
      exact LawfulRouter.choose_world router job n hint pool world
  choose_target router job n hint pool world _ h := by
    cases router with
    | bare router | rateLimited router =>
      exact LawfulRouter.choose_target router job n hint pool world h
  route_rule router job n hint pool world := by
    cases router with
    | bare router | rateLimited router => exact LawfulRouter.route_rule router job n hint pool world
  route_outcome router job n hint pool world := by
    cases router with
    | bare router | rateLimited router =>
      exact LawfulRouter.route_outcome router job n hint pool world
  availability_rule router wid available := by
    cases router with
    | bare router | rateLimited router => exact LawfulRouter.availability_rule router wid available

end Ractor.Factory
