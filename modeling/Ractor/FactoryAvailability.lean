import Ractor.FactoryRouterTargets

/-!
# The index of available workers

The two queueing routers remember which workers they believe to be available: a deque that
is cleaned lazily and one flag per worker. The deque may hold stale and duplicate entries.
`Tracks P` is what is true of it nevertheless: the workers `P` are in the deque, and a raised
flag is never wrong. `IndexedRouter` says what routing does to the index.
-/

namespace Ractor.Factory
open Router BareRouter List Option StickyQueuerRouting QueuerRouting

variable {Key Msg : Type} {index : AvailableWorkers} {n wid : ℕ} {pool : Pool Key Msg}
  {job : Job Key Msg}

namespace AvailableWorkers

structure Tracks (index : AvailableWorkers) (P : ℕ → Prop) : Prop where
  covers : ∀wid,P wid → wid∈index.availableWorkers
  flagged : ∀wid,index.workerInQueue.getD wid false=true → wid∈index.availableWorkers

theorem tracks_empty : Tracks {} fun _ => False := ⟨fun _ h => h.elim,fun wid h => by simp at h⟩

theorem Tracks.imp {P P' : ℕ→Prop} (h : index.Tracks P) (hp : ∀wid,P' wid→P wid) :
    index.Tracks P' :=
  ⟨fun wid hw => h.covers wid (hp wid hw),h.flagged⟩

theorem getD_set {flags : List Bool} {k : ℕ} {b : Bool} (h : (flags.set wid b).getD k false=true) :
    k=wid ∧ b=true ∨ k≠wid ∧ flags.getD k false=true := by
  rw [getD_eq_getElem?_getD,getElem?_set] at h
  by_cases hk : wid=k
  · rw [if_pos hk] at h
    split at h
    · exact .inl ⟨hk.symm,by simpa using h⟩
    · simp at h
  · rw [if_neg hk] at h
    exact .inr ⟨Ne.symm hk,by rwa [getD_eq_getElem?_getD]⟩

theorem getD_grownFlags (flags : List Bool) (wid k : ℕ) :
    (grownFlags flags wid).getD k false=flags.getD k false := by
  unfold grownFlags
  rw [getD_eq_getElem?_getD,getD_eq_getElem?_getD,getElem?_append]
  split
  next => rfl
  next hk =>
    rw [getElem?_eq_none (Nat.le_of_not_lt hk),getElem?_replicate]
    split <;> rfl

theorem Tracks.announce {P : ℕ→Prop} (h : index.Tracks P) (wid : ℕ) :
    (index.onWorkerAvailabilityChange wid true).Tracks fun k => P k ∨ k=wid := by
  have hg : ∀k,(grownFlags index.workerInQueue wid).getD k false=true →
      k∈index.availableWorkers:=fun k hk => h.flagged k (by rwa [getD_grownFlags] at hk)
  unfold onWorkerAvailabilityChange
  dsimp only
  rw [if_pos rfl]
  split
  next hf =>
    -- the flag is already up, so the worker is in the deque
    refine ⟨?_,hg⟩
    rintro k (hk | rfl)
    · exact h.covers k hk
    · exact hg k hf
  next =>
    refine ⟨?_,?_⟩
    · rintro k (hk | rfl)
      · exact mem_append_left _ (h.covers k hk)
      · exact mem_append_right _ mem_cons_self
    · intro k hk
      rcases getD_set hk with ⟨rfl,_⟩ | ⟨_,hk⟩
      · exact mem_append_right _ mem_cons_self
      · exact mem_append_left _ (hg k hk)

/-- A worker that is withdrawn stays in the deque as a stale entry. -/
theorem Tracks.withdraw {P : ℕ→Prop} (h : index.Tracks P) (wid : ℕ) :
    (index.onWorkerAvailabilityChange wid false).Tracks P := by
  refine ⟨h.covers,fun k hk => ?_⟩
  rcases getD_set hk with ⟨_,hb⟩ | ⟨_,hk⟩
  · cases hb
  · exact h.flagged k (by rwa [getD_grownFlags] at hk)

theorem Tracks.pop {wids : List ℕ} {flags : List Bool} {P : ℕ→Prop}
    (h : Tracks ⟨wid::wids,flags⟩ P) :
    Tracks ⟨wids,flags.set wid false⟩ fun k => P k ∧ k≠wid := by
  refine ⟨?_,?_⟩
  · rintro k ⟨hk,hne⟩
    exact (mem_cons.mp (h.covers k hk)).resolve_left hne
  · intro k hk
    rcases getD_set hk with ⟨_,hb⟩ | ⟨hne,hk⟩
    · cases hb
    · exact (mem_cons.mp (h.flagged k hk)).resolve_left hne

/-- The popping loop finds an available worker if one is tracked, and stops tracking it. -/
theorem popAvailable_tracks {P : ℕ→Prop} (hP : ∀wid,P wid→pool.Idle wid) :
    ∀{wids : List ℕ} {flags : List Bool},Tracks ⟨wids,flags⟩ P →
      (∀wid,(popAvailable pool wids flags).1=some wid →
        (popAvailable pool wids flags).2.Tracks fun k => P k ∧ k≠wid) ∧
      ((popAvailable pool wids flags).1=none → (popAvailable pool wids flags).2.Tracks P ∧ ∀k,¬P k)
  | [],flags,h =>
    ⟨fun _ hs => (by cases hs),fun _ => ⟨h,fun k hk => absurd (h.covers k hk) not_mem_nil⟩⟩
  | wid::wids,flags,h => by
    unfold popAvailable
    split
    next =>
      refine ⟨fun k hs => ?_,fun hs => (by cases hs)⟩
      cases hs
      exact h.pop
    next ha =>
      have hne : ∀k,P k→k≠wid := by
        rintro k hk rfl
        exact ha (hP k hk)
      exact popAvailable_tracks hP (h.pop.imp fun k hk => ⟨hk,hne k hk⟩)

end AvailableWorkers

variable [DecidableEq Key]

/-- What routing a job does to the pool and to the router, when the workers `P` were tracked.
A job goes to an available worker or to another one the router prefers for it; without a target
either `Gap` is true or no tracked worker is left. -/
inductive IndexedOutcome {R : Type} (Tracks : R→(ℕ→Prop)→Prop)
    (Sticks : Job Key Msg → WorkerProperties Key Msg→Prop) (Gap : Prop) (P : ℕ→Prop)
    (pool : Pool Key Msg) (job : Job Key Msg) :
    RouteResult Key Msg→Pool Key Msg→R→Prop where
  | handled {wid : ℕ} {w : WorkerProperties Key Msg} {router : R}
      (lookup : pool.lookup wid=some w) (target : w.isAvailable=true ∨ Sticks job w)
      (world : World Key Msg) (tracks : Tracks router fun k => P k ∧ k≠wid) :
      IndexedOutcome Tracks Sticks Gap P pool job .handled
        (pool.insert wid (w.enqueueJob job world).1) router
  | backlog {router : R} (tracks : Tracks router P) (none : Gap ∨ ∀k,¬P k) :
      IndexedOutcome Tracks Sticks Gap P pool job (.backlog job) pool router
  | rateLimited {router : R} (tracks : Tracks router P) (free : ∀job w,¬Sticks job w) :
      IndexedOutcome Tracks Sticks Gap P pool job (.rateLimited job) pool router

/-- A router of which one can say which workers it tracks as available. -/
class IndexedRouter (R : Type) {Key Msg : outParam Type} [DecidableEq Key] [Router R Key Msg] where
  Tracks : R → (ℕ → Prop) → Prop
  /-- The busy workers the router may prefer for a job. -/
  Sticks : Job Key Msg → WorkerProperties Key Msg → Prop
  /-- Why the router may have no target although workers are available. -/
  Gap : ℕ → Pool Key Msg → Prop
  tracks_imp {r : R} {P P' : ℕ → Prop} (ht : Tracks r P) (h : ∀k,P' k → P k) : Tracks r P'
  tracks_announce {r : R} {P : ℕ → Prop} (ht : Tracks r P) (wid : ℕ) :
    Tracks (onWorkerAvailabilityChange r wid true) fun k => P k ∨ k=wid
  tracks_withdraw {r : R} {P : ℕ → Prop} (ht : Tracks r P) (wid : ℕ) :
    Tracks (onWorkerAvailabilityChange r wid false) P
  choose_none {r : R} {job : Job Key Msg} {n : ℕ} {hint : Option WorkerId} {pool : Pool Key Msg}
    {world : World Key Msg} {P : ℕ → Prop} (hP : ∀k,P k → pool.Idle k) (ht : Tracks r P)
    (h : (chooseTargetWorker r job n hint pool world).target=none) :
    Tracks (chooseTargetWorker r job n hint pool world).router P ∧
      (Gap n pool ∨ (∀k,¬P k) ∧ ∀k,hint=some k → ¬pool.Idle k)
  route_chosen {r : R} {job : Job Key Msg} {n : ℕ} {hint : Option WorkerId} {pool : Pool Key Msg}
    {world : World Key Msg} {P : ℕ → Prop} (hP : ∀k,P k → pool.Idle k) (ht : Tracks r P)
    {wid : WorkerId} (h : (chooseTargetWorker r job n hint pool world).target=some wid)
    (world' : World Key Msg) :
    let routed := Router.routeMessage (chooseTargetWorker r job n hint pool world).router
      job n (some wid) pool world'
    IndexedOutcome Tracks Sticks (Gap n pool) P pool job routed.result routed.pool routed.router
  route_unhinted {r : R} {job : Job Key Msg} {n : ℕ} {pool : Pool Key Msg} {world : World Key Msg}
    {P : ℕ → Prop} (hP : ∀k,P k → pool.Idle k) (ht : Tracks r P) :
    let routed := Router.routeMessage r job n none pool world
    IndexedOutcome Tracks Sticks (Gap n pool) P pool job routed.result routed.pool routed.router

/-- The facts about one choice of a router with an index of its own. -/
structure IndexedChoice {R : Type} [Router R Key Msg] (index : R → AvailableWorkers)
    (Sticks : Job Key Msg → WorkerProperties Key Msg → Prop) (P : ℕ → Prop) (job : Job Key Msg)
    (n : ℕ) (hint : Option WorkerId) (pool : Pool Key Msg) (choice : Choice R Key Msg) : Prop where
  target : ∀wid,choice.target=some wid →
    (∃w,pool.lookup wid=some w ∧ (w.isAvailable=true ∨ Sticks job w)) ∧
      (index choice.router).Tracks (fun k => P k ∧ k≠wid) ∧
      ∀world',(chooseTargetWorker choice.router job n (some wid) pool world').target=some wid ∧
        index (chooseTargetWorker choice.router job n (some wid) pool world').router =
          index choice.router
  none : choice.target=none →
    (index choice.router).Tracks P ∧ (∀k,¬P k) ∧ ∀k,hint=some k → ¬pool.Idle k

theorem routeByChoice_indexed {R : Type} {Tracks : R→(ℕ→Prop)→Prop}
    {Sticks : Job Key Msg → WorkerProperties Key Msg→Prop} {Gap : Prop} {P : ℕ→Prop}
    {choice : Choice R Key Msg} {wid : WorkerId} (hc : choice.target=some wid)
    (hw : ∃w,pool.lookup wid=some w ∧ (w.isAvailable=true ∨ Sticks job w))
    (ht : Tracks choice.router fun k => P k ∧ k≠wid) :
    IndexedOutcome Tracks Sticks Gap P pool job (routeByChoice pool job choice).result
      (routeByChoice pool job choice).pool (routeByChoice pool job choice).router := by
  obtain ⟨w,hl,hs⟩:=hw
  unfold routeByChoice
  simp only [hc,bind_some,hl,map_some]
  exact .handled hl hs choice.world ht

omit [DecidableEq Key] in
theorem routeByChoice_unrouted [DecidableEq Key] {R : Type} {Tracks : R→(ℕ→Prop)→Prop}
    {Sticks : Job Key Msg → WorkerProperties Key Msg→Prop} {Gap : Prop} {P : ℕ→Prop}
    {choice : Choice R Key Msg} (hc : choice.target=none) (ht : Tracks choice.router P)
    (hn : Gap ∨ ∀k,¬P k) :
    IndexedOutcome Tracks Sticks Gap P pool job (routeByChoice pool job choice).result
      (routeByChoice pool job choice).pool (routeByChoice pool job choice).router := by
  unfold routeByChoice
  simp only [hc,bind_none]
  exact .backlog ht hn

@[reducible] def IndexedRouter.ofChoice {R : Type} [Router R Key Msg] [RoutesByChoice R]
    (index : R → AvailableWorkers)
    (Sticks : Job Key Msg → WorkerProperties Key Msg → Prop)
    (hannounce : ∀(r : R) (wid : ℕ) (available : Bool),
      index (onWorkerAvailabilityChange r wid available) =
        (index r).onWorkerAvailabilityChange wid available)
    (hchoose : ∀(r : R) (job : Job Key Msg) n hint (pool : Pool Key Msg) world (P : ℕ → Prop),
      (∀k,P k → pool.Idle k) → (index r).Tracks P → IndexedChoice index Sticks P job n hint pool
          (chooseTargetWorker r job n hint pool world)) :
    IndexedRouter R where
  Tracks r:=(index r).Tracks
  Sticks:=Sticks
  Gap _ _:=False
  tracks_imp ht h:=ht.imp h
  tracks_announce ht wid := by
    rw [hannounce]
    exact ht.announce wid
  tracks_withdraw ht wid := by
    rw [hannounce]
    exact ht.withdraw wid
  choose_none hP ht h :=
    have hc:=(hchoose _ _ _ _ _ _ _ hP ht).none h
    ⟨hc.1,.inr hc.2⟩
  route_chosen hP ht wid h world' := by
    obtain ⟨hw,htracks,hagain⟩:=(hchoose _ _ _ _ _ _ _ hP ht).target wid h
    obtain ⟨htarget,hindex⟩:=hagain world'
    dsimp only
    rw [RoutesByChoice.route_eq]
    exact routeByChoice_indexed htarget hw (by rw [hindex]; exact htracks)
  route_unhinted {r job n pool world P} hP ht := by
    have hc:=hchoose r job n none pool world P hP ht
    dsimp only
    rw [RoutesByChoice.route_eq]
    cases htarget : (chooseTargetWorker r job n none pool world).target with
    | none =>
      obtain ⟨htracks,hnone,_⟩:=hc.none htarget
      exact routeByChoice_unrouted htarget htracks (.inr hnone)
    | some wid =>
      obtain ⟨hw,htracks,_⟩:=hc.target wid htarget
      exact routeByChoice_indexed htarget hw htracks

/-! ### The queueing routers -/

theorem QueuerRouting.choose_indexed (router : QueuerRouting Key Msg) (job : Job Key Msg) (n : ℕ)
    (hint : Option WorkerId) (pool : Pool Key Msg) (world : World Key Msg) (P : ℕ→Prop)
    (hP : ∀k,P k→pool.Idle k) (ht : router.toAvailableWorkers.Tracks P) :
    IndexedChoice (R:=QueuerRouting Key Msg) toAvailableWorkers (fun _ _ => False)
      P job n hint pool (router.chooseTargetWorker job n hint pool world) := by
  have hag : ∀(router : QueuerRouting Key Msg) wid,pool.Idle wid→∀world',
      router.chooseTargetWorker job n (some wid) pool world'=⟨some wid,router,world'⟩ := by
    intro router wid hw world'
    simp only [chooseTargetWorker,hintedWorker_eq hw]
  have hpop:=AvailableWorkers.popAvailable_tracks hP ht
  refine ⟨fun wid hwid => ?_,fun hno => ?_⟩
  · obtain ⟨w,hl,ha,_⟩:=(router.chooses job n hint pool world).targets wid hwid
    refine ⟨⟨w,hl,.inl ha⟩,?_,fun world' => ?_⟩
    · unfold chooseTargetWorker at hwid ⊢
      split at hwid
      · exact ht.imp fun k hk => hk.1
      · exact hpop.1 wid hwid
    · change (chooseTargetWorker _ _ _ _ _ _).target=_ ∧ (chooseTargetWorker _ _ _ _ _ _).router.1=_
      rw [hag _ wid ((Option.any_eq_true _ _).mpr ⟨w,hl,ha⟩)]
      exact ⟨rfl,rfl⟩
  · unfold chooseTargetWorker at hno ⊢
    split at hno
    · cases hno
    next hh =>
      obtain ⟨htr,hn⟩:=hpop.2 hno
      exact ⟨htr,hn,hintedWorker_none hh⟩

instance : IndexedRouter (QueuerRouting Key Msg) :=
  .ofChoice toAvailableWorkers (fun _ _ => False) (fun _ _ _ => rfl) choose_indexed

theorem StickyQueuerRouting.choose_indexed (router : StickyQueuerRouting Key Msg)
    (job : Job Key Msg) (n : ℕ) (hint : Option WorkerId) (pool : Pool Key Msg)
    (world : World Key Msg) (P : ℕ→Prop) (hP : ∀k,P k→pool.Idle k)
    (ht : router.toAvailableWorkers.Tracks P) :
    IndexedChoice (R:=StickyQueuerRouting Key Msg) toAvailableWorkers
      (fun job w => w.isProcessingKey job.key=true) P job n hint pool
      (router.chooseTargetWorker job n hint pool world) := by
  have hta:=(router.chooses job n hint pool world).targets
  have hpop:=AvailableWorkers.popAvailable_tracks hP ht
  refine ⟨fun wid hwid => ?_,fun hno => ?_⟩
  · obtain ⟨w,hl,hw⟩:=hta wid hwid
    refine ⟨⟨w,hl,hw.symm.imp_left (·.2.1)⟩,?_,fun world' => ?_⟩
    · unfold chooseTargetWorker at hwid ⊢
      split at hwid
      · exact ht.imp fun k hk => hk.1
      · rcases pickWorker_cases pool (fun w => w.isProcessingKey job.key) world with
          ⟨_,_,_,he,-⟩ | ⟨_,he,-⟩
        · rw [he]
          exact ht.imp fun k hk => hk.1
        · rw [he] at hwid ⊢
          dsimp only at hwid ⊢
          split at hwid
          · exact ht.imp fun k hk => hk.1
          · exact hpop.1 wid hwid
    · -- asked again with its own choice as the hint, the router repeats it
      change (chooseTargetWorker _ _ _ _ _ _).target=_ ∧ (chooseTargetWorker _ _ _ _ _ _).router.1=_
      generalize (router.chooseTargetWorker job n hint pool world).router=router'
      unfold chooseTargetWorker
      rcases hw with hw | ⟨hf,ha,_⟩
      · rw [hintedWorker_eq ((Option.any_eq_true _ _).mpr ⟨w,hl,hw⟩)]
        exact ⟨rfl,rfl⟩
      · have hb : hintedWorker pool (some wid) (fun w => w.isProcessingKey job.key)=none := by
          unfold hintedWorker
          rw [filter_some,hl,any_some,hf wid w hl]
          rfl
        rcases pickWorker_cases pool (fun w => w.isProcessingKey job.key) world' with
          ⟨picked,w',_,-,-,hl',hw'⟩ | ⟨_,he,-⟩
        · exact absurd hw' (by rw [hf picked w' hl']; exact Bool.false_ne_true)
        · rw [hb,he]
          dsimp only
          rw [hintedWorker_eq ((Option.any_eq_true _ _).mpr ⟨w,hl,ha⟩)]
          exact ⟨rfl,rfl⟩
  · unfold chooseTargetWorker at hno ⊢
    split at hno
    · cases hno
    · rcases pickWorker_cases pool (fun w => w.isProcessingKey job.key) world with
        ⟨_,_,_,he,-⟩ | ⟨_,he,-⟩
      · rw [he] at hno
        cases hno
      · rw [he] at hno ⊢
        dsimp only at hno ⊢
        split at hno
        · cases hno
        next hh =>
          obtain ⟨htr,hn⟩:=hpop.2 hno
          exact ⟨htr,hn,hintedWorker_none hh⟩

instance : IndexedRouter (StickyQueuerRouting Key Msg) :=
  .ofChoice toAvailableWorkers (fun job w => w.isProcessingKey job.key=true)
    (fun _ _ _ => rfl) choose_indexed

/-! ### Queuer routing behind a rate limiter -/

variable {L : Type} [RateLimiter L] (limited : RateLimitedRouter (QueuerRouting Key Msg) L)

/-- The limiter passes the inner router's outcome on, if it lets the job through. -/
theorem RateLimitedRouter.routeMessage_admitted {hint : Option WorkerId} {world : World Key Msg}
    {P : ℕ→Prop} (hc : (RateLimiter.check limited.rateLimiter world.now).1=true)
    (h : let routed := Router.routeMessage limited.router job n hint pool world.tick
      IndexedOutcome (fun r : QueuerRouting Key Msg => r.toAvailableWorkers.Tracks)
        (fun _ _ => False) False P pool job routed.result routed.pool routed.router) :
    let routed := limited.routeMessage job n hint pool world
    IndexedOutcome (fun r : RateLimitedRouter (QueuerRouting Key Msg) L =>
      r.router.toAvailableWorkers.Tracks) (fun _ _ => False) False P pool job routed.result
      routed.pool routed.router := by
  unfold routeMessage
  simp only [hc,if_true]
  dsimp only at h
  generalize Router.routeMessage limited.router job n hint pool world.tick=routed at h ⊢
  obtain ⟨result,router,pool',world'⟩:=routed
  dsimp only at h
  cases h with
  | handled lookup target world tracks => exact .handled lookup target world tracks
  | backlog tracks none => exact .backlog tracks none
  | rateLimited tracks free => exact .rateLimited tracks free

/-- If it does not, a worker that was chosen beforehand goes back to the index. -/
theorem RateLimitedRouter.routeMessage_refused {hint : Option ℕ} {world : World Key Msg}
    {P : ℕ→Prop} (hc : (RateLimiter.check limited.rateLimiter world.now).1=false)
    (hh : ∀wid,hint=some wid→pool.Idle wid)
    (ht : limited.router.toAvailableWorkers.Tracks fun k => P k ∧ hint≠some k) :
    let routed := limited.routeMessage job n hint pool world
    IndexedOutcome (fun r : RateLimitedRouter (QueuerRouting Key Msg) L =>
      r.router.toAvailableWorkers.Tracks) (fun _ _ => False) False P pool job routed.result
      routed.pool routed.router := by
  unfold routeMessage
  cases hint with
  | none =>
    have hhi : hintedWorker pool none WorkerProperties.isAvailable=none:=rfl
    simp only [hc,hhi,Bool.false_eq_true,if_false]
    exact .rateLimited (ht.imp fun k hk => ⟨hk,by simp⟩) fun _ _ => id
  | some wid =>
    simp only [hc,hintedWorker_eq (hh wid rfl),Bool.false_eq_true,if_false]
    refine .rateLimited ((ht.announce wid).imp fun k hk => ?_) fun _ _ => id
    by_cases hkw : k=wid
    · exact .inr hkw
    · exact .inl ⟨hk,by simpa using Ne.symm hkw⟩

instance : IndexedRouter (RateLimitedRouter (QueuerRouting Key Msg) L) where
  Tracks limited:=limited.router.toAvailableWorkers.Tracks
  Sticks _ _:=False
  Gap _ _:=False
  tracks_imp ht h:=ht.imp h
  tracks_announce ht wid:=ht.announce wid
  tracks_withdraw ht wid:=ht.withdraw wid
  choose_none {limited job n hint pool world P} hP ht h :=
    have hc:=(limited.router.choose_indexed job n hint pool world P hP ht).none h
    ⟨hc.1,.inr hc.2⟩
  route_chosen {limited job n hint pool world P} hP ht wid h world' := by
    have hch:=(limited.router.choose_indexed job n hint pool world P hP ht).target wid h
    have hr:=IndexedRouter.route_chosen (R:=QueuerRouting Key Msg) hP ht h world'.tick
    obtain ⟨⟨w,hl,hw⟩,htr,_⟩:=hch
    have hi : pool.Idle wid:=(Option.any_eq_true _ _).mpr ⟨w,hl,hw.resolve_right id⟩
    cases hc : (RateLimiter.check limited.rateLimiter world'.now).1 with
    | true => exact RateLimitedRouter.routeMessage_admitted _ hc hr
    | false =>
      have hb : AvailableWorkers.Tracks
          (QueuerRouting.chooseTargetWorker limited.router job n hint pool world).router.1
          fun k => P k ∧ some wid≠some k :=
        htr.imp fun k hk => ⟨hk.1,fun he => hk.2 (he ▸ rfl)⟩
      refine RateLimitedRouter.routeMessage_refused _ hc ?_ hb
      rintro k ⟨⟩
      exact hi
  route_unhinted {limited job n pool world P} hP ht := by
    have hr := @IndexedRouter.route_unhinted (QueuerRouting Key Msg) Key Msg _ _ _
      limited.router job n pool world.tick P hP ht
    cases hc : (RateLimiter.check limited.rateLimiter world.now).1 with
    | true => exact RateLimitedRouter.routeMessage_admitted limited hc hr
    | false =>
      exact RateLimitedRouter.routeMessage_refused limited hc (fun _ hn => by cases hn)
        (ht.imp fun k hk => hk.1)

/-! ### Routers without an index -/

def Pool.Gap (n : ℕ) (pool : Pool Key Msg) : Prop :=
  n=0 ∨ ∃wid<n,pool.lookup wid=none

omit [DecidableEq Key] in
theorem Pool.gap_of_filter (hlt : wid<n)
    (h : ((some wid).filter fun wid : WorkerId => (pool.lookup wid).isSome)=none) :
    pool.Gap n := by
  have hw:=filter_eq_none_iff.mp h wid rfl
  exact .inr ⟨wid,hlt,by simpa using hw⟩

/-- A router that keeps no index and finds a target in every pool without a gap. -/
@[reducible] def IndexedRouter.ofGap {R : Type} [Router R Key Msg] [LawfulRouter R]
    [RoutesByChoice R]
    (hgap : ∀(r : R) (job : Job Key Msg) n hint (pool : Pool Key Msg) world,
      (chooseTargetWorker r job n hint pool world).target=none → pool.Gap n) :
    IndexedRouter R :=
  have hrouted : ∀(r : R) (job : Job Key Msg) n hint (pool : Pool Key Msg) world P,
      let routed := Router.routeMessage r job n hint pool world
      IndexedOutcome (fun (_ : R) _ => True) (fun _ _ => True) (pool.Gap n) P pool job
        routed.result routed.pool routed.router := by
    intro r job n hint pool world P
    dsimp only
    rw [RoutesByChoice.route_eq]
    cases ht : (chooseTargetWorker r job n hint pool world).target with
    | none => exact routeByChoice_unrouted ht trivial (.inl (hgap _ _ _ _ _ _ ht))
    | some wid =>
      obtain ⟨w,hl,_⟩:=LawfulRouter.choose_target r job n hint pool world ht
      exact routeByChoice_indexed ht ⟨w,hl,.inr trivial⟩ trivial
  { Tracks:=fun _ _ => True
    Sticks:=fun _ _ => True
    Gap:=fun n pool => pool.Gap n
    tracks_imp:=fun _ _ => trivial
    tracks_announce:=fun _ _ => trivial
    tracks_withdraw:=fun _ _ => trivial
    choose_none:=fun _ _ h => ⟨trivial,.inl (hgap _ _ _ _ _ _ h)⟩
    route_chosen:=fun _ _ _ _ _ => hrouted _ _ _ _ _ _ _
    route_unhinted:=fun _ _ => hrouted _ _ _ _ _ _ _ }

instance [Hashable Key] : IndexedRouter (KeyPersistentRouting Key Msg) :=
  .ofGap fun router job n hint pool world h => by
    change (router.chooseTargetWorker job n hint pool world).target=none at h
    unfold KeyPersistentRouting.chooseTargetWorker at h
    rcases hp : pickWorker pool (fun w => w.hasPendingKey job.key) world with ⟨_ | picked,world'⟩
    · rw [hp] at h
      dsimp only at h
      split at h
      · cases h
      · split at h
        next hn => exact .inl hn
        next hn => exact Pool.gap_of_filter (Nat.mod_lt _ (Nat.pos_of_ne_zero hn)) h
    · rw [hp] at h
      cases h

instance : IndexedRouter (RoundRobinRouting Key Msg) :=
  .ofGap fun router job n hint pool world h => by
    change (router.chooseTargetWorker job n hint pool world).target=none at h
    unfold RoundRobinRouting.chooseTargetWorker at h
    split at h
    next hn => exact .inl hn
    next hn =>
      split at h
      · cases h
      · exact Pool.gap_of_filter (router.nextWorker_lt hn) h

instance : IndexedRouter (CustomRouting Key Msg) :=
  .ofGap fun router job n hint pool world h => by
    change (router.chooseTargetWorker job n hint pool world).target=none at h
    unfold CustomRouting.chooseTargetWorker at h
    split at h
    next hn => exact .inl hn
    next hn => exact Pool.gap_of_filter (Nat.mod_lt _ (Nat.pos_of_ne_zero hn)) h

/-! ### The routers as one type -/

/-- An outcome at a component router, seen at the type of all routers. -/
theorem IndexedOutcome.map {R R' : Type} {T : R→(ℕ→Prop)→Prop} {T' : R'→(ℕ→Prop)→Prop}
    {S : Job Key Msg → WorkerProperties Key Msg→Prop} {G G' : Prop} {P : ℕ→Prop}
    {choice : Choice R Key Msg} (f : R→R')
    (h : IndexedOutcome T S G P pool job (routeByChoice pool job choice).result
      (routeByChoice pool job choice).pool (routeByChoice pool job choice).router)
    (hT : ∀r P,T r P→T' (f r) P) (hG : G→G') :
    let routed := (routeByChoice pool job choice).mapRouter f
    IndexedOutcome T' (fun _ _ => True) G' P pool job routed.result routed.pool routed.router := by
  have hr : ∀job',(routeByChoice pool job choice).result≠.rateLimited job' := by
    intro job'
    unfold routeByChoice
    split <;> simp
  unfold Routed.mapRouter
  dsimp only
  generalize routeByChoice pool job choice=routed at h hr ⊢
  obtain ⟨result,router,pool',world⟩:=routed
  dsimp only at h hr ⊢
  cases h with
  | handled lookup _ world tracks => exact .handled lookup (.inr trivial) world (hT _ _ tracks)
  | backlog tracks none => exact .backlog (hT _ _ tracks) (none.imp hG id)
  | rateLimited => exact absurd rfl (hr job)

instance [Hashable Key] : IndexedRouter (BareRouter Key Msg) where
  Tracks
    | .queuer router => router.toAvailableWorkers.Tracks
    | .stickyQueuer router => router.toAvailableWorkers.Tracks
    | _ => fun _ => True
  Sticks _ _:=True
  Gap n pool:=pool.Gap n
  tracks_imp {router _ _} ht h := by
    cases router with
    | queuer router | stickyQueuer router => exact ht.imp h
    | _ => trivial
  tracks_announce {router _} ht wid := by
    cases router with
    | queuer router | stickyQueuer router => exact ht.announce wid
    | _ => trivial
  tracks_withdraw {router _} ht wid := by
    cases router with
    | queuer router | stickyQueuer router => exact ht.withdraw wid
    | _ => trivial
  choose_none {router job n hint pool world P} hP ht h := by
    cases router with
    | keyPersistent router =>
      exact IndexedRouter.choose_none (R:=KeyPersistentRouting Key Msg) hP trivial h
    | queuer router =>
      have hc:=IndexedRouter.choose_none (R:=QueuerRouting Key Msg) hP ht h
      exact ⟨hc.1,.inr (hc.2.resolve_left id)⟩
    | stickyQueuer router =>
      have hc:=IndexedRouter.choose_none (R:=StickyQueuerRouting Key Msg) hP ht h
      exact ⟨hc.1,.inr (hc.2.resolve_left id)⟩
    | roundRobin router =>
      exact IndexedRouter.choose_none (R:=RoundRobinRouting Key Msg) hP trivial h
    | custom router => exact IndexedRouter.choose_none (R:=CustomRouting Key Msg) hP trivial h
  route_chosen {router job n hint pool world P} hP ht wid h world' := by
    cases router with
    | keyPersistent router =>
      have ho:=IndexedRouter.route_chosen (R:=KeyPersistentRouting Key Msg) hP trivial h world'
      exact ho.map keyPersistent (fun _ _ h => h) id
    | queuer router =>
      have ho:=IndexedRouter.route_chosen (R:=QueuerRouting Key Msg) hP ht h world'
      exact ho.map queuer (fun _ _ h => h) False.elim
    | stickyQueuer router =>
      have ho:=IndexedRouter.route_chosen (R:=StickyQueuerRouting Key Msg) hP ht h world'
      exact ho.map stickyQueuer (fun _ _ h => h) False.elim
    | roundRobin router =>
      have ho:=IndexedRouter.route_chosen (R:=RoundRobinRouting Key Msg) hP trivial h world'
      exact ho.map roundRobin (fun _ _ h => h) id
    | custom router =>
      have ho:=IndexedRouter.route_chosen (R:=CustomRouting Key Msg) hP trivial h world'
      exact ho.map custom (fun _ _ h => h) id
  route_unhinted {router job n pool world P} hP ht := by
    cases router with
    | keyPersistent router =>
      have ho := @IndexedRouter.route_unhinted (KeyPersistentRouting Key Msg) Key Msg _ _ _ router
        job n pool world P hP trivial
      exact ho.map keyPersistent (fun _ _ h => h) id
    | queuer router =>
      have ho := @IndexedRouter.route_unhinted (QueuerRouting Key Msg) Key Msg _ _ _ router job n
        pool world P hP ht
      exact ho.map queuer (fun _ _ h => h) False.elim
    | stickyQueuer router =>
      have ho := @IndexedRouter.route_unhinted (StickyQueuerRouting Key Msg) Key Msg _ _ _ router
        job n pool world P hP ht
      exact ho.map stickyQueuer (fun _ _ h => h) False.elim
    | roundRobin router =>
      have ho := @IndexedRouter.route_unhinted (RoundRobinRouting Key Msg) Key Msg _ _ _ router job
        n pool world P hP trivial
      exact ho.map roundRobin (fun _ _ h => h) id
    | custom router =>
      have ho := @IndexedRouter.route_unhinted (CustomRouting Key Msg) Key Msg _ _ _ router job n
        pool world P hP trivial
      exact ho.map custom (fun _ _ h => h) id

end Ractor.Factory
