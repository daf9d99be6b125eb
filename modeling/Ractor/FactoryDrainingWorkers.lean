import Ractor.FactoryRoutingAttempts

/-!
# Draining workers

A worker outside the pool size drains: it works off what it holds and then leaves the pool.
`DrainsOut` says that it never stays without a job, and that the only jobs it is given are
those of a key it already owns. The exit of a draining worker breaks both: unlike a completion,
it neither drops the replacement once that has nothing to do nor keeps the factory from routing
a job to it. `SparesDraining` asks exits not to get there.
-/

namespace Ractor.Factory
open LawfulRouter Router List FactoryMoves

variable {Key Msg R Q : Type} [DecidableEq Key]

open LawfulQueue (contents)
open FiniteMap (lookup_insert_eq_some lookup_erase_eq_some)
open WorkerProperties FactoryState

/-- A draining worker is only given jobs of a key it has pending. -/
def Effect.SparesDraining : Effect Key Msg → Prop
  | .enqueued w job => w.isDraining=true → w.hasPendingKey job.key=true
  | _ => True

instance (effect : Effect Key Msg) : Decidable effect.SparesDraining := by
  unfold Effect.SparesDraining
  split <;> infer_instance

structure DrainsOut (s : FactoryState Key Msg R Q) : Prop where
  busy : ∀wid w,s.pool.lookup wid=some w → w.isDraining=true → w.isAvailable=false
  spared : ∀effect∈s.world.log,effect.SparesDraining

/-- The log of the second world continues that of the first, and spares draining workers if
that one does. -/
def World.KeepsSparing (world world' : World Key Msg) : Prop :=
  (∀effect∈world.log,effect.SparesDraining) → ∀effect∈world'.log,effect.SparesDraining

variable {effect : Effect Key Msg} {w : WorkerProperties Key Msg} {wid : WorkerId}
  {s s' : FactoryState Key Msg R Q} {a b : Hand Key Msg R Q}

namespace World.KeepsSparing
variable {world world' : World Key Msg}

theorem of_writes (hw : world.Writes Effect.SparesDraining world') : world.KeepsSparing world' := by
  obtain ⟨effects,hl,he⟩:=hw
  intro h effect hm
  rw [hl] at hm
  rcases mem_append.mp hm with hm | hm
  · exact h effect hm
  · exact he effect hm

theorem of_log (hl : world'.log=world.log) : world.KeepsSparing world':=.of_writes (.of_log hl)

theorem of_record (hl : world'.log=world.log++[effect]) (he : effect.SparesDraining) :
    world.KeepsSparing world' :=
  .of_writes ⟨[effect],hl,by simpa using he⟩

end World.KeepsSparing

theorem Effect.IsHousekeeping.spares (h : effect.IsHousekeeping) : effect.SparesDraining := by
  cases effect <;> first | exact trivial | exact h.elim

theorem Effect.OfWorker.spares (h : effect.OfWorker w) : effect.SparesDraining := by
  cases effect <;> first | exact trivial | exact h.elim

theorem Frame.keepsSparing {d d' : Desk Key Msg} (h : Frame d d') : d.2.KeepsSparing d'.2 := by
  have hlog : d.2.Writes (fun effect => effect.OfWorker d.1) d'.2:=h.log
  exact .of_writes (hlog.imp fun _ he => he.spares)

namespace DrainsOut

theorem of_pool (hs : DrainsOut s) (hp : s'.pool=s.pool) (hw : s.world.KeepsSparing s'.world) :
    DrainsOut s' :=
  ⟨by rw [hp]; exact hs.busy,hw hs.spared⟩

theorem insert (hs : DrainsOut s) (hp : s'.pool=s.pool.insert wid w)
    (hb : w.isDraining=true→w.isAvailable=false) (hw : s.world.KeepsSparing s'.world) :
    DrainsOut s' := by
  refine ⟨fun k v hk hd => ?_,hw hs.spared⟩
  rw [hp] at hk
  rcases lookup_insert_eq_some.mp hk with ⟨_,rfl⟩ | ⟨_,hk⟩
  · exact hb hd
  · exact hs.busy k v hk hd

theorem erase (hs : DrainsOut s) (hp : s'.pool=s.pool.erase wid)
    (hw : s.world.KeepsSparing s'.world) : DrainsOut s' := by
  refine ⟨fun k v hk hd => ?_,hw hs.spared⟩
  rw [hp] at hk
  exact hs.busy k v (lookup_erase_eq_some.mp hk).2 hd

theorem housekeeping [Queue Q Key Msg] [LawfulQueue Q] (hs : DrainsOut s)
    (h : Housekeeping s s') : DrainsOut s' := by
  refine ⟨fun wid w' hl hd => ?_,?_⟩
  · obtain ⟨w,hw,hc⟩:=h.lookup hl
    simp only [WorkerProperties.core,Prod.mk.injEq] at hc
    obtain ⟨-,-,hq,hj,-,hdr⟩:=hc
    have hb:=hs.busy wid w hw (hdr ▸ hd)
    unfold isAvailable at hb ⊢
    rwa [hq,hj]
  · have hlog : s.world.Writes Effect.IsHousekeeping s'.world:=h.log
    exact World.KeepsSparing.of_writes (hlog.imp fun _ he => he.spares) hs.spared

end DrainsOut

/-! ### Routing -/

/-- A draining worker that is not available is a target only for a key it owns, provided that a
hint for it under the key persistent rule comes with a key that has an owner. -/
theorem RoutingRule.Targets.pending {rule : RoutingRule} {n : ℕ} {pool : Pool Key Msg}
    {hint : Option WorkerId} {key : Key} {wid : ℕ} (ht : rule.Targets n pool hint key wid w)
    (hc : w.Consistent) (hb : w.isAvailable=false) (hn : n≤wid)
    (hh : rule=.keyPersistent→hint=some wid →
      ∃k v,pool.lookup k=some v ∧ v.hasPendingKey key=true) : w.hasPendingKey key=true := by
  have hav : w.isAvailable≠true := by simp [hb]
  cases rule with
  | keyPersistent =>
    rcases ht with ht | ⟨hno,hw | hw⟩
    · exact ht
    · obtain ⟨k,v,hv,hp⟩:=hh rfl hw
      rw [hno k v hv] at hp
      cases hp
    · exact absurd hw (Nat.not_lt.mpr hn)
  | queuer => exact absurd ht.1 hav
  | stickyQueuer =>
    rcases ht with ht | ⟨_,ha,_⟩
    · exact (hc.hasPendingKey_iff key).mpr (.inl ht)
    · exact absurd ha hav
  | roundRobin =>
    rcases ht with ⟨_,ha⟩ | hw
    · exact absurd ha hav
    · exact absurd hw (Nat.not_lt.mpr hn)
  | custom => exact absurd (show wid<n from ht) (Nat.not_lt.mpr hn)

theorem DrainsOut.enqueue (hs : DrainsOut s) (hsh : Shaped s) (hc : WorkersConsistent s)
    {rule : RoutingRule} {hint : Option WorkerId} {job : Job Key Msg}
    (hl : s.pool.lookup wid=some w) (ht : rule.Targets s.poolSize s.pool hint job.key wid w)
    (hhi : rule=.keyPersistent→hint=some wid→w.isDraining=true →
      ∃k v,s.pool.lookup k=some v ∧ v.hasPendingKey job.key=true) :
    DrainsOut {s with
      pool:=s.pool.insert wid (w.enqueueJob job s.world).1
      world:=(w.enqueueJob job s.world).2} := by
  refine hs.insert rfl (fun _ => enqueueJob_not_available w job s.world) fun hlog => ?_
  refine (enqueueJob_frame w job s.world).keepsSparing fun effect hm => ?_
  rcases mem_append.mp hm with hm | hm
  · exact hlog effect hm
  · obtain rfl:=mem_singleton.mp hm
    intro hd
    exact ht.pending (hc wid w hl) (hs.busy wid w hl hd) ((hsh.draining wid w hl).mp hd)
      fun hr hh => hhi hr hh hd

section Routing
variable [Router R Key Msg] [LawfulRouter R] [Queue Q Key Msg] [LawfulQueue Q]
  {H : Option HandlerId→Prop} {hint : Option WorkerId}

/-- The hint is not for a draining worker, in case it counts without a look at the worker. -/
def SparesHint (hint : Option WorkerId) (s : FactoryState Key Msg R Q) : Prop :=
  rule s.router=.keyPersistent → ∀wid w,hint=some wid →
    s.pool.lookup wid=some w → w.isDraining=false

omit [LawfulQueue Q] [Queue Q Key Msg] in
theorem SparesHint.congr (h : SparesHint hint s)
    (hr : rule s'.router=rule s.router) (hp : SameProfile s s') :
    SparesHint hint s' := by
  intro hru wid w' hw hl
  obtain ⟨w,hlw,_,_,hd⟩:=hp.lookup hl
  rw [hd]
  exact h (hr ▸ hru) wid w hw hlw

theorem RoutingMove.rule (h : RoutingMove H hint a b) : rule b.1.router=rule a.1.router := by
  cases h with
  | quiet s hand hr hw => exact hr
  | keep hk => rw [hk.housekeeping.router]
  | _ => rfl

theorem RoutingMove.drainsOut (h : RoutingMove H hint a b) (hs : DrainsOut a.1)
    (hsh : Shaped a.1) (hc : WorkersConsistent a.1) (hhi : SparesHint hint a.1) :
    DrainsOut b.1 := by
  cases h with
  | quiet s hand hr hw =>
    obtain ⟨oracle,rfl⟩:=hw
    exact hs.of_pool rfl (.of_log rfl)
  | keep hk => exact hs.housekeeping hk.housekeeping
  | note s hand h => exact hs.housekeeping (.note s h)
  | arrive s job => exact hs.of_pool rfl (.of_record rfl trivial)
  | take | store => exact hs.of_pool rfl (.of_log rfl)
  | discard s job reason => exact hs.housekeeping (discard_housekeeping s reason job)
  | @enqueue s wid w job hl ht =>
    refine hs.enqueue hsh hc hl ht fun hr hh hd => ?_
    rw [hhi hr wid w hh hl] at hd
    cases hd

/-- Routing that is not started for a draining worker keeps draining workers draining. -/
theorem Routing.drainsOut (h : Routing H hint a b) (hs : DrainsOut a.1) (hsh : Shaped a.1)
    (hc : WorkersConsistent a.1) (hh : SparesHint hint a.1) : DrainsOut b.1 :=
  (h.preserves (P:=fun c => DrainsOut c.1 ∧ Shaped c.1 ∧ WorkersConsistent c.1 ∧
      SparesHint hint c.1)
    (fun _ _ hm hs => ⟨hm.drainsOut hs.1 hs.2.1 hs.2.2.1 hs.2.2.2,hs.2.1.congr hm.sameProfile,
      hm.workersConsistent hs.2.2.1,hs.2.2.2.congr hm.rule hm.sameProfile⟩)
    ⟨hs,hsh,hc,hh⟩).1

end Routing

/-! ### Replacing a worker -/

theorem nextNonExpired_isSome (queue : List (Job Key Msg)) (w : WorkerProperties Key Msg)
    (world : World Key Msg) (h : liveBacklog world.oracle.clock queue≠[]) :
    (nextNonExpired queue w world).1.isSome=true := by
  induction queue generalizing w world with
  | nil => exact absurd rfl h
  | cons job rest ih =>
    unfold liveBacklog at h
    unfold nextNonExpired
    change (if job.isExpired world.now=true then _ else _)≠[] at h
    split at h
    next he =>
      rw [if_pos he]
      exact ih _ _ (by rwa [World.discard_oracle])
    next he =>
      rw [if_neg he]
      rfl

/-- Giving up the active jobs touches neither the queue nor the clock. -/
theorem abandonJobs_frame (entries : List (Sigma fun _ : Key => JobOptions))
    (w : WorkerProperties Key Msg) (world : World Key Msg) :
    (abandonJobs entries w world).1.messageQueue=w.messageQueue ∧
      (abandonJobs entries w world).2.oracle=world.oracle := by
  unfold abandonJobs
  induction entries generalizing w world with
  | nil => exact ⟨rfl,rfl⟩
  | cons entry rest ih =>
    obtain ⟨hq,ho⟩:=ih (w.untrackPendingKey entry.1) (world.record (.abandoned w.actor entry.2))
    exact ⟨hq.trans (untrackPendingKey_messageQueue _ _),ho⟩

/-- A replaced worker with a job that is not expired goes on with it. -/
theorem replaceWorker_not_available (w : WorkerProperties Key Msg) (nworker : ActorId)
    (world : World Key Msg) (h : liveBacklog world.oracle.clock w.messageQueue≠[]) :
    (w.replaceWorker nworker world).1.isAvailable=false := by
  obtain ⟨hq,ho⟩:=abandonJobs_frame w.currJobs.entries {w with heartbeat:={},currJobs:=∅} world
  unfold replaceWorker dispatchNext getNextNonExpiredJob
  dsimp only
  generalize abandonJobs w.currJobs.entries {w with heartbeat:={},currJobs:=∅} world=desk at hq ho
  rw [← hq,← ho] at h
  have hn:=nextNonExpired_isSome desk.1.messageQueue {desk.1 with actor:=nworker} desk.2 h
  split
  next hr => exact dispatchJob_not_available _ _ _
  next hr =>
    rw [hr] at hn
    cases hn

namespace FactoryState

/-- The replacement of a draining worker drains, if the worker had a job left that is not
expired. -/
theorem replaceExited_drainsOut [Router R Key Msg] [Queue Q Key Msg] [LawfulQueue Q]
    {t : FactoryState Key Msg R Q} {who : ActorId} {worker : WorkerProperties Key Msg}
    (h : s.replaceExited who wid worker=.ok t) (hc : worker.Consistent)
    (hl : worker.isDraining=true →
      liveBacklog s.world.oracle.clock worker.messageQueue≠[]) (hs : DrainsOut s) :
    DrainsOut t := by
  obtain ⟨replacement,world,hsp,hk⟩:=replaceExited_cases h
  obtain ⟨gap,-,-,-,hlog⟩:=s.world.spawn_ok hsp
  have hcl:=s.world.spawn_clock hsp
  have hf:=replaceWorker_frame hc.slot replacement world
  refine (hs.insert rfl (fun hd => ?_) fun hspa => ?_).housekeeping hk
  · have hdr : (worker.replaceWorker replacement world).1.isDraining=worker.isDraining :=
      hf.isDraining
    refine replaceWorker_not_available worker replacement world ?_
    rw [hcl]
    exact hl (hdr ▸ hd)
  · refine hf.keepsSparing fun effect hm => ?_
    rw [hlog] at hm
    rcases mem_append.mp hm with hm | hm
    · rcases mem_append.mp hm with hm | hm
      · exact hspa effect hm
      · obtain rfl:=mem_singleton.mp hm
        exact trivial
    · obtain ⟨entry,_,rfl⟩:=mem_map.mp hm
      exact trivial

end FactoryState

/-! ### Completions and resizes -/

namespace FactoryState

theorem completeJob_keepsSparing (hc : WorkersConsistent s) (who : WorkerId) (key : Key) :
    s.world.KeepsSparing (s.completeJob who key).world := by
  unfold completeJob
  split
  next => exact .of_log rfl
  next worker hl => exact (workerComplete_frame (hc who worker hl).slot key s.world).keepsSparing

/-- After a completion, only the worker it is about may drain without a job. -/
theorem completeJob_drainsOut (hs : DrainsOut s) (hc : WorkersConsistent s) (who : WorkerId)
    (key : Key) (hb : ∀w,(s.completeJob who key).pool.lookup who=some w→w.isDraining=true →
      w.isAvailable=false) : DrainsOut (s.completeJob who key) := by
  refine ⟨fun wid w hl hd => ?_,completeJob_keepsSparing hc who key hs.spared⟩
  by_cases hw : wid=who
  · subst hw
    exact hb w hl hd
  · rw [(completeJob_frame s who key).2.2.2 wid hw] at hl
    exact hs.busy wid w hl hd

variable [Router R Key Msg]

theorem addWorker_drainsOut (h : s.addWorker wid=.ok s') (hs : DrainsOut s) : DrainsOut s' := by
  obtain ⟨_,_,hsp,rfl⟩:=addWorker_ok h
  obtain ⟨_,-,-,-,hlog⟩:=s.world.spawn_ok hsp
  exact hs.insert rfl nofun (.of_record hlog trivial)

theorem growWorker_drainsOut (h : s.growWorker wid=.ok s') (hs : DrainsOut s) : DrainsOut s' := by
  unfold growWorker at h
  split at h
  next => exact addWorker_drainsOut h hs
  next existing hl =>
    cases h
    exact hs.insert rfl nofun (.of_log rfl)

theorem growPool_drainsOut [Queue Q Key Msg] [LawfulQueue Q] {toAdd : ℕ}
    (h : s.growPool toAdd=.ok s') (hs : DrainsOut s) : DrainsOut s' :=
  growPool_rec (P:=fun _ t => DrainsOut t) h (fun _ _ _ _ _ ht hg => growWorker_drainsOut hg ht)
    (fun _ t ht => ht.housekeeping (pingWorkers_housekeeping t)) hs

/-- A shrink lets only working workers drain. -/
theorem shrinkPool_drainsOut (hs : DrainsOut s) (toRemove : ℕ) :
    DrainsOut (s.shrinkPool toRemove) :=
  shrinkPool_rec (fun _ _ _ _ _ hw ht => ht.insert rfl (fun _ => hw) (.of_log rfl))
    (fun _ _ _ _ _ _ ht => ht.erase rfl (.of_record rfl trivial)) hs

end FactoryState

/-! ### The job a limiter lets through -/

section Admission
variable {L : Type} [RateLimiter L]

/-- The first job of a backlog that a rate limiter admits; each check reads the clock anew. -/
def firstAdmitted (clock : ℕ → Instant) (limiter : L) : List (Job Key Msg) → Option (Job Key Msg)
  | [] => none
  | job::rest =>
    let checked := RateLimiter.check limiter (clock 0)
    if checked.1 then some job else firstAdmitted (fun i => clock (i+1)) checked.2 rest

/-- The job of a backlog that a router can get to. -/
def BuiltInRouter.admitted (clock : ℕ → Instant) :
    BuiltInRouter Key Msg L → List (Job Key Msg) → Option (Job Key Msg)
  | .bare _,jobs => jobs.head?
  | .rateLimited limited,jobs => firstAdmitted clock limited.rateLimiter jobs

variable [Hashable Key] (router : BuiltInRouter Key Msg L) (job : Job Key Msg)

theorem BuiltInRouter.choose_admitted (n : ℕ) (hint : Option WorkerId) (pool : Pool Key Msg)
    (world : World Key Msg) (jobs : List (Job Key Msg)) :
    (chooseTargetWorker router job n hint pool world).router.admitted
        (chooseTargetWorker router job n hint pool world).world.oracle.clock jobs =
      router.admitted world.oracle.clock jobs := by
  rw [router.choose_clock]
  cases router <;> rfl

/-- A handled job is the one the limiter lets through, and a rate limited one leaves that to
the rest of the backlog. -/
theorem BuiltInRouter.route_admitted (n : ℕ) (hint : Option WorkerId) (pool : Pool Key Msg)
    (world : World Key Msg) (rest : List (Job Key Msg)) :
    ((routeMessage router job n hint pool world).result=.handled →
      router.admitted world.oracle.clock (job::rest)=some job) ∧
    (∀job',(routeMessage router job n hint pool world).result=.rateLimited job' →
      (routeMessage router job n hint pool world).router.admitted
          (routeMessage router job n hint pool world).world.oracle.clock rest =
        router.admitted world.oracle.clock (job::rest)) := by
  cases router with
  | bare router =>
    refine ⟨fun _ => rfl,fun job' h => ?_⟩
    change (routeMessage router job n hint pool world).result=_ at h
    rcases routeMessage_cases router job n hint pool world with
      ⟨_,_,_,_,_,_,hr,_⟩ | ⟨_,hr,_⟩
    · rw [hr] at h
      cases h
    · rw [hr] at h
      cases h
  | rateLimited limited =>
    change ((limited.routeMessage job n hint pool world).result=.handled→_) ∧
      ∀job',(limited.routeMessage job n hint pool world).result=.rateLimited job' →
        firstAdmitted (limited.routeMessage job n hint pool world).world.oracle.clock
          (limited.routeMessage job n hint pool world).router.rateLimiter rest =
        firstAdmitted world.oracle.clock limited.rateLimiter (job::rest)
    have ha : firstAdmitted world.oracle.clock limited.rateLimiter (job::rest) =
        if (RateLimiter.check limited.rateLimiter world.now).1 then some job
        else firstAdmitted world.tick.oracle.clock
          (RateLimiter.check limited.rateLimiter world.now).2 rest:=rfl
    unfold RateLimitedRouter.routeMessage
    dsimp only
    split
    next hc =>
      rw [if_pos hc] at ha
      refine ⟨fun _ => ha,fun job' h => ?_⟩
      -- the inner router has no limiter of its own
      rcases routeMessage_cases limited.router job n hint pool world.tick with
        ⟨_,_,_,_,_,_,hr,_⟩ | ⟨_,hr,_⟩
      · rw [hr] at h
        cases h
      · rw [hr] at h
        cases h
    next hc =>
      rw [if_neg hc] at ha
      split <;> exact ⟨by rintro ⟨⟩,fun _ _ => ha.symm⟩

end Admission

/-! ### Guards on exits -/

section Guard
variable {L : Type} [RateLimiter L] [Hashable Key] [Queue Q Key Msg] [LawfulQueue Q]

/-- The job of the backlog that a routing attempt can get to, once expired jobs are gone. -/
def FactoryState.admitted (s : FactoryState Key Msg (BuiltInRouter Key Msg L) Q) :
    Option (Job Key Msg) :=
  let s := expireHead (Queue.len s.queue) s
  s.router.admitted s.world.oracle.clock (contents s.queue)

/-- Under the key persistent rule, the job the attempt can get to has a key with an owner. -/
def Attempt.FindsOwner (attempt : Attempt Key Msg (BuiltInRouter Key Msg L) Q) : Prop :=
  rule attempt.state.router=.keyPersistent → ∀job∈attempt.state.admitted,
      ∃entry∈attempt.state.pool.entries,entry.2.hasPendingKey job.key=true

instance (attempt : Attempt Key Msg (BuiltInRouter Key Msg L) Q) : Decidable attempt.FindsOwner :=
  inferInstanceAs (Decidable (_→_))

/-- A draining worker that exits has a job left that is not expired, and the routing that follows
does not get to a job without an owner. -/
def FactoryState.SparesDraining (s : FactoryState Key Msg (BuiltInRouter Key Msg L) Q) :
    Work Key Msg → Prop
  | .exited who =>
    ∀wid∈s.workerByActor.lookup who,∀worker∈s.pool.lookup wid,worker.isDraining=true →
      liveBacklog s.world.oracle.clock worker.messageQueue≠[] ∧
        ∀attempt∈s.attempts (.exited who),attempt.FindsOwner
  | _ => True

instance (s : FactoryState Key Msg (BuiltInRouter Key Msg L) Q) :
    ∀work,Decidable (s.SparesDraining work)
  | .exited _ => by
    unfold SparesDraining
    infer_instance
  | .dispatch _ => .isTrue trivial
  | .finished _ _ => .isTrue trivial
  | .resized _ => .isTrue trivial

namespace FactoryState
variable {hint : Option WorkerId} {s s' : FactoryState Key Msg (BuiltInRouter Key Msg L) Q}

/-- Under the key persistent rule, the loop only hands out the job that is let through. -/
theorem routeHead_drainsOut {fuel : ℕ} (h : routeHead hint fuel s=.ok s')
    (hru : rule s.router=.keyPersistent)
    (ho : ∀job∈s.router.admitted s.world.oracle.clock (contents s.queue),
      ∃k v,s.pool.lookup k=some v ∧ v.hasPendingKey job.key=true)
    (hs : DrainsOut s) (hsh : Shaped s) (hc : WorkersConsistent s) : DrainsOut s' := by
  replace h:=routeHead_routed h
  induction h with
  | spent | empty => exact hs
  | @untargeted _ s head _ choice _ hch _ =>
    subst hch
    exact hs.of_pool rfl (.of_log (choose_world ..).log)
  | @handled _ s head rest choice worker _ _ _ hp hch hta hr =>
    obtain ⟨-,wid,w,world,hq,hl,ht,rfl,rfl⟩:=handled_outcome hch hta hr
    have ha:=(choice.router.route_admitted head s.poolSize (some worker) s.pool
      choice.world (contents rest)).1 (by rw [hr])
    have hcho:=s.router.choose_admitted head s.poolSize hint s.pool s.world (head::contents rest)
    rw [hch,ha] at hcho
    have hne : DrainsOut {s with queue:=rest,world:=world} := hs.of_pool rfl (.of_log hq.log)
    have hn : Shaped {s with queue:=rest,world:=world} :=
      hsh.congr (.of_pool rfl rfl rfl hq.nextPid)
    refine (hne.enqueue hn hc hl ht fun _ _ _ => ho head ?_).of_pool rfl (.of_log rfl)
    rw [hp.contents,← hcho]
    rfl
  | @limited _ s _ _ head rest choice worker router _ world hp hch _ hr _ ih =>
    obtain ⟨rfl,rfl,hro,hq⟩:=limited_outcome hch hr
    have hli:=(choice.router.route_admitted head s.poolSize (some worker) s.pool
      choice.world (contents rest)).2 head (by rw [hr])
    have hcho:=s.router.choose_admitted head s.poolSize hint s.pool s.world (contents s.queue)
    rw [hr] at hli
    rw [hch,hp.contents] at hcho
    rw [hp.contents,← hcho,← hli] at ho
    have hk:=discardAndReject_housekeeping
      {s with queue:=rest,router:=router,world:=world} .rateLimited head
    have hne : DrainsOut {s with queue:=rest,router:=router,world:=world} :=
      hs.of_pool rfl (.of_log hq.log)
    have hn : Shaped {s with queue:=rest,router:=router,world:=world} :=
      hsh.congr (.of_pool rfl rfl rfl hq.nextPid)
    refine ih (hro.trans hru) ?_ (hne.housekeeping hk) (hn.congr hk.sameProfile) hc
    simpa only [discardAndReject,World.reject_oracle,World.discard_oracle] using ho

theorem tryRouteNextActiveJob_drainsOut (h : s.tryRouteNextActiveJob hint=.ok s')
    (hh : SparesHint hint s ∨ Attempt.FindsOwner ⟨hint,0,s⟩) (hs : DrainsOut s)
    (hsh : Shaped s) (hc : WorkersConsistent s) : DrainsOut s' := by
  rcases hh with hh | ho
  · exact (tryRouteNextActiveJob_routing h : Routing (fun _ => True) _ _ _).drainsOut hs hsh hc hh
  · by_cases hru : rule s.router=.keyPersistent
    · have hk:=expireHead_housekeeping (Queue.len s.queue) s
      have hp:=expireHead_pool (Queue.len s.queue) s
      refine routeHead_drainsOut h (hk.router ▸ hru) ?_ (hs.housekeeping hk)
        (hsh.congr hk.sameProfile) (hk.workersConsistent hc)
      intro job hm
      obtain ⟨entry,he,hpe⟩:=ho hru job hm
      rw [hp]
      exact ⟨entry.1,entry.2,AList.mem_lookup_iff.mpr he,hpe⟩
    · exact (tryRouteNextActiveJob_routing h : Routing (fun _ => True) _ _ _).drainsOut hs hsh hc
        fun hr => absurd hr hru

theorem routeToFreed_drainsOut (h : s.routeToFreed wid=.ok s')
    (hh : SparesHint (some wid) s ∨ Attempt.FindsOwner ⟨some wid,0,s⟩) (hs : DrainsOut s)
    (hsh : Shaped s) (hc : WorkersConsistent s) : DrainsOut s' := by
  obtain ⟨t,hr,hp,-,hw⟩:=routeToFreed_attempt h
  exact (tryRouteNextActiveJob_drainsOut hr hh hs hsh hc).of_pool hp (.of_log (by rw [hw]))

theorem workerFinishedJob_drainsOut {who : WorkerId} {key : Key}
    (h : s.workerFinishedJob who key=.ok s') (hs : DrainsOut s) (hsh : Shaped s)
    (hc : WorkersConsistent s) : DrainsOut s' := by
  have hco:=completeJob_drainsOut hs hc who key
  have ht:=hsh.congr (completeJob_sameProfile hc who key)
  have htc : WorkersConsistent (s.completeJob who key) :=
    workersConsistent (H:=fun _ => True) (completeJob_moves s who key) hc
  cases workerFinishedJob_cases h with
  | draining hl _ ha =>
    refine hco fun w hw _ => ?_
    rw [hl] at hw
    cases hw
    exact ha
  | @dropped worker _ _ _ =>
    have hsp : ((s.completeJob who key).dropWorker who worker).world.log =
        (s.completeJob who key).world.log++[.stopped worker.actor]:=rfl
    refine ⟨fun wid w hl hd => ?_,World.KeepsSparing.of_record hsp trivial
      (completeJob_keepsSparing hc who key hs.spared)⟩
    obtain ⟨hne,hl⟩:=lookup_erase_eq_some.mp hl
    rw [(completeJob_frame s who key).2.2.2 wid hne] at hl
    exact hs.busy wid w hl hd
  | freed hd hr =>
    have hn : ∀w,(s.completeJob who key).pool.lookup who=some w→w.isDraining=false := by
      intro w hw
      rw [hw] at hd
      exact hd
    refine routeToFreed_drainsOut hr (.inl fun _ wid w hwid hw => ?_)
      (hco fun w hw hdr => ?_) ht htc
    · cases hwid
      exact hn w hw
    · rw [hn w hw] at hdr
      cases hdr

theorem handleExit_drainsOut {who : ActorId} (h : s.handleExit who=.ok s')
    (hg : s.SparesDraining (.exited who)) (hs : DrainsOut s) (hsh : Shaped s)
    (hc : WorkersConsistent s) : DrainsOut s' := by
  cases handleExit_cases h with
  | unknown => exact hs
  | @replaced wid worker t _ hi hl ht hr =>
    have hgu:=hg wid hi worker hl
    have htd:=replaceExited_drainsOut ht (hc wid worker hl) (fun hd => (hgu hd).1) hs
    have hts:=replaceExited_shape hsh hc hi hl ht
    have htc : WorkersConsistent t :=
      workersConsistent (H:=fun _ => True) (replaceExited_moves hi hl ht) hc
    refine routeToFreed_drainsOut hr ?_ htd hts htc
    cases hd : worker.isDraining with
    | true => exact .inr ((hgu hd).2 _ (mem_attempts_exited hi hl ht))
    | false =>
      refine .inl fun _ k v hk hv => ?_
      obtain rfl : worker.wid=k:=Option.some.inj hk
      obtain ⟨_,_,_,hke⟩:=replaceExited_cases ht
      have hsi : t.poolSize=s.poolSize:=hke.poolSize
      rw [hsh.own wid worker hl] at hv
      have hb:=hsh.draining wid worker hl
      have ha:=hts.draining wid v hv
      rw [hsi,← hb,hd] at ha
      simpa using ha

theorem resizePool_drainsOut {requestedPoolSize : ℕ} (h : s.resizePool requestedPoolSize=.ok s')
    (hs : DrainsOut s) (hsh : Shaped s) (hc : WorkersConsistent s) : DrainsOut s' := by
  cases resizePool_cases h with
  | unchanged => exact hs
  | @grown t _ newPoolSize _ hlt hgr hr =>
    have hg : DrainsOut {t with poolSize:=newPoolSize} :=
      (growPool_drainsOut hgr hs).of_pool rfl (.of_log rfl)
    have htc : WorkersConsistent t := workersConsistent (H:=fun _ => True) (growPool_moves hgr) hc
    exact (routeBacklog_routing hr : Routing (fun _ => True) none _ _).drainsOut hg
      (growPool_shaped hsh hlt hgr) htc (fun _ _ _ hn => by cases hn)
  | shrunk => exact (shrinkPool_drainsOut hs _).of_pool rfl (.of_log rfl)

theorem work_drainsOut {work : Work Key Msg} (h : s.work work=.ok s') (hg : s.SparesDraining work)
    (hs : DrainsOut s) (hsh : Shaped s) (hc : WorkersConsistent s) : DrainsOut s' := by
  cases work with
  | dispatch job =>
    exact (dispatch_routing h : Routing (fun _ => True) none _ _).drainsOut hs hsh hc
      (fun _ _ _ hn => by cases hn)
  | finished who key => exact workerFinishedJob_drainsOut h hs hsh hc
  | exited who => exact handleExit_drainsOut h hg hs hsh hc
  | resized requestedPoolSize => exact resizePool_drainsOut h hs hsh hc

theorem starts_drainsOut {args : FactoryArguments (BuiltInRouter Key Msg L) Q}
    (h : Starts args s) : DrainsOut s := by
  refine starts_rec (P:=fun _ t => DrainsOut t) ?_ (fun _ _ _ ha ht => addWorker_drainsOut ha ht)
    (fun _ _ _ hk ht => ht.housekeeping hk) h
  intro oracle firstPid firstJob _
  refine ⟨fun wid w hl => ?_,fun effect hm => ?_⟩
  · cases hl
  · cases hm

end FactoryState
end Guard

/-- Draining workers leave the pool once idle, as long as exits of draining workers are spared:
a worker that drains, or is outside the pool size, has an active or a queued job, and every job
it was given has a key it already owned. -/
theorem draining_workers_leave {L P : Type} [Hashable Key] [RateLimiter L] [Priority P]
    (args : FactoryArguments (BuiltInRouter Key Msg L) (BuiltInQueue Key Msg P))
    {s : FactoryState Key Msg (BuiltInRouter Key Msg L) (BuiltInQueue Key Msg P)}
    (h : Reachable (Starts args) (guarded (WorkMeets SparesDraining) Step) s) :
    (∀wid w,s.pool.lookup wid=some w → w.isDraining=true ∨ s.poolSize≤wid →
      w.currJobs≠∅ ∨ w.messageQueue≠[]) ∧
    ∀w job,.enqueued w job∈s.world.log → w.isDraining=true → w.hasPendingKey job.key=true := by
  obtain ⟨hs,hshape,-⟩:=FactoryState.shaped_rec (P:=DrainsOut)
    (fun _ hs => FactoryState.starts_drainsOut hs) (fun _ _ hk hs => hs.housekeeping hk)
    (fun _ _ _ hg hw hshape hc hs => FactoryState.work_drainsOut hw hg hs hshape hc) h
  refine ⟨fun wid w hl hd => ?_,fun w job hm => hs.spared _ hm⟩
  have hb:=hs.busy wid w hl (hd.elim id (hshape.draining wid w hl).mpr)
  by_contra hidle
  push Not at hidle
  have ha:=w.isAvailable_iff.mpr ⟨congrArg AList.entries hidle.1,hidle.2⟩
  rw [hb] at ha
  cases ha

/-- Two workers with an active and a queued job each. The second one drains, exits and goes on
with its queued job. -/
theorem draining_workers_leave_replayed :
    ∃s,Reachable (Starts (.plain 2 (.bare (.roundRobin {}) : BuiltInRouter ℕ Unit Unlimited)))
        (guarded (WorkMeets SparesDraining) Step) s ∧
      (s.pool.lookup 1).any WorkerProperties.isDraining=true ∧
      (∀wid w,s.pool.lookup wid=some w→w.isDraining=true ∨ s.poolSize≤wid →
        w.currJobs≠∅ ∨ w.messageQueue≠[]) ∧
      ∀w job,.enqueued w job∈s.world.log→w.isDraining=true → w.hasPendingKey job.key=true := by
  obtain ⟨s,hs,ht⟩:=FactoryState.exists_guarded
    (.plain 2 (.bare (.roundRobin {}) : BuiltInRouter ℕ Unit Unlimited))
    (WorkMeets SparesDraining)
    (fun s label => decide (WorkMeets SparesDraining s label))
    (fun _ _ => of_decide_eq_true) .calm 10
    (calmly [.dispatch (.plain 1),.dispatch (.plain 2),.dispatch (.plain 3),.dispatch (.plain 4),
      .adjustWorkerPool 1]++[(.supervision (.actorFailed (.ofLocal 11)),.calm)])
    (fun s => (s.pool.lookup 1).any WorkerProperties.isDraining) rfl (by decide +kernel)
  exact ⟨s,hs,ht,draining_workers_leave _ hs⟩

/-- Two workers with an active job each. The second one drains and exits: its replacement has
nothing to do but stays in the pool, and is given the next job. -/
theorem draining_worker_stays :
    (∃s,Reached (.plain 2 (.bare (.queuer {}) : BuiltInRouter ℕ Unit Unlimited)) s ∧
      ∃w,s.pool.lookup 1=some w ∧ w.isDraining=true ∧ w.isAvailable=true) ∧
    ∃s,Reached (.plain 2 (.bare (.queuer {}) : BuiltInRouter ℕ Unit Unlimited)) s ∧
      ∃effect∈s.world.log,∃w job,effect=.enqueued w job ∧ w.isDraining=true ∧
        w.hasPendingKey job.key=false := by
  have hreach:=FactoryState.exists_reached
    (.plain 2 (.bare (.queuer {}) : BuiltInRouter ℕ Unit Unlimited)) .calm 10
  constructor
  · obtain ⟨s,hs,ht⟩:=hreach
      (calmly [.dispatch (.plain 1),.dispatch (.plain 2),.adjustWorkerPool 1]++[(.supervision
        (.actorFailed (.ofLocal 11)),.calm)])
      (fun s => (s.pool.lookup 1).any fun w => w.isDraining && w.isAvailable) rfl
      (by decide +kernel)
    obtain ⟨w,hl,hw⟩:=(Option.any_eq_true _ _).mp ht
    exact ⟨s,hs,w,hl,Bool.and_eq_true_iff.mp hw⟩
  · obtain ⟨s,hs,ht⟩:=hreach
      (calmly [.dispatch (.plain 1),.dispatch (.plain 2),.adjustWorkerPool 1]++[(.supervision
        (.actorFailed (.ofLocal 11)),.calm)]++calmly [.dispatch (.plain 3)])
      (fun s => decide (∃effect∈s.world.log,¬effect.SparesDraining)) rfl (by decide +kernel)
    obtain ⟨effect,hm,he⟩:=of_decide_eq_true ht
    unfold Effect.SparesDraining at he
    split at he
    next w job =>
      obtain ⟨hd,hp⟩:=Classical.not_imp.mp he
      exact ⟨s,hs,_,hm,w,job,rfl,hd,Bool.eq_false_iff.mpr hp⟩
    next => exact absurd trivial he

end Ractor.Factory
