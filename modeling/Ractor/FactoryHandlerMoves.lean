import Ractor.FactoryMoves

/-!
# Handlers as chains of moves

`FactoryMove` completes `RoutingMove` by the moves that change an active job from
outside or the set of workers. `handleEvent_moves` and `starts_moves` say that every
handler and the start-up are chains of such moves, and `reached_invariant` turns an
invariant of moves into one of runs.
-/

namespace Ractor.Factory
open WorkerProperties LawfulRouter Option

variable {Key Msg R Q : Type} {H : Option HandlerId→Prop} {hint : Option WorkerId}
  {s s' : FactoryState Key Msg R Q} {wid : WorkerId} {who : ActorId} {key : Key}
  {args : FactoryArguments R Q}

/-- The event installs no discard handler that `H` forbids. -/
def FactoryEvent.Installs (H : Option HandlerId → Prop) : FactoryEvent Key Msg → Prop
  | .message (.updateSettings request) =>
    ∀handler,request.discardHandler=some handler → H handler
  | _ => True

inductive Work (Key Msg : Type) where
  | dispatch (job : Job Key Msg)
  | finished (who : WorkerId) (key : Key)
  | exited (who : ActorId)
  | resized (requestedPoolSize : ℕ)

namespace FactoryState

theorem installs_all (event : FactoryEvent Key Msg) : event.Installs fun _ => True := by
  unfold FactoryEvent.Installs
  split <;> simp

theorem pingWorkers_lookup_none (s : FactoryState Key Msg R Q) (h : s.pool.lookup wid=none) :
    s.pingWorkers.pool.lookup wid=none := by
  refine FiniteMap.visit_rec sendFactoryPing (fun pool _ => pool.lookup wid=none) ?_ _ _ _ h
  intro pool world k w hk hn
  have hne : wid≠k := by
    rintro rfl
    cases hk.symm.trans hn
  rwa [AList.lookup_insert_ne hne]

/-! ### The cases of the handlers -/

variable [Router R Key Msg]

/-- A growth goes worker id by worker id, and may end with a ping to everyone. -/
theorem growPool_rec {P : ℕ→FactoryState Key Msg R Q→Prop} {toAdd : ℕ} (h : s.growPool toAdd=.ok s')
    (grow : ∀wid t t',s.poolSize≤wid→wid<s.poolSize+toAdd→P wid t →
      t.growWorker wid=.ok t'→P (wid+1) t') (ping : ∀n t,P n t→P n t.pingWorkers)
    (hs : P s.poolSize s) : P (s.poolSize+toAdd) s' := by
  unfold growPool at h
  cases hf : (List.range' s.poolSize toAdd).foldlM growWorker s with
  | error e => simp [hf] at h
  | ok t =>
    rw [hf] at h
    cases h
    have ht : P (s.poolSize+toAdd) t:=foldlM_range'_rec grow hf hs
    split
    · exact ping _ t ht
    · exact ht

/-- A shrink goes worker id by worker id: a working worker starts to drain, a free one is
stopped and removed. -/
theorem shrinkPool_rec {P : FactoryState Key Msg R Q→Prop} {toRemove : ℕ}
    (drain : ∀wid w t,s.poolSize - toRemove≤wid→t.pool.lookup wid=some w→w.isAvailable=false→P t →
      P {t with pool:=t.pool.insert wid (w.setDraining true)})
    (remove : ∀wid w t,s.poolSize - toRemove≤wid→t.pool.lookup wid=some w→w.isAvailable=true→P t →
      P {t.dropWorker wid w with router:=Router.onWorkerAvailabilityChange t.router wid false})
    (hs : P s) : P (s.shrinkPool toRemove) := by
  refine foldl_range'_rec (P:=fun _ t => P t) ?_ hs
  intro wid t hle _ ht
  unfold shrinkWorker
  split
  · exact ht
  next w hl =>
    split
    next hw => exact drain wid w t hle hl (w.isWorking_iff.mp hw) ht
    next hw => exact remove wid w t hle hl (by simpa [isWorking] using hw) ht

theorem addWorker_ok (h : s.addWorker wid=.ok s') :
    ∃actor world,s.world.spawn wid=.ok (actor,world) ∧ s' =
      { s with
        pool:=s.pool.insert wid (.new wid actor s.workerSettings s.discardHandler)
        workerByActor:=s.workerByActor.insert actor wid
        router:=Router.onWorkerAvailabilityChange s.router wid true
        world:=world } := by
  unfold addWorker at h
  split at h
  · cases h
  next actor world hs => exact ⟨actor,world,hs,(Except.ok.inj h).symm⟩

theorem addWorker_lookup (h : s.addWorker wid=.ok s') {wid' : WorkerId} (hne : wid'≠wid) :
    s'.pool.lookup wid'=s.pool.lookup wid' := by
  obtain ⟨_,_,-,rfl⟩:=addWorker_ok h
  exact AList.lookup_insert_ne hne

theorem addWorker_queue (h : s.addWorker wid=.ok s') : s'.queue=s.queue := by
  obtain ⟨_,_,-,rfl⟩:=addWorker_ok h
  rfl

/-- The start spawns worker by worker, and may end with a ping to everyone. -/
theorem preStart_rec {oracle : Oracle} {firstPid firstJob : ℕ}
    {P : ℕ→FactoryState Key Msg R Q→Prop} (h : preStart args oracle firstPid firstJob=.ok s)
    (add : ∀n t t',P n t→t.addWorker n=.ok t'→P (n+1) t')
    (ping : ∀n t,P n t→P n t.pingWorkers)
    (hi : P 0 (initial args oracle firstPid firstJob)) : P args.numInitialWorkers s := by
  unfold preStart at h
  cases hf : (List.range args.numInitialWorkers).foldlM addWorker
    (initial args oracle firstPid firstJob : FactoryState Key Msg R Q) with
  | error e => simp [hf] at h
  | ok t =>
    rw [hf] at h
    rw [List.range_eq_range'] at hf
    have ht : P (0+args.numInitialWorkers) t :=
      foldlM_range'_rec (fun n t t' _ _ => add n t t') hf hi
    rw [Nat.zero_add] at ht
    cases h
    split
    · exact ping _ t ht
    · exact ht

/-- The work an event asks for, with the state in which it begins: settings are applied and
the capacity controller is asked before a resize. -/
def workOf (s : FactoryState Key Msg R Q) :
    FactoryEvent Key Msg → Option (FactoryState Key Msg R Q × Work Key Msg)
  | .message (.dispatch job) => some (s,.dispatch job)
  | .message (.finished who key) => some (s,.finished who key)
  | .message (.adjustWorkerPool requestedPoolSize) => some (s,.resized requestedPoolSize)
  | .message (.updateSettings request) =>
    request.workerCount.map fun workerCount => (s.applySettings request,.resized workerCount)
  | .message .calculate =>
    if s.capacityController ∧ s.poolSize≠s.world.askSize.1 then
      some ({s with world:=s.world.askSize.2},.resized s.world.askSize.1)
    else none
  | .supervision (.actorTerminated who) => some (s,.exited who)
  | .supervision (.actorFailed who) => some (s,.exited who)
  | _ => none

section WorkOf
variable {a : FactoryState Key Msg R Q} {event : FactoryEvent Key Msg}

/-- Settings are applied and the controller is asked before a resize only. -/
theorem workOf_dispatch {job : Job Key Msg} (h : s.workOf event=some (a,.dispatch job)) :
    event=.message (.dispatch job) ∧ a=s := by
  unfold workOf at h
  split at h
  case h_1 =>
    cases h
    exact ⟨rfl,rfl⟩
  case h_4 => simp at h
  case h_5 => split at h <;> cases h
  all_goals cases h

theorem workOf_finished {who : WorkerId} (h : s.workOf event=some (a,.finished who key)) :
    event=.message (.finished who key) ∧ a=s := by
  unfold workOf at h
  split at h
  case h_2 =>
    cases h
    exact ⟨rfl,rfl⟩
  case h_4 => simp at h
  case h_5 => split at h <;> cases h
  all_goals cases h

end WorkOf

variable [Queue Q Key Msg]

/-- The ways a resize can go: nothing to do, a growth followed by routing rounds, a shrink. -/
inductive Resized (s : FactoryState Key Msg R Q) (requestedPoolSize : ℕ) :
    FactoryState Key Msg R Q→Prop where
  | unchanged : Resized s requestedPoolSize s
  | grown {t s' : FactoryState Key Msg R Q} {newPoolSize : ℕ}
      (hn : newPoolSize=min globalWorkerPoolMaximum requestedPoolSize)
      (hlt : s.poolSize<newPoolSize) (hg : s.growPool (newPoolSize - s.poolSize)=.ok t)
      (hr : routeBacklog newPoolSize {t with poolSize:=newPoolSize}=.ok s') :
      Resized s requestedPoolSize s'
  | shrunk {newPoolSize : ℕ} (hn : newPoolSize=min globalWorkerPoolMaximum requestedPoolSize)
      (hpos : 0<newPoolSize) (hlt : newPoolSize<s.poolSize) :
      Resized s requestedPoolSize
        {s.shrinkPool (s.poolSize - newPoolSize) with poolSize:=newPoolSize}

theorem resizePool_cases {requestedPoolSize : ℕ} (h : s.resizePool requestedPoolSize=.ok s') :
    Resized s requestedPoolSize s' := by
  unfold resizePool at h
  split at h
  next =>
    cases h
    exact .unchanged
  next hne =>
    dsimp only at h
    have hpos : 0 < min globalWorkerPoolMaximum requestedPoolSize :=
      Nat.lt_min.mpr ⟨by decide,Nat.pos_of_ne_zero hne⟩
    split at h
    next hlt =>
      cases hg : s.growPool (min globalWorkerPoolMaximum requestedPoolSize - s.poolSize) with
      | error e => simp [hg] at h
      | ok t =>
        rw [hg] at h
        exact .grown rfl hlt hg h
    next =>
      split at h
      next hlt =>
        cases h
        exact .shrunk rfl hpos hlt
      next =>
        have hs : min globalWorkerPoolMaximum requestedPoolSize=s.poolSize := by omega
        rw [hs] at h
        cases h
        exact .unchanged

variable [DecidableEq Key]

/-- The ways a completion can go, once the worker's record is updated: a draining worker
works on or leaves; for any other one the factory routes a job. -/
inductive Finished (t : FactoryState Key Msg R Q) (who : WorkerId) :
    FactoryState Key Msg R Q→Prop where
  | draining {worker : WorkerProperties Key Msg} (hl : t.pool.lookup who=some worker)
      (hd : worker.isDraining=true) (ha : worker.isAvailable=false) : Finished t who t
  | dropped {worker : WorkerProperties Key Msg} (hl : t.pool.lookup who=some worker)
      (hd : worker.isDraining=true) (ha : worker.isAvailable=true) :
      Finished t who (t.dropWorker who worker)
  | freed {s' : FactoryState Key Msg R Q} (hd : (t.pool.lookup who).any isDraining=false)
      (hr : t.routeToFreed who=.ok s') : Finished t who s'

theorem workerFinishedJob_cases {who : WorkerId} (h : s.workerFinishedJob who key=.ok s') :
    Finished (s.completeJob who key) who s' := by
  unfold workerFinishedJob at h
  dsimp only at h
  generalize s.completeJob who key=t at h ⊢
  cases hl : t.pool.lookup who with
  | none =>
    rw [hl] at h
    exact .freed (by rw [hl]; rfl) h
  | some worker =>
    rw [hl] at h
    dsimp only at h
    split at h
    next hd =>
      split at h
      next hw =>
        cases h
        exact .draining hl hd (worker.isWorking_iff.mp hw)
      next hw =>
        cases h
        exact .dropped hl hd (by simpa [isWorking] using hw)
    next hd => exact .freed (by rw [hl]; simpa using hd) h

theorem replaceExited_kept {t : FactoryState Key Msg R Q} {worker : WorkerProperties Key Msg}
    (h : s.replaceExited who wid worker=.ok t) :
    ∃replacement world,s.world.spawn worker.wid=.ok (replacement,world) ∧ Keeping H
        { s with
          pool:=s.pool.insert wid (worker.replaceWorker replacement world).1
          workerByActor:=(s.workerByActor.erase who).insert replacement worker.wid
          world:=(worker.replaceWorker replacement world).2 } t := by
  unfold replaceExited at h
  cases hs : s.world.spawn worker.wid with
  | error e => simp [hs] at h
  | ok spawned =>
    obtain ⟨replacement,world⟩:=spawned
    rw [hs] at h
    cases h
    refine ⟨replacement,world,rfl,?_⟩
    split
    · have hp:=sendFactoryPing_keeping (H:=H) (s:={s with
          pool:=s.pool.insert wid (worker.replaceWorker replacement world).1
          workerByActor:=(s.workerByActor.erase who).insert replacement worker.wid
          world:=(worker.replaceWorker replacement world).2}) (AList.lookup_insert _)
      simp only [AList.insert_insert] at hp
      exact hp
    · exact .refl

/-- The ways an exit can go: the actor is nobody's worker, or the worker is replaced and
the factory routes a job for it. -/
inductive Exited (s : FactoryState Key Msg R Q) (who : ActorId) :
    FactoryState Key Msg R Q→Prop where
  | unknown (hu : ((s.workerByActor.lookup who).bind fun wid => s.pool.lookup wid)=none) :
      Exited s who s
  | replaced {wid : WorkerId} {worker : WorkerProperties Key Msg} {t s' : FactoryState Key Msg R Q}
      (hi : s.workerByActor.lookup who=some wid) (hl : s.pool.lookup wid=some worker)
      (ht : s.replaceExited who wid worker=.ok t) (hr : t.routeToFreed worker.wid=.ok s') :
      Exited s who s'

theorem handleExit_cases (h : s.handleExit who=.ok s') : Exited s who s' := by
  unfold handleExit at h
  cases hi : s.workerByActor.lookup who with
  | none =>
    simp only [hi,bind_none] at h
    cases h
    exact .unknown (by rw [hi]; rfl)
  | some wid =>
    cases hl : s.pool.lookup wid with
    | none =>
      simp only [hi,hl,bind_some,map_none] at h
      cases h
      exact .unknown (by rw [hi]; exact hl)
    | some worker =>
      simp only [hi,hl,bind_some,map_some] at h
      cases hr : s.replaceExited who wid worker with
      | error e => simp [hr] at h
      | ok t =>
        rw [hr] at h
        exact .replaced hi hl hr h

def work (s : FactoryState Key Msg R Q) :
    Work Key Msg → Except FactoryError (FactoryState Key Msg R Q)
  | .dispatch job => s.dispatch job
  | .finished who key => s.workerFinishedJob who key
  | .exited who => s.handleExit who
  | .resized requestedPoolSize => s.resizePool requestedPoolSize

/-- What handling an event amounts to: housekeeping, with the work the event asks for in the
middle. -/
def Kept (H : Option HandlerId → Prop) (s : FactoryState Key Msg R Q)
    (event : FactoryEvent Key Msg) (s' : FactoryState Key Msg R Q) : Prop :=
  s.workOf event=none ∧ Keeping H s s' ∨
    ∃a work b,s.workOf event=some (a,work) ∧ Keeping H s a ∧ a.work work=.ok b ∧
      Keeping H b s'

theorem handleMessage_kept {message : FactoryMessage Key Msg}
    (hh : (FactoryEvent.message message).Installs H) (h : s.handleMessage message=.ok s') :
    Kept H s (.message message) s' := by
  cases message with
  | dispatch job | finished who key => exact .inr ⟨s,_,s',rfl,.refl,h,.refl⟩
  | doPings sentAt =>
    cases h
    exact .inl ⟨rfl,sendPings_keeping s⟩
  | calculate =>
    change s.calculateMetrics=.ok s' at h
    unfold calculateMetrics controlCapacity at h
    split at h
    · cases h
    · next t ht =>
      cases h
      split at ht
      next hc =>
        have hask : Keeping H s {s with world:=s.world.askSize.2}:=.single (.ask s rfl)
        dsimp only at ht
        split at ht
        next hs =>
          cases ht
          exact .inl ⟨by simp [workOf,hs],hask.trans (sweepQueue_keeping _)⟩
        next hs =>
          exact .inr ⟨_,.resized s.world.askSize.1,t,by simp [workOf,hc,hs],hask,ht,
            sweepQueue_keeping t⟩
      next hc =>
        cases ht
        exact .inl ⟨by simp [workOf,hc],sweepQueue_keeping _⟩
  | workerPong wid time =>
    cases h
    exact .inl ⟨rfl,workerPong_keeping s wid⟩
  | identifyStuckWorkers =>
    cases h
    exact .inl ⟨rfl,identifyStuckWorkers_keeping s⟩
  | getQueueDepth port | getAvailableCapacity port | getNumActiveWorkers port =>
    cases h
    exact .inl ⟨rfl,reply_keeping s port _⟩
  | adjustWorkerPool requestedPoolSize => exact .inr ⟨s,_,s',rfl,.refl,h,.refl⟩
  | drainRequests => exact .inl ⟨rfl,drainRequests_keeping h⟩
  | updateSettings request =>
    change s.updateSettings request=.ok s' at h
    have ha:=applySettings_keeping s hh
    unfold updateSettings at h
    split at h
    next hco =>
      cases h
      exact .inl ⟨by simp [workOf,hco],ha⟩
    next workerCount hco =>
      exact .inr ⟨_,.resized workerCount,s',by simp [workOf,hco],ha,h,.refl⟩

theorem handleEvent_kept {event : FactoryEvent Key Msg} (hh : event.Installs H)
    (h : s.handleEvent event=.ok s') : Kept H s event s' := by
  cases event with
  | message message =>
    change s.handle message=.ok s' at h
    unfold handle at h
    cases hm : s.handleMessage message with
    | error e => simp [hm] at h
    | ok t =>
      rw [hm] at h
      cases h
      have hs:=stopIfDrained_keeping (H:=H) t
      rcases handleMessage_kept hh hm with ⟨hn,hk⟩ | ⟨a,work,b,hw,ha,hab,hb⟩
      · exact .inl ⟨hn,hk.trans hs⟩
      · exact .inr ⟨a,work,b,hw,ha,hab,hb.trans hs⟩
  | supervision event =>
    cases event with
    | actorStarted who | other =>
      cases h
      exact .inl ⟨rfl,.refl⟩
    | actorTerminated who | actorFailed who => exact .inr ⟨s,_,s',rfl,.refl,h,.refl⟩

end FactoryState

/-! ### Moves -/

variable [DecidableEq Key] [Router R Key Msg] [LawfulRouter R] [Queue Q Key Msg]

inductive FactoryMove (H : Option HandlerId→Prop) :
    FactoryState Key Msg R Q→FactoryState Key Msg R Q→Prop where
  | routing {hint : Option WorkerId} {s s' : FactoryState Key Msg R Q}
      (h : Routing H hint (s,none) (s',none)) : FactoryMove H s s'
  | complete {s : FactoryState Key Msg R Q} {who : WorkerId} {w : WorkerProperties Key Msg}
      (key : Key) (hl : s.pool.lookup who=some w) :
      FactoryMove H s
        { s with
          pool:=s.pool.insert who (w.workerComplete key s.world).2.1
          world:=(w.workerComplete key s.world).2.2 }
  | replace {s : FactoryState Key Msg R Q} {who replacement : ActorId} {wid : WorkerId}
      {w : WorkerProperties Key Msg} {world : World Key Msg}
      (hi : s.workerByActor.lookup who=some wid) (hl : s.pool.lookup wid=some w)
      (hs : s.world.spawn w.wid=.ok (replacement,world)) :
      FactoryMove H s
        { s with
          pool:=s.pool.insert wid (w.replaceWorker replacement world).1
          workerByActor:=(s.workerByActor.erase who).insert replacement w.wid
          world:=(w.replaceWorker replacement world).2 }
  | add {s s' : FactoryState Key Msg R Q} {wid : WorkerId} (hl : s.pool.lookup wid=none)
      (h : s.addWorker wid=.ok s') : FactoryMove H s s'
  | setDraining {s : FactoryState Key Msg R Q} {wid : WorkerId} {w : WorkerProperties Key Msg}
      (isDraining : Bool) (hl : s.pool.lookup wid=some w) :
      FactoryMove H s {s with pool:=s.pool.insert wid (w.setDraining isDraining)}
  | remove {s : FactoryState Key Msg R Q} {wid : WorkerId} {w : WorkerProperties Key Msg}
      (hl : s.pool.lookup wid=some w) (ha : w.isAvailable=true) :
      FactoryMove H s
        { s with
          pool:=s.pool.erase wid
          workerByActor:=s.workerByActor.erase w.actor
          world:=s.world.record (.stopped w.actor) }
  | setPoolSize (s : FactoryState Key Msg R Q) (poolSize : ℕ) :
      FactoryMove H s {s with poolSize:=poolSize}

abbrev FactoryMoves (H : Option HandlerId → Prop) :
    FactoryState Key Msg R Q → FactoryState Key Msg R Q → Prop :=
  Relation.ReflTransGen (FactoryMove H)

theorem Routing.moves (h : Routing H hint (s,none) (s',none)) : FactoryMoves H s s' :=
  .single (.routing h)

theorem Keeping.moves (h : Keeping H s s') : FactoryMoves H s s' :=
  (h.routing : Routing H none _ _).moves

theorem quiet_moves (s : FactoryState Key Msg R Q) {router : R} (hr : rule router=rule s.router) :
    FactoryMoves H s {s with router:=router} :=
  have h : Routing H none (s,none) ({s with router:=router},none) :=
    .single (.quiet s none hr (.refl _))
  h.moves

theorem FactoryMoves.preserves {P : FactoryState Key Msg R Q→Prop}
    (step : ∀a b,FactoryMove H a b→P a→P b) {a b : FactoryState Key Msg R Q}
    (h : FactoryMoves H a b) (ha : P a) : P b := by
  induction h with
  | refl => exact ha
  | tail _ hm ih => exact step _ _ hm ih

namespace FactoryState

/-! ### Resizing -/

theorem growWorker_moves (h : s.growWorker wid=.ok s') : FactoryMoves H s s' := by
  unfold growWorker at h
  cases hl : s.pool.lookup wid with
  | none =>
    rw [hl] at h
    exact .single (.add hl h)
  | some existing =>
    rw [hl] at h
    cases h
    refine .head (.setDraining false hl) (quiet_moves _ ?_)
    dsimp only
    split
    · exact availability_rule _ _ _
    · rfl

theorem growPool_moves {toAdd : ℕ} (h : s.growPool toAdd=.ok s') : FactoryMoves H s s' :=
  growPool_rec (P:=fun _ t => FactoryMoves H s t) h
    (fun _ _ _ _ _ ht hg => ht.trans (growWorker_moves hg))
    (fun _ t ht => ht.trans (pingWorkers_keeping t).moves) .refl

theorem shrinkPool_moves (s : FactoryState Key Msg R Q) (toRemove : ℕ) :
    FactoryMoves H s (s.shrinkPool toRemove) :=
  shrinkPool_rec (fun _ _ _ _ hl _ ht => ht.tail (.setDraining true hl))
    (fun _ _ _ _ hl ha ht => (ht.tail (.remove hl ha)).trans
      (quiet_moves _ (availability_rule _ _ _))) .refl

theorem resizePool_moves [LawfulQueue Q] {requestedPoolSize : ℕ}
    (h : s.resizePool requestedPoolSize=.ok s') : FactoryMoves H s s' := by
  cases resizePool_cases h with
  | unchanged => exact .refl
  | grown _ _ hg hr =>
    exact ((growPool_moves hg).tail (.setPoolSize _ _)).trans (routeBacklog_routing hr).moves
  | shrunk => exact (shrinkPool_moves s _).tail (.setPoolSize _ _)

/-! ### Completions and exits -/

theorem completeJob_moves (s : FactoryState Key Msg R Q) (who : WorkerId) (key : Key) :
    FactoryMoves H s (s.completeJob who key) := by
  unfold completeJob
  split
  next => exact .refl
  next worker hl => exact .single (.complete key hl)

theorem workerFinishedJob_moves [LawfulQueue Q] {who : WorkerId}
    (h : s.workerFinishedJob who key=.ok s') : FactoryMoves H s s' := by
  refine (completeJob_moves s who key).trans ?_
  cases workerFinishedJob_cases h with
  | draining => exact .refl
  | dropped hl _ ha => exact .single (.remove hl ha)
  | freed _ hr => exact (routeToFreed_routing hr).moves

theorem replaceExited_moves {worker : WorkerProperties Key Msg}
    (hi : s.workerByActor.lookup who=some wid) (hl : s.pool.lookup wid=some worker)
    (h : s.replaceExited who wid worker=.ok s') : FactoryMoves H s s' := by
  obtain ⟨replacement,world,hs,hk⟩:=replaceExited_kept h
  exact .head (.replace hi hl hs) hk.moves

theorem handleExit_moves [LawfulQueue Q] (h : s.handleExit who=.ok s') : FactoryMoves H s s' := by
  cases handleExit_cases h with
  | unknown => exact .refl
  | replaced hi hl ht hr => exact (replaceExited_moves hi hl ht).trans (routeToFreed_routing hr).moves

theorem work_moves [LawfulQueue Q] {work : Work Key Msg} (h : s.work work=.ok s') :
    FactoryMoves H s s' := by
  cases work with
  | dispatch job => exact (dispatch_routing h).moves
  | finished who key => exact workerFinishedJob_moves h
  | exited who => exact handleExit_moves h
  | resized size => exact resizePool_moves h

theorem handleEvent_moves [LawfulQueue Q] {event : FactoryEvent Key Msg} (hh : event.Installs H)
    (h : s.handleEvent event=.ok s') : FactoryMoves H s s' := by
  rcases handleEvent_kept hh h with ⟨-,hk⟩ | ⟨a,work,b,-,ha,hab,hb⟩
  · exact hk.moves
  · exact (ha.moves.trans (work_moves hab)).trans hb.moves

/-! ### Runs -/

theorem preStart_moves {oracle : Oracle} {firstPid firstJob : ℕ}
    (h : preStart args oracle firstPid firstJob=.ok s) :
    FactoryMoves H (initial args oracle firstPid firstJob) s := by
  -- no worker id from the loop counter on is taken yet
  refine (preStart_rec (P:=fun n t => FactoryMoves H (initial args oracle firstPid firstJob) t ∧
    ∀wid,n≤wid→t.pool.lookup wid=none) h ?_ ?_ ⟨.refl,fun _ _ => rfl⟩).1
  · intro n t t' ⟨hm,hf⟩ ha
    refine ⟨hm.tail (.add (hf n (Nat.le_refl n)) ha),fun wid hw => ?_⟩
    rw [addWorker_lookup ha (by omega : wid≠n)]
    exact hf wid (by omega)
  · intro n t ⟨hm,hf⟩
    exact ⟨hm.trans (pingWorkers_keeping t).moves,
      fun wid hw => pingWorkers_lookup_none t (hf wid hw)⟩

theorem withOracle_moves (s : FactoryState Key Msg R Q) (oracle : Oracle) :
    FactoryMoves H s (s.withOracle oracle) :=
  (quiet_routing s none ⟨oracle,rfl⟩ : Routing H none _ _).moves

theorem step_moves [LawfulQueue Q] {label : FactoryEvent Key Msg × Oracle} (hh : label.1.Installs H)
    (h : Step s label s') : FactoryMoves H s s' :=
  (withOracle_moves s label.2).trans (handleEvent_moves hh h)

/-- What holds before the first worker is spawned and is kept by every move holds in
every state of a run that installs no forbidden discard handler. -/
theorem reached_invariant [LawfulQueue Q] {P : FactoryState Key Msg R Q→Prop}
    (hi : ∀oracle firstPid firstJob,Prenumbered args.queue firstJob →
      P (initial args oracle firstPid firstJob)) (hm : ∀s s',FactoryMove H s s'→P s→P s')
    {guard : FactoryState Key Msg R Q→FactoryEvent Key Msg × Oracle→Prop}
    (hgu : ∀s label,guard s label→label.1.Installs H)
    (h : Reachable (Starts args) (guarded guard Step) s) : P s := by
  refine h.invariant ?_ ?_
  · rintro s ⟨oracle,firstPid,firstJob,ht,hs⟩
    exact (preStart_moves hs).preserves hm (hi oracle firstPid firstJob ht)
  · rintro s label s' hs ⟨hg,hst⟩
    exact (step_moves (hgu s label hg) hst).preserves hm hs

theorem reached_of_moves [LawfulQueue Q] {P : FactoryState Key Msg R Q→Prop}
    (hi : ∀oracle firstPid firstJob,Prenumbered args.queue firstJob →
      P (initial args oracle firstPid firstJob))
    (hm : ∀s s',FactoryMove (fun _ => True) s s'→P s→P s') (h : Reached args s) : P s :=
  reached_invariant hi hm (fun _ label (_ : True) => installs_all label.1)
    (h.mono (fun _ hs => hs) fun _ _ _ hs => ⟨trivial,hs⟩)

end FactoryState
end Ractor.Factory
