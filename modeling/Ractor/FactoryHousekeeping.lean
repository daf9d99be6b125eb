import Ractor.FactoryHandlers
import Ractor.FactoryRouterTargets

/-!
# Housekeeping

What a factory does besides its work: it pings workers and hears from them, looks for stuck ones,
changes settings, answers queries and sweeps expired jobs out of the queue. All of it is a chain of
the few steps of `KeepingMove`, so whatever these steps keep is kept by housekeeping. `Housekeeping`
is what most proofs need of a chain: neither the router nor what a worker holds is touched.

The predicate `H` restricts the discard handlers that may be installed.
-/

namespace Ractor.Factory
open WorkerProperties World.Writes

variable {Key Msg R Q : Type} [Router R Key Msg] [Queue Q Key Msg]

open LawfulQueue (contents)

/-- What a worker is and holds, without its heartbeat and its settings. -/
def WorkerProperties.core (w : WorkerProperties Key Msg) :
    WorkerId × ActorId × List (Job Key Msg) × AList (fun _ : Key => JobOptions) ×
      AList (fun _ : Key => ℕ) × Bool :=
  (w.wid,w.actor,w.messageQueue,w.currJobs,w.pendingKeyCounts,w.isDraining)

/-- Log entries that say nothing about the whereabouts of a job. -/
def Effect.IsNote : Effect Key Msg → Prop
  | .pinged _ _ => True
  | .accepted _ => True
  | .rejected _ _ => True
  | .killed _ => True
  | .replied _ _ => True
  | .stoppedSelf => True
  | _ => False

/-- Log entries that say nothing about a job, or only that a worker is done with it. -/
def Effect.IsNeutral : Effect Key Msg → Prop
  | .pinged _ _ => True
  | .completed _ _ => True
  | .abandoned _ _ => True
  | .spawned _ _ => True
  | .stopped _ => True
  | .killed _ => True
  | .replied _ _ => True
  | .stoppedSelf => True
  | _ => False

def Effect.IsHousekeeping : Effect Key Msg → Prop
  | .discarded _ _ _ => True
  | .dropped _ _ => True
  | effect => effect.IsNote

/-! ### Single steps -/

inductive KeepingMove (H : Option HandlerId→Prop) :
    FactoryState Key Msg R Q→FactoryState Key Msg R Q→Prop where
  | ask (s : FactoryState Key Msg R Q) {oracle : Oracle}
      (hclock : oracle.clock=s.world.oracle.clock) :
      KeepingMove H s {s with world:={s.world with oracle:=oracle}}
  | tick (s : FactoryState Key Msg R Q) : KeepingMove H s {s with world:=s.world.tick}
  | note (s : FactoryState Key Msg R Q) {effect : Effect Key Msg} (h : effect.IsNote)
      (hneutral : effect.IsNeutral) : KeepingMove H s {s with world:=s.world.record effect}
  | settings (s : FactoryState Key Msg R Q) (discardSettings : DiscardSettings)
      (drainState : DrainState) (deadMansSwitch : Option DeadMansSwitchConfiguration)
      (capacityController lifecycleHooks : Bool) :
      KeepingMove H s
        { s with
          discardSettings:=discardSettings,drainState:=drainState
          deadMansSwitch:=deadMansSwitch,capacityController:=capacityController
          lifecycleHooks:=lifecycleHooks }
  | handler (s : FactoryState Key Msg R Q) {handler : Option HandlerId} (h : H handler) :
      KeepingMove H s {s with discardHandler:=handler}
  | adjust {s : FactoryState Key Msg R Q} {wid : WorkerId} {w : WorkerProperties Key Msg}
      (heartbeat : WorkerHeartbeat) {discardSettings : WorkerDiscardSettings}
      {handler : Option HandlerId} (hl : s.pool.lookup wid=some w)
      (hd : Router.isFactoryQueueing s.router=true→w.discardSettings=.none →
        discardSettings=.none) (hh : handler=w.discardHandler ∨ H handler) :
      KeepingMove H s
        { s with
          pool:=s.pool.insert wid
            { w with
              heartbeat:=heartbeat,discardSettings:=discardSettings
              discardHandler:=handler } }
  | sweep (s : FactoryState Key Msg R Q) :
      KeepingMove H s
        { s with
          queue:=(Queue.removeExpiredItems s.queue s.discardHandler s.world).2.1
          world:=(Queue.removeExpiredItems s.queue s.discardHandler s.world).2.2 }

abbrev Keeping (H : Option HandlerId → Prop) :
    FactoryState Key Msg R Q → FactoryState Key Msg R Q → Prop :=
  Relation.ReflTransGen (KeepingMove H)

namespace FactoryState
variable {H : Option HandlerId→Prop} (s : FactoryState Key Msg R Q) {s' : FactoryState Key Msg R Q}

theorem tick_keeping : Keeping H s {s with world:=s.world.tick} := .single (.tick s)

theorem castPing_keeping (actor : ActorId) :
    Keeping H s {s with world:=s.world.castPing actor} := by
  have hask : Keeping H s {s with world:={s.world with
      oracle:={s.world.oracle with casts:=fun i => s.world.oracle.casts (i+1)}}} :=
    .single (.ask s rfl)
  exact hask.tail (.note _ trivial trivial)

variable {s} in
theorem sendFactoryPing_keeping {wid : WorkerId} {w : WorkerProperties Key Msg}
    (hl : s.pool.lookup wid=some w) :
    Keeping H s
      { s with
        pool:=s.pool.insert wid (w.sendFactoryPing s.world).1
        world:=(w.sendFactoryPing s.world).2 } := by
  have ha : ∀heartbeat,Keeping H s {s with pool:=s.pool.insert wid {w with heartbeat:=heartbeat}} :=
    fun heartbeat => .single (.adjust heartbeat hl (fun _ => id) (.inl rfl))
  unfold sendFactoryPing
  split
  · exact ha w.heartbeat
  · split
    · exact ((ha _).trans (tick_keeping _)).trans (castPing_keeping _ w.actor)
    · exact ((ha w.heartbeat).trans (tick_keeping _)).trans (castPing_keeping _ w.actor)

theorem pingWorkers_keeping : Keeping H s s.pingWorkers := FiniteMap.visit_rec sendFactoryPing
    (fun pool world => Keeping H s {s with pool:=pool,world:=world})
    (fun _ _ _ _ hl h => h.trans (sendFactoryPing_keeping hl)) _ _ _ .refl

theorem sendPings_keeping : Keeping H s s.sendPings := by
  unfold sendPings
  split
  next limit mode hs =>
    have hask : Keeping H s {s with world:=s.world.askLimit.2}:=.single (.ask s rfl)
    have hset : Keeping H {s with world:=s.world.askLimit.2}
        { s with
          discardSettings:=.dynamic s.world.askLimit.1 mode,world:=s.world.askLimit.2 } :=
      .single (.settings _ _ _ _ _ _)
    exact (hask.trans hset).trans (pingWorkers_keeping _)
  next => exact pingWorkers_keeping s

theorem workerPong_keeping (wid : WorkerId) : Keeping H s (s.workerPong wid) := by
  unfold workerPong
  dsimp only
  split
  next => exact .refl
  next worker hl =>
    refine .single (.adjust {} hl (fun _ hn => ?_) (.inl rfl))
    rw [hn]
    rfl

theorem identifyStuckWorkers_keeping : Keeping H s s.identifyStuckWorkers := by
  unfold identifyStuckWorkers
  split
  next => exact .refl
  next switch _ =>
    apply FiniteMap.visit_rec (killIfStuck switch)
      (fun pool world => Keeping H s {s with pool:=pool,world:=world})
    · intro pool world wid w hl h
      have hs : Keeping H {s with pool:=pool,world:=world}
          {s with pool:=pool.insert wid w,world:=world} :=
        .single (.adjust w.heartbeat hl (fun _ => id) (.inl rfl))
      have ht:=(h.trans hs).trans (tick_keeping _)
      unfold killIfStuck
      split
      · exact ht.tail (.note _ trivial trivial)
      · exact ht
    · exact .refl

theorem mapWorkers_keeping (f : WorkerProperties Key Msg → WorkerProperties Key Msg)
    (hf : ∀w,∃settings handler,f w = {w with discardSettings:=settings,discardHandler:=handler} ∧
        (Router.isFactoryQueueing s.router=true→w.discardSettings=.none→settings=.none) ∧
        (handler=w.discardHandler ∨ H handler)) :
    Keeping H s (s.mapWorkers f) := by
  apply FiniteMap.visit_rec (fun w _ => (f w,())) (fun pool _ => Keeping H s {s with pool:=pool})
  · intro pool _ wid w hl h
    obtain ⟨settings,handler,he,hd,hh⟩:=hf w
    dsimp only
    rw [he]
    exact h.tail (.adjust w.heartbeat hl hd hh)
  · exact .refl

theorem setDeadMansSwitch_keeping
    (switch : Option DeadMansSwitchConfiguration) : Keeping H s (s.setDeadMansSwitch switch) := by
  have hs : Keeping H s {s with deadMansSwitch:=switch}:=.single (.settings s _ _ _ _ _)
  unfold setDeadMansSwitch
  dsimp only
  split
  · exact hs.trans (pingWorkers_keeping _)
  · exact hs

theorem applySettings_keeping {request : UpdateSettingsRequest}
    (hh : ∀handler,request.discardHandler=some handler→H handler) :
    Keeping H s (s.applySettings request) := by
  have hha : Keeping H s (request.discardHandler.elim s s.setDiscardHandler) := by
    cases hd : request.discardHandler with
    | none => exact .refl
    | some handler =>
      have hmap : Keeping H s (s.mapWorkers fun w => {w with discardHandler:=handler}) :=
        mapWorkers_keeping s _ fun w =>
          ⟨w.discardSettings,handler,rfl,fun _ => id,.inr (hh handler hd)⟩
      exact hmap.tail (.handler _ (hh handler hd))
  have hs : ∀t : FactoryState Key Msg R Q,
      Keeping H t (request.discardSettings.elim t t.setDiscardSettings) := by
    intro t
    cases request.discardSettings with
    | none => exact .refl
    | some settings =>
      have hmap : Keeping H t (t.mapWorkers fun w => {w with
          discardSettings:=
            if Router.isFactoryQueueing t.router then .none else settings.getWorkerSettings}) :=
        mapWorkers_keeping t _ fun w =>
          ⟨_,w.discardHandler,rfl,fun hr _ => if_pos hr,.inl rfl⟩
      exact hmap.tail (.settings _ settings _ _ _ _)
  have hsw : ∀t : FactoryState Key Msg R Q,
      Keeping H t (request.deadMansSwitch.elim t t.setDeadMansSwitch) := by
    intro t
    cases request.deadMansSwitch with
    | none => exact .refl
    | some switch => exact setDeadMansSwitch_keeping t switch
  exact ((hha.trans (hs _)).trans (hsw _)).tail (.settings _ _ _ _ _ _)

theorem sweepQueue_keeping : Keeping H s s.sweepQueue := by
  unfold sweepQueue
  split
  · exact .single (.sweep s)
  · exact .refl

variable {s} in
theorem drainRequests_keeping (h : s.drainRequests=.ok s') : Keeping H s s' := by
  have hs : Keeping H s {s with drainState:=.draining}:=.single (.settings s _ _ _ _ _)
  unfold drainRequests at h
  dsimp only at h
  split at h
  · split at h
    · cases h
      exact hs.tail (.ask _ rfl)
    · cases h
  · cases h
    exact hs

theorem stopIfDrained_keeping : Keeping H s s.stopIfDrained := by
  unfold stopIfDrained isDrained
  split
  · exact .refl
  · exact .single (.note s trivial trivial)
  · split
    · exact .tail (.single (.settings s _ .drained _ _ _)) (.note _ trivial trivial)
    · exact .refl

theorem reply_keeping (port : ReplyPort) (value : ℕ) : Keeping H s (s.reply port value) :=
  .single (.note s trivial trivial)

end FactoryState

/-! ### What a chain leaves alone -/

section
variable [LawfulQueue Q]

structure Housekeeping (s s' : FactoryState Key Msg R Q) : Prop where
  poolSize : s'.poolSize=s.poolSize
  router : s'.router=s.router
  workerByActor : s'.workerByActor=s.workerByActor
  pool : ∀wid,(s'.pool.lookup wid).map core=(s.pool.lookup wid).map core
  queue : (contents s'.queue).Sublist (contents s.queue)
  nextPid : s'.world.nextPid=s.world.nextPid
  log : ∃effects,s'.world.log=s.world.log++effects ∧ ∀effect∈effects,effect.IsHousekeeping

omit [Router R Key Msg]

namespace Housekeeping
variable {s s' : FactoryState Key Msg R Q}

theorem refl (s : FactoryState Key Msg R Q) : Housekeeping s s :=
  ⟨rfl,rfl,rfl,fun _ => rfl,.refl _,rfl,[],by simp⟩

theorem writes (h : Housekeeping s s') : s.world.Writes Effect.IsHousekeeping s'.world:=h.log

theorem trans {t : FactoryState Key Msg R Q} (h : Housekeeping s s') (h' : Housekeeping s' t) :
    Housekeeping s t :=
  ⟨h'.poolSize.trans h.poolSize,h'.router.trans h.router,
    h'.workerByActor.trans h.workerByActor,fun wid => (h'.pool wid).trans (h.pool wid),
    h'.queue.trans h.queue,h'.nextPid.trans h.nextPid,h.writes.trans h'.writes⟩

theorem of_settings (hn : s'.poolSize=s.poolSize) (hr : s'.router=s.router)
    (hi : s'.workerByActor=s.workerByActor) (hp : s'.pool=s.pool) (hq : s'.queue=s.queue)
    (hw : s.world.Quiet s'.world) : Housekeeping s s' := by
  obtain ⟨oracle,hw⟩:=hw
  exact ⟨hn,hr,hi,fun wid => by rw [hp],by rw [hq],by rw [hw],of_log (by rw [hw])⟩

theorem note (s : FactoryState Key Msg R Q) {effect : Effect Key Msg} (h : effect.IsNote) :
    Housekeeping s {s with world:=s.world.record effect} := by
  refine ⟨rfl,rfl,rfl,fun _ => rfl,.refl _,rfl,record _ ?_⟩
  cases effect <;> first | exact trivial | exact h

/-- A worker is rewritten without changing what it is and holds. -/
theorem adjust {wid : WorkerId} {w w' : WorkerProperties Key Msg}
    (hl : s.pool.lookup wid=some w) (hc : w'.core=w.core) :
    Housekeeping s {s with pool:=s.pool.insert wid w'} := by
  refine ⟨rfl,rfl,rfl,fun k => ?_,.refl _,rfl,of_log rfl⟩
  by_cases hk : k=wid
  · subst hk
    rw [AList.lookup_insert,hl,Option.map_some,Option.map_some,hc]
  · rw [AList.lookup_insert_ne hk]

/-- A worker after housekeeping was there before, and is and holds the same. -/
theorem lookup (h : Housekeeping s s') {wid : WorkerId} {w' : WorkerProperties Key Msg}
    (hl : s'.pool.lookup wid=some w') : ∃w,s.pool.lookup wid=some w ∧ w'.core=w.core := by
  have hp:=h.pool wid
  rw [hl] at hp
  cases hw : s.pool.lookup wid with
  | none => simp [hw] at hp
  | some w => exact ⟨w,rfl,by simpa [hw] using hp⟩

end Housekeeping

theorem FactoryState.retainLive_housekeeping (handler : Option HandlerId)
    (jobs : List (Job Key Msg)) (world : World Key Msg) :
    (retainLive handler jobs world).1.Sublist jobs ∧
      (retainLive handler jobs world).2.nextPid=world.nextPid ∧
      (retainLive handler jobs world).2.nextJob=world.nextJob ∧
      world.Writes Effect.IsHousekeeping (retainLive handler jobs world).2 := by
  induction jobs generalizing world with
  | nil => exact ⟨.refl _,rfl,rfl,.of_log rfl⟩
  | cons job rest ih =>
    unfold retainLive
    split
    · obtain ⟨hs,hn,hj,hw⟩:=ih (world.tick.discard handler .ttlExpired job)
      have hd : world.tick.Writes Effect.IsHousekeeping
          (world.tick.discard handler .ttlExpired job) :=
        .discard _ _ _ _ (fun _ => trivial) trivial
      refine ⟨hs.cons _,hn.trans ?_,hj.trans ?_,hd.trans hw⟩
      · cases handler <;> rfl
      · cases handler <;> rfl
    · obtain ⟨hs,hn,hj,hw⟩:=ih world.tick
      exact ⟨hs.cons_cons job,hn,hj,hw⟩

theorem KeepingMove.housekeeping [Router R Key Msg] {H : Option HandlerId→Prop}
    {s s' : FactoryState Key Msg R Q} (h : KeepingMove H s s') : Housekeeping s s' := by
  cases h with
  | ask => exact .of_settings rfl rfl rfl rfl rfl ⟨_,rfl⟩
  | tick => exact .of_settings rfl rfl rfl rfl rfl s.world.quiet_tick
  | note hno => exact .note s hno
  | settings | handler => exact .of_settings rfl rfl rfl rfl rfl (.refl _)
  | adjust _ hl => exact .adjust hl rfl
  | sweep =>
    have he:=LawfulQueue.removeExpiredItems_eq s.queue s.discardHandler s.world
    obtain ⟨hs,hn,-,hw⟩ :=
      FactoryState.retainLive_housekeeping s.discardHandler (contents s.queue) s.world
    rw [← he] at hs hn hw
    exact ⟨rfl,rfl,rfl,fun _ => rfl,hs,hn,hw⟩

theorem Keeping.housekeeping [Router R Key Msg] {H : Option HandlerId→Prop}
    {s s' : FactoryState Key Msg R Q} (h : Keeping H s s') : Housekeeping s s' := by
  induction h with
  | refl => exact .refl s
  | tail _ hm ih => exact ih.trans hm.housekeeping

namespace FactoryState

theorem withOracle_housekeeping (s : FactoryState Key Msg R Q) (oracle : Oracle) :
    Housekeeping s (s.withOracle oracle) :=
  .of_settings rfl rfl rfl rfl rfl ⟨oracle,rfl⟩

theorem pingWorkers_housekeeping [Router R Key Msg] (s : FactoryState Key Msg R Q) :
    Housekeeping s s.pingWorkers :=
  (pingWorkers_keeping s : Keeping (fun _ => True) _ _).housekeeping

end FactoryState
end
end Ractor.Factory
