import Ractor.FactoryDisciplinedWork

/-!
# Expired jobs are not started

While one message is handled, with the clock standing still, no expired job is cast to a worker:
it keeps waiting, or it is discarded because it is expired or, in the factory's queue, to shed
load. The exception is the loop that flushes rate limited jobs, which does not look at the expiry of
the next job: no expired job may stand right behind jobs that the limiter is going to turn away.
-/

namespace Ractor.Factory
open World
open FactoryState List Discipline Job

variable {Key Msg R Q : Type}

open LawfulQueue (contents)
open FiniteMap (lookup_insert_eq_some lookup_erase_eq_some)
open WorkerProperties

/-! ### Where waiting jobs go -/

/-- The job that leaves the factory with an entry of the log, without its port. -/
def Effect.released : Effect Key Msg → Option (Job Key Msg)
  | .cast _ job delivered => if delivered then some job.taken else none
  | .discarded _ _ job => some job.taken
  | .dropped _ job => some job.taken
  | _ => none

/-- A job that was held before is held after, or the log says that it is gone. -/
def World.Releases (before after : Job Key Msg → Prop) (a b : World Key Msg) : Prop :=
  ∃effects,b.log=a.log++effects ∧
    ∀job,before job → after job ∨ ∃effect∈effects,effect.released=some job

namespace World.Releases
variable {p q r : Job Key Msg→Prop} {a b c : World Key Msg}

theorem of_imp (effects : List (Effect Key Msg)) (hl : b.log=a.log++effects)
    (h : ∀job,p job → q job) : a.Releases p q b :=
  ⟨effects,hl,fun job hp => .inl (h job hp)⟩

theorem of_log (hl : b.log=a.log) (h : ∀job,p job → q job) : a.Releases p q b :=
  .of_imp [] (by rw [hl,append_nil]) h

theorem of_writes {w : Effect Key Msg→Prop} (hw : a.Writes w b) (h : ∀job,p job → q job) :
    a.Releases p q b := by
  obtain ⟨effects,hl,-⟩:=hw
  exact .of_imp effects hl h

theorem trans (h : a.Releases p q b) (h' : b.Releases q r c) : a.Releases p r c := by
  obtain ⟨es,hl,he⟩:=h
  obtain ⟨es',hl',he'⟩:=h'
  refine ⟨es++es',by rw [hl',hl,append_assoc],fun job hp => ?_⟩
  rcases he job hp with hq | ⟨effect,hm,hr⟩
  · rcases he' job hq with hr | ⟨effect,hm,hr⟩
    · exact .inl hr
    · exact .inr ⟨effect,mem_append_right es hm,hr⟩
  · exact .inr ⟨effect,mem_append_left es' hm,hr⟩

theorem discard (a : World Key Msg) (handler : Option HandlerId) (reason : DiscardReason)
    (job : Job Key Msg) (h : ∀j,p j→j=job.taken ∨ q j) :
    a.Releases p q (a.discard handler reason job) := by
  cases handler with
  | none =>
    refine ⟨[.dropped reason job],rfl,fun j hp => (h j hp).symm.imp id ?_⟩
    rintro rfl
    exact ⟨_,mem_singleton_self _,rfl⟩
  | some handler =>
    refine ⟨[.discarded handler reason job],rfl,fun j hp => (h j hp).symm.imp id ?_⟩
    rintro rfl
    exact ⟨_,mem_singleton_self _,rfl⟩

theorem mono {p' q' : Job Key Msg→Prop} (h : a.Releases p q b) (hp : ∀j,p' j→p j)
    (hq : ∀j,q j → q' j) : a.Releases p' q' b := by
  obtain ⟨effects,hl,he⟩:=h
  exact ⟨effects,hl,fun job hj => (he job (hp job hj)).imp (hq job) id⟩

/-- Held by the one whose jobs are followed, or by someone else. -/
theorem or (r : Job Key Msg→Prop) (h : a.Releases p q b) :
    a.Releases (fun job => p job ∨ r job) (fun job => q job ∨ r job) b := by
  obtain ⟨effects,hl,he⟩:=h
  refine ⟨effects,hl,fun job hp => ?_⟩
  rcases hp with hp | hr
  · exact (he job hp).imp .inl id
  · exact .inl (.inr hr)

end World.Releases

def WorkerProperties.Queues (w : WorkerProperties Key Msg) (job : Job Key Msg) : Prop :=
  job∈w.messageQueue.map taken

theorem retainLive_releases (handler : Option HandlerId) (jobs : List (Job Key Msg))
    (world : World Key Msg) :
    world.Releases (fun j => j∈jobs.map taken)
      (fun j => j∈(retainLive handler jobs world).1.map taken)
      (retainLive handler jobs world).2 := by
  induction jobs generalizing world with
  | nil => exact .of_log rfl fun _ => id
  | cons job rest ih =>
    unfold retainLive
    split
    · refine World.Releases.trans ?_ (ih _)
      exact .discard world.tick _ _ job fun j hj => mem_cons.mp hj
    · simp only [map_cons,mem_cons]
      exact ((ih world.tick).or (· = job.taken)).mono (fun _ => Or.symm) fun _ => Or.symm

section Factory
variable [Queue Q Key Msg] [LawfulQueue Q]

/-- The job, but for its port, waits in the queue of the factory or of a worker. -/
def FactoryState.Keeps (s : FactoryState Key Msg R Q) (job : Job Key Msg) : Prop :=
  job∈(contents s.queue).map taken ∨ ∃wid w,s.pool.lookup wid=some w ∧ w.Queues job

def Hand.Holds (a : Hand Key Msg R Q) (job : Job Key Msg) : Prop :=
  a.1.Keeps job ∨ ∃held∈a.2,job=held.taken

variable {H : Option HandlerId→Prop} {hint : Option WorkerId} {s s' : FactoryState Key Msg R Q}
  (index : AList (fun _ : ActorId => WorkerId))

/-- One worker is rewritten; what it releases the factory releases. -/
theorem World.Releases.of_worker {wid : WorkerId} {w w' : WorkerProperties Key Msg}
    {world : World Key Msg} (extra : Job Key Msg→Prop) (hl : s.pool.lookup wid=some w)
    (hw : s.world.Releases (fun j => w.Queues j ∨ extra j) w'.Queues world) :
    s.world.Releases (fun j => s.Keeps j ∨ extra j) (Keeps
        {s with pool:=s.pool.insert wid w',workerByActor:=index,world:=world}) world := by
  obtain ⟨effects,hlog,he⟩:=hw
  refine ⟨effects,hlog,fun job hj => ?_⟩
  have hm (hj : w.Queues job ∨ extra job) : Keeps {s with
      pool:=s.pool.insert wid w',workerByActor:=index,world:=world} job ∨
      ∃effect∈effects,effect.released=some job :=
    (he job hj).imp (fun h => .inr ⟨wid,w',AList.lookup_insert s.pool,h⟩) id
  rcases hj with (hq | ⟨k,v,hk,hv⟩) | hex
  · exact .inl (.inl hq)
  · by_cases hkw : k=wid
    · subst hkw
      obtain rfl : w=v:=Option.some.inj (hl.symm.trans hk)
      exact hm (.inl hv)
    · exact .inl (.inr ⟨k,v,(AList.lookup_insert_ne hkw).trans hk,hv⟩)
  · exact hm (.inr hex)

theorem World.Releases.of_work {wid : WorkerId} {w w' : WorkerProperties Key Msg}
    {world : World Key Msg} (hl : s.pool.lookup wid=some w)
    (hw : s.world.Releases w.Queues w'.Queues world) : s.world.Releases s.Keeps (Keeps
        {s with pool:=s.pool.insert wid w',workerByActor:=index,world:=world}) world :=
  (of_worker index (fun _ => False) hl (hw.mono (fun _ hj => hj.elim id False.elim) fun _ => id)).mono
    (fun _ => .inl) fun _ => id

variable [Router R Key Msg]

theorem KeepingMove.releases (h : KeepingMove H s s') :
    s.world.Releases s.Keeps s'.Keeps s'.world := by
  cases h with
  | ask | tick | settings | handler => exact .of_log rfl fun _ => id
  | note => exact .of_imp _ rfl fun _ => id
  | adjust _ hl => exact .of_work _ hl (.of_log rfl fun _ => id)
  | sweep =>
    have he:=LawfulQueue.removeExpiredItems_eq s.queue s.discardHandler s.world
    have hr:=retainLive_releases s.discardHandler (contents s.queue) s.world
    rw [← he] at hr
    exact hr.or fun j => ∃wid w,s.pool.lookup wid=some w ∧ w.Queues j

variable [DecidableEq Key]

theorem WorkerMove.releases {d d' : Desk Key Msg} (h : WorkerMove d d') :
    d.2.Releases d.1.Queues d'.1.Queues d'.2 := by
  cases h with
  | tick w world => exact .of_log rfl fun _ => id
  | @discard w world job rest reason hq =>
    refine .discard world _ reason job fun j hj => ?_
    unfold Queues at hj ⊢
    rw [hq,map_cons,mem_cons] at hj
    rw [untrackPendingKey_messageQueue]
    exact hj
  | @deliver w world job rest hq hs hd =>
    refine ⟨[.cast w.actor job world.delivers],rfl,fun j hj => ?_⟩
    unfold Queues at hj ⊢
    rw [hq,map_cons,mem_cons] at hj
    refine hj.symm.imp id ?_
    rintro rfl
    exact ⟨_,mem_singleton_self _,by rw [hd]; rfl⟩
  | bounce => exact .of_imp _ rfl fun _ => id

theorem Moves.releases {d d' : Desk Key Msg} (h : Moves d d') :
    d.2.Releases d.1.Queues d'.1.Queues d'.2 :=
  h.preserves (P:=fun d' => d.2.Releases d.1.Queues d'.1.Queues d'.2)
    (fun _ _ hm hs => hs.trans hm.releases) (.of_log rfl fun _ => id)

namespace WorkerProperties

theorem enqueueJob_releases (w : WorkerProperties Key Msg) (job : Job Key Msg)
    (world : World Key Msg) :
    world.Releases (fun j => w.Queues j ∨ j=job.taken) (w.enqueueJob job world).1.Queues
      (w.enqueueJob job world).2 := by
  have hre : world.Writes (fun _ => True) (world.record (.enqueued w job)) := .record world trivial
  cases hr : w.refusesNewest with
  | true =>
    rw [enqueueJob_refused job world hr]
    refine (World.Releases.of_writes hre fun _ => id).trans ?_
    have hd : (world.record (.enqueued w job)).Releases (fun j => w.Queues j ∨ j=job.taken)
        w.Queues ((world.record (.enqueued w job)).discard w.discardHandler .loadshed job) :=
      .discard _ _ _ job fun _ => Or.symm
    have hrej : Writes (fun _ => True) _ _:=.reject
      ((world.record (.enqueued w job)).discard w.discardHandler .loadshed job) job fun _ => trivial
    exact hd.trans (.of_writes hrej fun _ => id)
  | false =>
    have ha:=hre.trans (.accept _ job fun _ => trivial)
    refine World.Releases.trans (.of_writes ha fun j hj => ?_)
      (enqueueJob_moves job world hr).releases
    change j∈(w.messageQueue++[job.taken]).map taken
    rw [map_append,mem_append]
    exact hj.imp id fun h => mem_singleton.mpr h

theorem workerComplete_releases {w : WorkerProperties Key Msg}
    (h : w.currJobs.entries.length≤1) (key : Key) (world : World Key Msg) :
    world.Releases w.Queues (w.workerComplete key world).2.1.Queues
      (w.workerComplete key world).2.2 := by
  cases hk : w.currJobs.lookup key with
  | none =>
    simp only [workerComplete,hk]
    exact .of_log rfl fun _ => id
  | some options =>
    refine World.Releases.trans (.of_imp _ rfl fun j hj => ?_) (workerComplete_moves h hk world).releases
    unfold Queues freeSlot
    rw [untrackPendingKey_messageQueue]
    exact hj

theorem replaceWorker_releases {w : WorkerProperties Key Msg}
    (h : w.currJobs.entries.length≤1) (nworker : ActorId) (world : World Key Msg) :
    world.Releases w.Queues (w.replaceWorker nworker world).1.Queues
      (w.replaceWorker nworker world).2 := by
  rcases replaceWorker_moves h nworker world with ⟨_,hm⟩ | ⟨key,options,_,hm⟩
  · exact hm.releases
  · refine World.Releases.trans (.of_imp _ rfl fun j hj => ?_) hm.releases
    change j∈(w.freeSlot key).messageQueue.map taken
    unfold freeSlot
    rw [untrackPendingKey_messageQueue]
    exact hj

end WorkerProperties

variable [LawfulRouter R]

theorem RoutingMove.releases {a b : Hand Key Msg R Q} (h : RoutingMove H hint a b) :
    a.1.world.Releases (Hand.Holds a) (Hand.Holds b) b.1.world := by
  cases h with
  | quiet s hand hr hw => exact .of_log hw.log fun _ => id
  | keep hk =>
    refine (hk.releases.or fun j => ∃held∈(none : Option (Job Key Msg)),j=held.taken).mono
      (fun _ => id) fun _ => id
  | note => exact .of_imp _ rfl fun _ => id
  | arrive s job =>
    refine .of_imp _ rfl fun j hj => ?_
    exact hj.imp id fun ⟨_,hm,_⟩ => by cases hm
  | @take s job queue h =>
    refine .of_log rfl fun j hj => ?_
    rcases hj with (hq | hw) | ⟨_,hm,_⟩
    · have hq:=((h.perm.map taken).mem_iff).mp hq
      rw [map_cons,mem_cons] at hq
      rcases hq with rfl | hq
      · exact .inr ⟨job,rfl,rfl⟩
      · exact .inl (.inl hq)
    · exact .inl (.inr hw)
    · cases hm
  | @store s job queue h =>
    refine .of_log rfl fun j hj => ?_
    have hq : ∀j,j∈(contents queue).map taken ↔ j=job.taken ∨ j∈(contents s.queue).map taken := by
      intro j
      rw [((LawfulQueue.pushBack_ok h).map taken).mem_iff,map_cons,mem_cons]
      rfl
    rcases hj with (hj | hw) | ⟨held,hm,rfl⟩
    · exact .inl (.inl ((hq j).mpr (.inr hj)))
    · exact .inl (.inr hw)
    · cases hm
      exact .inl (.inl ((hq _).mpr (.inl rfl)))
  | discard s job reason =>
    refine .discard s.world _ reason job fun j hj => ?_
    rcases hj with hj | ⟨held,hm,rfl⟩
    · exact .inr (.inl hj)
    · cases hm
      exact .inl rfl
  | @enqueue s wid w job hl ht =>
    have hw:=World.Releases.of_worker s.workerByActor (· = job.taken) hl
      (w.enqueueJob_releases job s.world)
    refine hw.mono (fun j hj => ?_) fun j => .inl
    exact hj.imp id fun ⟨held,hm,hj⟩ => by cases hm; exact hj

theorem FactoryMove.releases (h : FactoryMove H s s') (hc : WorkersConsistent s) :
    s.world.Releases s.Keeps s'.Keeps s'.world := by
  cases h with
  | routing h =>
    have hr:=h.preserves
      (P:=fun a => s.world.Releases (Hand.Holds (s,none)) (Hand.Holds a) a.1.world)
      (fun _ _ hm hs => hs.trans hm.releases) (.of_log rfl fun _ => id)
    exact hr.mono (fun _ => .inl) fun _ hj => hj.elim id fun ⟨_,hm,_⟩ => by cases hm
  | complete key hl => exact .of_work _ hl (workerComplete_releases (hc _ _ hl).slot key s.world)
  | @replace _ who replacement wid w world hi hl hs =>
    obtain ⟨-,-,-,-,hlog⟩:=s.world.spawn_ok hs
    have hsp : s.world.Releases w.Queues w.Queues world:=.of_imp _ hlog fun _ => id
    exact .of_work _ hl (hsp.trans (replaceWorker_releases (hc _ _ hl).slot replacement world))
  | @add _ _ wid hl h =>
    obtain ⟨_,_,hs,rfl⟩:=addWorker_ok h
    obtain ⟨-,-,-,-,hlog⟩:=s.world.spawn_ok hs
    refine .of_imp _ hlog fun j hj => hj.imp id fun ⟨k,v,hk,hv⟩ => ⟨k,v,?_,hv⟩
    refine (AList.lookup_insert_ne ?_).trans hk
    rintro rfl
    rw [hl] at hk
    cases hk
  | setDraining isDraining hl => exact .of_work _ hl (.of_log rfl fun _ => id)
  | @remove _ wid w hl ha =>
    refine .of_imp _ rfl fun j hj => hj.imp id fun ⟨k,v,hk,hv⟩ => ⟨k,v,?_,hv⟩
    refine lookup_erase_eq_some.mpr ⟨?_,hk⟩
    -- an available worker has nothing queued
    rintro rfl
    obtain rfl : w=v:=Option.some.inj (hl.symm.trans hk)
    unfold Queues at hv
    rw [(w.isAvailable_iff.mp ha).2] at hv
    cases hv
  | setPoolSize => exact .of_log rfl fun _ => id

theorem FactoryMoves.releases (h : FactoryMoves H s s') (hc : WorkersConsistent s) :
    s.world.Releases s.Keeps s'.Keeps s'.world :=
  (h.preserves (P:=fun t => WorkersConsistent t ∧ s.world.Releases s.Keeps t.Keeps t.world)
    (fun _ _ hm ⟨hc,hs⟩ => ⟨hm.workersConsistent hc,hs.trans (hm.releases hc)⟩)
    ⟨hc,.of_log rfl fun _ => id⟩).2

end Factory

/-! ### One message at one time -/

/-- A job may be started, rejected or turned away as long as it is not expired. -/
def Discipline.unexpiredAt (now : Instant) : Discipline Key Msg where
  Live job:=job.isExpired now=false
  Sheds _:=True
  now:=some now
  live_taken _ h:=h

def Effect.discards : Effect Key Msg → Option (DiscardReason × Job Key Msg)
  | .discarded _ reason job => some (reason,job.taken)
  | .dropped reason job => some (reason,job.taken)
  | _ => none

theorem Discipline.permits_expired {now : Instant} {effect : Effect Key Msg} {job : Job Key Msg}
    (h : (unexpiredAt now).Permits effect) (hr : effect.released=some job)
    (he : job.isExpired now=true) :
    effect.discards=some (.ttlExpired,job) ∨ effect.discards=some (.loadshed,job) := by
  have hal : ∀reason (held : Job Key Msg),held.taken=job →
      (unexpiredAt now).Allows reason held → reason=.ttlExpired ∨ reason=.loadshed := by
    rintro reason held rfl ha
    cases reason with
    | ttlExpired => exact .inl rfl
    | loadshed => exact .inr rfl
    | shutdown | rateLimited => exact absurd (he.symm.trans ha) nofun
  cases effect with
  | cast actor held delivered =>
    have hl : held.isExpired now=false:=h
    cases delivered with
    | false => cases hr
    | true =>
      cases hr
      exact absurd (he.symm.trans hl) nofun
  | discarded handler reason held | dropped reason held =>
    cases hr
    exact (hal reason held rfl h).imp (fun hr => by rw [hr]; rfl) fun hr => by rw [hr]; rfl
  | _ => cases hr

/-- An expired job is discarded on arrival. -/
theorem FactoryState.dispatch_expired [Router R Key Msg] [Queue Q Key Msg]
    {s s' : FactoryState Key Msg R Q} {job : Job Key Msg} (h : s.dispatch job=.ok s')
    (he : job.isExpired s.world.now=true) :
    ∃effects,s'.world.log=s.world.log++effects ∧ ∃effect∈effects,
      effect.discards=some (.ttlExpired,(job.numbered s.world.nextJob).taken) := by
  unfold dispatch dispatchNumbered at h
  have hex : (job.numbered s.world.nextJob).isExpired
      (s.arrived (job.numbered s.world.nextJob)).world.now=true:=he
  dsimp only at h
  rw [if_pos hex] at h
  cases h
  generalize job.numbered s.world.nextJob=job
  have hr : Writes (fun _ => True) _ _:=.reject
    ((s.arrived job).world.tick.discard s.discardHandler .ttlExpired job) job fun _ => trivial
  obtain ⟨es,hlog,-⟩:=hr
  change ∃effects,(((s.arrived job).world.tick.discard s.discardHandler .ttlExpired job).reject
    job).log=_ ∧ _
  rw [hlog]
  cases s.discardHandler with
  | none =>
    refine ⟨.dispatched job::.dropped .ttlExpired job::es,?_,_,mem_cons_of_mem _ mem_cons_self,rfl⟩
    simp [World.discard,arrived]
  | some handler =>
    refine ⟨.dispatched job::.discarded handler .ttlExpired job::es,?_,_,
      mem_cons_of_mem _ mem_cons_self,rfl⟩
    simp [World.discard,arrived]

variable [DecidableEq Key] [Hashable Key]

section Guard
variable {L : Type} [RateLimiter L] [Queue Q Key Msg] [LawfulQueue Q]

/-- Behind the expired jobs at the head of the queue, a job is not expired if the rate limiter turns
away all jobs in front of it. -/
def FactoryState.FlushesUnexpired (now : Instant)
    (s : FactoryState Key Msg (BuiltInRouter Key Msg L) Q) (work : Work Key Msg) : Prop :=
  ∀attempt∈s.attempts work,
    ∀p∈(liveBacklog attempt.state.world.oracle.clock (contents attempt.state.queue)).zipIdx,
      attempt.state.router.rejects now p.2=true → p.1.isExpired now=false

instance (now : Instant) (s : FactoryState Key Msg (BuiltInRouter Key Msg L) Q) (work : Work Key Msg) :
    Decidable (s.FlushesUnexpired now work) :=
  inferInstanceAs (Decidable (∀attempt∈s.attempts work,_))

end Guard

section Results
variable {L P : Type} [RateLimiter L] [Priority P]
  {s s' : FactoryState Key Msg (BuiltInRouter Key Msg L) (BuiltInQueue Key Msg P)}

/-- While a message is handled at one time, no expired job is cast to a worker, unless one stands
behind jobs that the rate limiter is going to turn away. An expired job that waits goes on waiting or
is discarded, and one that arrives is discarded as expired. -/
theorem expired_jobs_not_started
    (args : FactoryArguments (BuiltInRouter Key Msg L) (BuiltInQueue Key Msg P))
    (h : Reached args s) {event : FactoryEvent Key Msg} {oracle : Oracle}
    {now : Instant} (hclock : ∀i,oracle.clock i=now)
    (hstep : Step s (event,oracle) s')
    (hg : WorkMeets (FlushesUnexpired now) s (event,oracle)) :
    ∃effects,s'.world.log=s.world.log++effects ∧
      (∀actor job delivered,.cast actor job delivered∈effects → job.isExpired now=false) ∧
      (∀effect∈effects,∀reason job,effect.discards=some (reason,job) →
        job.isExpired now=true → reason=.ttlExpired ∨ reason=.loadshed) ∧
      (∀job,s.Keeps job → job.isExpired now=true → s'.Keeps job ∨
        ∃effect∈effects,effect.discards=some (.ttlExpired,job) ∨
          effect.discards=some (.loadshed,job)) ∧
      ∀job,event=.message (.dispatch job) → job.isExpired now=true → ∃effect∈effects,
          effect.discards=some (.ttlExpired,(job.numbered s.world.nextJob).taken) := by
  obtain ⟨-,hc⟩:=reached_shaped h
  have hsees : (unexpiredAt now).Sees (s.withOracle oracle).world := by
    refine ⟨?_,fun i job hj => hclock i ▸ hj⟩
    rintro _ ⟨⟩ i
    exact hclock i
  have hsuits : ∀a work,(s.withOracle oracle).workOf event=some (a,work) →
      Suits (unexpiredAt now) a work :=
    fun a work hw => ⟨fun attempt hm p hp hr => hg a work hw attempt hm p hp (hr now rfl),
      fun _ _ _ _ => .of_sheds (fun _ => trivial) ..⟩
  obtain ⟨-,effects,hlog,hpermits⟩ :=
    handleEvent_obeys hstep hsuits (.inl fun _ => trivial) hc hsees
  have hlog : s'.world.log=s.world.log++effects:=hlog
  have hmoves:=step_moves (installs_all _) hstep
  obtain ⟨effects',hlog',hreleased⟩:=hmoves.releases hc
  obtain rfl : effects=effects':=append_cancel_left (hlog.symm.trans hlog')
  refine ⟨effects,hlog,fun actor job delivered hm => hpermits _ hm,?_,?_,?_⟩
  · intro effect hm reason job hd he
    have hreleased : effect.released=some job := by
      cases effect <;> cases hd <;> rfl
    rcases permits_expired (hpermits effect hm) hreleased he with hr | hr
    · exact .inl (Prod.mk.inj (Option.some.inj (hd.symm.trans hr))).1
    · exact .inr (Prod.mk.inj (Option.some.inj (hd.symm.trans hr))).1
  · intro job hw he
    rcases hreleased job hw with hw | ⟨effect,hm,hr⟩
    · exact .inl hw
    · exact .inr ⟨effect,hm,permits_expired (hpermits effect hm) hr he⟩
  · rintro job rfl he
    change (s.withOracle oracle).handle (.dispatch job)=.ok s' at hstep
    unfold handle at hstep
    split at hstep
    · cases hstep
    next t ht =>
      cases hstep
      have hexpired : job.isExpired (oracle.clock 0)=true := by rwa [hclock 0]
      obtain ⟨first,hfirst,effect,hm,hd⟩:=dispatch_expired ht hexpired
      have hkept : Keeping (fun _ => True) t t.stopIfDrained:=stopIfDrained_keeping t
      obtain ⟨last,hlast,-⟩:=hkept.housekeeping.writes
      rw [hfirst,append_assoc] at hlast
      obtain rfl:=append_cancel_left (hlog.symm.trans hlast)
      exact ⟨effect,mem_append_left last hm,hd⟩

end Results

/-! ### Runs -/

structure FourthRejected where
  checks : ℕ:=0

instance : RateLimiter FourthRejected where
  check limiter _:=(limiter.checks != 3,⟨limiter.checks+1⟩)
  bump limiter:=limiter

def Oracle.calmAt (now : Instant) : Oracle:={Oracle.calm with clock:=fun _ => now}

def Job.brief (key : ℕ) : Job ℕ Unit:=⟨key,(),⟨0,some 5,some ⟨0,5,false⟩,0⟩,none⟩

/-- A worker completes while two jobs wait, the first of which is expired. -/
theorem expired_jobs_not_started_replayed :
    ∃s s',Reached
        (.plain 1 (.rateLimited ⟨.queuer {},{}⟩ : BuiltInRouter ℕ Unit FourthRejected)) s ∧
      Step s (.message (.finished 0 1),.calmAt 10) s' ∧
      s.Keeps ((brief 2).numbered 1) ∧
      ∃effects,s'.world.log=s.world.log++effects ∧
        (∀actor job delivered,.cast actor job delivered∈effects→job.isExpired 10=false) ∧
        (s'.Keeps ((brief 2).numbered 1) ∨ ∃effect∈effects,
          effect.discards=some (.ttlExpired,(brief 2).numbered 1) ∨
            effect.discards=some (.loadshed,(brief 2).numbered 1)) := by
  obtain ⟨s,s',hs,hstep,ht⟩:=exists_step
    (.plain 1 (.rateLimited ⟨.queuer {},{}⟩ : BuiltInRouter ℕ Unit FourthRejected)) .calm 0
    (calmly [.dispatch (.plain 1),.dispatch (.brief 2),.dispatch (.plain 3)])
    (.message (.finished 0 1),.calmAt 10)
    (fun s _ => decide (WorkMeets (FlushesUnexpired 10) s (.message (.finished 0 1),.calmAt 10) ∧
      (brief 2).numbered 1∈(contents s.queue).map taken)) rfl (by decide +kernel)
  obtain ⟨hg,hq⟩:=of_decide_eq_true ht
  obtain ⟨effects,hlog,hcast,-,hwait,-⟩ := expired_jobs_not_started _ hs (fun _ => rfl) hstep hg
  exact ⟨s,s',hs,hstep,.inl hq,effects,hlog,hcast,hwait _ (.inl hq) rfl⟩

def Effect.castsExpired (now : ℕ) : Effect Key Msg → Bool
  | .cast _ job _ => job.isExpired now
  | _ => false

/-- A worker completes while two jobs wait, the second of which is expired. The first one is rate
limited, and the second one is cast to the worker. -/
theorem rateLimited_starts_expired :
    ∃s s',Reached
        (.plain 1 (.rateLimited ⟨.queuer {},{}⟩ : BuiltInRouter ℕ Unit FourthRejected)) s ∧
      Step s (.message (.finished 0 1),.calmAt 10) s' ∧
      ∃effects,s'.world.log=s.world.log++effects ∧ ∃actor job delivered,
        .cast actor job delivered∈effects ∧ job.isExpired 10=true := by
  obtain ⟨s,s',hs,hstep,ht⟩:=exists_step
    (.plain 1 (.rateLimited ⟨.queuer {},{}⟩ : BuiltInRouter ℕ Unit FourthRejected)) .calm 0
    (calmly [.dispatch (.plain 1),.dispatch (.plain 2),.dispatch (.brief 3)])
    (.message (.finished 0 1),.calmAt 10)
    (fun s s' => (s'.world.log.drop s.world.log.length).any (Effect.castsExpired 10))
    rfl (by decide +kernel)
  obtain ⟨-,hc⟩:=reached_shaped hs
  obtain ⟨effects,hlog,-⟩ := (step_moves (installs_all _) hstep).releases hc
  rw [hlog,drop_left] at ht
  obtain ⟨effect,hm,he⟩:=any_eq_true.mp ht
  refine ⟨s,s',hs,hstep,effects,hlog,?_⟩
  cases effect with
  | cast actor job delivered => exact ⟨actor,job,delivered,hm,he⟩
  | _ => cases he

end Ractor.Factory
