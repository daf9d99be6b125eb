import Ractor.FactoryPoolShape

/-!
# The staff of a factory and its log

The log says which actor was spawned for which worker id, which jobs were delivered to it and
which casts to it bounced. `Posted` ties the record of a worker to the entries about its actor:
the active job is the delivery that has not been completed yet, and a job is left in the queue
of a worker without an active job only after a bounced cast. Replacing an actor starts a new
account, since the new actor has no entries yet.
-/

namespace Ractor.Factory
open List Effect World

variable {Key Msg R Q : Type}

/-- The worker actor a log entry is about, as far as spawns, casts and completions go. -/
def Effect.subject : Effect Key Msg → Option ActorId
  | .spawned actor _ => some actor
  | .cast actor _ _ => some actor
  | .completed actor _ => some actor
  | _ => none

variable (actor : ActorId)

def Effect.completedBy : Effect Key Msg → Bool
  | .completed actor' _ => actor'=actor
  | _ => false

def deliveries (log : List (Effect Key Msg)) : List (Job Key Msg) :=
  log.filterMap (deliveredTo actor)

def completions (log : List (Effect Key Msg)) : ℕ :=
  log.countP (completedBy actor)

@[simp] theorem deliveries_append (log log' : List (Effect Key Msg)) :
    deliveries actor (log++log')=deliveries actor log++deliveries actor log' :=
  filterMap_append

@[simp] theorem completions_append (log log' : List (Effect Key Msg)) :
    completions actor (log++log')=completions actor log+completions actor log' :=
  countP_append

variable {actor} {log : List (Effect Key Msg)} {w w' : WorkerProperties Key Msg}
  {world : World Key Msg} {d d' : Desk Key Msg} {s s' : FactoryState Key Msg R Q} {wid : WorkerId}
  {effect : Effect Key Msg}

/-- Entries about other actors are neither deliveries nor completions. -/
theorem deliveries_eq_nil (h : ∀effect∈log,effect.subject≠some actor) :
    deliveries actor log=[] := by
  refine filterMap_eq_nil_iff.mpr fun effect hm => ?_
  have hs:=h effect hm
  unfold deliveredTo
  split
  · rw [if_neg]
    rintro rfl
    exact hs rfl
  · rfl

theorem completions_eq_zero (h : ∀effect∈log,effect.subject≠some actor) :
    completions actor log=0 := by
  refine countP_eq_zero.mpr fun effect hm hc => ?_
  have hs:=h effect hm
  unfold completedBy at hc
  split at hc
  · obtain rfl:=of_decide_eq_true hc
    exact hs rfl
  · cases hc

abbrev World.Silent (world world' : World Key Msg) : Prop :=
  world.Writes (fun effect => effect.subject=none) world'

namespace World.Silent
variable {a b : World Key Msg}

theorem deliveries (h : a.Silent b) (actor : ActorId) :
    deliveries actor b.log=Factory.deliveries actor a.log := by
  obtain ⟨effects,hl,he⟩:=h
  have hnil : Factory.deliveries actor effects=[] :=
    deliveries_eq_nil fun effect hm => by simp [he effect hm]
  rw [hl,deliveries_append,hnil,append_nil]

theorem completions (h : a.Silent b) (actor : ActorId) :
    completions actor b.log=Factory.completions actor a.log := by
  obtain ⟨effects,hl,he⟩:=h
  have hz : Factory.completions actor effects=0 :=
    completions_eq_zero fun effect hm => by simp [he effect hm]
  rw [hl,completions_append,hz,Nat.add_zero]

end World.Silent

def Job.entry (job : Job Key Msg) : Sigma fun _ : Key => JobOptions:=⟨job.key,job.options⟩

namespace WorkerProperties

/-- The active job is the one delivery to the actor that is not completed. -/
def Ledgered (w : WorkerProperties Key Msg) (log : List (Effect Key Msg)) : Prop :=
  ∃past active,deliveries w.actor log=past++active ∧
    past.length=completions w.actor log ∧ w.currJobs.entries=active.map Job.entry

/-- Jobs queue up behind an empty slot only after a bounced cast. -/
def Retained (w : WorkerProperties Key Msg) (log : List (Effect Key Msg)) : Prop :=
  w.currJobs=∅ → w.messageQueue≠[] → ∃job,cast w.actor job false∈log

theorem Ledgered.append {effects : List (Effect Key Msg)} (h : w.Ledgered log)
    (he : ∀effect∈effects,effect.subject≠some w.actor) : w.Ledgered (log++effects) := by
  unfold Ledgered
  rw [deliveries_append,completions_append,deliveries_eq_nil he,completions_eq_zero he,
    append_nil,Nat.add_zero]
  exact h

theorem Ledgered.silent {world' : World Key Msg} (h : w.Ledgered world.log)
    (hw : world.Silent world') : w.Ledgered world'.log := by
  unfold Ledgered
  rw [hw.deliveries,hw.completions]
  exact h

theorem Retained.append (h : w.Retained log) (effects : List (Effect Key Msg)) :
    w.Retained (log++effects) := by
  intro hs hq
  obtain ⟨job,hm⟩:=h hs hq
  exact ⟨job,mem_append_left _ hm⟩

theorem Ledgered.congr (h : w.Ledgered log) (ha : w'.actor=w.actor)
    (hs : w'.currJobs=w.currJobs) : w'.Ledgered log := by
  unfold Ledgered
  rw [ha,hs]
  exact h

/-- A worker without an active job whose actor has an empty account. -/
theorem ledgered_of_empty (hs : w.currJobs=∅) (hd : deliveries w.actor log=[])
    (hc : completions w.actor log=0) : w.Ledgered log :=
  ⟨[],[],hd,hc.symm,by rw [hs]; rfl⟩

end WorkerProperties

def FactoryState.Fresh (s : FactoryState Key Msg R Q) (actor : ActorId) : Prop :=
  ∀pid<s.world.nextPid,actor≠.ofLocal pid

theorem spawn_fresh (h : s.world.spawn wid=.ok (actor,world)) : s.Fresh actor := by
  obtain ⟨gap,rfl,-⟩:=spawn_ok s.world h
  intro pid hlt he
  cases he
  omega

theorem spawn_known (h : s.world.spawn wid=.ok (actor,world))
    (hn : s'.world.nextPid=world.nextPid) : ¬s'.Fresh actor := by
  obtain ⟨gap,rfl,hpid,-⟩:=spawn_ok s.world h
  refine fun hf => hf (s.world.nextPid+gap) ?_ rfl
  rw [hn,hpid]
  omega

/-- An operation on a worker only writes about its actor, and spawns nobody. -/
theorem Effect.OfWorker.subject (h : effect.OfWorker w) (hs : effect.subject=some actor) :
    actor=w.actor := by
  cases effect with
  | cast | completed =>
    cases hs
    exact h
  | spawned => exact h.elim
  | _ => cases hs

theorem Effect.IsHousekeeping.subject (h : effect.IsHousekeeping) : effect.subject=none := by
  cases effect <;> first | rfl | exact h.elim

theorem Effect.IsNote.subject (h : effect.IsNote) : effect.subject=none := by
  cases effect <;> first | rfl | exact h.elim

open WorkerProperties

variable [DecidableEq Key]

theorem WorkerMove.ledgered (h : WorkerMove d d') (hd : d.1.Ledgered d.2.log) :
    d'.1.Ledgered d'.2.log := by
  cases h with
  | tick w world => exact hd
  | @discard w world job rest reason hq =>
    have hw:=Ledgered.silent hd (.discard world w.discardHandler reason job (fun _ => rfl) rfl)
    exact hw.congr (untrackPendingKey_actor _ _) (untrackPendingKey_currJobs _ _)
  | @deliver w world job rest hq hs hde =>
    obtain ⟨past,active,hlog,hp,hsl⟩:=hd
    dsimp only at hlog hp hsl
    rw [hs] at hsl
    obtain rfl : active=[]:=map_eq_nil_iff.mp hsl.symm
    refine ⟨past,[job],?_,?_,?_⟩
    · rw [castJob_log,deliveries_append,hlog,hde,append_nil]
      simp [deliveries,deliveredTo]
    · rw [castJob_log,completions_append,hp]
      simp [completions,completedBy]
    · dsimp only
      rw [hs]
      rfl
  | @bounce w world job rest hq hs hde =>
    obtain ⟨past,active,hlog,hp,hsl⟩:=hd
    refine ⟨past,active,?_,?_,hsl⟩
    · rw [castJob_log,deliveries_append,hlog,hde]
      simp [deliveries,deliveredTo]
    · rw [castJob_log,completions_append,hp]
      simp [completions,completedBy]

theorem Moves.ledgered (h : Moves d d') (hd : d.1.Ledgered d.2.log) : d'.1.Ledgered d'.2.log :=
  h.preserves (P:=fun e => e.1.Ledgered e.2.log) (fun _ _ => WorkerMove.ledgered) hd

namespace WorkerProperties

/-! ### The operations of a worker -/

theorem enqueueJob_ledgered (h : w.Ledgered world.log) (job : Job Key Msg) :
    (w.enqueueJob job world).1.Ledgered (w.enqueueJob job world).2.log := by
  have hs : world.Silent (world.record (.enqueued w job)):=.record world rfl
  have hre:=h.silent hs
  cases hr : w.refusesNewest with
  | true =>
    rw [enqueueJob_refused job world hr]
    exact hre.silent (.trans (.discard _ _ _ _ (fun _ => rfl) rfl) (.reject _ _ fun _ => rfl))
  | false =>
    refine (enqueueJob_moves job world hr).ledgered ?_
    exact (hre.silent (.accept _ job fun _ => rfl)).congr rfl rfl

/-- A completion closes the account of the active job. -/
theorem workerComplete_ledgered (hw : w.currJobs.entries.length≤1) (h : w.Ledgered world.log)
    (key : Key) :
    (w.workerComplete key world).2.1.Ledgered (w.workerComplete key world).2.2.log := by
  cases hk : w.currJobs.lookup key with
  | none =>
    simp only [workerComplete,hk]
    exact h
  | some options =>
    refine (workerComplete_moves hw hk world).ledgered ?_
    obtain ⟨past,active,hlog,hp,hsl⟩:=h
    have hlen : active.length=1 := by
      have:=congrArg length hsl
      rwa [slot_lookup hw hk,length_map,eq_comm] at this
    have ha : (w.freeSlot key).actor=w.actor:=untrackPendingKey_actor _ _
    have hs : (w.freeSlot key).currJobs=∅ :=
      (untrackPendingKey_currJobs _ _).trans (erase_slot hw hk)
    refine ⟨past++active,[],?_,?_,by dsimp only; rw [hs]; rfl⟩
    · dsimp only
      rw [ha,record_log,deliveries_append,hlog]
      simp [deliveries,deliveredTo]
    · dsimp only
      rw [ha,record_log,completions_append,length_append,hp,hlen]
      simp [completions,completedBy]

/-- The new actor starts with an empty account. -/
theorem replaceWorker_ledgered (hw : w.currJobs.entries.length≤1) {nworker : ActorId}
    (hd : deliveries nworker world.log=[]) (hc : completions nworker world.log=0) :
    (w.replaceWorker nworker world).1.Ledgered (w.replaceWorker nworker world).2.log := by
  rcases replaceWorker_moves hw nworker world with ⟨hs,hm⟩ | ⟨key,options,hk,hm⟩
  · exact hm.ledgered (ledgered_of_empty hs hd hc)
  · have hs : (w.freeSlot key).currJobs=∅ :=
      (untrackPendingKey_currJobs _ _).trans (erase_slot hw hk)
    have hsi : world.Silent (world.record (.abandoned w.actor options)):=.record world rfl
    exact hm.ledgered (ledgered_of_empty hs ((hsi.deliveries nworker).trans hd)
      ((hsi.completions nworker).trans hc))

theorem dispatchJob_retained (w : WorkerProperties Key Msg) (job : Job Key Msg)
    (world : World Key Msg) :
    (w.dispatchJob job world).1.Retained (w.dispatchJob job world).2.log := by
  unfold dispatchJob
  split
  next hd =>
    intro hs _
    have hl:=congrArg (fun m => m.lookup job.key) hs
    simp at hl
  next hd =>
    intro _ _
    refine ⟨job,?_⟩
    have hd' : world.delivers=false:=Bool.eq_false_iff.mpr hd
    rw [castJob_log,hd']
    exact mem_append_right _ mem_cons_self

theorem dispatchNext_retained (w : WorkerProperties Key Msg) (world : World Key Msg) :
    (w.dispatchNext world).1.Retained (w.dispatchNext world).2.log := by
  have hn:=nextNonExpired_none w.messageQueue w world
  unfold dispatchNext getNextNonExpiredJob
  rcases hr : nextNonExpired w.messageQueue w world with ⟨_ | job,w',world'⟩
  · rw [hr] at hn
    exact fun _ hq => absurd (hn rfl) hq
  · exact dispatchJob_retained w' job world'

theorem enqueueJob_retained (h : w.Retained world.log) (job : Job Key Msg) :
    (w.enqueueJob job world).1.Retained (w.enqueueJob job world).2.log := by
  cases hr : w.refusesNewest with
  | true =>
    rw [enqueueJob_refused job world hr]
    have hre : world.Silent (world.record (.enqueued w job)):=.record world rfl
    obtain ⟨effects,hl,_⟩:=hre.trans
      (.trans (.discard _ w.discardHandler .loadshed job (fun _ => rfl) rfl)
        (.reject _ job fun _ => rfl))
    rw [hl]
    exact h.append effects
  | false =>
    by_cases hs : w.currJobs.entries=[]
    · rw [enqueueJob_idle job world hr (w.currJobs_eq_empty hs)]
      split
      · exact dispatchJob_retained _ _ _
      · exact dispatchJob_retained _ _ _
    · -- the slot stays taken
      intro he
      rw [enqueueJob_busy job world hr hs] at he
      refine absurd ?_ hs
      split at he
      · rw [shedOldest_currJobs] at he
        exact congrArg AList.entries he
      · exact congrArg AList.entries he

theorem workerComplete_retained (h : w.Retained world.log) (key : Key) :
    (w.workerComplete key world).2.1.Retained (w.workerComplete key world).2.2.log := by
  unfold workerComplete
  split
  · exact h
  · exact dispatchNext_retained _ _

theorem replaceWorker_retained (w : WorkerProperties Key Msg) (nworker : ActorId)
    (world : World Key Msg) :
    (w.replaceWorker nworker world).1.Retained (w.replaceWorker nworker world).2.log :=
  dispatchNext_retained _ _

end WorkerProperties

/-! ### Moves of the staff -/

def WorkerProperties.post (w : WorkerProperties Key Msg) :
    WorkerId × ActorId × List (Job Key Msg) × AList (fun _ : Key => JobOptions) ×
      AList (fun _ : Key => ℕ) :=
  (w.wid,w.actor,w.messageQueue,w.currJobs,w.pendingKeyCounts)

/-- What a single move of a factory does to its workers and to the log. -/
inductive StaffMove (s s' : FactoryState Key Msg R Q) : Prop where
  | keep (pool : ∀wid,(s'.pool.lookup wid).map WorkerProperties.post =
        (s.pool.lookup wid).map WorkerProperties.post)
      (pid : s'.world.nextPid=s.world.nextPid) (world : s.world.Silent s'.world)
  | enqueue {wid : WorkerId} {w : WorkerProperties Key Msg} {job : Job Key Msg}
      (lookup : s.pool.lookup wid=some w)
      (pool : s'.pool=s.pool.insert wid (w.enqueueJob job s.world).1)
      (world : s'.world=(w.enqueueJob job s.world).2)
  | complete {wid : WorkerId} {w : WorkerProperties Key Msg} {key : Key}
      (lookup : s.pool.lookup wid=some w)
      (pool : s'.pool=s.pool.insert wid (w.workerComplete key s.world).2.1)
      (world : s'.world=(w.workerComplete key s.world).2.2)
  | replace {wid : WorkerId} {w : WorkerProperties Key Msg} {actor : ActorId}
      {world : World Key Msg} (lookup : s.pool.lookup wid=some w)
      (spawn : s.world.spawn w.wid=.ok (actor,world))
      (pool : s'.pool=s.pool.insert wid (w.replaceWorker actor world).1)
      (world : s'.world=(w.replaceWorker actor world).2)
  | add {wid : WorkerId} {actor : ActorId} {settings : WorkerDiscardSettings}
      {handler : Option HandlerId} (spawn : s.world.spawn wid=.ok (actor,s'.world))
      (pool : s'.pool=s.pool.insert wid (.new wid actor settings handler))
  | remove {wid : WorkerId} (pool : s'.pool=s.pool.erase wid)
      (pid : s'.world.nextPid=s.world.nextPid) (world : s.world.Silent s'.world)

abbrev StaffMoves : FactoryState Key Msg R Q → FactoryState Key Msg R Q → Prop :=
  Relation.ReflTransGen StaffMove

theorem StaffMoves.preserves {P : FactoryState Key Msg R Q→Prop}
    (step : ∀a b,StaffMove a b→P a→P b) {a b : FactoryState Key Msg R Q}
    (h : StaffMoves a b) (ha : P a) : P b := by
  induction h with
  | refl => exact ha
  | tail _ hm ih => exact step _ _ hm ih

theorem StaffMove.of_pool (pool : s'.pool=s.pool) (pid : s'.world.nextPid=s.world.nextPid)
    (world : s.world.Silent s'.world) : StaffMove s s' :=
  .keep (fun wid => by rw [pool]) pid world

theorem StaffMove.adjust (hl : s.pool.lookup wid=some w) (pool : s'.pool=s.pool.insert wid w')
    (hp : w'.post=w.post) (world : s'.world=s.world) : StaffMove s s' := by
  refine .keep (fun k => ?_) (by rw [world]) (.of_log (by rw [world]))
  rw [pool]
  by_cases hk : k=wid
  · subst hk
    rw [AList.lookup_insert,hl,Option.map_some,Option.map_some,hp]
  · rw [AList.lookup_insert_ne hk]

/-! ### Accounts of the staff -/

structure Posted (wid : WorkerId) (w : WorkerProperties Key Msg) (log : List (Effect Key Msg)) :
    Prop where
  own : w.wid=wid
  consistent : w.Consistent
  spawned : spawned w.actor wid∈log
  ledgered : w.Ledgered log
  retained : w.Retained log

namespace Posted
variable {effects : List (Effect Key Msg)}

theorem append (h : Posted wid w log) (he : ∀effect∈effects,effect.subject≠some w.actor) :
    Posted wid w (log++effects) :=
  ⟨h.own,h.consistent,mem_append_left _ h.spawned,h.ledgered.append he,h.retained.append effects⟩

theorem congr (h : Posted wid w log) (hp : w'.post=w.post) : Posted wid w' log := by
  simp only [WorkerProperties.post,Prod.mk.injEq] at hp
  obtain ⟨hwid,ha,hq,hj,hc⟩:=hp
  refine ⟨hwid.trans h.own,⟨?_,fun key => ?_⟩,?_,h.ledgered.congr ha hj,?_⟩
  · rw [hj]
    exact h.consistent.slot
  · have:=h.consistent.counts key
    unfold heldCount at this ⊢
    rwa [hq,hj,hc]
  · rw [ha]
    exact h.spawned
  · unfold Retained
    rw [ha,hj,hq]
    exact h.retained

end Posted

/-- What happens to actors over time: the log grows, pids are not reused, and an id keeps its
actor or gets a fresh one. -/
structure Continues (s s' : FactoryState Key Msg R Q) : Prop where
  log : ∃effects,s'.world.log=s.world.log++effects
  pid : s.world.nextPid ≤ s'.world.nextPid
  actor : ∀wid w',s'.pool.lookup wid=some w' →
    (∃w,s.pool.lookup wid=some w ∧ w.actor=w'.actor) ∨ s.Fresh w'.actor

namespace Continues

omit [DecidableEq Key]

variable {a b c : FactoryState Key Msg R Q}

theorem refl (s : FactoryState Key Msg R Q) : Continues s s :=
  ⟨⟨[],by simp⟩,Nat.le_refl _,fun _ w hl => .inl ⟨w,hl,rfl⟩⟩

theorem trans (h : Continues a b) (h' : Continues b c) : Continues a c := by
  obtain ⟨es,hl⟩:=h.log
  obtain ⟨es',hl'⟩:=h'.log
  refine ⟨⟨es++es',by rw [hl',hl,append_assoc]⟩,h.pid.trans h'.pid,fun wid w' hw' => ?_⟩
  rcases h'.actor wid w' hw' with ⟨w,hw,hwa⟩ | hf
  · rw [← hwa]
    exact h.actor wid w hw
  · exact .inr fun pid hlt => hf pid (Nat.lt_of_lt_of_le hlt h.pid)

end Continues

structure Staffed (s : FactoryState Key Msg R Q) : Prop where
  posted : ∀wid w,s.pool.lookup wid=some w → Posted wid w s.world.log
  unique : ∀actor wid wid',spawned actor wid∈s.world.log →
    spawned actor wid'∈s.world.log → wid=wid'
  known : ∀effect∈s.world.log,∀actor,effect.subject=some actor → ¬s.Fresh actor

namespace Staffed

theorem distinct (hs : Staffed s) {wid' : WorkerId} (hl : s.pool.lookup wid=some w)
    (hl' : s.pool.lookup wid'=some w') (ha : w.actor=w'.actor) : wid=wid' := by
  refine hs.unique w.actor wid wid' (hs.posted wid w hl).spawned ?_
  rw [ha]
  exact (hs.posted wid' w' hl').spawned

theorem not_fresh (hs : Staffed s) (hl : s.pool.lookup wid=some w) : ¬s.Fresh w.actor :=
  hs.known _ (hs.posted wid w hl).spawned _ rfl

/-- One worker is put into the pool, under the actor it had or under a fresh one, and only
entries about this actor are written. -/
theorem insert (hs : Staffed s) {effects : List (Effect Key Msg)}
    (pool : s'.pool=s.pool.insert wid w') (log : s'.world.log=s.world.log++effects)
    (pid : s.world.nextPid ≤ s'.world.nextPid) (hw : Posted wid w' s'.world.log)
    (hac : (∃w,s.pool.lookup wid=some w ∧ w.actor=w'.actor) ∨ s.Fresh w'.actor)
    (hkn : ¬s'.Fresh w'.actor)
    (hsu : ∀effect∈effects,∀actor,effect.subject=some actor→actor=w'.actor)
    (hsp : ∀actor k,spawned actor k∈effects→k=wid ∧ s.Fresh w'.actor) :
    Staffed s' ∧ Continues s s' := by
  have hold : ∀actor k,spawned actor k∈s.world.log→¬s.Fresh actor :=
    fun actor k hm => hs.known _ hm actor rfl
  refine ⟨⟨fun k v hk => ?_,fun actor k k' hm hm' => ?_,fun effect hm actor ha hf => ?_⟩,
    ⟨effects,log⟩,pid,fun k v hk => ?_⟩
  · rw [pool] at hk
    rcases FiniteMap.lookup_insert_eq_some.mp hk with ⟨rfl,rfl⟩ | ⟨hne,hk⟩
    · exact hw
    · rw [log]
      refine (hs.posted k v hk).append fun effect hm he => ?_
      have hv:=hsu effect hm _ he
      rcases hac with ⟨w,hl,hwa⟩ | hf
      · exact hne (hs.distinct hk hl (hv.trans hwa.symm))
      · exact hs.not_fresh hk (hv ▸ hf)
  · rw [log] at hm hm'
    rcases mem_append.mp hm with hm | hm
    · rcases mem_append.mp hm' with hm' | hm'
      · exact hs.unique actor k k' hm hm'
      · have ha:=hsu _ hm' actor rfl
        exact absurd (ha ▸ (hsp actor k' hm').2) (hold actor k hm)
    · rcases mem_append.mp hm' with hm' | hm'
      · have ha:=hsu _ hm actor rfl
        exact absurd (ha ▸ (hsp actor k hm).2) (hold actor k' hm')
      · exact (hsp actor k hm).1.trans (hsp actor k' hm').1.symm
  · rw [log] at hm
    rcases mem_append.mp hm with hm | hm
    · exact hs.known effect hm actor ha fun p hp => hf p (Nat.lt_of_lt_of_le hp pid)
    · exact hkn (hsu effect hm actor ha ▸ hf)
  · rw [pool] at hk
    rcases FiniteMap.lookup_insert_eq_some.mp hk with ⟨rfl,rfl⟩ | ⟨_,hk⟩
    · exact hac
    · exact .inl ⟨v,hk,rfl⟩

/-- Nobody is put into the pool, and nothing is written about anybody. -/
theorem silent (hs : Staffed s) (pid : s'.world.nextPid=s.world.nextPid)
    (world : s.world.Silent s'.world)
    (pool : ∀wid w',s'.pool.lookup wid=some w' →
      ∃w,s.pool.lookup wid=some w ∧ w'.post=w.post) : Staffed s' ∧ Continues s s' := by
  obtain ⟨effects,hl,he⟩:=world
  have hsp : ∀actor k,spawned actor k∈s'.world.log→spawned actor k∈s.world.log := by
    intro actor k hm
    rw [hl] at hm
    refine (mem_append.mp hm).resolve_right fun hm => ?_
    cases he _ hm
  refine ⟨⟨fun wid w' hw' => ?_,fun actor k k' hm hm' => ?_,fun effect hm actor ha hf => ?_⟩,
    ⟨effects,hl⟩,pid.ge,fun wid w' hw' => .inl ?_⟩
  · obtain ⟨w,hw,hp⟩:=pool wid w' hw'
    rw [hl]
    refine ((hs.posted wid w hw).congr hp).append fun effect hm => ?_
    simp [he effect hm]
  · exact hs.unique actor k k' (hsp actor k hm) (hsp actor k' hm')
  · rw [hl] at hm
    rcases mem_append.mp hm with hm | hm
    · exact hs.known effect hm actor ha fun p hp => hf p (by rwa [pid])
    · rw [he effect hm] at ha
      cases ha
  · obtain ⟨w,hw,hp⟩:=pool wid w' hw'
    exact ⟨w,hw,congrArg (fun p => p.2.1) hp.symm⟩

end Staffed

/-- An operation on a worker that ends with its record in order. -/
theorem Staffed.operate (hs : Staffed s) (hl : s.pool.lookup wid=some w) (hw : d.1=w)
    (hsi : s.world.Silent d.2) (hpid : d.2.nextPid=s.world.nextPid) (hf : Frame d d')
    (pool : s'.pool=s.pool.insert wid d'.1) (world : s'.world=d'.2) (hc : d'.1.Consistent)
    (hle : d'.1.Ledgered d'.2.log) (hr : d'.1.Retained d'.2.log) :
    Staffed s' ∧ Continues s s' := by
  obtain ⟨es,hlog,hes⟩:=hsi
  obtain ⟨es',hl',hes'⟩:=hf.log
  have hac : d'.1.actor=w.actor:=hf.actor.trans (congrArg _ hw)
  have hp:=hs.posted wid w hl
  have hall : s'.world.log=s.world.log++(es++es') := by
    rw [world,hl',hlog,append_assoc]
  have hne : s'.world.nextPid=s.world.nextPid := by rw [world,hf.nextPid,hpid]
  have hof : ∀effect∈es++es',effect.subject=none ∨ effect.OfWorker w := by
    intro effect hm
    rcases mem_append.mp hm with hm | hm
    · exact .inl (hes effect hm)
    · exact .inr (hw ▸ hes' effect hm)
  refine hs.insert pool hall hne.ge ⟨?_,hc,?_,?_,?_⟩ (.inl ⟨w,hl,hac.symm⟩) ?_ ?_ ?_
  · exact hf.wid.trans ((congrArg _ hw).trans hp.own)
  · rw [hall,hac]
    exact mem_append_left _ hp.spawned
  · rw [world]
    exact hle
  · rw [world]
    exact hr
  · intro hfr
    rw [hac] at hfr
    exact hs.not_fresh hl fun p hlt => hfr p (by rwa [hne])
  · intro effect hm actor ha
    rcases hof effect hm with hn | ho
    · rw [hn] at ha
      cases ha
    · rw [hac]
      exact ho.subject ha
  · intro actor k hm
    rcases hof _ hm with hn | ho
    · cases hn
    · exact ho.elim

theorem Staffed.unknown (hs : Staffed s) (hf : s.Fresh actor) :
    deliveries actor s.world.log=[] ∧ completions actor s.world.log=0 :=
  ⟨deliveries_eq_nil fun effect hm he => hs.known effect hm actor he hf,
    completions_eq_zero fun effect hm he => hs.known effect hm actor he hf⟩

theorem StaffMove.staffed (h : StaffMove s s') (hs : Staffed s) : Staffed s' ∧ Continues s s' := by
  cases h with
  | keep pool pid world =>
    refine hs.silent pid world fun wid w' hw' => ?_
    have hp:=pool wid
    rw [hw'] at hp
    cases hw : s.pool.lookup wid with
    | none => simp [hw] at hp
    | some w => exact ⟨w,rfl,by simpa [hw] using hp⟩
  | remove pool pid world =>
    refine hs.silent pid world fun wid w' hw' => ⟨w',?_,rfl⟩
    rw [pool] at hw'
    exact (FiniteMap.lookup_erase_eq_some.mp hw').2
  | @enqueue wid w job hl pool world =>
    have hp:=hs.posted wid w hl
    have hsi : s.world.Silent (s.world.record (.enqueued w job)):=.record s.world rfl
    exact hs.operate hl rfl hsi rfl (w.enqueueJob_frame job s.world) pool world
      (enqueueJob_consistent hp.consistent job s.world) (enqueueJob_ledgered hp.ledgered job)
      (enqueueJob_retained hp.retained job)
  | @complete wid w key hl pool world =>
    have hp:=hs.posted wid w hl
    exact hs.operate (d:=(w,s.world)) hl rfl (.of_log rfl) rfl
      (workerComplete_frame hp.consistent.slot key s.world) pool world
      (workerComplete_consistent hp.consistent key s.world)
      (workerComplete_ledgered hp.consistent.slot hp.ledgered key)
      (workerComplete_retained hp.retained key)
  | @replace wid w actor world hl spawn pool hwo =>
    have hp:=hs.posted wid w hl
    obtain ⟨gap,hac,hpid,-,hlog⟩:=spawn_ok s.world spawn
    have hf:=replaceWorker_frame hp.consistent.slot actor world
    obtain ⟨es,hes,hof⟩:=hf.log
    have hw' : (w.replaceWorker actor world).1.actor=actor:=hf.actor
    have hn : s'.world.nextPid=world.nextPid := by rw [hwo,hf.nextPid]
    have hfr:=spawn_fresh spawn
    have hk:=spawn_known spawn hn
    obtain ⟨hd,hc⟩:=hs.unknown hfr
    have hall : s'.world.log=s.world.log++(.spawned actor w.wid ::
        (w.currJobs.entries.map fun e => .abandoned w.actor e.2)++es) := by
      rw [hwo,hes,hlog]
      simp
    refine hs.insert pool hall (by rw [hn,hpid]; omega) ⟨?_,?_,?_,?_,?_⟩
      (.inr (by rwa [hw'])) (by rwa [hw']) ?_ ?_
    · exact hf.wid.trans hp.own
    · exact replaceWorker_consistent hp.consistent actor world
    · rw [hall,hw',hp.own]
      simp
    · rw [hwo]
      refine replaceWorker_ledgered hp.consistent.slot ?_ ?_
      · rw [hlog,deliveries_append,hd]
        rfl
      · rw [hlog,completions_append,hc]
        rfl
    · rw [hwo]
      exact replaceWorker_retained w actor world
    · intro effect hm a ha
      rw [hw']
      rcases mem_append.mp hm with hm | hm
      · rcases mem_cons.mp hm with rfl | hm
        · exact (Option.some.inj ha).symm
        · obtain ⟨e,-,rfl⟩:=mem_map.mp hm
          cases ha
      · exact (hof effect hm).subject ha
    · intro a k hm
      refine ⟨?_,by rwa [hw']⟩
      rcases mem_append.mp hm with hm | hm
      · rcases mem_cons.mp hm with he | hm
        · cases he
          exact hp.own
        · obtain ⟨e,-,he⟩:=mem_map.mp hm
          cases he
      · exact (hof _ hm).elim
  | @add wid actor settings handler spawn pool =>
    obtain ⟨gap,hac,hpid,-,hlog⟩:=spawn_ok s.world spawn
    have hfr:=spawn_fresh spawn
    have hk : ¬s'.Fresh actor:=spawn_known spawn rfl
    obtain ⟨hd,hc⟩:=hs.unknown hfr
    refine hs.insert pool hlog (by rw [hpid]; omega) ⟨rfl,new_consistent _ _ _ _,?_,?_,?_⟩
      (.inr hfr) hk ?_ ?_
    · rw [hlog]
      exact mem_append_right _ mem_cons_self
    · refine ledgered_of_empty rfl ?_ ?_
      · rw [hlog,deliveries_append]
        exact congrArg (· ++ []) hd
      · rw [hlog,completions_append]
        exact congrArg (· + 0) hc
    · exact fun _ hq => absurd rfl hq
    · intro effect hm a ha
      obtain rfl:=mem_singleton.mp hm
      exact (Option.some.inj ha).symm
    · intro a k hm
      cases mem_singleton.mp hm
      exact ⟨rfl,hfr⟩

theorem StaffMoves.continues (h : StaffMoves s s') (hs : Staffed s) : Continues s s' :=
  (h.preserves (P:=fun t => Staffed t ∧ Continues s t)
    (fun _ _ hm ht => (hm.staffed ht.1).imp_right ht.2.trans) ⟨hs,.refl s⟩).2

theorem FactoryState.initial_staffed (args : FactoryArguments R Q) (oracle : Oracle)
    (firstPid firstJob : ℕ) :
    Staffed (initial args oracle firstPid firstJob : FactoryState Key Msg R Q) :=
  ⟨fun _ _ hl => (by cases hl),fun _ _ _ hm => (by cases hm),fun _ hm => (by cases hm)⟩

/-! ### Factories -/

variable [Router R Key Msg] [Queue Q Key Msg] [LawfulQueue Q] {H : Option HandlerId→Prop}
  {hint : Option WorkerId}

theorem KeepingMove.staff (h : KeepingMove H s s') : StaffMove s s' := by
  have hk:=h.housekeeping
  refine .keep (fun wid => ?_) hk.nextPid (hk.writes.imp fun _ he => he.subject)
  have hp:=congrArg (Option.map fun core => (core.1,core.2.1,core.2.2.1,core.2.2.2.1,
    core.2.2.2.2.1)) (hk.pool wid)
  rwa [Option.map_map,Option.map_map] at hp

variable [LawfulRouter R]

theorem RoutingMove.staff {a b : Hand Key Msg R Q} (h : RoutingMove H hint a b) :
    StaffMove a.1 b.1 := by
  cases h with
  | quiet s hand hr hw =>
    obtain ⟨oracle,rfl⟩:=hw
    exact .of_pool rfl rfl (.of_log rfl)
  | keep hk => exact hk.staff
  | note s hand h => exact .of_pool rfl rfl (.record s.world h.subject)
  | arrive s job => exact .of_pool rfl rfl ⟨[_],rfl,by simp [subject]⟩
  | take | store => exact .of_pool rfl rfl (.of_log rfl)
  | discard s job reason =>
    refine .of_pool rfl ?_ (.discard s.world s.discardHandler reason job (fun _ => rfl) rfl)
    cases s.discardHandler <;> rfl
  | enqueue hl _ => exact .enqueue hl rfl rfl

theorem Routing.staff {a b : Hand Key Msg R Q} (h : Routing H hint a b) : StaffMoves a.1 b.1 :=
  h.preserves (P:=fun c => StaffMoves a.1 c.1) (fun _ _ hm hs => hs.tail hm.staff) .refl

theorem FactoryMove.staff (h : FactoryMove H s s') : StaffMoves s s' := by
  cases h with
  | routing h => exact h.staff
  | complete key hl => exact .single (.complete hl rfl rfl)
  | replace hi hl hs => exact .single (.replace hl hs rfl rfl)
  | @add _ _ wid hl h =>
    obtain ⟨_,_,hs,rfl⟩:=FactoryState.addWorker_ok h
    exact .single (.add hs rfl)
  | setDraining isDraining hl => exact .single (.adjust hl rfl rfl rfl)
  | remove hl ha => exact .single (.remove rfl rfl (.record s.world rfl))
  | setPoolSize n => exact .single (.of_pool rfl rfl (.of_log rfl))

theorem FactoryMoves.staff (h : FactoryMoves H s s') : StaffMoves s s' :=
  h.preserves (P:=StaffMoves s) (fun _ _ hm hs => hs.trans hm.staff) .refl

theorem FactoryMove.staffed (h : FactoryMove H s s') (hs : Staffed s) : Staffed s' :=
  h.staff.preserves (fun _ _ hm ha => (hm.staffed ha).1) hs

namespace FactoryState

theorem reached_staffed {args : FactoryArguments R Q} (h : Reached args s) : Staffed s :=
  reached_of_moves (fun oracle firstPid firstJob _ => initial_staffed args oracle firstPid firstJob)
    (fun _ _ => FactoryMove.staffed) h

theorem step_continues {label : FactoryEvent Key Msg × Oracle} (h : Step s label s')
    (hs : Staffed s) : Continues s s' :=
  (step_moves (H:=fun _ => True) (installs_all label.1) h).staff.continues hs

end FactoryState
end Ractor.Factory
