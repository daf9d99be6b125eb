import Ractor.FactoryJobs

/-!
# The world around a factory

Everything the factory code asks of or does to its surroundings. The answers come
from an `Oracle`: each handled message is given a fresh oracle, and each question
consumes one answer of the matching stream. Nothing is assumed about the answers,
so a statement about all oracles covers every clock, every outcome of every cast,
and every iteration order of a hash map. What the factory does is appended to a log;
the entries `dispatched`, `enqueued`, `completed` and `abandoned` are ghosts that
record an internal event with the data it happened on.
-/

namespace Ractor.Factory

structure Oracle where
  /-- Successive readings of `Instant::now()`. -/
  clock : ℕ → Instant
  /-- Whether a cast to a worker actor is delivered; `false` is `SendErr`. -/
  casts : ℕ → Bool
  /-- `none` is a failed spawn; `some gap` skips `gap` pids taken by other actors. -/
  spawns : ℕ → Option ℕ
  /-- Which of several matching entries a hash map iteration meets first. -/
  picks : ℕ → ℕ
  /-- Answers of `WorkerCapacityController::get_pool_size`. -/
  sizes : ℕ → ℕ
  /-- Answers of `DynamicDiscardController::compute`. -/
  limits : ℕ → ℕ
  /-- Whether a lifecycle hook returns `Ok`. -/
  hooks : ℕ → Bool

inductive Effect (Key Msg : Type) where
  | dispatched (job : Job Key Msg)
  | enqueued (worker : WorkerProperties Key Msg) (job : Job Key Msg)
  | cast (actor : ActorId) (job : Job Key Msg) (delivered : Bool)
  | pinged (actor : ActorId) (delivered : Bool)
  | accepted (port : ReplyPort)
  | rejected (port : ReplyPort) (job : Job Key Msg)
  | discarded (handler : HandlerId) (reason : DiscardReason) (job : Job Key Msg)
  | dropped (reason : DiscardReason) (job : Job Key Msg)
  | completed (actor : ActorId) (options : JobOptions)
  | abandoned (actor : ActorId) (options : JobOptions)
  | spawned (actor : ActorId) (wid : WorkerId)
  | stopped (actor : ActorId)
  | killed (actor : ActorId)
  | replied (port : ReplyPort) (value : ℕ)
  | stoppedSelf

/-- The oracle in force, the pid allocator, the ghost job counter and the log. -/
structure World (Key Msg : Type) where
  oracle : Oracle
  nextPid : ℕ
  nextJob : ℕ
  log : List (Effect Key Msg)

inductive FactoryError where
  | spawnFailed
  | hookFailed
  | backlogAfterTarget
  | priorityOutOfRange
  deriving DecidableEq, Repr

namespace World
variable {Key Msg : Type} (world : World Key Msg)

def record (effect : Effect Key Msg) : World Key Msg :=
  {world with log:=world.log++[effect]}

def now : Instant:=world.oracle.clock 0

def tick : World Key Msg :=
  {world with oracle:={world.oracle with clock:=fun i => world.oracle.clock (i+1)}}

def pick : ℕ:=world.oracle.picks 0

def picked : World Key Msg :=
  {world with oracle:={world.oracle with picks:=fun i => world.oracle.picks (i+1)}}

def delivers : Bool:=world.oracle.casts 0

variable (actor : ActorId) (job : Job Key Msg)

/-- `actor.cast(WorkerMessage::Dispatch(job))`; the outcome is `world.delivers`. -/
def castJob : World Key Msg :=
  { world with
    oracle:={world.oracle with casts:=fun i => world.oracle.casts (i+1)}
    log:=world.log++[.cast actor job world.delivers] }

/-- `actor.cast(WorkerMessage::FactoryPing(..))`; the outcome is `world.delivers`. -/
def castPing : World Key Msg :=
  { world with
    oracle:={world.oracle with casts:=fun i => world.oracle.casts (i+1)}
    log:=world.log++[.pinged actor world.delivers] }

/-- `Actor::spawn_linked`: a pid that was never used before, or an error. -/
def spawn (wid : WorkerId) : Except FactoryError (ActorId × World Key Msg) :=
  match world.oracle.spawns 0 with
  | none => .error .spawnFailed
  | some gap =>
    .ok (.ofLocal (world.nextPid+gap),
      { world with
        oracle:={world.oracle with spawns:=fun i => world.oracle.spawns (i+1)}
        nextPid:=world.nextPid+gap+1
        log:=world.log++[.spawned (.ofLocal (world.nextPid+gap)) wid] })

def askSize : ℕ × World Key Msg :=
  (world.oracle.sizes 0,
    {world with oracle:={world.oracle with sizes:=fun i => world.oracle.sizes (i+1)}})

def askLimit : ℕ × World Key Msg :=
  (world.oracle.limits 0,
    {world with oracle:={world.oracle with limits:=fun i => world.oracle.limits (i+1)}})

def askHook : Bool × World Key Msg :=
  (world.oracle.hooks 0,
    {world with oracle:={world.oracle with hooks:=fun i => world.oracle.hooks (i+1)}})

/-- `if let Some(handler) = .. { handler.discard(reason, &mut job) }`, with a ghost
record of the jobs that meet no handler. -/
def discard (handler : Option HandlerId) (reason : DiscardReason) (job : Job Key Msg) :
    World Key Msg :=
  match handler with
  | some h => world.record (.discarded h reason job)
  | none => world.record (.dropped reason job)

/-- `Job::accept`: answer `None` on the port, if there is one. -/
def accept : World Key Msg :=
  match job.accepted with
  | some port => world.record (.accepted port)
  | none => world

/-- `Job::reject`: hand the job back through the port, if there is one. -/
def reject : World Key Msg :=
  match job.accepted with
  | some port => world.record (.rejected port {job with accepted:=none})
  | none => world

end World

/-- The job after `Job::accept` took its port. -/
def Job.taken {Key Msg : Type} (job : Job Key Msg) : Job Key Msg:={job with accepted:=none}

/-! ### What the log says of a job -/

namespace Effect
variable {Key Msg : Type}

def dispatchedJob : Effect Key Msg → Option (Job Key Msg)
  | .dispatched job => some job
  | _ => none

def enqueuedJob : Effect Key Msg → Option (Job Key Msg)
  | .enqueued _ job => some job
  | _ => none

def deliveredJob : Effect Key Msg → Option (Job Key Msg)
  | .cast _ job true => some job
  | _ => none

def deliveredTo (actor : ActorId) : Effect Key Msg → Option (Job Key Msg)
  | .cast actor' job true => if actor'=actor then some job else none
  | _ => none

end Effect

namespace World
variable {Key Msg : Type} (world : World Key Msg)

def dispatchedJobs : List (Job Key Msg) :=
  world.log.filterMap Effect.dispatchedJob

def enqueuedJobs : List (Job Key Msg) :=
  world.log.filterMap Effect.enqueuedJob

def deliveredJobs : List (Job Key Msg) :=
  world.log.filterMap Effect.deliveredJob

end World

/-- The log of the second world continues that of the first by entries with a property. -/
def World.Writes {Key Msg : Type} (p : Effect Key Msg → Prop) (world world' : World Key Msg) :
    Prop :=
  ∃effects,world'.log=world.log++effects ∧ ∀effect∈effects,p effect

namespace World.Writes
variable {Key Msg : Type} {p q : Effect Key Msg→Prop} {a b c : World Key Msg}

theorem of_log (h : b.log=a.log) : a.Writes p b:=⟨[],by rw [h,List.append_nil],by simp⟩

theorem trans (h : a.Writes p b) (h' : b.Writes p c) : a.Writes p c := by
  obtain ⟨es,hl,he⟩:=h
  obtain ⟨es',hl',he'⟩:=h'
  refine ⟨es++es',by rw [hl',hl,List.append_assoc],fun effect hm => ?_⟩
  exact (List.mem_append.mp hm).elim (he effect) (he' effect)

theorem imp (h : a.Writes p b) (hpq : ∀effect,p effect → q effect) : a.Writes q b := by
  obtain ⟨es,hl,he⟩:=h
  exact ⟨es,hl,fun effect hm => hpq effect (he effect hm)⟩

/-- Entries that a projection of the log leaves out do not change it. -/
theorem filterMap_log {β : Type} {f : Effect Key Msg→Option β}
    (h : a.Writes (fun effect => f effect=none) b) : b.log.filterMap f=a.log.filterMap f := by
  obtain ⟨es,hl,he⟩:=h
  rw [hl,List.filterMap_append,List.filterMap_eq_nil_iff.mpr he,List.append_nil]

variable (world : World Key Msg) (job : Job Key Msg)

theorem record {effect : Effect Key Msg} (h : p effect) : world.Writes p (world.record effect) :=
  ⟨[effect],rfl,by simpa using h⟩

theorem discard (handler : Option HandlerId) (reason : DiscardReason) (job : Job Key Msg)
    (hd : ∀handler,p (.discarded handler reason job)) (hn : p (.dropped reason job)) :
    world.Writes p (world.discard handler reason job) := by
  cases handler with
  | none => exact record world hn
  | some handler => exact record world (hd handler)

theorem accept (h : ∀port,p (.accepted port)) : world.Writes p (world.accept job) := by
  unfold World.accept
  split
  · exact record world (h _)
  · exact of_log rfl

theorem reject (h : ∀port,p (.rejected port job.taken)) : world.Writes p (world.reject job) := by
  unfold World.reject
  split
  · exact record world (h _)
  · exact of_log rfl

end World.Writes

section Simp
variable {Key Msg : Type} (world : World Key Msg) (job : Job Key Msg)

@[simp] theorem Job.taken_key : job.taken.key=job.key:=rfl
@[simp] theorem Job.taken_tag : job.taken.tag=job.tag:=rfl
@[simp] theorem Job.taken_options : job.taken.options=job.options:=rfl

@[simp] theorem World.record_log (effect : Effect Key Msg) :
    (world.record effect).log=world.log++[effect]:=rfl

@[simp] theorem World.tick_log : world.tick.log=world.log:=rfl

@[simp] theorem World.picked_log : world.picked.log=world.log:=rfl

@[simp] theorem World.castJob_log (actor : ActorId) :
    (world.castJob actor job).log=world.log++[.cast actor job world.delivers]:=rfl

@[simp] theorem World.discard_oracle (handler : Option HandlerId) (reason : DiscardReason) :
    (world.discard handler reason job).oracle=world.oracle := by cases handler <;> rfl
@[simp] theorem World.accept_oracle : (world.accept job).oracle=world.oracle := by
  unfold World.accept
  split <;> rfl
@[simp] theorem World.reject_oracle : (world.reject job).oracle=world.oracle := by
  unfold World.reject
  split <;> rfl

/-- A successful spawn hands out a pid that was not used before. -/
theorem World.spawn_ok {wid : WorkerId} {actor : ActorId} {world' : World Key Msg}
    (h : world.spawn wid=.ok (actor,world')) :
    ∃gap,actor=.ofLocal (world.nextPid+gap) ∧ world'.nextPid=world.nextPid+gap+1 ∧
      world'.nextJob=world.nextJob ∧ world'.log=world.log++[.spawned actor wid] := by
  unfold World.spawn at h
  split at h
  · cases h
  next gap _ =>
    cases h
    exact ⟨gap,rfl,rfl,rfl,rfl⟩

theorem World.spawn_clock {wid : WorkerId} {actor : ActorId} {world' : World Key Msg}
    (h : world.spawn wid=.ok (actor,world')) : world'.oracle.clock=world.oracle.clock := by
  unfold World.spawn at h
  split at h
  · cases h
  · cases h
    rfl

end Simp
end Ractor.Factory
