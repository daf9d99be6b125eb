import Ractor.FactoryWorld

/-!
# Worker operations

The methods of `WorkerProperties` in `worker.rs`. A method takes the worker record
and the world and returns both. The two `while` loops are structural: the expiry
scan recurses on the queue, the load-shedding loop on a fuel that starts at the
queue length. `enqueue_job` and `worker_complete` return a `Result` in the source,
but no path of theirs produces an `Err`.
-/

namespace Ractor.Factory.WorkerProperties
variable {Key Msg : Type} [DecidableEq Key]

def nextNonExpired :
    List (Job Key Msg) → WorkerProperties Key Msg → World Key Msg →
      Option (Job Key Msg) × WorkerProperties Key Msg × World Key Msg
  | [],w,world => (none,{w with messageQueue:=[]},world)
  | job::rest,w,world =>
    if job.isExpired world.now then
      nextNonExpired rest (w.untrackPendingKey job.key)
        (world.tick.discard w.discardHandler .ttlExpired job)
    else (some job,{w with messageQueue:=rest},world.tick)

variable (w : WorkerProperties Key Msg) (job : Job Key Msg) (world : World Key Msg)

def getNextNonExpiredJob : Option (Job Key Msg) × WorkerProperties Key Msg × World Key Msg :=
  nextNonExpired w.messageQueue w world

/-- `dispatch_job`. A typed reference to a local actor only fails with `SendErr`,
which gives the job back; it is retained at the head of the queue. -/
def dispatchJob : WorkerProperties Key Msg × World Key Msg :=
  if world.delivers then
    ({w with currJobs:=w.currJobs.insert job.key job.options},world.castJob w.actor job)
  else ({w with messageQueue:=job::w.messageQueue},world.castJob w.actor job)

/-- `if let Some(job) = self.get_next_non_expired_job() { self.dispatch_job(job); }` -/
def dispatchNext : WorkerProperties Key Msg × World Key Msg :=
  match w.getNextNonExpiredJob world with
  | (some job,w,world) => w.dispatchJob job world
  | (none,w,world) => (w,world)

/-- The `Oldest` loop of `enqueue_job`. Every round shortens the queue, so the queue
length is enough fuel. -/
def shedOldest (limit : ℕ) :
    ℕ → WorkerProperties Key Msg → World Key Msg → WorkerProperties Key Msg × World Key Msg
  | 0,w,world => (w,world)
  | fuel+1,w,world =>
    if limit<w.messageQueue.length then
      match w.getNextNonExpiredJob world with
      | (some shed,w,world) =>
        shedOldest limit fuel (w.untrackPendingKey shed.key)
          (world.discard w.discardHandler .loadshed shed)
      | (none,w,world) => shedOldest limit fuel w world
    else (w,world)

def refusesNewest : Bool :=
  match w.discardSettings.getLimitAndMode with
  | some (limit,.newest) => !w.isAvailable && decide (limit≤w.messageQueue.length)
  | _ => false

def enqueueJob : WorkerProperties Key Msg × World Key Msg :=
  let world := world.record (.enqueued w job)
  if w.refusesNewest then
    (w,(world.discard w.discardHandler .loadshed job).reject job)
  else
    let world := world.accept job
    let job := job.taken
    let w := w.trackPendingKey job.key
    if w.currJobs.entries.isEmpty then
      match w.getNextNonExpiredJob world with
      | (some older,w,world) =>
        {w with messageQueue:=w.messageQueue++[job]}.dispatchJob older world
      | (none,w,world) => w.dispatchJob job world
    else
      let w := {w with messageQueue:=w.messageQueue++[job]}
      match w.discardSettings.getLimitAndMode with
      | some (limit,.oldest) => shedOldest limit w.messageQueue.length w world
      | _ => (w,world)

/-- `worker_complete`. The first component is the completed job's options, `none`
for a completion that matches nothing. -/
def workerComplete (key : Key) (world : World Key Msg) :
    Option JobOptions × WorkerProperties Key Msg × World Key Msg :=
  match w.currJobs.lookup key with
  | none => (none,w,world)
  | some options =>
    let w := {w with currJobs:=w.currJobs.erase key}.untrackPendingKey key
    (some options,w.dispatchNext (world.record (.completed w.actor options)))

def abandonJobs (entries : List (Sigma fun _ : Key => JobOptions))
    (w : WorkerProperties Key Msg) (world : World Key Msg) :
    WorkerProperties Key Msg × World Key Msg :=
  entries.foldl
    (fun s entry => (s.1.untrackPendingKey entry.1,s.2.record (.abandoned s.1.actor entry.2)))
    (w,world)

def replaceWorker (nworker : ActorId) (world : World Key Msg) :
    WorkerProperties Key Msg × World Key Msg :=
  let s := abandonJobs w.currJobs.entries {w with heartbeat:={},currJobs:=∅} world
  {s.1 with actor:=nworker}.dispatchNext s.2

def sendFactoryPing : WorkerProperties Key Msg × World Key Msg :=
  if w.heartbeat.isPending then (w,world)
  else if world.tick.delivers then
    ({w with heartbeat:={sentAt:=some world.now}},world.tick.castPing w.actor)
  else (w,world.tick.castPing w.actor)

def pingReceived (discardLimit : ℕ) : WorkerProperties Key Msg :=
  { w with
    discardSettings:=w.discardSettings.updateWorkerLimit discardLimit
    heartbeat:={} }

section Fields
variable (key : Key)

@[simp] theorem trackPendingKey_messageQueue :
    (w.trackPendingKey key).messageQueue=w.messageQueue:=rfl
@[simp] theorem trackPendingKey_currJobs : (w.trackPendingKey key).currJobs=w.currJobs:=rfl
@[simp] theorem trackPendingKey_actor : (w.trackPendingKey key).actor=w.actor:=rfl
@[simp] theorem trackPendingKey_discardHandler :
    (w.trackPendingKey key).discardHandler=w.discardHandler:=rfl
@[simp] theorem trackPendingKey_discardSettings :
    (w.trackPendingKey key).discardSettings=w.discardSettings:=rfl

/-- Untracking a key changes the pending counts and nothing else. -/
theorem untrackPendingKey_eq :
    w.untrackPendingKey key =
      {w with pendingKeyCounts:=(w.untrackPendingKey key).pendingKeyCounts} := by
  unfold untrackPendingKey
  split
  · rfl
  · split <;> rfl

@[simp] theorem untrackPendingKey_messageQueue :
    (w.untrackPendingKey key).messageQueue=w.messageQueue := by rw [untrackPendingKey_eq]
@[simp] theorem untrackPendingKey_currJobs :
    (w.untrackPendingKey key).currJobs=w.currJobs := by rw [untrackPendingKey_eq]
@[simp] theorem untrackPendingKey_actor :
    (w.untrackPendingKey key).actor=w.actor := by rw [untrackPendingKey_eq]
@[simp] theorem untrackPendingKey_discardHandler :
    (w.untrackPendingKey key).discardHandler=w.discardHandler := by rw [untrackPendingKey_eq]
@[simp] theorem untrackPendingKey_discardSettings :
    (w.untrackPendingKey key).discardSettings=w.discardSettings := by rw [untrackPendingKey_eq]
@[simp] theorem untrackPendingKey_isDraining :
    (w.untrackPendingKey key).isDraining=w.isDraining := by rw [untrackPendingKey_eq]
@[simp] theorem untrackPendingKey_wid :
    (w.untrackPendingKey key).wid=w.wid := by rw [untrackPendingKey_eq]

/-- Untracking does not look at the queue, so it commutes with replacing it. -/
theorem untrackPendingKey_setQueue (queue : List (Job Key Msg)) :
    {w with messageQueue:=queue}.untrackPendingKey key =
      {w.untrackPendingKey key with messageQueue:=queue} := by
  unfold untrackPendingKey
  dsimp only
  split
  · rfl
  · split <;> rfl

omit [DecidableEq Key] in
theorem currJobs_eq_empty (h : w.currJobs.entries=[]) : w.currJobs=∅:=AList.ext h

end Fields
end Ractor.Factory.WorkerProperties
