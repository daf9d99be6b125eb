import Mathlib.Data.List.AList

/-!
# Jobs, discard settings and worker records of a factory

The data a factory moves around: `job.rs` and `discard.rs`, and the record
`WorkerProperties` of `worker.rs` with its pure queries. Times are counted in
nanoseconds. Fields that only the statistics layer, the tracing layer or a join
handle reads are left out.
-/

namespace Ractor.Factory

inductive ActorId where
  | ofLocal (pid : ℕ)
  | ofRemote (nodeId pid : ℕ)
  deriving DecidableEq, Repr

abbrev WorkerId:=ℕ
abbrev Instant:=ℕ
abbrev Duration:=ℕ
abbrev SystemTime:=ℕ

abbrev HandlerId:=ℕ

abbrev ReplyPort:=ℕ

structure TtlTimer where
  startedAt : Instant
  remaining : Duration
  alreadyExpired : Bool
  deriving DecidableEq, Repr

/-- `now.saturating_duration_since(started_at) > remaining`, unless the timer was
born expired. -/
def TtlTimer.isExpired (timer : TtlTimer) (now : Instant) : Bool :=
  timer.alreadyExpired || decide (timer.remaining<now - timer.startedAt)

/-- `JobOptions`. The field `tag` is a ghost: it names one particular job, is given
out by `FactoryState.dispatch` and is never read by the factory. It travels with
the options because those are all that `curr_jobs` keeps of a dispatched job. -/
structure JobOptions where
  submitTime : SystemTime
  ttl : Option Duration
  ttlTimer : Option TtlTimer
  tag : ℕ
  deriving DecidableEq, Repr

structure Job (Key Msg : Type) where
  key : Key
  msg : Msg
  options : JobOptions
  accepted : Option ReplyPort
  deriving DecidableEq, Repr

variable {Key Msg : Type}

def Job.isExpired (job : Job Key Msg) (now : Instant) : Bool :=
  match job.options.ttlTimer with
  | none => false
  | some timer => timer.isExpired now

def Job.tag (job : Job Key Msg) : ℕ:=job.options.tag

variable (job : Job Key Msg) (tag : ℕ)

def Job.numbered : Job Key Msg :=
  {job with options:={job.options with tag:=tag}}

@[simp] theorem Job.numbered_tag : (job.numbered tag).tag=tag:=rfl

@[simp] theorem Job.numbered_key : (job.numbered tag).key=job.key:=rfl

inductive DiscardMode where
  | oldest
  | newest
  deriving DecidableEq, Repr

inductive DiscardReason where
  | ttlExpired
  | loadshed
  | shutdown
  | rateLimited
  deriving DecidableEq, Repr

inductive WorkerDiscardSettings where
  | none
  | static (limit : ℕ) (mode : DiscardMode)
  deriving DecidableEq, Repr

def WorkerDiscardSettings.updateWorkerLimit (settings : WorkerDiscardSettings) (newLimit : ℕ) :
    WorkerDiscardSettings :=
  match settings with
  | .none => .none
  | .static _ mode => .static newLimit mode

def WorkerDiscardSettings.getLimitAndMode : WorkerDiscardSettings → Option (ℕ × DiscardMode)
  | .none => Option.none
  | .static limit mode => some (limit,mode)

/-- The `updater` of the dynamic variant answers through `Oracle.limits`. -/
inductive DiscardSettings where
  | none
  | static (limit : ℕ) (mode : DiscardMode)
  | dynamic (limit : ℕ) (mode : DiscardMode)
  deriving DecidableEq, Repr

def DiscardSettings.getWorkerSettings : DiscardSettings → WorkerDiscardSettings
  | .none => .none
  | .static limit mode => .static limit mode
  | .dynamic limit mode => .static limit mode

def DiscardSettings.getLimitAndMode : DiscardSettings → Option (ℕ × DiscardMode)
  | .none => Option.none
  | .static limit mode => some (limit,mode)
  | .dynamic limit mode => some (limit,mode)

structure DeadMansSwitchConfiguration where
  detectionTimeout : Duration
  killWorker : Bool:=true
  deriving DecidableEq, Repr

structure WorkerHeartbeat where
  sentAt : Option Instant:=none
  deriving DecidableEq, Repr

def WorkerHeartbeat.isPending (heartbeat : WorkerHeartbeat) : Bool:=heartbeat.sentAt.isSome

def WorkerHeartbeat.isStuckAt (heartbeat : WorkerHeartbeat) (now : Instant) (timeout : Duration) :
    Bool :=
  match heartbeat.sentAt with
  | some sentAt => decide (timeout<now - sentAt)
  | none => false

/-- `WorkerProperties`: what the factory knows about one worker. `currJobs` and
`pendingKeyCounts` are the source's hash maps. -/
structure WorkerProperties (Key Msg : Type) where
  wid : WorkerId
  actor : ActorId
  messageQueue : List (Job Key Msg)
  discardSettings : WorkerDiscardSettings
  discardHandler : Option HandlerId
  heartbeat : WorkerHeartbeat
  currJobs : AList (fun _ : Key => JobOptions)
  pendingKeyCounts : AList (fun _ : Key => ℕ)
  isDraining : Bool

abbrev Pool (Key Msg : Type):=AList (fun _ : WorkerId => WorkerProperties Key Msg)

namespace WorkerProperties

def new (wid : WorkerId) (actor : ActorId) (discardSettings : WorkerDiscardSettings)
    (discardHandler : Option HandlerId) : WorkerProperties Key Msg where
  wid:=wid
  actor:=actor
  messageQueue:=[]
  discardSettings:=discardSettings
  discardHandler:=discardHandler
  heartbeat:={}
  currJobs:=∅
  pendingKeyCounts:=∅
  isDraining:=false

variable (w : WorkerProperties Key Msg)

def isAvailable : Bool :=
  w.currJobs.entries.isEmpty && w.messageQueue.isEmpty

def isWorking : Bool := !w.isAvailable

def queuedJobCount : ℕ:=w.messageQueue.length

def activeJobCount : ℕ:=w.currJobs.entries.length

def setDraining (isDraining : Bool) : WorkerProperties Key Msg :=
  {w with isDraining:=isDraining}

theorem isAvailable_iff : w.isAvailable=true ↔ w.currJobs.entries=[] ∧ w.messageQueue=[] := by
  simp [isAvailable]

theorem isWorking_iff : w.isWorking=true ↔ w.isAvailable=false := by
  simp [isWorking]

variable [DecidableEq Key] (key : Key)

def isProcessingKey : Bool :=
  (w.currJobs.lookup key).isSome

def hasPendingKey : Bool :=
  (w.pendingKeyCounts.lookup key).isSome

def trackPendingKey : WorkerProperties Key Msg :=
  { w with
    pendingKeyCounts :=
      w.pendingKeyCounts.insert key ((w.pendingKeyCounts.lookup key).getD 0+1) }

def untrackPendingKey : WorkerProperties Key Msg :=
  match w.pendingKeyCounts.lookup key with
  | none => w
  | some count =>
    if count=1 then {w with pendingKeyCounts:=w.pendingKeyCounts.erase key}
    else {w with pendingKeyCounts:=w.pendingKeyCounts.insert key (count - 1)}

end WorkerProperties
end Ractor.Factory
