import Ractor.GroupNotifications
import Ractor.MessageDecoding
import Ractor.NameRegistry
import Ractor.NodeAuthentication

/-!
# The messages of a node session

What a `NodeSession` does with the messages of its peer and with supervision events, once the
handshake is taken from the authentication. The session is known by its state and by what it has
done so far: the messages it has sent, the messages it has handed to actors, and the stand-ins for
remote actors that it has spawned, stopped and moved between process groups.

What a handler cannot compute is a parameter: what the session reads of its node, and how the
operations end that may fail. The ping task and the tracing are left out.
-/

namespace Ractor
open Function

/-! ### Actors -/

def ActorId.pid : ActorId → UInt64
  | .local pid => pid
  | .remote _ pid => pid

/-- An `ActorCell`, by what a session reads of it. Cells of the same id are told apart by their
address. -/
structure ActorHandle where
  id : ActorId
  name : Option String
  supportsRemoting : Bool
  address : ℕ:=0
  deriving DecidableEq, Repr

structure NetActor where
  name : Option String
  pid : UInt64
  deriving DecidableEq, Repr

def ActorHandle.toNetActor (actor : ActorHandle) : NetActor where
  name:=actor.name
  pid:=actor.id.pid

/-! ### The protocol -/

structure Timestamp where
  seconds : ℤ
  nanos : ℤ
  deriving DecidableEq, Repr

inductive ControlMessage (Name : Type) where
  | ready
  | spawn (actors : List NetActor)
  | terminate (ids : List UInt64)
  | ping (timestamp : Option Timestamp)
  | pong (timestamp : Option Timestamp)
  | pgJoin (scope group : String) (actors : List NetActor)
  | pgLeave (scope group : String) (actors : List NetActor)
  | enumerateNodeSessions (whosAsking : PeerIdentity Name)
  | nodeSessions (sessions : List (PeerIdentity Name))
  deriving DecidableEq, Repr

inductive NodeMessage where
  | cast (target : UInt64) (what : List UInt8) (variant : String) (metadata : Option (List UInt8))
  | call (target tag : UInt64) (what : List UInt8) (timeoutMs : Option UInt64) (variant : String)
      (metadata : Option (List UInt8))
  | reply (target tag : UInt64) (what : List UInt8)
  deriving DecidableEq, Repr

/-- The three kinds of a network message, each of which may be empty. -/
inductive PeerMessage (Name Challenge Digest : Type) where
  | auth (msg : Option (AuthenticationMessage Name Challenge Digest))
  | node (msg : Option NodeMessage)
  | control (msg : Option (ControlMessage Name))
  deriving DecidableEq, Repr

def NetworkMessage.toPeerMessage {Name Challenge Digest : Type} :
    NetworkMessage Name Challenge Digest → PeerMessage Name Challenge Digest
  | .auth msg => .auth msg
  | .ready => .control (some .ready)

/-- The reply port of a call from the peer: a task sends what arrives there back as a `Reply`. -/
structure RemoteCaller where
  target : UInt64
  tag : UInt64
  timeoutMs : Option UInt64
  deriving DecidableEq, Repr

inductive ServerNotice where
  | connectionAuthenticated
  | connectionReady
  deriving DecidableEq, Repr

inductive SessionEffect (Name Challenge Digest : Type) where
  | send (message : PeerMessage Name Challenge Digest)
  /-- `send_serialized` to a local actor -/
  | deliver (actor : ActorHandle) (message : SerializedMessage RemoteCaller)
  /-- `send_serialized` of a `CallReply` to a stand-in -/
  | answer (proxy : ActorHandle) (tag : UInt64) (what : List UInt8)
  | spawn (proxy : ActorHandle)
  | stop (proxy : ActorHandle) (reason : String)
  | kill (proxy : ActorHandle)
  | joinScoped (scope group : String) (proxies : List ActorHandle)
  | leaveScoped (scope group : String) (proxies : List ActorHandle)
  | connect (connectionString : Name)
  | tellServer (notice : ServerNotice)
  deriving DecidableEq, Repr

inductive SessionEvent where
  | actorStarted (actor : ActorHandle)
  | actorFailed (actor : ActorHandle)
  | actorTerminated (actor : ActorHandle)
  | processGroupChanged (change : GroupChangeMessage ActorHandle)
  | pidSpawn (who : ActorHandle)
  | pidTerminate (who : ActorHandle)
  deriving DecidableEq, Repr

/-! ### The session -/

structure SessionConfig (Name Challenge Digest : Type) where
  nodeId : UInt64
  thisNode : PeerIdentity Name
  /-- The connection mode is `Transitive`. -/
  transitive : Bool
  /-- The digest of a challenge under the cookie. -/
  digest : Challenge → Digest
  tcp : ActorId

/-- What a session reads of its node: the pid registry, the same as a list, and the local members of
the process groups. -/
structure LocalView where
  whereIsPid : ActorId → Option ActorHandle
  allPids : List ActorHandle
  groups : List (ScopeGroupKey × List ActorHandle)

/-- How the operations of a handler end, and what it is told. -/
structure SessionOutcomes (Name Challenge : Type) where
  /-- The reply to a `CheckSession` call -/
  check : Option SessionCheckReply
  drawn : Challenge
  /-- The time since the session was started, in nanoseconds -/
  elapsed : ℕ
  /-- The reply to a `GetSessions` call, as the peer names that are known -/
  sessions : Option (List (PeerIdentity Name))
  /-- The node server takes messages. -/
  serverAlive : Bool
  /-- A stand-in for the pid can be spawned. -/
  spawns : UInt64 → Bool
  /-- `stop_and_wait` of the stand-in for the pid succeeds. -/
  stops : UInt64 → Bool

structure PongWarnings where
  invalid : Bool:=false
  slow : Bool:=false
  deriving DecidableEq, Repr

/-- The rest of `NodeSessionState`, and what the session has done. A session has `failed` when a
handler has returned an error. -/
structure SessionState (Name Challenge Digest : Type) extends
    NodeSessionState Name Challenge Digest where
  pongWarnings : PongWarnings:={}
  remoteActors : UInt64 → Option ActorHandle:=fun _ => none
  advertisedLocalPids : Finset UInt64:=∅
  /-- The number of the stand-ins that were spawned. -/
  spawned : ℕ:=0
  failed : Bool:=false
  effects : List (SessionEffect Name Challenge Digest):=[]

namespace SessionState
variable {Name Challenge Digest : Type}

def perform (s : SessionState Name Challenge Digest) (effect : SessionEffect Name Challenge Digest) :
    SessionState Name Challenge Digest :=
  {s with effects:=s.effects++[effect]}

def tcpSendControl (s : SessionState Name Challenge Digest) (msg : ControlMessage Name) :
    SessionState Name Challenge Digest :=
  s.perform (.send (.control (some msg)))

/-! ### Messages for actors -/

def authorizedLocalActor (view : LocalView) (s : SessionState Name Challenge Digest) (pid : UInt64) :
    Option ActorHandle × SessionState Name Challenge Digest :=
  if pid∈s.advertisedLocalPids then
    match view.whereIsPid (.local pid) with
    | some actor =>
      if actor.supportsRemoting then (some actor,s)
      else (none,{s with advertisedLocalPids:=s.advertisedLocalPids.erase pid})
    | none => (none,{s with advertisedLocalPids:=s.advertisedLocalPids.erase pid})
  else (none,s)

def handleNode (view : LocalView) (s : SessionState Name Challenge Digest)
    (message : Option NodeMessage) : SessionState Name Challenge Digest :=
  if s.auth.isOk then
    match message with
    | none => s
    | some (.cast target what variant metadata) =>
      match s.authorizedLocalActor view target with
      | (some actor,s) => s.perform (.deliver actor (.cast variant what metadata))
      | (none,s) => s
    | some (.call target tag what timeoutMs variant metadata) =>
      match s.authorizedLocalActor view target with
      | (some actor,s) =>
        s.perform (.deliver actor (.call variant what ⟨target,tag,timeoutMs⟩ metadata))
      | (none,s) => s
    | some (.reply target tag what) =>
      match s.remoteActors target with
      | some proxy => s.perform (.answer proxy tag what)
      | none => s
  else s

/-! ### Stand-ins for remote actors -/

section Handlers
variable (config : SessionConfig Name Challenge Digest) (outcomes : SessionOutcomes Name Challenge)
  (s : SessionState Name Challenge Digest)

def remoteActor (name : Option String) (pid : UInt64) : ActorHandle where
  id:=.remote config.nodeId pid
  name:=name
  supportsRemoting:=false
  address:=s.spawned

def getOrSpawnRemoteActor (actorName : Option String) (actorPid : UInt64) :
    Option ActorHandle × SessionState Name Challenge Digest :=
  match s.remoteActors actorPid with
  | some actor => (some actor,s)
  | none =>
    if outcomes.spawns actorPid then
      let proxy := s.remoteActor config actorName actorPid
      (some proxy,{s with
        remoteActors:=update s.remoteActors actorPid (some proxy)
        spawned:=s.spawned+1}.perform (.spawn proxy))
    else (none,s)

/-- The stand-ins for several actors, without those that could not be spawned. -/
def getOrSpawnAll : List NetActor → SessionState Name Challenge Digest →
    List ActorHandle × SessionState Name Challenge Digest
  | [],s => ([],s)
  | actor::actors,s =>
    match s.getOrSpawnRemoteActor config outcomes actor.name actor.pid with
    | (some proxy,s) =>
      let (cells,s) := getOrSpawnAll actors s
      (proxy::cells,s)
    | (none,s) => getOrSpawnAll actors s

/-- The loop over the pids of a `Terminate`, which ends with the first error. -/
def terminateAll : List UInt64 → SessionState Name Challenge Digest →
    SessionState Name Challenge Digest
  | [],s => s
  | pid::ids,s =>
    match s.remoteActors pid with
    | some actor =>
      let s := {s with remoteActors:=update s.remoteActors pid none}.perform
        (.stop actor "remote")
      if outcomes.stops pid then terminateAll ids s else {s with failed:=true}
    | none => terminateAll ids s

/-! ### Control messages -/

def minProtobufTimestampSeconds : ℤ := -62135596800

def maxProtobufTimestampSeconds : ℤ:=253402300799

def nanosecondsPerSecond : ℤ:=1000000000

/-- A time within the range of a protobuf timestamp is a `SystemTime`. -/
def pongLatency (elapsed : ℕ) (timestamp : Option Timestamp) : Except String ℕ :=
  match timestamp with
  | none => .error "timestamp is missing"
  | some timestamp =>
    if timestamp.seconds < minProtobufTimestampSeconds ∨
        maxProtobufTimestampSeconds<timestamp.seconds ∨ timestamp.nanos<0 ∨
        nanosecondsPerSecond≤timestamp.nanos then
      .error "timestamp is outside the protobuf Timestamp range"
    else
      let sentAt := timestamp.seconds*nanosecondsPerSecond+timestamp.nanos
      if sentAt<0 then .error "timestamp predates the Unix epoch"
      else if (elapsed : ℤ)<sentAt then
        .error "timestamp is ahead of this session's clock"
      else .ok (elapsed - sentAt.toNat)

def handlePong (timestamp : Option Timestamp) : SessionState Name Challenge Digest :=
  match pongLatency outcomes.elapsed timestamp with
  | .ok delta =>
    if 50<delta / 1000000 then {s with pongWarnings.slow:=true} else s
  | .error _ => {s with pongWarnings.invalid:=true}

/-- A `cast` to the node server, whose error the handler returns. -/
def tellServer (s : SessionState Name Challenge Digest) (notice : ServerNotice) :
    SessionState Name Challenge Digest :=
  if outcomes.serverAlive then s.perform (.tellServer notice) else {s with failed:=true}

def handleReadyMessage : SessionState Name Challenge Digest :=
  match s.ready with
  | .open => {s with ready:=.syncReceived}
  | .syncSent => {s with ready:=.ready}.tellServer outcomes .connectionReady
  | .syncReceived | .ready => s

section Sessions
variable [DecidableEq Name]

/-- The peer that asks is not told of itself. -/
def handleEnumerateNodeSessions (whosAsking : PeerIdentity Name) :
    SessionState Name Challenge Digest :=
  match outcomes.sessions with
  | some sessions =>
    s.tcpSendControl (.nodeSessions (sessions.filter fun session =>
      whosAsking.name≠session.name ∧ whosAsking.connectionString≠session.connectionString))
  | none => s

/-- The peer of another session is connected to unless it is known or this node itself. -/
def handleNodeSessions (sessions : List (PeerIdentity Name)) : SessionState Name Challenge Digest :=
  if config.transitive then
    let existing := (outcomes.sessions.getD []).flatMap fun session =>
      [session.name,session.connectionString]
    let unknown := sessions.filter fun session =>
      session.name∉existing ∧ session.connectionString∉existing ∧
        session.name≠config.thisNode.name ∧
        session.connectionString≠config.thisNode.connectionString
    unknown.foldl (fun s session => s.perform (.connect session.connectionString)) s
  else s

def handleControl (message : Option (ControlMessage Name)) : SessionState Name Challenge Digest :=
  if s.auth.isOk then
    match message with
    | none => s
    | some .ready => s.handleReadyMessage outcomes
    | some (.spawn actors) => (getOrSpawnAll config outcomes actors s).2
    | some (.terminate ids) => terminateAll outcomes ids s
    | some (.ping timestamp) => s.tcpSendControl (.pong timestamp)
    | some (.pong timestamp) => s.handlePong outcomes timestamp
    | some (.pgJoin scope group actors) =>
      let (cells,s) := getOrSpawnAll config outcomes actors s
      if cells=[] then s else s.perform (.joinScoped scope group cells)
    | some (.pgLeave scope group actors) =>
      let cells := actors.filterMap fun actor => s.remoteActors actor.pid
      if cells=[] then s else s.perform (.leaveScoped scope group cells)
    | some (.enumerateNodeSessions whosAsking) => s.handleEnumerateNodeSessions outcomes whosAsking
    | some (.nodeSessions sessions) => s.handleNodeSessions config outcomes sessions
  else s

end Sessions

/-! ### Authentication and the first synchronization -/

def handleAuth [DecidableEq Digest] (s : SessionState Name Challenge Digest)
    (msg : Option (AuthenticationMessage Name Challenge Digest)) :
    SessionState Name Challenge Digest :=
  let (σ,sent) := s.toNodeSessionState.handleAuth config.digest config.thisNode msg outcomes.check
    outcomes.drawn
  { s with
    toNodeSessionState:=σ
    effects:=s.effects++sent.map fun message => .send message.toPeerMessage }

def remotable (actors : List ActorHandle) : List NetActor :=
  (actors.filter (·.supportsRemoting)).map ActorHandle.toNetActor

/-- The actors are advertised, and the peer is told to spawn stand-ins for them. -/
def sendSpawn (actors : List NetActor) : SessionState Name Challenge Digest :=
  let s := {s with
    advertisedLocalPids:=s.advertisedLocalPids ∪ (actors.map (·.pid)).toFinset}
  if actors=[] then s else s.tcpSendControl (.spawn actors)

def sendPgJoin (key : ScopeGroupKey) (actors : List NetActor) :
    SessionState Name Challenge Digest :=
  if actors=[] then s else s.tcpSendControl (.pgJoin key.scope key.group actors)

def afterAuthenticated (view : LocalView) (s : SessionState Name Challenge Digest) :
    SessionState Name Challenge Digest :=
  let s := if config.transitive then s.tcpSendControl (.enumerateNodeSessions config.thisNode) else s
  let s := s.sendSpawn (remotable view.allPids)
  let s := view.groups.foldl (fun s group =>
    s.sendPgJoin group.1 (remotable (group.2.filter (·.id.isLocal)))) s
  let s := s.tcpSendControl .ready
  {s with toNodeSessionState:=s.toNodeSessionState.afterAuthenticated}

def authenticated (view : LocalView) (s : SessionState Name Challenge Digest) :
    SessionState Name Challenge Digest :=
  let s := s.tellServer outcomes .connectionAuthenticated
  if s.failed then s
  else if s.name.isSome && outcomes.check.any (·.continues) then
    let s := s.afterAuthenticated config view
    if s.ready=.ready then s.tellServer outcomes .connectionReady else s
  else {s with stopped:=true}

def handle [DecidableEq Name] [DecidableEq Digest] (view : LocalView)
    (s : SessionState Name Challenge Digest) (message : Option (PeerMessage Name Challenge Digest)) :
    SessionState Name Challenge Digest :=
  if s.isSelfConnection config.thisNode then {s with stopped:=true}
  else
    match message with
    | none => s
    | some (.auth msg) =>
      let s' := s.handleAuth config outcomes msg
      if !s.auth.isOk && s'.auth.isOk then s'.authenticated config outcomes view else s'
    | some (.node msg) => s.handleNode view msg
    | some (.control msg) => s.handleControl config outcomes msg

def handleSendMessage [DecidableEq Name] (s : SessionState Name Challenge Digest)
    (message : NodeMessage) : SessionState Name Challenge Digest :=
  if s.isSelfConnection config.thisNode then {s with stopped:=true}
  else s.perform (.send (.node (some message)))

/-! ### Supervision events -/

/-- A stand-in that has failed is spawned again. -/
def handleActorFailed (actor : ActorHandle) : SessionState Name Challenge Digest :=
  if actor.id=config.tcp then {s with stopped:=true}
  else
    match s.remoteActors actor.id.pid with
    | some proxy =>
      let s := {s with
        remoteActors:=update s.remoteActors actor.id.pid none}.perform (.kill proxy)
      match s.getOrSpawnRemoteActor config outcomes proxy.name proxy.id.pid with
      | (some _,s) => s
      | (none,s) => {s with failed:=true}
    | none => s

def handleActorTerminated (actor : ActorHandle) : SessionState Name Challenge Digest :=
  if actor.id=config.tcp then {s with stopped:=true}
  else
    match s.remoteActors actor.id.pid with
    | some proxy =>
      let s := {s with
        remoteActors:=update s.remoteActors actor.id.pid none}.perform
          (.stop proxy "remote_exit")
      if outcomes.stops actor.id.pid then s else {s with failed:=true}
    | none => s

def groupMessage : GroupChangeMessage ActorHandle → Option (ControlMessage Name)
  | .join scope group actors =>
    if remotable actors=[] then none else some (.pgJoin scope group (remotable actors))
  | .leave scope group actors =>
    if remotable actors=[] then none else some (.pgLeave scope group (remotable actors))

def handleSupervisorEvt : SessionEvent → SessionState Name Challenge Digest
  | .actorStarted _ => s
  | .actorFailed actor => s.handleActorFailed config outcomes actor
  | .actorTerminated actor => s.handleActorTerminated config outcomes actor
  | .processGroupChanged change =>
    match groupMessage change with
    | some msg => s.tcpSendControl msg
    | none => s
  | .pidSpawn who =>
    if who.supportsRemoting then
      {s with advertisedLocalPids:=insert who.id.pid s.advertisedLocalPids}.tcpSendControl
        (.spawn [who.toNetActor])
    else s
  | .pidTerminate who =>
    if who.supportsRemoting then
      {s with advertisedLocalPids:=s.advertisedLocalPids.erase who.id.pid}.tcpSendControl
        (.terminate [who.id.pid])
    else s

end Handlers
end SessionState
end Ractor
