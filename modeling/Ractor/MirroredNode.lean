import Ractor.PeerMirrors
import Ractor.ReachableRuns

/-!
# A node and its mirror

The actors of a node are spawned, join and leave process groups and shut down, in any order, while a
session tells the peer of them. Every operation on the pid registry and on the process groups is one
step together with its notifications. A shutdown is the sequence of its steps, and so is the
`after_authenticated` of the session, which handles no event before it is done. The link is FIFO.

The stand-ins of the peer can all be spawned, and are stopped by their session only.
-/

namespace Ractor
open Function

inductive ActorStage where
  | unborn | alive | published | unregistered | demonitored | left
  deriving DecidableEq, Repr

/-- The process groups tell an actor that is stopping from the others only. -/
def ActorStage.status : ActorStage → ActorStatus
  | unborn => .unstarted
  | alive => .running
  | published | unregistered | demonitored | left => .stopping

/-- How far a session is with its `after_authenticated`, with what it has read and not sent. -/
inductive SyncStage where
  | authenticated
  | enumerated
  | pidsMonitored
  | pidsRead (actors : List ActorHandle)
  | spawnSent
  | scopesMonitored
  | groupsMonitored
  | reading (keys : List ScopeGroupKey)
  | joining (key : ScopeGroupKey) (members : List ActorHandle) (keys : List ScopeGroupKey)
  | done
  deriving DecidableEq, Repr

/-- What is fixed of the node and its peer. -/
structure MirrorSetting (Name Challenge Digest : Type) where
  /-- The pid of the session. -/
  self : UInt64
  name : UInt64 → Option String
  supportsRemoting : UInt64 → Bool
  config : SessionConfig Name Challenge Digest
  peerConfig : SessionConfig Name Challenge Digest
  peerTcp : peerConfig.tcp.isLocal=true

/-- A node with a session, the link, and the session at the peer with its node. -/
structure MirroredNode (Name Challenge Digest : Type) where
  pg : PgState ActorId:={}
  stage : UInt64 → ActorStage:=fun _ => .unborn
  registered : Finset UInt64:=∅
  monitorsPids : Bool:=false
  sync : SyncStage:=.authenticated
  session : SessionState Name Challenge Digest
  events : List SessionEvent:=[]
  link : List (ControlMessage Name):=[]
  peer : PeerMirror Name Challenge Digest

/-- The steps, with what cannot be computed: the orders in which sets are iterated over, and the
outcomes of handlers. -/
inductive MirrorStep (Name Challenge : Type) where
  | spawn (pid : UInt64)
  | publish (pid : UInt64)
  | unregister (pid : UInt64)
  | demonitorAll (pid : UInt64) (order : Finset ScopeGroupKey → List ScopeGroupKey)
  | leaveAll (pid : UInt64) (order : Finset ScopeGroupKey → List ScopeGroupKey)
  | join (scope group : String) (actors : List ActorId)
  | leave (scope group : String) (actors : List ActorId)
  | monitor (table : ListenerTable) (key : ScopeGroupKey) (pid : UInt64)
  | enumerateSessions
  | monitorPids
  | readPids (pids : List UInt64)
  | sendSpawn
  | monitorScopes
  | monitorGroups
  | readKeys (keys : List ScopeGroupKey)
  | readMembers (members : List ActorId)
  | sendJoin
  | sendReady
  | handleEvent (outcomes : SessionOutcomes Name Challenge)
  | deliver (view : LocalView) (outcomes : SessionOutcomes Name Challenge) (order : KeyOrder)
  | handlePeerEvent (outcomes : SessionOutcomes Name Challenge) (order : KeyOrder)

variable {Name Challenge Digest : Type}

/-- The cell of an actor. A stand-in for an actor of another node does not support remoting. -/
def MirrorSetting.cell (setting : MirrorSetting Name Challenge Digest) : ActorId → ActorHandle
  | .local pid =>
    {id:=.local pid,name:=setting.name pid,supportsRemoting:=setting.supportsRemoting pid}
  | .remote nodeId pid => {id:=.remote nodeId pid,name:=none,supportsRemoting:=false}

/-- The stand-ins can be spawned and stopped. -/
def SessionOutcomes.succeeding (outcomes : SessionOutcomes Name Challenge) :
    SessionOutcomes Name Challenge :=
  {outcomes with spawns:=fun _ => true,stops:=fun _ => true}

def SessionEffect.controls (effects : List (SessionEffect Name Challenge Digest)) :
    List (ControlMessage Name) :=
  effects.filterMap fun
    | .send (.control message) => message
    | _ => none

namespace SessionState

def enumerateSessions (config : SessionConfig Name Challenge Digest)
    (s : SessionState Name Challenge Digest) : SessionState Name Challenge Digest :=
  if config.transitive then s.tcpSendControl (.enumerateNodeSessions config.thisNode) else s

def sendReady (s : SessionState Name Challenge Digest) : SessionState Name Challenge Digest :=
  {s.tcpSendControl .ready with toNodeSessionState:=s.toNodeSessionState.afterAuthenticated}

end SessionState

namespace MirroredNode
variable (setting : MirrorSetting Name Challenge Digest) (s : MirroredNode Name Challenge Digest)

def status : ActorId → ActorStatus
  | .local pid => (s.stage pid).status
  | .remote _ _ => .running

def Exists : ActorId → Prop
  | .local pid => s.stage pid≠.unborn
  | .remote _ _ => True

instance : DecidablePred s.Exists
  | .local pid => inferInstanceAs (Decidable (s.stage pid≠.unborn))
  | .remote _ _ => inferInstanceAs (Decidable True)

def notifyPids (event : SessionEvent) : MirroredNode Name Challenge Digest :=
  {s with events:=s.events++if s.monitorsPids then [event] else []}

/-- An operation on the process groups, with the notifications of its changes. -/
def changeGroups (pg : PgState ActorId) (changes : List (GroupChangeMessage ActorId)) :
    MirroredNode Name Challenge Digest :=
  { s with
    pg:=pg
    events:=s.events++(changes.flatMap (s.pg.noticesOf (.local setting.self))).map fun change =>
      .processGroupChanged (change.map setting.cell) }

def proceed (session : SessionState Name Challenge Digest) : MirroredNode Name Challenge Digest :=
  { s with
    session:=session
    link:=s.link++SessionEffect.controls (session.effects.drop s.session.effects.length) }

variable [DecidableEq Name] [DecidableEq Digest]

def step (s : MirroredNode Name Challenge Digest) :
    MirrorStep Name Challenge → Option (MirroredNode Name Challenge Digest)
  | .spawn pid =>
    if s.stage pid=.unborn then
      some ({s with
        stage:=update s.stage pid .alive
        registered:=insert pid s.registered}.notifyPids (.pidSpawn (setting.cell (.local pid))))
    else none
  | .publish pid =>
    if s.stage pid=.alive ∧ pid≠setting.self then
      some {s with stage:=update s.stage pid .published}
    else none
  | .unregister pid =>
    if s.stage pid=.published then
      some ({s with
        stage:=update s.stage pid .unregistered
        registered:=s.registered.erase pid}.notifyPids
          (.pidTerminate (setting.cell (.local pid))))
    else none
  | .demonitorAll pid order =>
    let relations := s.pg.relationsOf (.local pid)
    if s.stage pid=.unregistered ∧ PgState.Enumerates order relations.groupMonitors ∧
        PgState.Enumerates order relations.worldMonitors then
      some {s with
        stage:=update s.stage pid .demonitored
        pg:=s.pg.demonitorAll (.local pid) order}
    else none
  | .leaveAll pid order =>
    let relations := s.pg.relationsOf (.local pid)
    if s.stage pid=.demonitored ∧ PgState.Enumerates order relations.memberships then
      some ({s with stage:=update s.stage pid .left}.changeGroups setting
        (s.pg.leaveAll (.local pid) order) (s.pg.leaveAllChanges (.local pid) order))
    else none
  | .join scope group actors =>
    if ∀actor∈actors,s.Exists actor then
      some (s.changeGroups setting (s.pg.joinScoped s.status scope group actors)
        (s.pg.joinScopedChange s.status scope group actors).toList)
    else none
  | .leave scope group actors =>
    if ∀actor∈actors,s.Exists actor then
      some (s.changeGroups setting (s.pg.leaveScoped scope group actors)
        (s.pg.leaveScopedChange scope group actors).toList)
    else none
  | .monitor table key pid =>
    if s.stage pid=.alive ∧ pid≠setting.self then
      some {s with pg:=s.pg.monitorIn s.status table key (.local pid)}
    else none
  | .enumerateSessions =>
    if s.sync=.authenticated then
      some {s.proceed (s.session.enumerateSessions setting.config) with sync:=.enumerated}
    else none
  | .monitorPids =>
    if s.sync=.enumerated then some {s with monitorsPids:=true,sync:=.pidsMonitored}
    else none
  | .readPids pids =>
    if s.sync=.pidsMonitored ∧ pids.Nodup ∧ pids.toFinset=s.registered then
      some {s with sync:=.pidsRead (pids.map fun pid => setting.cell (.local pid))}
    else none
  | .sendSpawn =>
    match s.sync with
    | .pidsRead actors =>
      some {s.proceed (s.session.sendSpawn (SessionState.remotable actors)) with sync:=.spawnSent}
    | _ => none
  | .monitorScopes =>
    if s.sync=.spawnSent then
      some {s with
        pg:=s.pg.monitorScope s.status allScopesNotification (.local setting.self)
        sync:=.scopesMonitored}
    else none
  | .monitorGroups =>
    if s.sync=.scopesMonitored then
      some {s with
        pg:=s.pg.monitor s.status allGroupsNotification (.local setting.self)
        sync:=.groupsMonitored}
    else none
  | .readKeys keys =>
    if s.sync=.groupsMonitored ∧ keys.Nodup ∧ keys.toFinset=s.pg.whichScopesAndGroups then
      some {s with sync:=.reading keys}
    else none
  | .readMembers members =>
    match s.sync with
    | .reading (key::keys) =>
      if members.Nodup ∧ members.toFinset=s.pg.members key then
        some {s with
          sync:=.joining key ((members.map setting.cell).filter (·.id.isLocal)) keys}
      else none
    | _ => none
  | .sendJoin =>
    match s.sync with
    | .joining key members keys =>
      some {s.proceed (s.session.sendPgJoin key (SessionState.remotable members)) with
        sync:=.reading keys}
    | _ => none
  | .sendReady =>
    if s.sync=.reading [] then some {s.proceed s.session.sendReady with sync:=.done} else none
  | .handleEvent outcomes =>
    match s.sync,s.events with
    | .done,event::events =>
      some {s.proceed (s.session.handleSupervisorEvt setting.config outcomes event) with
        events:=events}
    | _,_ => none
  | .deliver view outcomes order =>
    match s.link with
    | message::link =>
      some {s with
        link:=link
        peer:=s.peer.follow order (s.peer.session.handle setting.peerConfig outcomes.succeeding view
          (some (.control (some message))))}
    | [] => none
  | .handlePeerEvent outcomes order =>
    match s.peer.around.events with
    | event::events =>
      let peer := {s.peer with around.events:=events}
      some {s with
        peer:=peer.follow order (peer.session.handleSupervisorEvt setting.peerConfig
          outcomes.succeeding event)}
    | [] => none

def Steps (s : MirroredNode Name Challenge Digest) (label : MirrorStep Name Challenge)
    (s' : MirroredNode Name Challenge Digest) : Prop:=s.step setting label=some s'

def initial (session : SessionState Name Challenge Digest) (peer : PeerMirror Name Challenge Digest) :
    MirroredNode Name Challenge Digest where
  stage:=update (fun _ => .unborn) setting.self .alive
  registered:={setting.self}
  session:=session
  peer:=peer

/-- The peer is authenticated, and has no stand-ins yet. -/
structure Starts (s : MirroredNode Name Challenge Digest) : Prop where
  node : s=initial setting s.session s.peer
  auth : s.peer.session.auth.isOk=true
  other : s.peer.session.isSelfConnection setting.peerConfig.thisNode=false
  remoteActors : ∀pid,s.peer.session.remoteActors pid=none
  events : s.peer.around.events=[]
  absent : ∀pid key,.remote setting.peerConfig.nodeId pid∉s.peer.around.groups.pg.members key
  sound : s.peer.around.groups.Sound

end MirroredNode
end Ractor
