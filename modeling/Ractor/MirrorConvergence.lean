import Ractor.MirroredNode
import Ractor.SubjectReports

/-!
# The mirror converges

Every actor of the node is the subject of reports, and every step of the node, of the link and of
the peer is a step of the reports on it. So when all events are handled and all messages are
delivered, the peer has a stand-in for exactly the actors that are registered and support remoting,
each of them in the groups of its actor.

This needs that no group is read with a member that the session will not be told the end of: an actor
that was unregistered before the session began to monitor the pids, and has not left its groups when
they are read, stays at the peer.
-/

namespace Ractor
open SessionEvent
open ControlMessage List Option SessionState PgState Function Replica.Step PeerMirror ViewNote
  Finset Replica

variable {Name Challenge Digest : Type}

/-! ### What the messages say of an actor -/

/-- What messages say of the actor with a pid. -/
def ControlMessage.notesOf (pid : UInt64) (messages : List (ControlMessage Name)) :
    List (ViewNote ScopeGroupKey):=messages.flatMap (·.notes pid)

theorem ControlMessage.notesOf_unless_nil {pid : UInt64} {actors : List NetActor}
    {message : ControlMessage Name} {note : ViewNote ScopeGroupKey}
    (h : message.notes pid=if pid∈actors.map (·.pid) then [note] else []) :
    notesOf pid (if actors=[] then none else some message).toList =
      if pid∈actors.map (·.pid) then [note] else [] := by
  by_cases hnil : actors=[] <;> simp [hnil,notesOf,h]

namespace SessionEvent

def IsReport : SessionEvent → Prop
  | .processGroupChanged _ | .pidSpawn _ | .pidTerminate _ => True
  | .actorStarted _ | .actorFailed _ | .actorTerminated _ => False

def message (Name : Type) : SessionEvent → Option (ControlMessage Name)
  | .processGroupChanged change => groupMessage change
  | .pidSpawn who => if who.supportsRemoting then some (.spawn [who.toNetActor]) else none
  | .pidTerminate who => if who.supportsRemoting then some (.terminate [who.id.pid]) else none
  | .actorStarted _ | .actorFailed _ | .actorTerminated _ => none

/-- What events are going to say of the actor with a pid. -/
def notesOf (Name : Type) (pid : UInt64) (events : List SessionEvent) :
    List (ViewNote ScopeGroupKey) :=
  ControlMessage.notesOf pid (events.filterMap (message Name))

theorem notesOf_append (pid : UInt64) (events events' : List SessionEvent) :
    notesOf Name pid (events++events')=notesOf Name pid events++notesOf Name pid events' := by
  simp [notesOf,ControlMessage.notesOf]

theorem notesOf_singleton (pid : UInt64) (event : SessionEvent) :
    notesOf Name pid [event]=ControlMessage.notesOf pid (event.message Name).toList := by
  unfold notesOf
  cases hm : event.message Name <;> simp [hm]

end SessionEvent

variable {event : SessionEvent} {key : ScopeGroupKey} {pid : UInt64}
  {session : SessionState Name Challenge Digest} {link : List (ControlMessage Name)}
  {keys : List ScopeGroupKey}

namespace SessionState

def Sends (s s' : SessionState Name Challenge Digest) (message : Option (ControlMessage Name)) : Prop :=
  ∃new,s'.effects=s.effects++new ∧ SessionEffect.controls new=message.toList

variable {s s' : SessionState Name Challenge Digest}

theorem Sends.nothing (h : s'.effects=s.effects) : s.Sends s' none:=⟨[],by simp [h],rfl⟩

theorem Sends.control (h : s'.effects=s.effects) (message : ControlMessage Name) :
    s.Sends (s'.tcpSendControl message) (some message) :=
  ⟨[.send (.control (some message))],by simp [tcpSendControl,perform,h],rfl⟩

theorem sends_handleSupervisorEvt (s : SessionState Name Challenge Digest)
    (config : SessionConfig Name Challenge Digest) (outcomes : SessionOutcomes Name Challenge)
    (h : event.IsReport) :
    s.Sends (s.handleSupervisorEvt config outcomes event) (event.message Name) := by
  cases event with
  | actorStarted actor | actorFailed actor | actorTerminated actor => exact h.elim
  | processGroupChanged change =>
    simp only [handleSupervisorEvt,message]
    cases (groupMessage change : Option (ControlMessage Name)) with
    | none => exact .nothing rfl
    | some message => exact .control rfl message
  | pidSpawn who | pidTerminate who =>
    simp only [handleSupervisorEvt,message]
    cases who.supportsRemoting with
    | false => exact .nothing rfl
    | true => exact .control rfl _

theorem sends_sendSpawn (s : SessionState Name Challenge Digest) (actors : List NetActor) :
    s.Sends (s.sendSpawn actors) (if actors=[] then none else some (.spawn actors)) := by
  cases actors with
  | nil => exact .nothing rfl
  | cons actor actors => exact .control rfl _

theorem sends_sendPgJoin (s : SessionState Name Challenge Digest) (key : ScopeGroupKey)
    (actors : List NetActor) : s.Sends (s.sendPgJoin key actors)
      (if actors=[] then none else some (.pgJoin key.scope key.group actors)) := by
  cases actors with
  | nil => exact .nothing rfl
  | cons actor actors => exact .control rfl _

end SessionState

namespace MirrorSetting
variable (setting : MirrorSetting Name Challenge Digest)

/-- Only actors of the node are reported. -/
theorem mem_remotable (ids : List ActorId) (pid : UInt64) :
    pid∈(SessionState.remotable (ids.map setting.cell)).map (·.pid) ↔
      .local pid∈ids ∧ setting.supportsRemoting pid=true := by
  constructor
  · intro hm
    simp only [SessionState.remotable,List.map_map,List.mem_map,List.mem_filter] at hm
    obtain ⟨actor,⟨⟨id,hid,rfl⟩,hr⟩,rfl⟩:=hm
    cases id with
    | «local» pid => exact ⟨hid,hr⟩
    | remote nodeId pid => cases hr
  · rintro ⟨hm,hr⟩
    simp only [SessionState.remotable,List.map_map,List.mem_map,List.mem_filter]
    exact ⟨setting.cell (.local pid),⟨⟨.local pid,hm,rfl⟩,hr⟩,rfl⟩

/-- A group change says the same of an actor as its message to the peer. -/
theorem notesOf_groupMessage (pid : UInt64) (change : GroupChangeMessage ActorId) :
    ControlMessage.notesOf pid
        (groupMessage (change.map setting.cell) : Option (ControlMessage Name)).toList =
      if setting.supportsRemoting pid then (change.note (.local pid)).toList else [] := by
  have hmem (actors : List ActorId) (note : ViewNote ScopeGroupKey) :
      (if pid∈(SessionState.remotable (actors.map setting.cell)).map (·.pid) then [note] else []) =
        if setting.supportsRemoting pid then
          (if .local pid∈actors then some note else none).toList else [] := by
    simp only [setting.mem_remotable]
    by_cases ha : .local pid∈actors <;>
      by_cases hr : setting.supportsRemoting pid=true <;> simp [ha,hr]
  cases change with
  | join scope group actors | leave scope group actors =>
    exact (notesOf_unless_nil rfl).trans (hmem actors _)

/-- What the notifications of changes are going to say of an actor. -/
theorem notesOf_changes (pid : UInt64) (changes : List (GroupChangeMessage ActorId)) :
    SessionEvent.notesOf Name pid
        (changes.map fun change => .processGroupChanged (change.map setting.cell)) =
      if setting.supportsRemoting pid then changes.filterMap (·.note (.local pid)) else [] := by
  induction changes with
  | nil => simp [SessionEvent.notesOf,ControlMessage.notesOf]
  | cons change changes ih =>
    rw [List.map_cons,← List.singleton_append,notesOf_append,ih,
      SessionEvent.notesOf_singleton,message,notesOf_groupMessage]
    by_cases hr : setting.supportsRemoting pid=true
    · cases hn : change.note (.local pid) <;> simp [hr,hn]
    · simp [hr]

/-- A message on one actor is sent only if the actor supports remoting. -/
theorem notesOf_pid {m : ControlMessage Name} {note : ViewNote ScopeGroupKey} {pid who : UInt64}
    (h : m.notes pid=if pid=who then [note] else []) :
    ControlMessage.notesOf pid (if setting.supportsRemoting who then some m else none).toList =
      if pid=who ∧ setting.supportsRemoting pid=true then [note] else [] := by
  by_cases heq : pid=who
  · subst heq
    cases hr : setting.supportsRemoting pid <;> simp [ControlMessage.notesOf,h]
  · cases hr : setting.supportsRemoting who <;> simp [ControlMessage.notesOf,h,heq]

theorem notesOf_pidSpawn (pid who : UInt64) :
    SessionEvent.notesOf Name pid [.pidSpawn (setting.cell (.local who))] =
      if pid=who ∧ setting.supportsRemoting pid=true then [.create] else [] := by
  rw [SessionEvent.notesOf_singleton]
  refine setting.notesOf_pid (m:=.spawn [(setting.cell (.local who)).toNetActor]) ?_
  simp [ControlMessage.notes,cell,ActorHandle.toNetActor,ActorId.pid]

theorem notesOf_pidTerminate (pid who : UInt64) :
    SessionEvent.notesOf Name pid [.pidTerminate (setting.cell (.local who))] =
      if pid=who ∧ setting.supportsRemoting pid=true then [.remove] else [] := by
  rw [SessionEvent.notesOf_singleton]
  refine setting.notesOf_pid (m:=.terminate [who]) ?_
  simp [ControlMessage.notes]

end MirrorSetting

/-! ### Notices -/

theorem ViewNote.lastWord_replicate {Change : Type}
    (note : Change→Option (ViewNote ScopeGroupKey)) (change : Change) (count : ℕ) :
    lastWord key ((replicate (count+1) change).filterMap note) =
      lastWord key ([change].filterMap note) := by
  induction count with
  | zero => rfl
  | succ count ih =>
    rw [replicate_succ,← List.singleton_append,filterMap_append,lastWord_append,ih]
    exact or_self

namespace PgState
variable {pg : PgState ActorId} {listener : ActorId}

theorem noticesOf_eq (pg : PgState ActorId) (listener : ActorId)
    (change : GroupChangeMessage ActorId) :
    ∃count,pg.noticesOf listener change=replicate count change ∧
      (listener∈pg.listeners .world ⟨allScopesNotification,allGroupsNotification⟩→0<count) ∧
      ((∀table key,listener∉pg.listeners table key)→count=0) := by
  refine ⟨_,map_const' ..,fun hm => ?_,fun hnot => ?_⟩
  · refine length_pos_of_mem (a:=listener) (List.mem_filter.mpr ⟨?_,by simp⟩)
    refine mem_append_right _ (mem_flatMap.mpr ⟨_,?_,hm⟩)
    simp [worldKeys]
  · rw [length_eq_zero_iff,filter_eq_nil_iff]
    intro actor hm heq
    obtain rfl : actor=listener:=of_decide_eq_true heq
    rcases mem_append.mp hm with hm | hm
    · exact hnot _ _ hm
    · obtain ⟨key,-,hm⟩:=mem_flatMap.mp hm
      exact hnot _ _ hm

theorem lastWord_noticesOf (hl : listener∈pg.listeners .world
      ⟨allScopesNotification,allGroupsNotification⟩)
    (note : GroupChangeMessage ActorId→Option (ViewNote ScopeGroupKey)) (key : ScopeGroupKey)
    (changes : List (GroupChangeMessage ActorId)) :
    lastWord key ((changes.flatMap (pg.noticesOf listener)).filterMap note) =
      lastWord key (changes.filterMap note) := by
  induction changes with
  | nil => rfl
  | cons change changes ih =>
    obtain ⟨count,heq,hpos,-⟩:=pg.noticesOf_eq listener change
    obtain ⟨count,rfl⟩:=Nat.exists_eq_succ_of_ne_zero (hpos hl).ne'
    rw [flatMap_cons,heq,filterMap_append,lastWord_append,ih,
      lastWord_replicate,← lastWord_append,← filterMap_append]
    rfl

end PgState

/-! ### The reports on an actor -/

def ActorStage.life : ActorStage → SubjectLife
  | unborn => .unborn
  | alive => .opened
  | published => .closing
  | unregistered | demonitored | left => .withdrawn

def SyncStage.phase (pid : UInt64) : SyncStage → ReportPhase ScopeGroupKey
  | authenticated | enumerated => .start
  | pidsMonitored => .hearing
  | pidsRead actors => .counted (decide (pid∈(SessionState.remotable actors).map (·.pid)))
  | spawnSent => .announced
  | scopesMonitored | groupsMonitored => .listening
  | reading keys => .reading keys
  | joining key members keys =>
    .carrying key (decide (pid∈(SessionState.remotable members).map (·.pid))) keys
  | done => .done

namespace MirroredNode
variable (setting : MirrorSetting Name Challenge Digest)

/-- The reports on an actor. One that does not support remoting never appears in them. -/
def replica (s : MirroredNode Name Challenge Digest) (pid : UInt64) : Replica ScopeGroupKey where
  life:=if setting.supportsRemoting pid then (s.stage pid).life else .unborn
  marks:={key | setting.supportsRemoting pid=true ∧ .local pid∈s.pg.members key}
  phase:=s.sync.phase pid
  events:=SessionEvent.notesOf Name pid s.events
  link:=ControlMessage.notesOf pid s.link
  view:=s.peer.view pid
  dropped:=∃proxy,.actorTerminated proxy∈s.peer.around.events ∧
    proxy.id=.remote setting.peerConfig.nodeId pid

/-- The registry has the actors that have not been unregistered, and the session listens from when
it has said so. -/
structure NodeFormed (s : MirroredNode Name Challenge Digest) : Prop where
  registered : ∀pid,pid∈s.registered ↔ (s.stage pid).life.Present
  self : s.stage setting.self=.alive
  hears : ∀pid,(s.sync.phase pid).Hears ↔ s.monitorsPids=true
  listens : ∀pid,(s.sync.phase pid).Listens →
    .local setting.self∈s.pg.listeners .world ⟨allScopesNotification,allGroupsNotification⟩
  deaf : ∀pid,¬ (s.sync.phase pid).Listens →
    ∀table key,.local setting.self∉s.pg.listeners table key
  reports : ∀event∈s.events,event.IsReport

variable [DecidableEq Name]

/-- The peer is authenticated, and the events that it has are of stand-ins that were stopped. -/
structure PeerFormed (peer : PeerMirror Name Challenge Digest) : Prop where
  consistent : peer.Consistent setting.peerConfig.nodeId
  auth : peer.session.auth.isOk=true
  other : peer.session.isSelfConnection setting.peerConfig.thisNode=false
  stopped : ∀event∈peer.around.events,∃pid proxy,event=.actorTerminated proxy ∧
    proxy.id=.remote setting.peerConfig.nodeId pid

structure WellFormed (s : MirroredNode Name Challenge Digest) : Prop extends
  NodeFormed setting s,PeerFormed setting s.peer

structure Simulates (s s' : MirroredNode Name Challenge Digest) : Prop where
  formed : s'.WellFormed setting
  steps : ∀pid,(s.replica setting pid).Step (s'.replica setting pid)

variable {setting} {s s' : MirroredNode Name Challenge Digest}

theorem step_of_eq {r : Replica ScopeGroupKey} : r.Step r := .deliver (nil_append _).symm .inl

/-! ### Actors, groups and the session -/

section

omit [DecidableEq Name]

theorem heard_replica (hs : s.NodeFormed setting) (pid : UInt64) (note : ViewNote ScopeGroupKey) :
    (s.replica setting pid).heard note=if s.monitorsPids then [note] else [] := by
  have hears : (s.replica setting pid).phase.Hears ↔ s.monitorsPids=true:=hs.hears pid
  unfold heard
  by_cases hm : s.monitorsPids=true
  · rw [if_pos (hears.mpr hm),if_pos hm]
  · rw [if_neg (mt hears.mp hm),if_neg hm]

/-- The stage of an actor is seen in the reports on that actor only, and only if it supports
remoting. -/
theorem life_update (s : MirroredNode Name Challenge Digest) {other : UInt64} (stage : ActorStage)
    (h : ¬(other=pid ∧ setting.supportsRemoting other=true)) :
    (if setting.supportsRemoting other then (update s.stage pid stage other).life
      else .unborn)=(s.replica setting other).life := by
  cases hr : setting.supportsRemoting other with
  | false => simp [replica,hr]
  | true =>
    have hne : other≠pid:=fun heq => h ⟨heq,hr⟩
    simp [replica,hr,update_of_ne hne]

theorem NodeFormed.ne_self (hs : s.NodeFormed setting) (h : s.stage pid≠.alive) :
    setting.self≠pid := by
  rintro rfl
  exact h hs.self

theorem NodeFormed.stage (hs : s.NodeFormed setting) (stage : ActorStage)
    (hse : setting.self≠pid) (hp : stage.life.Present ↔ (s.stage pid).life.Present) :
    NodeFormed setting {s with stage:=update s.stage pid stage} := by
  refine {hs with registered:=fun other => ?_,self:=?_}
  · rw [hs.registered]
    by_cases heq : other=pid
    · subst heq
      simp [hp]
    · simp [heq]
  · exact (update_of_ne hse ..).trans hs.self

theorem replica_stage {stage : ActorStage} (hl : stage.life=(s.stage pid).life)
    (other : UInt64) : replica setting {s with stage:=update s.stage pid stage} other =
      s.replica setting other := by
  by_cases heq : other=pid
  · subst heq
    simp [replica,hl]
  · simp [replica,heq]

theorem NodeFormed.groups (hs : s.NodeFormed setting) (pg : PgState ActorId)
    (hli : ∀table key,.local setting.self∈pg.listeners table key ↔
      .local setting.self∈s.pg.listeners table key) :
    NodeFormed setting {s with pg:=pg} :=
  { hs with
    listens:=fun pid hl => (hli _ _).mpr (hs.listens pid hl)
    deaf:=fun pid hl table key hm => hs.deaf pid hl table key ((hli table key).mp hm) }

theorem replica_groups {pg : PgState ActorId} (hm : pg.members=s.pg.members) (pid : UInt64) :
    replica setting {s with pg:=pg} pid=s.replica setting pid := by
  simp [replica,hm]

theorem queues_notices (hs : s.NodeFormed setting) (pid : UInt64)
    (changes : List (GroupChangeMessage ActorId)) :
    (s.replica setting pid).Queues
      (if setting.supportsRemoting pid then changes.filterMap (·.note (.local pid)) else [])
      (if setting.supportsRemoting pid then
        (changes.flatMap (s.pg.noticesOf (.local setting.self))).filterMap (·.note (.local pid))
      else []) := by
  cases setting.supportsRemoting pid with
  | false => exact ⟨nofun,fun _ _ => rfl,fun _ => rfl⟩
  | true =>
    refine ⟨fun note hm => ?_,fun hl key => ?_,fun hd => ?_⟩
    · obtain ⟨change,hc,hno⟩:=mem_filterMap.mp hm
      obtain ⟨change',hc',hn⟩:=mem_flatMap.mp hc
      obtain ⟨-,-,heq⟩:=List.mem_map.mp hn
      exact mem_filterMap.mpr ⟨change',hc',heq ▸ hno⟩
    · exact lastWord_noticesOf (hs.listens pid hl) _ key changes
    · have hnone : changes.flatMap (s.pg.noticesOf (.local setting.self))=[] := by
        refine flatMap_eq_nil_iff.mpr fun change _ => ?_
        obtain ⟨count,heq,-,hz⟩:=s.pg.noticesOf_eq (.local setting.self) change
        rw [heq,hz (hs.deaf pid hd)]
        rfl
      simp [hnone]

theorem notesOf_link {message : Option (ControlMessage Name)}
    (h : s.session.Sends session message) (pid : UInt64) :
    ControlMessage.notesOf pid (s.proceed session).link =
      ControlMessage.notesOf pid s.link++ControlMessage.notesOf pid message.toList := by
  obtain ⟨new,he,hc⟩:=h
  rw [proceed,he,drop_left,hc]
  exact flatMap_append

theorem status_self (hs : s.NodeFormed setting) : s.status (.local setting.self) ≤ .draining := by
  simp only [status,hs.self]
  decide

end

theorem PeerFormed.follow {peer : PeerMirror Name Challenge Digest} (hp : PeerFormed setting peer)
    {order : KeyOrder} {notes : UInt64 → List (ViewNote ScopeGroupKey)}
    (h : Mirrors setting.peerConfig.nodeId order peer notes session) :
    PeerFormed setting (peer.follow order session) ∧ ∀pid proxy,
      .actorTerminated proxy∈(peer.follow order session).around.events →
      proxy.id=.remote setting.peerConfig.nodeId pid →
        .actorTerminated proxy∈peer.around.events ∨ .remove∈notes pid := by
  refine ⟨⟨h.refines.consistent,?_,?_,fun event hm => ?_⟩,fun pid proxy hm hid => ?_⟩
  · exact (congrArg AuthenticationState.isOk h.identity.1).trans hp.auth
  · have hn : (peer.follow order session).session.name=peer.session.name:=h.identity.2
    rw [NodeSessionState.isSelfConnection,hn]
    exact hp.other
  · rcases h.refines.events event hm with hm | ⟨pid,proxy,heq,hid,-⟩
    · exact hp.stopped event hm
    · exact ⟨pid,proxy,heq,hid⟩
  · refine (h.refines.events _ hm).imp_right fun ⟨pid',proxy',heq,hid',hr⟩ => ?_
    obtain rfl:=actorTerminated.inj heq
    obtain ⟨-,rfl⟩:=ActorId.remote.inj (hid.symm.trans hid')
    exact hr

/-- The session will be told the end of the members that it reads. -/
def Attended (setting : MirrorSetting Name Challenge Digest) (s : MirroredNode Name Challenge Digest) :
    MirrorStep Name Challenge → Prop
  | .readMembers members => ∀actor∈members,(setting.cell actor).supportsRemoting=true →
      actor.pid∈s.registered ∨ .pidTerminate (setting.cell actor)∈s.events
  | _ => True

instance : DecidablePred (s.Attended setting)
  | .readMembers _ => decidableBAll _ _
  | .spawn _ | .publish _ | .unregister _ | .demonitorAll _ _ | .leaveAll _ _ | .join _ _ _
  | .leave _ _ _ | .monitor _ _ _ | .enumerateSessions | .monitorPids | .readPids _ | .sendSpawn
  | .monitorScopes | .monitorGroups | .readKeys _ | .sendJoin | .sendReady | .handleEvent _
  | .deliver _ _ _ | .handlePeerEvent _ _ => isTrue trivial

section Steps
variable (hs : s.WellFormed setting)
include hs

theorem simulates_notifyPids {stage : ActorStage}
    {registered : Finset UInt64} {note : ViewNote ScopeGroupKey} (hst : s.stage pid≠.alive)
    (hre : ∀other,other∈registered ↔
      if other=pid then stage.life.Present else other∈s.registered) (hrep : event.IsReport)
    (hn : ∀other,SessionEvent.notesOf Name other [event] =
      if other=pid ∧ setting.supportsRemoting other=true then [note] else [])
    (hstep : setting.supportsRemoting pid=true→(s.replica setting pid).Step
      { s.replica setting pid with
        life:=stage.life
        events:=(s.replica setting pid).events++(s.replica setting pid).heard note }) :
    Simulates setting s ({s with
      stage:=update s.stage pid stage
      registered:=registered}.notifyPids event) := by
  refine ⟨{hs with
    registered:=fun other => ?_
    self:=(update_of_ne (hs.ne_self hst) ..).trans hs.self
    reports:=fun event' hm => ?_},fun other => ?_⟩
  · refine (hre other).trans ?_
    simp only [notifyPids,hs.registered,update_apply]
    split <;> rfl
  · rcases mem_append.mp hm with hm | hm
    · exact hs.reports event' hm
    · split at hm
      · exact List.mem_singleton.mp hm ▸ hrep
      · cases hm
  · have he : SessionEvent.notesOf Name other (s.events++if s.monitorsPids then [event] else []) =
        SessionEvent.notesOf Name other s.events++if s.monitorsPids then
          (if other=pid ∧ setting.supportsRemoting other=true then [note] else []) else [] := by
      rw [notesOf_append]
      split
      · rw [hn]
      · rfl
    by_cases ha : other=pid ∧ setting.supportsRemoting other=true
    · obtain ⟨rfl,hr⟩:=ha
      refine cast (congrArg _ ?_) (hstep hr)
      rw [heard_replica hs.toNodeFormed]
      simp [replica,notifyPids,he,hr]
    · refine cast (congrArg _ ?_) step_of_eq
      simp only [if_neg ha,ite_self,append_nil] at he
      have hl:=life_update s stage ha
      simp [replica,notifyPids,he,hl]

theorem simulates_changeGroups {pg : PgState ActorId}
    {changes : List (GroupChangeMessage ActorId)} (hma : s.pg.Makes changes pg)
    (hc : ∀pid,∀change∈changes,∀note,change.note (.local pid)=some note →
      s.stage pid≠.unborn ∧ (note.Creates→s.stage pid=.alive)) :
    Simulates setting s (s.changeGroups setting pg changes) := by
  have hl:=hma.listeners
  refine ⟨⟨{hs.toNodeFormed.groups pg fun table key => by rw [hl] with
    reports:=fun event hm => ?_},hs.toPeerFormed⟩,fun pid => ?_⟩
  · rcases mem_append.mp hm with hm | hm
    · exact hs.reports event hm
    · obtain ⟨change,-,rfl⟩:=List.mem_map.mp hm
      trivial
  · have he : (replica setting (s.changeGroups setting pg changes) pid).events =
        (s.replica setting pid).events++if setting.supportsRemoting pid then
          (changes.flatMap (s.pg.noticesOf (.local setting.self))).filterMap (·.note (.local pid))
        else [] := by
      simp only [replica,changeGroups,notesOf_append,setting.notesOf_changes]
    refine cast (congrArg (fun events => Step _ {s.replica setting pid with
      marks:={key | setting.supportsRemoting pid=true ∧ .local pid∈pg.members key}
      events:=events}) he.symm)
      (.alter (fun note hm => ?_) (fun key => ?_) (queues_notices hs.toNodeFormed pid changes))
    · split at hm
      next hr =>
        obtain ⟨change,hch,hn⟩:=mem_filterMap.mp hm
        obtain ⟨hst,hcr⟩:=hc pid change hch note hn
        have hk : note≠.remove ∧ note≠.create := by
          cases change <;> simp only [GroupChangeMessage.note] at hn <;> split at hn <;>
            cases hn <;> simp
        refine ⟨hk.1,hk.2,?_,fun h => ?_⟩
        · simp only [replica,hr,if_true]
          cases hs' : s.stage pid <;> simp_all [ActorStage.life]
        · simp [replica,hr,hcr h,ActorStage.life]
      next => cases hm
    · show setting.supportsRemoting pid=true ∧ _ ↔ _
      rw [hma.mem_members]
      cases hr : setting.supportsRemoting pid with
      | false => simp [replica,hr,lastWord]
      | true => simp [replica,hr]

/-- The session goes on with its synchronization, and may send something. -/
theorem simulates_sync {before sync : SyncStage} (hsy : s.sync=before)
    (hh : ∀pid,(sync.phase pid).Hears ↔ (before.phase pid).Hears)
    (hli : ∀pid,(sync.phase pid).Listens ↔ (before.phase pid).Listens)
    (hst : ∀pid,(s.replica setting pid).phase=before.phase pid →
      (s.replica setting pid).Step {s.replica setting pid with
        phase:=sync.phase pid
        link:=ControlMessage.notesOf pid link}) :
    Simulates setting s {s with sync:=sync,session:=session,link:=link} := by
  subst hsy
  exact ⟨{hs with
    hears:=fun pid => (hh pid).trans (hs.hears pid)
    listens:=fun pid hl => hs.listens pid ((hli pid).mp hl)
    deaf:=fun pid hl => hs.deaf pid (mt (hli pid).mpr hl)},fun pid => hst pid rfl⟩

theorem simulates_peer {peer : PeerMirror Name Challenge Digest} (hp : PeerFormed setting peer)
    (hst : ∀pid,(s.replica setting pid).Step {s.replica setting pid with
      link:=ControlMessage.notesOf pid link
      view:=peer.view pid
      dropped:=∃proxy,.actorTerminated proxy∈peer.around.events ∧
        proxy.id=.remote setting.peerConfig.nodeId pid}) :
    Simulates setting s {s with link:=link,peer:=peer} :=
  ⟨⟨{hs.toNodeFormed with},hp⟩,hst⟩

variable [DecidableEq Digest]

theorem simulates_spawn (hstep : s.step setting (.spawn pid)=some s') : Simulates setting s s' := by
  obtain ⟨hst,rfl⟩:=Option.ite_some_none_eq_some.mp hstep
  refine simulates_notifyPids hs (by simp [hst]) (fun other => ?_) trivial
    (fun other => setting.notesOf_pidSpawn other pid) fun hr => .appear ?_
  · by_cases heq : other=pid <;> simp [heq,ActorStage.life,SubjectLife.Present]
  · simp [replica,hr,hst,ActorStage.life]

theorem simulates_unregister
    (hstep : s.step setting (.unregister pid)=some s') : Simulates setting s s' := by
  obtain ⟨hst,rfl⟩:=Option.ite_some_none_eq_some.mp hstep
  refine simulates_notifyPids hs (by simp [hst]) (fun other => ?_) trivial
    (fun other => setting.notesOf_pidTerminate other pid) fun hr => .withdraw ?_
  · by_cases heq : other=pid <;> simp [heq,ActorStage.life,SubjectLife.Present]
  · simp [replica,hr,hst,ActorStage.life]

theorem simulates_publish
    (hstep : s.step setting (.publish pid)=some s') : Simulates setting s s' := by
  obtain ⟨⟨hst,hse⟩,rfl⟩:=Option.ite_some_none_eq_some.mp hstep
  refine ⟨⟨hs.toNodeFormed.stage _ hse.symm (hst ▸ Iff.rfl),hs.toPeerFormed⟩,fun other => ?_⟩
  by_cases ha : other=pid ∧ setting.supportsRemoting other=true
  · obtain ⟨rfl,hr⟩:=ha
    refine cast (congrArg _ ?_) (close (r:=s.replica setting other) ?_)
    · simp [replica,hr,ActorStage.life]
    · simp [replica,hr,hst,ActorStage.life]
  · refine cast (congrArg _ ?_) step_of_eq
    have hl:=life_update s .published ha
    simp [replica,hl]

theorem simulates_monitor {table : ListenerTable}
    (hstep : s.step setting (.monitor table key pid)=some s') : Simulates setting s s' := by
  obtain ⟨⟨hsta,hse⟩,rfl⟩:=Option.ite_some_none_eq_some.mp hstep
  have hst : s.status (.local pid) ≤ .draining := by
    simp only [status,hsta]
    decide
  refine ⟨⟨hs.toNodeFormed.groups _ fun table' key' => ?_,hs.toPeerFormed⟩,fun other => ?_⟩
  · rw [mem_listeners_monitorIn hst]
    simp [hse.symm]
  · rw [replica_groups (members_monitorIn hst ..)]
    exact step_of_eq

theorem simulates_join {scope group : String} {actors : List ActorId}
    (hstep : s.step setting (.join scope group actors)=some s') : Simulates setting s s' := by
  obtain ⟨he,rfl⟩:=Option.ite_some_none_eq_some.mp hstep
  refine simulates_changeGroups hs (joinScoped_makes ..) fun pid change hm note hn => ?_
  rw [joinScopedChange_eq] at hm
  split at hm
  next => cases hm
  next =>
    obtain rfl : change=_ := by simpa using hm
    obtain ⟨ha,-⟩:=ite_none_right_eq_some.mp hn
    obtain ⟨ha,hst⟩:=List.mem_filter.mp ha
    have hst : (s.stage pid).status ≤ .draining:=of_decide_eq_true hst
    refine ⟨he _ ha,fun _ => ?_⟩
    cases hsta : s.stage pid with
    | unborn => exact absurd hsta (he _ ha)
    | alive => rfl
    | published | unregistered | demonitored | left =>
      rw [hsta] at hst
      exact absurd hst (by decide)

theorem simulates_leave {scope group : String} {actors : List ActorId}
    (hst : s.step setting (.leave scope group actors)=some s') : Simulates setting s s' := by
  obtain ⟨he,rfl⟩:=Option.ite_some_none_eq_some.mp hst
  refine simulates_changeGroups hs (leaveScoped_makes ..) fun pid change hm note hn => ?_
  obtain ⟨-,-,rfl⟩:=map_eq_some_iff.mp (mem_toList.mp hm)
  obtain ⟨ha,hn⟩:=ite_none_right_eq_some.mp hn
  obtain rfl:=some.inj hn
  exact ⟨he _ ha,nofun⟩

variable {order : Finset ScopeGroupKey → List ScopeGroupKey}

theorem simulates_demonitorAll
    (hstep : s.step setting (.demonitorAll pid order)=some s') : Simulates setting s s' := by
  obtain ⟨⟨hsta,-⟩,rfl⟩:=Option.ite_some_none_eq_some.mp hstep
  have hse : setting.self≠pid:=hs.ne_self (by simp [hsta])
  have hk:=KeepsOthers.demonitorAll s.pg (.local pid) order
  have hst:=hs.toNodeFormed.stage .demonitored hse (hsta ▸ Iff.rfl)
  refine ⟨⟨hst.groups _ fun table key => ?_,hs.toPeerFormed⟩,fun other => ?_⟩
  · exact hk.listeners table key _ fun heq => hse (ActorId.local.inj heq)
  · refine cast (congrArg _ ?_) step_of_eq
    have hst : replica setting {s with stage:=update s.stage pid .demonitored} other =
      s.replica setting other:=replica_stage (hsta ▸ rfl) other
    refine hst.symm.trans ?_
    exact (replica_groups (s:={s with stage:=update s.stage pid .demonitored})
      hk.members other).symm

theorem simulates_leaveAll
    (hstep : s.step setting (.leaveAll pid order)=some s') : Simulates setting s s' := by
  obtain ⟨⟨hst,-⟩,rfl⟩:=Option.ite_some_none_eq_some.mp hstep
  have hse : setting.self≠pid:=hs.ne_self (by simp [hst])
  have hsta:=hs.toNodeFormed.stage .left hse (hst ▸ Iff.rfl)
  have hc:=simulates_changeGroups ⟨hsta,hs.toPeerFormed⟩
    (leaveAll_makes s.pg (.local pid) order) fun other change hm note hn => ?_
  · refine ⟨hc.formed,fun other => ?_⟩
    have hsa : replica setting {s with stage:=update s.stage pid .left} other =
      s.replica setting other:=replica_stage (hst ▸ rfl) other
    exact hsa ▸ hc.steps other
  · obtain ⟨key,rfl⟩:=actors_of_mem_leaveAllChanges hm
    obtain ⟨ha,hn⟩:=ite_none_right_eq_some.mp hn
    obtain rfl:=some.inj hn
    obtain rfl : other=pid:=ActorId.local.inj (List.mem_singleton.mp ha)
    exact ⟨by simp,nofun⟩

/-! ### The first synchronization -/

theorem simulates_enumerateSessions
    (hst : s.step setting .enumerateSessions=some s') : Simulates setting s s' := by
  obtain ⟨hsy,rfl⟩:=Option.ite_some_none_eq_some.mp hst
  refine simulates_sync hs hsy (fun _ => .rfl) (fun _ => .rfl) fun pid hp => ?_
  have hn : ControlMessage.notesOf pid
      (s.proceed (s.session.enumerateSessions setting.config)).link=(s.replica setting pid).link := by
    rw [enumerateSessions]
    split
    · exact (notesOf_link (.control rfl _) pid).trans (append_nil _)
    · exact (notesOf_link (.nothing rfl) pid).trans (append_nil _)
  rw [hn]
  exact cast (congrArg (fun phase => Step _ {s.replica setting pid with phase:=phase})
    hp) step_of_eq

theorem simulates_monitorPids
    (hst : s.step setting .monitorPids=some s') : Simulates setting s s' := by
  obtain ⟨hsy,rfl⟩:=Option.ite_some_none_eq_some.mp hst
  have hd (pid : UInt64) : ¬ (s.sync.phase pid).Listens := by
    rw [hsy]
    exact id
  refine ⟨{hs with
    hears:=fun _ => iff_of_true trivial rfl
    listens:=nofun
    deaf:=fun pid _ => hs.deaf pid (hd pid)},fun pid => ?_⟩
  refine report (r:=s.replica setting pid) (.hear ?_)
  simp [replica,hsy,SyncStage.phase]

theorem simulates_readPids {pids : List UInt64}
    (hst : s.step setting (.readPids pids)=some s') : Simulates setting s s' := by
  obtain ⟨⟨hsy,-,hpi⟩,rfl⟩:=Option.ite_some_none_eq_some.mp hst
  refine simulates_sync hs hsy (fun _ => .rfl) (fun _ => .rfl) fun pid hp =>
    .report (.count hp ?_)
  have ha : (pids.map fun pid => setting.cell (.local pid)) =
      (pids.map ActorId.local).map setting.cell := by
    rw [List.map_map]
    rfl
  have hmem : ActorId.local pid∈pids.map ActorId.local ↔ (s.stage pid).life.Present := by
    rw [← hs.registered,← hpi]
    simp
  rw [decide_eq_true_iff,ha,setting.mem_remotable,hmem]
  cases hr : setting.supportsRemoting pid <;> simp [replica,hr,SubjectLife.Present]

theorem simulates_sendSpawn (hst : s.step setting .sendSpawn=some s') : Simulates setting s s' := by
  simp only [step] at hst
  split at hst
  next actors hsy =>
    obtain rfl:=some.inj hst
    refine simulates_sync hs hsy (fun _ => .rfl) (fun _ => .rfl) fun pid hp => ?_
    refine cast (congrArg _ ?_) (report (.announce hp))
    rw [notesOf_link (s.session.sends_sendSpawn _),notesOf_unless_nil rfl,sent,hp]
    by_cases hm : pid∈(SessionState.remotable actors).map (·.pid) <;>
      simp only [SyncStage.phase,hm,decide_true,decide_false,if_true,if_false] <;> rfl
  next => cases hst

theorem simulates_monitorScopes
    (hstep : s.step setting .monitorScopes=some s') : Simulates setting s s' := by
  obtain ⟨hsy,rfl⟩:=Option.ite_some_none_eq_some.mp hstep
  have hst:=status_self hs.toNodeFormed
  refine ⟨{hs with
    hears:=fun pid => ?_
    listens:=fun _ _ => (mem_listeners_monitorIn hst ..).mpr (.inr ⟨rfl,rfl,rfl⟩)
    deaf:=fun _ hl => absurd trivial hl},fun pid => ?_⟩
  · rw [← hs.hears pid,hsy]
    rfl
  · refine cast (congrArg _ ?_) (report (r:=s.replica setting pid) (.listen ?_))
    · simp [replica,SyncStage.phase,monitorScope,members_monitorIn hst]
    · simp [replica,hsy,SyncStage.phase]

theorem simulates_monitorGroups
    (hstep : s.step setting .monitorGroups=some s') : Simulates setting s s' := by
  obtain ⟨hsy,rfl⟩:=Option.ite_some_none_eq_some.mp hstep
  have hst:=status_self hs.toNodeFormed
  refine ⟨{hs with
    hears:=fun pid => ?_
    listens:=fun pid _ => (mem_listeners_monitorIn hst ..).mpr (.inl ?_)
    deaf:=fun _ hl => absurd trivial hl},fun pid => ?_⟩
  · rw [← hs.hears pid,hsy]
    rfl
  · exact hs.listens pid (hsy ▸ trivial)
  · refine cast (congrArg _ ?_) step_of_eq
    simp [replica,hsy,SyncStage.phase,monitor,members_monitorIn hst]

theorem simulates_readKeys
    (hst : s.step setting (.readKeys keys)=some s') : Simulates setting s s' := by
  obtain ⟨⟨hsy,hn,hk⟩,rfl⟩:=Option.ite_some_none_eq_some.mp hst
  refine simulates_sync hs hsy (fun _ => .rfl) (fun _ => .rfl) fun pid hp =>
    .report (.list hp hn fun key hm => ?_)
  rw [← List.mem_toFinset,hk,Groups.mem_whichScopesAndGroups]
  exact Finset.ne_empty_of_mem hm.2

theorem simulates_readMembers {members : List ActorId}
    (ha : s.Attended setting (.readMembers members))
    (hst : s.step setting (.readMembers members)=some s') : Simulates setting s s' := by
  simp only [step] at hst
  split at hst
  next key keys hsy =>
    obtain ⟨⟨-,hme⟩,rfl⟩:=Option.ite_some_none_eq_some.mp hst
    refine simulates_sync hs hsy (fun _ => .rfl) (fun _ => .rfl) fun pid hp => ?_
    have hread : pid∈(SessionState.remotable
        ((members.map setting.cell).filter (·.id.isLocal))).map (·.pid) ↔
          .local pid∈members ∧ setting.supportsRemoting pid=true := by
      rw [List.filter_map,setting.mem_remotable,List.mem_filter]
      exact and_congr_left fun _ => and_iff_left rfl
    refine .report (.read hp ?_ fun hma => ?_)
    · rw [decide_eq_true_iff,hread,← List.mem_toFinset,hme]
      exact and_comm
    · obtain ⟨hm,hr⟩:=hread.mp (of_decide_eq_true hma)
      rcases ha _ hm hr with hre | he
      · left
        have hl:=(hs.registered pid).mp hre
        simpa [replica,hr] using hl
      · right
        obtain ⟨before,after,hsp⟩:=append_of_mem he
        have hn:=setting.notesOf_pidTerminate pid pid
        rw [if_pos ⟨rfl,hr⟩] at hn
        show .remove∈SessionEvent.notesOf Name pid s.events
        rw [hsp,notesOf_append,← List.singleton_append,notesOf_append,hn]
        simp
  next => cases hst

theorem simulates_sendJoin (hst : s.step setting .sendJoin=some s') : Simulates setting s s' := by
  simp only [step] at hst
  split at hst
  next key members keys hsy =>
    obtain rfl:=some.inj hst
    refine simulates_sync hs hsy (fun _ => .rfl) (fun _ => .rfl) fun pid hp => ?_
    refine cast (congrArg _ ?_) (report (.send hp))
    rw [notesOf_link (s.session.sends_sendPgJoin key _),notesOf_unless_nil rfl,sent,hp]
    by_cases hm : pid∈(SessionState.remotable members).map (·.pid) <;>
      simp only [SyncStage.phase,hm,decide_true,decide_false,if_true,if_false] <;> rfl
  next => cases hst

theorem simulates_sendReady (hst : s.step setting .sendReady=some s') : Simulates setting s s' := by
  obtain ⟨hsy,rfl⟩:=Option.ite_some_none_eq_some.mp hst
  refine simulates_sync hs hsy (fun _ => .rfl) (fun _ => .rfl) fun pid hp => ?_
  have hn : ControlMessage.notesOf pid (s.proceed s.session.sendReady).link =
      (s.replica setting pid).link:=(notesOf_link (.control rfl .ready) pid).trans (append_nil _)
  rw [hn]
  exact .report (.finish hp)

/-! ### Events and messages -/

theorem simulates_handleEvent {outcomes : SessionOutcomes Name Challenge}
    (hst : s.step setting (.handleEvent outcomes)=some s') : Simulates setting s s' := by
  simp only [step] at hst
  split at hst
  next event events hsy he =>
    obtain rfl:=some.inj hst
    have hmem : ∀event'∈event::events,event'.IsReport:=he ▸ hs.reports
    have hse:=s.session.sends_handleSupervisorEvt setting.config outcomes (hmem event mem_cons_self)
    refine ⟨{hs with reports:=fun event' hm => hmem event' (mem_cons_of_mem _ hm)},fun pid => ?_⟩
    have hn : (s.replica setting pid).events =
        ControlMessage.notesOf pid (event.message Name).toList ++
          SessionEvent.notesOf Name pid events := by
      rw [← SessionEvent.notesOf_singleton,← notesOf_append]
      exact congrArg (SessionEvent.notesOf Name pid) he
    refine cast (congrArg _ ?_) (handle (r:=s.replica setting pid) ?_ hn)
    · have hl:=notesOf_link hse pid
      simp only [replica] at hl ⊢
      rw [hl]
      rfl
    · simp [replica,hsy,SyncStage.phase]
  next => cases hst

theorem simulates_deliver {view : LocalView}
    {outcomes : SessionOutcomes Name Challenge} {order : KeyOrder}
    (hst : s.step setting (.deliver view outcomes order)=some s') : Simulates setting s s' := by
  simp only [step] at hst
  split at hst
  on_goal 2 => cases hst
  rename_i message link hl
  obtain rfl:=some.inj hst
  have hh : s.peer.session.handle setting.peerConfig outcomes.succeeding view
      (some (.control (some message))) =
        s.peer.session.handleControl setting.peerConfig outcomes.succeeding (some message) := by
    rw [SessionState.handle,hs.other]
    rfl
  have hmi : Mirrors setting.peerConfig.nodeId order s.peer (fun pid => message.notes pid)
      (s.peer.session.handleControl setting.peerConfig outcomes.succeeding (some message)) :=
    mirrors_handleControl order (fun _ => rfl) (fun _ => rfl) hs.consistent hs.auth message
  rw [hh]
  obtain ⟨hp,hd⟩:=hs.toPeerFormed.follow hmi
  refine simulates_peer hs hp fun pid => ?_
  have hn : (s.replica setting pid).link = message.notes pid++ControlMessage.notesOf pid link := by
    simp [replica,hl,ControlMessage.notesOf]
  rw [hmi.refines.views]
  refine .deliver hn fun ⟨proxy,hm,hid⟩ => ?_
  exact (hd pid proxy hm hid).imp_left fun hm => ⟨proxy,hm,hid⟩

theorem simulates_handlePeerEvent {outcomes : SessionOutcomes Name Challenge} {order : KeyOrder}
    (hst : s.step setting (.handlePeerEvent outcomes order)=some s') :
    Simulates setting s s' := by
  simp only [step] at hst
  split at hst
  on_goal 2 => cases hst
  rename_i event events he
  obtain rfl:=some.inj hst
  let peer := {s.peer with around.events:=events}
  have hr : ∀event'∈events,event'∈s.peer.around.events:=fun event' hm =>
    he ▸ mem_cons_of_mem _ hm
  have hf : PeerFormed setting peer :=
    ⟨⟨hs.consistent.ids,hs.consistent.running,hs.consistent.absent,hs.consistent.sound⟩,hs.auth,
      hs.other,fun event' hm => hs.stopped event' (hr event' hm)⟩
  have hev : event∈s.peer.around.events:=he ▸ mem_cons_self
  obtain ⟨stopped,proxy,rfl,hid⟩:=hs.stopped event hev
  have hmi : Mirrors setting.peerConfig.nodeId order peer
      (fun pid => if pid=stopped then [.remove] else [])
      (peer.session.handleSupervisorEvt setting.peerConfig outcomes.succeeding
        (.actorTerminated proxy)) :=
    mirrors_actorTerminated order (fun _ => rfl) setting.peerTcp hid hf.consistent
  obtain ⟨hp,hd⟩:=hf.follow hmi
  refine simulates_peer hs hp fun pid => ?_
  rw [hmi.refines.views]
  dsimp only
  split
  next heq =>
    subst heq
    exact .expire ⟨proxy,hev,hid⟩
  next hne =>
    refine .deliver (nil_append _).symm fun ⟨proxy',hm,hid'⟩ => .inl ⟨proxy',?_,hid'⟩
    rcases hd pid proxy' hm hid' with hm | hm
    · exact hr _ hm
    · rw [if_neg hne] at hm
      cases hm

theorem simulates_step {label : MirrorStep Name Challenge}
    (ha : s.Attended setting label) (hst : s.step setting label=some s') :
    Simulates setting s s' := by
  cases label with
  | spawn pid => exact simulates_spawn hs hst
  | publish pid => exact simulates_publish hs hst
  | unregister pid => exact simulates_unregister hs hst
  | demonitorAll pid order => exact simulates_demonitorAll hs hst
  | leaveAll pid order => exact simulates_leaveAll hs hst
  | join scope group actors => exact simulates_join hs hst
  | leave scope group actors => exact simulates_leave hs hst
  | monitor table key pid => exact simulates_monitor hs hst
  | enumerateSessions => exact simulates_enumerateSessions hs hst
  | monitorPids => exact simulates_monitorPids hs hst
  | readPids pids => exact simulates_readPids hs hst
  | sendSpawn => exact simulates_sendSpawn hs hst
  | monitorScopes => exact simulates_monitorScopes hs hst
  | monitorGroups => exact simulates_monitorGroups hs hst
  | readKeys keys => exact simulates_readKeys hs hst
  | readMembers members => exact simulates_readMembers hs ha hst
  | sendJoin => exact simulates_sendJoin hs hst
  | sendReady => exact simulates_sendReady hs hst
  | handleEvent outcomes => exact simulates_handleEvent hs hst
  | deliver view outcomes order => exact simulates_deliver hs hst
  | handlePeerEvent outcomes order => exact simulates_handlePeerEvent hs hst

end Steps

/-! ### Whole runs -/

theorem wellFormed_of_starts (hs : s.Starts setting) : s.WellFormed setting := by
  refine ⟨⟨fun pid => ?_,?_,fun pid => ?_,fun pid hl => ?_,fun pid _ table key => ?_,?_⟩,
    ⟨⟨?_,?_,?_,hs.sound⟩,hs.auth,hs.other,?_⟩⟩
  · rw [hs.node]
    by_cases heq : pid=setting.self <;> simp [initial,heq,ActorStage.life,SubjectLife.Present]
  · rw [hs.node]
    simp [initial]
  · rw [hs.node]
    exact iff_of_false id Bool.false_ne_true
  · rw [hs.node] at hl
    exact hl.elim
  · rw [hs.node]
    cases table <;> simp [initial,listeners]
  · rw [hs.node]
    rintro _ ⟨⟩
  · intro pid proxy hp
    rw [hs.remoteActors] at hp
    cases hp
  · intro pid proxy hp
    rw [hs.remoteActors] at hp
    cases hp
  · exact fun pid _ => hs.absent pid
  · rw [hs.events]
    rintro _ ⟨⟩

theorem replica_of_starts (hs : s.Starts setting) (pid : UInt64) :
    (s.replica setting pid).Orderly ∧ (s.replica setting pid).Faithful := by
  have hn:=hs.node
  have hp : (s.replica setting pid).phase=.start := by
    rw [replica,hn]
    rfl
  have he : (s.replica setting pid).events=[] := by
    rw [replica,hn]
    rfl
  have hse : (s.replica setting pid).sent=[] := by
    rw [sent,hp,replica,hn]
    rfl
  have hv : (s.replica setting pid).view=none:=view_of_none (hs.remoteActors pid)
  have hma : (s.replica setting pid).marks=∅ := by
    rw [replica,hn]
    simp [initial,members]
  have hd : ¬ (s.replica setting pid).dropped := by
    rintro ⟨proxy,hm,-⟩
    rw [hs.events] at hm
    cases hm
  have ha : (s.replica setting pid).arrived=none := by
    rw [arrived,hse,hv]
    rfl
  have ho : (s.replica setting pid).life≠.withdrawn := by
    rw [replica,hn]
    by_cases heq : pid=setting.self <;> cases setting.supportsRemoting pid <;>
      simp [initial,heq,ActorStage.life]
  generalize s.replica setting pid=r at *
  have hnil : r.sent++r.events=[] := by rw [hse,he]; rfl
  refine ⟨⟨hnil ▸ .nil,fun _ hm => ?_,fun _ => hnil ▸ not_mem_nil,
    hp ▸ nodup_nil,fun _ => ⟨hnil,hv,hma⟩,fun h => absurd h hd⟩,
    ⟨fun _ => ⟨ha,he⟩,fun _ key => he ▸ rfl,fun key _ => ha ▸ id,fun _ hc => ?_,fun _ key _ word hw => ?_,
      fun _ key hkey => ?_,fun h => absurd h ho,fun h => absurd h ho,
      fun h => absurd h ho⟩⟩
  · have hm : .remove∈r.sent:=mem_append_left _ hm
    rw [hse] at hm
    cases hm
  · rw [hp] at hc
    exact hc.elim
  · rw [he] at hw
    cases hw
  · rw [hp] at hkey
    exact absurd trivial hkey

variable [DecidableEq Digest]

/-- The reports on every actor are in order. -/
theorem reports_of_reachable
    (h : Reachable (Starts setting) (guarded (Attended setting) (Steps setting)) s) :
    s.WellFormed setting ∧
      ∀pid,(s.replica setting pid).Orderly ∧ (s.replica setting pid).Faithful := by
  refine h.invariant (P:=fun s => s.WellFormed setting ∧
    ∀pid,(s.replica setting pid).Orderly ∧ (s.replica setting pid).Faithful)
    (fun s hs => ⟨wellFormed_of_starts hs,replica_of_starts hs⟩) ?_
  rintro s label s' ⟨hs,hr⟩ ⟨ha,hst⟩
  have hsim:=simulates_step hs ha hst
  refine ⟨hsim.formed,fun pid => ?_⟩
  obtain ⟨ho,hf⟩:=hr pid
  exact ⟨ho.step (hsim.steps pid),hf.step ho (hsim.steps pid)⟩

/-- Once all events are handled and all messages are delivered, the peer has stand-ins for exactly
the actors that are registered and support remoting, each in exactly the groups of its actor. -/
theorem mirror_converges
    (h : Reachable (Starts setting) (guarded (Attended setting) (Steps setting)) s)
    (hsync : s.sync=.done) (hevents : s.events=[]) (hlink : s.link=[]) :
    (∀pid,s.peer.session.remoteActors pid≠none ↔
      pid∈s.registered ∧ setting.supportsRemoting pid=true) ∧
    ∀pid proxy,s.peer.session.remoteActors pid=some proxy → ∀key,
      (proxy.id∈s.peer.around.groups.pg.members key ↔ .local pid∈s.pg.members key) := by
  obtain ⟨hs,hreports⟩:=reports_of_reachable h
  have hconverged (pid : UInt64):=(hreports pid).2.converged (hreports pid).1
    (by simp [replica,hsync,SyncStage.phase]) (by simp only [replica,hevents]; rfl)
    (by simp only [replica,hlink]; rfl)
  have hpresent (pid : UInt64) : (s.replica setting pid).life.Present ↔
      pid∈s.registered ∧ setting.supportsRemoting pid=true := by
    rw [hs.registered]
    cases hremoting : setting.supportsRemoting pid <;> simp [replica,hremoting,SubjectLife.Present]
  refine ⟨fun pid => ?_,fun pid proxy hproxy key => ?_⟩
  · rw [← hpresent,← (hconverged pid).1]
    exact isSome_view.symm
  · have hlife : (s.replica setting pid).life.Present := by
      rw [← (hconverged pid).1]
      exact isSome_view.mpr (hproxy ▸ some_ne_none proxy)
    have hmarked:=(hconverged pid).2 hlife key
    have hremoting:=((hpresent pid).mp hlife).2
    simpa [replica,PeerMirror.view,hproxy,Marked,hremoting] using hmarked

section Runs

def oneRemotable : MirrorSetting ℕ ℕ ℕ where
  self:=1
  name:=fun _ => none
  supportsRemoting:=fun pid => pid=7
  config:=⟨0,⟨0,0⟩,false,id,.local 2⟩
  peerConfig:=⟨4,⟨3,3⟩,false,id,.local 2⟩
  peerTcp:=rfl

def authenticatedPeers : MirroredNode ℕ ℕ ℕ :=
  initial oneRemotable {auth:=.asClient .ok}
    {session:={auth:=.asServer (.ok 0),name:=some ⟨0,0⟩}}

theorem starts_authenticatedPeers : authenticatedPeers.Starts oneRemotable :=
  ⟨rfl,rfl,rfl,fun _ => rfl,rfl,fun _ _ => notMem_empty _,Groups.sound_initial⟩

/-- The first synchronization, where only the group of the workers has members. -/
def synchronization (pids : List UInt64) : List (MirrorStep ℕ ℕ) :=
  [.enumerateSessions,.monitorPids,.readPids pids,.sendSpawn,.monitorScopes,.monitorGroups,
    .readKeys [⟨defaultScope,"workers"⟩],.readMembers [.local 7],.sendJoin,.sendReady]

def delivery (order : KeyOrder) : MirrorStep ℕ ℕ :=
  .deliver ⟨fun _ => none,[],[]⟩ ⟨none,0,0,none,true,fun _ => true,fun _ => true⟩ order

/-- An actor that is in a group before the session is authenticated is mirrored. -/
theorem mirror_converges_member : ∃s : MirroredNode ℕ ℕ ℕ,
    Reachable (Starts oneRemotable) (guarded (Attended oneRemotable) (Steps oneRemotable)) s ∧
    s.sync=.done ∧ s.events=[] ∧ s.link=[] ∧ 7∈s.registered ∧
    ∃proxy,s.peer.session.remoteActors 7=some proxy ∧
      proxy.id∈s.peer.around.groups.pg.members ⟨defaultScope,"workers"⟩ := by
  have order : KeyOrder:=⟨toList,fun keys => ⟨keys.nodup_toList,keys.toList_toFinset⟩⟩
  obtain ⟨s,hs,hsync,hevents,hlink,hregistered,hmembers⟩ : ∃s : MirroredNode ℕ ℕ ℕ,
      Reachable (Starts oneRemotable) (guarded (Attended oneRemotable) (Steps oneRemotable)) s ∧
      s.sync=.done ∧ s.events=[] ∧ s.link=[] ∧ s.registered={7,1} ∧
      s.pg.members ⟨defaultScope,"workers"⟩={.local 7} :=
    ⟨_,Reachable.guarded_execute (fun _ _ _ h => h)
      ([.spawn 7,.join defaultScope "workers" [.local 7]]++synchronization [1,7] ++
        [delivery order,delivery order,delivery order]) (.start starts_authenticatedPeers) rfl,
      rfl,rfl,rfl,rfl,rfl⟩
  have hseven : 7∈s.registered:=hregistered ▸ mem_insert_self 7 {1}
  obtain ⟨hkeys,hgroups⟩:=mirror_converges hs hsync hevents hlink
  obtain ⟨proxy,hproxy⟩:=ne_none_iff_exists'.mp ((hkeys 7).mpr ⟨hseven,rfl⟩)
  refine ⟨s,hs,hsync,hevents,hlink,hseven,proxy,hproxy,(hgroups 7 proxy hproxy _).mpr ?_⟩
  rw [hmembers]
  exact Finset.mem_singleton_self _

/-- An actor is unregistered before the session monitors the pids, and leaves its group after the
group has been read. The peer is never told that it is gone. -/
theorem unregistered_member_stays : ∃s : MirroredNode ℕ ℕ ℕ,
    Reachable (Starts oneRemotable) (Steps oneRemotable) s ∧ s.sync=.done ∧ s.events=[] ∧
    s.link=[] ∧ s.peer.around.events=[] ∧ s.stage 7=.left ∧ s.registered={1} ∧
    s.peer.session.remoteActors 7≠none := by
  have order : KeyOrder:=⟨toList,fun keys => ⟨keys.nodup_toList,keys.toList_toFinset⟩⟩
  have hs : Reachable (Starts oneRemotable) (Steps oneRemotable) _ :=
    Reachable.execute (fun _ _ _ h => h)
      ([.spawn 7,.join defaultScope "workers" [.local 7],.publish 7,.unregister 7] ++
        synchronization [1] ++
        [.demonitorAll 7 fun _ => [],.leaveAll 7 fun _ => [⟨defaultScope,"workers"⟩],
          .handleEvent ⟨none,0,0,none,true,fun _ => true,fun _ => true⟩,delivery order,
          delivery order,delivery order]) (.start starts_authenticatedPeers) rfl
  exact ⟨_,hs,rfl,rfl,rfl,rfl,rfl,rfl,some_ne_none _⟩

end Runs
end MirroredNode
end Ractor
