import Mathlib.Data.Finset.Basic
import Mathlib.Data.Finset.SDiff
import Ractor.SessionElection

/-!
# The sessions of a node server

A node server knows the sessions that are open, the name and the connection id that each of them
has reported, and which of them have authenticated. A session that authenticates takes part in the
election among the authenticated sessions with its peer; whoever is not elected is stopped.

Sessions are named by the ids of their actors. The peer's connection string and flags, the node
ids, the subscriptions and the listener are left out: nothing here reads them.
-/

namespace Ractor
open List Finset Option

structure NameMessage (Name : Type) where
  name : Name
  connectionId : ℕ
  deriving DecidableEq, Repr

structure NodeServerSession (Name : Type) where
  actorId : ℕ
  isServer : Bool
  peerName : Option Name:=none
  deriving DecidableEq, Repr

/-- `update` of the session of the actor, in a list of sessions. -/
def NodeServerSession.update {Name : Type} (actorId : ℕ) (name : Name)
    (session : NodeServerSession Name) : NodeServerSession Name :=
  if session.actorId=actorId then {session with peerName:=some name} else session

inductive SessionCheckReply where
  | noOtherConnection
  | otherConnectionContinues
  | thisConnectionContinues
  | duplicateConnection
  deriving DecidableEq, Repr

/-- The replies with which a session goes on. -/
def SessionCheckReply.continues : SessionCheckReply → Bool
  | .noOtherConnection | .thisConnectionContinues => true
  | .otherConnectionContinues | .duplicateConnection => false

structure SessionElectionResult where
  candidateSurvives : Bool
  losers : List ℕ
  deriving DecidableEq, Repr

structure NodeServerState (Name : Type) where
  thisNodeName : Name
  nodeSessions : List (NodeServerSession Name):=[]
  connectionIds : ℕ → Option (Option ℕ):=fun _ => none
  authenticatedSessions : Finset ℕ:=∅

inductive NodeServerEvent (Name : Type) where
  | opened (actorId : ℕ) (isServer : Bool)
  | updateSession (actorId : ℕ) (name : NameMessage Name)
  | checkSession (actorId : ℕ) (peerName : NameMessage Name)
  | connectionAuthenticated (actorId : ℕ)
  | terminated (actorId : ℕ)
  deriving DecidableEq, Repr

def NodeServerEvent.session {Name : Type} : NodeServerEvent Name → ℕ
  | .opened actorId _ | .updateSession actorId _ | .checkSession actorId _
  | .connectionAuthenticated actorId | .terminated actorId => actorId

def nonZeroId (connectionId : ℕ) : Option ℕ:=if connectionId=0 then none else some connectionId

variable {actorId : ℕ} {c : SessionElectionCandidate} {election : SessionElectionResult}

namespace NodeServerState

section Operations
variable {Name : Type} [LinearOrder Name] (s : NodeServerState Name)

def session? (actorId : ℕ) : Option (NodeServerSession Name) :=
  s.nodeSessions.find? (·.actorId == actorId)

def connectionId (actorId : ℕ) : Option ℕ :=
  (s.connectionIds actorId).join

def openSession (actorId : ℕ) (isServer : Bool) : NodeServerState Name :=
  { s with
    nodeSessions:=s.nodeSessions.filter (·.actorId != actorId)++[{actorId,isServer}] }

def registerSession (actorId : ℕ) (peerName : NameMessage Name) : NodeServerState Name :=
  if (s.session? actorId).isSome then
    { s with
      nodeSessions:=s.nodeSessions.map (.update actorId peerName.name)
      connectionIds:=Function.update s.connectionIds actorId
        (some (nonZeroId peerName.connectionId)) }
  else s

def candidate (session : NodeServerSession Name) : SessionElectionCandidate :=
  { actorId:=session.actorId,isServer:=session.isServer
    connectionId:=s.connectionId session.actorId }

/-- `candidates_for_peer`, which is asked for authenticated sessions only. -/
def candidatesForPeer (peerName : Name) : List SessionElectionCandidate :=
  (s.nodeSessions.filter fun session =>
    session.peerName == some peerName && session.actorId∈s.authenticatedSessions).map s.candidate

def checkCandidate (actorId : ℕ) : SessionCheckReply :=
  match s.session? actorId with
  | none => .otherConnectionContinues
  | some session =>
    match session.peerName with
    | none => .otherConnectionContinues
    | some peerName =>
      let candidates := s.candidatesForPeer peerName
      let candidates :=
        if actorId∈s.authenticatedSessions then candidates
        else candidates++[s.candidate session]
      let elected := electSessions s.thisNodeName peerName candidates
      if actorId∈elected then
        if 1<candidates.length then .thisConnectionContinues else .noOtherConnection
      else .otherConnectionContinues

/-- The sessions that have reported the name and the connection id. -/
def matchingSessions (peerName : NameMessage Name) : List ℕ :=
  (s.nodeSessions.filter fun session =>
    session.peerName == some peerName.name &&
      s.connectionId session.actorId == nonZeroId peerName.connectionId).map (·.actorId)

def checkSession (peerName : NameMessage Name) : SessionCheckReply :=
  match s.matchingSessions peerName with
  | [actorId] => s.checkCandidate actorId
  | _::_::_ => .noOtherConnection
  | [] =>
    let existing := s.candidatesForPeer peerName.name
    if existing.isEmpty then .noOtherConnection
    else if existing.any (·.isServer) then .duplicateConnection
    else if peerName.name<s.thisNodeName then .thisConnectionContinues
    else .otherConnectionContinues

/-- The authenticated sessions with the peer that the election left out. -/
def losers (peerName : Name) (elected : List ℕ) : List ℕ :=
  (s.nodeSessions.filter fun session =>
    session.actorId∈s.authenticatedSessions && session.peerName == some peerName &&
      !elected.contains session.actorId).map (·.actorId)

def peerName? (actorId : ℕ) : Option Name :=
  (s.session? actorId).bind (·.peerName)

def authenticate (actorId : ℕ) : NodeServerState Name :=
  {s with authenticatedSessions:=insert actorId s.authenticatedSessions}

def commitAuthenticated (actorId : ℕ) : Option (SessionElectionResult × NodeServerState Name) :=
  match s.peerName? actorId with
  | none => none
  | some peerName =>
    let s := s.authenticate actorId
    let elected := electSessions s.thisNodeName peerName (s.candidatesForPeer peerName)
    let losers := s.losers peerName elected
    some ({candidateSurvives:=elected.contains actorId,losers},
      {s with authenticatedSessions:=s.authenticatedSessions \ losers.toFinset})

def isElected (actorId : ℕ) : Bool :=
  if actorId∈s.authenticatedSessions then
    match s.peerName? actorId with
    | none => false
    | some peerName =>
      (electSessions s.thisNodeName peerName (s.candidatesForPeer peerName)).contains actorId
  else false

def removeSession (actorId : ℕ) : NodeServerState Name :=
  if (s.session? actorId).isSome then
    { s with
      nodeSessions:=s.nodeSessions.filter (·.actorId != actorId)
      connectionIds:=Function.update s.connectionIds actorId none
      authenticatedSessions:=s.authenticatedSessions.erase actorId }
  else s

def handle : NodeServerEvent Name → NodeServerState Name
  | .opened actorId isServer => s.openSession actorId isServer
  | .updateSession actorId name => s.registerSession actorId name
  | .checkSession _ _ => s
  | .connectionAuthenticated actorId =>
    match s.commitAuthenticated actorId with
    | some (_,s') => s'
    | none => s
  | .terminated actorId => s.removeSession actorId

def stoppedBy : NodeServerEvent Name → List ℕ
  | .connectionAuthenticated actorId =>
    match s.commitAuthenticated actorId with
    | some (election,_) => election.losers
    | none => []
  | _ => []

end Operations

/-! ### The tables -/

section Tables
variable {Name : Type} {s : NodeServerState Name} {session : NodeServerSession Name}

theorem session?_mem (h : s.session? actorId=some session) :
    session∈s.nodeSessions ∧ session.actorId=actorId :=
  ⟨mem_of_find?_eq_some h,by simpa using find?_some h⟩

theorem session?_eq_none_iff :
    s.session? actorId=none ↔ ∀session∈s.nodeSessions,session.actorId≠actorId := by
  simp [session?]

/-- The tables refer to open sessions, each of which is listed once, and only sessions that have
reported a name authenticate. -/
structure WellKept (s : NodeServerState Name) : Prop where
  unique : ∀x∈s.nodeSessions,∀y∈s.nodeSessions,x.actorId=y.actorId → x=y
  connections : ∀a,(s.connectionIds a).isSome → ∃x∈s.nodeSessions,x.actorId=a
  authenticated : ∀a∈s.authenticatedSessions,
    ∃x∈s.nodeSessions,x.actorId=a ∧ x.peerName≠none

theorem WellKept.session?_eq_some_iff (h : s.WellKept) :
    s.session? actorId=some session ↔ session∈s.nodeSessions ∧ session.actorId=actorId := by
  refine ⟨session?_mem,fun ⟨hmem,hid⟩ => ?_⟩
  cases hf : s.session? actorId with
  | none => exact absurd hid (session?_eq_none_iff.mp hf session hmem)
  | some other =>
    obtain ⟨hm',hid'⟩:=session?_mem hf
    rw [h.unique session hmem other hm' (hid.trans hid'.symm)]

theorem WellKept.peerName?_eq_some_iff (h : s.WellKept) {peerName : Name} :
    s.peerName? actorId=some peerName ↔
      ∃x∈s.nodeSessions,x.actorId=actorId ∧ x.peerName=some peerName := by
  simp only [peerName?,bind_eq_some_iff,h.session?_eq_some_iff,and_assoc]

theorem mem_openSession {isServer : Bool} (hnew : s.session? actorId=none)
    {x : NodeServerSession Name} :
    x∈(s.openSession actorId isServer).nodeSessions ↔ x∈s.nodeSessions ∨ x={actorId,isServer} := by
  have hold : s.nodeSessions.filter (·.actorId != actorId)=s.nodeSessions := by
    rw [filter_eq_self]
    intro x hx
    simpa using session?_eq_none_iff.mp hnew x hx
  rw [NodeServerState.openSession,hold,List.mem_append,List.mem_singleton]

theorem WellKept.openSession (h : s.WellKept) {isServer : Bool} (hnew : s.session? actorId=none) :
    (s.openSession actorId isServer).WellKept := by
  refine ⟨fun x hx y hy hid => ?_,fun a ha => ?_,fun a ha => ?_⟩
  · rw [mem_openSession hnew] at hx hy
    rcases hx with hx | rfl <;> rcases hy with hy | rfl
    · exact h.unique x hx y hy hid
    · exact absurd hid (session?_eq_none_iff.mp hnew x hx)
    · exact absurd hid.symm (session?_eq_none_iff.mp hnew y hy)
    · rfl
  · obtain ⟨x,hx,hid⟩:=h.connections a ha
    exact ⟨x,(mem_openSession hnew).mpr (.inl hx),hid⟩
  · obtain ⟨x,hx,hid⟩:=h.authenticated a ha
    exact ⟨x,(mem_openSession hnew).mpr (.inl hx),hid⟩

@[simp] theorem update_actorId (actorId : ℕ) (name : Name) (session : NodeServerSession Name) :
    (session.update actorId name).actorId=session.actorId := by
  unfold NodeServerSession.update
  split <;> rfl

@[simp] theorem update_isServer (actorId : ℕ) (name : Name) (session : NodeServerSession Name) :
    (session.update actorId name).isServer=session.isServer := by
  unfold NodeServerSession.update
  split <;> rfl

theorem update_of_ne (name : Name) (h : session.actorId≠actorId) :
    session.update actorId name=session:=if_neg h

theorem update_peerName_ne_none {name : Name} (h : session.peerName≠none) :
    (session.update actorId name).peerName≠none := by
  unfold NodeServerSession.update
  split
  · simp
  · exact h

/-- A session that is not open is not found, so that nothing is updated. -/
theorem registerSession_nodeSessions (s : NodeServerState Name) (actorId : ℕ)
    (name : NameMessage Name) :
    (s.registerSession actorId name).nodeSessions =
      s.nodeSessions.map (NodeServerSession.update actorId name.name) := by
  unfold registerSession
  split
  next => rfl
  next hc =>
    rw [Bool.not_eq_true,isSome_eq_false_iff,isNone_iff_eq_none,session?_eq_none_iff] at hc
    refine (map_id _).symm.trans (map_congr_left fun x hx => ?_)
    exact (update_of_ne _ (hc x hx)).symm

theorem registerSession_thisNodeName (s : NodeServerState Name) (actorId : ℕ)
    (name : NameMessage Name) : (s.registerSession actorId name).thisNodeName=s.thisNodeName := by
  unfold registerSession
  split <;> rfl

theorem registerSession_authenticatedSessions (s : NodeServerState Name) (actorId : ℕ)
    (name : NameMessage Name) :
    (s.registerSession actorId name).authenticatedSessions=s.authenticatedSessions := by
  unfold registerSession
  split <;> rfl

theorem registerSession_connectionId_of_ne (s : NodeServerState Name) {b : ℕ}
    (name : NameMessage Name) (hb : b≠actorId) :
    (s.registerSession actorId name).connectionId b=s.connectionId b := by
  unfold registerSession
  split
  · simp [connectionId,Function.update_of_ne hb]
  · rfl

theorem registerSession_connectionId_self (h : session∈s.nodeSessions) (name : NameMessage Name) :
    (s.registerSession session.actorId name).connectionId session.actorId =
      nonZeroId name.connectionId := by
  have ho : (s.session? session.actorId).isSome=true := by
    rw [isSome_iff_ne_none,Ne,session?_eq_none_iff]
    exact fun hc => hc session h rfl
  simp [registerSession,ho,connectionId]

theorem WellKept.registerSession (h : s.WellKept) (actorId : ℕ) (name : NameMessage Name) :
    (s.registerSession actorId name).WellKept := by
  unfold NodeServerState.registerSession
  split
  next ho =>
    obtain ⟨session,hs⟩:=isSome_iff_exists.mp ho
    obtain ⟨hse,hid⟩:=session?_mem hs
    refine ⟨fun x hx y hy hxy => ?_,fun a ha => ?_,fun a ha => ?_⟩
    · obtain ⟨x₀,hx₀,rfl⟩:=mem_map.mp hx
      obtain ⟨y₀,hy₀,rfl⟩:=mem_map.mp hy
      rw [update_actorId,update_actorId] at hxy
      rw [h.unique x₀ hx₀ y₀ hy₀ hxy]
    · by_cases haa : a=actorId
      · exact ⟨_,mem_map_of_mem hse,by rw [update_actorId,hid,haa]⟩
      · dsimp only at ha
        rw [Function.update_of_ne haa] at ha
        obtain ⟨x,hx,rfl⟩:=h.connections a ha
        exact ⟨_,mem_map_of_mem hx,update_actorId ..⟩
    · obtain ⟨x,hx,rfl,hn⟩:=h.authenticated a ha
      exact ⟨_,mem_map_of_mem hx,update_actorId ..,update_peerName_ne_none hn⟩
  next => exact h

theorem WellKept.removeSession (h : s.WellKept) (actorId : ℕ) :
    (s.removeSession actorId).WellKept := by
  unfold NodeServerState.removeSession
  split
  next =>
    have hk {x : NodeServerSession Name} (hx : x∈s.nodeSessions) (hne : x.actorId≠actorId) :
        x∈s.nodeSessions.filter (·.actorId != actorId) :=
      mem_filter.mpr ⟨hx,by simpa using hne⟩
    refine ⟨fun x hx y hy => h.unique x (mem_of_mem_filter hx) y (mem_of_mem_filter hy),
      fun a ha => ?_,fun a ha => ?_⟩
    · by_cases haa : a=actorId
      · simp [haa] at ha
      · dsimp only at ha
        rw [Function.update_of_ne haa] at ha
        obtain ⟨x,hx,rfl⟩:=h.connections a ha
        exact ⟨x,hk hx haa,rfl⟩
    · obtain ⟨hne,ha⟩:=mem_erase.mp ha
      obtain ⟨x,hx,rfl,hn⟩:=h.authenticated a ha
      exact ⟨x,hk hx hne,rfl,hn⟩
  next => exact h

/-- A session is opened once, and reports its name once. -/
def Admits (s : NodeServerState Name) : NodeServerEvent Name → Prop
  | .opened actorId _ => s.session? actorId=none
  | .updateSession actorId _ => s.peerName? actorId=none
  | _ => True

end Tables

/-! ### Candidates and elections -/

variable {Name : Type} [LinearOrder Name] {s s' : NodeServerState Name}

theorem mem_candidatesForPeer {peerName : Name} :
    c∈s.candidatesForPeer peerName ↔ ∃session∈s.nodeSessions,
      session.peerName=some peerName ∧ session.actorId∈s.authenticatedSessions ∧
        s.candidate session=c := by
  simp [candidatesForPeer,and_assoc]

theorem mem_matchingSessions {peerName : NameMessage Name} {a : ℕ} :
    a∈s.matchingSessions peerName ↔ ∃session∈s.nodeSessions,session.peerName=some peerName.name ∧
        s.connectionId session.actorId=nonZeroId peerName.connectionId ∧ session.actorId=a := by
  simp [matchingSessions,and_assoc]

theorem mem_losers {peerName : Name} {elected : List ℕ} {a : ℕ} :
    a∈s.losers peerName elected ↔ ∃session∈s.nodeSessions,
      session.actorId∈s.authenticatedSessions ∧ session.peerName=some peerName ∧
        session.actorId∉elected ∧ session.actorId=a := by
  simp [losers,and_assoc]

/-- A session whose authentication is committed has reported a name; it joins the authenticated
sessions, and the losers leave them. -/
theorem commitAuthenticated_eq_some (h : s.commitAuthenticated actorId=some (election,s')) :
    ∃peerName,s.peerName? actorId=some peerName ∧
      election.losers=(s.authenticate actorId).losers peerName
        (electSessions s.thisNodeName peerName
          ((s.authenticate actorId).candidatesForPeer peerName)) ∧
      s'={s with
        authenticatedSessions:=
          insert actorId s.authenticatedSessions \ election.losers.toFinset} := by
  unfold commitAuthenticated at h
  split at h
  next => cases h
  next peerName hn =>
    cases h
    exact ⟨peerName,hn,rfl,rfl⟩

theorem WellKept.commitAuthenticated (h : s.WellKept)
    (hs : s.commitAuthenticated actorId=some (election,s')) : s'.WellKept := by
  obtain ⟨peerName,hn,-,rfl⟩:=commitAuthenticated_eq_some hs
  refine ⟨h.unique,h.connections,fun a ha => ?_⟩
  rcases mem_insert.mp (mem_sdiff.mp ha).1 with rfl | ha
  · obtain ⟨x,hx,hid,hp⟩:=h.peerName?_eq_some_iff.mp hn
    exact ⟨x,hx,hid,by simp [hp]⟩
  · exact h.authenticated a ha

theorem WellKept.handle (h : s.WellKept) {event : NodeServerEvent Name}
    (hg : s.Admits event) : (s.handle event).WellKept := by
  cases event with
  | opened => exact h.openSession hg
  | updateSession actorId name => exact h.registerSession actorId name
  | checkSession => exact h
  | connectionAuthenticated actorId =>
    unfold NodeServerState.handle
    dsimp only
    split
    next election s' hs => exact h.commitAuthenticated hs
    next => exact h
  | terminated actorId => exact h.removeSession actorId

/-- After the commit, the candidates of the peer are those that the election kept. -/
theorem WellKept.mem_candidates_commit (h : s.WellKept) {peerName : Name}
    (hs : s.commitAuthenticated actorId=some (election,s'))
    (hn : s.peerName? actorId=some peerName) :
    c∈s'.candidatesForPeer peerName ↔ c∈electCandidates s.thisNodeName peerName
        ((s.authenticate actorId).candidatesForPeer peerName) := by
  obtain ⟨peerName',hn',hl,rfl⟩:=commitAuthenticated_eq_some hs
  obtain rfl : peerName'=peerName:=some.inj (hn'.symm.trans hn)
  have hel {session : NodeServerSession Name} (hmem : session∈s.nodeSessions)
      {e : SessionElectionCandidate}
      (he : e∈electCandidates s.thisNodeName peerName'
        ((s.authenticate actorId).candidatesForPeer peerName'))
      (hid : e.actorId=session.actorId) : s.candidate session=e := by
    obtain ⟨other,ho,-,-,rfl⟩ :=
      mem_candidatesForPeer.mp (SessionElection.mem_of_mem_electCandidates he)
    rw [h.unique other ho session hmem hid]
    rfl
  constructor
  · intro hc
    obtain ⟨session,hmem,hp,ha,rfl⟩:=mem_candidatesForPeer.mp hc
    obtain ⟨ha,hnot⟩:=mem_sdiff.mp ha
    rw [List.mem_toFinset,hl,mem_losers] at hnot
    by_contra hout
    refine hnot ⟨session,hmem,ha,hp,fun hin => hout ?_,rfl⟩
    obtain ⟨e,he,hid⟩:=mem_map.mp hin
    exact hel hmem he hid ▸ he
  · intro hc
    obtain ⟨session,hmem,hp,ha,rfl⟩ :=
      mem_candidatesForPeer.mp (SessionElection.mem_of_mem_electCandidates hc)
    refine mem_candidatesForPeer.mpr ⟨session,hmem,hp,?_,rfl⟩
    refine mem_sdiff.mpr ⟨ha,?_⟩
    rw [List.mem_toFinset,hl,mem_losers]
    rintro ⟨other,ho,-,-,hout,hid⟩
    exact hout (mem_map.mpr ⟨_,hc,hid.symm⟩)

theorem WellKept.mem_candidates_of_commit (h : s.WellKept)
    {peerName : Name} (hs : s.commitAuthenticated actorId=some (election,s'))
    (hn : s.peerName? actorId≠some peerName) (hc : c∈s'.candidatesForPeer peerName) :
    c∈s.candidatesForPeer peerName := by
  obtain ⟨peerName',hn',hl,rfl⟩:=commitAuthenticated_eq_some hs
  obtain ⟨session,hmem,hp,ha,rfl⟩:=mem_candidatesForPeer.mp hc
  refine mem_candidatesForPeer.mpr ⟨session,hmem,hp,?_,rfl⟩
  refine (mem_insert.mp (mem_sdiff.mp ha).1).resolve_left fun hid => hn ?_
  exact h.peerName?_eq_some_iff.mpr ⟨session,hmem,hid,hp⟩

/-! ### Sessions that have reported their name -/

theorem mem_matchingSessions_registerSession
    {session : NodeServerSession Name} (h : session∈s.nodeSessions) (name : NameMessage Name) :
    session.actorId∈(s.registerSession session.actorId name).matchingSessions name := by
  refine mem_matchingSessions.mpr ⟨session.update session.actorId name.name,?_,?_,?_,?_⟩
  · rw [registerSession_nodeSessions]
    exact mem_map_of_mem h
  · simp [NodeServerSession.update]
  · rw [update_actorId]
    exact registerSession_connectionId_self h name
  · exact update_actorId ..

/-- What the other sessions do leaves the report of a session in place. -/
theorem mem_matchingSessions_handle {name : NameMessage Name}
    {event : NodeServerEvent Name} (h : actorId∈s.matchingSessions name)
    (hne : event.session≠actorId) : actorId∈(s.handle event).matchingSessions name := by
  obtain ⟨session,hmem,hname,hid,rfl⟩:=mem_matchingSessions.mp h
  have hother : session∈s.nodeSessions.filter (·.actorId != event.session) :=
    mem_filter.mpr ⟨hmem,by simpa using hne.symm⟩
  rw [mem_matchingSessions]
  cases event with
  | opened other isServer => exact ⟨session,mem_append_left _ hother,hname,hid,rfl⟩
  | updateSession other name' =>
    refine ⟨session,?_,hname,(registerSession_connectionId_of_ne s name' hne.symm).trans hid,rfl⟩
    change session∈(s.registerSession other name').nodeSessions
    rw [registerSession_nodeSessions]
    exact mem_map.mpr ⟨session,hmem,update_of_ne _ hne.symm⟩
  | checkSession => exact ⟨session,hmem,hname,hid,rfl⟩
  | connectionAuthenticated other =>
    unfold handle
    dsimp only
    split
    next election s' hs =>
      obtain ⟨-,-,-,rfl⟩:=commitAuthenticated_eq_some hs
      exact ⟨session,hmem,hname,hid,rfl⟩
    next => exact ⟨session,hmem,hname,hid,rfl⟩
  | terminated other =>
    unfold handle removeSession
    dsimp only
    split
    next =>
      refine ⟨session,hother,hname,?_,rfl⟩
      have hne' : session.actorId≠other:=hne.symm
      simpa [connectionId,Function.update_of_ne hne'] using hid
    next => exact ⟨session,hmem,hname,hid,rfl⟩

theorem checkSession_ne_duplicateConnection {name : NameMessage Name}
    (h : actorId∈s.matchingSessions name) : s.checkSession name≠.duplicateConnection := by
  unfold checkSession
  split
  next =>
    unfold checkCandidate
    dsimp only
    repeat' split
    all_goals simp
  next => nofun
  next hnil => simp [hnil] at h

/-- A session that has reported its name is never told that its connection is a duplicate, whatever
the other sessions have done since. -/
theorem checkSession_of_registered {session : NodeServerSession Name}
    (h : session∈s.nodeSessions) (name : NameMessage Name) {events : List (NodeServerEvent Name)}
    (hothers : ∀event∈events,event.session≠session.actorId) :
    (events.foldl handle (s.registerSession session.actorId name)).checkSession name ≠
      .duplicateConnection := by
  have hreported:=mem_matchingSessions_registerSession h name
  generalize s.registerSession session.actorId name=t at hreported ⊢
  induction events generalizing t with
  | nil => exact checkSession_ne_duplicateConnection hreported
  | cons event events ih =>
    obtain ⟨hother,hothers⟩:=forall_mem_cons.mp hothers
    exact ih hothers _ (mem_matchingSessions_handle hreported hother)

end NodeServerState
end Ractor
