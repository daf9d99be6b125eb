import Ractor.NodeServerSessions
import Ractor.ReachableRuns

/-!
# Two nodes agree on the connection that survives

Two nodes may have opened any number of connections to each other. At each end of a connection a
session reports to the node server of its node: the name and connection id of the connection, then,
at the accepting end, a first check, then that it has authenticated, then a check. Both node servers
handle these requests in any order that keeps the order of each session. The client and the server
of a connection see the two directions swapped, and each node elects among the connections that
have authenticated so far; the connection that both prefer is kept by every one of these elections.
-/

namespace Ractor
open NodeServerState Function List Option Finset

inductive Node where
  | first | second
  deriving DecidableEq, Repr

def Node.other : Node → Node
  | .first => .second
  | .second => .first

structure PhysicalConnection where
  connectionId : ℕ
  openedBy : Node
  deriving DecidableEq, Repr

/-- Two nodes and the connections between them. `sessionOf` gives the id of the session actor at
each end of a connection. -/
structure Cluster (Name : Type) [LinearOrder Name] where
  name : Node → Name
  connections : List PhysicalConnection
  sessionOf : Node → PhysicalConnection → ℕ
  names_differ : name .first≠name .second
  ids_nonzero : ∀c∈connections,c.connectionId≠0
  ids_distinct : ∀c∈connections,∀d∈connections,c.connectionId=d.connectionId → c=d
  sessions_distinct : ∀node,∀c∈connections,∀d∈connections,
    sessionOf node c=sessionOf node d → c=d

inductive SessionRequest where
  | updateSession | checkSession | connectionAuthenticated
  deriving DecidableEq, Repr

/-- The requests of a session, in the order in which `NodeSession` makes them. -/
def SessionRequest.program (isServer : Bool) : List SessionRequest :=
  if isServer then [.updateSession,.checkSession,.connectionAuthenticated,.checkSession]
  else [.updateSession,.connectionAuthenticated,.checkSession]

theorem SessionRequest.updateSession_mem_program (isServer : Bool) :
    .updateSession∈SessionRequest.program isServer := by
  cases isServer <;> simp [SessionRequest.program]

variable {request : SessionRequest} {rest : List SessionRequest} {node : Node} {a b : ℕ}
  {election : SessionElectionResult}

theorem SessionRequest.updateSession_notMem_tail {isServer : Bool}
    (h : SessionRequest.program isServer=request::rest) : .updateSession∉rest := by
  cases isServer <;> cases h <;> simp

structure ElectingNode (Name : Type) where
  server : NodeServerState Name
  /-- The requests that the session of a connection has yet to make, once it is open. -/
  pending : PhysicalConnection → Option (List SessionRequest):=fun _ => none
  /-- A check has told the session not to go on. -/
  refused : PhysicalConnection → Bool:=fun _ => false
  /-- The session has been among the losers of an election. -/
  stopped : PhysicalConnection → Bool:=fun _ => false
  committed : PhysicalConnection → Bool:=fun _ => false

inductive ClusterStep where
  | opened (node : Node) (connection : PhysicalConnection)
  | request (node : Node) (connection : PhysicalConnection)
  | terminated (node : Node) (connection : PhysicalConnection)
  deriving DecidableEq, Repr

namespace Cluster
variable {Name : Type} [LinearOrder Name] (cl : Cluster Name)

def last : Node:=if cl.name .first<cl.name .second then .second else .first

/-- The connection with the smallest id, among those that the node with the last name has opened
if there are any. -/
def IsPreferred (p : PhysicalConnection) : Prop :=
  p∈cl.connections ∧ (∀c∈cl.connections,c.openedBy=cl.last → p.openedBy=cl.last) ∧
    ∀c∈cl.connections,c.openedBy=p.openedBy → p.connectionId≤c.connectionId

instance (p : PhysicalConnection) : Decidable (cl.IsPreferred p) :=
  inferInstanceAs (Decidable (_ ∧ _ ∧ _))

def isServer (node : Node) (c : PhysicalConnection) : Bool:=c.openedBy != node

def nameMessage (node : Node) (c : PhysicalConnection) : NameMessage Name :=
  {name:=cl.name node.other,connectionId:=c.connectionId}

def openConnection (node : Node) (c : PhysicalConnection) (v : ElectingNode Name) :
    ElectingNode Name :=
  { v with
    server:=v.server.openSession (cl.sessionOf node c) (isServer node c)
    pending:=update v.pending c (some (SessionRequest.program (isServer node c))) }

/-- A request of the session of `c`, after which `rest` remains. A session that is refused stops
and makes no further request. -/
def handleRequest (node : Node) (c : PhysicalConnection) (rest : List SessionRequest)
    (v : ElectingNode Name) : SessionRequest → ElectingNode Name
  | .updateSession =>
    { v with
      server:=v.server.registerSession (cl.sessionOf node c) (cl.nameMessage node c)
      pending:=update v.pending c (some rest) }
  | .checkSession =>
    if (v.server.checkSession (cl.nameMessage node c)).continues then
      {v with pending:=update v.pending c (some rest)}
    else
      { v with
        pending:=update v.pending c (some [])
        refused:=update v.refused c true }
  | .connectionAuthenticated =>
    match v.server.commitAuthenticated (cl.sessionOf node c) with
    | none => {v with pending:=update v.pending c (some rest)}
    | some (election,server) =>
      { v with
        server
        pending:=update v.pending c (some rest)
        stopped:=fun d => v.stopped d || election.losers.contains (cl.sessionOf node d)
        committed:=update v.committed c true }

def TakenDown (s : Node → ElectingNode Name) (c : PhysicalConnection) : Prop :=
  ∃node,(s node).refused c=true ∨ (s node).stopped c=true

/-- A connection other than the preferred one may also fail by itself. -/
inductive Step : (Node→ElectingNode Name) → ClusterStep→(Node→ElectingNode Name)→Prop where
  | opened (s) (node : Node) (c : PhysicalConnection) (hc : c∈cl.connections)
      (hnew : (s node).pending c=none) :
      Step s (.opened node c) (update s node (cl.openConnection node c (s node)))
  | request (s) (node : Node) (c : PhysicalConnection) (request : SessionRequest)
      (rest : List SessionRequest) (hc : c∈cl.connections)
      (hpending : (s node).pending c=some (request::rest)) :
      Step s (.request node c) (update s node (cl.handleRequest node c rest (s node) request))
  | terminated (s) (node : Node) (c : PhysicalConnection) (hc : c∈cl.connections)
      (hends : TakenDown s c ∨ ¬ cl.IsPreferred c) :
      Step s (.terminated node c) (update s node
          {s node with server:=(s node).server.removeSession (cl.sessionOf node c)})

def Initial (s : Node → ElectingNode Name) : Prop :=
  s=fun node => {server:={thisNodeName:=cl.name node}}

/-! ### Every partial election keeps the preferred connection -/

/-- The candidate that stands for a connection in the elections of a node. -/
def candidate (node : Node) (c : PhysicalConnection) : SessionElectionCandidate :=
  { actorId:=cl.sessionOf node c,isServer:=isServer node c
    connectionId:=some c.connectionId }

variable {cl}

theorem name_other_ne (node : Node) : cl.name node.other≠cl.name node := by
  cases node
  · exact cl.names_differ.symm
  · exact cl.names_differ

/-- Both nodes prefer the connections opened by the node with the last name. -/
theorem preferredIsServer_eq_some {c : PhysicalConnection} :
    preferredIsServer (cl.name node) (cl.name node.other)=some (isServer node c) ↔
      c.openedBy=cl.last := by
  unfold preferredIsServer last isServer
  rcases lt_or_gt_of_ne cl.names_differ with h | h <;> cases node <;> cases hc : c.openedBy <;>
    simp [Node.other,h,h.not_gt,compare_lt_iff_lt.mpr h,compare_gt_iff_gt.mpr h]

theorem isServer_inj {c d : PhysicalConnection} (h : isServer node c=isServer node d) :
    c.openedBy=d.openedBy := by
  unfold isServer at h
  cases node <;> cases hc : c.openedBy <;> cases hd : d.openedBy <;> simp_all

/-- The preferred connection wins every election that it takes part in. -/
theorem IsPreferred.mem_electSessions {p : PhysicalConnection} (hp : cl.IsPreferred p)
    {candidates : List SessionElectionCandidate}
    (hall : ∀d∈candidates,∃c∈cl.connections,d=cl.candidate node c)
    (hmem : cl.candidate node p∈candidates) :
    a∈electSessions (cl.name node) (cl.name node.other) candidates ↔ a=cl.sessionOf node p := by
  obtain ⟨hco,hl,hs⟩:=hp
  refine SessionElection.electSessions_eq_singleton hmem rfl ?_ ?_ (name_other_ne node)
  · intro d hd hpr
    obtain ⟨c,hc,rfl⟩:=hall d hd
    have hc':=preferredIsServer_eq_some.mp hpr
    have hp' : preferredIsServer (cl.name node) (cl.name node.other)=some (isServer node p) :=
      preferredIsServer_eq_some.mpr (hl c hc hc')
    exact some.inj (hp'.symm.trans hpr)
  · intro d hd hdir hne
    obtain ⟨c,hc,rfl⟩:=hall d hd
    refine ⟨c.connectionId,rfl,?_⟩
    refine lt_of_le_of_ne (hs c hc (isServer_inj hdir)) fun he => hne ?_
    rw [cl.ids_distinct p hco c hc he]

/-! ### What a node knows -/

/-- The sessions of a node are those of connections that have been opened; one that has reported
its name stands for its connection. The preferred connection is there from the time it is opened,
it has been spared, and once it is committed it is the only one left. -/
structure Sound (cl : Cluster Name) (p : PhysicalConnection) (node : Node)
    (v : ElectingNode Name) : Prop where
  wellKept : v.server.WellKept
  thisNodeName : v.server.thisNodeName=cl.name node
  opened : ∀x∈v.server.nodeSessions,∃c∈cl.connections,
    v.pending c≠none ∧ x.actorId=cl.sessionOf node c ∧ x.isServer=isServer node c
  named : ∀x∈v.server.nodeSessions,∀peerName,x.peerName=some peerName →
    peerName=cl.name node.other ∧ ∃c∈cl.connections,v.server.candidate x=cl.candidate node c
  present : ∀rest,v.pending p=some rest → ∃x∈v.server.nodeSessions,
    x.actorId=cl.sessionOf node p ∧ (.updateSession∉rest → x.peerName≠none)
  once : ∀request rest,v.pending p=some (request::rest) → .updateSession∉rest
  spared : v.refused p=false ∧ v.stopped p=false
  committed : v.committed p=true → v.server.authenticatedSessions={cl.sessionOf node p}

variable {p c : PhysicalConnection} {v : ElectingNode Name}

theorem Sound.initial : Sound cl p node {server:={thisNodeName:=cl.name node}} where
  wellKept:=⟨fun _ hx => (not_mem_nil hx).elim,fun _ ha => by simp at ha,
    fun _ ha => absurd ha (notMem_empty _)⟩
  thisNodeName:=rfl
  opened _ hx:=(not_mem_nil hx).elim
  named _ hx:=(not_mem_nil hx).elim
  present:=nofun
  once:=nofun
  spared:=⟨rfl,rfl⟩
  committed:=nofun

section
variable (h : Sound cl p node v) {server : NodeServerState Name}
include h

theorem Sound.session?_eq_none (hc : c∈cl.connections)
    (hnew : v.pending c=none) : v.server.session? (cl.sessionOf node c)=none := by
  rw [session?_eq_none_iff]
  intro x hx hid
  obtain ⟨d,hd,ho,hid',-⟩:=h.opened x hx
  rw [cl.sessions_distinct node c hc d hd (hid.symm.trans hid')] at hnew
  exact ho hnew

theorem Sound.openConnection (hc : c∈cl.connections)
    (hnew : v.pending c=none) : Sound cl p node (cl.openConnection node c v) := by
  have hf:=h.session?_eq_none hc hnew
  refine {h with
    wellKept:=h.wellKept.openSession hf,opened:=fun x hx => ?_,
    named:=fun x hx peerName hn => ?_,present:=fun rest hr => ?_,
    once:=fun request rest hr => ?_}
  · rcases (mem_openSession hf).mp hx with hx | rfl
    · obtain ⟨d,hd,ho,hid⟩:=h.opened x hx
      refine ⟨d,hd,?_,hid⟩
      by_cases hdc : d=c
      · exact absurd (hdc ▸ hnew) ho
      · simpa [Cluster.openConnection,update_of_ne hdc] using ho
    · exact ⟨c,hc,by simp [Cluster.openConnection],rfl,rfl⟩
  · rcases (mem_openSession hf).mp hx with hx | rfl
    · exact h.named x hx peerName hn
    · cases hn
  · by_cases hpc : p=c
    · subst hpc
      refine ⟨_,(mem_openSession hf).mpr (.inr rfl),rfl,fun hnot => ?_⟩
      simp only [Cluster.openConnection,update_self,some.injEq] at hr
      exact absurd (hr ▸ SessionRequest.updateSession_mem_program _) hnot
    · simp only [Cluster.openConnection,update_of_ne hpc] at hr
      obtain ⟨x,hx,hp⟩:=h.present rest hr
      exact ⟨x,(mem_openSession hf).mpr (.inl hx),hp⟩
  · by_cases hpc : p=c
    · simp only [Cluster.openConnection,hpc,update_self,some.injEq] at hr
      exact SessionRequest.updateSession_notMem_tail hr
    · simp only [Cluster.openConnection,update_of_ne hpc] at hr
      exact h.once request rest hr

/-- A session that has made a request other than the first one has reported its name. -/
theorem Sound.preferred_named (hp : p∈cl.connections)
    (hpe : v.pending p=some (request::rest)) (hreq : request≠.updateSession) :
    ∃x∈v.server.nodeSessions,x.actorId=cl.sessionOf node p ∧
      x.peerName=some (cl.name node.other) ∧ v.server.candidate x=cl.candidate node p := by
  obtain ⟨x,hx,hid,hn⟩:=h.present _ hpe
  obtain ⟨peerName,hna⟩:=ne_none_iff_exists'.mp (hn (by simp [Ne.symm hreq,h.once _ _ hpe]))
  obtain ⟨rfl,c,hc,hca⟩:=h.named x hx peerName hna
  refine ⟨x,hx,hid,hna,?_⟩
  have hcp : cl.sessionOf node c=cl.sessionOf node p := (congrArg (·.actorId) hca).symm.trans hid
  rw [hca,cl.sessions_distinct node c hc p hp hcp]

/-- What changes when the session of `c` has made a request that leaves the sessions alone. -/
theorem Sound.advance {rest' : List SessionRequest}
    (hp : v.pending c=some (request::rest)) (hreq : request≠.updateSession)
    (hr : rest' <:+ rest) :
    Sound cl p node {v with pending:=update v.pending c (some rest')} := by
  refine {h with
    opened:=fun x hx => ?_,present:=fun left hl => ?_,once:=fun r left hl => ?_}
  · obtain ⟨d,hd,ho,hid⟩:=h.opened x hx
    refine ⟨d,hd,?_,hid⟩
    by_cases hdc : d=c
    · simp [hdc]
    · simpa [update_of_ne hdc] using ho
  · by_cases hpc : p=c
    · subst hpc
      obtain ⟨x,hx,hid,hn⟩:=h.present _ hp
      exact ⟨x,hx,hid,fun _ => hn (by simp [Ne.symm hreq,h.once _ _ hp])⟩
    · simp only [update_of_ne hpc] at hl
      exact h.present left hl
  · by_cases hpc : p=c
    · subst hpc
      simp only [update_self,some.injEq] at hl
      intro hmem
      refine h.once _ _ hp (hr.subset ?_)
      rw [hl]
      exact mem_cons_of_mem r hmem
    · simp only [update_of_ne hpc] at hl
      exact h.once r left hl

theorem Sound.mem_candidatesForPeer {s : NodeServerState Name}
    (hs : s.nodeSessions=v.server.nodeSessions)
    (hids : s.connectionIds=v.server.connectionIds) {d : SessionElectionCandidate}
    {peerName : Name} (hd : d∈s.candidatesForPeer peerName) :
    ∃c∈cl.connections,d=cl.candidate node c := by
  obtain ⟨x,hx,hn,-,rfl⟩:=NodeServerState.mem_candidatesForPeer.mp hd
  obtain ⟨-,c,hc,hca⟩:=h.named x (hs ▸ hx) peerName hn
  refine ⟨c,hc,hca ▸ ?_⟩
  simp only [NodeServerState.candidate,NodeServerState.connectionId,hids]

/-- Reporting a name makes the session stand for its connection. -/
theorem Sound.named_update (hc : c∈cl.connections)
    {x : NodeServerSession Name} (hx : x∈v.server.nodeSessions) {peerName : Name}
    (hna : (x.update (cl.sessionOf node c) (cl.name node.other)).peerName=some peerName) :
    peerName=cl.name node.other ∧ ∃d∈cl.connections,
      (v.server.registerSession (cl.sessionOf node c) (cl.nameMessage node c)).candidate
        (x.update (cl.sessionOf node c) (cl.name node.other))=cl.candidate node d := by
  by_cases hid : x.actorId=cl.sessionOf node c
  · obtain ⟨d,hd,-,hid',hs⟩:=h.opened x hx
    obtain rfl : d=c:=cl.sessions_distinct node d hd c hc (hid'.symm.trans hid)
    have hreg:=registerSession_connectionId_self hx (cl.nameMessage node d)
    have hn : nonZeroId d.connectionId=some d.connectionId := if_neg (cl.ids_nonzero d hc)
    rw [NodeServerSession.update,if_pos hid] at hna ⊢
    refine ⟨(some.inj hna).symm,d,hc,?_⟩
    rw [hid] at hreg
    simp only [NodeServerState.candidate,candidate,hid,hs,hreg]
    rw [nameMessage,hn]
  · rw [NodeServerState.update_of_ne _ hid] at hna ⊢
    obtain ⟨hp,d,hd,hca⟩:=h.named x hx peerName hna
    refine ⟨hp,d,hd,?_⟩
    rw [← hca]
    simp only [NodeServerState.candidate,registerSession_connectionId_of_ne _ _ hid]

theorem Sound.updateSession (hc : c∈cl.connections) (hp : v.pending c=some (.updateSession::rest)) :
    Sound cl p node (cl.handleRequest node c rest v .updateSession) := by
  have hs:=v.server.registerSession_nodeSessions (cl.sessionOf node c) (cl.nameMessage node c)
  refine {h with
    wellKept:=h.wellKept.registerSession _ _,thisNodeName:=?_,opened:=fun x hx => ?_,
    named:=fun x hx peerName hna => ?_,present:=fun left hl => ?_,
    once:=fun r left hl => ?_,committed:=fun hdo => ?_}
  · exact (v.server.registerSession_thisNodeName _ _).trans h.thisNodeName
  · simp only [handleRequest,hs] at hx
    obtain ⟨y,hy,rfl⟩:=mem_map.mp hx
    obtain ⟨d,hd,ho,hid,hse⟩:=h.opened y hy
    refine ⟨d,hd,?_,by simpa using hid,by simpa using hse⟩
    by_cases hdc : d=c
    · simp [handleRequest,hdc]
    · simpa [handleRequest,update_of_ne hdc] using ho
  · simp only [handleRequest,hs] at hx
    obtain ⟨y,hy,rfl⟩:=mem_map.mp hx
    exact h.named_update hc hy hna
  · have hx {x : NodeServerSession Name} (hx : x∈v.server.nodeSessions) :
        x.update (cl.sessionOf node c) (cl.name node.other) ∈
          (cl.handleRequest node c rest v .updateSession).server.nodeSessions := by
      simp only [handleRequest,hs]
      exact mem_map_of_mem hx
    by_cases hpc : p=c
    · subst hpc
      obtain ⟨x,hmem,hid,-⟩:=h.present _ hp
      refine ⟨_,hx hmem,by simpa using hid,fun _ => ?_⟩
      simp [NodeServerSession.update,hid]
    · simp only [handleRequest,update_of_ne hpc] at hl
      obtain ⟨x,hmem,hid,hn⟩:=h.present left hl
      exact ⟨_,hx hmem,by simpa using hid,fun hnot => update_peerName_ne_none (hn hnot)⟩
  · by_cases hpc : p=c
    · subst hpc
      simp only [handleRequest,update_self,some.injEq] at hl
      exact fun hmem => h.once _ _ hp (hl ▸ mem_cons_of_mem r hmem)
    · simp only [handleRequest,update_of_ne hpc] at hl
      exact h.once r left hl
  · exact (v.server.registerSession_authenticatedSessions _ _).trans (h.committed hdo)

/-- Whoever is authenticated when a session commits has reported the name of the other node. -/
theorem Sound.session_of_commit (hs : v.server.commitAuthenticated b=some (election,server))
    (ha : a∈(v.server.authenticate b).authenticatedSessions) :
    ∃x∈v.server.nodeSessions,x.actorId=a ∧ x.peerName=some (cl.name node.other) := by
  have hn : ∃x∈v.server.nodeSessions,x.actorId=a ∧ x.peerName≠none := by
    rcases mem_insert.mp ha with rfl | ha
    · obtain ⟨peerName,hna,-⟩:=commitAuthenticated_eq_some hs
      obtain ⟨x,hx,hid,hna⟩:=h.wellKept.peerName?_eq_some_iff.mp hna
      exact ⟨x,hx,hid,by simp [hna]⟩
    · exact h.wellKept.authenticated a ha
  obtain ⟨x,hx,hid,hn⟩:=hn
  obtain ⟨peerName,hna⟩:=ne_none_iff_exists'.mp hn
  exact ⟨x,hx,hid,by rw [hna,(h.named x hx peerName hna).1]⟩

theorem Sound.terminated (hp : p∈cl.connections) (hc : c∈cl.connections) (hpc : p≠c) :
    Sound cl p node {v with server:=v.server.removeSession (cl.sessionOf node c)} := by
  have hne : cl.sessionOf node p≠cl.sessionOf node c :=
    fun he => hpc (cl.sessions_distinct node p hp c hc he)
  have hw:=h.wellKept.removeSession (cl.sessionOf node c)
  unfold removeSession at hw ⊢
  split
  next ho =>
    rw [if_pos ho] at hw
    refine {h with
      wellKept:=hw,opened:=fun x hx => h.opened x (mem_of_mem_filter hx)
      named:=fun x hx peerName hna => ?_,present:=fun rest hr => ?_
      committed:=fun hdo => ?_}
    · obtain ⟨hmem,hid⟩:=List.mem_filter.mp hx
      have hid : x.actorId≠cl.sessionOf node c := by simpa using hid
      obtain ⟨hpe,d,hd,hca⟩:=h.named x hmem peerName hna
      refine ⟨hpe,d,hd,hca ▸ ?_⟩
      simp [NodeServerState.candidate,NodeServerState.connectionId,update_of_ne hid]
    · obtain ⟨x,hx,hid,hn⟩:=h.present rest hr
      exact ⟨x,List.mem_filter.mpr ⟨hx,by simpa [hid] using hne⟩,hid,hn⟩
    · dsimp only
      rw [h.committed hdo,erase_eq_of_notMem]
      simpa using hne.symm
  next hcl => exact h

variable (hp : cl.IsPreferred p)
include hp

theorem Sound.continues (hpe : v.pending p=some (.checkSession::rest)) :
    (v.server.checkSession (cl.nameMessage node p)).continues=true := by
  obtain ⟨x,hx,hid,hna,hca⟩:=h.preferred_named hp.1 hpe (by simp)
  have hc : v.server.connectionId x.actorId=some p.connectionId :=
    congrArg (·.connectionId) hca
  have hn : nonZeroId p.connectionId=some p.connectionId := if_neg (cl.ids_nonzero p hp.1)
  have hma : cl.sessionOf node p∈v.server.matchingSessions (cl.nameMessage node p) :=
    mem_matchingSessions.mpr ⟨x,hx,hna,hc.trans hn.symm,hid⟩
  have hr : (v.server.checkCandidate (cl.sessionOf node p)).continues=true := by
    unfold checkCandidate
    rw [h.wellKept.session?_eq_some_iff.mpr ⟨hx,hid⟩]
    simp only [hna,h.thisNodeName]
    set candidates:=if cl.sessionOf node p∈v.server.authenticatedSessions then
        v.server.candidatesForPeer (cl.name node.other)
      else v.server.candidatesForPeer (cl.name node.other)++[v.server.candidate x] with hdef
    have hall : ∀d∈candidates,∃c∈cl.connections,d=cl.candidate node c := by
      intro d hd
      rw [hdef] at hd
      split at hd
      · exact h.mem_candidatesForPeer rfl rfl hd
      · rcases mem_append.mp hd with hd | hd
        · exact h.mem_candidatesForPeer rfl rfl hd
        · exact ⟨p,hp.1,(List.mem_singleton.mp hd).trans hca⟩
    have hin : cl.candidate node p∈candidates := by
      rw [hdef]
      split
      next ha =>
        exact NodeServerState.mem_candidatesForPeer.mpr ⟨x,hx,hna,hid ▸ ha,hca⟩
      next => simp [hca]
    rw [if_pos ((hp.mem_electSessions hall hin).mpr rfl)]
    split <;> rfl
  unfold checkSession
  match hm : v.server.matchingSessions (cl.nameMessage node p) with
  | [] =>
    rw [hm] at hma
    cases hma
  | [a] =>
    rw [hm,List.mem_singleton] at hma
    subst hma
    exact hr
  | _::_::_ => rfl

theorem Sound.checkSession (hpe : v.pending c=some (.checkSession::rest)) :
    Sound cl p node (cl.handleRequest node c rest v .checkSession) := by
  simp only [handleRequest]
  split
  next => exact h.advance hpe (by simp) (suffix_refl rest)
  next hr =>
    have hpc : p≠c := by
      rintro rfl
      exact hr (h.continues hp hpe)
    have hs:=h.advance hpe (by simp) (nil_suffix (l:=rest))
    exact {hs with spared:=⟨by simpa [update_of_ne hpc] using h.spared.1,h.spared.2⟩}

/-- Once the preferred connection takes part, the losers of an election are the other ones. -/
theorem Sound.mem_losers (hs : v.server.commitAuthenticated b=some (election,server))
    (hmem : cl.sessionOf node p∈(v.server.authenticate b).authenticatedSessions)
    (ha : a∈(v.server.authenticate b).authenticatedSessions) :
    a∈election.losers ↔ a≠cl.sessionOf node p := by
  obtain ⟨peerName,hn,hl,-⟩:=commitAuthenticated_eq_some hs
  obtain rfl : peerName=cl.name node.other := by
    obtain ⟨x,hx,-,hn⟩:=h.wellKept.peerName?_eq_some_iff.mp hn
    exact (h.named x hx peerName hn).1
  obtain ⟨x,hx,hid,hxn⟩:=h.session_of_commit hs hmem
  obtain ⟨-,d,hd,hc⟩:=h.named x hx _ hxn
  have hdp : cl.sessionOf node d=cl.sessionOf node p := (congrArg (·.actorId) hc).symm.trans hid
  rw [cl.sessions_distinct node d hd p hp.1 hdp] at hc
  have hin : cl.candidate node p ∈
      (v.server.authenticate b).candidatesForPeer (cl.name node.other) :=
    NodeServerState.mem_candidatesForPeer.mpr ⟨x,hx,hxn,hid.symm ▸ hmem,hc⟩
  have hel {a : ℕ} :
      a∈electSessions v.server.thisNodeName (cl.name node.other)
        ((v.server.authenticate b).candidatesForPeer (cl.name node.other)) ↔
      a=cl.sessionOf node p := by
    rw [h.thisNodeName]
    refine hp.mem_electSessions (fun d hd => ?_) hin
    exact h.mem_candidatesForPeer (s:=v.server.authenticate b) rfl rfl hd
  rw [hl,NodeServerState.mem_losers]
  constructor
  · rintro ⟨y,hy,-,-,hout,rfl⟩ he
    exact hout (hel.mpr he)
  · intro hne
    obtain ⟨y,hy,hyid,hyn⟩:=h.session_of_commit hs ha
    exact ⟨y,hy,hyid.symm ▸ ha,hyn,fun hin => hne (hyid ▸ hel.mp hin),hyid⟩

/-- Once the preferred connection takes part, an election leaves it alone. -/
theorem Sound.authenticated_commit (hs : v.server.commitAuthenticated b=some (election,server))
    (hmem : cl.sessionOf node p∈(v.server.authenticate b).authenticatedSessions) :
    server.authenticatedSessions={cl.sessionOf node p} := by
  have hlo {a : ℕ} (ha : a∈(v.server.authenticate b).authenticatedSessions) :
      a∈election.losers ↔ a≠cl.sessionOf node p:=h.mem_losers hp hs hmem ha
  obtain ⟨-,-,-,rfl⟩:=commitAuthenticated_eq_some hs
  ext a
  rw [Finset.mem_sdiff,List.mem_toFinset,Finset.mem_singleton]
  constructor
  · rintro ⟨ha,hnot⟩
    by_contra hne
    exact hnot ((hlo ha).mpr hne)
  · rintro rfl
    exact ⟨hmem,fun hl => (hlo hmem).mp hl rfl⟩

theorem Sound.notMem_losers (hs : v.server.commitAuthenticated b=some (election,server)) :
    cl.sessionOf node p∉election.losers := by
  intro hlo
  have hmem : cl.sessionOf node p∈(v.server.authenticate b).authenticatedSessions := by
    obtain ⟨_,-,hl,-⟩:=commitAuthenticated_eq_some hs
    rw [hl,NodeServerState.mem_losers] at hlo
    obtain ⟨x,-,ha,-,-,hid⟩:=hlo
    exact hid ▸ ha
  exact (h.mem_losers hp hs hmem hmem).mp hlo rfl

theorem Sound.connectionAuthenticated (hpe : v.pending c=some (.connectionAuthenticated::rest)) :
    Sound cl p node (cl.handleRequest node c rest v .connectionAuthenticated) := by
  have hs:=h.advance hpe (by simp) (suffix_refl rest)
  simp only [handleRequest]
  split
  next => exact hs
  next election server hc =>
    obtain ⟨-,-,-,hse⟩:=commitAuthenticated_eq_some hc
    refine {hs with
      wellKept:=h.wellKept.commitAuthenticated hc
      thisNodeName:=by rw [hse]; exact h.thisNodeName
      opened:=by rw [hse]; exact hs.opened
      named:=by rw [hse]; exact hs.named
      present:=by rw [hse]; exact hs.present
      spared:=⟨h.spared.1,?_⟩
      committed:=fun hd => ?_}
    · simp only [h.spared.2,Bool.false_or,contains_eq_mem,decide_eq_false_iff_not]
      exact h.notMem_losers hp hc
    · refine h.authenticated_commit hp hc ?_
      by_cases hpc : p=c
      · exact hpc ▸ mem_insert_self _ _
      · simp only [update_of_ne hpc] at hd
        refine mem_insert_of_mem ?_
        rw [h.committed hd]
        exact Finset.mem_singleton_self _

theorem Sound.handleRequest (hc : c∈cl.connections) (hpe : v.pending c=some (request::rest)) :
    Sound cl p node (cl.handleRequest node c rest v request) := by
  cases request with
  | updateSession => exact h.updateSession hc hpe
  | checkSession => exact h.checkSession hp hpe
  | connectionAuthenticated => exact h.connectionAuthenticated hp hpe

end

/-! ### Agreement -/

theorem Sound.step {s s' : Node→ElectingNode Name} {label : ClusterStep}
    (hp : cl.IsPreferred p) (h : ∀node,Sound cl p node (s node)) (hs : cl.Step s label s') :
    ∀node,Sound cl p node (s' node) := by
  have hu {node : Node} {v : ElectingNode Name} (hv : Sound cl p node v) (n : Node) :
      Sound cl p n (update s node v n) := by
    by_cases hn : n=node
    · subst hn
      rwa [update_self]
    · rw [update_of_ne hn]
      exact h n
  cases hs with
  | opened node c hc hnew => exact hu ((h node).openConnection hc hnew)
  | request node c request rest hc hpe => exact hu ((h node).handleRequest hp hc hpe)
  | terminated node c hc he =>
    refine hu ((h node).terminated hp.1 hc ?_)
    rintro rfl
    -- neither end has taken the preferred connection down
    rcases he with ⟨n,hr | hst⟩ | hnot
    · simp [(h n).spared.1] at hr
    · simp [(h n).spared.2] at hst
    · exact hnot hp

/-- At either node, the preferred connection is never refused by a check and never among the
losers of an election; once a node has committed it, it is the only authenticated session there. -/
theorem preferred_connection_survives (cl : Cluster Name) {p : PhysicalConnection}
    (hp : cl.IsPreferred p) {s : Node → ElectingNode Name} (h : Reachable cl.Initial cl.Step s) :
    ∀node,(s node).refused p=false ∧ (s node).stopped p=false ∧ ((s node).committed p=true →
        (s node).server.authenticatedSessions={cl.sessionOf node p}) := by
  have hsound : ∀node,Sound cl p node (s node) := by
    refine h.invariant (P:=fun t : Node→ElectingNode Name => ∀node,Sound cl p node (t node))
      ?_ fun _ _ _ hs hstep => Sound.step hp hs hstep
    rintro t rfl node
    exact Sound.initial
  intro node
  exact ⟨(hsound node).spared.1,(hsound node).spared.2,(hsound node).committed⟩

def crossed : Cluster ℕ where
  name | .first => 0 | .second => 1
  connections:=[⟨5,.first⟩,⟨7,.second⟩]
  sessionOf _ c:=c.connectionId
  names_differ := by decide
  ids_nonzero := by decide
  ids_distinct := by decide
  sessions_distinct := by
    intro node
    decide

/-- The first node has committed the connection that it opened itself; the preferred one, which it
accepts after that, takes its place. -/
theorem preferred_connection_survives_crossed :
    ∃s : Node→ElectingNode ℕ,Reachable crossed.Initial crossed.Step s ∧
      (s .first).committed ⟨5,.first⟩=true ∧ (s .first).stopped ⟨5,.first⟩=true ∧
      (s .first).committed ⟨7,.second⟩=true ∧ (s .first).stopped ⟨7,.second⟩=false ∧
      (s .first).server.authenticatedSessions={7} := by
  have hc : (⟨5,.first⟩ : PhysicalConnection)∈crossed.connections := by decide
  have hd : (⟨7,.second⟩ : PhysicalConnection)∈crossed.connections := by decide
  have h₀ : Reachable crossed.Initial crossed.Step _:=.start rfl
  have h₁:=h₀.next (Step.opened _ .first ⟨5,.first⟩ hc rfl)
  have h₂:=h₁.next (Step.request _ .first ⟨5,.first⟩ .updateSession
    [.connectionAuthenticated,.checkSession] hc rfl)
  have h₃:=h₂.next (Step.request _ .first ⟨5,.first⟩ .connectionAuthenticated [.checkSession] hc
    rfl)
  have h₄:=h₃.next (Step.opened _ .first ⟨7,.second⟩ hd rfl)
  have h₅:=h₄.next (Step.request _ .first ⟨7,.second⟩ .updateSession
    [.checkSession,.connectionAuthenticated,.checkSession] hd rfl)
  have h₆:=h₅.next (Step.request _ .first ⟨7,.second⟩ .checkSession
    [.connectionAuthenticated,.checkSession] hd rfl)
  have h₇:=h₆.next (Step.request _ .first ⟨7,.second⟩ .connectionAuthenticated
    [.checkSession] hd rfl)
  have hp : crossed.IsPreferred ⟨7,.second⟩ := by decide
  obtain ⟨-,hstopped,hcommitted⟩:=preferred_connection_survives crossed hp h₇ .first
  exact ⟨_,h₇,rfl,rfl,rfl,hstopped,hcommitted rfl⟩

end Cluster
end Ractor
