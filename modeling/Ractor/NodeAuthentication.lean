import Ractor.NodeServerSessions

/-!
# The authentication of a node session

Client and server each run a state machine that computes the next state from a message. What is
sent on a transition is decided by `handle_auth`, and what follows once the peer is authenticated
by `handle`. The digest of a challenge under the cookie of the node is a parameter, and so is what
cannot be computed: the challenge that a session draws when it needs one, and the reply to the
`CheckSession` call that it makes, if it makes one and the call succeeds.

Of the control messages only `Ready` is modelled. A `stop` takes effect before the next message.
-/

namespace Ractor

structure PeerIdentity (Name : Type) where
  name : Name
  connectionString : Name
  deriving DecidableEq, Repr

inductive ServerStatus where
  | ok | okSimultaneous | notOk | notAllowed | alive
  deriving DecidableEq, Repr

def SessionCheckReply.toStatus : SessionCheckReply → ServerStatus
  | .noOtherConnection => .ok
  | .thisConnectionContinues => .okSimultaneous
  | .otherConnectionContinues => .notOk
  | .duplicateConnection => .alive

inductive AuthenticationMessage (Name Challenge Digest : Type) where
  | name (peer : PeerIdentity Name)
  | serverStatus (status : ServerStatus)
  | clientStatus (status : Bool)
  | serverChallenge (peer : PeerIdentity Name) (challenge : Challenge)
  | clientChallenge (digest : Digest) (challenge : Challenge)
  | serverAck (digest : Digest)
  deriving DecidableEq, Repr

inductive ServerAuthenticationProcess (Name Challenge Digest : Type) where
  | waitingOnPeerName
  | havePeerName (peer : PeerIdentity Name)
  | waitingOnClientStatus
  | waitingOnClientChallengeReply (challenge : Challenge) (digest : Digest)
  | ok (digest : Digest)
  | close
  deriving DecidableEq, Repr

inductive ClientAuthenticationProcess (Name Challenge Digest : Type) where
  | waitingForServerStatus
  | waitingForServerChallenge (status : ServerStatus)
  | waitingForServerChallengeAck (peer : PeerIdentity Name) (challenge : Challenge)
      (serverDigest : Digest) (ours : Challenge) (expected : Digest)
  | ok
  | close
  deriving DecidableEq, Repr

inductive AuthenticationState (Name Challenge Digest : Type) where
  | asClient (client : ClientAuthenticationProcess Name Challenge Digest)
  | asServer (server : ServerAuthenticationProcess Name Challenge Digest)
  deriving DecidableEq, Repr

inductive ReadyState where
  | open | syncSent | syncReceived | ready
  deriving DecidableEq, Repr

inductive NetworkMessage (Name Challenge Digest : Type) where
  | auth (msg : Option (AuthenticationMessage Name Challenge Digest))
  | ready
  deriving DecidableEq, Repr

/-- `NodeSessionState`. A session is `stopped` when it has been asked to stop, and `crashed` when
it has executed the `unreachable!` of `after_authenticated`. -/
structure NodeSessionState (Name Challenge Digest : Type) where
  auth : AuthenticationState Name Challenge Digest
  ready : ReadyState:=.open
  name : Option (PeerIdentity Name):=none
  stopped : Bool:=false
  crashed : Bool:=false
  deriving DecidableEq, Repr

section
variable {Name Challenge Digest : Type}

namespace ServerAuthenticationProcess
variable (digest : Challenge→Digest) (drawn : Challenge)

def startChallenge :
    ServerAuthenticationProcess Name Challenge Digest →
      ServerAuthenticationProcess Name Challenge Digest
  | .waitingOnClientStatus | .havePeerName _ => .waitingOnClientChallengeReply drawn (digest drawn)
  | _ => .close

/-- An empty message and a message out of order close the session. -/
def next [DecidableEq Digest] (server : ServerAuthenticationProcess Name Challenge Digest)
    (msg : Option (AuthenticationMessage Name Challenge Digest)) :
    ServerAuthenticationProcess Name Challenge Digest :=
  match msg,server with
  | some (.name peer),.waitingOnPeerName => .havePeerName peer
  | some (.clientStatus status),.waitingOnClientStatus =>
    if status then server.startChallenge digest drawn else .close
  | some (.clientChallenge reply challenge),.waitingOnClientChallengeReply _ expected =>
    if expected=reply then .ok (digest challenge) else .close
  | _,_ => .close

theorem next_clientChallenge [DecidableEq Digest] (challenge ours : Challenge) (expected : Digest) :
    (waitingOnClientChallengeReply challenge expected :
        ServerAuthenticationProcess Name Challenge Digest).next digest drawn
      (some (.clientChallenge expected ours))=.ok (digest ours):=if_pos rfl

theorem next_havePeerName [DecidableEq Digest]
    {server : ServerAuthenticationProcess Name Challenge Digest}
    {msg : Option (AuthenticationMessage Name Challenge Digest)} {peer : PeerIdentity Name}
    (h : server.next digest drawn msg=.havePeerName peer) :
    server=.waitingOnPeerName ∧ msg=some (.name peer) := by
  unfold next at h
  split at h
  · cases h
    exact ⟨rfl,rfl⟩
  · split at h <;> cases h
  · split at h <;> cases h
  · cases h

theorem next_ne_waitingOnClientStatus [DecidableEq Digest]
    (server : ServerAuthenticationProcess Name Challenge Digest)
    (msg : Option (AuthenticationMessage Name Challenge Digest)) :
    server.next digest drawn msg≠.waitingOnClientStatus := by
  unfold next
  split
  · nofun
  · split <;> nofun
  · split <;> nofun
  · nofun

/-- The machine itself starts a challenge on the status of the client. -/
theorem next_waitingOnClientChallengeReply [DecidableEq Digest]
    {server : ServerAuthenticationProcess Name Challenge Digest}
    {msg : Option (AuthenticationMessage Name Challenge Digest)} {c : Challenge} {d : Digest}
    (h : server.next digest drawn msg=.waitingOnClientChallengeReply c d) :
    server=.waitingOnClientStatus := by
  unfold next at h
  split at h
  · cases h
  · rfl
  · split at h <;> cases h
  · cases h

end ServerAuthenticationProcess

/-- An empty message and a message out of order close the session. -/
def ClientAuthenticationProcess.next [DecidableEq Digest] (digest : Challenge → Digest)
    (drawn : Challenge) (client : ClientAuthenticationProcess Name Challenge Digest)
    (msg : Option (AuthenticationMessage Name Challenge Digest)) :
    ClientAuthenticationProcess Name Challenge Digest :=
  match msg,client with
  | some (.serverStatus status),.waitingForServerStatus => .waitingForServerChallenge status
  | some (.serverChallenge peer challenge),.waitingForServerChallenge _ =>
    .waitingForServerChallengeAck peer challenge (digest challenge) drawn (digest drawn)
  | some (.serverAck reply),.waitingForServerChallengeAck _ _ _ _ expected =>
    if expected=reply then .ok else .close
  | _,_ => .close

theorem ClientAuthenticationProcess.next_serverAck [DecidableEq Digest] (digest : Challenge→Digest)
    (drawn : Challenge) (peer : PeerIdentity Name) (challenge ours : Challenge)
    (serverDigest expected : Digest) :
    (waitingForServerChallengeAck peer challenge serverDigest ours expected :
        ClientAuthenticationProcess Name Challenge Digest).next digest drawn
      (some (.serverAck expected))=.ok:=if_pos rfl

namespace AuthenticationState

def isOk : AuthenticationState Name Challenge Digest → Bool
  | .asClient .ok | .asServer (.ok _) => true
  | _ => false

def isClose : AuthenticationState Name Challenge Digest → Bool
  | .asClient .close | .asServer .close => true
  | _ => false

end AuthenticationState

namespace NodeSessionState

def init (thisNode : PeerIdentity Name) (isServer : Bool) :
    NodeSessionState Name Challenge Digest × List (NetworkMessage Name Challenge Digest) :=
  if isServer then ({auth:=.asServer .waitingOnPeerName},[])
  else ({auth:=.asClient .waitingForServerStatus},[.auth (some (.name thisNode))])

/-- The next authentication state is stored; if it is `Close`, the session is asked to stop. -/
def setAuth (σ : NodeSessionState Name Challenge Digest)
    (auth : AuthenticationState Name Challenge Digest) : NodeSessionState Name Challenge Digest :=
  {σ with auth,stopped:=σ.stopped || auth.isClose}

section Handlers
variable [DecidableEq Digest] (digest : Challenge→Digest) (thisNode : PeerIdentity Name)
  (σ : NodeSessionState Name Challenge Digest)

def handleClientAuth (client : ClientAuthenticationProcess Name Challenge Digest)
    (msg : Option (AuthenticationMessage Name Challenge Digest)) (drawn : Challenge) :
    NodeSessionState Name Challenge Digest × List (NetworkMessage Name Challenge Digest) :=
  match client.next digest drawn msg with
  | .waitingForServerChallenge status =>
    match status with
    | .ok | .okSimultaneous => (σ.setAuth (.asClient (.waitingForServerChallenge status)),[])
    | .notOk | .notAllowed => (σ.setAuth (.asClient .close),[])
    | .alive =>
      (σ.setAuth (.asClient (.waitingForServerChallenge status)),
        [.auth (some (.clientStatus true))])
  | .waitingForServerChallengeAck peer challenge serverDigest ours expected =>
    ({σ with name:=some peer}.setAuth
        (.asClient (.waitingForServerChallengeAck peer challenge serverDigest ours expected)),
      [.auth (some (.clientChallenge serverDigest ours))])
  | next => (σ.setAuth (.asClient next),[])

def handleServerAuth (server : ServerAuthenticationProcess Name Challenge Digest)
    (msg : Option (AuthenticationMessage Name Challenge Digest)) (reply : Option SessionCheckReply)
    (drawn : Challenge) :
    NodeSessionState Name Challenge Digest × List (NetworkMessage Name Challenge Digest) :=
  match server.next digest drawn msg with
  | .havePeerName peer =>
    let σ := {σ with name:=some peer}
    match reply with
    | none => (σ.setAuth (.asServer .close),[])
    | some reply =>
      let statusMsg := .auth (some (.serverStatus reply.toStatus))
      match reply.toStatus with
      | .ok | .okSimultaneous =>
        let next := (ServerAuthenticationProcess.havePeerName peer).startChallenge digest drawn
        (σ.setAuth (.asServer next),
          match next with
          | .waitingOnClientChallengeReply challenge _ =>
            [statusMsg,.auth (some (.serverChallenge thisNode challenge))]
          | _ => [statusMsg])
      | .notOk | .notAllowed => (σ.setAuth (.asServer .close),[statusMsg])
      | .alive => (σ.setAuth (.asServer .waitingOnClientStatus),[statusMsg])
  | .ok reply => (σ.setAuth (.asServer (.ok reply)),[.auth (some (.serverAck reply))])
  | next => (σ.setAuth (.asServer next),[])

def handleAuth (msg : Option (AuthenticationMessage Name Challenge Digest))
    (reply : Option SessionCheckReply) (drawn : Challenge) :
    NodeSessionState Name Challenge Digest × List (NetworkMessage Name Challenge Digest) :=
  if σ.auth.isOk then (σ,[])
  else
    let σ := {σ with stopped:=σ.stopped || σ.auth.isClose}
    match σ.auth with
    | .asClient client => σ.handleClientAuth digest client msg drawn
    | .asServer server => σ.handleServerAuth digest thisNode server msg reply drawn

/-- `after_authenticated`, which is to run once. -/
def afterAuthenticated : NodeSessionState Name Challenge Digest :=
  match σ.ready with
  | .open => {σ with ready:=.syncSent}
  | .syncReceived => {σ with ready:=.ready}
  | .syncSent | .ready => {σ with crashed:=true}

def handleReady : NodeSessionState Name Challenge Digest :=
  if σ.auth.isOk then
    match σ.ready with
    | .open => {σ with ready:=.syncReceived}
    | .syncSent => {σ with ready:=.ready}
    | .syncReceived | .ready => σ
  else σ

/-- A session with the node itself is noticed once the name of the peer is known. -/
def isSelfConnection [DecidableEq Name] (σ : NodeSessionState Name Challenge Digest) : Bool :=
  σ.name.any fun peer =>
    thisNode.connectionString=peer.connectionString || thisNode.name=peer.name

/-- What `handle` does with a message from the network, and what it sends. -/
def handle [DecidableEq Name] (σ : NodeSessionState Name Challenge Digest)
    (message : NetworkMessage Name Challenge Digest) (reply : Option SessionCheckReply)
    (drawn : Challenge) :
    NodeSessionState Name Challenge Digest × List (NetworkMessage Name Challenge Digest) :=
  if σ.isSelfConnection thisNode then ({σ with stopped:=true},[])
  else
    match message with
    | .auth msg =>
      let (σ',sent) := σ.handleAuth digest thisNode msg reply drawn
      if !σ.auth.isOk && σ'.auth.isOk then
        let elected := σ'.name.isSome && reply.any (·.continues)
        if elected then (σ'.afterAuthenticated,sent++[.ready])
        else ({σ' with stopped:=true},sent)
      else (σ',sent)
    | .ready => (σ.handleReady,[])

end Handlers
end NodeSessionState
end
end Ractor
