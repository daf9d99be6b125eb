import Ractor.NodeAuthentication
import Ractor.ReachableRuns

/-!
# The handshake between a client and a server session

Two sessions with the same cookie are joined by a reliable link in each direction. Messages are
delivered one at a time, in any interleaving of the two directions, and every `CheckSession` call
may be answered in any way or fail. A session that has been asked to stop reads what still arrives
and does nothing with it.

If the server is told that a connection is already alive, it asks the client for its status, and
then goes on to wait for the answer to a challenge that it does not send.
-/

namespace Ractor
open NodeSessionState ServerAuthenticationProcess List

/-- The two nodes, and the digest under their common cookie. -/
structure HandshakeParties (Name Challenge Digest : Type) where
  digest : Challenge → Digest
  clientNode : PeerIdentity Name
  serverNode : PeerIdentity Name
  names_differ : clientNode.name≠serverNode.name
  strings_differ : clientNode.connectionString≠serverNode.connectionString

structure Handshake (Name Challenge Digest : Type) where
  client : NodeSessionState Name Challenge Digest
  server : NodeSessionState Name Challenge Digest
  toServer : List (NetworkMessage Name Challenge Digest)
  toClient : List (NetworkMessage Name Challenge Digest)
  /-- The challenges that the server has sent. -/
  challenges : List Challenge:=[]
  deriving DecidableEq, Repr

/-- A delivery, with the reply to the check that it leads to and the challenge that it draws. -/
inductive HandshakeStep (Challenge : Type) where
  | toServer (reply : Option SessionCheckReply) (drawn : Challenge)
  | toClient (reply : Option SessionCheckReply) (drawn : Challenge)
  deriving DecidableEq, Repr

variable {Name Challenge Digest : Type}

def NetworkMessage.challenge? : NetworkMessage Name Challenge Digest → Option Challenge
  | .auth (some (.serverChallenge _ challenge)) => some challenge
  | _ => none

variable {σ : NodeSessionState Name Challenge Digest} {label : HandshakeStep Challenge}

namespace Handshake
variable [DecidableEq Name] [DecidableEq Digest] (parties : HandshakeParties Name Challenge Digest)
  (s : Handshake Name Challenge Digest) (message : NetworkMessage Name Challenge Digest)
  (rest : List (NetworkMessage Name Challenge Digest))

def deliverToServer (reply : Option SessionCheckReply) (drawn : Challenge) :
    Handshake Name Challenge Digest :=
  if s.server.stopped then {s with toServer:=rest}
  else
    let (server,sent) := s.server.handle parties.digest parties.serverNode message reply drawn
    { s with
      server
      toServer:=rest
      toClient:=s.toClient++sent
      challenges:=s.challenges++sent.filterMap (·.challenge?) }

def deliverToClient (reply : Option SessionCheckReply) (drawn : Challenge) :
    Handshake Name Challenge Digest :=
  if s.client.stopped then {s with toClient:=rest}
  else
    let (client,sent) := s.client.handle parties.digest parties.clientNode message reply drawn
    {s with client,toClient:=rest,toServer:=s.toServer++sent}

def step : HandshakeStep Challenge → Option (Handshake Name Challenge Digest)
  | .toServer reply drawn =>
    match s.toServer with
    | [] => none
    | message::rest => some (s.deliverToServer parties message rest reply drawn)
  | .toClient reply drawn =>
    match s.toClient with
    | [] => none
    | message::rest => some (s.deliverToClient parties message rest reply drawn)

def Step (label : HandshakeStep Challenge) (s' : Handshake Name Challenge Digest) : Prop :=
  s.step parties label=some s'

def start : Handshake Name Challenge Digest :=
  let (client,toServer) := init parties.clientNode false
  let (server,toClient) := init parties.serverNode true
  {client,server,toServer,toClient}

def Initial : Prop:=s=start parties

/-- The check that the server makes on the name of the client does not find a duplicate. -/
def NotDuplicate : HandshakeStep Challenge → Prop
  | .toServer reply _ =>
    s.server.auth=.asServer .waitingOnPeerName → reply≠some .duplicateConnection
  | .toClient _ _ => True

omit [DecidableEq Name] [DecidableEq Digest] in
/-- The server session reports the name to its node server before the check, and `check_session`
finds the report. -/
theorem notDuplicate_of_registered [LinearOrder Name] {node : NodeServerState Name}
    {session : NodeServerSession Name} (h : session∈node.nodeSessions) (name : NameMessage Name)
    {events : List (NodeServerEvent Name)}
    (hothers : ∀event∈events,event.session≠session.actorId) (drawn : Challenge) :
    s.NotDuplicate (.toServer (some ((events.foldl NodeServerState.handle
      (node.registerSession session.actorId name)).checkSession name)) drawn) := by
  intro _ hduplicate
  exact NodeServerState.checkSession_of_registered h name hothers (Option.some_inj.mp hduplicate)

/-! ### The phases of a handshake -/

/-- How far two sessions have come that neither has been asked to stop. -/
inductive Phase (parties : HandshakeParties Name Challenge Digest) :
    Handshake Name Challenge Digest→Prop where
  | named (sent) :
      Phase parties
        { client:={auth:=.asClient .waitingForServerStatus}
          server:={auth:=.asServer .waitingOnPeerName}
          toServer:=[.auth (some (.name parties.clientNode))]
          toClient:=[]
          challenges:=sent }
  | challenged (c status sent) (hstatus : status=.ok ∨ status=.okSimultaneous) :
      Phase parties
        { client:={auth:=.asClient .waitingForServerStatus}
          server :=
            { auth:=.asServer (.waitingOnClientChallengeReply c (parties.digest c))
              name:=some parties.clientNode }
          toServer:=[]
          toClient:=[.auth (some (.serverStatus status)),
            .auth (some (.serverChallenge parties.serverNode c))]
          challenges:=sent }
  | admitted (c status sent) :
      Phase parties
        { client:={auth:=.asClient (.waitingForServerChallenge status)}
          server :=
            { auth:=.asServer (.waitingOnClientChallengeReply c (parties.digest c))
              name:=some parties.clientNode }
          toServer:=[]
          toClient:=[.auth (some (.serverChallenge parties.serverNode c))]
          challenges:=sent }
  | answered (c ours sent) :
      Phase parties
        { client :=
            { auth:=.asClient (.waitingForServerChallengeAck parties.serverNode c
                (parties.digest c) ours (parties.digest ours))
              name:=some parties.serverNode }
          server :=
            { auth:=.asServer (.waitingOnClientChallengeReply c (parties.digest c))
              name:=some parties.clientNode }
          toServer:=[.auth (some (.clientChallenge (parties.digest c) ours))]
          toClient:=[]
          challenges:=sent }
  | acknowledged (c ours sent) :
      Phase parties
        { client :=
            { auth:=.asClient (.waitingForServerChallengeAck parties.serverNode c
                (parties.digest c) ours (parties.digest ours))
              name:=some parties.serverNode }
          server :=
            { auth:=.asServer (.ok (parties.digest ours))
              ready:=.syncSent
              name:=some parties.clientNode }
          toServer:=[]
          toClient:=[.auth (some (.serverAck (parties.digest ours))),.ready]
          challenges:=sent }
  | authenticated (d clientReady serverReady toServer toClient sent)
      (hserver : serverReady=.syncSent ∧ toServer=[.ready] ∨
        serverReady=.ready ∧ toServer=[])
      (hclient : clientReady=.syncSent ∧ toClient=[.ready] ∨
        clientReady=.ready ∧ toClient=[]) :
      Phase parties
        { client:={auth:=.asClient .ok,ready:=clientReady,name:=some parties.serverNode}
          server:={auth:=.asServer (.ok d),ready:=serverReady,name:=some parties.clientNode}
          toServer,toClient
          challenges:=sent }

def Stopped : Prop :=
  s.client.stopped=true ∨ s.server.stopped=true

variable {parties} {s} {s' : Handshake Name Challenge Digest} {reply : Option SessionCheckReply}
  {drawn : Challenge}

omit [DecidableEq Digest] in
theorem client_not_self (h : σ.name=none ∨ σ.name=some parties.serverNode) :
    σ.isSelfConnection parties.clientNode=false := by
  rcases h with h | h <;> simp [isSelfConnection,h,parties.names_differ,parties.strings_differ]

omit [DecidableEq Digest] in
theorem server_not_self (h : σ.name=none ∨ σ.name=some parties.clientNode) :
    σ.isSelfConnection parties.serverNode=false := by
  rcases h with h | h <;> simp [isSelfConnection,h,parties.names_differ.symm,
      parties.strings_differ.symm]

theorem Phase.step (h : Phase parties s) (hg : s.NotDuplicate label) (hs : s.Step parties label s') :
    Phase parties s' ∨ s'.Stopped := by
  cases h with
  | named sent =>
    cases label with
    | toClient => cases hs
    | toServer reply drawn =>
      cases hs
      have hr:=hg rfl
      rw [deliverToServer,NodeSessionState.handle,server_not_self (.inl rfl)]
      match reply with
      | none => exact .inr (.inr rfl)
      | some .noOtherConnection => exact .inl (.challenged drawn .ok _ (.inl rfl))
      | some .thisConnectionContinues =>
        exact .inl (.challenged drawn .okSimultaneous _ (.inr rfl))
      | some .otherConnectionContinues => exact .inr (.inr rfl)
      | some .duplicateConnection => exact absurd rfl hr
  | challenged c status sent hst =>
    cases label with
    | toServer => cases hs
    | toClient reply drawn =>
      cases hs
      rcases hst with rfl | rfl
      · exact .inl (.admitted c .ok sent)
      · exact .inl (.admitted c .okSimultaneous sent)
  | admitted c status sent =>
    cases label with
    | toServer => cases hs
    | toClient reply drawn =>
      cases hs
      exact .inl (.answered c drawn sent)
  | answered c ours sent =>
    cases label with
    | toClient => cases hs
    | toServer reply drawn =>
      cases hs
      rw [deliverToServer,NodeSessionState.handle,server_not_self (.inr rfl)]
      simp only [handleAuth,handleServerAuth,next_clientChallenge]
      cases he : reply.any (·.continues) with
      | false => exact .inr (.inr rfl)
      | true => exact .inl (.acknowledged c ours _)
  | acknowledged c ours sent =>
    cases label with
    | toServer => cases hs
    | toClient reply drawn =>
      cases hs
      rw [deliverToClient,NodeSessionState.handle,client_not_self (.inr rfl)]
      simp only [handleAuth,handleClientAuth,ClientAuthenticationProcess.next_serverAck]
      cases he : reply.any (·.continues) with
      | false => exact .inr (.inl rfl)
      | true =>
        exact .inl (.authenticated _ .syncSent .syncSent _ _ sent (.inl ⟨rfl,rfl⟩) (.inl ⟨rfl,rfl⟩))
  | authenticated d clientReady serverReady toServer toClient sent hse hc =>
    cases label with
    | toServer reply drawn =>
      rcases hse with ⟨rfl,rfl⟩ | ⟨rfl,rfl⟩
      · cases hs
        rw [deliverToServer,NodeSessionState.handle,server_not_self (.inr rfl)]
        exact .inl (.authenticated d clientReady .ready [] _ _ (.inr ⟨rfl,rfl⟩) (by simpa using hc))
      · cases hs
    | toClient reply drawn =>
      rcases hc with ⟨rfl,rfl⟩ | ⟨rfl,rfl⟩
      · cases hs
        rw [deliverToClient,NodeSessionState.handle,client_not_self (.inr rfl)]
        exact .inl (.authenticated d .ready serverReady _ [] _ (by simpa using hse)
          (.inr ⟨rfl,rfl⟩))
      · cases hs

theorem Step.elim {motive : Handshake Name Challenge Digest→Prop} (hs : s.Step parties label s')
    (toServer : ∀message rest reply drawn,label=.toServer reply drawn →
      s.toServer=message::rest→motive (s.deliverToServer parties message rest reply drawn))
    (toClient : ∀message rest reply drawn,label=.toClient reply drawn →
      s.toClient=message::rest→motive (s.deliverToClient parties message rest reply drawn)) :
    motive s' := by
  cases label with
  | toServer reply drawn =>
    simp only [Step,step] at hs
    split at hs
    next => cases hs
    next message rest hl =>
      cases hs
      exact toServer message rest reply drawn rfl hl
  | toClient reply drawn =>
    simp only [Step,step] at hs
    split at hs
    next => cases hs
    next message rest hl =>
      cases hs
      exact toClient message rest reply drawn rfl hl

theorem Stopped.kept (h : s.Stopped) (hs : s.Step parties label s') : s'.Stopped := by
  refine hs.elim (fun message rest reply drawn _ _ => ?_) fun message rest reply drawn _ _ => ?_
  · unfold deliverToServer
    split
    next => exact h
    next hl => exact .inl (h.resolve_right hl)
  · unfold deliverToClient
    split
    next => exact h
    next hl => exact .inr (h.resolve_left hl)

end Handshake

/-! ### What a session does by itself -/

namespace NodeSessionState
variable [DecidableEq Digest]

/-- The exchange of `Ready` messages begins with the authentication, and `after_authenticated` has
not run twice. -/
structure Orderly (σ : NodeSessionState Name Challenge Digest) : Prop where
  ready : σ.auth.isOk=false → σ.ready=.open
  crashed : σ.crashed=false

variable {digest : Challenge→Digest} {thisNode : PeerIdentity Name}
  {client : ClientAuthenticationProcess Name Challenge Digest}
  {msg : Option (AuthenticationMessage Name Challenge Digest)}
  {message : NetworkMessage Name Challenge Digest}
  {server : ServerAuthenticationProcess Name Challenge Digest} {reply : Option SessionCheckReply}
  {drawn : Challenge}

theorem handleAuth_of_ok (hok : σ.auth.isOk=true) :
    σ.handleAuth digest thisNode msg reply drawn=(σ,[]):=if_pos hok

theorem handleAuth_of_server (ha : σ.auth=.asServer server) (hok : σ.auth.isOk=false) :
    σ.handleAuth digest thisNode msg reply drawn =
      {σ with stopped:=σ.stopped || σ.auth.isClose}.handleServerAuth digest thisNode server msg
        reply drawn := by
  rw [handleAuth,if_neg (by simp [hok])]
  simp only [ha]

theorem handleAuth_of_client (ha : σ.auth=.asClient client) (hok : σ.auth.isOk=false) :
    σ.handleAuth digest thisNode msg reply drawn =
      {σ with stopped:=σ.stopped || σ.auth.isClose}.handleClientAuth digest client msg drawn := by
  rw [handleAuth,if_neg (by simp [hok])]
  simp only [ha]

section Frames
variable (σ digest thisNode client msg message server reply drawn)

theorem handleClientAuth_frame :
    (σ.handleClientAuth digest client msg drawn).1.ready=σ.ready ∧
      (σ.handleClientAuth digest client msg drawn).1.crashed=σ.crashed := by
  unfold handleClientAuth
  split
  · split <;> exact ⟨rfl,rfl⟩
  · exact ⟨rfl,rfl⟩
  · exact ⟨rfl,rfl⟩

theorem handleServerAuth_frame :
    (σ.handleServerAuth digest thisNode server msg reply drawn).1.ready=σ.ready ∧
      (σ.handleServerAuth digest thisNode server msg reply drawn).1.crashed=σ.crashed := by
  unfold handleServerAuth
  split
  · split
    · exact ⟨rfl,rfl⟩
    · dsimp only
      split <;> exact ⟨rfl,rfl⟩
  · exact ⟨rfl,rfl⟩
  · exact ⟨rfl,rfl⟩

theorem handleAuth_frame :
    (σ.handleAuth digest thisNode msg reply drawn).1.ready=σ.ready ∧
      (σ.handleAuth digest thisNode msg reply drawn).1.crashed=σ.crashed := by
  unfold handleAuth
  split
  · exact ⟨rfl,rfl⟩
  · dsimp only
    split
    · exact handleClientAuth_frame ..
    · exact handleServerAuth_frame ..

theorem handleClientAuth_auth :
    ∃client',(σ.handleClientAuth digest client msg drawn).1.auth=.asClient client' := by
  unfold handleClientAuth
  split
  · split <;> exact ⟨_,rfl⟩
  · exact ⟨_,rfl⟩
  · exact ⟨_,rfl⟩

/-- The authentication changes in `handle_auth` alone; what is sent besides is `Ready`. -/
theorem handle_cases [DecidableEq Name] :
    (σ.handle digest thisNode message reply drawn).1.auth=σ.auth ∧
        (σ.handle digest thisNode message reply drawn).2=[] ∨
      ∃msg,message=.auth msg ∧ σ.auth.isOk=false ∧
        (σ.handle digest thisNode message reply drawn).1.auth =
          (σ.handleAuth digest thisNode msg reply drawn).1.auth ∧
        ∃more,(∀m∈more,m=.ready) ∧ (σ.handle digest thisNode message reply drawn).2 =
            (σ.handleAuth digest thisNode msg reply drawn).2++more := by
  unfold NodeSessionState.handle
  split
  · exact .inl ⟨rfl,rfl⟩
  cases message with
  | ready =>
    left
    refine ⟨?_,rfl⟩
    dsimp only [handleReady]
    split
    · split <;> rfl
    · rfl
  | auth msg =>
    dsimp only
    cases hok : σ.auth.isOk with
    | true =>
      rw [handleAuth_of_ok hok]
      simp [hok]
    | false =>
      refine .inr ⟨msg,rfl,rfl,?_⟩
      split
      · split
        · refine ⟨?_,[.ready],by simp,rfl⟩
          unfold afterAuthenticated
          split <;> rfl
        · exact ⟨rfl,[],by simp,by simp⟩
      · exact ⟨rfl,[],by simp,by simp⟩

end Frames

theorem Orderly.handle [DecidableEq Name] (h : σ.Orderly) :
    (σ.handle digest thisNode message reply drawn).1.Orderly := by
  unfold NodeSessionState.handle
  split
  · exact ⟨h.ready,h.crashed⟩
  cases message with
  | ready =>
    dsimp only
    unfold handleReady
    split
    next hok =>
      split
      · exact ⟨fun hnot => absurd hok (by simp [hnot]),h.crashed⟩
      · exact ⟨fun hnot => absurd hok (by simp [hnot]),h.crashed⟩
      · exact h
      · exact h
    next => exact h
  | auth msg =>
    dsimp only
    cases hok : σ.auth.isOk with
    | true =>
      rw [handleAuth_of_ok hok]
      simpa [hok] using h
    | false =>
      obtain ⟨hr,hc⟩:=σ.handleAuth_frame digest thisNode msg reply drawn
      rw [h.ready hok] at hr
      rw [h.crashed] at hc
      generalize σ.handleAuth digest thisNode msg reply drawn=result at *
      split
      next hnow =>
        have hnow : result.1.auth.isOk=true := by simpa using hnow
        split
        · simp only [afterAuthenticated,hr]
          exact ⟨fun hnot => absurd hnow (by simp [hnot]),hc⟩
        · exact ⟨fun hnot => absurd hnow (by simp [hnot]),hc⟩
      next => exact ⟨fun _ => hr,hc⟩

/-- The server waits for the status of the client only when it was told of a duplicate. -/
theorem handleServerAuth_status (h : (σ.handleServerAuth digest thisNode server msg reply drawn).1.auth =
      .asServer .waitingOnClientStatus) :
    server=.waitingOnPeerName ∧ reply=some .duplicateConnection := by
  unfold handleServerAuth at h
  split at h
  next peer hn =>
    refine ⟨(next_havePeerName _ _ hn).1,?_⟩
    match reply with
    | none => cases h
    | some .duplicateConnection => rfl
    | some .noOtherConnection | some .thisConnectionContinues
    | some .otherConnectionContinues => cases h
  next => cases h
  next hn =>
    exact absurd (AuthenticationState.asServer.inj h) (next_ne_waitingOnClientStatus _ _ _ _)

/-- A server that begins to wait for the answer to a challenge sends it, unless it has waited for
the status of the client. -/
theorem handleServerAuth_challenge {c : Challenge} {d : Digest}
    (h : (σ.handleServerAuth digest thisNode server msg reply drawn).1.auth =
      .asServer (.waitingOnClientChallengeReply c d)) (hs : server≠.waitingOnClientStatus) :
    .auth (some (.serverChallenge thisNode c)) ∈
      (σ.handleServerAuth digest thisNode server msg reply drawn).2 := by
  unfold handleServerAuth at h ⊢
  split at h
  next peer hn =>
    match reply with
    | none => cases h
    | some .noOtherConnection | some .thisConnectionContinues =>
      cases h
      exact mem_cons_of_mem _ (mem_singleton_self _)
    | some .otherConnectionContinues | some .duplicateConnection => cases h
  next => cases h
  next hn =>
    have hn:=AuthenticationState.asServer.inj h
    exact absurd (next_waitingOnClientChallengeReply _ _ hn) hs

/-- A server in the middle of its authentication handles the message as a server. -/
theorem handle_server_cases [DecidableEq Name]
    (h : (σ.handle digest thisNode message reply drawn).1.auth=.asServer server) :
    σ.auth=.asServer server ∨ ∃(σ' : NodeSessionState Name Challenge Digest) (old : _) (msg : _),
      σ.auth=.asServer old ∧
      (σ'.handleServerAuth digest thisNode old msg reply drawn).1.auth=.asServer server ∧
      ∀m∈(σ'.handleServerAuth digest thisNode old msg reply drawn).2,
        m∈(σ.handle digest thisNode message reply drawn).2 := by
  obtain ⟨ha,-⟩ | ⟨msg,-,hok,ha,more,-,hs⟩ := σ.handle_cases digest thisNode message reply drawn
  · exact .inl (ha.symm.trans h)
  · rw [ha] at h
    rw [hs]
    cases hold : σ.auth with
    | asClient client =>
      rw [handleAuth_of_client hold hok] at h
      obtain ⟨client',hc⟩:=handleClientAuth_auth _ digest client msg drawn
      cases hc.symm.trans h
    | asServer old =>
      rw [handleAuth_of_server hold hok] at h ⊢
      exact .inr ⟨_,old,msg,rfl,h,fun m hm => mem_append_left _ hm⟩

end NodeSessionState

namespace Handshake
variable [DecidableEq Name] [DecidableEq Digest] {parties : HandshakeParties Name Challenge Digest}
  {s s' : Handshake Name Challenge Digest}

/-- What holds of the two sessions whether or not they have been asked to stop. -/
structure Sound (s : Handshake Name Challenge Digest) : Prop where
  client : s.client.Orderly
  server : s.server.Orderly
  status : s.server.auth≠.asServer .waitingOnClientStatus
  challenge : ∀c d,s.server.auth=.asServer (.waitingOnClientChallengeReply c d) →
    c∈s.challenges

theorem Sound.step (h : s.Sound) (hg : s.NotDuplicate label) (hs : s.Step parties label s') :
    s'.Sound := by
  refine hs.elim (fun message rest reply drawn hl _ => ?_) fun message rest reply drawn _ _ => ?_
  · subst hl
    unfold deliverToServer
    split
    next => exact ⟨h.client,h.server,h.status,h.challenge⟩
    next =>
      refine ⟨h.client,h.server.handle,fun hst => ?_,fun c d hc => ?_⟩
      · obtain hold | ⟨σ',old,msg,hold,hn,-⟩:=handle_server_cases hst
        · exact h.status hold
        · obtain ⟨rfl,rfl⟩:=handleServerAuth_status hn
          exact hg hold rfl
      · obtain hold | ⟨σ',old,msg,hold,hn,hse⟩:=handle_server_cases hc
        · exact mem_append_left _ (h.challenge c d hold)
        · have hold' : old≠.waitingOnClientStatus:=fun he => h.status (he ▸ hold)
          have hmem:=handleServerAuth_challenge hn hold'
          exact mem_append_right _ (mem_filterMap.mpr ⟨_,hse _ hmem,rfl⟩)
  · unfold deliverToClient
    split
    next => exact ⟨h.client,h.server,h.status,h.challenge⟩
    next => exact ⟨h.client.handle,h.server,h.status,h.challenge⟩

theorem reachable_sound (h : Reachable (Initial parties) (guarded NotDuplicate (Step parties)) s) :
    s.Sound ∧ (Phase parties s ∨ s.Stopped) := by
  refine h.invariant (P:=fun s => Sound s ∧ (Phase parties s ∨ s.Stopped)) ?_ ?_
  · rintro s rfl
    exact ⟨⟨⟨fun _ => rfl,rfl⟩,⟨fun _ => rfl,rfl⟩,nofun,nofun⟩,.inl (.named [])⟩
  · rintro s label s' ⟨hso,hph⟩ ⟨hg,hs⟩
    exact ⟨hso.step hg hs,hph.elim (fun hp => hp.step hg hs) fun hp => .inr (hp.kept hs)⟩

/-- As long as the server is not told of a duplicate connection: when no message is in flight, both
sessions are authenticated and ready or one of them has been asked to stop; a server that waits for
the answer to a challenge has sent it; and neither session runs `after_authenticated` twice. -/
theorem handshake_not_stuck (parties : HandshakeParties Name Challenge Digest)
    {s : Handshake Name Challenge Digest}
    (h : Reachable (Initial parties) (guarded NotDuplicate (Step parties)) s) :
    (s.toServer=[] → s.toClient=[] → (s.client.auth.isOk=true ∧ s.client.ready=.ready ∧
        s.server.auth.isOk=true ∧ s.server.ready=.ready) ∨
      s.client.stopped=true ∨ s.server.stopped=true) ∧
    (∀c d,s.server.auth=.asServer (.waitingOnClientChallengeReply c d) → c∈s.challenges) ∧
    s.client.crashed=false ∧ s.server.crashed=false := by
  obtain ⟨hsound,hphase⟩:=reachable_sound h
  refine ⟨fun hserver hclient => ?_,hsound.challenge,hsound.client.crashed,hsound.server.crashed⟩
  rcases hphase with hphase | hstopped
  · left
    cases hphase with
    | named | answered => cases hserver
    | challenged | admitted | acknowledged => cases hclient
    | authenticated d clientReady serverReady toServer toClient sent hs hc =>
      obtain ⟨rfl,-⟩:=hs.resolve_left fun hs => by simp [hs.2] at hserver
      obtain ⟨rfl,-⟩:=hc.resolve_left fun hc => by simp [hc.2] at hclient
      exact ⟨rfl,rfl,rfl,rfl⟩
  · exact .inr hstopped

def twoNodes : HandshakeParties ℕ ℕ ℕ where
  digest:=id
  clientNode:=⟨0,0⟩
  serverNode:=⟨1,1⟩
  names_differ := by decide
  strings_differ := by decide

instance (s : Handshake ℕ ℕ ℕ) (label : HandshakeStep ℕ) : Decidable (s.NotDuplicate label) :=
  match label with
  | .toServer _ _ => inferInstanceAs (Decidable (_→_))
  | .toClient _ _ => inferInstanceAs (Decidable True)

/-- A handshake that is completed. -/
theorem handshake_not_stuck_completed :
    ∃s : Handshake ℕ ℕ ℕ,
      Reachable (Initial twoNodes) (guarded NotDuplicate (Step twoNodes)) s ∧
      s.toServer=[] ∧ s.toClient=[] ∧ s.client.ready=.ready ∧ s.server.ready=.ready := by
  have hrun : ∃s,execute (fun s e => if s.NotDuplicate e then step twoNodes s e else none)
      (start twoNodes)
      [.toServer (some .noOtherConnection) 5,.toClient none 0,.toClient none 6,
        .toServer (some .noOtherConnection) 0,.toClient (some .thisConnectionContinues) 0,
        .toClient none 0,.toServer none 0]=some s ∧
      s.toServer=[] ∧ s.toClient=[] ∧ s.client.stopped=false ∧ s.server.stopped=false :=
    ⟨_,rfl,rfl,rfl,rfl,rfl⟩
  obtain ⟨s,hs,hserver,hclient,hcs,hss⟩:=hrun
  have hr : Reachable (Initial twoNodes) (guarded NotDuplicate (Step twoNodes)) s :=
    Reachable.guarded_execute (fun _ _ _ h => h) _ (.start rfl) hs
  obtain ⟨-,hc,-,hs⟩:=((handshake_not_stuck twoNodes hr).1 hserver hclient).resolve_right
    (by simp [hcs,hss])
  exact ⟨s,hr,hserver,hclient,hc,hs⟩

/-- The server is told of a duplicate. The client confirms, and the server waits for the answer to
a challenge that it has not sent; nothing is in flight any more. -/
theorem handshake_stuck_after_alive :
    ∃s : Handshake ℕ ℕ ℕ,Reachable (Initial twoNodes) (Step twoNodes) s ∧
      s.toServer=[] ∧ s.toClient=[] ∧
      s.server.auth=.asServer (.waitingOnClientChallengeReply 5 5) ∧ s.challenges=[] ∧
      s.client.auth=.asClient (.waitingForServerChallenge .alive) ∧
      s.client.stopped=false ∧ s.server.stopped=false := by
  have hrun : ∃s,execute (step twoNodes) (start twoNodes)
      [.toServer (some .duplicateConnection) 0,.toClient none 0,.toServer none 5]=some s ∧
      s.toServer=[] ∧ s.toClient=[] ∧
      s.server.auth=.asServer (.waitingOnClientChallengeReply 5 5) ∧ s.challenges=[] ∧
      s.client.auth=.asClient (.waitingForServerChallenge .alive) ∧
      s.client.stopped=false ∧ s.server.stopped=false :=
    ⟨_,rfl,rfl,rfl,rfl,rfl,rfl,rfl,rfl⟩
  obtain ⟨s,hs,hstuck⟩:=hrun
  exact ⟨s,Reachable.execute (fun _ _ _ h => h) _ (.start rfl) hs,hstuck⟩

end Handshake
end Ractor
