import Ractor.SessionHandshake

/-!
# What an attacker without the cookie can make a session accept

Any number of sessions of honest nodes share a cookie. All connections are in the hands of an
attacker, who reads what the sessions send and delivers to them whatever it likes, except that a
digest under the cookie has to be one that a session has sent: the attacker cannot compute it.

Client and server answer a challenge with the same digest. So the answer that one client gives to a
challenge can be shown to another client as the answer of a server, and that of a server to another
server as the answer of a client. Where no session answers a challenge drawn by a session in its own
role, what a session accepts has been computed by a session in the other role.
-/

namespace Ractor
open NodeSessionState Function List

variable {Name Challenge Digest : Type}

namespace AuthenticationState

def isServer : AuthenticationState Name Challenge Digest → Bool
  | .asClient _ => false
  | .asServer _ => true

/-- The challenge to which a session waits for the answer, with the digest that it expects. -/
def ownChallenge? : AuthenticationState Name Challenge Digest → Option (Challenge × Digest)
  | .asServer (.waitingOnClientChallengeReply challenge digest) => some (challenge,digest)
  | .asClient (.waitingForServerChallengeAck _ _ _ ours expected) => some (ours,expected)
  | _ => none

/-- The challenge that a session has drawn on its way from one state to the next. -/
def newDraw? (auth auth' : AuthenticationState Name Challenge Digest) : Option Challenge :=
  match auth.ownChallenge?,auth'.ownChallenge? with
  | none,some (challenge,_) => some challenge
  | _,_ => none

end AuthenticationState

def NetworkMessage.digest? : NetworkMessage Name Challenge Digest → Option Digest
  | .auth (some (.clientChallenge digest _)) | .auth (some (.serverAck digest)) => some digest
  | _ => none

/-- What `handle_auth` can do: nothing of interest, drawing a challenge, or accepting a digest. -/
inductive AuthMove (digest : Challenge→Digest) (drawn : Challenge) :
    AuthenticationState Name Challenge Digest →
    Option (AuthenticationMessage Name Challenge Digest) →
    AuthenticationState Name Challenge Digest→Prop where
  | quiet {auth msg auth'} (hrole : auth'.isServer=auth.isServer)
      (hown : auth'.ownChallenge?=none) (hok : auth'.isOk=false) :
      AuthMove digest drawn auth msg auth'
  | serverDraws {server msg} (hown : AuthenticationState.ownChallenge? (.asServer server)=none) :
      AuthMove digest drawn (.asServer server) msg
        (.asServer (.waitingOnClientChallengeReply drawn (digest drawn)))
  | clientDraws (status peer challenge) :
      AuthMove digest drawn (.asClient (.waitingForServerChallenge status))
        (some (.serverChallenge peer challenge))
        (.asClient (.waitingForServerChallengeAck peer challenge (digest challenge) drawn
          (digest drawn)))
  | serverAccepts (challenge expected theirs) :
      AuthMove digest drawn (.asServer (.waitingOnClientChallengeReply challenge expected))
        (some (.clientChallenge expected theirs)) (.asServer (.ok (digest theirs)))
  | clientAccepts (peer challenge serverDigest ours expected) :
      AuthMove digest drawn
        (.asClient (.waitingForServerChallengeAck peer challenge serverDigest ours expected))
        (some (.serverAck expected)) (.asClient .ok)

namespace NodeSessionState
variable [DecidableEq Digest] {digest : Challenge→Digest} {thisNode : PeerIdentity Name}
  {σ : NodeSessionState Name Challenge Digest}

theorem handleClientAuth_move (client : ClientAuthenticationProcess Name Challenge Digest)
    (msg : Option (AuthenticationMessage Name Challenge Digest)) (drawn : Challenge) :
    AuthMove digest drawn (.asClient client) msg
      (σ.handleClientAuth digest client msg drawn).1.auth := by
  unfold handleClientAuth
  fun_cases ClientAuthenticationProcess.next digest drawn client msg with
  | case1 status => cases status <;> exact .quiet rfl rfl rfl
  | case2 peer challenge status => exact .clientDraws status peer challenge
  | case3 peer challenge serverDigest ours expected => exact .clientAccepts ..
  | case4 => exact .quiet rfl rfl rfl
  | case5 => exact .quiet rfl rfl rfl

theorem handleServerAuth_move (server : ServerAuthenticationProcess Name Challenge Digest)
    (msg : Option (AuthenticationMessage Name Challenge Digest))
    (reply : Option SessionCheckReply) (drawn : Challenge) :
    AuthMove digest drawn (.asServer server) msg
      (σ.handleServerAuth digest thisNode server msg reply drawn).1.auth := by
  unfold handleServerAuth
  fun_cases ServerAuthenticationProcess.next digest drawn server msg with
  | case1 peer =>
    match reply with
    | none => exact .quiet rfl rfl rfl
    | some .noOtherConnection | some .thisConnectionContinues => exact .serverDraws rfl
    | some .otherConnectionContinues | some .duplicateConnection => exact .quiet rfl rfl rfl
  | case2 => exact .serverDraws rfl
  | case3 => exact .quiet rfl rfl rfl
  | case4 => exact .serverAccepts ..
  | case5 => exact .quiet rfl rfl rfl
  | case6 => exact .quiet rfl rfl rfl

theorem handle_move [DecidableEq Name] (σ : NodeSessionState Name Challenge Digest)
    (digest : Challenge→Digest) (thisNode : PeerIdentity Name)
    (message : NetworkMessage Name Challenge Digest) (reply : Option SessionCheckReply)
    (drawn : Challenge) :
    (σ.handle digest thisNode message reply drawn).1.auth=σ.auth ∨ ∃msg,message=.auth msg ∧
        AuthMove digest drawn σ.auth msg (σ.handle digest thisNode message reply drawn).1.auth := by
  obtain ⟨ha,-⟩ | ⟨msg,hmsg,hok,ha,-⟩ := σ.handle_cases digest thisNode message reply drawn
  · exact .inl ha
  · refine .inr ⟨msg,hmsg,?_⟩
    rw [ha]
    cases hold : σ.auth with
    | asClient client =>
      rw [handleAuth_of_client hold hok]
      exact handleClientAuth_move client msg drawn
    | asServer server =>
      rw [handleAuth_of_server hold hok]
      exact handleServerAuth_move server msg reply drawn

variable [DecidableEq Name] {message : NetworkMessage Name Challenge Digest}
  {reply : Option SessionCheckReply} {drawn : Challenge}

theorem handle_isServer :
    (σ.handle digest thisNode message reply drawn).1.auth.isServer=σ.auth.isServer := by
  obtain ha | ⟨msg,-,hm⟩:=σ.handle_move digest thisNode message reply drawn
  · rw [ha]
  · generalize (σ.handle digest thisNode message reply drawn).1.auth=auth' at hm ⊢
    generalize σ.auth=auth at hm ⊢
    cases hm with
    | quiet hr => exact hr
    | _ => rfl

/-- A session that waits for the answer to a challenge did so before, or it has just drawn it. -/
theorem handle_ownChallenge? {c : Challenge} {d : Digest}
    (h : (σ.handle digest thisNode message reply drawn).1.auth.ownChallenge?=some (c,d)) :
    σ.auth.ownChallenge?=some (c,d) ∨
      σ.auth.newDraw? (σ.handle digest thisNode message reply drawn).1.auth=some c ∧
        d=digest c := by
  obtain ha | ⟨msg,-,hm⟩:=σ.handle_move digest thisNode message reply drawn
  · exact .inl (ha ▸ h)
  · right
    generalize (σ.handle digest thisNode message reply drawn).1.auth=auth' at hm h ⊢
    generalize σ.auth=auth at hm ⊢
    cases hm with
    | quiet _ hown =>
      rw [hown] at h
      cases h
    | serverDraws hown =>
      rw [AuthenticationState.newDraw?,hown]
      cases h
      exact ⟨rfl,rfl⟩
    | clientDraws =>
      cases h
      exact ⟨rfl,rfl⟩
    | serverAccepts | clientAccepts => cases h

/-- A session becomes authenticated on the digest that it expects for its challenge. -/
theorem handle_accepts (hnot : σ.auth.isOk=false)
    (hok : (σ.handle digest thisNode message reply drawn).1.auth.isOk=true) :
    ∃c d,σ.auth.ownChallenge?=some (c,d) ∧ message.digest?=some d := by
  obtain ha | ⟨msg,rfl,hm⟩:=σ.handle_move digest thisNode message reply drawn
  · rw [ha,hnot] at hok
    cases hok
  · generalize (σ.handle digest thisNode (.auth msg) reply drawn).1.auth=auth' at hm hok
    generalize σ.auth=auth at hm ⊢
    cases hm with
    | quiet _ _ hq =>
      rw [hq] at hok
      cases hok
    | serverDraws | clientDraws => cases hok
    | serverAccepts challenge expected theirs => exact ⟨challenge,expected,rfl,rfl⟩
    | clientAccepts peer challenge serverDigest ours expected => exact ⟨ours,expected,rfl,rfl⟩

end NodeSessionState

/-! ### The sessions and the attacker -/

/-- The sessions of honest nodes, and what the attacker has seen of them. -/
structure AttackedSessions (Name Challenge Digest : Type) where
  sessions : ℕ → Option (PeerIdentity Name × NodeSessionState Name Challenge Digest) :=
    fun _ => none
  sent : List (ℕ × NetworkMessage Name Challenge Digest):=[]
  /-- The challenges that sessions have drawn. -/
  drawn : List (ℕ × Challenge):=[]
  /-- The challenge of a session that has accepted a digest for it. -/
  accepted : ℕ → Option Challenge:=fun _ => none

inductive AttackStep (Name Challenge Digest : Type) where
  | opened (session : ℕ) (isServer : Bool) (thisNode : PeerIdentity Name)
  | deliver (session : ℕ) (message : NetworkMessage Name Challenge Digest)
      (reply : Option SessionCheckReply) (drawn : Challenge)

namespace AttackedSessions
variable [DecidableEq Name] [DecidableEq Digest] (s : AttackedSessions Name Challenge Digest)

def openSession (i : ℕ) (isServer : Bool) (thisNode : PeerIdentity Name) :
    AttackedSessions Name Challenge Digest :=
  let (σ,sent) := init thisNode isServer
  { s with
    sessions:=update s.sessions i (some (thisNode,σ))
    sent:=s.sent++sent.map (i,·) }

variable (digest : Challenge→Digest)

def deliver (s : AttackedSessions Name Challenge Digest) (i : ℕ) (thisNode : PeerIdentity Name)
    (σ : NodeSessionState Name Challenge Digest) (message : NetworkMessage Name Challenge Digest)
    (reply : Option SessionCheckReply) (drawn : Challenge) :
    AttackedSessions Name Challenge Digest :=
  let (σ',sent) := σ.handle digest thisNode message reply drawn
  { sessions:=update s.sessions i (some (thisNode,σ'))
    sent:=s.sent++sent.map (i,·)
    drawn:=s.drawn++((σ.auth.newDraw? σ'.auth).map (i,·)).toList
    accepted :=
      if !σ.auth.isOk && σ'.auth.isOk then
        update s.accepted i (σ.auth.ownChallenge?.map (·.1))
      else s.accepted }

/-- The attacker knows the digests that it has seen, and those that are not under the cookie. -/
def Knows (s : AttackedSessions Name Challenge Digest) (d : Digest) : Prop :=
  (∃j m,(j,m)∈s.sent ∧ m.digest?=some d) ∨ ∀c,d≠digest c

/-- Challenges are not drawn twice. -/
inductive Step (digest : Challenge→Digest) : AttackedSessions Name Challenge Digest →
    AttackStep Name Challenge Digest → AttackedSessions Name Challenge Digest→Prop where
  | opened (s i isServer thisNode) (hnew : s.sessions i=none) :
      Step digest s (.opened i isServer thisNode) (s.openSession i isServer thisNode)
  | deliver (s i thisNode σ message reply drawn) (hi : s.sessions i=some (thisNode,σ))
      (hlive : σ.stopped=false) (hknown : ∀d,message.digest?=some d→s.Knows digest d)
      (hfresh : ∀c,
        σ.auth.newDraw? (σ.handle digest thisNode message reply drawn).1.auth=some c →
          ∀j,(j,c)∉s.drawn) :
      Step digest s (.deliver i message reply drawn)
        (s.deliver digest i thisNode σ message reply drawn)

def Initial : Prop:=s={}

def RunsAs (isServer : Bool) (i : ℕ) : Prop :=
  ∃thisNode σ,s.sessions i=some (thisNode,σ) ∧ σ.auth.isServer=isServer

def DrawnAs (isServer : Bool) (c : Challenge) : Prop :=
  ∃i,s.RunsAs isServer i ∧ (i,c)∈s.drawn

def AnsweredAs (s : AttackedSessions Name Challenge Digest) (isServer : Bool) (c : Challenge) :
    Prop :=
  ∃i m,s.RunsAs isServer i ∧ (i,m)∈s.sent ∧ m.digest?=some (digest c)

/-- No challenge has been drawn and answered in the same role. -/
def NoReflection (s : AttackedSessions Name Challenge Digest) : Prop :=
  ∀isServer c,s.DrawnAs isServer c → ¬ s.AnsweredAs digest isServer c

/-- A session waits for the answer to a challenge that it has drawn, and one that is authenticated
has accepted a digest that some session has sent. -/
structure Sound (digest : Challenge → Digest) (s : AttackedSessions Name Challenge Digest) :
    Prop where
  own : ∀i thisNode σ c d,s.sessions i=some (thisNode,σ) →
    σ.auth.ownChallenge?=some (c,d) → d=digest c ∧ (i,c)∈s.drawn
  senders : ∀i m,(i,m)∈s.sent → ∃isServer,s.RunsAs isServer i
  accepted : ∀i c,s.accepted i=some c →
    (i,c)∈s.drawn ∧ ∃j m,(j,m)∈s.sent ∧ m.digest?=some (digest c)
  done : ∀i thisNode σ,s.sessions i=some (thisNode,σ) → σ.auth.isOk=true →
    ∃c,s.accepted i=some c

variable {digest} {s} {s' : AttackedSessions Name Challenge Digest} {i : ℕ}
  {thisNode : PeerIdentity Name} {σ : NodeSessionState Name Challenge Digest}
  {message : NetworkMessage Name Challenge Digest} {reply : Option SessionCheckReply}
  {drawn : Challenge}

theorem deliver_drawn :
    (s.deliver digest i thisNode σ message reply drawn).drawn=s.drawn ++
      ((σ.auth.newDraw? (σ.handle digest thisNode message reply drawn).1.auth).map (i,·)).toList :=
  rfl

theorem deliver_sessions_self :
    (s.deliver digest i thisNode σ message reply drawn).sessions i =
      some (thisNode,(σ.handle digest thisNode message reply drawn).1):=update_self ..

theorem deliver_sessions_of_ne {j : ℕ} (h : j≠i) :
    (s.deliver digest i thisNode σ message reply drawn).sessions j=s.sessions j :=
  Function.update_of_ne h ..

/-- The session that handles the message has accepted a digest if it has become authenticated. -/
theorem deliver_accepted_self :
    (s.deliver digest i thisNode σ message reply drawn).accepted i =
      if !σ.auth.isOk && (σ.handle digest thisNode message reply drawn).1.auth.isOk then
        σ.auth.ownChallenge?.map (·.1)
      else s.accepted i := by
  simp only [deliver]
  split
  · exact update_self ..
  · rfl

theorem deliver_accepted_of_ne {j : ℕ} (h : j≠i) :
    (s.deliver digest i thisNode σ message reply drawn).accepted j=s.accepted j := by
  simp only [deliver]
  split
  · exact Function.update_of_ne h ..
  · rfl

theorem RunsAs.deliver {isServer : Bool} {j : ℕ} (h : s.RunsAs isServer j)
    (hi : s.sessions i=some (thisNode,σ)) :
    (s.deliver digest i thisNode σ message reply drawn).RunsAs isServer j := by
  obtain ⟨node,τ,hj,hr⟩:=h
  by_cases hji : j=i
  · subst hji
    obtain ⟨rfl,rfl⟩:=Prod.mk.inj (Option.some.inj (hi.symm.trans hj))
    exact ⟨thisNode,_,deliver_sessions_self,handle_isServer.trans hr⟩
  · exact ⟨node,τ,(deliver_sessions_of_ne hji).trans hj,hr⟩

/-- What a session accepts, the attacker has seen. -/
theorem Sound.deliver_accepted (h : s.Sound digest) (hi : s.sessions i=some (thisNode,σ))
    (hk : ∀d,message.digest?=some d→s.Knows digest d) {j : ℕ} {c : Challenge}
    (hc : (s.deliver digest i thisNode σ message reply drawn).accepted j=some c) :
    (j,c)∈s.drawn ∧ ∃k m,(k,m)∈s.sent ∧ m.digest?=some (digest c) := by
  by_cases hji : j=i
  · subst hji
    rw [deliver_accepted_self] at hc
    split at hc
    next hnow =>
      simp only [Bool.and_eq_true,Bool.not_eq_true'] at hnow
      obtain ⟨c',d,hown,hd⟩:=handle_accepts hnow.1 hnow.2
      obtain rfl : c'=c := by simpa [hown] using hc
      obtain ⟨rfl,hdr⟩:=h.own j thisNode σ c' d hi hown
      exact ⟨hdr,(hk _ hd).resolve_right fun hnot => hnot c' rfl⟩
    next => exact h.accepted j c hc
  · rw [deliver_accepted_of_ne hji] at hc
    exact h.accepted j c hc

theorem Sound.deliver (h : s.Sound digest) (hi : s.sessions i=some (thisNode,σ))
    (hk : ∀d,message.digest?=some d→s.Knows digest d) :
    (s.deliver digest i thisNode σ message reply drawn).Sound digest where
  own := by
    intro j node τ c d hj hown
    by_cases hji : j=i
    · subst hji
      rw [deliver_sessions_self] at hj
      cases hj
      rcases handle_ownChallenge? hown with hold | ⟨hnew,hd⟩
      · obtain ⟨hd,hdr⟩:=h.own j thisNode σ c d hi hold
        exact ⟨hd,mem_append_left _ hdr⟩
      · rw [deliver_drawn,hnew]
        exact ⟨hd,mem_append_right _ (mem_singleton_self _)⟩
    · rw [deliver_sessions_of_ne hji] at hj
      obtain ⟨hd,hdr⟩:=h.own j node τ c d hj hown
      exact ⟨hd,mem_append_left _ hdr⟩
  senders := by
    intro j m hm
    rcases mem_append.mp hm with hm | hm
    · obtain ⟨isServer,hr⟩:=h.senders j m hm
      exact ⟨isServer,hr.deliver hi⟩
    · obtain ⟨m',-,hm'⟩:=mem_map.mp hm
      cases hm'
      have hr : s.RunsAs σ.auth.isServer i:=⟨thisNode,σ,hi,rfl⟩
      exact ⟨_,hr.deliver hi⟩
  accepted := by
    intro j c hc
    obtain ⟨hdr,k,m,hm,hdi⟩:=h.deliver_accepted hi hk hc
    exact ⟨mem_append_left _ hdr,k,m,mem_append_left _ hm,hdi⟩
  done := by
    intro j node τ hj hok
    by_cases hji : j=i
    · subst hji
      rw [deliver_sessions_self] at hj
      cases hj
      rw [deliver_accepted_self]
      cases hold : σ.auth.isOk with
      | true => simpa [hold] using h.done j thisNode σ hi hold
      | false =>
        obtain ⟨c,d,hown,-⟩:=handle_accepts hold hok
        exact ⟨c,by simp [hok,hown]⟩
    · rw [deliver_sessions_of_ne hji] at hj
      rw [deliver_accepted_of_ne hji]
      exact h.done j node τ hj hok

omit [DecidableEq Name] [DecidableEq Digest] in
theorem RunsAs.openSession {isServer isServer' : Bool} {j : ℕ} (h : s.RunsAs isServer j)
    (hnew : s.sessions i=none) : (s.openSession i isServer' thisNode).RunsAs isServer j := by
  obtain ⟨node,τ,hj,hr⟩:=h
  have hji : j≠i := by
    rintro rfl
    simp [hnew] at hj
  exact ⟨node,τ,(Function.update_of_ne hji ..).trans hj,hr⟩

omit [DecidableEq Name] [DecidableEq Digest] in
theorem Sound.openSession (h : s.Sound digest) (isServer : Bool) (hnew : s.sessions i=none) :
    (s.openSession i isServer thisNode).Sound digest := by
  have hs {j : ℕ} {node : PeerIdentity Name} {τ : NodeSessionState Name Challenge Digest}
      (hj : (s.openSession i isServer thisNode).sessions j=some (node,τ)) :
      s.sessions j=some (node,τ) ∨ j=i ∧ τ=(init thisNode isServer).1 := by
    by_cases hji : j=i
    · subst hji
      refine .inr ⟨rfl,?_⟩
      simpa [AttackedSessions.openSession,eq_comm] using congrArg (Option.map (·.2)) hj
    · exact .inl ((Function.update_of_ne hji ..).symm.trans hj)
  refine ⟨fun j node τ c d hj hown => ?_,fun j m hm => ?_,fun j c hc => ?_,
    fun j node τ hj hok => ?_⟩
  · rcases hs hj with hj | ⟨rfl,rfl⟩
    · exact h.own j node τ c d hj hown
    · cases isServer <;> cases hown
  · rcases mem_append.mp hm with hm | hm
    · obtain ⟨role,hr⟩:=h.senders j m hm
      exact ⟨role,hr.openSession hnew⟩
    · obtain ⟨m',-,hm'⟩:=mem_map.mp hm
      cases hm'
      exact ⟨_,thisNode,_,update_self ..,rfl⟩
  · obtain ⟨hdr,k,m,hm,hd⟩:=h.accepted j c hc
    exact ⟨hdr,k,m,mem_append_left _ hm,hd⟩
  · rcases hs hj with hj | ⟨rfl,rfl⟩
    · exact h.done j node τ hj hok
    · cases isServer <;> cases hok

theorem Sound.step {label : AttackStep Name Challenge Digest} (h : s.Sound digest)
    (hs : Step digest s label s') : s'.Sound digest := by
  cases hs with
  | opened i isServer thisNode hnew => exact h.openSession isServer hnew
  | deliver i thisNode σ message reply drawn hi _ hk _ => exact h.deliver hi hk

/-! ### Replays -/

def replay [DecidableEq Challenge] (digest : Challenge → Digest)
    (s : AttackedSessions Name Challenge Digest) :
    AttackStep Name Challenge Digest → Option (AttackedSessions Name Challenge Digest)
  | .opened i isServer thisNode =>
    match s.sessions i with
    | none => some (s.openSession i isServer thisNode)
    | some _ => none
  | .deliver i message reply drawn =>
    match s.sessions i with
    | none => none
    | some (thisNode,σ) =>
      if σ.stopped=false ∧ (∀d∈message.digest?,∃p∈s.sent,p.2.digest?=some d) ∧
          (∀c∈σ.auth.newDraw? (σ.handle digest thisNode message reply drawn).1.auth,
            ∀p∈s.drawn,p.2≠c) then
        some (s.deliver digest i thisNode σ message reply drawn)
      else none

theorem step_of_replay [DecidableEq Challenge] {label : AttackStep Name Challenge Digest}
    (h : s.replay digest label=some s') : Step digest s label s' := by
  cases label with
  | opened i isServer thisNode =>
    simp only [replay] at h
    split at h
    next hnew =>
      cases h
      exact .opened s i isServer thisNode hnew
    next => cases h
  | deliver i message reply drawn =>
    simp only [replay] at h
    split at h
    next => cases h
    next thisNode σ hi =>
      obtain ⟨⟨hl,hk,hf⟩,hs⟩:=Option.ite_none_right_eq_some.mp h
      cases hs
      refine .deliver s i thisNode σ message reply drawn hi hl (fun d hd => ?_) fun c hc j hj => ?_
      · obtain ⟨p,hp,hdi⟩:=hk d hd
        exact .inl ⟨p.1,p.2,hp,hdi⟩
      · exact hf c hc (j,c) hj rfl

theorem exists_reachable [DecidableEq Challenge] (digest : Challenge→Digest)
    (labels : List (AttackStep Name Challenge Digest))
    (test : AttackedSessions Name Challenge Digest→Bool)
    (h : (execute (replay digest) {} labels).any test=true) :
    ∃s : AttackedSessions Name Challenge Digest,Reachable Initial (Step digest) s ∧ test s=true :=
  exists_of_execute (fun _ _ _ => step_of_replay) (fun _ hs => (Option.some.inj hs).symm) labels h

/-! ### Sessions that are authenticated -/

/-- Where no challenge is drawn and answered in the same role, a session that is authenticated has
accepted, for the challenge that it has drawn, a digest computed by a session in the other role. -/
theorem accepted_digest_computed_by_peer (digest : Challenge → Digest)
    {s : AttackedSessions Name Challenge Digest} (h : Reachable Initial (Step digest) s)
    (hno : s.NoReflection digest) {i : ℕ} {thisNode : PeerIdentity Name}
    {σ : NodeSessionState Name Challenge Digest} (hi : s.sessions i=some (thisNode,σ))
    (hok : σ.auth.isOk=true) :
    ∃c,s.accepted i=some c ∧ (i,c)∈s.drawn ∧ s.AnsweredAs digest (!σ.auth.isServer) c := by
  have hsound : s.Sound digest := by
    refine h.invariant (P:=Sound digest) ?_ fun _ _ _ hs hstep => hs.step hstep
    rintro s rfl
    exact ⟨nofun,nofun,nofun,nofun⟩
  obtain ⟨c,hc⟩:=hsound.done i thisNode σ hi hok
  obtain ⟨hdrawn,j,m,hm,hdigest⟩:=hsound.accepted i c hc
  obtain ⟨isServer,hrole⟩:=hsound.senders j m hm
  refine ⟨c,hc,hdrawn,j,m,?_,hm,hdigest⟩
  have hown : s.DrawnAs σ.auth.isServer c:=⟨i,⟨thisNode,σ,hi,rfl⟩,hdrawn⟩
  have hother : isServer≠σ.auth.isServer := by
    rintro rfl
    exact hno _ c hown ⟨j,m,hrole,hm,hdigest⟩
  rwa [Bool.eq_not_of_ne hother] at hrole

/-- The attacker passes the messages between a client and a server on. -/
theorem accepted_digest_computed_by_peer_relayed :
    ∃s : AttackedSessions ℕ ℕ ℕ,Reachable Initial (Step id) s ∧ s.NoReflection id ∧
      s.accepted 1=some 5 ∧ s.AnsweredAs id false 5 := by
  obtain ⟨s,hs,htest⟩:=exists_reachable (id : ℕ→ℕ) [.opened 0 false ⟨0,0⟩,.opened 1 true ⟨1,1⟩,
        .deliver 1 (.auth (some (.name ⟨0,0⟩))) (some .noOtherConnection) 5,
        .deliver 0 (.auth (some (.serverStatus .ok))) none 0,
        .deliver 0 (.auth (some (.serverChallenge ⟨1,1⟩ 5))) none 6,
        .deliver 1 (.auth (some (.clientChallenge 5 6))) (some .noOtherConnection) 0]
    (fun s : AttackedSessions ℕ ℕ ℕ =>
      (s.sessions 1).any (fun p => p.2.auth.isOk && p.2.auth.isServer) && s.accepted 1 == some 5 &&
        s.drawn.all fun p => s.sent.all fun q =>
          q.2.digest? != some p.2 || (s.sessions p.1).all fun x =>
            (s.sessions q.1).all fun y => x.2.auth.isServer != y.2.auth.isServer) rfl
  simp only [Bool.and_eq_true,Option.any_eq_true,beq_iff_eq,List.all_eq_true,Option.all_eq_true,
    Bool.or_eq_true,bne_iff_ne] at htest
  obtain ⟨⟨⟨⟨node,σ⟩,hi,hok,hrole⟩,hc⟩,hroles⟩:=htest
  have hno : s.NoReflection id := by
    rintro isServer c ⟨j,⟨_,_,hj,hdrawn⟩,hcj⟩ ⟨k,m,⟨_,_,hk,hsent⟩,hm,hdigest⟩
    obtain hne | hne:=hroles (j,c) hcj (k,m) hm
    · exact hne hdigest
    · exact hne _ hj _ hk (hdrawn.trans hsent.symm)
  obtain ⟨c,hc',-,hanswered⟩:=accepted_digest_computed_by_peer id hs hno hi hok
  obtain rfl : c=5:=Option.some.inj (hc'.symm.trans hc)
  exact ⟨s,hs,hno,hc,by simpa [hrole] using hanswered⟩

/-- The attacker accepts connections of two clients of a node. It gives the second one the
challenge of the first one, and shows its answer to the first one as that of a server. -/
theorem challenge_reflected_between_clients :
    ∃s : AttackedSessions ℕ ℕ ℕ,Reachable Initial (Step id) s ∧
      (∃thisNode σ,s.sessions 0=some (thisNode,σ) ∧ σ.auth.isOk=true ∧ σ.auth.isServer=false) ∧
      s.accepted 0=some 1 ∧ ¬ s.AnsweredAs id true 1 := by
  obtain ⟨s,hs,htest⟩:=exists_reachable (id : ℕ→ℕ) [.opened 0 false ⟨0,0⟩,.opened 1 false ⟨0,0⟩,
        .deliver 0 (.auth (some (.serverStatus .ok))) none 0,
        .deliver 0 (.auth (some (.serverChallenge ⟨9,9⟩ 100))) none 1,
        .deliver 1 (.auth (some (.serverStatus .ok))) none 0,
        .deliver 1 (.auth (some (.serverChallenge ⟨9,9⟩ 1))) none 2,
        .deliver 0 (.auth (some (.serverAck 1))) (some .noOtherConnection) 0]
    (fun s : AttackedSessions ℕ ℕ ℕ =>
      (s.sessions 0).any (fun p => p.2.auth.isOk && !p.2.auth.isServer) &&
        s.accepted 0 == some 1 && s.sent.all fun p => (s.sessions p.1).all (!·.2.auth.isServer)) rfl
  simp only [Bool.and_eq_true,Option.any_eq_true,beq_iff_eq,List.all_eq_true,Option.all_eq_true,
    Bool.not_eq_true'] at htest
  obtain ⟨⟨⟨⟨node,σ⟩,hi,hok,hrole⟩,hc⟩,hclients⟩:=htest
  refine ⟨s,hs,⟨node,σ,hi,hok,hrole⟩,hc,?_⟩
  rintro ⟨j,m,⟨node',τ,hj,hserver⟩,hm,-⟩
  exact Bool.false_ne_true ((hclients (j,m) hm (node',τ) hj).symm.trans hserver)

end AttackedSessions
end Ractor
