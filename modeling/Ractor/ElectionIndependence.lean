import Ractor.NodeServerSessions

/-!
# Sessions that have not authenticated do not influence the election

At any time the authenticated sessions with a peer are those that an election among them would
keep. A run of the node server is compared with the one that is left when the events of sessions
that never authenticate are deleted: the same sessions are authenticated and the same sessions are
stopped, and no session that goes on in the shortened run is refused in the full one.
-/

namespace Ractor.NodeServerState
open List Finset
open SessionElection

variable {Name : Type} [LinearOrder Name]

def run (s : NodeServerState Name) (events : List (NodeServerEvent Name)) : NodeServerState Name :=
  events.foldl handle s

def AdmitsAll : NodeServerState Name → List (NodeServerEvent Name) → Prop
  | _,[] => True
  | s,event::events => s.Admits event ∧ (s.handle event).AdmitsAll events

/-! ### Elections are settled -/

structure Settled (s : NodeServerState Name) : Prop where
  connectionId : ∀peerName,∀c∈s.candidatesForPeer peerName,
    ∀d∈s.candidatesForPeer peerName,c.connectionId=d.connectionId
  uniform : ∀peerName,peerName≠s.thisNodeName → Uniform (s.candidatesForPeer peerName)

theorem Settled.mono {s s' : NodeServerState Name} (h : s.Settled)
    (hn : s'.thisNodeName=s.thisNodeName)
    (hsub : ∀peerName,∀c∈s'.candidatesForPeer peerName,c∈s.candidatesForPeer peerName) :
    s'.Settled where
  connectionId peerName c hc d hd :=
    h.connectionId peerName c (hsub peerName c hc) d (hsub peerName d hd)
  uniform peerName hne:=(h.uniform peerName (hn ▸ hne)).subset (hsub peerName)

theorem Settled.openSession {s : NodeServerState Name} (h : s.Settled) (actorId : ℕ)
    (isServer : Bool) : (s.openSession actorId isServer).Settled := by
  refine h.mono rfl fun peerName c hc => ?_
  obtain ⟨session,hmem,hp,ha,rfl⟩:=mem_candidatesForPeer.mp hc
  rcases mem_append.mp hmem with hold | hnew
  · exact mem_candidatesForPeer.mpr ⟨session,mem_of_mem_filter hold,hp,ha,rfl⟩
  · rw [List.mem_singleton.mp hnew] at hp
    cases hp

/-- A session that reports its name has not authenticated. -/
theorem Settled.registerSession {s : NodeServerState Name} (h : s.Settled) (hk : s.WellKept)
    {actorId : ℕ} (name : NameMessage Name) (hg : s.peerName? actorId=none) :
    (s.registerSession actorId name).Settled := by
  unfold NodeServerState.registerSession
  split
  next =>
    refine h.mono rfl fun peerName c hc => ?_
    obtain ⟨session,hmem,hp,ha,rfl⟩:=mem_candidatesForPeer.mp hc
    obtain ⟨old,hold,rfl⟩:=List.mem_map.mp hmem
    rw [update_actorId] at ha
    have hne : old.actorId≠actorId := by
      rintro rfl
      obtain ⟨x,hx,hid,hn⟩:=hk.authenticated _ ha
      rw [peerName?,hk.session?_eq_some_iff.mpr ⟨hx,hid⟩] at hg
      exact hn hg
    rw [update_of_ne _ hne] at hp ⊢
    refine mem_candidatesForPeer.mpr ⟨old,hold,hp,ha,?_⟩
    simp [candidate,NodeServerState.connectionId,Function.update_of_ne hne]
  next => exact h

theorem Settled.commitAuthenticated {s s' : NodeServerState Name} (h : s.Settled)
    (hk : s.WellKept) {actorId : ℕ} {election : SessionElectionResult}
    (hs : s.commitAuthenticated actorId=some (election,s')) : s'.Settled := by
  have ht : s'.thisNodeName=s.thisNodeName := by
    obtain ⟨_,-,-,rfl⟩:=commitAuthenticated_eq_some hs
    rfl
  constructor
  · intro peerName c hc d hd
    by_cases hn : s.peerName? actorId=some peerName
    · rw [hk.mem_candidates_commit hs hn] at hc hd
      exact electCandidates_connectionId hc hd
    · exact h.connectionId peerName c (hk.mem_candidates_of_commit hs hn hc) d
        (hk.mem_candidates_of_commit hs hn hd)
  · intro peerName hne
    rw [ht] at hne
    by_cases hn : s.peerName? actorId=some peerName
    · exact (electCandidates_uniform hne).subset fun c => (hk.mem_candidates_commit hs hn).mp
    · exact (h.uniform peerName hne).subset fun c => hk.mem_candidates_of_commit hs hn

theorem Settled.removeSession {s : NodeServerState Name} (h : s.Settled) (actorId : ℕ) :
    (s.removeSession actorId).Settled := by
  unfold NodeServerState.removeSession
  split
  next =>
    refine h.mono rfl fun peerName c hc => ?_
    obtain ⟨session,hmem,hp,ha,rfl⟩:=mem_candidatesForPeer.mp hc
    obtain ⟨hne,ha⟩:=mem_erase.mp ha
    refine mem_candidatesForPeer.mpr ⟨session,mem_of_mem_filter hmem,hp,ha,?_⟩
    simp [candidate,NodeServerState.connectionId,Function.update_of_ne hne]
  next => exact h

variable {event : NodeServerEvent Name} {a : ℕ}

theorem Settled.handle {s : NodeServerState Name} (h : s.Settled) (hk : s.WellKept)
    (hg : s.Admits event) : (s.handle event).Settled := by
  cases event with
  | opened actorId isServer => exact h.openSession actorId isServer
  | updateSession actorId name => exact h.registerSession hk name hg
  | checkSession => exact h
  | connectionAuthenticated actorId =>
    unfold NodeServerState.handle
    dsimp only
    split
    next election s' hs => exact h.commitAuthenticated hk hs
    next => exact h
  | terminated actorId => exact h.removeSession actorId

theorem handle_thisNodeName (s : NodeServerState Name) (event : NodeServerEvent Name) :
    (s.handle event).thisNodeName=s.thisNodeName := by
  cases event with
  | opened | checkSession => rfl
  | updateSession actorId name =>
    unfold NodeServerState.handle NodeServerState.registerSession
    dsimp only
    split <;> rfl
  | connectionAuthenticated actorId =>
    unfold NodeServerState.handle
    dsimp only
    split
    next election s' hs =>
      obtain ⟨_,-,-,rfl⟩:=commitAuthenticated_eq_some hs
      rfl
    next => rfl
  | terminated actorId =>
    unfold NodeServerState.handle NodeServerState.removeSession
    dsimp only
    split <;> rfl

theorem run_thisNodeName (s : NodeServerState Name) (events : List (NodeServerEvent Name)) :
    (s.run events).thisNodeName=s.thisNodeName := by
  induction events generalizing s with
  | nil => rfl
  | cons event events ih => exact (ih (s.handle event)).trans (s.handle_thisNodeName event)

theorem settled_run {events : List (NodeServerEvent Name)} {s : NodeServerState Name}
    (hk : s.WellKept) (h : s.Settled) (hg : s.AdmitsAll events) :
    (s.run events).WellKept ∧ (s.run events).Settled := by
  induction events generalizing s with
  | nil => exact ⟨hk,h⟩
  | cons event events ih => exact ih (hk.handle hg.1) (h.handle hk hg.1) hg.2

/-! ### Deleting the events of other sessions -/

/-- The state of the shortened run, in which only the sessions that are kept occur. -/
structure Shortened (kept : ℕ → Bool) (s s' : NodeServerState Name) : Prop where
  thisNodeName : s'.thisNodeName=s.thisNodeName
  nodeSessions : s'.nodeSessions=s.nodeSessions.filter fun x => kept x.actorId
  connectionIds : ∀a,kept a=true → s'.connectionIds a=s.connectionIds a
  authenticatedSessions : s'.authenticatedSessions=s.authenticatedSessions
  authenticated_kept : ∀a∈s.authenticatedSessions,kept a=true

variable {kept : ℕ→Bool} {s s' : NodeServerState Name}

section

omit [LinearOrder Name]

/-- Among the sessions that are kept, nothing changes with one that is not. -/
theorem filter_kept_ne (ha : kept a=false) (sessions : List (NodeServerSession Name)) :
    (sessions.filter (·.actorId != a)).filter (fun x => kept x.actorId) =
      sessions.filter fun x => kept x.actorId := by
  rw [List.filter_filter]
  refine filter_congr fun x _ => ?_
  by_cases hx : x.actorId=a <;> simp [hx,ha]

theorem filter_kept_update (a : ℕ) (name : Name) (sessions : List (NodeServerSession Name)) :
    (sessions.map (NodeServerSession.update a name)).filter (fun x => kept x.actorId) =
      (sessions.filter fun x => kept x.actorId).map (NodeServerSession.update a name) := by
  rw [List.filter_map]
  refine congrArg (List.map _) (filter_congr fun x _ => ?_)
  simp

variable (h : Shortened kept s s')
include h

theorem Shortened.session? (ha : kept a=true) : s'.session? a=s.session? a := by
  rw [NodeServerState.session?,h.nodeSessions,List.find?_filter]
  refine congrArg (List.find? · s.nodeSessions) (funext fun x => ?_)
  by_cases hx : x.actorId=a <;> simp [hx,ha]

theorem Shortened.peerName? (ha : kept a=true) : s'.peerName? a=s.peerName? a := by
  rw [NodeServerState.peerName?,h.session? ha,NodeServerState.peerName?]

theorem Shortened.candidate {x : NodeServerSession Name}
    (hx : kept x.actorId=true) : s'.candidate x=s.candidate x := by
  simp [NodeServerState.candidate,NodeServerState.connectionId,h.connectionIds _ hx]

/-! ### The two runs -/

theorem Shortened.openSession (ha : kept a=true) (isServer : Bool) :
    Shortened kept (s.openSession a isServer) (s'.openSession a isServer) where
  thisNodeName:=h.thisNodeName
  nodeSessions := by
    simp only [NodeServerState.openSession,h.nodeSessions,List.filter_append,List.filter_comm,
      List.filter_cons,ha,if_true,List.filter_nil]
  connectionIds:=h.connectionIds
  authenticatedSessions:=h.authenticatedSessions
  authenticated_kept:=h.authenticated_kept

theorem Shortened.openSession_deleted (ha : kept a=false)
    (isServer : Bool) : Shortened kept (s.openSession a isServer) s' where
  thisNodeName:=h.thisNodeName
  nodeSessions := by
    simp [NodeServerState.openSession,h.nodeSessions,filter_kept_ne ha,ha]
  connectionIds:=h.connectionIds
  authenticatedSessions:=h.authenticatedSessions
  authenticated_kept:=h.authenticated_kept

theorem Shortened.registerSession (ha : kept a=true) (name : NameMessage Name) :
    Shortened kept (s.registerSession a name) (s'.registerSession a name) := by
  unfold NodeServerState.registerSession
  rw [h.session? ha]
  split
  next =>
    refine ⟨h.thisNodeName,?_,fun b hb => ?_,h.authenticatedSessions,h.authenticated_kept⟩
    · simp only [h.nodeSessions,filter_kept_update]
    · by_cases hba : b=a
      · simp [hba]
      · simp [Function.update_of_ne hba,h.connectionIds b hb]
  next => exact h

theorem Shortened.registerSession_deleted (ha : kept a=false)
    (name : NameMessage Name) : Shortened kept (s.registerSession a name) s' := by
  have hne {b : ℕ} (hb : kept b=true) : b≠a := by
    rintro rfl
    simp [ha] at hb
  unfold NodeServerState.registerSession
  split
  next =>
    refine ⟨h.thisNodeName,?_,fun b hb => ?_,h.authenticatedSessions,h.authenticated_kept⟩
    · rw [filter_kept_update,h.nodeSessions]
      refine (map_id _).symm.trans (map_congr_left fun x hx => ?_)
      exact (update_of_ne _ (hne (mem_filter.mp hx).2)).symm
    · dsimp only
      rw [Function.update_of_ne (hne hb),h.connectionIds b hb]
  next => exact h

theorem Shortened.removeSession (ha : kept a=true) :
    Shortened kept (s.removeSession a) (s'.removeSession a) := by
  unfold NodeServerState.removeSession
  rw [h.session? ha]
  split
  next =>
    refine ⟨h.thisNodeName,?_,fun b hb => ?_,?_,
      fun b hb => h.authenticated_kept b (mem_of_mem_erase hb)⟩
    · simp only [h.nodeSessions,List.filter_comm]
    · by_cases hba : b=a
      · simp [hba]
      · simp [Function.update_of_ne hba,h.connectionIds b hb]
    · dsimp only
      rw [h.authenticatedSessions]
  next => exact h

theorem Shortened.removeSession_deleted (ha : kept a=false) :
    Shortened kept (s.removeSession a) s' := by
  have hne {b : ℕ} (hb : kept b=true) : b≠a := by
    rintro rfl
    simp [ha] at hb
  unfold NodeServerState.removeSession
  split
  next =>
    refine ⟨h.thisNodeName,?_,fun b hb => ?_,?_,
      fun b hb => h.authenticated_kept b (mem_of_mem_erase hb)⟩
    · rw [filter_kept_ne ha,h.nodeSessions]
    · dsimp only
      rw [Function.update_of_ne (hne hb),h.connectionIds b hb]
    · dsimp only
      rw [h.authenticatedSessions,erase_eq_of_notMem]
      exact fun hau => hne (h.authenticated_kept a hau) rfl
  next => exact h

end

section
variable (h : Shortened kept s s')
include h

theorem Shortened.candidatesForPeer (peerName : Name) :
    s'.candidatesForPeer peerName=s.candidatesForPeer peerName := by
  unfold NodeServerState.candidatesForPeer
  rw [h.nodeSessions,h.authenticatedSessions,List.filter_filter]
  have hf (x : NodeServerSession Name) :
      (x.peerName == some peerName && decide (x.actorId∈s.authenticatedSessions) &&
        kept x.actorId) =
      (x.peerName == some peerName && decide (x.actorId∈s.authenticatedSessions)) := by
    by_cases hx : x.actorId∈s.authenticatedSessions
    · simp [h.authenticated_kept _ hx]
    · simp [hx]
  simp only [hf]
  refine map_congr_left fun x hx => h.candidate (h.authenticated_kept _ ?_)
  simp only [mem_filter,Bool.and_eq_true,decide_eq_true_eq] at hx
  exact hx.2.2

theorem Shortened.losers (peerName : Name) (elected : List ℕ) :
    s'.losers peerName elected=s.losers peerName elected := by
  unfold NodeServerState.losers
  rw [h.nodeSessions,h.authenticatedSessions,List.filter_filter]
  refine congrArg (List.map _) (filter_congr fun x _ => ?_)
  by_cases hx : x.actorId∈s.authenticatedSessions
  · simp [h.authenticated_kept _ hx]
  · simp [hx]

theorem Shortened.matchingSessions (peerName : NameMessage Name) :
    s'.matchingSessions peerName=(s.matchingSessions peerName).filter kept := by
  unfold NodeServerState.matchingSessions
  rw [h.nodeSessions,List.filter_filter,List.filter_map,List.filter_filter]
  refine congrArg (List.map _) (filter_congr fun x _ => ?_)
  by_cases hx : kept x.actorId=true
  · simp [hx,NodeServerState.connectionId,h.connectionIds _ hx]
  · simp [hx]

theorem Shortened.checkCandidate (ha : kept a=true) : s'.checkCandidate a=s.checkCandidate a := by
  unfold NodeServerState.checkCandidate
  rw [h.session? ha]
  cases hs : s.session? a with
  | none => rfl
  | some x =>
    have hx : kept x.actorId=true := by rwa [(session?_mem hs).2]
    simp only [h.candidatesForPeer,h.candidate hx,h.authenticatedSessions,h.thisNodeName]

/-- A session that is registered and kept is not refused because of sessions that are deleted. -/
theorem Shortened.continues {peerName : NameMessage Name}
    (ha : a∈s'.matchingSessions peerName) (hc : (s'.checkSession peerName).continues=true) :
    (s.checkSession peerName).continues=true := by
  rw [h.matchingSessions,mem_filter] at ha
  unfold NodeServerState.checkSession at hc ⊢
  rw [h.matchingSessions] at hc
  match hm : s.matchingSessions peerName with
  | [] =>
    rw [hm] at ha
    cases ha.1
  | [b] =>
    rw [hm] at ha hc
    obtain rfl:=List.mem_singleton.mp ha.1
    simp only [List.filter_cons,ha.2,if_true,List.filter_nil,h.checkCandidate ha.2] at hc
    exact hc
  | _::_::_ => rfl

/-- The session commits in both runs or in none, with the same losers. -/
theorem Shortened.commitAuthenticated (ha : kept a=true) :
    Shortened kept (s.handle (.connectionAuthenticated a))
        (s'.handle (.connectionAuthenticated a)) ∧
      s'.stoppedBy (.connectionAuthenticated a)=s.stoppedBy (.connectionAuthenticated a) := by
  unfold NodeServerState.handle stoppedBy
  dsimp only
  unfold NodeServerState.commitAuthenticated
  rw [h.peerName? ha]
  cases s.peerName? a with
  | none => exact ⟨h,rfl⟩
  | some peerName =>
    have hi : Shortened kept (s.authenticate a) (s'.authenticate a) := by
      refine ⟨h.thisNodeName,h.nodeSessions,h.connectionIds,?_,fun b hb => ?_⟩
      · simp only [authenticate,h.authenticatedSessions]
      · rcases mem_insert.mp hb with rfl | hb
        · exact ha
        · exact h.authenticated_kept b hb
    dsimp only
    rw [hi.candidatesForPeer,hi.losers,hi.thisNodeName]
    refine ⟨⟨rfl,h.nodeSessions,h.connectionIds,?_,fun b hb => ?_⟩,rfl⟩
    · simp only [authenticate,h.authenticatedSessions]
    · exact hi.authenticated_kept b (mem_sdiff.mp hb).1

theorem Shortened.handle (hk : kept event.session=true) :
    Shortened kept (s.handle event) (s'.handle event) ∧ s'.stoppedBy event=s.stoppedBy event := by
  cases event with
  | opened a isServer => exact ⟨h.openSession hk isServer,rfl⟩
  | updateSession a name => exact ⟨h.registerSession hk name,rfl⟩
  | checkSession => exact ⟨h,rfl⟩
  | connectionAuthenticated a => exact h.commitAuthenticated hk
  | terminated a => exact ⟨h.removeSession hk,rfl⟩

/-- The events of a session that is deleted, none of which commits. -/
theorem Shortened.handle_deleted (hk : kept event.session=false)
    (hn : ∀a,event=.connectionAuthenticated a→s.commitAuthenticated a=none) :
    Shortened kept (s.handle event) s' ∧ s.stoppedBy event=[] := by
  cases event with
  | opened a isServer => exact ⟨h.openSession_deleted hk isServer,rfl⟩
  | updateSession a name => exact ⟨h.registerSession_deleted hk name,rfl⟩
  | checkSession => exact ⟨h,rfl⟩
  | connectionAuthenticated a =>
    have hno:=hn a rfl
    simp only [NodeServerState.handle,stoppedBy,hno]
    exact ⟨h,trivial⟩
  | terminated a => exact ⟨h.removeSession_deleted hk,rfl⟩

end

/-- No session but those that are kept ever authenticates. -/
def OthersNeverAuthenticate (kept : ℕ → Bool) :
    NodeServerState Name → List (NodeServerEvent Name) → Prop
  | _,[] => True
  | s,event::events =>
    (∀a,event=.connectionAuthenticated a → kept a=false → s.commitAuthenticated a=none) ∧
    OthersNeverAuthenticate kept (s.handle event) events

theorem othersNeverAuthenticate_append {before after : List (NodeServerEvent Name)} :
    OthersNeverAuthenticate kept s (before++after) ↔ OthersNeverAuthenticate kept s before ∧
        OthersNeverAuthenticate kept (s.run before) after := by
  induction before generalizing s with
  | nil => simp [OthersNeverAuthenticate,run]
  | cons event before ih => simp only [cons_append,OthersNeverAuthenticate,ih,run,
      foldl_cons,and_assoc]

theorem Shortened.run {events : List (NodeServerEvent Name)} (h : Shortened kept s s')
    (hn : OthersNeverAuthenticate kept s events) :
    Shortened kept (s.run events) (s'.run (events.filter fun event => kept event.session)) := by
  induction events generalizing s s' with
  | nil => exact h
  | cons event events ih =>
    cases hk : kept event.session with
    | true =>
      simp only [List.filter_cons,hk,if_true]
      exact ih (h.handle hk).1 hn.2
    | false =>
      have he : ∀a,event=.connectionAuthenticated a→s.commitAuthenticated a=none := by
        rintro a rfl
        exact hn.1 a rfl hk
      simp only [List.filter_cons,hk,Bool.false_eq_true,if_false]
      exact ih (h.handle_deleted hk he).1 hn.2

omit [LinearOrder Name] in
theorem Shortened.initial (kept : ℕ→Bool) (thisNodeName : Name) :
    Shortened kept {thisNodeName} {thisNodeName} :=
  ⟨rfl,rfl,fun _ _ => rfl,rfl,fun _ h => absurd h (notMem_empty _)⟩

/-! ### Results -/

omit [LinearOrder Name] in
theorem WellKept.initial (thisNodeName : Name) : WellKept {thisNodeName} :=
  ⟨fun _ hx => (not_mem_nil hx).elim,fun _ ha => by simp at ha,
    fun _ ha => absurd ha (notMem_empty _)⟩

theorem Settled.initial (thisNodeName : Name) : Settled {thisNodeName} :=
  ⟨fun _ _ hc => (not_mem_nil hc).elim,fun _ _ => ⟨fun _ hc => (not_mem_nil hc).elim,
    fun _ hc => (not_mem_nil hc).elim,fun _ hc => (not_mem_nil hc).elim⟩⟩

/-- Between two different nodes the election keeps exactly the authenticated sessions. -/
theorem Settled.mem_electSessions (h : s.Settled) (hk : s.WellKept) {peerName : Name}
    (hne : peerName≠s.thisNodeName) :
    a∈electSessions s.thisNodeName peerName (s.candidatesForPeer peerName) ↔
      a∈s.authenticatedSessions ∧ s.peerName? a=some peerName := by
  simp only [electSessions,List.mem_map,(h.uniform peerName hne).mem_electCandidates,
    mem_candidatesForPeer,hk.peerName?_eq_some_iff]
  constructor
  · rintro ⟨c,⟨x,hx,hp,ha,rfl⟩,rfl⟩
    exact ⟨ha,x,hx,rfl,hp⟩
  · rintro ⟨ha,x,hx,rfl,hp⟩
    exact ⟨_,⟨x,hx,hp,ha,rfl⟩,rfl⟩

theorem Settled.isElected_iff (h : s.Settled) (hk : s.WellKept)
    (hne : s.peerName? a≠some s.thisNodeName) :
    s.isElected a=true ↔ a∈s.authenticatedSessions := by
  unfold isElected
  refine ⟨fun hel => ?_,fun ha => ?_⟩
  · by_contra ha
    simp [ha] at hel
  · rw [if_pos ha]
    obtain ⟨x,hx,hid,hn⟩:=hk.authenticated a ha
    obtain ⟨peerName,hp⟩:=Option.ne_none_iff_exists'.mp hn
    have hna : s.peerName? a=some peerName := hk.peerName?_eq_some_iff.mpr ⟨x,hx,hid,hp⟩
    rw [hna] at hne ⊢
    simpa using (h.mem_electSessions hk fun he => hne (by rw [he])).mpr ⟨ha,hna⟩

theorem Settled.connectionId_eq (h : s.Settled) (hk : s.WellKept) {peerName : Name} {b : ℕ}
    (ha : a∈s.authenticatedSessions) (hap : s.peerName? a=some peerName)
    (hb : b∈s.authenticatedSessions) (hbp : s.peerName? b=some peerName) :
    s.connectionId a=s.connectionId b := by
  obtain ⟨x,hx,rfl,hxp⟩:=hk.peerName?_eq_some_iff.mp hap
  obtain ⟨y,hy,rfl,hyp⟩:=hk.peerName?_eq_some_iff.mp hbp
  exact h.connectionId peerName (s.candidate x) (mem_candidatesForPeer.mpr ⟨x,hx,hxp,ha,rfl⟩)
    (s.candidate y) (mem_candidatesForPeer.mpr ⟨y,hy,hyp,hb,rfl⟩)

/-- After every run, whatever the names and the connection ids:

* the tables mention open sessions only;
* the authenticated sessions with a peer other than the node itself are those that an election
  among them keeps, and `is_elected` holds of them alone;
* with distinct connection ids there is at most one such session for a peer;
* deleting the events of sessions that never authenticate changes neither the authenticated
  sessions nor the sessions that are stopped, and a registered session with which the shortened
  run goes on is not refused in the full one. -/
theorem unauthenticated_sessions_do_not_influence_election (thisNodeName : Name)
    (events : List (NodeServerEvent Name)) (hg : AdmitsAll {thisNodeName} events) :
    let s : NodeServerState Name := run {thisNodeName} events
    (∀a,(s.connectionIds a).isSome ∨ a∈s.authenticatedSessions → ∃x∈s.nodeSessions,x.actorId=a) ∧
    (∀peerName≠thisNodeName,∀a,
      a∈electSessions thisNodeName peerName (s.candidatesForPeer peerName) ↔
        a∈s.authenticatedSessions ∧ s.peerName? a=some peerName) ∧
    (∀a,s.peerName? a≠some thisNodeName → (s.isElected a=true ↔ a∈s.authenticatedSessions)) ∧
    (∀peerName,(∀a b,s.peerName? a=some peerName→s.peerName? b=some peerName →
        s.connectionId a=s.connectionId b→a=b) →
      ∀a∈s.authenticatedSessions,∀b∈s.authenticatedSessions,
        s.peerName? a=some peerName→s.peerName? b=some peerName→a=b) ∧
    ∀kept,OthersNeverAuthenticate kept {thisNodeName} events → ∀before after,events=before++after →
        let t : NodeServerState Name := run {thisNodeName} before
        let t' := run {thisNodeName} (before.filter fun event => kept event.session)
        t'.authenticatedSessions=t.authenticatedSessions ∧
        (∀event∈after.head?,
          t.stoppedBy event=if kept event.session then t'.stoppedBy event else []) ∧
        ∀x∈t'.nodeSessions,∀name : NameMessage Name,x.peerName=some name.name →
          t'.connectionId x.actorId=nonZeroId name.connectionId →
          (t'.checkSession name).continues=true→(t.checkSession name).continues=true := by
  intro s
  obtain ⟨hk,hsettled⟩:=settled_run (.initial thisNodeName) (.initial thisNodeName) hg
  have hthis : s.thisNodeName=thisNodeName:=run_thisNodeName {thisNodeName} events
  refine ⟨?_,?_,?_,?_,?_⟩
  · rintro a (hid | hauth)
    · exact hk.connections a hid
    · obtain ⟨x,hx,hid,-⟩:=hk.authenticated a hauth
      exact ⟨x,hx,hid⟩
  · intro peerName hne a
    rw [← hthis] at hne ⊢
    exact hsettled.mem_electSessions hk hne
  · intro a hne
    exact hsettled.isElected_iff hk (hthis.symm ▸ hne)
  · intro peerName hdistinct a ha b hb hap hbp
    exact hdistinct a b hap hbp (hsettled.connectionId_eq hk ha hap hb hbp)
  · rintro kept hnever before after rfl t t'
    obtain ⟨hbefore,hafter⟩:=othersNeverAuthenticate_append.mp hnever
    have hshort:=(Shortened.initial kept thisNodeName).run hbefore
    refine ⟨hshort.authenticatedSessions,?_,?_⟩
    · intro event hevent
      obtain ⟨rest,rfl⟩ : ∃rest,after=event::rest := by
        cases after with
        | nil => cases hevent
        | cons first rest => exact ⟨rest,by rw [Option.mem_some.mp hevent]⟩
      cases hkept : kept event.session with
      | true => exact (hshort.handle hkept).2.symm
      | false =>
        refine (hshort.handle_deleted hkept fun a ha => hafter.1 a ha ?_).2
        rwa [ha] at hkept
    · intro x hx name hname hid hc
      exact hshort.continues (mem_matchingSessions.mpr ⟨x,hx,hname,hid,rfl⟩) hc

/-- Session `2` claims the name and the connection id of session `1` and never authenticates.
Without it, the same sessions are authenticated, and session `3` takes the place of session `1`. -/
theorem unauthenticated_sessions_do_not_influence_election_spoofed :
    let before : List (NodeServerEvent ℕ) :=
      [.opened 1 true,.updateSession 1 ⟨1,5⟩,.opened 2 true,.updateSession 2 ⟨1,5⟩,
        .connectionAuthenticated 1,.opened 3 true,.updateSession 3 ⟨1,4⟩]
    let t : NodeServerState ℕ := run {thisNodeName:=0} before
    let t' := run {thisNodeName:=0} (before.filter fun event => event.session≠2)
    t.isElected 1=true ∧ t'.authenticatedSessions=t.authenticatedSessions ∧
      t.stoppedBy (.connectionAuthenticated 3)=[1] ∧
      t'.stoppedBy (.connectionAuthenticated 3)=[1] := by
  intro before t t'
  have hg : AdmitsAll {thisNodeName:=0} before := ⟨rfl,rfl,rfl,rfl,trivial,rfl,rfl,trivial⟩
  obtain ⟨-,-,helected,-,-⟩:=unauthenticated_sessions_do_not_influence_election 0 before hg
  have hg' : AdmitsAll {thisNodeName:=0} (before++[.connectionAuthenticated 3]) :=
    ⟨rfl,rfl,rfl,rfl,trivial,rfl,rfl,trivial,trivial⟩
  obtain ⟨-,-,-,-,hdelete⟩:=unauthenticated_sessions_do_not_influence_election 0 _ hg'
  obtain ⟨hauth,hstopped,-⟩:=hdelete (· ≠ 2) (by simp [before,OthersNeverAuthenticate]) before _ rfl
  have hlosers : t.stoppedBy (.connectionAuthenticated 3)=[1] := by decide
  exact ⟨(helected 1 (by decide)).mpr (by decide),hauth,hlosers,(hstopped _ rfl).symm.trans hlosers⟩

/-- Sessions of a node with itself. Neither direction is preferred, so that a client and two
servers are kept; once the client is gone, an election would keep one of the servers. -/
theorem authenticated_sessions_with_itself_unsettled :
    let events : List (NodeServerEvent ℕ) :=
      [.opened 0 false,.opened 1 true,.opened 2 true,.updateSession 0 ⟨0,0⟩,
        .updateSession 1 ⟨0,0⟩,.updateSession 2 ⟨0,0⟩,.connectionAuthenticated 0,
        .connectionAuthenticated 1,.connectionAuthenticated 2,.terminated 0]
    let s : NodeServerState ℕ := run {thisNodeName:=0} events
    AdmitsAll {thisNodeName:=0} events ∧
      2∈s.authenticatedSessions ∧ s.peerName? 2=some 0 ∧ s.isElected 2=false ∧
      2∉electSessions 0 0 (s.candidatesForPeer 0) := by
  refine ⟨⟨rfl,rfl,rfl,rfl,rfl,rfl,trivial,trivial,trivial,trivial,trivial⟩,?_⟩
  decide

end Ractor.NodeServerState
