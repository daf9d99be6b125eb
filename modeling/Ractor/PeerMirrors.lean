import Ractor.GroupChanges
import Ractor.NodeSessionMessages

/-!
# The mirror at the peer

What a session keeps of the actors of the node at the other end: the stand-ins in its map, and the
groups that they are in at its own node. For one actor this is a view, and every control message is
a note on it.
-/

namespace Ractor
open SessionState ViewNote List Function ActorId Option PgState

structure KeyOrder where
  order : Finset ScopeGroupKey → List ScopeGroupKey
  enumerates : ∀keys,Enumerates order keys

def ControlMessage.notes {Name : Type} (pid : UInt64) :
    ControlMessage Name → List (ViewNote ScopeGroupKey)
  | .spawn actors => if pid∈actors.map (·.pid) then [.create] else []
  | .terminate ids => if pid∈ids then [.remove] else []
  | .pgJoin scope group actors => if pid∈actors.map (·.pid) then [.mark ⟨scope,group⟩] else []
  | .pgLeave scope group actors => if pid∈actors.map (·.pid) then [.unmark ⟨scope,group⟩] else []
  | .ready | .ping _ | .pong _ | .enumerateNodeSessions _ | .nodeSessions _ => []

/-- The process groups of the node of a session, and the events that the session is still to handle. -/
structure PeerSurroundings where
  groups : Groups ActorId:={}
  events : List SessionEvent:=[]

namespace PeerSurroundings
variable {Name Challenge Digest : Type}

/-- A stand-in that is spawned is running, and one that is stopped has cleaned up and told its
supervisor. -/
def observe (order : KeyOrder) (around : PeerSurroundings) :
    SessionEffect Name Challenge Digest → PeerSurroundings
  | .spawn proxy =>
    {around with groups.status:=update around.groups.status proxy.id .running}
  | .stop proxy _ | .kill proxy =>
    { groups:=around.groups.setStatus proxy.id .stopped order.order
      events:=around.events++[.actorTerminated proxy] }
  | .joinScoped scope group proxies =>
    {around with
      groups.pg:=around.groups.pg.joinScoped around.groups.status scope group (proxies.map (·.id))}
  | .leaveScoped scope group proxies =>
    {around with groups.pg:=around.groups.pg.leaveScoped scope group (proxies.map (·.id))}
  | .send _ | .deliver _ _ | .answer _ _ _ | .connect _ | .tellServer _ => around

end PeerSurroundings

structure PeerMirror (Name Challenge Digest : Type) where
  session : SessionState Name Challenge Digest
  around : PeerSurroundings:={}

variable {pid : UInt64} {proxy : ActorHandle}

namespace PeerMirror
variable {Name Challenge Digest : Type}

def follow (order : KeyOrder) (s : PeerMirror Name Challenge Digest)
    (session : SessionState Name Challenge Digest) : PeerMirror Name Challenge Digest where
  session:=session
  around:=(session.effects.drop s.session.effects.length).foldl
    (PeerSurroundings.observe order) s.around

def view (s : PeerMirror Name Challenge Digest) (pid : UInt64) : Option (Set ScopeGroupKey) :=
  (s.session.remoteActors pid).map fun proxy => {key | proxy.id∈s.around.groups.pg.members key}

/-- The stand-ins in the map are running, and the others are in no group. -/
structure Consistent (nodeId : UInt64) (s : PeerMirror Name Challenge Digest) : Prop where
  ids : ∀pid proxy,s.session.remoteActors pid=some proxy → proxy.id=.remote nodeId pid
  running : ∀pid proxy,s.session.remoteActors pid=some proxy →
    s.around.groups.status proxy.id ≤ .draining
  absent : ∀pid,s.session.remoteActors pid=none →
    ∀key,.remote nodeId pid∉s.around.groups.pg.members key
  sound : s.around.groups.Sound

/-- The step makes of the views what the notes say. The events that are added are those of stand-ins
that the notes remove. -/
structure Refines (nodeId : UInt64) (s : PeerMirror Name Challenge Digest)
    (notes : UInt64 → List (ViewNote ScopeGroupKey)) (s' : PeerMirror Name Challenge Digest) :
    Prop where
  consistent : s'.Consistent nodeId
  views : ∀pid,s'.view pid=replay (s.view pid) (notes pid)
  events : ∀event∈s'.around.events,event∈s.around.events ∨ ∃pid proxy,
    event=.actorTerminated proxy ∧ proxy.id=.remote nodeId pid ∧ .remove∈notes pid

/-- The session goes to another state and adds effects, and the views follow the notes. It is still
authenticated if it was, with the same peer. -/
structure Mirrors (nodeId : UInt64) (order : KeyOrder) (s : PeerMirror Name Challenge Digest)
    (notes : UInt64 → List (ViewNote ScopeGroupKey)) (session : SessionState Name Challenge Digest) :
    Prop where
  identity : session.auth=s.session.auth ∧ session.name=s.session.name
  effects : s.session.effects <+: session.effects
  refines : s.Refines nodeId notes (s.follow order session)

variable {nodeId : UInt64} {order : KeyOrder} {s s' : PeerMirror Name Challenge Digest}
  {notes notes' : UInt64 → List (ViewNote ScopeGroupKey)}
  {session session' : SessionState Name Challenge Digest}

theorem follow_eq {new : List (SessionEffect Name Challenge Digest)}
    (h : session.effects=s.session.effects++new) :
    s.follow order session=⟨session,new.foldl (PeerSurroundings.observe order) s.around⟩ := by
  rw [follow,h,drop_left]

theorem follow_follow (h : s.session.effects <+: session.effects)
    (h' : session.effects <+: session'.effects) :
    (s.follow order session).follow order session'=s.follow order session' := by
  obtain ⟨new,hnew⟩:=h
  obtain ⟨new',hn'⟩:=h'
  have hb : session'.effects=s.session.effects++(new++new') := by
    rw [← hn',← hnew,append_assoc]
  rw [follow_eq hb,follow_eq hnew.symm,follow_eq hn'.symm,foldl_append]

namespace Mirrors

theorem trans (h : Mirrors nodeId order s notes session)
    (h' : Mirrors nodeId order (s.follow order session) notes' session') :
    Mirrors nodeId order s (fun pid => notes pid++notes' pid) session' := by
  have he : session.effects <+: session'.effects:=h'.effects
  have hr:=h'.refines
  rw [follow_follow h.effects he] at hr
  have hi : session'.auth=s.session.auth ∧ session'.name=s.session.name :=
    ⟨h'.identity.1.trans h.identity.1,h'.identity.2.trans h.identity.2⟩
  refine ⟨hi,h.effects.trans he,hr.consistent,fun pid => ?_,fun event hm => ?_⟩
  · rw [hr.views,h.refines.views,replay_append]
  · rcases hr.events event hm with hm | ⟨pid,proxy,heq,hid,hre⟩
    · refine (h.refines.events event hm).imp_right fun ⟨pid,proxy,heq,hid,hre⟩ => ?_
      exact ⟨pid,proxy,heq,hid,mem_append_left _ hre⟩
    · exact .inr ⟨pid,proxy,heq,hid,mem_append_right _ hre⟩

/-- The notes may be others that say the same. -/
theorem congr (h : Mirrors nodeId order s notes session)
    (hr : ∀pid,replay (s.view pid) (notes pid)=replay (s.view pid) (notes' pid))
    (hre : ∀pid,.remove∈notes pid → .remove∈notes' pid) :
    Mirrors nodeId order s notes' session :=
  ⟨h.identity,h.effects,h.refines.consistent,fun pid => (h.refines.views pid).trans (hr pid),
    fun event hm => (h.refines.events event hm).imp_right fun ⟨pid,proxy,heq,hid,hm⟩ =>
      ⟨pid,proxy,heq,hid,hre pid hm⟩⟩

theorem inert (hs : s.Consistent nodeId) (hr : session.remoteActors=s.session.remoteActors)
    {new : List (SessionEffect Name Challenge Digest)}
    (he : session.effects=s.session.effects++new)
    (hi : ∀effect∈new,∀around,PeerSurroundings.observe order around effect=around)
    (hau : session.auth=s.session.auth := by rfl)
    (hn : session.name=s.session.name := by rfl) :
    Mirrors nodeId order s (fun _ => []) session := by
  have ha : (s.follow order session).around=s.around := by
    rw [follow_eq he]
    clear he
    induction new with
    | nil => rfl
    | cons effect new ih =>
      rw [foldl_cons,hi effect mem_cons_self]
      exact ih fun effect hm => hi effect (mem_cons_of_mem _ hm)
  have hse : (s.follow order session).session.remoteActors=s.session.remoteActors:=hr
  refine ⟨⟨hau,hn⟩,⟨new,he.symm⟩,⟨?_,?_,?_,?_⟩,fun pid => ?_,fun event hm => .inl ?_⟩
  · rw [hse]
    exact hs.ids
  · rw [hse,ha]
    exact hs.running
  · rw [hse,ha]
    exact hs.absent
  · rw [ha]
    exact hs.sound
  · rw [view,hse,ha]
    rfl
  · rwa [ha] at hm

theorem refl (hs : s.Consistent nodeId) : Mirrors nodeId order s (fun _ => []) s.session :=
  inert hs rfl (append_nil _).symm nofun

end Mirrors

/-! ### Spawning -/

theorem consistent_spawn (hs : s.Consistent nodeId) (hpr : proxy.id=.remote nodeId pid)
    (hr : session.remoteActors=update s.session.remoteActors pid (some proxy)) :
    Consistent nodeId ⟨session,{s.around with
      groups.status:=update s.around.groups.status proxy.id .running}⟩ := by
  refine ⟨fun other p hp => ?_,fun other p hp => ?_,fun other ho => ?_,?_⟩
  · by_cases heq : other=pid
    · subst heq
      obtain rfl : proxy=p := by simpa [hr] using hp
      exact hpr
    · exact hs.ids other p (by simpa [hr,heq] using hp)
  · by_cases hid : p.id=proxy.id
    · simp [hid]
      decide
    · have hne : other≠pid := by
        rintro rfl
        obtain rfl : proxy=p := by simpa [hr] using hp
        exact hid rfl
      simpa [hid] using hs.running other p (by simpa [hr,hne] using hp)
  · have hne : other≠pid := by
      rintro rfl
      simp [hr] at ho
    exact hs.absent other (by simpa [hr,hne] using ho)
  · refine ⟨hs.sound.toCoherent,fun actor hst => ?_⟩
    by_cases hid : actor=proxy.id
    · subst hid
      simp at hst
      exact absurd hst (by decide)
    · exact hs.sound.gone actor (by simpa [hid] using hst)

variable {config : SessionConfig Name Challenge Digest} {outcomes : SessionOutcomes Name Challenge}
  (order)

theorem mirrors_getOrSpawn (hs : s.Consistent config.nodeId) (name : Option String) (pid : UInt64)
    (hsp : outcomes.spawns pid=true) :
    let result := s.session.getOrSpawnRemoteActor config outcomes name pid
    Mirrors config.nodeId order s (fun other => if other=pid then [.create] else []) result.2 ∧
      ∃proxy,result.1=some proxy ∧ proxy.id=.remote config.nodeId pid := by
  unfold getOrSpawnRemoteActor
  split
  next actor ha =>
    refine ⟨(Mirrors.refl hs).congr (fun other => ?_) nofun,actor,rfl,hs.ids pid actor ha⟩
    split
    next heq => simp [replay,apply,view,heq,ha]
    next => rfl
  next hn =>
    rw [if_pos hsp]
    refine ⟨⟨⟨rfl,rfl⟩,⟨_,rfl⟩,?_⟩,_,rfl,rfl⟩
    rw [follow_eq rfl]
    refine ⟨consistent_spawn hs rfl rfl,fun other => ?_,fun event hm => .inl hm⟩
    by_cases heq : other=pid
    · subst heq
      have he : {key | remote config.nodeId other∈s.around.groups.pg.members key}=∅ :=
        Set.eq_empty_of_forall_notMem (hs.absent other hn)
      simpa [view,hn,replay,apply,perform,remoteActor,PeerSurroundings.observe] using he
    · simp [view,heq,replay,perform,PeerSurroundings.observe]

theorem mirrors_getOrSpawnAll (hsp : ∀pid,outcomes.spawns pid=true) (actors : List NetActor)
    (hs : s.Consistent config.nodeId) :
    let result := getOrSpawnAll config outcomes actors s.session
    Mirrors config.nodeId order s
        (fun pid => (actors.filter (·.pid=pid)).map fun _ => .create) result.2 ∧
      result.1.map (·.id)=actors.map fun actor => .remote config.nodeId actor.pid := by
  induction actors generalizing s with
  | nil => exact ⟨.refl hs,rfl⟩
  | cons actor actors ih =>
    obtain ⟨hf,proxy,hp,hid⟩ := mirrors_getOrSpawn order hs actor.name actor.pid (hsp actor.pid)
    dsimp only at hf hp ⊢
    rw [getOrSpawnAll]
    generalize s.session.getOrSpawnRemoteActor config outcomes actor.name actor.pid=result at hf hp
    obtain ⟨found,session⟩:=result
    obtain rfl : found=some proxy:=hp
    obtain ⟨hr,hids⟩:=ih hf.refines.consistent
    refine ⟨(hf.trans hr).congr (fun pid => ?_) (fun pid hm => ?_),?_⟩
    · by_cases heq : actor.pid=pid
      · simp [heq]
      · simp [heq,Ne.symm heq]
    · split at hm <;> simp at hm
    · rw [map_cons,map_cons,hid]
      exact congrArg _ hids

/-! ### Groups -/

theorem view_of_some (hs : s.Consistent nodeId) (h : s.session.remoteActors pid=some proxy) :
    s.view pid=some {key | remote nodeId pid∈s.around.groups.pg.members key} := by
  rw [view,h,map_some,hs.ids pid proxy h]

theorem view_of_none (h : s.session.remoteActors pid=none) : s.view pid=none := by
  rw [view,h]
  rfl

/-- An effect that only changes who is in which group. -/
theorem mirrors_regroup (hs : s.Consistent nodeId) {pg : PgState ActorId}
    {effect : SessionEffect Name Challenge Digest}
    (ho : PeerSurroundings.observe order s.around effect={s.around with groups.pg:=pg})
    (hso : Groups.Sound {s.around.groups with pg:=pg})
    (hn : ∀pid,s.session.remoteActors pid=none → replay none (notes pid)=none ∧
      ∀key,remote nodeId pid∉pg.members key)
    (hp : ∀pid,s.session.remoteActors pid≠none →
      replay (some {key | remote nodeId pid∈s.around.groups.pg.members key}) (notes pid) =
        some {key | remote nodeId pid∈pg.members key}) :
    Mirrors nodeId order s notes (s.session.perform effect) := by
  refine ⟨⟨rfl,rfl⟩,⟨_,rfl⟩,?_⟩
  rw [follow_eq rfl,foldl_cons,foldl_nil,ho]
  have hc : Consistent nodeId ⟨s.session.perform effect,{s.around with groups.pg:=pg}⟩ :=
    ⟨hs.ids,hs.running,fun pid h => (hn pid h).2,hso⟩
  refine ⟨hc,fun pid => ?_,fun _ hm => .inl hm⟩
  cases hr : s.session.remoteActors pid with
  | none =>
    rw [view_of_none hr,(hn pid hr).1]
    exact view_of_none (s:=⟨s.session.perform effect,_⟩) hr
  | some proxy =>
    rw [view_of_some hs hr,hp pid (hr ▸ some_ne_none proxy)]
    exact view_of_some hc hr

theorem mirrors_joinScoped (hs : s.Consistent nodeId) {scope group : String}
    {proxies : List ActorHandle} {pids : List UInt64}
    (hids : proxies.map (·.id)=pids.map (.remote nodeId))
    (hpr : ∀pid∈pids,s.session.remoteActors pid≠none) :
    Mirrors nodeId order s (fun pid => if pid∈pids then [.mark ⟨scope,group⟩] else [])
      (s.session.perform (.joinScoped scope group proxies)) := by
  have hme : ∀pid key,remote nodeId pid∈(s.around.groups.pg.joinScoped
      s.around.groups.status scope group (proxies.map (·.id))).members key ↔
        key=⟨scope,group⟩ ∧ pid∈pids ∨ remote nodeId pid∈s.around.groups.pg.members key := by
    intro pid key
    have hmem : remote nodeId pid∈proxies.map (·.id) ↔ pid∈pids := by simp [hids]
    rw [mem_members_joinScoped,hmem]
    have himp : pid∈pids→s.around.groups.status (.remote nodeId pid) ≤ .draining := by
      intro hpid
      obtain ⟨proxy,hp⟩:=ne_none_iff_exists'.mp (hpr pid hpid)
      rw [← hs.ids pid proxy hp]
      exact hs.running pid proxy hp
    rw [and_iff_left_of_imp himp]
  obtain ⟨hc,hg⟩:=hs.sound.toCoherent.joinScoped hs.sound.gone scope group (proxies.map (·.id))
  refine mirrors_regroup order hs rfl ⟨hc,hg⟩ (fun pid hn => ?_) fun pid _ => ?_
  · have hpid : pid∉pids:=fun hpid => hpr pid hpid hn
    rw [if_neg hpid]
    exact ⟨rfl,fun key hm => ((hme pid key).mp hm).elim (hpid ·.2) (hs.absent pid hn key)⟩
  · by_cases hpid : pid∈pids <;> simp [hpid,hme,replay,apply,Set.ext_iff]

theorem mirrors_leaveScoped (hs : s.Consistent nodeId) {scope group : String} {pids : List UInt64} :
    Mirrors nodeId order s (fun pid => if pid∈pids then [.unmark ⟨scope,group⟩] else [])
      (s.session.perform (.leaveScoped scope group (pids.filterMap s.session.remoteActors))) := by
  have hme : ∀pid,s.session.remoteActors pid≠none →
      (remote nodeId pid∈(pids.filterMap s.session.remoteActors).map (·.id) ↔ pid∈pids) := by
    intro pid hpre
    obtain ⟨proxy,hp⟩:=ne_none_iff_exists'.mp hpre
    constructor
    · intro hm
      obtain ⟨other,ho,hid⟩:=mem_map.mp hm
      obtain ⟨pid',hp',ho⟩:=mem_filterMap.mp ho
      rw [hs.ids pid' other ho] at hid
      cases hid
      exact hp'
    · intro hpid
      exact mem_map.mpr ⟨proxy,mem_filterMap.mpr ⟨pid,hpid,hp⟩,hs.ids pid proxy hp⟩
  obtain ⟨hc,hpo⟩:=hs.sound.toCoherent.leaveSection ⟨scope,group⟩
    ((pids.filterMap s.session.remoteActors).map (·.id))
  refine mirrors_regroup order hs rfl ⟨hc,fun actor ha => hpo ▸ hs.sound.gone actor ha⟩
    (fun pid hn => ⟨?_,fun key hm => ?_⟩) fun pid hp => ?_
  · split <;> rfl
  · exact hs.absent pid hn key (mem_members_leaveScoped.mp hm).1
  · by_cases hpid : pid∈pids <;>
      simp [mem_members_leaveScoped,hme pid hp,hpid,replay,apply,Set.ext_iff]

/-! ### Stopping -/

theorem mem_members_setStatus_of_ne {g : Groups ActorId} {actor other : ActorId}
    {status : ActorStatus} {order : Finset ScopeGroupKey → List ScopeGroupKey} {key : ScopeGroupKey}
    (hne : other≠actor) :
    other∈(g.setStatus actor status order).pg.members key ↔ other∈g.pg.members key := by
  unfold Groups.setStatus
  dsimp only
  split
  · rw [mem_members_leaveAll_of_ne hne,(KeepsOthers.demonitorAll _ _ _).members]
  · rfl

/-- An actor that has stopped is in no group. -/
theorem notMem_members_of_stopped {g : Groups ActorId} (hg : g.Sound) {actor : ActorId}
    (hs : .stopping≤g.status actor) (key : ScopeGroupKey) : actor∉g.pg.members key := by
  rw [hg.member,relationsOf_of_none (hg.gone actor hs)]
  exact Finset.notMem_empty _

theorem mirrors_stop (hs : s.Consistent nodeId) (hpr : s.session.remoteActors pid=some proxy)
    (reason : String) :
    Mirrors nodeId order s (fun other => if other=pid then [.remove] else [])
      ({s.session with remoteActors:=update s.session.remoteActors pid none}.perform
        (.stop proxy reason)) := by
  have hid:=hs.ids pid proxy hpr
  have hv : s.around.groups.Visits proxy.id order.order :=
    ⟨order.enumerates _,order.enumerates _,order.enumerates _⟩
  have hso:=hs.sound.setStatus .stopped hv
  have hst : .stopping≤(s.around.groups.setStatus proxy.id .stopped order.order).status
      proxy.id := by
    simp [Groups.setStatus]
    exact .inr (by decide)
  have ho {other : UInt64} (hne : other≠pid) : remote nodeId other≠proxy.id := by
    rw [hid]
    exact fun heq => hne (remote.inj heq).2
  have hg : update s.session.remoteActors pid none pid=none:=update_self ..
  have hk {other : UInt64} (hne : other≠pid) :
      update s.session.remoteActors pid none other=s.session.remoteActors other :=
    update_of_ne hne ..
  have hc : Consistent nodeId
      ⟨{s.session with remoteActors:=update s.session.remoteActors pid none}.perform
        (.stop proxy reason),PeerSurroundings.observe order s.around
          (.stop proxy reason : SessionEffect Name Challenge Digest)⟩ := by
    refine ⟨fun other p hp => ?_,fun other p hp => ?_,fun other hn key => ?_,hso⟩
    · have hne : other≠pid:=fun heq => by rw [heq] at hp; exact nomatch hg.symm.trans hp
      exact hs.ids other p ((hk hne).symm.trans hp)
    · have hne : other≠pid:=fun heq => by rw [heq] at hp; exact nomatch hg.symm.trans hp
      have hp : s.session.remoteActors other=some p:=(hk hne).symm.trans hp
      have hpid : p.id≠proxy.id := by
        rw [hs.ids other p hp]
        exact ho hne
      have hsta : (s.around.groups.setStatus proxy.id .stopped order.order).status p.id =
        s.around.groups.status p.id:=update_of_ne hpid ..
      exact hsta.trans_le (hs.running other p hp)
    · by_cases heq : other=pid
      · rw [heq,← hid]
        exact notMem_members_of_stopped hso hst key
      · refine fun hm => hs.absent other ((hk heq).symm.trans hn) key ?_
        exact (mem_members_setStatus_of_ne (ho heq)).mp hm
  refine ⟨⟨rfl,rfl⟩,⟨_,rfl⟩,?_⟩
  rw [follow_eq rfl]
  refine ⟨hc,fun other => ?_,fun event hm => ?_⟩
  · by_cases heq : other=pid
    · rw [if_pos heq,heq]
      exact view_of_none hg
    · rw [if_neg heq]
      cases ho' : s.session.remoteActors other with
      | none => exact (view_of_none ((hk heq).trans ho')).trans (view_of_none ho').symm
      | some p =>
        refine (view_of_some hc ((hk heq).trans ho')).trans ?_
        rw [view_of_some hs ho']
        refine congrArg some (Set.ext fun key => ?_)
        exact mem_members_setStatus_of_ne (ho heq)
  · rcases mem_append.mp hm with hm | hm
    · exact .inl hm
    · refine .inr ⟨pid,proxy,mem_singleton.mp hm,hid,?_⟩
      rw [if_pos rfl]
      exact mem_singleton_self _

theorem mirrors_terminateAll (hst : ∀pid,outcomes.stops pid=true) (ids : List UInt64)
    (hs : s.Consistent nodeId) :
    Mirrors nodeId order s (fun pid => if pid∈ids then [.remove] else [])
      (terminateAll outcomes ids s.session) := by
  induction ids generalizing s with
  | nil => exact .refl hs
  | cons pid ids ih =>
    rw [terminateAll]
    split
    next proxy hp =>
      have hstop:=mirrors_stop order hs hp "remote"
      rw [if_pos (hst pid)]
      refine (hstop.trans (ih hstop.refines.consistent)).congr (fun other => ?_) fun other hm => ?_
      · rcases eq_or_ne other pid with rfl | hne
        · by_cases hm : other∈ids <;> simp [hm,replay,apply]
        · simp [hne]
      · by_cases heq : other=pid <;> by_cases hin : other∈ids <;> simp_all
    next hn =>
      refine (ih hs).congr (fun other => ?_) fun other hm => ?_
      · by_cases heq : other=pid
        · rw [heq,view_of_none hn]
          by_cases hm : pid∈ids <;> simp [hm,replay,apply]
        · simp [heq]
      · by_cases hin : other∈ids <;> simp_all

/-! ### Control messages -/

theorem replay_creates (view : Option (Set ScopeGroupKey)) (pid : UInt64) (actors : List NetActor) :
    replay view ((actors.filter (·.pid=pid)).map fun _ => .create) =
      replay view (if pid∈actors.map (·.pid) then [.create] else []) := by
  induction actors generalizing view with
  | nil => rfl
  | cons actor actors ih =>
    by_cases heq : actor.pid=pid
    · have hn : replay (some (view.getD ∅)) (if pid∈actors.map (·.pid) then
          [.create] else [])=some (view.getD ∅) := by split <;> rfl
      have hf : replay view (if pid∈(actor::actors).map (·.pid) then
          [.create] else [])=some (view.getD ∅) := by
        simp [heq]
        rfl
      rw [filter_cons,if_pos (decide_eq_true heq),map_cons]
      exact ((ih (some (view.getD ∅))).trans hn).trans hf.symm
    · simpa [heq,Ne.symm heq] using ih view

theorem mirrors_spawn (hsp : ∀pid,outcomes.spawns pid=true) (actors : List NetActor)
    (hs : s.Consistent config.nodeId) :
    Mirrors config.nodeId order s (fun pid => if pid∈actors.map (·.pid) then [.create] else [])
      (getOrSpawnAll config outcomes actors s.session).2 := by
  refine (mirrors_getOrSpawnAll order hsp actors hs).1.congr (fun pid => ?_) fun pid hm => ?_
  · exact replay_creates (s.view pid) pid actors
  · simp at hm

theorem isSome_view : (s.view pid).isSome=true ↔ s.session.remoteActors pid≠none := by
  rw [view,isSome_map,isSome_iff_ne_none]

theorem mirrors_pgJoin (hspa : ∀pid,outcomes.spawns pid=true) (scope group : String)
    (actors : List NetActor) (hs : s.Consistent config.nodeId) :
    let result := getOrSpawnAll config outcomes actors s.session
    Mirrors config.nodeId order s
      (fun pid => if pid∈actors.map (·.pid) then [.mark ⟨scope,group⟩] else [])
      (if result.1=[] then result.2 else result.2.perform (.joinScoped scope group result.1)) := by
  have hsp:=mirrors_spawn order hspa actors hs
  have hids:=(mirrors_getOrSpawnAll order hspa actors hs).2
  dsimp only at hids ⊢
  generalize getOrSpawnAll config outcomes actors s.session=result at hsp hids
  split
  next hnil =>
    obtain rfl : actors=[] := by simpa [hnil] using hids
    exact hsp
  next =>
    have hp : ∀pid∈actors.map (·.pid),(s.follow order result.2).session.remoteActors pid≠none := by
      intro pid hpid
      rw [← isSome_view,hsp.refines.views,if_pos hpid]
      rfl
    have hj : Mirrors config.nodeId order (s.follow order result.2) _
        (result.2.perform (.joinScoped scope group result.1)) :=
      mirrors_joinScoped order hsp.refines.consistent (by simpa [comp_def] using hids) hp
    refine (hsp.trans hj).congr (fun pid => ?_) fun pid hm => ?_
    · by_cases hpid : pid∈actors.map (·.pid)
      · simp only [if_pos hpid]
        rfl
      · simp only [if_neg hpid]
        rfl
    · by_cases hpid : pid∈actors.map (·.pid) <;> simp [hpid] at hm

theorem mirrors_pgLeave (scope group : String) (actors : List NetActor) (hs : s.Consistent nodeId) :
    let cells := actors.filterMap fun actor => s.session.remoteActors actor.pid
    Mirrors nodeId order s
      (fun pid => if pid∈actors.map (·.pid) then [.unmark ⟨scope,group⟩] else [])
      (if cells=[] then s.session else s.session.perform (.leaveScoped scope group cells)) := by
  have hc : (actors.filterMap fun actor => s.session.remoteActors actor.pid) =
      (actors.map (·.pid)).filterMap s.session.remoteActors := by
    rw [filterMap_map]
    rfl
  rw [hc]
  dsimp only
  split
  next hnil =>
    refine (Mirrors.refl hs).congr (fun pid => ?_) nofun
    split
    next hpid =>
      rw [view_of_none (filterMap_eq_nil_iff.mp hnil pid hpid)]
      rfl
    next => rfl
  next => exact mirrors_leaveScoped order hs

theorem mirrors_ready (hs : s.Consistent nodeId) :
    Mirrors nodeId order s (fun _ => []) (s.session.handleReadyMessage outcomes) := by
  unfold handleReadyMessage
  split
  next => exact .inert hs rfl (append_nil _).symm nofun
  next =>
    unfold tellServer
    split
    · exact .inert hs rfl rfl (by simp [PeerSurroundings.observe])
    · exact .inert hs rfl (append_nil _).symm nofun
  next => exact .refl hs
  next => exact .refl hs

theorem mirrors_pong (timestamp : Option Timestamp) (hs : s.Consistent nodeId) :
    Mirrors nodeId order s (fun _ => []) (s.session.handlePong outcomes timestamp) := by
  unfold handlePong
  split
  next =>
    split
    · exact .inert hs rfl (append_nil _).symm nofun
    · exact .refl hs
  next => exact .inert hs rfl (append_nil _).symm nofun

theorem mirrors_enumerateNodeSessions [DecidableEq Name] (whosAsking : PeerIdentity Name)
    (hs : s.Consistent nodeId) :
    Mirrors nodeId order s (fun _ => [])
      (s.session.handleEnumerateNodeSessions outcomes whosAsking) := by
  unfold handleEnumerateNodeSessions
  split
  next => exact .inert hs rfl rfl (by simp [PeerSurroundings.observe])
  next => exact .refl hs

theorem mirrors_connect (sessions : List (PeerIdentity Name)) (hs : s.Consistent nodeId) :
    Mirrors nodeId order s (fun _ => [])
      (sessions.foldl (fun s session => s.perform (.connect session.connectionString)) s.session) := by
  induction sessions generalizing s with
  | nil => exact .refl hs
  | cons session sessions ih =>
    have hf : Mirrors nodeId order s (fun _ => [])
        (s.session.perform (.connect session.connectionString)) :=
      .inert hs rfl rfl (by simp [PeerSurroundings.observe])
    exact hf.trans (ih hf.refines.consistent)

theorem mirrors_nodeSessions [DecidableEq Name] (sessions : List (PeerIdentity Name))
    (hs : s.Consistent nodeId) :
    Mirrors nodeId order s (fun _ => []) (s.session.handleNodeSessions config outcomes sessions) := by
  unfold handleNodeSessions
  split
  next => exact mirrors_connect order _ hs
  next => exact .refl hs

/-- A control message is a note to the views. -/
theorem mirrors_handleControl [DecidableEq Name] (hsp : ∀pid,outcomes.spawns pid=true)
    (hst : ∀pid,outcomes.stops pid=true) (hs : s.Consistent config.nodeId)
    (ha : s.session.auth.isOk=true) (message : ControlMessage Name) :
    Mirrors config.nodeId order s (fun pid => message.notes pid)
      (s.session.handleControl config outcomes (some message)) := by
  unfold handleControl
  rw [if_pos ha]
  cases message with
  | spawn actors => exact mirrors_spawn order hsp actors hs
  | terminate ids => exact mirrors_terminateAll order hst ids hs
  | pgJoin scope group actors => exact mirrors_pgJoin order hsp scope group actors hs
  | pgLeave scope group actors => exact mirrors_pgLeave order scope group actors hs
  | ready => exact mirrors_ready order hs
  | ping timestamp => exact .inert hs rfl rfl (by simp [PeerSurroundings.observe])
  | pong timestamp => exact mirrors_pong order timestamp hs
  | enumerateNodeSessions whosAsking => exact mirrors_enumerateNodeSessions order whosAsking hs
  | nodeSessions sessions => exact mirrors_nodeSessions order sessions hs

theorem mirrors_actorTerminated (hst : ∀pid,outcomes.stops pid=true)
    (htcp : config.tcp.isLocal=true) {actor : ActorHandle}
    (hid : actor.id=.remote config.nodeId pid) (hs : s.Consistent config.nodeId) :
    Mirrors config.nodeId order s (fun other => if other=pid then [.remove] else [])
      (s.session.handleSupervisorEvt config outcomes (.actorTerminated actor)) := by
  have hpid : actor.id.pid=pid := by
    rw [hid]
    rfl
  have ho : actor.id≠config.tcp := by
    intro heq
    rw [← heq,hid] at htcp
    cases htcp
  simp only [handleSupervisorEvt,handleActorTerminated,if_neg ho,hpid]
  split
  next proxy hp =>
    rw [if_pos (hst pid)]
    exact mirrors_stop order hs hp "remote_exit"
  next hn =>
    refine (Mirrors.refl hs).congr (fun other => ?_) nofun
    split
    next heq =>
      rw [heq,view_of_none hn]
      rfl
    next => rfl

end PeerMirror
end Ractor
