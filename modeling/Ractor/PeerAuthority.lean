import Ractor.NodeSessionMessages
import Ractor.ReachableRuns

/-!
# What a peer can reach

A session takes messages from its peer in any order, between supervision events and at any state of
its node. What is handed to a local actor was advertised before, and the actors that are spawned,
stopped and moved between groups on behalf of the peer are stand-ins of this session.
-/

namespace Ractor
open List SessionEffect

variable {Name Challenge Digest : Type}

/-! ### Advertisements -/

namespace SessionEffect

def Advertises (pid : UInt64) : SessionEffect Name Challenge Digest → Prop
  | .send (.control (some (.spawn actors))) => pid∈actors.map (·.pid)
  | _ => False

def Withdraws (pid : UInt64) : SessionEffect Name Challenge Digest → Prop
  | .send (.control (some (.terminate ids))) => pid∈ids
  | _ => False

end SessionEffect

/-- The pid was put in a `Spawn` message, and in no `Terminate` message since. -/
def Advertised (effects : List (SessionEffect Name Challenge Digest)) (pid : UInt64) : Prop :=
  ∃before spawn after,effects=before++spawn::after ∧ spawn.Advertises pid ∧
    ∀effect∈after,¬ effect.Withdraws pid

variable {effects : List (SessionEffect Name Challenge Digest)}
  {effect : SessionEffect Name Challenge Digest}

theorem Advertised.append {new : List (SessionEffect Name Challenge Digest)} {pid : UInt64}
    (h : Advertised effects pid) (hnew : ∀effect∈new,¬ effect.Withdraws pid) :
    Advertised (effects++new) pid := by
  obtain ⟨before,spawn,after,rfl,hs,ha⟩:=h
  refine ⟨before,spawn,after++new,by simp,hs,fun effect hm => ?_⟩
  rcases mem_append.mp hm with hm | hm
  · exact ha effect hm
  · exact hnew effect hm

theorem advertised_last {spawn : SessionEffect Name Challenge Digest} {pid : UInt64}
    (h : spawn.Advertises pid) : Advertised (effects++[spawn]) pid :=
  ⟨effects,spawn,[],rfl,h,fun _ hm => absurd hm not_mem_nil⟩

/-! ### Stand-ins -/

def ActorHandle.StandsIn (nodeId : UInt64) (actor : ActorHandle) : Prop :=
  ∃pid,actor.id=.remote nodeId pid

namespace SessionEffect

/-- Only stand-ins of the session are spawned, stopped, or moved between groups. A connection to
another node spawns a session and its transport, which are the cluster's own; the session itself is
stopped by a field of its state. -/
def Confined (nodeId : UInt64) : SessionEffect Name Challenge Digest → Prop
  | .spawn proxy | .stop proxy _ | .kill proxy => proxy.StandsIn nodeId
  | .joinScoped _ _ proxies | .leaveScoped _ _ proxies => ∀proxy∈proxies,proxy.StandsIn nodeId
  | .send _ | .deliver _ _ | .answer _ _ _ | .connect _ | .tellServer _ => True

/-- Something is handed to a local actor, or a reply to a stand-in. -/
def IsDelivery : SessionEffect Name Challenge Digest → Prop
  | .deliver _ _ | .answer _ _ _ => True
  | _ => False

/-- An effect that is confined, hands nothing to an actor and withdraws no pid. -/
structure Harmless (nodeId : UInt64) (effect : SessionEffect Name Challenge Digest) : Prop where
  confined : effect.Confined nodeId
  delivers : ¬ effect.IsDelivery
  withdraws : ∀pid,¬ effect.Withdraws pid

def spawnedAddress : SessionEffect Name Challenge Digest → Option ℕ
  | .spawn proxy => some proxy.address
  | _ => none

end SessionEffect

/-- The stand-ins that are spawned are numbered from the first count, up to the second one. -/
def Numbered (first : ℕ) (effects : List (SessionEffect Name Challenge Digest)) (last : ℕ) : Prop :=
  ∃count,effects.filterMap spawnedAddress=range' first count ∧ last=first+count

theorem numbered_nil (n : ℕ) : Numbered n ([] : List (SessionEffect Name Challenge Digest)) n :=
  ⟨0,rfl,rfl⟩

theorem Numbered.append {first middle last : ℕ}
    {effects' : List (SessionEffect Name Challenge Digest)} (h : Numbered first effects middle)
    (h' : Numbered middle effects' last) : Numbered first (effects++effects') last := by
  obtain ⟨count,he,rfl⟩:=h
  obtain ⟨count',he',rfl⟩:=h'
  refine ⟨count+count',?_,Nat.add_assoc _ _ _⟩
  rw [filterMap_append,he,he',← range'_append_1]

theorem numbered_singleton (h : effect.spawnedAddress=none) (n : ℕ) : Numbered n [effect] n :=
  ⟨0,by simp [h],rfl⟩

theorem numbered_cons {n last : ℕ} (h : Numbered n (effect::effects) last) :
    match effect.spawnedAddress with
    | some address => address=n ∧ Numbered (n+1) effects last
    | none => Numbered n effects last := by
  obtain ⟨count,hc,rfl⟩:=h
  rw [filterMap_cons] at hc
  split at hc
  next hn =>
    rw [hn]
    exact ⟨count,hc,rfl⟩
  next address hs =>
    rw [hs]
    cases count with
    | zero => cases hc
    | succ count =>
      obtain ⟨rfl,hc⟩:=cons.inj hc
      exact ⟨rfl,count,hc,by omega⟩

namespace SessionState

def Proxies (nodeId : UInt64) (s : SessionState Name Challenge Digest) : Prop :=
  ∀pid proxy,s.remoteActors pid=some proxy → proxy.StandsIn nodeId

/-- The step adds harmless effects, and advertises what it adds to the advertised pids. -/
structure Careful (nodeId : UInt64) (s s' : SessionState Name Challenge Digest) : Prop where
  effects : ∃new,s'.effects=s.effects++new ∧ (∀effect∈new,effect.Harmless nodeId) ∧
    Numbered s.spawned new s'.spawned
  proxies : s'.Proxies nodeId
  advertised : ∀pid∈s'.advertisedLocalPids,
    pid∈s.advertisedLocalPids ∨ Advertised s'.effects pid

variable {nodeId : UInt64} {s s' s'' : SessionState Name Challenge Digest}

namespace Careful

theorem of_effects_eq (hp : s'.Proxies nodeId) (he : s'.effects=s.effects)
    (hs : s'.spawned=s.spawned)
    (ha : s'.advertisedLocalPids ⊆ s.advertisedLocalPids) : Careful nodeId s s' := by
  refine ⟨⟨[],by rw [he,append_nil],nofun,?_⟩,hp,fun _ hm => .inl (ha hm)⟩
  rw [hs]
  exact numbered_nil _

theorem refl (h : s.Proxies nodeId) : Careful nodeId s s :=
  .of_effects_eq h rfl rfl (Finset.Subset.refl _)

theorem trans (h : Careful nodeId s s') (h' : Careful nodeId s' s'') : Careful nodeId s s'' := by
  obtain ⟨new,hnew,hh,hn⟩:=h.effects
  obtain ⟨new',hnew',hh',hn'⟩:=h'.effects
  refine ⟨⟨new++new',by rw [hnew',hnew,append_assoc],fun effect hm => ?_,
    hn.append hn'⟩,h'.proxies,fun pid hm => ?_⟩
  · exact (mem_append.mp hm).elim (hh effect) (hh' effect)
  · rcases h'.advertised pid hm with hm | ha
    · refine (h.advertised pid hm).imp_right fun ha => ?_
      rw [hnew']
      exact ha.append fun effect hm => (hh' effect hm).withdraws pid
    · exact .inr ha

theorem perform (h : Careful nodeId s s') (he : effect.Harmless nodeId)
    (hs : effect.spawnedAddress=none := by rfl) : Careful nodeId s (s'.perform effect) :=
  h.trans ⟨⟨[effect],rfl,fun _ hm => mem_singleton.mp hm ▸ he,
    numbered_singleton hs _⟩,h.proxies,fun _ hm => .inl hm⟩

theorem stop (h : s.Proxies nodeId) : Careful nodeId s {s with stopped:=true} :=
  .of_effects_eq h rfl rfl (Finset.Subset.refl _)

end Careful

theorem foldl_careful {α : Type} {round : SessionState Name Challenge Digest→α →
    SessionState Name Challenge Digest}
    (hr : ∀s a,s.Proxies nodeId → Careful nodeId s (round s a)) (as : List α)
    (h : s.Proxies nodeId) : Careful nodeId s (as.foldl round s) := by
  induction as generalizing s with
  | nil => exact .refl h
  | cons a as ih => exact (hr s a h).trans (ih (hr s a h).proxies)

theorem harmless_send {msg : PeerMessage Name Challenge Digest}
    (h : ∀ids,msg≠.control (some (.terminate ids))) :
    (send msg).Harmless nodeId := by
  refine ⟨trivial,id,fun pid hpid => ?_⟩
  unfold Withdraws at hpid
  split at hpid
  next ids heq =>
    cases heq
    exact h ids rfl
  next => exact hpid

theorem harmless_stop {proxy : ActorHandle} (h : proxy.StandsIn nodeId) (reason : String) :
    (stop proxy reason : SessionEffect Name Challenge Digest).Harmless nodeId :=
  ⟨h,id,fun _ => id⟩

/-! ### Control messages -/

theorem Proxies.forget (h : s.Proxies nodeId) (pid : UInt64) :
    Careful nodeId s {s with remoteActors:=Function.update s.remoteActors pid none} := by
  refine .of_effects_eq (fun other proxy hp => ?_) rfl rfl (Finset.Subset.refl _)
  by_cases hpid : other=pid
  · simp [hpid] at hp
  · exact h other proxy (by simpa [hpid] using hp)

variable {config : SessionConfig Name Challenge Digest} (outcomes : SessionOutcomes Name Challenge)

theorem getOrSpawnRemoteActor_careful (h : s.Proxies config.nodeId) (name : Option String)
    (pid : UInt64) :
    let result := s.getOrSpawnRemoteActor config outcomes name pid
    Careful config.nodeId s result.2 ∧ ∀proxy,result.1=some proxy→proxy.StandsIn config.nodeId := by
  unfold getOrSpawnRemoteActor
  split
  next actor ha =>
    refine ⟨.refl h,fun proxy hp => ?_⟩
    cases hp
    exact h pid actor ha
  next =>
    split
    next =>
      have hp : (s.remoteActor config name pid).StandsIn config.nodeId:=⟨pid,rfl⟩
      refine ⟨?_,fun proxy heq => Option.some.inj heq ▸ hp⟩
      refine ⟨⟨[.spawn (s.remoteActor config name pid)],rfl,fun effect hm => ?_,1,rfl,rfl⟩,?_,
        fun _ hm => .inl hm⟩
      · obtain rfl:=mem_singleton.mp hm
        exact ⟨hp,id,fun _ => id⟩
      · intro other proxy ho
        by_cases hpid : other=pid
        · have heq : some (s.remoteActor config name pid)=some proxy := by
            simpa [perform,hpid] using ho
          exact Option.some.inj heq ▸ hp
        · exact h other proxy (by simpa [perform,hpid] using ho)
    next => exact ⟨.refl h,nofun⟩

theorem getOrSpawnAll_careful (actors : List NetActor) (h : s.Proxies config.nodeId) :
    let result := getOrSpawnAll config outcomes actors s
    Careful config.nodeId s result.2 ∧ ∀proxy∈result.1,proxy.StandsIn config.nodeId := by
  induction actors generalizing s with
  | nil => exact ⟨.refl h,nofun⟩
  | cons actor actors ih =>
    obtain ⟨hc,hpr⟩:=getOrSpawnRemoteActor_careful outcomes h actor.name actor.pid
    dsimp only at hc hpr ⊢
    rw [getOrSpawnAll]
    split
    next proxy s' heq =>
      rw [heq] at hc hpr
      obtain ⟨hr,hp⟩:=ih hc.proxies
      refine ⟨hc.trans hr,fun other hm => ?_⟩
      rcases mem_cons.mp hm with rfl | hm
      · exact hpr _ rfl
      · exact hp other hm
    next s' heq =>
      rw [heq] at hc
      obtain ⟨hr,hp⟩:=ih hc.proxies
      exact ⟨hc.trans hr,hp⟩

theorem terminateAll_careful (ids : List UInt64) (h : s.Proxies nodeId) :
    Careful nodeId s (terminateAll outcomes ids s) := by
  induction ids generalizing s with
  | nil => exact .refl h
  | cons pid ids ih =>
    rw [terminateAll]
    split
    next actor ha =>
      have hs:=(h.forget pid).perform (harmless_stop (h pid actor ha) "remote")
      split
      · exact hs.trans (ih hs.proxies)
      · exact hs.trans (.of_effects_eq hs.proxies rfl rfl (Finset.Subset.refl _))
    next => exact ih h

theorem tellServer_careful (h : s.Proxies nodeId) (notice : ServerNotice) :
    Careful nodeId s (s.tellServer outcomes notice) := by
  unfold tellServer
  split
  · exact .perform (.refl h) ⟨trivial,id,fun _ => id⟩
  · exact .of_effects_eq h rfl rfl (Finset.Subset.refl _)

/-- What is added to the advertised pids is put in a `Spawn` message. -/
theorem advertise_careful (h : s.Proxies nodeId) (pids : Finset UInt64) (actors : List NetActor)
    (hp : ∀pid∈pids,pid∈s.advertisedLocalPids ∨ pid∈actors.map (·.pid)) :
    Careful nodeId s ({s with advertisedLocalPids:=pids}.tcpSendControl (.spawn actors)) := by
  refine ⟨⟨[.send (.control (some (.spawn actors)))],rfl,fun effect hm => ?_,
    numbered_singleton rfl _⟩,h,fun pid hm => ?_⟩
  · obtain rfl:=mem_singleton.mp hm
    exact harmless_send nofun
  · exact (hp pid hm).imp_right advertised_last

theorem sendSpawn_careful (h : s.Proxies nodeId) (actors : List NetActor) :
    Careful nodeId s (s.sendSpawn actors) := by
  unfold sendSpawn
  dsimp only
  split
  next hnil =>
    subst hnil
    exact .of_effects_eq h rfl rfl (by simp)
  next => exact advertise_careful h _ actors fun pid hm => by simpa using hm

theorem sendPgJoin_careful (h : s.Proxies nodeId) (key : ScopeGroupKey) (actors : List NetActor) :
    Careful nodeId s (s.sendPgJoin key actors) := by
  unfold sendPgJoin
  split
  · exact .refl h
  · exact .perform (.refl h) (harmless_send nofun)

section
variable (h : s.Proxies config.nodeId)
include h

theorem handleControl_careful [DecidableEq Name] (message : Option (ControlMessage Name)) :
    Careful config.nodeId s (s.handleControl config outcomes message) := by
  unfold handleControl
  split
  next =>
    split
    next => exact .refl h
    next =>
      unfold handleReadyMessage
      split
      · exact .of_effects_eq h rfl rfl (Finset.Subset.refl _)
      · have hr : Careful config.nodeId s {s with ready:=.ready} :=
          .of_effects_eq h rfl rfl (Finset.Subset.refl _)
        exact hr.trans (tellServer_careful outcomes hr.proxies _)
      · exact .refl h
      · exact .refl h
    next actors => exact (getOrSpawnAll_careful outcomes actors h).1
    next ids => exact terminateAll_careful outcomes ids h
    next timestamp => exact .perform (.refl h) (harmless_send nofun)
    next timestamp =>
      unfold handlePong
      split
      · split
        · exact .of_effects_eq h rfl rfl (Finset.Subset.refl _)
        · exact .refl h
      · exact .of_effects_eq h rfl rfl (Finset.Subset.refl _)
    next scope group actors =>
      obtain ⟨hc,hp⟩:=getOrSpawnAll_careful outcomes actors h
      dsimp only at hc hp ⊢
      split
      · exact hc
      · exact hc.perform ⟨hp,id,fun _ => id⟩
    next scope group actors =>
      dsimp only
      split
      · exact .refl h
      · refine .perform (.refl h) ⟨fun proxy hm => ?_,id,fun _ => id⟩
        obtain ⟨actor,-,ha⟩:=mem_filterMap.mp hm
        exact h actor.pid proxy ha
    next whosAsking =>
      unfold handleEnumerateNodeSessions
      split
      · exact .perform (.refl h) (harmless_send nofun)
      · exact .refl h
    next sessions =>
      unfold handleNodeSessions
      split
      · exact foldl_careful (fun _ session h => .perform (.refl h)
          (show (connect session.connectionString).Harmless _ from ⟨trivial,id,fun _ => id⟩)) _ h
      · exact .refl h
  next => exact .refl h

/-! ### The handshake and the synchronization after it -/

theorem handleAuth_careful [DecidableEq Digest]
    (msg : Option (AuthenticationMessage Name Challenge Digest)) :
    Careful config.nodeId s (s.handleAuth config outcomes msg) := by
  refine ⟨⟨_,rfl,fun effect hm => ?_,0,?_,rfl⟩,h,fun _ hm => .inl hm⟩
  · obtain ⟨message,-,rfl⟩:=mem_map.mp hm
    refine harmless_send fun ids => ?_
    cases message <;> nofun
  · rw [filterMap_map,range'_zero,filterMap_eq_nil_iff]
    exact fun _ _ => rfl

theorem afterAuthenticated_careful (view : LocalView) :
    Careful config.nodeId s (s.afterAuthenticated config view) := by
  have he : Careful config.nodeId s (if config.transitive then
      s.tcpSendControl (.enumerateNodeSessions config.thisNode) else s) := by
    split
    · exact .perform (.refl h) (harmless_send nofun)
    · exact .refl h
  have hs:=he.trans (sendSpawn_careful he.proxies (remotable view.allPids))
  have hg:=hs.trans (foldl_careful
    (fun s group h => sendPgJoin_careful h group.1 (remotable (group.2.filter (·.id.isLocal))))
    view.groups hs.proxies)
  have hr:=hg.perform (show (send (.control (some .ready))).Harmless _ from harmless_send nofun)
  exact hr.trans (.of_effects_eq hr.proxies rfl rfl (Finset.Subset.refl _))

theorem authenticated_careful (view : LocalView) :
    Careful config.nodeId s (s.authenticated config outcomes view) := by
  have ht:=tellServer_careful outcomes h .connectionAuthenticated
  unfold authenticated
  dsimp only
  split
  · exact ht
  · split
    · have ha:=ht.trans (afterAuthenticated_careful ht.proxies view)
      split
      · exact ha.trans (tellServer_careful outcomes ha.proxies _)
      · exact ha
    · exact ht.trans (.of_effects_eq ht.proxies rfl rfl (Finset.Subset.refl _))

/-! ### Supervision events -/

theorem handleActorFailed_careful (actor : ActorHandle) :
    Careful config.nodeId s (s.handleActorFailed config outcomes actor) := by
  unfold handleActorFailed
  split
  · exact .stop h
  · split
    next proxy hp =>
      have hk:=(h.forget actor.id.pid).perform (show (kill proxy).Harmless config.nodeId from
          ⟨h _ proxy hp,id,fun _ => id⟩)
      have hs:=hk.trans
        (getOrSpawnRemoteActor_careful outcomes hk.proxies proxy.name proxy.id.pid).1
      dsimp only at hs ⊢
      split
      next heq =>
        rw [heq] at hs
        exact hs
      next heq =>
        rw [heq] at hs
        exact hs.trans (.of_effects_eq hs.proxies rfl rfl (Finset.Subset.refl _))
    next => exact .refl h

theorem handleActorTerminated_careful (actor : ActorHandle) :
    Careful config.nodeId s (s.handleActorTerminated config outcomes actor) := by
  unfold handleActorTerminated
  split
  · exact .stop h
  · split
    next proxy hp =>
      have hs:=(h.forget actor.id.pid).perform (harmless_stop (h _ proxy hp) "remote_exit")
      dsimp only
      split
      · exact hs
      · exact hs.trans (.of_effects_eq hs.proxies rfl rfl (Finset.Subset.refl _))
    next => exact .refl h

end

theorem groupMessage_harmless {change : GroupChangeMessage ActorHandle} {msg : ControlMessage Name}
    (h : groupMessage change=some msg) :
    (send (.control (some msg)) : SessionEffect Name Challenge Digest).Harmless nodeId := by
  refine harmless_send fun ids heq => ?_
  cases heq
  cases change <;> simp [groupMessage] at h

/-! ### Authority -/

/-- What was advertised is what the session lets the peer reach. -/
structure Sound (nodeId : UInt64) (s : SessionState Name Challenge Digest) : Prop where
  proxies : s.Proxies nodeId
  advertised : ∀pid∈s.advertisedLocalPids,Advertised s.effects pid

def Authorized (view : LocalView) (effects : List (SessionEffect Name Challenge Digest))
    (actor : ActorHandle) : Prop :=
  ∃pid,view.whereIsPid (.local pid)=some actor ∧ actor.supportsRemoting=true ∧
    Advertised effects pid

/-- The step keeps the session sound and adds confined effects. What it hands to local actors goes
to authorized ones, and what it hands to a stand-in is the reply that it was given. -/
structure Lawful (nodeId : UInt64) (view : LocalView)
    (message : Option (PeerMessage Name Challenge Digest))
    (s s' : SessionState Name Challenge Digest) : Prop where
  sound : s'.Sound nodeId
  effects : ∃new,s'.effects=s.effects++new ∧ (∀effect∈new,effect.Confined nodeId) ∧
    (∀actor handed,.deliver actor handed∈new → Authorized view s.effects actor) ∧
    (∀proxy tag what,.answer proxy tag what∈new → ∃target,
      message=some (.node (some (.reply target tag what))) ∧ s.remoteActors target=some proxy) ∧
    Numbered s.spawned new s'.spawned

theorem Careful.sound (h : Careful nodeId s s') (hs : s.Sound nodeId) : s'.Sound nodeId := by
  obtain ⟨new,hnew,hh,-⟩:=h.effects
  refine ⟨h.proxies,fun pid hm => ?_⟩
  rcases h.advertised pid hm with hm | ha
  · rw [hnew]
    exact (hs.advertised pid hm).append fun effect hm => (hh effect hm).withdraws pid
  · exact ha

theorem Careful.lawful {view : LocalView} {message : Option (PeerMessage Name Challenge Digest)}
    (h : Careful nodeId s s') (hs : s.Sound nodeId) : Lawful nodeId view message s s' := by
  obtain ⟨new,hnew,hh,hn⟩:=h.effects
  exact ⟨h.sound hs,new,hnew,fun effect hm => (hh effect hm).confined,
    fun _ _ hm => absurd trivial (hh _ hm).delivers,
    fun _ _ _ hm => absurd trivial (hh _ hm).delivers,hn⟩

theorem authorizedLocalActor_cases (view : LocalView) (hs : s.Sound nodeId) (pid : UInt64) :
    (∃actor,s.authorizedLocalActor view pid=(some actor,s) ∧ Authorized view s.effects actor) ∨
      ∃s',s.authorizedLocalActor view pid=(none,s') ∧ Careful nodeId s s' := by
  have he : Careful nodeId s {s with advertisedLocalPids:=s.advertisedLocalPids.erase pid} :=
    .of_effects_eq hs.proxies rfl rfl (Finset.erase_subset _ _)
  unfold authorizedLocalActor
  split
  next hpid =>
    split
    next actor ha =>
      split
      next hr => exact .inl ⟨actor,rfl,pid,ha,hr,hs.advertised pid hpid⟩
      next => exact .inr ⟨_,rfl,he⟩
    next => exact .inr ⟨_,rfl,he⟩
  next => exact .inr ⟨_,rfl,.refl hs.proxies⟩

theorem Sound.perform (hs : s.Sound nodeId) (h : ∀pid,¬ effect.Withdraws pid) :
    (s.perform effect).Sound nodeId := by
  refine ⟨hs.proxies,fun pid hm => (hs.advertised pid hm).append fun other hm => ?_⟩
  rw [mem_singleton.mp hm]
  exact h pid

variable {view : LocalView}

theorem Authorized.lawful {message : Option (PeerMessage Name Challenge Digest)}
    {actor : ActorHandle} (hs : s.Sound nodeId) (h : Authorized view s.effects actor)
    (handed : SerializedMessage RemoteCaller) :
    Lawful nodeId view message s (s.perform (.deliver actor handed)) := by
  refine ⟨hs.perform fun _ => id,[.deliver actor handed],rfl,fun effect hm => ?_,
    fun other _ hm => ?_,fun _ _ _ hm => ?_,numbered_singleton rfl _⟩
  · rw [mem_singleton.mp hm]
    trivial
  · cases mem_singleton.mp hm
    exact h
  · cases mem_singleton.mp hm

theorem answer_lawful {target tag : UInt64} {what : List UInt8} {proxy : ActorHandle}
    (hs : s.Sound nodeId) (h : s.remoteActors target=some proxy) :
    Lawful nodeId view (some (.node (some (.reply target tag what)))) s
      (s.perform (.answer proxy tag what)) := by
  refine ⟨hs.perform fun _ => id,[.answer proxy tag what],rfl,fun effect hm => ?_,
    fun _ _ hm => ?_,fun _ _ _ hm => ?_,numbered_singleton rfl _⟩
  · rw [mem_singleton.mp hm]
    trivial
  · cases mem_singleton.mp hm
  · cases mem_singleton.mp hm
    exact ⟨target,rfl,h⟩

theorem handleNode_lawful (hs : s.Sound nodeId) (message : Option NodeMessage) :
    Lawful nodeId view (some (.node message)) s (s.handleNode view message) := by
  have hr {message : Option (PeerMessage Name Challenge Digest)} :
    Lawful nodeId view message s s:=(Careful.refl hs.proxies).lawful hs
  unfold handleNode
  split
  next =>
    split
    next => exact hr
    next target what variant metadata =>
      obtain ⟨actor,heq,ha⟩ | ⟨s',heq,hc⟩:=authorizedLocalActor_cases view hs target
      · rw [heq]
        exact ha.lawful hs _
      · rw [heq]
        exact hc.lawful hs
    next target tag what timeoutMs variant metadata =>
      obtain ⟨actor,heq,ha⟩ | ⟨s',heq,hc⟩:=authorizedLocalActor_cases view hs target
      · rw [heq]
        exact ha.lawful hs _
      · rw [heq]
        exact hc.lawful hs
    next target tag what =>
      split
      next proxy hp => exact answer_lawful hs hp
      next => exact hr
  next => exact hr

section Runs
variable [DecidableEq Name] [DecidableEq Digest]

theorem handle_lawful (hs : s.Sound config.nodeId)
    (message : Option (PeerMessage Name Challenge Digest)) :
    Lawful config.nodeId view message s (s.handle config outcomes view message) := by
  unfold handle
  split
  next => exact (Careful.stop hs.proxies).lawful hs
  next =>
    split
    next => exact (Careful.refl hs.proxies).lawful hs
    next msg =>
      have ha:=handleAuth_careful outcomes hs.proxies msg
      dsimp only
      split
      · exact (ha.trans (authenticated_careful outcomes ha.proxies view)).lawful hs
      · exact ha.lawful hs
    next msg => exact handleNode_lawful hs msg
    next msg => exact (handleControl_careful outcomes hs.proxies msg).lawful hs

omit [DecidableEq Digest] in
theorem handleSendMessage_careful (h : s.Proxies config.nodeId) (message : NodeMessage) :
    Careful config.nodeId s (s.handleSendMessage config message) := by
  unfold handleSendMessage
  split
  · exact .stop h
  · exact .perform (.refl h) (harmless_send nofun)

omit [DecidableEq Name] [DecidableEq Digest] in
/-- A pid that is withdrawn is no longer advertised; the others still are. -/
theorem withdraw_lawful (hs : s.Sound nodeId) (pid : UInt64) :
    Lawful nodeId view none s
      ({s with advertisedLocalPids:=s.advertisedLocalPids.erase pid}.tcpSendControl
        (.terminate [pid])) := by
  refine ⟨⟨hs.proxies,fun other hm => ?_⟩,[.send (.control (some (.terminate [pid])))],rfl,
    fun effect hm => ?_,fun _ _ hm => ?_,fun _ _ _ hm => ?_,numbered_singleton rfl _⟩
  · obtain ⟨hne,hm⟩:=Finset.mem_erase.mp hm
    refine (hs.advertised other hm).append fun effect hm hw => hne ?_
    rw [mem_singleton.mp hm] at hw
    exact mem_singleton.mp hw
  · rw [mem_singleton.mp hm]
    trivial
  · cases mem_singleton.mp hm
  · cases mem_singleton.mp hm

omit [DecidableEq Name] [DecidableEq Digest] in
theorem handleSupervisorEvt_lawful (view : LocalView) (hs : s.Sound config.nodeId)
    (event : SessionEvent) :
    Lawful config.nodeId view none s (s.handleSupervisorEvt config outcomes event) := by
  have hr : Lawful config.nodeId view none s s:=(Careful.refl hs.proxies).lawful hs
  cases event with
  | actorStarted actor => exact hr
  | actorFailed actor => exact (handleActorFailed_careful outcomes hs.proxies actor).lawful hs
  | actorTerminated actor =>
    exact (handleActorTerminated_careful outcomes hs.proxies actor).lawful hs
  | processGroupChanged change =>
    rw [handleSupervisorEvt]
    split
    next msg hmsg =>
      exact ((Careful.refl hs.proxies).perform (groupMessage_harmless hmsg)).lawful hs
    next => exact hr
  | pidSpawn who =>
    rw [handleSupervisorEvt]
    split
    · have ha:=advertise_careful hs.proxies (insert who.id.pid s.advertisedLocalPids)
        [who.toNetActor] fun pid hm => by simpa [ActorHandle.toNetActor,or_comm] using hm
      exact ha.lawful hs
    · exact hr
  | pidTerminate who =>
    rw [handleSupervisorEvt]
    split
    · exact withdraw_lawful hs who.id.pid
    · exact hr

/-- What a session is given to handle, with what it reads of its node meanwhile. -/
inductive Input (Name Challenge Digest : Type) where
  | network (view : LocalView) (outcomes : SessionOutcomes Name Challenge)
      (message : Option (PeerMessage Name Challenge Digest))
  | sendMessage (message : NodeMessage)
  | supervision (outcomes : SessionOutcomes Name Challenge) (event : SessionEvent)

def Starts (config : SessionConfig Name Challenge Digest) (s : SessionState Name Challenge Digest) :
    Prop :=
  ∃isServer,s={
    toNodeSessionState:=(NodeSessionState.init config.thisNode isServer).1
    effects:=(NodeSessionState.init config.thisNode isServer).2.map fun message =>
      .send message.toPeerMessage}

def Steps (config : SessionConfig Name Challenge Digest) (s : SessionState Name Challenge Digest)
    (input : Input Name Challenge Digest) (s' : SessionState Name Challenge Digest) : Prop :=
  match input with
  | .network view outcomes message => s'=s.handle config outcomes view message
  | .sendMessage message => s'=s.handleSendMessage config message
  | .supervision outcomes event => s'=s.handleSupervisorEvt config outcomes event

/-- What the session reads of its node; only messages of the peer make it look there. -/
def Input.localView : Input Name Challenge Digest → LocalView
  | .network view _ _ => view
  | .sendMessage _ | .supervision _ _ => ⟨fun _ => none,[],[]⟩

def Input.message : Input Name Challenge Digest → Option (PeerMessage Name Challenge Digest)
  | .network _ _ message => message
  | .sendMessage _ | .supervision _ _ => none

theorem handle_steps (s : SessionState Name Challenge Digest) (view : LocalView)
    (message : Option (PeerMessage Name Challenge Digest)) :
    Steps config s (.network view outcomes message) (s.handle config outcomes view message) :=
  rfl

theorem reachable_handle (h : Reachable (Starts config) (Steps config) s) (view : LocalView)
    (message : Option (PeerMessage Name Challenge Digest)) :
    Reachable (Starts config) (Steps config) (s.handle config outcomes view message) :=
  h.next (handle_steps outcomes s view message)

variable {input : Input Name Challenge Digest}

theorem Steps.lawful (h : Steps config s input s') (hs : s.Sound config.nodeId) :
    Lawful config.nodeId input.localView input.message s s' := by
  cases input with
  | network view outcomes message =>
    cases h
    exact handle_lawful outcomes hs message
  | sendMessage message =>
    cases h
    exact (handleSendMessage_careful hs.proxies message).lawful hs
  | supervision outcomes event =>
    cases h
    exact handleSupervisorEvt_lawful outcomes _ hs event

theorem sound_of_reachable (h : Reachable (Starts config) (Steps config) s) :
    s.Sound config.nodeId := by
  refine h.invariant (P:=Sound config.nodeId) (fun s hs => ?_) fun s input s' hs hst => ?_
  · obtain ⟨isServer,rfl⟩:=hs
    exact ⟨nofun,fun pid hm => absurd hm (Finset.notMem_empty pid)⟩
  · exact (Steps.lawful hst hs).sound

/-- Until the peer is authenticated, its other messages do nothing, but for a session to this node
itself, which is asked to stop. A message is only handed to a local actor by a message of the peer,
and if that actor is registered, supports remoting and was advertised to the peer and not withdrawn
since. Only stand-ins of the session are ever spawned, stopped, or moved between groups, apart from
the sessions of the cluster itself. -/
theorem peer_reaches_only_advertised (h : Reachable (Starts config) (Steps config) s)
    (hstep : Steps config s input s') :
    (∀view outcomes message,input=.network view outcomes message → s.auth.isOk=false →
      (∀msg,message≠some (.auth msg)) →
      s'=if s.isSelfConnection config.thisNode then {s with stopped:=true} else s) ∧
      ∃new,s'.effects=s.effects++new ∧
        (∀actor handed,.deliver actor handed∈new → ∃view outcomes message pid,
          input=.network view outcomes message ∧ view.whereIsPid (.local pid)=some actor ∧
            actor.supportsRemoting=true ∧ Advertised s.effects pid) ∧
        ∀effect∈new,effect.Confined config.nodeId := by
  constructor
  · rintro view outcomes message rfl hauth hmessage
    cases hstep
    unfold handle
    split
    · rfl
    · split
      next => rfl
      next msg => exact absurd rfl (hmessage msg)
      next msg => simp [handleNode,hauth]
      next msg => simp [handleControl,hauth]
  · obtain ⟨new,hnew,hconfined,hdelivered,-⟩:=(hstep.lawful (sound_of_reachable h)).effects
    refine ⟨new,hnew,fun actor handed hm => ?_,hconfined⟩
    obtain ⟨pid,hp,ha⟩:=hdelivered actor handed hm
    cases input with
    | network view outcomes message => exact ⟨view,outcomes,message,pid,rfl,hp,ha⟩
    | sendMessage => cases hp
    | supervision => cases hp

/-- A peer that was told of an actor and has it handed a message. -/
theorem peer_reaches_only_advertised_cast :
    let actor : ActorHandle := ⟨.local 7,none,true,0⟩
    let view : LocalView := ⟨fun id => if id=.local 7 then some actor else none,[actor],[]⟩
    let config : SessionConfig ℕ ℕ ℕ := ⟨1,⟨0,0⟩,false,id,.local 2⟩
    let outcomes : SessionOutcomes ℕ ℕ :=
      ⟨some .noOtherConnection,5,0,none,true,fun _ => true,fun _ => true⟩
    ∃s,Reachable (Starts config) (Steps config) s ∧
      (s.handle config outcomes view (some (.node (some (.cast 7 [] "" none))))).effects =
        s.effects++[.deliver actor (.cast "" [] none)] ∧
      ∃pid,view.whereIsPid (.local pid)=some actor ∧ actor.supportsRemoting=true ∧
        Advertised s.effects pid := by
  intro actor view config outcomes
  have hstart : Reachable (Starts config) (Steps config) _:=.start ⟨true,rfl⟩
  have hnamed:=reachable_handle outcomes hstart view (some (.auth (some (.name ⟨3,3⟩))))
  have hs:=reachable_handle outcomes hnamed view (some (.auth (some (.clientChallenge 5 6))))
  obtain ⟨-,new,hnew,hdelivered,-⟩:=peer_reaches_only_advertised hs
    (handle_steps outcomes _ view (some (.node (some (.cast 7 [] "" none)))))
  obtain ⟨_,_,_,pid,heq,ha⟩:=hdelivered actor (.cast "" [] none) (by
    rw [append_cancel_left (hnew.symm.trans rfl : _++new=_++[_])]
    exact mem_singleton.mpr rfl)
  cases heq
  exact ⟨_,hs,rfl,pid,ha⟩

/-- A peer announces the name of the node it connects to. The next message makes the session ask
itself to stop, although the peer is not authenticated. -/
theorem unauthenticated_message_stops_session :
    let config : SessionConfig ℕ ℕ ℕ := ⟨1,⟨0,0⟩,false,id,.local 2⟩
    let outcomes : SessionOutcomes ℕ ℕ :=
      ⟨some .noOtherConnection,5,0,none,true,fun _ => true,fun _ => true⟩
    let view : LocalView := ⟨fun _ => none,[],[]⟩
    ∃s,Reachable (Starts config) (Steps config) s ∧ s.auth.isOk=false ∧ s.stopped=false ∧
      (s.handle config outcomes view (some (.control (some .ready)))).stopped=true := by
  intro config outcomes view
  have hstart : Reachable (Starts config) (Steps config) _:=.start ⟨true,rfl⟩
  have hs:=reachable_handle outcomes hstart view (some (.auth (some (.name ⟨0,0⟩))))
  exact ⟨_,hs,rfl,rfl,rfl⟩

end Runs
end SessionState
end Ractor
