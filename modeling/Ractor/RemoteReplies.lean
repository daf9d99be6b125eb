import Ractor.PeerAuthority
import Ractor.RemoteActors

/-!
# Replies to remote calls

The stand-ins of a session for the actors of its peer, from the calls that are made through them to
the payloads that arrive at the reply ports. A stand-in can exit at any time and another one can be
spawned for the same pid, while replies are under way. Every call that is passed on is recorded with
its reply port; a reply is known by the call that it answers.
-/

namespace Ractor
open List RemoteActorState SessionState Function Option

/-! ### The system -/

structure RemoteCall where
  /-- The address of the stand-in -/
  proxy : ℕ
  target : UInt64
  tag : UInt64
  port : CallPort
  deriving DecidableEq, Repr

/-- What was sent on a reply port, with the position of the call that it is the reply to. -/
structure Payload where
  port : CallPort
  call : ℕ
  data : List UInt8
  deriving DecidableEq, Repr

/-- A message in the mailbox of a stand-in. A reply is kept with the position of its call. -/
inductive ProxyMessage where
  | call (variant : String) (args : List UInt8) (port : CallPort) (metadata : Option (List UInt8))
  | cast (variant : String) (args : List UInt8) (metadata : Option (List UInt8))
  | reply (call : ℕ) (tag : UInt64) (data : List UInt8)
  deriving DecidableEq, Repr

namespace ProxyMessage

def serialized : ProxyMessage → SerializedMessage CallPort
  | .call variant args port metadata => .call variant args port metadata
  | .cast variant args metadata => .cast variant args metadata
  | .reply _ tag data => .callReply tag data

def port? : ProxyMessage → Option CallPort
  | .call _ _ port _ => some port
  | _ => none

def passedOn (proxy : ℕ) : ProxyMessage → RemoteActorEffect → Option RemoteCall
  | .call _ _ port _,.sendMessage (.call target tag _ _ _ _) => some ⟨proxy,target,tag,port⟩
  | _,_ => none

def payload : ProxyMessage → RemoteActorEffect → Option Payload
  | .reply position _ _,.reply port data => some ⟨port,position,data⟩
  | _,_ => none

end ProxyMessage

/-- A `RemoteActor` from its start to its exit. -/
structure RemoteIncarnation where
  pid : UInt64
  state : RemoteActorState:={}
  mailbox : List ProxyMessage:=[]
  alive : Bool:=true

structure RemoteCalls (Name Challenge Digest : Type) where
  session : SessionState Name Challenge Digest
  /-- The stand-ins, by their addresses -/
  proxies : ℕ → Option RemoteIncarnation:=fun _ => none
  /-- For each reply port that was made, the stand-in that it was sent to -/
  requests : List ℕ:=[]
  /-- The ports whose receivers were dropped -/
  closed : Finset ℕ:=∅
  calls : List RemoteCall:=[]
  /-- The replies that arrived: the call that is answered, and the answer -/
  replies : List (ℕ × List UInt8):=[]
  payloads : List Payload:=[]

inductive RemoteCallEvent (Name Challenge Digest : Type) where
  /-- A message from the peer. If it is a reply, it answers the call at this position. -/
  | network (call : ℕ) (view : LocalView) (outcomes : SessionOutcomes Name Challenge)
      (message : Option (PeerMessage Name Challenge Digest))
  | supervision (outcomes : SessionOutcomes Name Challenge) (event : SessionEvent)
  /-- The session sends on what it was given by a stand-in. -/
  | sendMessage (message : NodeMessage)
  | call (proxy : ℕ) (variant : String) (args : List UInt8) (timeoutMs : Option UInt64)
      (metadata : Option (List UInt8))
  | cast (proxy : ℕ) (variant : String) (args : List UInt8) (metadata : Option (List UInt8))
  /-- A stand-in handles the first message of its mailbox. -/
  | handle (proxy : ℕ) (sessionAlive : Bool)
  /-- A stand-in is stopped by local code, or fails. -/
  | exit (proxy : ℕ)
  | dropReceiver (port : ℕ)

variable {c : RemoteCall} {i k : ℕ} {p : RemoteIncarnation} {state : RemoteActorState}
  {rest : List ProxyMessage} {tag : UInt64} {data : List UInt8}

namespace RemoteCalls
variable {Name Challenge Digest : Type}

section Messages
variable (s : RemoteCalls Name Challenge Digest) (proxy : ℕ)

def modify (f : RemoteIncarnation → RemoteIncarnation) : RemoteCalls Name Challenge Digest :=
  {s with proxies:=update s.proxies proxy ((s.proxies proxy).map f)}

def post (message : ProxyMessage) : RemoteCalls Name Challenge Digest :=
  s.modify proxy fun p => if p.alive then {p with mailbox:=p.mailbox++[message]} else p

def exit : RemoteCalls Name Challenge Digest :=
  s.modify proxy fun p => {p with alive:=false}

def observe (call : ℕ) (s : RemoteCalls Name Challenge Digest) :
    SessionEffect Name Challenge Digest → RemoteCalls Name Challenge Digest
  | .spawn proxy =>
    {s with proxies:=update s.proxies proxy.address (some {pid:=proxy.id.pid})}
  | .stop proxy _ | .kill proxy => s.exit proxy.address
  | .answer proxy tag data => s.post proxy.address (.reply call tag data)
  | .send _ | .deliver _ _ | .joinScoped _ _ _ | .leaveScoped _ _ _ | .connect _ | .tellServer _ => s

def follow (call : ℕ) (s : RemoteCalls Name Challenge Digest)
    (session : SessionState Name Challenge Digest) : RemoteCalls Name Challenge Digest :=
  (session.effects.drop s.session.effects.length).foldl (observe call) {s with session}

/-- The peer replies only to calls that it was sent. -/
def answers (call : ℕ) : Option (PeerMessage Name Challenge Digest) → Bool
  | some (.node (some (.reply target tag _))) =>
    s.calls[call]?.any fun c => c.target=target ∧ c.tag=tag
  | _ => true

def answer (call : ℕ) : Option (PeerMessage Name Challenge Digest) → List (ℕ × List UInt8)
  | some (.node (some (.reply _ _ what))) => [(call,what)]
  | _ => []

def handleFirst (sessionAlive : Bool) (p : RemoteIncarnation) (message : ProxyMessage)
    (rest : List ProxyMessage) : RemoteCalls Name Challenge Digest :=
  let (state,effects) := p.state.handleSerialized (fun port => port.id∈s.closed) sessionAlive
    p.pid message.serialized
  { s with
    proxies:=update s.proxies proxy (some {p with state,mailbox:=rest})
    calls:=s.calls++effects.filterMap (message.passedOn proxy)
    payloads:=s.payloads++effects.filterMap message.payload }

end Messages

variable [DecidableEq Name] [DecidableEq Digest] (config : SessionConfig Name Challenge Digest)
  (s : RemoteCalls Name Challenge Digest)

def step : RemoteCallEvent Name Challenge Digest → Option (RemoteCalls Name Challenge Digest)
  | .network call view outcomes message =>
    if s.answers call message then
      some ({s with replies:=s.replies++answer call message}.follow call
        (s.session.handle config outcomes view message))
    else none
  | .supervision outcomes event =>
    some (s.follow 0 (s.session.handleSupervisorEvt config outcomes event))
  | .sendMessage message => some (s.follow 0 (s.session.handleSendMessage config message))
  | .call proxy variant args timeoutMs metadata =>
    some ({s with requests:=s.requests++[proxy]}.post proxy
      (.call variant args ⟨s.requests.length,timeoutMs⟩ metadata))
  | .cast proxy variant args metadata => some (s.post proxy (.cast variant args metadata))
  | .handle proxy sessionAlive =>
    match s.proxies proxy with
    | some p =>
      match p.alive,p.mailbox with
      | true,message::rest => some (s.handleFirst proxy sessionAlive p message rest)
      | _,_ => none
    | none => none
  | .exit proxy => some (s.exit proxy)
  | .dropReceiver port => some {s with closed:=insert port s.closed}

def Step (event : RemoteCallEvent Name Challenge Digest) (s' : RemoteCalls Name Challenge Digest) :
    Prop :=
  s.step config event=some s'

def Initial : Prop :=
  ∃session,Starts config session ∧ s={session}

/-! ### What is kept -/

section Invariants

omit [DecidableEq Name] [DecidableEq Digest]

def Answers (s : RemoteCalls Name Challenge Digest) (call : ℕ) (tag : UInt64) (what : List UInt8) :
    Prop :=
  (call,what)∈s.replies ∧ ∃c,s.calls[call]?=some c ∧ c.tag=tag

/-- What holds of the stand-in at an address. -/
structure Kept (s : RemoteCalls Name Challenge Digest) (i : ℕ) (p : RemoteIncarnation) : Prop where
  /-- A port in the mailbox was sent to this stand-in and is not yet that of a call. -/
  waiting : ∀port∈p.mailbox.filterMap ProxyMessage.port?,
    s.requests[port.id]?=some i ∧ ∀c∈s.calls,c.port.id≠port.id
  distinct : ((p.mailbox.filterMap ProxyMessage.port?).map (·.id)).Nodup
  tags : ∀c∈s.calls,c.proxy=i → c.tag.toNat≤p.state.messageTag.toNat
  /-- A pending request is that of a call with no payload yet. -/
  pending : ∀(tag : UInt64) (port : CallPort),p.state.pendingRequests[tag]?=some port →
    (∃c∈s.calls,c.proxy=i ∧ c.tag=tag ∧ c.port=port) ∧ port∉s.payloads.map (·.port)
  /-- A reply in the mailbox is one to a call, which an earlier stand-in may have passed on. -/
  replies : ∀k tag data,.reply k tag data∈p.mailbox → s.Answers k tag data

/-- What holds of the system when the next stand-in is to get the address `n`. -/
structure Inv (n : ℕ) (s : RemoteCalls Name Challenge Digest) : Prop where
  fresh : ∀i,n ≤ i → s.proxies i=none
  kept : ∀i p,s.proxies i=some p → s.Kept i p
  known : ∀c∈s.calls,c.proxy<n
  made : ∀c∈s.calls,c.port.id<s.requests.length
  distinctPorts : (s.calls.map (·.port.id)).Nodup
  distinctTags : (s.calls.map fun c => (c.proxy,c.tag)).Nodup
  answered : ∀payload∈s.payloads,∃c,s.calls[payload.call]?=some c ∧
    c.port=payload.port ∧ (payload.call,payload.data)∈s.replies
  once : (s.payloads.map (·.port)).Nodup

variable {n : ℕ} {s}

theorem Inv.modify (h : Inv n s) (i : ℕ) {f : RemoteIncarnation→RemoteIncarnation}
    (hf : ∀p,s.proxies i=some p→s.Kept i p→s.Kept i (f p)) : Inv n (s.modify i f) := by
  refine {h with fresh:=fun j hj => ?_,kept:=fun j p hp => ?_}
  · by_cases hji : j=i
    · subst hji
      simp [RemoteCalls.modify,h.fresh j hj]
    · simpa [RemoteCalls.modify,hji] using h.fresh j hj
  · by_cases hji : j=i
    · subst hji
      obtain ⟨q,hq,rfl⟩ : ∃q,s.proxies j=some q ∧ f q=p := by
        simpa [RemoteCalls.modify] using hp
      exact {hf q hq (h.kept j q hq) with}
    · have hp : s.proxies j=some p := by simpa [RemoteCalls.modify,hji] using hp
      exact {h.kept j p hp with}

theorem Inv.exit (h : Inv n s) (i : ℕ) : Inv n (s.exit i) := h.modify i fun _ _ hp => {hp with}

theorem Inv.post (h : Inv n s) (i : ℕ) {message : ProxyMessage} (hport : message.port?=none)
    (hr : ∀k tag data,message=.reply k tag data→s.Answers k tag data) :
    Inv n (s.post i message) := by
  refine h.modify i fun p _ hp => ?_
  split
  · have hpo : (p.mailbox++[message]).filterMap ProxyMessage.port? =
        p.mailbox.filterMap ProxyMessage.port? := by simp [hport]
    refine {hp with waiting:=?_,distinct:=?_,replies:=fun k tag data hm => ?_}
    · exact hpo ▸ hp.waiting
    · exact hpo ▸ hp.distinct
    · rcases mem_append.mp hm with hm | hm
      · exact hp.replies k tag data hm
      · exact hr k tag data (List.mem_singleton.mp hm).symm
  · exact hp

theorem Inv.spawn (h : Inv n s) (pid : UInt64) :
    Inv (n+1) {s with proxies:=update s.proxies n (some {pid})} := by
  refine {h with fresh:=fun j hj => ?_,kept:=fun j p hp => ?_,known:=fun c hc => ?_}
  · have hne : j≠n := by omega
    simpa [hne] using h.fresh j (by omega)
  · by_cases hjn : j=n
    · subst hjn
      obtain rfl : {pid}=p := by simpa using hp
      refine ⟨nofun,nodup_nil,fun c hc heq => ?_,fun tag port hp => ?_,nofun⟩
      · exact absurd (h.known c hc) (by omega)
      · simp at hp
    · have hp : s.proxies j=some p := by simpa [hjn] using hp
      exact {h.kept j p hp with}
  · exact Nat.lt_succ_of_lt (h.known c hc)

theorem Inv.observe {call last : ℕ} {effects : List (SessionEffect Name Challenge Digest)}
    (h : Inv n s) (hn : Numbered n effects last)
    (ha : ∀proxy tag what,.answer proxy tag what∈effects→s.Answers call tag what) :
    Inv last (effects.foldl (observe call) s) := by
  induction effects generalizing n s with
  | nil =>
    obtain ⟨count,hc,rfl⟩:=hn
    obtain rfl : count=0 := by simpa using hc.symm
    exact h
  | cons effect effects ih =>
    have hco:=numbered_cons hn
    have hr proxy tag what (hm : .answer proxy tag what∈effects) :=
      ha proxy tag what (mem_cons_of_mem _ hm)
    cases effect with
    | spawn proxy =>
      obtain ⟨rfl,hco⟩:=hco
      exact ih (h.spawn proxy.id.pid) hco hr
    | stop proxy reason | kill proxy => exact ih (h.exit proxy.address) hco hr
    | answer proxy tag what =>
      refine ih (h.post proxy.address rfl fun k tag' data heq => ?_) hco hr
      cases heq
      exact ha proxy tag what mem_cons_self
    | _ => exact ih h hco hr

theorem Inv.follow {nodeId : UInt64} {call : ℕ} {view : LocalView}
    {message : Option (PeerMessage Name Challenge Digest)}
    {session : SessionState Name Challenge Digest} (h : Inv s.session.spawned s)
    (hl : Lawful nodeId view message s.session session)
    (han : ∀target tag what,message=some (.node (some (.reply target tag what))) →
      s.Answers call tag what) :
    Inv session.spawned (s.follow call session) := by
  obtain ⟨new,hnew,-,-,ha,hn⟩:=hl.effects
  have hd : session.effects.drop s.session.effects.length=new := by
    rw [hnew,drop_left]
  have hs : Inv s.session.spawned {s with session} :=
    {h with kept:=fun i p hp => {h.kept i p hp with}}
  rw [RemoteCalls.follow,hd]
  refine hs.observe hn fun proxy tag what hm => ?_
  obtain ⟨target,hme,-⟩:=ha proxy tag what hm
  exact han target tag what hme

@[simp] theorem session_follow (call : ℕ) (session : SessionState Name Challenge Digest) :
    (s.follow call session).session=session := by
  rw [RemoteCalls.follow]
  generalize session.effects.drop _=effects
  suffices hf : ∀s : RemoteCalls Name Challenge Digest,
      (effects.foldl (RemoteCalls.observe call) s).session=s.session from hf _
  intro s
  induction effects generalizing s with
  | nil => rfl
  | cons effect effects ih =>
    rw [foldl_cons,ih]
    cases effect <;> rfl

theorem Inv.hear (h : Inv n s) (new : List (ℕ × List UInt8)) :
    Inv n {s with replies:=s.replies++new} := by
  refine {h with kept:=fun i p hp => ?_,answered:=fun payload hm => ?_}
  · refine {h.kept i p hp with replies:=fun k tag data hm => ?_}
    exact ((h.kept i p hp).replies k tag data hm).imp_left (mem_append_left _)
  · obtain ⟨c,hc,hpo,hr⟩:=h.answered payload hm
    exact ⟨c,hc,hpo,mem_append_left _ hr⟩

theorem Inv.call_eq_of_port (h : Inv n s) {c' : RemoteCall} (hc : c∈s.calls) (hc' : c'∈s.calls)
    (hp : c.port=c'.port) : c=c' :=
  inj_on_of_nodup_map h.distinctPorts hc hc' (congrArg CallPort.id hp)

theorem Inv.call_eq_of_tag (h : Inv n s) {c' : RemoteCall} (hc : c∈s.calls) (hc' : c'∈s.calls)
    (hp : c.proxy=c'.proxy) (htag : c.tag=c'.tag) : c=c' :=
  inj_on_of_nodup_map h.distinctTags hc hc' (Prod.ext hp htag)

theorem getElem?_append_some {α : Type} {as : List α} {a : α} (h : as[k]?=some a) (bs : List α) :
    (as++bs)[k]?=some a :=
  (List.getElem?_append_left (List.getElem?_eq_some_iff.mp h).1).trans h

theorem nodup_map_concat {α β : Type} {f : α→β} {as : List α} {a : α} (h : (as.map f).Nodup)
    (hnew : ∀b∈as,f b≠f a) : ((as++[a]).map f).Nodup := by
  rw [map_append,nodup_append]
  refine ⟨h,nodup_singleton _,fun b hb b' hb' => ?_⟩
  obtain ⟨c,hc,rfl⟩:=mem_map.mp hb
  rw [List.mem_singleton.mp hb']
  exact hnew c hc

theorem Inv.request (h : Inv n s) (i : ℕ) : Inv n {s with requests:=s.requests++[i]} := by
  refine {h with kept:=fun j p hp => ?_,made:=fun c hc => ?_}
  · refine {h.kept j p hp with waiting:=fun port hm => ?_}
    obtain ⟨hr,hca⟩:=(h.kept j p hp).waiting port hm
    exact ⟨getElem?_append_some hr _,hca⟩
  · have hlt:=h.made c hc
    simp only [length_append]
    omega

theorem Inv.call (h : Inv n s) (i : ℕ) (variant : String) (args : List UInt8)
    (timeoutMs : Option UInt64) (metadata : Option (List UInt8)) :
    Inv n ({s with requests:=s.requests++[i]}.post i
      (.call variant args ⟨s.requests.length,timeoutMs⟩ metadata)) := by
  refine (h.request i).modify i fun p hpr hp => ?_
  split
  · -- the ports that were in the mailbox before are older than the new one
    have hold : ∀port∈p.mailbox.filterMap ProxyMessage.port?,port.id<s.requests.length :=
      fun port hm => (List.getElem?_eq_some_iff.mp ((h.kept i p hpr).waiting port hm).1).1
    have hpo : (p.mailbox++[ProxyMessage.call variant args ⟨s.requests.length,timeoutMs⟩
        metadata]).filterMap ProxyMessage.port? =
        p.mailbox.filterMap ProxyMessage.port?++[⟨s.requests.length,timeoutMs⟩] := by
      simp [ProxyMessage.port?]
    refine {hp with waiting:=?_,distinct:=?_,replies:=fun k tag data hm => ?_}
    · rw [hpo]
      exact forall_mem_append.mpr ⟨hp.waiting,forall_mem_singleton.mpr
        ⟨List.getElem?_concat_length,fun c hc => (h.made c hc).ne⟩⟩
    · rw [hpo]
      exact nodup_map_concat hp.distinct fun port hm => (hold port hm).ne
    · refine hp.replies k tag data ((mem_append.mp hm).resolve_right fun hm => ?_)
      cases List.mem_singleton.mp hm
  · exact hp

theorem Kept.shrink (h : s.Kept i p) (hma : rest.Sublist p.mailbox)
    (htag : p.state.messageTag ≤ state.messageTag)
    (hp : ∀(tag : UInt64) (port : CallPort),state.pendingRequests[tag]?=some port →
      p.state.pendingRequests[tag]?=some port) : s.Kept i {p with state,mailbox:=rest} where
  waiting port hm:=h.waiting port ((hma.filterMap _).subset hm)
  distinct:=h.distinct.sublist ((hma.filterMap _).map _)
  tags c hc hpr:=(h.tags c hc hpr).trans htag
  pending tag port hpo:=h.pending tag port (hp tag port hpo)
  replies k tag data hm:=h.replies k tag data (hma.subset hm)

theorem Inv.drop (h : Inv n s) {p' : RemoteIncarnation} (hp : s.proxies i=some p)
    (hp' : s.Kept i p') : Inv n {s with proxies:=update s.proxies i (some p')} := by
  have hm:=h.modify i (f:=fun _ => p') fun _ _ _ => hp'
  rwa [RemoteCalls.modify,hp] at hm

theorem Answers.record (h : s.Answers k tag data) (c : RemoteCall) :
    {s with calls:=s.calls++[c]}.Answers k tag data := by
  obtain ⟨hr,c',hc',hp⟩:=h
  exact ⟨hr,c',getElem?_append_some hc' _,hp⟩

theorem Kept.record (h : s.Kept i p) (hpr : c.proxy≠i) (hr : s.requests[c.port.id]?=some c.proxy) :
    {s with calls:=s.calls++[c]}.Kept i p where
  waiting port hm := by
    obtain ⟨hpo,hc⟩:=h.waiting port hm
    refine ⟨hpo,fun c' hc' hid => ?_⟩
    rcases mem_append.mp hc' with hc' | hc'
    · exact hc c' hc' hid
    · rw [List.mem_singleton.mp hc'] at hid
      rw [← hid,hr] at hpo
      exact hpr (some.inj hpo)
  distinct:=h.distinct
  tags c' hc' heq := by
    rcases mem_append.mp hc' with hc' | hc'
    · exact h.tags c' hc' heq
    · rw [List.mem_singleton.mp hc'] at heq
      exact absurd heq hpr
  pending tag port hpo := by
    obtain ⟨⟨c',hc',hp⟩,hpa⟩:=h.pending tag port hpo
    exact ⟨⟨c',mem_append_left _ hc',hp⟩,hpa⟩
  replies k tag data hm:=(h.replies k tag data hm).record c

/-- A stand-in takes a call from its mailbox and passes it on under the next tag. -/
theorem Inv.passOn (h : Inv n s) {variant : String} {args : List UInt8} {port : CallPort}
    {metadata : Option (List UInt8)} (hp : s.proxies i=some p)
    (hma : p.mailbox=.call variant args port metadata::rest)
    (htag : p.state.messageTag.toNat<tag.toNat) (ht' : state.messageTag=tag)
    (hpe : ∀(tag' : UInt64) (port' : CallPort),state.pendingRequests[tag']?=some port' →
      tag'=tag ∧ port'=port ∨ p.state.pendingRequests[tag']?=some port') (target : UInt64) :
    Inv n {s with
      proxies:=update s.proxies i (some {p with state,mailbox:=rest})
      calls:=s.calls++[⟨i,target,tag,port⟩]} := by
  have hk:=h.kept i p hp
  have hpo : p.mailbox.filterMap ProxyMessage.port? = port::rest.filterMap ProxyMessage.port? := by
    rw [hma]
    rfl
  obtain ⟨hr,hnew⟩:=hk.waiting port (hpo ▸ mem_cons_self)
  have hd:=hk.distinct
  rw [hpo,map_cons,nodup_cons] at hd
  have hi : i<n := by
    by_contra hi
    rw [h.fresh i (by omega)] at hp
    cases hp
  refine ⟨fun j hj => ?_,fun j q hq => ?_,
    forall_mem_append.mpr ⟨h.known,forall_mem_singleton.mpr hi⟩,
    forall_mem_append.mpr ⟨h.made,forall_mem_singleton.mpr (List.getElem?_eq_some_iff.mp hr).1⟩,
    nodup_map_concat h.distinctPorts hnew,nodup_map_concat h.distinctTags fun c hc heq => ?_,
    fun payload hm => ?_,h.once⟩
  · have hne : j≠i := by omega
    simpa [hne] using h.fresh j hj
  · by_cases hji : j=i
    · subst hji
      obtain rfl : {p with state,mailbox:=rest}=q := by simpa using hq
      refine ⟨fun port' hm => ?_,hd.2,fun c hc hpro => ?_,fun tag' port' hport => ?_,
        fun k tag' data hm => ?_⟩
      · obtain ⟨hr',hca⟩:=hk.waiting port' (hpo ▸ mem_cons_of_mem _ hm)
        refine ⟨hr',forall_mem_append.mpr ⟨hca,forall_mem_singleton.mpr ?_⟩⟩
        exact fun hid => hd.1 (hid ▸ mem_map_of_mem hm)
      · rcases mem_append.mp hc with hc | hc
        · have hle:=hk.tags c hc hpro
          rw [ht']
          omega
        · rw [List.mem_singleton.mp hc,ht']
      · rcases hpe tag' port' hport with ⟨rfl,rfl⟩ | hport
        · refine ⟨⟨_,List.mem_append_right _ (List.mem_singleton.mpr rfl),rfl,rfl,rfl⟩,fun hm => ?_⟩
          obtain ⟨payload,hm,hpa⟩:=mem_map.mp hm
          obtain ⟨c,hc,hcp,-⟩:=h.answered payload hm
          exact hnew c (mem_of_getElem? hc) (by rw [hcp,hpa])
        · obtain ⟨⟨c,hc,hpr⟩,hpa⟩:=hk.pending tag' port' hport
          exact ⟨⟨c,mem_append_left _ hc,hpr⟩,hpa⟩
      · exact (hk.replies k tag' data (hma ▸ mem_cons_of_mem _ hm)).record _
    · have hq : s.proxies j=some q := by simpa [hji] using hq
      exact {(h.kept j q hq).record (c:=⟨i,target,tag,port⟩) (fun heq => hji heq.symm) hr with}
  · obtain ⟨hpro,hct⟩ : c.proxy=i ∧ c.tag=tag:=Prod.mk.inj heq
    have hle:=hk.tags c hc hpro
    rw [hct] at hle
    omega
  · obtain ⟨c,hc,hpr⟩:=h.answered payload hm
    exact ⟨c,getElem?_append_some hc _,hpr⟩

/-- A stand-in takes a reply from its mailbox and sends it on the port of the call. -/
theorem Inv.reply (h : Inv n s) {port : CallPort} (hp : s.proxies i=some p)
    (hma : p.mailbox=.reply k tag data::rest)
    (hpo : p.state.pendingRequests[tag]?=some port) (hown : ∀c∈s.calls[k]?,c.proxy=i)
    (htag : state.messageTag=p.state.messageTag)
    (hpe : ∀(tag' : UInt64) (port' : CallPort),state.pendingRequests[tag']?=some port' →
      tag'≠tag ∧ p.state.pendingRequests[tag']?=some port') :
    Inv n {s with
      proxies:=update s.proxies i (some {p with state,mailbox:=rest})
      payloads:=s.payloads++[⟨port,k,data⟩]} := by
  have hk:=h.kept i p hp
  obtain ⟨⟨c,hc,hpr,hct,rfl⟩,hf⟩:=hk.pending tag port hpo
  have hs : s.Kept i {p with state,mailbox:=rest} :=
    hk.shrink (hma ▸ sublist_cons_self _ _) (htag ▸ UInt64.le_refl _)
      fun tag' port' hp' => (hpe tag' port' hp').2
  -- the port of the call is pending nowhere else
  have ho {j : ℕ} {q : RemoteIncarnation} (hq : s.Kept j q) {tag' : UInt64}
      (hp' : q.state.pendingRequests[tag']?=some c.port) : j=i ∧ tag'=tag := by
    obtain ⟨⟨c',hc',hpr',hct',hcp'⟩,-⟩:=hq.pending tag' c.port hp'
    obtain rfl:=h.call_eq_of_port hc hc' hcp'.symm
    exact ⟨hpr'.symm.trans hpr,hct'.symm.trans hct⟩
  have hpa {j : ℕ} {q : RemoteIncarnation} (hq : s.Kept j q)
      (hne : ∀tag' : UInt64,q.state.pendingRequests[tag']?=some c.port→¬(j=i ∧ tag'=tag)) :
      {s with payloads:=s.payloads++[Payload.mk c.port k data]}.Kept j q := by
    refine {hq with pending:=fun tag' port' hp' => ⟨(hq.pending tag' port' hp').1,fun hm => ?_⟩}
    rw [map_append] at hm
    rcases mem_append.mp hm with hm | hm
    · exact (hq.pending tag' port' hp').2 hm
    · obtain rfl:=List.mem_singleton.mp hm
      exact hne tag' hp' (ho hq hp')
  refine {h.drop hp hs with
    kept:=fun j q hq => ?_
    answered:=forall_mem_append.mpr ⟨h.answered,forall_mem_singleton.mpr ?_⟩
    once:=nodup_map_concat h.once fun payload hm heq => hf (mem_map.mpr ⟨payload,hm,heq⟩)}
  · by_cases hji : j=i
    · subst hji
      obtain rfl : {p with state,mailbox:=rest}=q := by simpa using hq
      exact {hpa hs fun tag' hp' heq => (hpe tag' c.port hp').1 heq.2 with}
    · have hq : s.proxies j=some q := by simpa [hji] using hq
      exact {hpa (h.kept j q hq) fun tag' _ heq => hji heq.1 with}
  · obtain ⟨hr,c',hc',hct'⟩:=hk.replies k tag data (hma ▸ mem_cons_self)
    obtain rfl:=h.call_eq_of_tag hc (mem_of_getElem? hc') (hpr.trans (hown c' hc').symm)
      (hct.trans hct'.symm)
    exact ⟨c,hc',rfl,hr⟩

/-- The message that a stand-in handles next comes in time: a call gets a tag that has not been
used before, and a reply to a call of an earlier stand-in finds no request under its tag. -/
def InTime (s : RemoteCalls Name Challenge Digest) (i : ℕ) (p : RemoteIncarnation) : Prop :=
  match p.mailbox with
  | .call .. :: _ => p.state.messageTag.toNat+1<2^64
  | .reply call tag _::_ =>
    p.state.pendingRequests[tag]?.isSome → ∀c∈s.calls[call]?,c.proxy=i
  | _ => True

instance (s : RemoteCalls Name Challenge Digest) : Decidable (s.InTime i p) := by
  unfold InTime
  split <;> infer_instance

theorem Inv.handleFirst (h : Inv n s) {sessionAlive : Bool} {message : ProxyMessage}
    (hp : s.proxies i=some p) (hm : p.mailbox=message::rest) (ht : s.InTime i p) :
    Inv n (s.handleFirst i sessionAlive p message rest) := by
  have hs : rest.Sublist p.mailbox:=hm ▸ sublist_cons_self _ _
  have hk:=h.kept i p hp
  have hle (closed : CallPort→Bool) : p.state.messageTag ≤
      (p.state.cleanupClosedPendingRequests closed).messageTag :=
    UInt64.le_of_eq (messageTag_cleanup closed p.state).symm
  unfold RemoteCalls.handleFirst
  generalize (fun port : CallPort => decide (port.id∈s.closed))=closed
  rw [InTime,hm] at ht
  cases message with
  | call variant args port metadata =>
    have hlt : p.state.messageTag.toNat<(p.state.messageTag+1).toNat := by
      rw [UInt64.toNat_add,UInt64.toNat_one,Nat.mod_eq_of_lt ht]
      exact Nat.lt_succ_self _
    rw [ProxyMessage.serialized]
    cases sessionAlive with
    | true =>
      rw [handleSerialized_call]
      simp only [filterMap_cons,filterMap_nil,ProxyMessage.passedOn,ProxyMessage.payload,append_nil]
      refine h.passOn hp hm hlt rfl (fun tag port' hpo => ?_) p.pid
      refine (getElem?_insert_request.mp hpo).imp_right fun hpo => ?_
      exact getElem?_of_cleanup hpo.2
    | false =>
      obtain ⟨htag,he,hpe⟩:=handleSerialized_call_failed p.state
        closed p.pid variant args port metadata
      dsimp only
      rw [he]
      simp only [filterMap_nil,append_nil]
      refine h.drop hp (hk.shrink hs ?_ hpe)
      rw [htag]
      exact UInt64.le_iff_toNat_le.mpr hlt.le
  | cast variant args metadata =>
    have hc : s.Kept i {p with state:=p.state.cleanupClosedPendingRequests closed,mailbox:=rest} :=
      hk.shrink hs (hle closed) fun _ _ => getElem?_of_cleanup
    cases sessionAlive <;> simpa only [handleSerialized,ProxyMessage.serialized,reduceIte,
        Bool.false_eq_true,filterMap_cons,filterMap_nil,ProxyMessage.passedOn,
        ProxyMessage.payload,append_nil] using h.drop hp hc
  | reply k tag data =>
    rw [ProxyMessage.serialized,handleSerialized_callReply]
    have hpe (tag' : UInt64) (port' : CallPort) (hpo :
        ((p.state.cleanupClosedPendingRequests closed).removePendingRequest tag).2.pendingRequests[tag']?
          = some port') : tag'≠tag ∧ p.state.pendingRequests[tag']?=some port' :=
      (getElem?_removePendingRequest.mp hpo).imp_right getElem?_of_cleanup
    cases hpo : (p.state.cleanupClosedPendingRequests closed).pendingRequests[tag]? with
    | some port =>
      simp only [toList_some,map_cons,map_nil,filterMap_cons,filterMap_nil,
        ProxyMessage.passedOn,ProxyMessage.payload,append_nil]
      have hpo:=getElem?_of_cleanup hpo
      exact h.reply hp hm hpo (ht (by simp [hpo])) (messageTag_cleanup closed p.state) hpe
    | none =>
      simp only [toList_none,map_nil,filterMap_nil,append_nil]
      exact h.drop hp (hk.shrink hs (hle closed) fun tag' port' hp' =>
        (hpe tag' port' hp').2)

end Invariants

/-! ### Runs -/

/-- Every stand-in handles its messages in time. -/
def Timely (s : RemoteCalls Name Challenge Digest) : RemoteCallEvent Name Challenge Digest → Prop
  | .handle i _ => ∀p∈s.proxies i,s.InTime i p
  | _ => True

instance (s : RemoteCalls Name Challenge Digest) (event : RemoteCallEvent Name Challenge Digest) :
    Decidable (s.Timely event) := by
  unfold Timely
  split <;> infer_instance

variable {config} {s} {s' : RemoteCalls Name Challenge Digest}

theorem Inv.step {event : RemoteCallEvent Name Challenge Digest}
    (h : Inv s.session.spawned s) (hs : s.session.Sound config.nodeId)
    (ht : s.Timely event) (hst : Step config s event s') :
    Inv s'.session.spawned s' ∧ s'.session.Sound config.nodeId := by
  cases event with
  | network call view outcomes message =>
    obtain ⟨ha,hst⟩:=ite_none_right_eq_some.mp hst
    cases hst
    have hl : Lawful _ view _ _ _ := handle_lawful outcomes hs message
    rw [session_follow]
    refine ⟨(h.hear _).follow hl fun target tag what hm => ?_,hl.sound⟩
    subst hm
    obtain ⟨c,hc,-,htag⟩ : ∃c,s.calls[call]?=some c ∧ c.target=target ∧ c.tag=tag := by
      simpa [answers,Option.any_eq_true] using ha
    exact ⟨List.mem_append_right _ (List.mem_singleton.mpr rfl),c,hc,htag⟩
  | supervision outcomes event =>
    cases hst
    have hl:=handleSupervisorEvt_lawful outcomes ⟨fun _ => none,[],[]⟩ hs event
    rw [session_follow]
    exact ⟨h.follow hl nofun,hl.sound⟩
  | sendMessage message =>
    cases hst
    have hl : Lawful _ ⟨fun _ => none,[],[]⟩ none _ _ :=
      (handleSendMessage_careful hs.proxies message).lawful hs
    rw [session_follow]
    exact ⟨h.follow hl nofun,hl.sound⟩
  | call proxy variant args timeoutMs metadata =>
    cases hst
    exact ⟨h.call proxy variant args timeoutMs metadata,hs⟩
  | cast proxy variant args metadata =>
    cases hst
    exact ⟨h.post proxy rfl nofun,hs⟩
  | handle proxy sessionAlive =>
    rw [Step,RemoteCalls.step] at hst
    split at hst
    next p hp =>
      split at hst
      next message rest _ hma =>
        cases hst
        exact ⟨h.handleFirst hp hma (ht p hp),hs⟩
      next => cases hst
    next => cases hst
  | exit proxy =>
    cases hst
    exact ⟨h.exit proxy,hs⟩
  | dropReceiver port =>
    cases hst
    exact ⟨{h with kept:=fun i p hp => {h.kept i p hp with}},hs⟩

theorem inv_of_reachable (h : Reachable (Initial config) (guarded Timely (Step config)) s) :
    Inv s.session.spawned s := by
  refine (h.invariant (P:=fun s => Inv s.session.spawned s ∧ s.session.Sound config.nodeId)
    (fun s hs => ?_) fun s event s' hs hst => hs.1.step hs.2 hst.1 hst.2).1
  obtain ⟨session,hse,rfl⟩:=hs
  refine ⟨⟨fun _ _ => rfl,nofun,nofun,nofun,nodup_nil,nodup_nil,nofun,
    nodup_nil⟩,sound_of_reachable (.start hse)⟩

/-! ### Replies that are ignored -/

section Ignored

omit [DecidableEq Name] [DecidableEq Digest]

/-- Nothing is sent, and the requests stay pending whose receivers still wait. -/
structure Ignored (s s' : RemoteCalls Name Challenge Digest) : Prop where
  calls : s'.calls=s.calls
  payloads : s'.payloads=s.payloads
  waiting : ∀i p,s.proxies i=some p → ∃p',s'.proxies i=some p' ∧
    p'.state.messageTag=p.state.messageTag ∧
    ∀(tag : UInt64) (port : CallPort),p.state.pendingRequests[tag]?=some port →
      port.id∉s.closed → p'.state.pendingRequests[tag]?=some port

/-- A reply arrives at the session, or is taken from a mailbox without a request that is pending
under its tag. -/
def Unmatched (s : RemoteCalls Name Challenge Digest) : RemoteCallEvent Name Challenge Digest → Prop
  | .network _ _ _ (some (.node (some (.reply _ _ _)))) => True
  | .handle i _ => ∃p k tag data rest,s.proxies i=some p ∧
    p.mailbox=.reply k tag data::rest ∧ p.state.pendingRequests[tag]?=none
  | _ => False

theorem Ignored.of_state_eq (hc : s'.calls=s.calls) (hpa : s'.payloads=s.payloads)
    (h : ∀i p,s.proxies i=some p→∃p',s'.proxies i=some p' ∧ p'.state=p.state) :
    s.Ignored s' := by
  refine ⟨hc,hpa,fun i p hp => ?_⟩
  obtain ⟨p',hp',hs⟩:=h i p hp
  exact ⟨p',hp',by rw [hs],fun tag port hpo _ => by rwa [hs]⟩

theorem post_proxies (i : ℕ) (message : ProxyMessage) {j : ℕ} (hp : s.proxies j=some p) :
    ∃p',(s.post i message).proxies j=some p' ∧ p'.state=p.state := by
  by_cases hji : j=i
  · subst hji
    refine ⟨if p.alive then {p with mailbox:=p.mailbox++[message]} else p,
      by simp [post,modify,hp],?_⟩
    split <;> rfl
  · exact ⟨p,by simpa [post,modify,hji] using hp,rfl⟩

theorem handle_reply_cases [DecidableEq Name] [DecidableEq Digest]
    (outcomes : SessionOutcomes Name Challenge) (view : LocalView)
    (session : SessionState Name Challenge Digest) (target tag : UInt64) (what : List UInt8) :
    let session' := session.handle config outcomes view (some (.node (some (.reply target tag what))))
    session'.effects=session.effects ∨
      ∃proxy,session'.effects=session.effects++[.answer proxy tag what] := by
  dsimp only [handle,handleNode]
  split
  · exact .inl rfl
  · split
    · split
      next proxy _ => exact .inr ⟨proxy,rfl⟩
      next => exact .inl rfl
    · exact .inl rfl

theorem follow_reply [DecidableEq Name] [DecidableEq Digest]
    (config : SessionConfig Name Challenge Digest) (s : RemoteCalls Name Challenge Digest)
    (outcomes : SessionOutcomes Name Challenge) (view : LocalView) (call : ℕ) (target tag : UInt64)
    (what : List UInt8) :
    s.Ignored (s.follow call
      (s.session.handle config outcomes view (some (.node (some (.reply target tag what)))))) := by
  rw [follow]
  rcases handle_reply_cases outcomes view s.session target tag what with he | ⟨proxy,he⟩
  · rw [he,drop_length]
    exact .of_state_eq rfl rfl fun i p hp => ⟨p,hp,rfl⟩
  · rw [he,drop_left]
    exact .of_state_eq rfl rfl fun i p hp => post_proxies proxy.address _ hp

theorem handleFirst_unmatched {sessionAlive : Bool} (hp : s.proxies i=some p)
    (hn : p.state.pendingRequests[tag]?=none) :
    s.Ignored (s.handleFirst i sessionAlive p (.reply k tag data) rest) := by
  unfold handleFirst
  rw [ProxyMessage.serialized,handleSerialized_callReply]
  generalize hcl : (fun port : CallPort => decide (port.id∈s.closed))=closed
  have hc : (p.state.cleanupClosedPendingRequests closed).pendingRequests[tag]?=none := by
    rw [eq_none_iff_forall_ne_some]
    intro port hpo
    rw [getElem?_of_cleanup hpo] at hn
    cases hn
  rw [hc]
  refine ⟨append_nil _,append_nil _,fun j q hq => ?_⟩
  by_cases hji : j=i
  · subst hji
    obtain rfl:=some.inj (hp.symm.trans hq)
    refine ⟨_,update_self ..,messageTag_cleanup closed p.state,
      fun tag' port hpo ho => getElem?_removePendingRequest.mpr ⟨?_,?_⟩⟩
    · rintro rfl
      rw [hn] at hpo
      cases hpo
    · refine getElem?_cleanup hpo ?_
      rw [← hcl]
      exact decide_eq_false ho
  · exact ⟨q,by simpa [hji] using hq,rfl,fun tag' port hpo _ => hpo⟩

theorem Unmatched.ignored [DecidableEq Name] [DecidableEq Digest]
    {event : RemoteCallEvent Name Challenge Digest} (h : s.Unmatched event)
    (hs : Step config s event s') : s.Ignored s' := by
  unfold Unmatched at h
  split at h
  next call view outcomes target tag what =>
    obtain ⟨-,hs⟩:=ite_none_right_eq_some.mp hs
    cases hs
    have hr:=follow_reply config {s with replies:=s.replies++[(call,what)]} outcomes view
      call target tag what
    exact {hr with}
  next i sessionAlive =>
    obtain ⟨p,k,tag,data,rest,hp,hm,hn⟩:=h
    rw [Step,step,hp] at hs
    dsimp only at hs
    split at hs
    next message rest' _ hm' =>
      cases hs
      obtain ⟨rfl,rfl⟩:=cons.inj (hm.symm.trans hm')
      exact handleFirst_unmatched hp hn
    next => cases hs
  next => exact h.elim

end Ignored

/-- A payload on a reply port is the reply to the call that the port was registered with, a port is
sent one payload at most, and other replies are ignored, as long as no reply to a call of an earlier
stand-in meets a request under its tag and no stand-in makes `2^64` calls. -/
theorem remote_replies_reach_their_calls
    (h : Reachable (Initial config) (guarded Timely (Step config)) s) :
    (∀payload∈s.payloads,∃c,s.calls[payload.call]?=some c ∧ c.port=payload.port ∧
      (payload.call,payload.data)∈s.replies) ∧
      (s.payloads.map (·.port)).Nodup ∧
      ∀event s',s.Unmatched event → Step config s event s' → s.Ignored s' :=
  ⟨(inv_of_reachable h).answered,(inv_of_reachable h).once,
    fun _ _ hunmatched hstep => hunmatched.ignored hstep⟩

section Samples

def sampleConfig : SessionConfig ℕ ℕ ℕ:=⟨1,⟨0,0⟩,false,id,.local 2⟩

def sampleOutcomes : SessionOutcomes ℕ ℕ :=
  ⟨some .noOtherConnection,5,0,none,true,fun _ => true,fun _ => true⟩

def sampleStart : RemoteCalls ℕ ℕ ℕ :=
  {session:={toNodeSessionState:={auth:=.asServer .waitingOnPeerName}}}

def hears (call : ℕ) (message : PeerMessage ℕ ℕ ℕ) : RemoteCallEvent ℕ ℕ ℕ :=
  .network call ⟨fun _ => none,[],[]⟩ sampleOutcomes (some message)

theorem initial_sampleStart : Initial sampleConfig sampleStart:=⟨_,⟨true,rfl⟩,rfl⟩

/-- A stand-in fails after it has passed on a call. The reply comes before its successor has passed
on another call, and is ignored; the reply to that call is not. -/
theorem remote_replies_reach_their_calls_once :
    ∃s,Reachable (Initial sampleConfig) (guarded Timely (Step sampleConfig)) s ∧
      s.replies=[(0,[8]),(1,[9])] ∧ s.payloads=[⟨⟨1,none⟩,1,[9]⟩] ∧
      ∃c,s.calls[1]?=some c ∧ c.port=⟨1,none⟩ := by
  obtain ⟨s,hs,hreplies,hpayloads⟩ : ∃s,execute
      (fun s e => if Timely s e then step sampleConfig s e else none) sampleStart
      [hears 0 (.auth (some (.name ⟨3,3⟩))),hears 0 (.auth (some (.clientChallenge 5 6))),
        hears 0 (.control (some (.spawn [⟨none,7⟩]))),.call 0 "ask" [] none none,.handle 0 true,
        .exit 0,.supervision sampleOutcomes (.actorFailed ⟨.remote 1 7,none,false,0⟩),
        hears 0 (.node (some (.reply 7 1 [8]))),.handle 1 true,.call 1 "ask" [] none none,
        .handle 1 true,hears 1 (.node (some (.reply 7 1 [9]))),.handle 1 true]=some s ∧
      s.replies=[(0,[8]),(1,[9])] ∧ s.payloads=[⟨⟨1,none⟩,1,[9]⟩]:=⟨_,rfl,rfl,rfl⟩
  have hreachable:=Reachable.guarded_execute (fun _ _ _ => id) _ (.start initial_sampleStart) hs
  obtain ⟨hanswered,-⟩:=remote_replies_reach_their_calls hreachable
  obtain ⟨c,hc,hport,-⟩:=hanswered ⟨⟨1,none⟩,1,[9]⟩ (hpayloads ▸ List.mem_singleton.mpr rfl)
  exact ⟨s,hreachable,hreplies,hpayloads,c,hc,hport⟩

/-- A stand-in fails after it has passed on a call. Its successor passes on another call, under the
same tag, and is given the reply to the first one. -/
theorem late_reply_reaches_other_call :
    ∃s,Reachable (Initial sampleConfig) (Step sampleConfig) s ∧
      ∃payload∈s.payloads,∃c,s.calls[payload.call]?=some c ∧ c.port≠payload.port := by
  obtain ⟨s,hs,hpayloads,hcalls⟩ : ∃s,execute (step sampleConfig) sampleStart
      [hears 0 (.auth (some (.name ⟨3,3⟩))),hears 0 (.auth (some (.clientChallenge 5 6))),
        hears 0 (.control (some (.spawn [⟨none,7⟩]))),.call 0 "ask" [] none none,.handle 0 true,
        .exit 0,.supervision sampleOutcomes (.actorFailed ⟨.remote 1 7,none,false,0⟩),
        .call 1 "ask" [] none none,.handle 1 true,
        hears 0 (.node (some (.reply 7 1 [9]))),.handle 1 true]=some s ∧
      s.payloads=[⟨⟨1,none⟩,0,[9]⟩] ∧ s.calls[0]?=some ⟨0,7,1,⟨0,none⟩⟩:=⟨_,rfl,rfl,rfl⟩
  refine ⟨s,Reachable.execute (fun _ _ _ => id) _ (.start initial_sampleStart) hs,
    ⟨⟨1,none⟩,0,[9]⟩,hpayloads ▸ List.mem_singleton.mpr rfl,_,hcalls,?_⟩
  decide

end Samples
end RemoteCalls
end Ractor
