import Ractor.GroupCoherence

/-!
# Notifications of process group changes

Any number of threads join and leave groups and publish statuses, with the cleanup that goes with
it. A section on an entry is one step. The changes that it makes are sent to the listeners after it,
to one listener at a time: first to the listeners that the group had in the section, then to those
that the scope has by then, then to those of all scopes. The receivers of the supervision ports are
alive.
-/

namespace Ractor
open Function

inductive GroupChangeMessage (Id : Type) where
  | join (scope group : String) (actors : List Id)
  | leave (scope group : String) (actors : List Id)
  deriving DecidableEq, Repr

namespace GroupChangeMessage
variable {Id : Type}

def key : GroupChangeMessage Id → ScopeGroupKey
  | join scope group _ => ⟨scope,group⟩
  | leave scope group _ => ⟨scope,group⟩

variable [DecidableEq Id]

def apply (members : Finset Id) : GroupChangeMessage Id → Finset Id
  | join _ _ actors => members ∪ actors.toFinset
  | leave _ _ actors => members \ actors.toFinset

/-- What a listener makes of the events on one group. -/
def replay (key : ScopeGroupKey) (events : List (GroupChangeMessage Id)) : Finset Id :=
  (events.filter (·.key=key)).foldl apply ∅

end GroupChangeMessage

/-- The keys that `notify_world_listeners` looks up, one after the other. -/
def worldKeys (scope : String) : List ScopeGroupKey :=
  [⟨scope,allGroupsNotification⟩,⟨allScopesNotification,allGroupsNotification⟩]

/-- A change that is being sent: the listeners that are next and the keys whose listeners are not
looked up yet. The position is the one of the change in the history of its group. -/
structure Notice (Id : Type) where
  change : GroupChangeMessage Id
  position : ℕ
  targets : List Id
  worlds : List ScopeGroupKey
  deriving DecidableEq

inductive GroupCall (Id : Type) where
  | idle
  | join (key : ScopeGroupKey) (actors : List Id)
  | joinSection (key : ScopeGroupKey) (actors : List Id)
  | sweep (stopped : List (Id × ℕ)) (close : Option ScopeGroupKey) (pending : List (Notice Id))
  | leave (key : ScopeGroupKey) (actors : List Id)
  | publish (actor : Id) (status : ActorStatus)
  | demonitorAll (actor : Id)
  | demonitoring (actor : Id) (entries : List (ListenerTable × ScopeGroupKey))
  | leaveAll (actor : Id)
  | leavingAll (actor : Id) (relations : ℕ) (keys : List ScopeGroupKey) (pending : List (Notice Id))
  | notify (pending : List (Notice Id))
  deriving DecidableEq

def GroupCall.notices {Id : Type} : GroupCall Id → List (Notice Id)
  | .sweep _ _ pending | .leavingAll _ _ _ pending | .notify pending => pending
  | _ => []

inductive GroupRequest (Id : Type) where
  | joinScoped (scope group : String) (actors : List Id)
  | leaveScoped (scope group : String) (actors : List Id)
  | setStatus (actor : Id) (status : ActorStatus)

def GroupRequest.call {Id : Type} : GroupRequest Id → GroupCall Id
  | .joinScoped scope group actors => .join ⟨scope,group⟩ actors
  | .leaveScoped scope group actors => .leave ⟨scope,group⟩ actors
  | .setStatus actor status => .publish actor status

structure Notifications (Thread Id : Type) where
  pg : PgState Id:={}
  status : Id → ActorStatus:=fun _ => .unstarted
  calls : Thread → GroupCall Id:=fun _ => .idle
  /-- The group changes that each supervision port has received. -/
  ports : Id → List (GroupChangeMessage Id):=fun _ => []
  /-- The changes of each group, in the order of the sections that made them. -/
  history : ScopeGroupKey → List (GroupChangeMessage Id):=fun _ => []

inductive NotificationStep (Thread Id : Type) where
  | begin (thread : Thread) (request : GroupRequest Id)
  | resume (thread : Thread) (order : Finset ScopeGroupKey → List ScopeGroupKey)

namespace Notifications
open PgState

variable {Thread Id : Type} [DecidableEq Id] (s : Notifications Thread Id)

def commit (pg : PgState Id) (change : GroupChangeMessage Id) : Notifications Thread Id :=
  { s with
    pg:=pg
    history:=update s.history change.key (s.history change.key++[change]) }

def notice (change : GroupChangeMessage Id) (listeners : List Id) : Notice Id where
  change:=change
  position:=(s.history change.key).length
  targets:=listeners
  worlds:=worldKeys change.key.scope

def send (listener : Id) (change : GroupChangeMessage Id) : Notifications Thread Id :=
  {s with ports:=update s.ports listener (s.ports listener++[change])}

/-- The next step of a thread, with what it does afterwards. Where a set of keys is taken, `order` is
the order in which it is iterated over. -/
def resume (order : Finset ScopeGroupKey → List ScopeGroupKey) :
    GroupCall Id → Option (Notifications Thread Id × GroupCall Id)
  | .idle => none
  | .join key actors =>
    let actors := actors.filter (s.status · ≤ .draining)
    some (s,if actors=[] then .idle else .joinSection key actors)
  | .joinSection key actors =>
    let (pg,joined,listeners,stopped) := s.pg.joinSection s.status key actors
    if joined=[] then some ({s with pg:=pg},.sweep stopped (some key) [])
    else
      let change := .join key.scope key.group joined
      some (s.commit pg change,.sweep stopped none [s.notice change listeners])
  | .sweep ((actor,relations)::stopped) close pending =>
    some ({s with pg:=s.pg.removeEmptyActorRelations actor relations},
      .sweep stopped close pending)
  | .sweep [] (some key) pending =>
    some ({s with pg:=s.pg.closeEntry .group key},.notify pending)
  | .sweep [] none pending => some (s,.notify pending)
  | .leave key actors =>
    match s.pg.leaveSection key actors with
    | (pg,none) => some ({s with pg:=pg},.idle)
    | (pg,some listeners) =>
      let change := .leave key.scope key.group actors
      some (s.commit pg change,.notify [s.notice change listeners])
  | .publish actor status =>
    some ({s with status:=update s.status actor (max (s.status actor) status)},
      if .stopping ≤ status ∧ s.status actor < .stopping then .demonitorAll actor else .idle)
  | .demonitorAll actor =>
    match s.pg.getActorRelations actor with
    | none => some (s,.leaveAll actor)
    | some relations =>
      let groups := (s.pg.heap relations).groupMonitors
      let worlds := (s.pg.heap relations).worldMonitors
      if Enumerates order groups ∧ Enumerates order worlds then
        some ({s with pg:=s.pg.updateRelations relations .takeMonitors},
          .demonitoring actor ((order groups).map (.group,·)++(order worlds).map (.world,·)))
      else none
  | .demonitoring actor ((table,key)::entries) =>
    some ({s with pg:=s.pg.dropListener table key actor},.demonitoring actor entries)
  | .demonitoring actor [] => some (s,.leaveAll actor)
  | .leaveAll actor =>
    match s.pg.getActorRelations actor with
    | none => some (s,.idle)
    | some relations =>
      let keys := (s.pg.heap relations).memberships
      if Enumerates order keys then
        some ({s with pg:=s.pg.updateRelations relations .takeMemberships},
          .leavingAll actor relations (order keys) [])
      else none
  | .leavingAll actor relations (key::keys) pending =>
    match s.pg.leaveAllSection actor key with
    | (pg,none) => some ({s with pg:=pg},.leavingAll actor relations keys pending)
    | (pg,some listeners) =>
      let change := .leave key.scope key.group [actor]
      some (s.commit pg change,
        .leavingAll actor relations keys (pending++[s.notice change listeners]))
  | .leavingAll actor relations [] pending =>
    some ({s with pg:=s.pg.removeEmptyActorRelations actor relations},.notify pending)
  | .notify [] => some (s,.idle)
  | .notify (notice::pending) =>
    match notice.targets,notice.worlds with
    | listener::targets,_ =>
      some (s.send listener notice.change,.notify ({notice with targets:=targets}::pending))
    | [],world::worlds =>
      let listeners := s.pg.listeners .world world
      some (s,.notify ({notice with targets:=listeners,worlds:=worlds}::pending))
    | [],[] => some (s,.notify pending)

def goto [DecidableEq Thread] (s : Notifications Thread Id) (thread : Thread) (call : GroupCall Id) :
    Notifications Thread Id :=
  {s with calls:=update s.calls thread call}

def step [DecidableEq Thread] (s : Notifications Thread Id) :
    NotificationStep Thread Id → Option (Notifications Thread Id)
  | .begin thread request =>
    match s.calls thread with
    | .idle => some (s.goto thread request.call)
    | _ => none
  | .resume thread order => (s.resume order (s.calls thread)).map fun r => r.1.goto thread r.2

def Step [DecidableEq Thread] (s : Notifications Thread Id) (label : NotificationStep Thread Id)
    (s' : Notifications Thread Id) : Prop :=
  s.step label=some s'

/-- There may be listeners, but no members yet and no calls. -/
structure Initial (s : Notifications Thread Id) : Prop where
  members : ∀key,s.pg.members key=∅
  calls : ∀thread,s.calls thread=.idle
  ports : ∀actor,s.ports actor=[]
  history : ∀key,s.history key=[]

/-! ### What a section changes -/

/-- Nobody joins or leaves a group, and nobody is added to the listeners. -/
structure Quiet (pg pg' : PgState Id) : Prop where
  members : pg'.members=pg.members
  listeners : ∀table key,pg'.listeners table key ⊆ pg.listeners table key

/-- The change is made, and the listeners of its group are those to notify. -/
structure Changed (pg pg' : PgState Id) (change : GroupChangeMessage Id) (notified : List Id) :
    Prop where
  members : ∀key,pg'.members key =
    if key=change.key then change.apply (pg.members key) else pg.members key
  listeners : pg'.listeners=pg.listeners
  notified : notified=pg.listeners .group change.key

section Sections
variable {pg pg' : PgState Id} {key : ScopeGroupKey} {actors : List Id}

omit [DecidableEq Id] in
theorem Quiet.of_cell (h : pg'.cell=pg.cell) : Quiet pg pg' := by
  refine ⟨funext fun key => ?_,fun table key => ?_⟩
  · rw [members_eq_cell,h,← members_eq_cell]
  · rw [listeners_eq_cell,h,← listeners_eq_cell]
    exact List.Subset.refl _

theorem quiet_dropListener {table : ListenerTable} {actor : Id} :
    Quiet pg (pg.dropListener table key actor) := by
  refine ⟨funext fun key' => ?_,fun table' key' => ?_⟩
  · rw [members_eq_cell,members_eq_cell,cell_dropListener]
    split
    next h => rw [h.1,h.2]
    next => rfl
  · rw [listeners_eq_cell,listeners_eq_cell,cell_dropListener]
    split
    next h =>
      rw [h.1,h.2]
      exact List.filter_subset_self _
    next => exact List.Subset.refl _

theorem quiet_removeEmpty {actor : Id} {relations : ℕ} :
    Quiet pg (pg.removeEmptyActorRelations actor relations) := by
  refine .of_cell (cell_congr ?_)
  unfold removeEmptyActorRelations
  split
  · exact (pg.forgetRelations_rest actor relations).1
  · rfl

theorem Changed.of_cell {change : GroupChangeMessage Id} (h : ∀table key,pg'.cell table key =
      if table=.group ∧ key=change.key then
        { pg.cell .group change.key with
          members:=change.apply (pg.cell .group change.key).members }
      else pg.cell table key) :
    Changed pg pg' change (pg'.listeners .group change.key) := by
  have hl : pg'.listeners=pg.listeners := by
    funext table key
    rw [listeners_eq_cell,listeners_eq_cell,h]
    split
    next heq => rw [heq.1,heq.2]
    next => rfl
  refine ⟨fun key => ?_,hl,by rw [hl]⟩
  rw [members_eq_cell,h]
  by_cases heq : key=change.key
  · rw [if_pos ⟨rfl,heq⟩,if_pos heq,heq,members_eq_cell]
  · rw [if_neg fun hb => heq hb.2,if_neg heq,members_eq_cell]

theorem entry_joinActors (status : Id → ActorStatus) (key : ScopeGroupKey) (actors : List Id) :
    ∀sp : PgState Id × JoinProgress Id,
      (actors.foldl (joinActor status key) sp).1.entry=sp.1.entry := by
  induction actors with
  | nil => exact fun _ => rfl
  | cons actor rest ih =>
    intro sp
    rw [List.foldl_cons,ih]
    have he : (sp.1.getOrCreateActorRelations actor).2.entry=sp.1.entry := by
      rcases sp.1.getOrCreate_cases actor with ⟨relations,-,heq⟩ | ⟨-,heq⟩ <;> rw [heq]
      rfl
    simp only [joinActor]
    split
    · rfl
    · split
      · exact he
      · split <;> exact he

theorem joinSection_changed (status : Id → ActorStatus) (pg : PgState Id) (key : ScopeGroupKey)
    (actors : List Id) :
    let result := pg.joinSection status key actors
    Changed pg result.1 (.join key.scope key.group result.2.1) result.2.2.1 := by
  have he : (actors.foldl (joinActor status key) (pg.openEntry .group key,{})).1.entry =
      (pg.openEntry .group key).entry:=entry_joinActors status key actors _
  simp only [joinSection]
  generalize actors.foldl (joinActor status key) (pg.openEntry .group key,{})=sp at *
  have ho : sp.1.occupied .group key=true := by
    rw [occupied_eq,he,← occupied_eq]
    exact occupied_openEntry
  have hce : sp.1.cell=pg.cell:=(cell_congr he).trans cell_openEntry
  have hc : Changed pg (sp.1.joinMembers key (actors.filter (· ∈ sp.2.accepted)))
      (.join key.scope key.group (actors.filter (· ∈ sp.2.accepted))) _ :=
    .of_cell fun table' key' => by rw [cell_joinMembers ho,hce]; rfl
  refine ⟨hc.members,hc.listeners,?_⟩
  rw [listeners_eq_cell,hce,← listeners_eq_cell]
  rfl

/-- Without an entry there is nothing to leave. -/
theorem leaveSection_cases (pg : PgState Id) (key : ScopeGroupKey) (actors : List Id) :
    (pg.leaveSection key actors).2=none ∧ Quiet pg (pg.leaveSection key actors).1 ∨
      ∃notified,(pg.leaveSection key actors).2=some notified ∧
        Changed pg (pg.leaveSection key actors).1 (.leave key.scope key.group actors) notified := by
  unfold leaveSection
  split
  next =>
    have hc : Changed pg ((actors.foldl (leaveActor key) pg).leaveMembers key)
        (.leave key.scope key.group actors) _ :=
      .of_cell fun table' key' => by rw [cell_leaveMembers,cell_leaveActors]; rfl
    refine .inr ⟨_,rfl,hc.members,hc.listeners,?_⟩
    rw [← hc.notified,listeners_eq_cell,listeners_eq_cell,cell_leaveMembers]
    rfl
  next => exact .inl ⟨rfl,.of_cell rfl⟩

theorem leaveAllSection_cases (pg : PgState Id) (actor : Id) (key : ScopeGroupKey) :
    (pg.leaveAllSection actor key).2=none ∧ Quiet pg (pg.leaveAllSection actor key).1 ∨
      ∃notified,(pg.leaveAllSection actor key).2=some notified ∧
        Changed pg (pg.leaveAllSection actor key).1 (.leave key.scope key.group [actor]) notified := by
  unfold leaveAllSection
  split
  next =>
    have hc : Changed pg ((pg.updateMembers key (·.erase actor)).leaveMembers key)
        (.leave key.scope key.group [actor])
        (((pg.updateMembers key (·.erase actor)).leaveMembers key).listeners .group key) := by
      refine .of_cell fun table' key' => ?_
      rw [cell_leaveMembers,cell_updateMembers (.inr (Finset.erase_empty _))]
      simp only [GroupChangeMessage.apply,GroupChangeMessage.key,List.toFinset_cons,
        List.toFinset_nil,insert_empty_eq,Finset.sdiff_singleton_eq_erase]
    refine .inr ⟨_,rfl,hc.members,hc.listeners,?_⟩
    rw [← hc.notified,listeners_eq_cell,listeners_eq_cell,cell_leaveMembers]
  next => exact .inl ⟨rfl,.of_cell rfl⟩

end Sections

/-! ### What a step changes -/

/-- The steps of a thread: outside of the notices, one more notice, and the three steps on the first
notice. -/
inductive Resumed (s : Notifications Thread Id) (call : GroupCall Id) :
    Notifications Thread Id × GroupCall Id→Prop where
  | quiet (pg : PgState Id) (status : Id → ActorStatus) (call' : GroupCall Id)
      (hpg : Quiet s.pg pg) (hnotices : call'.notices=call.notices) :
      Resumed s call ({s with pg:=pg,status:=status},call')
  | changed (pg : PgState Id) (change : GroupChangeMessage Id) (notified : List Id)
      (call' : GroupCall Id) (hpg : Changed s.pg pg change notified)
      (hnotices : call'.notices=call.notices++[s.notice change notified]) :
      Resumed s call (s.commit pg change,call')
  | sent (notice : Notice Id) (listener : Id) (targets : List Id) (pending : List (Notice Id))
      (hcall : call=.notify (notice::pending)) (htargets : notice.targets=listener::targets) :
      Resumed s call
        (s.send listener notice.change,.notify ({notice with targets:=targets}::pending))
  | lookedUp (notice : Notice Id) (world : ScopeGroupKey) (worlds : List ScopeGroupKey)
      (pending : List (Notice Id)) (hcall : call=.notify (notice::pending))
      (htargets : notice.targets=[]) (hworlds : notice.worlds=world::worlds) :
      Resumed s call (s,.notify
        ({notice with targets:=s.pg.listeners .world world,worlds:=worlds}::pending))
  | finished (notice : Notice Id) (pending : List (Notice Id))
      (hcall : call=.notify (notice::pending)) (htargets : notice.targets=[])
      (hworlds : notice.worlds=[]) : Resumed s call (s,.notify pending)

omit [DecidableEq Id] in
theorem Quiet.refl (pg : PgState Id) : Quiet pg pg:=.of_cell rfl

theorem resume_resumed {s : Notifications Thread Id} {call : GroupCall Id}
    {order : Finset ScopeGroupKey → List ScopeGroupKey} {result : Notifications Thread Id × GroupCall Id}
    (h : s.resume order call=some result) : s.Resumed call result := by
  unfold resume at h
  split at h
  case h_1 => cases h
  case h_2 key actors =>
    cases h
    refine .quiet s.pg s.status _ (.refl s.pg) ?_
    split <;> rfl
  case h_3 key actors =>
    have hc:=joinSection_changed s.status s.pg key actors
    simp only at h hc
    split at h
    next hj =>
      cases h
      rw [hj] at hc
      refine .quiet _ s.status _ ⟨funext fun key' => ?_,?_⟩ rfl
      · rw [hc.members]
        split
        · exact Finset.union_empty _
        · rfl
      · rw [hc.listeners]
        exact fun _ _ => List.Subset.refl _
    next =>
      cases h
      exact .changed _ _ _ _ hc rfl
  case h_4 => cases h; exact .quiet _ s.status _ quiet_removeEmpty rfl
  case h_5 => cases h; exact .quiet _ s.status _ (.of_cell cell_closeEntry) rfl
  case h_6 => cases h; exact .quiet s.pg s.status _ (.refl s.pg) rfl
  case h_7 key actors =>
    rcases leaveSection_cases s.pg key actors with ⟨hn,hq⟩ | ⟨notified,hs,hc⟩
    · generalize s.pg.leaveSection key actors=r at *
      obtain ⟨pg,found⟩:=r
      obtain rfl : found=none:=hn
      cases h
      exact .quiet pg s.status _ hq rfl
    · generalize s.pg.leaveSection key actors=r at *
      obtain ⟨pg,found⟩:=r
      obtain rfl : found=some notified:=hs
      cases h
      exact .changed pg _ notified _ hc rfl
  case h_8 actor status =>
    cases h
    refine .quiet s.pg _ _ (.refl s.pg) ?_
    split <;> rfl
  case h_9 actor =>
    split at h
    · cases h
      exact .quiet s.pg s.status _ (.refl s.pg) rfl
    · simp only [Option.ite_none_right_eq_some] at h
      cases h.2
      exact .quiet _ s.status _ (.of_cell (cell_congr rfl)) rfl
  case h_10 => cases h; exact .quiet _ s.status _ quiet_dropListener rfl
  case h_11 => cases h; exact .quiet s.pg s.status _ (.refl s.pg) rfl
  case h_12 actor =>
    split at h
    · cases h
      exact .quiet s.pg s.status _ (.refl s.pg) rfl
    · simp only [Option.ite_none_right_eq_some] at h
      cases h.2
      exact .quiet _ s.status _ (.of_cell (cell_congr rfl)) rfl
  case h_13 actor relations key keys pending =>
    rcases leaveAllSection_cases s.pg actor key with ⟨hn,hq⟩ | ⟨notified,hs,hc⟩
    · generalize s.pg.leaveAllSection actor key=r at *
      obtain ⟨pg,found⟩:=r
      obtain rfl : found=none:=hn
      cases h
      exact .quiet pg s.status _ hq rfl
    · generalize s.pg.leaveAllSection actor key=r at *
      obtain ⟨pg,found⟩:=r
      obtain rfl : found=some notified:=hs
      cases h
      exact .changed pg _ notified _ hc rfl
  case h_14 => cases h; exact .quiet _ s.status _ quiet_removeEmpty rfl
  case h_15 => cases h; exact .quiet s.pg s.status _ (.refl s.pg) rfl
  case h_16 notice pending =>
    cases ht : notice.targets with
    | cons listener targets =>
      rw [ht] at h
      cases h
      exact .sent notice listener targets pending rfl ht
    | nil =>
      rw [ht] at h
      cases hw : notice.worlds with
      | cons world worlds =>
        rw [hw] at h
        cases h
        exact .lookedUp notice world worlds pending rfl ht hw
      | nil =>
        rw [hw] at h
        cases h
        exact .finished notice pending rfl ht hw

end Notifications
end Ractor
