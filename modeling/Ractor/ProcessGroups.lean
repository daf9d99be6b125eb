import Ractor.ActorStatus
import Mathlib.Data.Finmap
import Mathlib.Data.Finset.Image

/-!
# Process groups

Groups of actors and the actors that listen to changes of them are kept in two ways: the forward
tables say for each group who is in it, the relations of an actor say which groups it is in. An
index lists the groups with members by scope. The relations of an actor are behind a pointer: an
operation that has looked them up keeps working on them when the table has forgotten them.

The operations are given as their critical sections, which the operations as a whole put together.
The set of the keys that a shutting down actor has to visit is iterated over in any order.
-/

namespace Ractor

def defaultScope : String := "__default_scope__"

def allScopesNotification : String := "__world_scope__"

def allGroupsNotification : String := "__world_group_"

structure ScopeGroupKey where
  scope : String
  group : String
  deriving DecidableEq, Repr

structure GroupState (Id : Type) where
  members : Finset Id:=∅
  listeners : List Id:=[]
  deriving DecidableEq

structure ActorRelations where
  memberships : Finset ScopeGroupKey:=∅
  groupMonitors : Finset ScopeGroupKey:=∅
  worldMonitors : Finset ScopeGroupKey:=∅
  deriving DecidableEq

/-- The two tables that actors listen in: the groups, and the scopes with the whole world. -/
inductive ListenerTable where
  | group | world
  deriving DecidableEq, Repr

namespace ActorRelations
variable (r : ActorRelations)

def Empty : Prop :=
  r.memberships=∅ ∧ r.groupMonitors=∅ ∧ r.worldMonitors=∅

instance (r : ActorRelations) : Decidable r.Empty:=inferInstanceAs (Decidable (_ ∧ _))

def monitors : ListenerTable → Finset ScopeGroupKey
  | .group => r.groupMonitors
  | .world => r.worldMonitors

variable (table : ListenerTable) (key : ScopeGroupKey)

def addMembership (r : ActorRelations) : ActorRelations :=
  {r with memberships:=insert key r.memberships}

def removeMembership (r : ActorRelations) : ActorRelations :=
  {r with memberships:=r.memberships.erase key}

def addMonitor (r : ActorRelations) : ActorRelations :=
  match table with
  | .group => {r with groupMonitors:=insert key r.groupMonitors}
  | .world => {r with worldMonitors:=insert key r.worldMonitors}

def removeMonitor (r : ActorRelations) : ActorRelations :=
  match table with
  | .group => {r with groupMonitors:=r.groupMonitors.erase key}
  | .world => {r with worldMonitors:=r.worldMonitors.erase key}

/-- What `demonitor_all` leaves of the relations. -/
def takeMonitors : ActorRelations :=
  {r with groupMonitors:=∅,worldMonitors:=∅}

/-- What `leave_all` leaves of the relations. -/
def takeMemberships : ActorRelations:={r with memberships:=∅}

end ActorRelations

/-- The relations are behind pointers, which `actorRelations` maps actors to. -/
structure PgState (Id : Type) where
  map : Finmap (fun _ : ScopeGroupKey => GroupState Id):=∅
  index : Finmap (fun _ : String => Finset String):=∅
  worldListeners : Finmap (fun _ : ScopeGroupKey => List Id):=∅
  actorRelations : Finmap (fun _ : Id => ℕ):=∅
  heap : ℕ → ActorRelations:=fun _ => {}
  /-- The pointers that are not in use. -/
  next : ℕ:=0

namespace PgState
variable {Id : Type} [DecidableEq Id]

/-! ### Relations -/

variable (s : PgState Id) (table : ListenerTable) (key : ScopeGroupKey) (actor : Id) (relations : ℕ)

def getActorRelations : Option ℕ:=s.actorRelations.lookup actor

def getOrCreateActorRelations : ℕ × PgState Id :=
  match s.actorRelations.lookup actor with
  | some relations => (relations,s)
  | none =>
    (s.next,{s with
      actorRelations:=s.actorRelations.insert actor s.next
      heap:=Function.update s.heap s.next {}
      next:=s.next+1})

def updateRelations (f : ActorRelations → ActorRelations) : PgState Id :=
  {s with heap:=Function.update s.heap relations (f (s.heap relations))}

/-- A change of relations that were looked up before, if there were any. -/
def updateFound (found : Option ℕ) (f : ActorRelations → ActorRelations) : PgState Id :=
  match found with
  | some relations => s.updateRelations relations f
  | none => s

/-- The pointer of the actor is forgotten if it is still this one. -/
def forgetRelations : PgState Id :=
  if s.actorRelations.lookup actor=some relations then
    {s with actorRelations:=s.actorRelations.erase actor}
  else s

def removeEmptyActorRelations : PgState Id :=
  if (s.heap relations).Empty then s.forgetRelations actor relations else s

/-! ### The scope index -/

def addGroupToIndex : PgState Id :=
  { s with
    index:=s.index.insert key.scope (insert key.group ((s.index.lookup key.scope).getD ∅)) }

def removeGroupFromIndex : PgState Id :=
  match s.index.lookup key.scope with
  | some groups =>
    if groups.erase key.group=∅ then {s with index:=s.index.erase key.scope}
    else {s with index:=s.index.insert key.scope (groups.erase key.group)}
  | none => s

/-! ### Forward entries -/

def openEntry : PgState Id :=
  match table with
  | .group =>
    {s with map:=s.map.insert key ((s.map.lookup key).getD {})}
  | .world =>
    {s with worldListeners:=s.worldListeners.insert key ((s.worldListeners.lookup key).getD [])}

def closeEntry : PgState Id :=
  match table with
  | .group =>
    if s.map.lookup key=some {} then {s with map:=s.map.erase key} else s
  | .world =>
    if s.worldListeners.lookup key=some [] then
      {s with worldListeners:=s.worldListeners.erase key}
    else s

def occupied : Bool :=
  match table with
  | .group => (s.map.lookup key).isSome
  | .world => (s.worldListeners.lookup key).isSome

def members (s : PgState Id) (key : ScopeGroupKey) : Finset Id :=
  (s.map.lookup key).elim ∅ (·.members)

def listeners (s : PgState Id) (table : ListenerTable) (key : ScopeGroupKey) : List Id :=
  match table with
  | .group => (s.map.lookup key).elim [] (·.listeners)
  | .world => (s.worldListeners.lookup key).getD []

def updateMembers (f : Finset Id → Finset Id) : PgState Id :=
  match s.map.lookup key with
  | some group => {s with map:=s.map.insert key {group with members:=f group.members}}
  | none => s

def updateListeners (f : List Id → List Id) : PgState Id :=
  match table with
  | .group =>
    match s.map.lookup key with
    | some group => {s with map:=s.map.insert key {group with listeners:=f group.listeners}}
    | none => s
  | .world =>
    match s.worldListeners.lookup key with
    | some listeners => {s with worldListeners:=s.worldListeners.insert key (f listeners)}
    | none => s

/-! ### Joining -/

/-- The loop over the actors of a `join_scoped`: who was looked at, who was accepted and whose empty
relations are to be removed. -/
structure JoinProgress (Id : Type) where
  processed : List Id:=[]
  accepted : List Id:=[]
  stopped : List (Id × ℕ):=[]

variable (status : Id → ActorStatus) (scope group : String) (actors : List Id)

def joinActor (status : Id → ActorStatus) (key : ScopeGroupKey)
    (sp : PgState Id × JoinProgress Id) (actor : Id) : PgState Id × JoinProgress Id :=
  if actor∈sp.2.processed then sp
  else
    let (relations,s) := sp.1.getOrCreateActorRelations actor
    let p := {sp.2 with processed:=actor::sp.2.processed}
    if status actor ≤ .draining then
      (s.updateRelations relations (.addMembership key),{p with accepted:=actor::p.accepted})
    else if (s.heap relations).Empty then
      (s,{p with stopped:=p.stopped++[(actor,relations)]})
    else (s,p)

def joinMembers (joined : List Id) : PgState Id :=
  let s := s.updateMembers key (· ∪ joined.toFinset)
  if joined≠[] then s.addGroupToIndex key else s

/-- The section on the entry of the group: the new state, the actors that have joined, the listeners
to notify, and the relations to remove. -/
def joinSection (s : PgState Id) (key : ScopeGroupKey) (actors : List Id) :
    PgState Id × List Id × List Id × List (Id × ℕ) :=
  let (s,p) := actors.foldl (joinActor status key) (s.openEntry .group key,{})
  let joined := actors.filter (· ∈ p.accepted)
  (s.joinMembers key joined,joined,s.listeners .group key,p.stopped)

def joinScoped (s : PgState Id) (scope group : String) (actors : List Id) : PgState Id :=
  let key := {scope:=scope,group:=group}
  let actors := actors.filter (status · ≤ .draining)
  if actors=[] then s
  else
    let (s,joined,_,stopped) := joinSection status s key actors
    let s := stopped.foldl (fun s p => s.removeEmptyActorRelations p.1 p.2) s
    if joined=[] then s.closeEntry .group key else s

def join (s : PgState Id) (group : String) (actors : List Id) : PgState Id :=
  s.joinScoped status defaultScope group actors

/-! ### Leaving -/

def leaveActor (s : PgState Id) (actor : Id) : PgState Id :=
  (s.updateFound (s.getActorRelations actor) (.removeMembership key)).updateMembers key
    (·.erase actor)

/-- The end of the sections that take members away. -/
def leaveMembers : PgState Id :=
  if s.members key=∅ then (s.removeGroupFromIndex key).closeEntry .group key else s

/-- The section on the entry of the group, with the listeners to notify if there is an entry. -/
def leaveSection : PgState Id × Option (List Id) :=
  if s.occupied .group key then
    let s := actors.foldl (leaveActor key) s
    (s.leaveMembers key,some (s.listeners .group key))
  else (s,none)

def leaveScoped (scope group : String) (actors : List Id) : PgState Id :=
  (s.leaveSection {scope:=scope,group:=group} actors).1

def leave : PgState Id :=
  s.leaveScoped defaultScope group actors

/-- The section of `leave_all` on the entry of one group, with the listeners to notify if the actor
was a member. -/
def leaveAllSection (actor : Id) (key : ScopeGroupKey) : PgState Id × Option (List Id) :=
  if actor∈s.members key then
    let s := s.updateMembers key (·.erase actor)
    (s.leaveMembers key,some (s.listeners .group key))
  else (s,none)

/-- `leave_all`, where `order` is the order in which the keys are visited. -/
def leaveAll (actor : Id) (order : Finset ScopeGroupKey → List ScopeGroupKey) : PgState Id :=
  match s.getActorRelations actor with
  | none => s
  | some relations =>
    let keys := order (s.heap relations).memberships
    let s := s.updateRelations relations .takeMemberships
    let s := keys.foldl (fun s key => (s.leaveAllSection actor key).1) s
    s.removeEmptyActorRelations actor relations

/-! ### Monitoring -/

def pushListener (actor : Id) (listeners : List Id) : List Id :=
  if actor∈listeners then listeners else listeners++[actor]

def addListener (actor : Id) (relations : ℕ) : PgState Id :=
  (s.updateListeners table key (pushListener actor)).updateRelations relations
    (.addMonitor table key)

/-- `monitor` and `monitor_scope`, which differ in the table. -/
def monitorIn (s : PgState Id) (table : ListenerTable) (key : ScopeGroupKey) (actor : Id) :
    PgState Id :=
  let (relations,s) := s.getOrCreateActorRelations actor
  let s := s.openEntry table key
  let s := if status actor ≤ .draining then s.addListener table key actor relations else s
  if .stopping ≤ status actor then
    (s.closeEntry table key).removeEmptyActorRelations actor relations
  else s

def monitor (s : PgState Id) (group : String) (actor : Id) : PgState Id :=
  s.monitorIn status .group {scope:=defaultScope,group:=group} actor

def monitorScope (s : PgState Id) (scope : String) (actor : Id) : PgState Id :=
  s.monitorIn status .world {scope:=scope,group:=allGroupsNotification} actor

def dropListener (actor : Id) : PgState Id :=
  (s.updateListeners table key (·.filter (· ≠ actor))).closeEntry table key

/-- `demonitor` and `demonitor_scope`, with the relations that were looked up before the section on
the entry. -/
def demonitorSection (actor : Id) (relations : Option ℕ) : PgState Id :=
  let s := s.updateFound relations (.removeMonitor table key)
  if s.occupied table key then s.dropListener table key actor else s

def demonitor (actor : Id) : PgState Id :=
  s.demonitorSection .group {scope:=defaultScope,group:=group} actor
    (s.getActorRelations actor)

def demonitorScope (actor : Id) : PgState Id :=
  s.demonitorSection .world {scope:=scope,group:=allGroupsNotification} actor
    (s.getActorRelations actor)

/-- `demonitor_all`, where `order` is the order in which the keys are visited. -/
def demonitorAll (actor : Id) (order : Finset ScopeGroupKey → List ScopeGroupKey) : PgState Id :=
  match s.getActorRelations actor with
  | none => s
  | some relations =>
    let groups := order (s.heap relations).groupMonitors
    let worlds := order (s.heap relations).worldMonitors
    let s := s.updateRelations relations .takeMonitors
    let s := groups.foldl (fun s key => s.dropListener .group key actor) s
    worlds.foldl (fun s key => s.dropListener .world key actor) s

/-! ### Queries -/

def whichScopesAndGroups : Finset ScopeGroupKey :=
  s.map.keys.filter fun key => s.members key≠∅

def whichGroups : Finset String:=s.whichScopesAndGroups.image (·.group)

def whichScopes : Finset String:=s.whichScopesAndGroups.image (·.scope)

def whichScopedGroups : Finset String :=
  (s.index.lookup scope).getD ∅

end PgState
end Ractor
