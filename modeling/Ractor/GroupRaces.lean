import Ractor.GroupCoherence

/-!
# Process groups under concurrent calls

Any number of threads join, leave, monitor and demonitor, while actors publish their statuses and
clean up after themselves when they stop. Each section on a forward entry, on the relations of an
actor and on the table of the relations is a step of its own, and so is each read of a status. A
section in which other sections are nested is taken apart into steps that hold its lock. What is in
an entry is seen by the owner of its lock only, so that members are changed together with what comes
next in the section.

A thread holds the locks that go with where it stands: moving on takes and gives back locks. The
sections of an actor that stops nest nothing except for the one that forgets its relations.
-/

namespace Ractor
open Function

/-- What is left to do after a section: an entry without anybody in it is removed, and so are the
relations of an actor that is stopping. -/
inductive CleanupTask (Id : Type) where
  | close (table : ListenerTable) (key : ScopeGroupKey)
  | sweep (actor : Id) (relations : ℕ)
  deriving DecidableEq

/-- The section of a `join_scoped` on the entry of the group, with the actors that are left. -/
structure JoinSection (Id : Type) where
  key : ScopeGroupKey
  actors : List Id
  todo : List Id
  progress : PgState.JoinProgress Id:={}

namespace JoinSection
variable {Id : Type} [DecidableEq Id]

def joined (j : JoinSection Id) : List Id:=j.actors.filter (· ∈ j.progress.accepted)

def tasks (j : JoinSection Id) : List (CleanupTask Id) :=
  j.progress.stopped.map (fun p => .sweep p.1 p.2) ++
    if j.joined=[] then [.close .group j.key] else []

end JoinSection

/-- The arguments of a `monitor` or a `monitor_scope` with the relations that it has looked up. -/
structure Monitoring (Id : Type) where
  table : ListenerTable
  key : ScopeGroupKey
  actor : Id
  relations : ℕ

inductive RacingCall (Id : Type) where
  | idle
  | joinFilter (key : ScopeGroupKey) (todo kept : List Id)
  | joinLock (key : ScopeGroupKey) (actors : List Id)
  | joinNext (j : JoinSection Id)
  | joinAcquire (j : JoinSection Id) (actor : Id) (relations : ℕ)
  | joinRead (j : JoinSection Id) (actor : Id) (relations : ℕ)
  | joinAccept (j : JoinSection Id) (actor : Id) (relations : ℕ)
  | joinRefuse (j : JoinSection Id) (actor : Id) (relations : ℕ)
  | leaveLock (key : ScopeGroupKey) (actors : List Id)
  | leaveNext (key : ScopeGroupKey) (todo : List Id)
  | leaveRemove (key : ScopeGroupKey) (todo : List Id) (actor : Id) (found : Option ℕ)
  | monitorGet (table : ListenerTable) (key : ScopeGroupKey) (actor : Id)
  | monitorLock (m : Monitoring Id)
  | monitorAcquire (m : Monitoring Id)
  | monitorRead (m : Monitoring Id)
  | monitorAccept (m : Monitoring Id)
  | monitorRelease (m : Monitoring Id)
  | monitorUnlock (m : Monitoring Id)
  | monitorReread (m : Monitoring Id)
  | demonitorGet (table : ListenerTable) (key : ScopeGroupKey) (actor : Id)
  | demonitorLock (table : ListenerTable) (key : ScopeGroupKey) (actor : Id) (found : Option ℕ)
  | demonitorSection (table : ListenerTable) (key : ScopeGroupKey) (actor : Id) (found : Option ℕ)
  | cleanup (tasks : List (CleanupTask Id))
  | forget (actor : Id) (relations : ℕ) (tasks : List (CleanupTask Id))

/-- Where the cleanup of an actor stands, which publishing `Stopping` starts. -/
inductive Shutdown where
  | notStarted
  | demonitorAll
  | takeMonitors (relations : ℕ)
  | demonitoring (entries : List (ListenerTable × ScopeGroupKey))
  | leaveAll
  | takeMemberships (relations : ℕ)
  | leavingAll (relations : ℕ) (keys : List ScopeGroupKey)
  | removeEmpty (relations : ℕ)
  | forget (relations : ℕ)
  | done
  deriving DecidableEq

namespace RacingCall
variable {Id : Type}

def entry : RacingCall Id → Option (ListenerTable × ScopeGroupKey)
  | .joinNext j | .joinAcquire j _ _ | .joinRead j _ _ | .joinAccept j _ _ | .joinRefuse j _ _ =>
    some (.group,j.key)
  | .leaveNext key _ | .leaveRemove key _ _ _ => some (.group,key)
  | .monitorAcquire m | .monitorRead m | .monitorAccept m | .monitorRelease m | .monitorUnlock m =>
    some (m.table,m.key)
  | .demonitorSection table key _ _ => some (table,key)
  | _ => none

def relations : RacingCall Id → Option ℕ
  | .joinRead _ _ relations | .joinAccept _ _ relations | .joinRefuse _ _ relations =>
    some relations
  | .monitorRead m | .monitorAccept m | .monitorRelease m => some m.relations
  | .forget _ relations _ => some relations
  | _ => none

end RacingCall

def Shutdown.relations : Shutdown → Option ℕ
  | .forget relations => some relations
  | _ => none

inductive RacingRequest (Id : Type) where
  | joinScoped (scope group : String) (actors : List Id)
  | leaveScoped (scope group : String) (actors : List Id)
  | monitor (group : String) (actor : Id)
  | monitorScope (scope : String) (actor : Id)
  | demonitor (group : String) (actor : Id)
  | demonitorScope (scope : String) (actor : Id)

def RacingRequest.call {Id : Type} : RacingRequest Id → RacingCall Id
  | .joinScoped scope group actors => .joinFilter ⟨scope,group⟩ actors []
  | .leaveScoped scope group actors => .leaveLock ⟨scope,group⟩ actors
  | .monitor group actor => .monitorGet .group ⟨defaultScope,group⟩ actor
  | .monitorScope scope actor => .monitorGet .world ⟨scope,allGroupsNotification⟩ actor
  | .demonitor group actor => .demonitorGet .group ⟨defaultScope,group⟩ actor
  | .demonitorScope scope actor => .demonitorGet .world ⟨scope,allGroupsNotification⟩ actor

structure Races (Thread Id : Type) where
  pg : PgState Id:={}
  status : Id → ActorStatus:=fun _ => .unstarted
  calls : Thread → RacingCall Id:=fun _ => .idle
  shutdowns : Id → Shutdown:=fun _ => .notStarted
  entryOwner : ListenerTable × ScopeGroupKey → Option Thread:=fun _ => none
  /-- Relations are locked by threads and by actors that stop. -/
  relationsOwner : ℕ → Option (Thread ⊕ Id):=fun _ => none

inductive RaceStep (Thread Id : Type) where
  | begin (thread : Thread) (request : RacingRequest Id)
  | resume (thread : Thread)
  | setStatus (actor : Id) (status : ActorStatus)
  | shutdown (actor : Id) (order : Finset ScopeGroupKey → List ScopeGroupKey)

/-- Locks are given back and taken: what the owner held, and what it holds now. -/
def transfer {Lock Owner : Type} [DecidableEq Lock] (table : Lock → Option Owner) (owner : Owner)
    (before after : Option Lock) (lock : Lock) : Option Owner :=
  if after=some lock then some owner
  else if before=some lock then none
  else table lock

namespace Races
open PgState

variable {Thread Id : Type} [DecidableEq Id] (s : Races Thread Id)

def Unlocked (found : Option ℕ) : Prop :=
  ∀relations∈found,s.relationsOwner relations=none

instance (s : Races Thread Id) (found : Option ℕ) : Decidable (s.Unlocked found) :=
  inferInstanceAs (Decidable (∀relations∈found,_))

def resume : RacingCall Id → Option (PgState Id × RacingCall Id)
  | .idle => none
  | .joinFilter key (actor::todo) kept =>
    some (s.pg,.joinFilter key todo (if s.status actor ≤ .draining then kept++[actor] else kept))
  | .joinFilter key [] kept => some (s.pg,if kept=[] then .idle else .joinLock key kept)
  | .joinLock key actors =>
    if s.entryOwner (.group,key)=none then
      some (s.pg.openEntry .group key,.joinNext {key:=key,actors:=actors,todo:=actors})
    else none
  | .joinNext j =>
    match j.todo with
    | [] => some (s.pg.joinMembers j.key j.joined,.cleanup j.tasks)
    | actor::todo =>
      if actor∈j.progress.processed then some (s.pg,.joinNext {j with todo:=todo})
      else
        let (relations,pg) := s.pg.getOrCreateActorRelations actor
        let progress := {j.progress with processed:=actor::j.progress.processed}
        some (pg,.joinAcquire {j with todo:=todo,progress:=progress} actor relations)
  | .joinAcquire j actor relations =>
    if s.relationsOwner relations=none then some (s.pg,.joinRead j actor relations) else none
  | .joinRead j actor relations =>
    some (s.pg,if s.status actor ≤ .draining then .joinAccept j actor relations
      else .joinRefuse j actor relations)
  | .joinAccept j actor relations =>
    let progress := {j.progress with accepted:=actor::j.progress.accepted}
    some (s.pg.updateRelations relations (.addMembership j.key),
      .joinNext {j with progress:=progress})
  | .joinRefuse j actor relations =>
    let stopped := if (s.pg.heap relations).Empty then j.progress.stopped++[(actor,relations)]
      else j.progress.stopped
    some (s.pg,.joinNext {j with progress:={j.progress with stopped:=stopped}})
  | .leaveLock key actors =>
    if s.entryOwner (.group,key)=none then
      some (s.pg,if s.pg.occupied .group key then .leaveNext key actors else .idle)
    else none
  | .leaveNext key [] => some (s.pg.leaveMembers key,.idle)
  | .leaveNext key (actor::todo) =>
    some (s.pg,.leaveRemove key todo actor (s.pg.getActorRelations actor))
  | .leaveRemove key todo actor found =>
    if s.Unlocked found then
      some ((s.pg.updateFound found (.removeMembership key)).updateMembers key (·.erase actor),
        .leaveNext key todo)
    else none
  | .monitorGet table key actor =>
    let (relations,pg) := s.pg.getOrCreateActorRelations actor
    some (pg,.monitorLock ⟨table,key,actor,relations⟩)
  | .monitorLock m =>
    if s.entryOwner (m.table,m.key)=none then
      some (s.pg.openEntry m.table m.key,.monitorAcquire m)
    else none
  | .monitorAcquire m =>
    if s.relationsOwner m.relations=none then some (s.pg,.monitorRead m) else none
  | .monitorRead m =>
    some (s.pg,if s.status m.actor ≤ .draining then .monitorAccept m else .monitorRelease m)
  | .monitorAccept m =>
    some (s.pg.addListener m.table m.key m.actor m.relations,.monitorRelease m)
  | .monitorRelease m => some (s.pg,.monitorUnlock m)
  | .monitorUnlock m => some (s.pg,.monitorReread m)
  | .monitorReread m =>
    some (s.pg,if .stopping ≤ s.status m.actor then
      .cleanup [.close m.table m.key,.sweep m.actor m.relations] else .idle)
  | .demonitorGet table key actor =>
    some (s.pg,.demonitorLock table key actor (s.pg.getActorRelations actor))
  | .demonitorLock table key actor found =>
    if s.entryOwner (table,key)=none then some (s.pg,.demonitorSection table key actor found)
    else none
  | .demonitorSection table key actor found =>
    if s.Unlocked found then some (s.pg.demonitorSection table key actor found,.idle) else none
  | .cleanup [] => some (s.pg,.idle)
  | .cleanup (.close table key::tasks) =>
    if s.entryOwner (table,key)=none then some (s.pg.closeEntry table key,.cleanup tasks)
    else none
  | .cleanup (.sweep actor relations::tasks) =>
    if s.relationsOwner relations=none then
      some (s.pg,if (s.pg.heap relations).Empty then .forget actor relations tasks
        else .cleanup tasks)
    else none
  | .forget actor relations tasks => some (s.pg.forgetRelations actor relations,.cleanup tasks)

/-- The next step in the cleanup of the actor. Where a set of keys is taken, `order` is the order in
which it is iterated over. -/
def resumeShutdown (actor : Id) (order : Finset ScopeGroupKey → List ScopeGroupKey) :
    Shutdown → Option (PgState Id × Shutdown)
  | .notStarted => none
  | .demonitorAll =>
    some (s.pg,(s.pg.getActorRelations actor).elim .leaveAll .takeMonitors)
  | .takeMonitors relations =>
    let groups := (s.pg.heap relations).groupMonitors
    let worlds := (s.pg.heap relations).worldMonitors
    if s.relationsOwner relations=none ∧ Enumerates order groups ∧ Enumerates order worlds then
      some (s.pg.updateRelations relations .takeMonitors,
        .demonitoring ((order groups).map (.group,·)++(order worlds).map (.world,·)))
    else none
  | .demonitoring [] => some (s.pg,.leaveAll)
  | .demonitoring ((table,key)::entries) =>
    if s.entryOwner (table,key)=none then
      some (s.pg.dropListener table key actor,.demonitoring entries)
    else none
  | .leaveAll => some (s.pg,(s.pg.getActorRelations actor).elim .done .takeMemberships)
  | .takeMemberships relations =>
    let keys := (s.pg.heap relations).memberships
    if s.relationsOwner relations=none ∧ Enumerates order keys then
      some (s.pg.updateRelations relations .takeMemberships,.leavingAll relations (order keys))
    else none
  | .leavingAll relations [] => some (s.pg,.removeEmpty relations)
  | .leavingAll relations (key::keys) =>
    if s.entryOwner (.group,key)=none then
      some ((s.pg.leaveAllSection actor key).1,.leavingAll relations keys)
    else none
  | .removeEmpty relations =>
    if s.relationsOwner relations=none then
      some (s.pg,if (s.pg.heap relations).Empty then .forget relations else .done)
    else none
  | .forget relations => some (s.pg.forgetRelations actor relations,.done)
  | .done => none

def goto [DecidableEq Thread] (s : Races Thread Id) (thread : Thread) (pg : PgState Id)
    (call : RacingCall Id) : Races Thread Id :=
  { s with
    pg:=pg
    calls:=update s.calls thread call
    entryOwner:=transfer s.entryOwner thread (s.calls thread).entry call.entry
    relationsOwner :=
      transfer s.relationsOwner (.inl thread) (s.calls thread).relations call.relations }

def gotoShutdown (actor : Id) (pg : PgState Id) (shutdown : Shutdown) : Races Thread Id :=
  { s with
    pg:=pg
    shutdowns:=update s.shutdowns actor shutdown
    relationsOwner :=
      transfer s.relationsOwner (.inr actor) (s.shutdowns actor).relations shutdown.relations }

def setStatus (actor : Id) (status : ActorStatus) : Races Thread Id :=
  { s with
    status:=update s.status actor (max (s.status actor) status)
    shutdowns :=
      if .stopping ≤ status ∧ s.status actor < .stopping then
        update s.shutdowns actor .demonitorAll
      else s.shutdowns }

def step [DecidableEq Thread] (s : Races Thread Id) :
    RaceStep Thread Id → Option (Races Thread Id)
  | .begin thread request =>
    match s.calls thread with
    | .idle => some (s.goto thread s.pg request.call)
    | _ => none
  | .resume thread => (s.resume (s.calls thread)).map fun r => s.goto thread r.1 r.2
  | .setStatus actor status => some (s.setStatus actor status)
  | .shutdown actor order =>
    (s.resumeShutdown actor order (s.shutdowns actor)).map fun r => s.gotoShutdown actor r.1 r.2

def Step [DecidableEq Thread] (s : Races Thread Id) (label : RaceStep Thread Id)
    (s' : Races Thread Id) : Prop :=
  s.step label=some s'

def Initial : Prop:=s={}

end Races
end Ractor
