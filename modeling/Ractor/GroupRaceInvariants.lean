import Ractor.GroupRaces

/-!
# What races on process groups keep

A `Seat` of an actor, as a member or as a listener, is noted in its own relations, or it is among what
its cleanup has taken from them. An actor that is stopping gets nothing new, as its relations
are locked while its status is read and until they have changed. Its pointer and entries without
anybody in them are always taken care of by somebody.

What a thread knows is not touched by others as long as it holds its locks. `Rely` collects what is
needed of a step of somebody else.
-/

namespace Ractor
open ActorRelations Finset

/-! ### Seats -/

inductive Seat where
  | member (key : ScopeGroupKey)
  | listener (table : ListenerTable) (key : ScopeGroupKey)

namespace Seat
open PgState

def lock : Seat → ListenerTable × ScopeGroupKey
  | member key => (.group,key)
  | listener table key => (table,key)

def Taken {Id : Type} (pg : PgState Id) (actor : Id) : Seat → Prop
  | member key => actor∈pg.members key
  | listener table key => actor∈pg.listeners table key

def Noted (relations : ActorRelations) : Seat → Prop
  | member key => key∈relations.memberships
  | listener table key => key∈relations.monitors table

variable {Id : Type} {pg pg' : PgState Id} {actor : Id} {seat : Seat} {r : ActorRelations}
  {table : ListenerTable} {key : ScopeGroupKey}

theorem taken_congr (h : pg'.cell seat.lock.1 seat.lock.2=pg.cell seat.lock.1 seat.lock.2) :
    seat.Taken pg' actor ↔ seat.Taken pg actor := by
  cases seat with
  | member key =>
    rw [Taken,Taken,members_eq_cell,members_eq_cell]
    exact iff_of_eq (congrArg (actor ∈ ·.members) h)
  | listener table key =>
    rw [Taken,Taken,listeners_eq_cell,listeners_eq_cell]
    exact iff_of_eq (congrArg (actor ∈ ·.listeners) h)

theorem taken_of_cell (seat : Seat) (h : pg'.cell=pg.cell) (ht : seat.Taken pg' actor) :
    seat.Taken pg actor :=
  (taken_congr (by rw [h])).mp ht

theorem empty_iff : r.Empty ↔ ∀seat : Seat,¬ seat.Noted r := by
  rw [ActorRelations.empty_iff]
  refine ⟨fun ⟨hm,hl⟩ seat => ?_,fun h => ⟨?_,fun table => ?_⟩⟩
  · cases seat with
    | member key => simp [Noted,hm]
    | listener table key => simp [Noted,hl]
  · exact Finset.eq_empty_of_forall_notMem fun key => h (.member key)
  · exact Finset.eq_empty_of_forall_notMem fun key => h (.listener table key)

theorem noted_addMembership (h : seat.Noted r) : seat.Noted (r.addMembership key) := by
  cases seat with
  | member => exact mem_insert_of_mem h
  | listener => rwa [Noted,monitors_addMembership]

theorem noted_removeMembership (hne : seat≠.member key) (h : seat.Noted r) :
    seat.Noted (r.removeMembership key) := by
  cases seat with
  | member => exact mem_erase.mpr ⟨fun heq => hne (by rw [heq]),h⟩
  | listener => rwa [Noted,monitors_removeMembership]

theorem noted_addMonitor (h : seat.Noted r) : seat.Noted (r.addMonitor table key) := by
  cases seat with
  | member => rwa [Noted,memberships_addMonitor]
  | listener =>
    rw [Noted,monitors_addMonitor]
    split
    · exact mem_insert_of_mem h
    · exact h

theorem noted_removeMonitor (hne : seat≠.listener table key) (h : seat.Noted r) :
    seat.Noted (r.removeMonitor table key) := by
  cases seat with
  | member => rwa [Noted,memberships_removeMonitor]
  | listener =>
    rw [Noted,monitors_removeMonitor]
    split
    next ht => exact mem_erase.mpr ⟨fun heq => hne (by rw [ht,heq]),h⟩
    next => exact h

theorem noted_of_removeMembership (h : seat.Noted (r.removeMembership key)) : seat.Noted r := by
  cases seat with
  | member => exact mem_of_mem_erase h
  | listener => rwa [Noted,monitors_removeMembership] at h

theorem noted_of_removeMonitor (h : seat.Noted (r.removeMonitor table key)) : seat.Noted r := by
  cases seat with
  | member => rwa [Noted,memberships_removeMonitor] at h
  | listener =>
    rw [Noted,monitors_removeMonitor] at h
    split at h
    · exact mem_of_mem_erase h
    · exact h

end Seat

namespace Shutdown

/-- The actor may still be added to groups through the relations. -/
def Early (relations : ℕ) : Shutdown → Prop
  | .notStarted | .demonitorAll => True
  | .takeMonitors taken => taken=relations
  | _ => False

/-- The pointer to the relations will be forgotten if it points to nothing. -/
def Cleans (relations : ℕ) : Shutdown → Prop
  | .notStarted | .demonitorAll | .takeMonitors _ | .demonitoring _ | .leaveAll => True
  | .takeMemberships taken | .leavingAll taken _ | .removeEmpty taken | .forget taken =>
    taken=relations
  | .done => False

/-- The seats that the actor is still to give up. -/
def Frees (seat : Seat) : Shutdown → Prop
  | .demonitoring entries =>
    match seat with
    | .listener table key => (table,key)∈entries
    | .member _ => False
  | .leavingAll _ keys =>
    match seat with
    | .member key => key∈keys
    | .listener _ _ => False
  | _ => False

end Shutdown

namespace RacingCall
variable {Id : Type}

/-- The thread will remove the relations of the actor if they are empty and the actor is stopping. -/
def Tracks (actor : Id) (relations : ℕ) : RacingCall Id → Prop
  | .joinNext j | .joinAccept j _ _ => (actor,relations)∈j.progress.stopped
  | .joinAcquire j actor' relations' | .joinRead j actor' relations' |
    .joinRefuse j actor' relations' =>
    (actor=actor' ∧ relations=relations') ∨ (actor,relations)∈j.progress.stopped
  | .monitorLock m | .monitorAcquire m | .monitorRead m | .monitorAccept m | .monitorRelease m |
    .monitorUnlock m | .monitorReread m => actor=m.actor ∧ relations=m.relations
  | .cleanup tasks => .sweep actor relations∈tasks
  | .forget actor' relations' tasks =>
    (actor=actor' ∧ relations=relations') ∨ .sweep actor relations∈tasks
  | _ => False

/-- The thread has locked the entry, or it will remove it if nobody is in it. -/
def Minds (status : Id → ActorStatus) (table : ListenerTable) (key : ScopeGroupKey) :
    RacingCall Id → Prop
  | .cleanup tasks | .forget _ _ tasks => .close table key∈tasks
  | .monitorReread m => m.table=table ∧ m.key=key ∧ .stopping ≤ status m.actor
  | call => call.entry=some (table,key)

end RacingCall

namespace Races
open PgState

variable {Thread Id : Type} [DecidableEq Id] (s : Races Thread Id) (actor : Id) (relations : ℕ)

def Known (seat : Seat) : Prop :=
  seat.Noted (s.pg.relationsOf actor) ∨ (s.shutdowns actor).Frees seat

/-- Nobody else has the pointer, now or later. -/
def Owned (pg : PgState Id) (actor : Id) (relations : ℕ) : Prop :=
  relations<pg.next ∧ ∀other,pg.actorRelations.lookup other=some relations → other=actor

/-- The pointer is the one of the actor as long as the actor is not stopping. -/
def Found : Prop :=
  s.pg.actorRelations.lookup actor=some relations ∨ .stopping ≤ s.status actor

/-- What is added to the relations will be taken by the cleanup of the actor. -/
def Inserting : Prop :=
  s.pg.actorRelations.lookup actor=some relations ∧ (s.shutdowns actor).Early relations

structure JoinOk (s : Races Thread Id) (j : JoinSection Id) : Prop where
  accepted : ∀actor∈j.progress.accepted,s.Known actor (.member j.key)
  stopped : ∀p∈j.progress.stopped,.stopping ≤ s.status p.1

def CallOk : RacingCall Id → Prop
  | .joinNext j => s.JoinOk j
  | .joinAcquire j actor relations | .joinRead j actor relations =>
    s.JoinOk j ∧ s.Found actor relations
  | .joinAccept j actor relations => s.JoinOk j ∧ s.Inserting actor relations
  | .joinRefuse j actor _ => s.JoinOk j ∧ .stopping ≤ s.status actor
  | .leaveRemove _ _ actor found | .demonitorLock _ _ actor found |
    .demonitorSection _ _ actor found => ∀relations∈found,Owned s.pg actor relations
  | .monitorLock m | .monitorAcquire m | .monitorRead m => s.Found m.actor m.relations
  | .monitorAccept m => s.Inserting m.actor m.relations
  | .monitorRelease m | .monitorUnlock m =>
    s.pg.entry m.table m.key≠some {} ∨ .stopping ≤ s.status m.actor
  | .cleanup tasks => ∀actor relations,.sweep actor relations∈tasks → .stopping ≤ s.status actor
  | .forget actor relations tasks =>
    (.stopping ≤ s.status actor ∧ (s.pg.heap relations).Empty) ∧
      ∀actor relations,.sweep actor relations∈tasks → .stopping ≤ s.status actor
  | _ => True

def Deaf (relations : ActorRelations) : Prop :=
  ∀table key,¬ (Seat.listener table key).Noted relations

/-- What is left of the relations of an actor where its cleanup stands. -/
def ShutdownOk : Shutdown → Prop
  | .notStarted | .demonitorAll => True
  | .takeMonitors relations =>
    Owned s.pg actor relations ∧
      (s.pg.actorRelations.lookup actor=some relations ∨ (s.pg.relationsOf actor).Empty)
  | .demonitoring _ | .leaveAll => Deaf (s.pg.relationsOf actor)
  | .takeMemberships relations =>
    (Owned s.pg actor relations ∧
      (s.pg.actorRelations.lookup actor=some relations ∨ (s.pg.relationsOf actor).Empty)) ∧
      Deaf (s.pg.relationsOf actor)
  | .leavingAll _ _ | .removeEmpty _ | .forget _ | .done => (s.pg.relationsOf actor).Empty

structure Inv (s : Races Thread Id) : Prop where
  pointed : s.pg.Pointed
  entryOwner : ∀thread lock,(s.calls thread).entry=some lock → s.entryOwner lock=some thread
  callOwner : ∀thread lock,(s.calls thread).relations=some lock →
    s.relationsOwner lock=some (.inl thread)
  shutdownOwner : ∀actor lock,(s.shutdowns actor).relations=some lock →
    s.relationsOwner lock=some (.inr actor)
  started : ∀actor,.stopping ≤ s.status actor ↔ s.shutdowns actor≠.notStarted
  calls : ∀thread,s.CallOk (s.calls thread)
  shutdowns : ∀actor,s.ShutdownOk actor (s.shutdowns actor)
  known : ∀actor (seat : Seat),seat.Taken s.pg actor → s.Known actor seat
  tracked : ∀actor relations,.stopping ≤ s.status actor →
    s.pg.actorRelations.lookup actor=some relations →
      (s.shutdowns actor).Cleans relations ∨ ∃thread,(s.calls thread).Tracks actor relations
  minded : ∀table key,s.pg.entry table key=some {} →
    ∃thread,(s.calls thread).Minds s.status table key

/-! ### Steps of others -/

/-- What a thread that stands at `call` needs of a step of somebody else. -/
structure Rely (s s' : Races Thread Id) (call : RacingCall Id) : Prop where
  status : ∀actor,s.status actor ≤ s'.status actor
  next : s.pg.next ≤ s'.pg.next
  pointers : ∀actor relations,relations<s.pg.next →
    s'.pg.actorRelations.lookup actor=some relations →
      s.pg.actorRelations.lookup actor=some relations
  kept : ∀actor relations,s.pg.actorRelations.lookup actor=some relations →
    s'.pg.actorRelations.lookup actor=some relations ∨
      .stopping ≤ s'.status actor ∧ call.relations≠some relations
  heap : ∀relations,call.relations=some relations → (s.pg.heap relations).Empty →
    (s'.pg.heap relations).Empty
  entry : ∀table key,call.entry=some (table,key) → s'.pg.entry table key=s.pg.entry table key
  known : ∀actor seat,call.entry=some seat.lock → s.Known actor seat → s'.Known actor seat
  early : ∀actor relations,call.relations=some relations →
    s.pg.actorRelations.lookup actor=some relations → (s.shutdowns actor).Early relations →
      (s'.shutdowns actor).Early relations

section Rely
variable {s} {s' : Races Thread Id} {call : RacingCall Id} {actor} {relations}

theorem Rely.stopping (h : Rely s s' call) (hs : .stopping ≤ s.status actor) :
    .stopping ≤ s'.status actor :=
  hs.trans (h.status actor)

theorem Rely.owned (h : Rely s s' call) (ho : Owned s.pg actor relations) :
    Owned s'.pg actor relations :=
  ⟨ho.1.trans_le h.next,fun other hot =>
    ho.2 other (h.pointers other relations ho.1 hot)⟩

theorem Rely.found (h : Rely s s' call) (hf : s.Found actor relations) :
    s'.Found actor relations := by
  rcases hf with hl | hs
  · exact (h.kept actor relations hl).imp_right And.left
  · exact .inr (h.stopping hs)

theorem Rely.inserting (h : Rely s s' call) (hh : call.relations=some relations)
    (hi : s.Inserting actor relations) : s'.Inserting actor relations :=
  ⟨(h.kept actor relations hi.1).resolve_right fun hl => hl.2 hh,
    h.early actor relations hh hi.1 hi.2⟩

theorem Rely.joinOk (h : Rely s s' call) {j : JoinSection Id}
    (hh : call.entry=some (.group,j.key)) (hj : s.JoinOk j) : s'.JoinOk j :=
  ⟨fun actor ha => h.known actor (.member j.key) hh (hj.accepted actor ha),
    fun p hp => h.stopping (hj.stopped p hp)⟩

theorem CallOk.rely (h : s.CallOk call) (hr : Rely s s' call) : s'.CallOk call := by
  cases call with
  | joinNext j => exact hr.joinOk rfl h
  | joinAcquire j actor relations | joinRead j actor relations =>
    exact ⟨hr.joinOk rfl h.1,hr.found h.2⟩
  | joinAccept j actor relations => exact ⟨hr.joinOk rfl h.1,hr.inserting rfl h.2⟩
  | joinRefuse j actor relations => exact ⟨hr.joinOk rfl h.1,hr.stopping h.2⟩
  | leaveRemove | demonitorLock | demonitorSection =>
    exact fun relations hf => hr.owned (h relations hf)
  | monitorLock m | monitorAcquire m | monitorRead m => exact hr.found h
  | monitorAccept m => exact hr.inserting rfl h
  | monitorRelease m | monitorUnlock m =>
    exact h.imp (fun hne => (hr.entry m.table m.key rfl).symm ▸ hne) hr.stopping
  | cleanup tasks => exact fun actor relations hmem => hr.stopping (h actor relations hmem)
  | forget actor relations tasks =>
    exact ⟨⟨hr.stopping h.1.1,hr.heap relations rfl h.1.2⟩,fun actor relations hmem =>
      hr.stopping (h.2 actor relations hmem)⟩
  | idle | joinFilter | joinLock | leaveLock | leaveNext | monitorGet | monitorReread |
    demonitorGet => trivial

end Rely

/-! ### Changes at one entry and at the relations of one pointer -/

structure Local (pg pg' : PgState Id) (place : Option (ListenerTable × ScopeGroupKey))
    (pointer : Option ℕ) : Prop where
  pointers : pg'.actorRelations=pg.actorRelations
  next : pg'.next=pg.next
  entry : ∀table key,place≠some (table,key) → pg'.entry table key=pg.entry table key
  heap : ∀r,pointer≠some r → pg'.heap r=pg.heap r
  noted : ∀r (seat : Seat),place≠some seat.lock → seat.Noted (pg.heap r) → seat.Noted (pg'.heap r)

section Blocks
variable {Id : Type} {pg pg' pg'' : PgState Id} {place place' : Option (ListenerTable × ScopeGroupKey)}
  {pointer pointer' : Option ℕ} {table : ListenerTable} {key : ScopeGroupKey}

theorem Local.refl (pg : PgState Id) : Local pg pg none none :=
  ⟨rfl,rfl,fun _ _ _ => rfl,fun _ _ => rfl,fun _ _ _ h => h⟩

theorem Local.trans (h : Local pg pg' place pointer) (h' : Local pg' pg'' place pointer) :
    Local pg pg'' place pointer where
  pointers:=h'.pointers.trans h.pointers
  next:=h'.next.trans h.next
  entry table key hne:=(h'.entry table key hne).trans (h.entry table key hne)
  heap r hne:=(h'.heap r hne).trans (h.heap r hne)
  noted r seat hne hmem:=h'.noted r seat hne (h.noted r seat hne hmem)

theorem Local.weaken (h : Local pg pg' place pointer) (hp : ∀lock∈place,lock∈place')
    (hpo : ∀r∈pointer,r∈pointer') : Local pg pg' place' pointer' where
  pointers:=h.pointers
  next:=h.next
  entry table key hne:=h.entry table key fun heq => hne (hp _ heq)
  heap r hne:=h.heap r fun heq => hne (hpo _ heq)
  noted r seat hne hmem:=h.noted r seat (fun heq => hne (hp _ heq)) hmem

theorem Local.taken (h : Local pg pg' place pointer) {actor : Id} {seat : Seat}
    (hne : place≠some seat.lock) : seat.Taken pg' actor ↔ seat.Taken pg actor :=
  Seat.taken_congr (congrArg (·.getD {}) (h.entry seat.lock.1 seat.lock.2 hne))

theorem Local.of_sameRelations (hs : SameRelations pg pg')
    (he : ∀table' key',¬(table'=table ∧ key'=key) →
      pg'.entry table' key'=pg.entry table' key') : Local pg pg' (some (table,key)) none where
  pointers:=hs.pointers
  next:=hs.next
  entry table' key' hne:=he table' key' fun heq => hne (by rw [heq.1,heq.2])
  heap r _ := by rw [hs.heap]
  noted r seat _ hmem := by rwa [hs.heap]

theorem local_openEntry : Local pg (pg.openEntry table key) (some (table,key)) none :=
  .of_sameRelations sameRelations_openEntry fun _ _ hne => by rw [entry_openEntry,if_neg hne]

theorem local_updateMembers {f : Finset Id→Finset Id} :
    Local pg (pg.updateMembers key f) (some (.group,key)) none :=
  .of_sameRelations sameRelations_updateMembers fun _ _ hne => by
    rw [entry_updateMembers,if_neg hne]

theorem local_updateListeners {f : List Id → List Id} :
    Local pg (pg.updateListeners table key f) (some (table,key)) none :=
  .of_sameRelations sameRelations_updateListeners fun _ _ hne => by
    rw [entry_updateListeners,if_neg hne]

theorem local_updateRelations {r : ℕ} {f : ActorRelations → ActorRelations}
    (hf : ∀r (seat : Seat),place≠some seat.lock→seat.Noted r→seat.Noted (f r)) :
    Local pg (pg.updateRelations r f) place (some r) where
  pointers:=rfl
  next:=rfl
  entry _ _ _:=rfl
  heap r' hne:=Function.update_of_ne (fun heq => hne (by rw [heq])) ..
  noted r' seat hne hmem := by
    by_cases heq : r'=r
    · subst heq
      simpa [updateRelations] using hf _ seat hne hmem
    · simpa [updateRelations,heq] using hmem

theorem local_updateFound {found : Option ℕ} {f : ActorRelations → ActorRelations}
    (hf : ∀r (seat : Seat),place≠some seat.lock→seat.Noted r→seat.Noted (f r)) :
    Local pg (pg.updateFound found f) place found := by
  cases found with
  | none => exact (Local.refl pg).weaken nofun nofun
  | some r => exact local_updateRelations hf

variable [DecidableEq Id]

theorem local_closeEntry : Local pg (pg.closeEntry table key) (some (table,key)) none :=
  .of_sameRelations sameRelations_closeEntry fun _ _ hne => by
    rw [entry_closeEntry,if_neg fun heq => hne ⟨heq.1,heq.2.1⟩]

theorem entry_joinMembers {joined : List Id} : (pg.joinMembers key joined).entry =
    (pg.updateMembers key (· ∪ joined.toFinset)).entry := by
  unfold joinMembers
  split <;> rfl

theorem local_joinMembers {joined : List Id} :
    Local pg (pg.joinMembers key joined) (some (.group,key)) none :=
  .of_sameRelations sameRelations_joinMembers fun _ _ hne => by
    rw [entry_joinMembers,entry_updateMembers,if_neg hne]

theorem local_leaveMembers : Local pg (pg.leaveMembers key) (some (.group,key)) none := by
  refine .of_sameRelations sameRelations_leaveMembers fun table' key' hne => ?_
  unfold leaveMembers
  split
  · rw [entry_closeEntry,if_neg fun heq => hne ⟨heq.1,heq.2.1⟩,entry_removeGroupFromIndex]
  · rfl

theorem local_dropListener {actor : Id} :
    Local pg (pg.dropListener table key actor) (some (table,key)) none :=
  local_updateListeners.trans local_closeEntry

theorem local_addListener {actor : Id} {r : ℕ} :
    Local pg (pg.addListener table key actor r) (some (table,key)) (some r) :=
  (local_updateListeners.weaken (fun _ h => h) nofun).trans
    (local_updateRelations fun _ _ _ => Seat.noted_addMonitor)

theorem local_leaveActor {found : Option ℕ} {actor : Id} :
    Local pg ((pg.updateFound found (.removeMembership key)).updateMembers key (·.erase actor))
      (some (.group,key)) found :=
  (local_updateFound fun _ _ hne => Seat.noted_removeMembership fun heq => hne (by rw [heq]; rfl)).trans
    (local_updateMembers.weaken (fun _ h => h) nofun)

theorem local_demonitorSection {found : Option ℕ} {actor : Id} :
    Local pg (pg.demonitorSection table key actor found) (some (table,key)) found := by
  have hf : Local pg (pg.updateFound found (.removeMonitor table key)) (some (table,key))
      found :=
    local_updateFound fun _ _ hne => Seat.noted_removeMonitor fun heq => hne (by rw [heq]; rfl)
  unfold demonitorSection
  simp only
  split
  · exact hf.trans (local_dropListener.weaken (fun _ h => h) nofun)
  · exact hf

theorem local_leaveAllSection {actor : Id} :
    Local pg (pg.leaveAllSection actor key).1 (some (.group,key)) none := by
  unfold leaveAllSection
  split
  · exact local_updateMembers.trans local_leaveMembers
  · exact (Local.refl pg).weaken nofun nofun

end Blocks

section Local
variable {s} {s' : Races Thread Id} {call : RacingCall Id} {actor} {seat : Seat}
  {place : Option (ListenerTable × ScopeGroupKey)} {pointer : Option ℕ}

theorem Local.known (h : Local s.pg s'.pg place pointer) (hne : place≠some seat.lock)
    (hf : (s.shutdowns actor).Frees seat→(s'.shutdowns actor).Frees seat)
    (hk : s.Known actor seat) : s'.Known actor seat := by
  refine hk.imp (fun hn => ?_) hf
  rw [relationsOf,h.pointers]
  cases hl : s.pg.actorRelations.lookup actor with
  | none =>
    rw [relationsOf_of_none hl] at hn
    exact absurd hn (Seat.empty_iff.mp empty_default seat)
  | some r =>
    rw [relationsOf_of_lookup hl] at hn
    exact h.noted r seat hne hn

/-- Others are not disturbed by changes of what they have not locked. -/
theorem Local.rely (h : Local s.pg s'.pg place pointer) (hs : s'.status=s.status)
    (he : ∀lock∈place,call.entry≠some lock)
    (hr : ∀lock∈pointer,call.relations≠some lock)
    (hf : ∀actor seat,call.entry=some seat.lock→(s.shutdowns actor).Frees seat →
      (s'.shutdowns actor).Frees seat)
    (hea : ∀actor r,call.relations=some r→s.pg.actorRelations.lookup actor=some r →
      (s.shutdowns actor).Early r→(s'.shutdowns actor).Early r) : Rely s s' call where
  status actor := by rw [hs]
  next:=h.next.ge
  pointers actor r _ hl := by rwa [h.pointers] at hl
  kept actor r hl:=.inl (by rwa [h.pointers])
  heap r hh hem := by rwa [h.heap r fun heq => hr r heq hh]
  entry table key hh:=h.entry table key fun heq => he (table,key) heq hh
  known actor seat hh := h.known (fun heq => he seat.lock heq hh) (hf actor seat hh)
  early:=hea

end Local

/-! ### Steps of a thread -/

theorem transfer_self {Lock Owner : Type} [DecidableEq Lock] {table : Lock→Option Owner}
    {owner : Owner} {before after : Option Lock} {lock : Lock} (h : after=some lock) :
    transfer table owner before after lock=some owner :=
  if_pos h

theorem transfer_of_ne {Lock Owner : Type} [DecidableEq Lock] {table : Lock→Option Owner}
    {owner other : Owner} {before after : Option Lock} {lock : Lock}
    (ht : table lock=some other) (hne : other≠owner)
    (hb : before=some lock→table lock=some owner)
    (ha : after=some lock → before=some lock ∨ table lock=none) :
    transfer table owner before after lock=some other := by
  have hnot : before≠some lock:=fun heq =>
    hne (Option.some.inj (ht.symm.trans (hb heq)))
  have hnew : after≠some lock:=fun heq => by
    rcases ha heq with hh | hf
    · exact hnot hh
    · rw [ht] at hf
      cases hf
  rw [transfer,if_neg hnew,if_neg hnot,ht]

/-- A thread that stands at `before` has the locks, or nobody has them. -/
structure Has (s : Races Thread Id) (before : RacingCall Id)
    (place : Option (ListenerTable × ScopeGroupKey)) (pointer : Option ℕ) : Prop where
  entry : ∀lock,place=some lock → before.entry=some lock ∨ s.entryOwner lock=none
  relations : ∀lock,pointer=some lock →
    before.relations=some lock ∨ s.relationsOwner lock=none

/-- The thread does not lose track of relations that nobody else takes care of. -/
def Passes (before call : RacingCall Id) : Prop :=
  ∀actor r,.stopping ≤ s.status actor → s.pg.actorRelations.lookup actor=some r →
    before.Tracks actor r → call.Tracks actor r ∨ (s.shutdowns actor).Cleans r

section Steps
variable {s} {s' : Races Thread Id} {thread : Thread} {pg : PgState Id}
  {before call : RacingCall Id} {shutdown : Shutdown} {actor}

theorem Inv.callOk (h : s.Inv) (hb : s.calls thread=before) : s.CallOk before := hb ▸ h.calls thread

theorem Inv.shutdownOk (h : s.Inv) (hb : s.shutdowns actor=shutdown) :
    s.ShutdownOk actor shutdown :=
  hb ▸ h.shutdowns actor

/-- The relations of the actor lose at most, and its pointer at most when they are empty. -/
theorem ShutdownOk.shrink (h : s.ShutdownOk actor shutdown)
    (ho : ∀r,Owned s.pg actor r→Owned s'.pg actor r)
    (hp : ∀r,s.pg.actorRelations.lookup actor=some r →
      s'.pg.actorRelations.lookup actor=some r ∨ (s'.pg.relationsOf actor).Empty)
    (hn : ∀seat : Seat,seat.Noted (s'.pg.relationsOf actor) →
      seat.Noted (s.pg.relationsOf actor)) : s'.ShutdownOk actor shutdown := by
  have hem : (s.pg.relationsOf actor).Empty→(s'.pg.relationsOf actor).Empty := by
    simp only [Seat.empty_iff]
    exact fun hno seat hs => hno seat (hn seat hs)
  have hd : Deaf (s.pg.relationsOf actor)→Deaf (s'.pg.relationsOf actor) :=
    fun hno table key hs => hno table key (hn _ hs)
  cases shutdown with
  | notStarted | demonitorAll => trivial
  | takeMonitors r =>
    exact ⟨ho r h.1,h.2.elim (hp r) fun he => .inr (hem he)⟩
  | demonitoring | leaveAll => exact hd h
  | takeMemberships r =>
    exact ⟨⟨ho r h.1.1,h.1.2.elim (hp r) fun he => .inr (hem he)⟩,hd h.2⟩
  | leavingAll | removeEmpty | forget | done => exact hem h

/-- The pointers stay, and the relations of the actor lose at most. -/
theorem ShutdownOk.lose (h : s.ShutdownOk actor shutdown)
    (hp : s'.pg.actorRelations=s.pg.actorRelations) (hne : s'.pg.next=s.pg.next)
    (hn : ∀seat : Seat,seat.Noted (s'.pg.relationsOf actor) →
      seat.Noted (s.pg.relationsOf actor)) : s'.ShutdownOk actor shutdown :=
  h.shrink (fun _ ho => ⟨hne.symm ▸ ho.1,fun b hb => ho.2 b (hp ▸ hb)⟩)
    (fun _ hl => .inl (hp.symm ▸ hl)) hn

/-- As long as the actor may be added to groups, nothing is claimed of its relations. -/
theorem ShutdownOk.early {r : ℕ} (h : s.ShutdownOk actor shutdown) (he : shutdown.Early r)
    (ho : Owned s.pg actor r→Owned s'.pg actor r)
    (hl : s'.pg.actorRelations.lookup actor=some r) : s'.ShutdownOk actor shutdown := by
  cases shutdown with
  | notStarted | demonitorAll => trivial
  | takeMonitors taken =>
    obtain rfl : taken=r:=he
    exact ⟨ho h.1,.inl hl⟩
  | demonitoring | leaveAll | takeMemberships | leavingAll | removeEmpty | forget | done =>
    exact he.elim

theorem Inv.entry_ne_of_free (h : s.Inv) {lock : ListenerTable × ScopeGroupKey}
    (hf : s.entryOwner lock=none) : (s.calls thread).entry≠some lock := by
  intro hh
  have ho:=h.entryOwner thread lock hh
  rw [hf] at ho
  cases ho

theorem Inv.relations_ne_of_free (h : s.Inv) {lock : ℕ} (hf : s.relationsOwner lock=none) :
    (s.calls thread).relations≠some lock := by
  intro hh
  have ho:=h.callOwner thread lock hh
  rw [hf] at ho
  cases ho

/-- Nobody else holds a lock that the thread holds or that is free. -/
theorem Inv.entry_ne (h : s.Inv) {t : Thread} (ht : t≠thread) {lock : ListenerTable × ScopeGroupKey}
    (hl : (s.calls thread).entry=some lock ∨ s.entryOwner lock=none) :
    (s.calls t).entry≠some lock := by
  intro hh
  rcases hl with hl | hf
  · have ho:=h.entryOwner t lock hh
    exact ht (Option.some.inj (ho.symm.trans (h.entryOwner thread lock hl)))
  · exact h.entry_ne_of_free hf hh

theorem Inv.relations_ne (h : s.Inv) {t : Thread} (ht : t≠thread) {lock : ℕ}
    (hl : (s.calls thread).relations=some lock ∨ s.relationsOwner lock=none) :
    (s.calls t).relations≠some lock := by
  intro hh
  rcases hl with hl | hf
  · have ho:=h.callOwner t lock hh
    exact ht (Sum.inl.inj (Option.some.inj (ho.symm.trans (h.callOwner thread lock hl))))
  · exact h.relations_ne_of_free hf hh

variable [DecidableEq Thread]

theorem Inv.goto (h : s.Inv) (hb : s.calls thread=before)
    (hl : s.Has before call.entry call.relations) (hp : pg.Pointed)
    (hr : ∀t,t≠thread→Rely s (s.goto thread pg call) (s.calls t))
    (hca : (s.goto thread pg call).CallOk call)
    (hsh : ∀actor,(s.goto thread pg call).ShutdownOk actor (s.shutdowns actor))
    (hk : ∀actor (seat : Seat),seat.Taken pg actor→(s.goto thread pg call).Known actor seat)
    (htr : ∀actor r,.stopping ≤ s.status actor→pg.actorRelations.lookup actor=some r →
      call.Tracks actor r ∨ (s.shutdowns actor).Cleans r ∨
        s.pg.actorRelations.lookup actor=some r ∧ ¬ before.Tracks actor r)
    (hm : ∀table key,pg.entry table key=some {}→call.Minds s.status table key ∨
      s.pg.entry table key=some {} ∧ ¬ before.Minds s.status table key) :
    (s.goto thread pg call).Inv := by
  subst hb
  have hse : (s.goto thread pg call).calls thread=call:=Function.update_self ..
  have ho : ∀t,t≠thread→(s.goto thread pg call).calls t=s.calls t :=
    fun t ht => Function.update_of_ne ht ..
  refine ⟨hp,fun t lock hlock => ?_,fun t lock hlock => ?_,fun actor lock hlock => ?_,
    h.started,fun t => ?_,hsh,hk,fun actor r hs hlo => ?_,
    fun table key he => ?_⟩
  · by_cases ht : t=thread
    · subst ht
      exact transfer_self (hse ▸ hlock)
    · rw [ho t ht] at hlock
      exact transfer_of_ne (h.entryOwner t lock hlock) ht (h.entryOwner thread lock) (hl.entry lock)
  · by_cases ht : t=thread
    · subst ht
      exact transfer_self (hse ▸ hlock)
    · rw [ho t ht] at hlock
      exact transfer_of_ne (h.callOwner t lock hlock) (fun heq => ht (Sum.inl.inj heq))
        (h.callOwner thread lock) (hl.relations lock)
  · exact transfer_of_ne (h.shutdownOwner actor lock hlock) nofun (h.callOwner thread lock)
      (hl.relations lock)
  · by_cases ht : t=thread
    · rw [ht,hse]
      exact hca
    · rw [ho t ht]
      exact (h.calls t).rely (hr t ht)
  · rcases htr actor r hs hlo with hnow | hc | ⟨hold,hnot⟩
    · exact .inr ⟨thread,by rwa [hse]⟩
    · exact .inl hc
    · refine (h.tracked actor r hs hold).imp_right fun ⟨t,ht⟩ => ⟨t,?_⟩
      rwa [ho t fun heq => hnot (heq ▸ ht)]
  · rcases hm table key he with hnow | ⟨hold,hnot⟩
    · exact ⟨thread,by rwa [hse]⟩
    · obtain ⟨t,ht⟩:=h.minded table key hold
      exact ⟨t,by rwa [ho t fun heq => hnot (heq ▸ ht)]⟩

/-- A step that changes what the thread has locked, or what nobody has locked. -/
theorem Inv.goto_local (h : s.Inv) (hb : s.calls thread=before)
    {place : Option (ListenerTable × ScopeGroupKey)} {pointer : Option ℕ}
    (hl : Local s.pg pg place pointer) (hhas : s.Has before place pointer)
    (hloc : s.Has before call.entry call.relations)
    (hc : (s.goto thread pg call).CallOk call)
    (hs : ∀actor,(s.goto thread pg call).ShutdownOk actor (s.shutdowns actor))
    (hk : ∀actor seat,place=some seat.lock→seat.Taken pg actor →
      (s.goto thread pg call).Known actor seat)
    (hp : s.Passes before call)
    (hpl : ∀table key,place=some (table,key)→pg.entry table key=some {} →
      call.Minds s.status table key)
    (hel : ∀table key,place≠some (table,key)→s.pg.entry table key=some {} →
      before.Minds s.status table key→call.Minds s.status table key) :
    (s.goto thread pg call).Inv := by
  subst hb
  refine h.goto rfl hloc (h.pointed.congr hl.pointers hl.next) (fun t ht => ?_) hc
    hs (fun actor seat hta => ?_) (fun actor r hst hlo => ?_)
    fun table key he => ?_
  · exact Local.rely hl rfl (fun lock hlock => h.entry_ne ht (hhas.entry lock hlock))
      (fun lock hlock => h.relations_ne ht (hhas.relations lock hlock)) (fun _ _ _ => id)
      fun _ _ _ _ => id
  · by_cases hse : place=some seat.lock
    · exact hk actor seat hse hta
    · exact Local.known hl hse id (h.known actor seat ((hl.taken hse).mp hta))
  · rw [hl.pointers] at hlo
    by_cases htr : (s.calls thread).Tracks actor r
    · exact (hp actor r hst hlo htr).imp_right .inl
    · exact .inr (.inr ⟨hlo,htr⟩)
  · by_cases hkey : place=some (table,key)
    · exact .inl (hpl table key hkey he)
    · rw [hl.entry table key hkey] at he
      by_cases hm : (s.calls thread).Minds s.status table key
      · exact .inl (hel table key hkey he hm)
      · exact .inr ⟨he,hm⟩

theorem Inv.goto_same (h : s.Inv) (hb : s.calls thread=before)
    (hlo : s.Has before call.entry call.relations) (hc : s.CallOk call)
    (hp : s.Passes before call)
    (hm : ∀table key,s.pg.entry table key=some {} → before.Minds s.status table key →
      call.Minds s.status table key) : (s.goto thread s.pg call).Inv := by
  have hl:=Local.refl s.pg
  exact h.goto_local hb hl ⟨nofun,nofun⟩ hlo
    (hc.rely (Local.rely hl rfl nofun nofun (fun _ _ _ => id) fun _ _ _ _ => id))
    (fun actor => (h.shutdowns actor).lose rfl rfl fun _ => id) nofun hp nofun
    fun table key _ => hm table key

end Steps
end Races
end Ractor
