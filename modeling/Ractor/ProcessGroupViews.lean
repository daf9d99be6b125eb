import Ractor.ProcessGroups

/-!
# What the sections of the process groups change

The forward tables are looked at through the members and the listeners of a key and through whether
there is an entry for it, the relations through the pointers of the actors and the heap. Each
building block of the operations changes one of these at one place.
-/

namespace Ractor

namespace ActorRelations
variable {table table' : ListenerTable} {key : ScopeGroupKey} {r : ActorRelations}

@[simp] theorem memberships_addMembership :
    (r.addMembership key).memberships=insert key r.memberships:=rfl

@[simp] theorem memberships_removeMembership :
    (r.removeMembership key).memberships=r.memberships.erase key:=rfl

@[simp] theorem monitors_addMembership : (r.addMembership key).monitors table=r.monitors table := by
  cases table <;> rfl

@[simp] theorem monitors_removeMembership :
    (r.removeMembership key).monitors table=r.monitors table := by
  cases table <;> rfl

@[simp] theorem memberships_addMonitor : (r.addMonitor table key).memberships=r.memberships := by
  cases table <;> rfl

@[simp] theorem memberships_removeMonitor :
    (r.removeMonitor table key).memberships=r.memberships := by
  cases table <;> rfl

theorem monitors_addMonitor : (r.addMonitor table key).monitors table' =
    if table'=table then insert key (r.monitors table') else r.monitors table' := by
  cases table <;> cases table' <;> rfl

theorem monitors_removeMonitor : (r.removeMonitor table key).monitors table' =
    if table'=table then (r.monitors table').erase key else r.monitors table' := by
  cases table <;> cases table' <;> rfl

@[simp] theorem memberships_takeMonitors : r.takeMonitors.memberships=r.memberships:=rfl

@[simp] theorem monitors_takeMonitors : r.takeMonitors.monitors table=∅ := by
  cases table <;> rfl

@[simp] theorem memberships_takeMemberships : r.takeMemberships.memberships=∅:=rfl

@[simp] theorem monitors_takeMemberships : r.takeMemberships.monitors table=r.monitors table := by
  cases table <;> rfl

theorem empty_iff : r.Empty ↔ r.memberships=∅ ∧ ∀table,r.monitors table=∅ :=
  ⟨fun h => ⟨h.1,fun table => by cases table; exacts [h.2.1,h.2.2]⟩,
    fun h => ⟨h.1,h.2 .group,h.2 .world⟩⟩

theorem empty_default : ({} : ActorRelations).Empty:=⟨rfl,rfl,rfl⟩

end ActorRelations

section Finmaps
variable {κ β : Type} [DecidableEq κ] {k k' : κ} (m : Finmap (fun _ : κ => β))

theorem lookup_insert_eq {v : β} :
    (m.insert k v).lookup k'=if k'=k then some v else m.lookup k' := by
  split
  next h => rw [h,Finmap.lookup_insert]
  next h => rw [Finmap.lookup_insert_of_ne _ h]

theorem lookup_erase_eq : (m.erase k).lookup k'=if k'=k then none else m.lookup k' := by
  split
  next h => rw [h,Finmap.lookup_erase]
  next h => rw [Finmap.lookup_erase_ne h]

end Finmaps

namespace PgState
variable {Id : Type} (s : PgState Id) (table : ListenerTable) (key : ScopeGroupKey)

/-- The two forward tables as one. A scope has listeners only. -/
def entry : Option (GroupState Id) :=
  match table with
  | .group => s.map.lookup key
  | .world => (s.worldListeners.lookup key).map fun listeners => {listeners:=listeners}

def Vacant : Prop :=
  s.entry table key=some {}

section Entries
variable {s} {s' : PgState Id} {table} {table' : ListenerTable} {key} {key' : ScopeGroupKey}

instance [DecidableEq Id] : Decidable (s.Vacant table key) :=
  inferInstanceAs (Decidable (s.entry table key=some {}))

theorem members_eq : s.members key=(s.entry .group key).elim ∅ (·.members):=rfl

theorem listeners_eq : s.listeners table key=(s.entry table key).elim [] (·.listeners) := by
  cases table with
  | group => rfl
  | world =>
    simp only [listeners,entry]
    cases s.worldListeners.lookup key <;> rfl

theorem occupied_eq : s.occupied table key=(s.entry table key).isSome := by
  cases table with
  | group => rfl
  | world => simp [occupied,entry]

theorem members_congr (h : s'.entry=s.entry) : s'.members=s.members :=
  funext fun key => by rw [members_eq,members_eq,h]

theorem listeners_congr (h : s'.entry=s.entry) : s'.listeners=s.listeners :=
  funext₂ fun table key => by rw [listeners_eq,listeners_eq,h]

theorem entry_openEntry : (s.openEntry table key).entry table' key' =
    if table'=table ∧ key'=key then some ((s.entry table key).getD {})
    else s.entry table' key' := by
  cases hw : s.worldListeners.lookup key <;> cases table <;> cases table' <;>
    simp only [entry,openEntry,lookup_insert_eq,hw]
  all_goals grind

theorem entry_updateMembers (f : Finset Id→Finset Id) :
    (s.updateMembers key f).entry table' key'=if table'=.group ∧ key'=key then
        (s.entry .group key).map fun group => {group with members:=f group.members}
      else s.entry table' key' := by
  cases hl : s.map.lookup key <;> cases table' <;>
    simp only [entry,updateMembers,hl,lookup_insert_eq]
  all_goals grind

theorem entry_updateListeners (f : List Id → List Id) :
    (s.updateListeners table key f).entry table' key'=if table'=table ∧ key'=key then
        (s.entry table key).map fun group => {group with listeners:=f group.listeners}
      else s.entry table' key' := by
  cases table with
  | group =>
    cases hl : s.map.lookup key <;> cases table' <;>
      simp only [entry,updateListeners,hl,lookup_insert_eq]
    all_goals grind
  | world =>
    cases hl : s.worldListeners.lookup key <;> cases table' <;>
      simp only [entry,updateListeners,hl,lookup_insert_eq]
    all_goals grind

theorem entry_closeEntry [DecidableEq Id] : (s.closeEntry table key).entry table' key' =
    if table'=table ∧ key'=key ∧ s.Vacant table key then none else s.entry table' key' := by
  have hv : s.Vacant .world key ↔ s.worldListeners.lookup key=some [] := by
    simp only [Vacant,entry]
    cases s.worldListeners.lookup key <;> simp
  cases table <;> simp only [closeEntry] <;> split <;> cases table' <;>
    simp only [entry,lookup_erase_eq,hv]
  all_goals grind [Vacant,entry]

end Entries

/-! ### Relations -/

def relationsOf [DecidableEq Id] (s : PgState Id) (actor : Id) : ActorRelations :=
  (s.actorRelations.lookup actor).elim {} s.heap

structure SameRelations (s s' : PgState Id) : Prop where
  pointers : s'.actorRelations=s.actorRelations
  heap : s'.heap=s.heap
  next : s'.next=s.next

section Blocks
variable {s} {s' s'' : PgState Id} {table} {key}

theorem SameRelations.refl (s : PgState Id) : SameRelations s s:=⟨rfl,rfl,rfl⟩

theorem SameRelations.trans (h : SameRelations s s') (h' : SameRelations s' s'') :
    SameRelations s s'' :=
  ⟨h'.pointers.trans h.pointers,h'.heap.trans h.heap,h'.next.trans h.next⟩

theorem SameRelations.relationsOf [DecidableEq Id] (h : SameRelations s s') :
    s'.relationsOf=s.relationsOf := by
  funext actor
  rw [PgState.relationsOf,PgState.relationsOf,h.pointers,h.heap]

theorem sameRelations_openEntry : SameRelations s (s.openEntry table key) := by
  cases table <;> exact ⟨rfl,rfl,rfl⟩

theorem sameRelations_closeEntry [DecidableEq Id] : SameRelations s (s.closeEntry table key) := by
  cases table <;> simp only [closeEntry] <;> split <;> exact ⟨rfl,rfl,rfl⟩

theorem sameRelations_updateMembers {f : Finset Id→Finset Id} :
    SameRelations s (s.updateMembers key f) := by
  unfold updateMembers
  split <;> exact ⟨rfl,rfl,rfl⟩

theorem sameRelations_updateListeners {f : List Id → List Id} :
    SameRelations s (s.updateListeners table key f) := by
  cases table <;> simp only [updateListeners] <;> split <;> exact ⟨rfl,rfl,rfl⟩

theorem sameRelations_removeGroupFromIndex : SameRelations s (s.removeGroupFromIndex key) := by
  unfold removeGroupFromIndex
  repeat' split
  all_goals exact ⟨rfl,rfl,rfl⟩

theorem sameRelations_joinMembers [DecidableEq Id] {joined : List Id} :
    SameRelations s (s.joinMembers key joined) := by
  unfold joinMembers
  split
  · exact sameRelations_updateMembers.trans ⟨rfl,rfl,rfl⟩
  · exact sameRelations_updateMembers

theorem sameRelations_leaveMembers [DecidableEq Id] : SameRelations s (s.leaveMembers key) := by
  unfold leaveMembers
  split
  · exact sameRelations_removeGroupFromIndex.trans sameRelations_closeEntry
  · exact .refl s

theorem sameRelations_dropListener [DecidableEq Id] {actor : Id} :
    SameRelations s (s.dropListener table key actor) :=
  sameRelations_updateListeners.trans sameRelations_closeEntry

theorem entry_removeGroupFromIndex : (s.removeGroupFromIndex key).entry=s.entry := by
  unfold removeGroupFromIndex
  repeat' split
  all_goals rfl

theorem updateFound_rest (s : PgState Id) (found : Option ℕ) (f : ActorRelations → ActorRelations) :
    (s.updateFound found f).entry=s.entry ∧ (s.updateFound found f).index=s.index ∧
      (s.updateFound found f).next=s.next ∧
      (s.updateFound found f).actorRelations=s.actorRelations := by
  cases found <;> exact ⟨rfl,rfl,rfl,rfl⟩

end Blocks

section Pointers
variable [DecidableEq Id] {s} {actor : Id} {relations : ℕ}

theorem getOrCreate_cases (s : PgState Id) (actor : Id) :
    (∃relations,s.actorRelations.lookup actor=some relations ∧
      s.getOrCreateActorRelations actor=(relations,s)) ∨
    (s.actorRelations.lookup actor=none ∧ s.getOrCreateActorRelations actor=(s.next,{s with
        actorRelations:=s.actorRelations.insert actor s.next
        heap:=Function.update s.heap s.next {}
        next:=s.next+1})) := by
  unfold getOrCreateActorRelations
  cases hl : s.actorRelations.lookup actor with
  | some relations => exact .inl ⟨relations,rfl,rfl⟩
  | none => exact .inr ⟨rfl,rfl⟩

theorem lookup_forgetRelations {other : Id} :
    (s.forgetRelations actor relations).actorRelations.lookup other =
      if other=actor ∧ s.actorRelations.lookup actor=some relations then none
      else s.actorRelations.lookup other := by
  unfold forgetRelations
  split
  next h => simp only [lookup_erase_eq,h,and_true]
  next h => simp [h]

theorem forgetRelations_rest (s : PgState Id) (actor : Id) (relations : ℕ) :
    (s.forgetRelations actor relations).entry=s.entry ∧
    (s.forgetRelations actor relations).heap=s.heap ∧
    (s.forgetRelations actor relations).next=s.next ∧
    (s.forgetRelations actor relations).index=s.index := by
  unfold forgetRelations
  split <;> exact ⟨rfl,rfl,rfl,rfl⟩

end Pointers
end PgState
end Ractor
