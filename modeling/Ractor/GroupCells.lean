import Ractor.ProcessGroupViews

/-!
# Entries, pointers and the scope index

What is in an entry is kept apart from whether there is an entry for it: a section may leave an entry
with nobody in it behind until it closes the entry. The same goes for the scope index, which is
brought up to date at the end of a section, and for the pointers, which are not seen as long as they
point to nothing.
-/

namespace Ractor
open Finset Option Finmap Function
namespace PgState
variable {Id : Type}

def cell (s : PgState Id) (table : ListenerTable) (key : ScopeGroupKey) : GroupState Id :=
  (s.entry table key).getD {}

variable {f : List Id → List Id} {joined : List Id}

section Cells
variable {s s' : PgState Id} {table table' : ListenerTable} {key key' : ScopeGroupKey}

theorem members_eq_cell : s.members key=(s.cell .group key).members := by
  rw [members_eq,cell]
  cases s.entry .group key <;> rfl

theorem listeners_eq_cell : s.listeners table key=(s.cell table key).listeners := by
  rw [listeners_eq,cell]
  cases s.entry table key <;> rfl

theorem cell_congr (h : s'.entry=s.entry) : s'.cell=s.cell :=
  funext₂ fun table key => by rw [cell,cell,h]

theorem cell_openEntry : (s.openEntry table key).cell=s.cell := by
  funext table' key'
  rw [cell,cell,entry_openEntry]
  split
  next h => rw [h.1,h.2,getD_some]
  next => rfl

theorem occupied_openEntry : (s.openEntry table key).occupied table key=true := by
  rw [occupied_eq,entry_openEntry,if_pos ⟨rfl,rfl⟩]
  rfl

theorem cell_closeEntry [DecidableEq Id] : (s.closeEntry table key).cell=s.cell := by
  funext table' key'
  rw [cell,cell,entry_closeEntry]
  split
  next h =>
    obtain ⟨rfl,rfl,hv⟩:=h
    rw [Vacant] at hv
    rw [hv]
    rfl
  next => rfl

theorem cell_updateMembers {f : Finset Id→Finset Id}
    (h : s.occupied .group key=true ∨ f ∅=∅) : (s.updateMembers key f).cell table' key' =
      if table'=.group ∧ key'=key then
        {s.cell .group key with members:=f (s.cell .group key).members}
      else s.cell table' key' := by
  rw [cell,entry_updateMembers]
  split
  next =>
    rw [occupied_eq] at h
    cases he : s.entry .group key with
    | none =>
      rw [he] at h
      simp [cell,he,h.resolve_left Bool.false_ne_true]
    | some group => simp [cell,he]
  next => rfl

theorem cell_updateListeners (h : s.occupied table key=true ∨ f []=[]) :
    (s.updateListeners table key f).cell table' key'=if table'=table ∧ key'=key then
        {s.cell table key with listeners:=f (s.cell table key).listeners}
      else s.cell table' key' := by
  rw [cell,entry_updateListeners]
  split
  next =>
    rw [occupied_eq] at h
    cases he : s.entry table key with
    | none =>
      rw [he] at h
      simp [cell,he,h.resolve_left Bool.false_ne_true]
    | some group => simp [cell,he]
  next => rfl

end Cells

/-! ### Entries with nobody in them -/

/-- There is no entry with nobody in it, except perhaps for one. -/
def Tidy (s : PgState Id) (except : Option (ListenerTable × ScopeGroupKey)) : Prop :=
  ∀table key,some (table,key)≠except → s.entry table key≠some {}

section Tidy
variable {s s' : PgState Id} {table : ListenerTable} {key : ScopeGroupKey}
  {except : Option (ListenerTable × ScopeGroupKey)}

theorem Tidy.congr (h : s.Tidy except) (he : s'.entry=s.entry) : s'.Tidy except :=
  fun table key hne => he ▸ h table key hne

theorem Tidy.openEntry (h : s.Tidy none) : (s.openEntry table key).Tidy (some (table,key)) := by
  intro table' key' hne
  rw [entry_openEntry,if_neg fun heq => hne (by rw [heq.1,heq.2])]
  exact h table' key' nofun

theorem Tidy.updateMembers {f : Finset Id→Finset Id} (h : s.Tidy (some (.group,key))) :
    (s.updateMembers key f).Tidy (some (.group,key)) := by
  intro table' key' hne
  rw [entry_updateMembers,if_neg fun heq => hne (by rw [heq.1,heq.2])]
  exact h table' key' hne

theorem Tidy.updateListeners (h : s.Tidy (some (table,key))) :
    (s.updateListeners table key f).Tidy (some (table,key)) := by
  intro table' key' hne
  rw [entry_updateListeners,if_neg fun heq => hne (by rw [heq.1,heq.2])]
  exact h table' key' hne

theorem Tidy.weaken (h : s.Tidy none) : s.Tidy except:=fun table key _ => h table key nofun

theorem Tidy.closeEntry [DecidableEq Id] (h : s.Tidy (some (table,key))) :
    (s.closeEntry table key).Tidy none := by
  intro table' key' _
  rw [entry_closeEntry]
  split
  next => exact nofun
  next hnot =>
    by_cases hkey : table'=table ∧ key'=key
    · obtain ⟨rfl,rfl⟩:=hkey
      exact fun hv => hnot ⟨rfl,rfl,hv⟩
    · exact h table' key' fun heq => hkey (by cases heq; exact ⟨rfl,rfl⟩)

theorem Tidy.of_cell_ne (h : s.Tidy (some (table,key))) (hc : s.cell table key≠{}) :
    s.Tidy none := by
  intro table' key' _
  by_cases hkey : table'=table ∧ key'=key
  · obtain ⟨rfl,rfl⟩:=hkey
    exact fun hv => hc (by rw [cell,hv]; rfl)
  · exact h table' key' fun heq => hkey (by cases heq; exact ⟨rfl,rfl⟩)

end Tidy

/-! ### Pointers -/

/-- The pointers of the actors are in use and no two actors share one. -/
structure Pointed [DecidableEq Id] (s : PgState Id) : Prop where
  below : ∀actor relations,s.actorRelations.lookup actor=some relations → relations<s.next
  distinct : ∀actor actor' relations,s.actorRelations.lookup actor=some relations →
    s.actorRelations.lookup actor'=some relations → actor=actor'

section Pointers
variable [DecidableEq Id] {s s' : PgState Id} {actor : Id} {relations : ℕ}

theorem Pointed.congr (h : s.Pointed) (hp : s'.actorRelations=s.actorRelations)
    (hn : s'.next=s.next) : s'.Pointed :=
  ⟨fun a r ha => hn ▸ h.below a r (hp ▸ ha),fun a b r ha hb => h.distinct a b r (hp ▸ ha) (hp ▸ hb)⟩

theorem relationsOf_of_lookup (h : s.actorRelations.lookup actor=some relations) :
    s.relationsOf actor=s.heap relations := by
  rw [relationsOf,h]
  rfl

theorem relationsOf_of_none (h : s.actorRelations.lookup actor=none) : s.relationsOf actor={} := by
  rw [relationsOf,h]
  rfl

theorem relationsOf_updateRelations (hs : s.Pointed) (f : ActorRelations → ActorRelations)
    (h : s.actorRelations.lookup actor=some relations) (other : Id) :
    (s.updateRelations relations f).relationsOf other =
      if other=actor then f (s.relationsOf actor) else s.relationsOf other := by
  split
  next heq =>
    subst heq
    rw [relationsOf_of_lookup h,relationsOf,updateRelations,h]
    exact update_self ..
  next hne =>
    cases ho : s.actorRelations.lookup other with
    | none =>
      rw [relationsOf_of_none ho]
      exact relationsOf_of_none (s:=s.updateRelations relations f) ho
    | some r =>
      have hr : r≠relations:=fun heq => hne (hs.distinct other actor relations (heq ▸ ho) h)
      rw [relationsOf_of_lookup ho,relationsOf,updateRelations,ho]
      exact update_of_ne hr ..

theorem relationsOf_updateFound (hs : s.Pointed) {f : ActorRelations → ActorRelations}
    (hf : f {}={}) (actor other : Id) :
    (s.updateFound (s.getActorRelations actor) f).relationsOf other =
      if other=actor then f (s.relationsOf actor) else s.relationsOf other := by
  cases hl : s.getActorRelations actor with
  | some relations => exact relationsOf_updateRelations hs f hl other
  | none =>
    rw [relationsOf_of_none hl,hf]
    split
    next heq => exact heq ▸ relationsOf_of_none hl
    next => rfl

/-- Nothing is seen of a pointer that is made, except by the one who has made it. -/
theorem getOrCreate_spec (hs : s.Pointed) (actor : Id) :
    let result := s.getOrCreateActorRelations actor
    result.2.actorRelations.lookup actor=some result.1 ∧ result.2.Pointed ∧
      result.2.relationsOf=s.relationsOf ∧ result.2.entry=s.entry ∧
      result.2.index=s.index ∧ ∀other,other≠actor →
        result.2.actorRelations.lookup other=s.actorRelations.lookup other := by
  rcases s.getOrCreate_cases actor with ⟨relations,hl,heq⟩ | ⟨hn,heq⟩
  · rw [heq]
    exact ⟨hl,hs,rfl,rfl,rfl,fun _ _ => rfl⟩
  · rw [heq]
    refine ⟨lookup_insert _,⟨fun a r ha => ?_,fun a b r ha hb => ?_⟩,funext fun a => ?_,
      rfl,rfl,fun other hne => lookup_insert_of_ne _ hne⟩
    · simp only [lookup_insert_eq] at ha
      split at ha
      · cases ha
        exact Nat.lt_succ_self _
      · exact Nat.lt_succ_of_lt (hs.below a r ha)
    · simp only [lookup_insert_eq] at ha hb
      split at ha <;> split at hb
      next h h' => rw [h,h']
      next => cases ha; exact absurd (hs.below b _ hb) (lt_irrefl _)
      next => cases hb; exact absurd (hs.below a _ ha) (lt_irrefl _)
      next => exact hs.distinct a b r ha hb
    · simp only [relationsOf,lookup_insert_eq]
      split
      next h =>
        subst h
        rw [hn]
        exact update_self ..
      next h =>
        cases ha : s.actorRelations.lookup a with
        | none => rfl
        | some r => exact update_of_ne (hs.below a r ha).ne ..

theorem eq_default_of_empty {r : ActorRelations} (h : r.Empty) : r={} := by
  obtain ⟨memberships,groupMonitors,worldMonitors⟩:=r
  obtain ⟨rfl,rfl,rfl⟩:=h
  rfl

/-- A pointer to nothing can be forgotten. -/
theorem removeEmpty_spec (hs : s.Pointed) (h : s.actorRelations.lookup actor=some relations)
    (he : s.relationsOf actor={}) :
    let s' := s.removeEmptyActorRelations actor relations
    s'.actorRelations.lookup actor=none ∧ s'.Pointed ∧ s'.relationsOf=s.relationsOf ∧
      s'.entry=s.entry ∧ s'.index=s.index ∧ ∀other,other≠actor →
        s'.actorRelations.lookup other=s.actorRelations.lookup other := by
  have hh : (s.heap relations).Empty := by
    rw [← relationsOf_of_lookup h,he]
    exact ActorRelations.empty_default
  have hl : ∀other,(s.forgetRelations actor relations).actorRelations.lookup other =
      if other=actor then none else s.actorRelations.lookup other := by
    intro other
    simp [lookup_forgetRelations,h]
  obtain ⟨hen,hh',hn,hi⟩:=s.forgetRelations_rest actor relations
  simp only [removeEmptyActorRelations,if_pos hh]
  refine ⟨by simp [hl],⟨fun a r ha => ?_,fun a b r ha hb => ?_⟩,funext fun a => ?_,hen,
    hi,fun a ha => by rw [hl,if_neg ha]⟩
  · rw [hl] at ha
    split at ha
    · cases ha
    · exact hn ▸ hs.below a r ha
  · rw [hl] at ha hb
    split at ha <;> split at hb <;> first | exact hs.distinct a b r ha hb | cases ha | cases hb
  · rw [relationsOf,hl,hh']
    split
    next heq => exact heq ▸ he.symm
    next => rfl

end Pointers

/-! ### The scope index -/

/-- The index lists the groups with members, except perhaps for one, and no scope without groups. -/
structure Indexed (s : PgState Id) (except : Option ScopeGroupKey) : Prop where
  groups : ∀key,some key≠except →
    (key.group∈s.whichScopedGroups key.scope ↔ s.members key≠∅)
  scopes : ∀scope,s.index.lookup scope≠some ∅

section Index
variable {s s' : PgState Id} {table : ListenerTable} {key : ScopeGroupKey}
  {except : Option ScopeGroupKey}

theorem Indexed.congr (h : s.Indexed except) (hi : s'.index=s.index)
    (hm : ∀key,some key≠except→s'.members key=s.members key) :
    s'.Indexed except := by
  refine ⟨fun key hne => ?_,fun scope => hi ▸ h.scopes scope⟩
  rw [whichScopedGroups,hi,hm key hne]
  exact h.groups key hne

theorem index_updateMembers {f : Finset Id→Finset Id} : (s.updateMembers key f).index=s.index := by
  unfold updateMembers
  split <;> rfl

theorem index_updateListeners : (s.updateListeners table key f).index=s.index := by
  cases table <;> simp only [updateListeners] <;> split <;> rfl

theorem index_closeEntry [DecidableEq Id] : (s.closeEntry table key).index=s.index := by
  cases table <;> simp only [PgState.closeEntry] <;> split <;> rfl

theorem index_openEntry : (s.openEntry table key).index=s.index := by
  cases table <;> rfl

theorem Indexed.of_members (h : s.Indexed none) (hi : s'.index=s.index)
    (hm : ∀key,(s'.cell .group key).members=(s.cell .group key).members) :
    s'.Indexed none :=
  h.congr hi fun key _ => by rw [members_eq_cell,members_eq_cell,hm]

theorem Indexed.weaken (h : s.Indexed none) : s.Indexed except :=
  ⟨fun key _ => h.groups key nofun,h.scopes⟩

theorem whichScopedGroups_add (scope : String) : (s.addGroupToIndex key).whichScopedGroups scope =
    if scope=key.scope then insert key.group (s.whichScopedGroups scope)
    else s.whichScopedGroups scope := by
  simp only [whichScopedGroups,addGroupToIndex,lookup_insert_eq]
  split
  next h => rw [h,getD_some]
  next => rfl

theorem whichScopedGroups_remove (scope : String) :
    (s.removeGroupFromIndex key).whichScopedGroups scope =
      if scope=key.scope then (s.whichScopedGroups scope).erase key.group
      else s.whichScopedGroups scope := by
  simp only [whichScopedGroups,removeGroupFromIndex]
  split
  next groups hl =>
    by_cases hs : scope=key.scope
    · subst hs
      rw [if_pos rfl,hl,getD_some]
      split
      next he => rw [lookup_erase,he,getD_none]
      next => rw [lookup_insert,getD_some]
    · rw [if_neg hs]
      split
      next => rw [lookup_erase_ne hs]
      next => rw [lookup_insert_of_ne _ hs]
  next hl =>
    split
    next hs =>
      subst hs
      rw [hl,getD_none,erase_empty]
    next => rfl

theorem scopes_remove (h : ∀scope,s.index.lookup scope≠some ∅) (scope : String) :
    (s.removeGroupFromIndex key).index.lookup scope≠some ∅ := by
  unfold removeGroupFromIndex
  split
  next groups hl =>
    split
    next =>
      simp only [lookup_erase_eq]
      split
      · exact nofun
      · exact h scope
    next hne =>
      simp only [lookup_insert_eq]
      split
      · exact fun heq => hne (some.inj heq)
      · exact h scope
  next => exact h scope

theorem Indexed.addGroupToIndex (h : s.Indexed (some key)) (hm : s.members key≠∅) :
    (s.addGroupToIndex key).Indexed none := by
  refine ⟨fun key' _ => ?_,fun scope => ?_⟩
  · rw [whichScopedGroups_add]
    by_cases hkey : key'=key
    · subst hkey
      simp only [if_true,mem_insert_self,true_iff]
      exact hm
    · have hold:=h.groups key' fun heq => hkey (some.inj heq)
      split
      next hs =>
        have hg : key'.group≠key.group := by
          intro hg
          obtain ⟨scope',group'⟩:=key'
          exact hkey (by cases key; cases hs; cases hg; rfl)
        rw [Finset.mem_insert,or_iff_right hg]
        exact hold
      next => exact hold
  · simp only [PgState.addGroupToIndex,lookup_insert_eq]
    split
    · exact fun heq => insert_ne_empty _ _ (some.inj heq)
    · exact h.scopes scope

variable [DecidableEq Id]

theorem cell_joinMembers (ho : s.occupied .group key=true) {table' : ListenerTable}
    {key' : ScopeGroupKey} : (s.joinMembers key joined).cell table' key' =
      if table'=.group ∧ key'=key then
        {s.cell .group key with members:=(s.cell .group key).members ∪ joined.toFinset}
      else s.cell table' key' := by
  have he : (s.joinMembers key joined).entry =
      (s.updateMembers key (· ∪ joined.toFinset)).entry := by
    unfold joinMembers
    split <;> rfl
  rw [cell_congr he,cell_updateMembers (.inl ho)]

theorem members_joinMembers (ho : s.occupied .group key=true) :
    (s.joinMembers key joined).members key=s.members key ∪ joined.toFinset := by
  rw [members_eq_cell,cell_joinMembers ho,if_pos ⟨rfl,rfl⟩,members_eq_cell]

theorem members_joinMembers_ne (ho : s.occupied .group key=true) (hne : joined≠[]) :
    (s.joinMembers key joined).members key≠∅ := by
  obtain ⟨a,ha⟩:=List.exists_mem_of_ne_nil joined hne
  rw [members_joinMembers ho]
  exact ne_empty_of_mem (mem_union_right _ (List.mem_toFinset.mpr ha))

theorem Indexed.joinMembers (h : s.Indexed none) (ho : s.occupied .group key=true)
    (hne : joined≠[]) : (s.joinMembers key joined).Indexed none := by
  have hs:=members_joinMembers_ne ho hne
  have hot : (s.updateMembers key (· ∪ joined.toFinset)).Indexed (some key) := by
    refine h.weaken.congr ?_ fun key' hkey => ?_
    · exact index_updateMembers
    · rw [members_eq_cell,members_eq_cell,cell_updateMembers (.inl ho),
        if_neg fun heq => hkey (congrArg some heq.2)]
  rw [PgState.joinMembers,if_pos hne] at hs ⊢
  exact hot.addGroupToIndex hs

theorem Tidy.joinMembers (h : s.Tidy (some (.group,key)))
    (ho : s.occupied .group key=true) (hne : joined≠[]) :
    (s.joinMembers key joined).Tidy none := by
  have hs:=members_joinMembers_ne ho hne
  have hop : (s.joinMembers key joined).Tidy (some (.group,key)) := by
    rw [PgState.joinMembers,if_pos hne]
    exact (h.updateMembers (f:=(· ∪ joined.toFinset))).congr rfl
  exact hop.of_cell_ne fun heq => hs (by rw [members_eq_cell,heq])

theorem cell_leaveActors (key : ScopeGroupKey) (actors : List Id) :
    ∀(s : PgState Id) (table' : ListenerTable) (key' : ScopeGroupKey),
      (actors.foldl (leaveActor key) s).cell table' key'=if table'=.group ∧ key'=key then
          {s.cell .group key with members:=(s.cell .group key).members \ actors.toFinset}
        else s.cell table' key' := by
  induction actors with
  | nil =>
    intro s table' key'
    split
    next h => simp [h.1,h.2]
    next => rfl
  | cons actor rest ih =>
    intro s table' key'
    have he:=(s.updateFound_rest (s.getActorRelations actor) (.removeMembership key)).1
    have hc : ∀table' key',(leaveActor key s actor).cell table' key' =
        if table'=.group ∧ key'=key then
          {s.cell .group key with members:=(s.cell .group key).members.erase actor}
        else s.cell table' key' := by
      intro table' key'
      rw [leaveActor,cell_updateMembers (.inr (erase_empty _)),cell_congr he]
    rw [List.foldl_cons,ih]
    simp only [hc,and_self,if_true]
    split
    next =>
      congr 1
      ext a
      simp only [Finset.mem_sdiff,Finset.mem_erase,List.mem_toFinset,List.mem_cons]
      tauto
    next => rfl

theorem cell_leaveMembers : (s.leaveMembers key).cell=s.cell := by
  unfold leaveMembers
  split
  · rw [cell_closeEntry,cell_congr entry_removeGroupFromIndex]
  · rfl

theorem members_leaveMembers : (s.leaveMembers key).members=s.members :=
  funext fun key => by rw [members_eq_cell,members_eq_cell,cell_leaveMembers]

theorem cell_leaveAllSection {actor : Id} {table' : ListenerTable} {key' : ScopeGroupKey} :
    (s.leaveAllSection actor key).1.cell table' key'=if table'=.group ∧ key'=key then
        {s.cell table' key' with members:=(s.cell table' key').members.erase actor}
      else s.cell table' key' := by
  unfold leaveAllSection
  split
  next =>
    rw [cell_leaveMembers,cell_updateMembers (.inr (erase_empty _))]
    split
    next heq => rw [heq.1,heq.2]
    next => rfl
  next hm =>
    split
    next heq =>
      obtain ⟨rfl,rfl⟩:=heq
      rw [members_eq_cell] at hm
      rw [erase_eq_of_notMem hm]
    next => rfl

theorem Indexed.leaveMembers (h : s.Indexed (some key))
    (hc : s.members key≠∅→key.group∈s.whichScopedGroups key.scope) :
    (s.leaveMembers key).Indexed none := by
  have hm : (s.leaveMembers key).members=s.members:=members_leaveMembers
  unfold PgState.leaveMembers at hm ⊢
  split at hm
  next he =>
    rw [if_pos he]
    have hi : ((s.removeGroupFromIndex key).closeEntry .group key).index =
        (s.removeGroupFromIndex key).index := by
      simp only [PgState.closeEntry]
      split <;> rfl
    refine ⟨fun key' _ => ?_,fun scope => hi ▸ scopes_remove h.scopes scope⟩
    rw [hm,whichScopedGroups,hi,← whichScopedGroups,whichScopedGroups_remove]
    by_cases hkey : key'=key
    · subst hkey
      simp [he]
    · have hold:=h.groups key' fun heq => hkey (some.inj heq)
      split
      next hs =>
        have hg : key'.group≠key.group := by
          intro hg
          exact hkey (by cases key; cases key'; cases hs; cases hg; rfl)
        rw [Finset.mem_erase,and_iff_right hg]
        exact hold
      next => exact hold
  next hne =>
    rw [if_neg hne]
    refine ⟨fun key' _ => ?_,h.scopes⟩
    by_cases hkey : key'=key
    · subst hkey
      exact iff_of_true (hc hne) hne
    · exact h.groups key' fun heq => hkey (some.inj heq)

theorem Tidy.leaveMembers (h : s.Tidy (some (.group,key))) : (s.leaveMembers key).Tidy none := by
  unfold PgState.leaveMembers
  split
  next => exact Tidy.closeEntry (h.congr entry_removeGroupFromIndex)
  next hne =>
    refine h.of_cell_ne fun hc => hne ?_
    rw [members_eq_cell,hc]

end Index
end PgState
end Ractor
