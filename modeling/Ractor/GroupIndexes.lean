import Ractor.GroupCells

/-!
# The tables of the process groups agree

Joining, leaving, monitoring and demonitoring keep the forward tables, the relations of the actors
and the scope index coherent when nothing else happens meanwhile.
-/

namespace Ractor
open ActorRelations List Finset
namespace PgState
variable {Id : Type}

/-! ### Agreement -/

structure Agree [DecidableEq Id] (s : PgState Id) : Prop where
  member : ∀actor key,actor∈s.members key ↔ key∈(s.relationsOf actor).memberships
  listener : ∀actor table key,
    actor∈s.listeners table key ↔ key∈(s.relationsOf actor).monitors table
  nodup : ∀table key,(s.listeners table key).Nodup

structure Coherent [DecidableEq Id] (s : PgState Id) : Prop extends
    s.Pointed,s.Agree,s.Indexed none where
  tidy : s.Tidy none

variable {status : Id → ActorStatus} {actor : Id}

section Coherent
variable [DecidableEq Id] {s s' : PgState Id} {table : ListenerTable} {key : ScopeGroupKey}

theorem Agree.congr (h : s.Agree) (hc : s'.cell=s.cell)
    (hr : s'.relationsOf=s.relationsOf) : s'.Agree where
  member actor key := by
    rw [members_eq_cell,hc,← members_eq_cell,hr]
    exact h.member actor key
  listener actor table key := by
    rw [listeners_eq_cell,hc,← listeners_eq_cell,hr]
    exact h.listener actor table key
  nodup table key := by
    rw [listeners_eq_cell,hc,← listeners_eq_cell]
    exact h.nodup table key

theorem Agree.update_members (h : s.Agree) {f : Finset Id→Finset Id}
    (hc : ∀table' key',s'.cell table' key'=if table'=.group ∧ key'=key then
        {s.cell .group key with members:=f (s.cell .group key).members}
      else s.cell table' key')
    (hm : ∀actor table,(s'.relationsOf actor).monitors table = (s.relationsOf actor).monitors table)
    (ho : ∀actor key',key'≠key→(key'∈(s'.relationsOf actor).memberships ↔
      key'∈(s.relationsOf actor).memberships))
    (hkey : ∀actor,key∈(s'.relationsOf actor).memberships ↔ actor∈f (s.members key)) :
    s'.Agree := by
  have hl : ∀table key',s'.listeners table key'=s.listeners table key' := by
    intro table key'
    rw [listeners_eq_cell,listeners_eq_cell,hc]
    split
    next heq => rw [heq.1,heq.2]
    next => rfl
  refine ⟨fun actor key' => ?_,fun actor table key' => ?_,fun table key' => ?_⟩
  · rw [members_eq_cell,hc]
    by_cases heq : key'=key
    · subst heq
      rw [if_pos ⟨rfl,rfl⟩,← members_eq_cell]
      exact (hkey actor).symm
    · rw [if_neg fun hb => heq hb.2,← members_eq_cell,ho actor key' heq]
      exact h.member actor key'
  · rw [hl,hm]
    exact h.listener actor table key'
  · rw [hl]
    exact h.nodup table key'

theorem Agree.update_listeners (h : s.Agree) {f : List Id → List Id}
    (hc : ∀table' key',s'.cell table' key'=if table'=table ∧ key'=key then
        {s.cell table key with listeners:=f (s.cell table key).listeners}
      else s.cell table' key')
    (hm : ∀actor,(s'.relationsOf actor).memberships=(s.relationsOf actor).memberships)
    (ho : ∀actor table' key',¬(table'=table ∧ key'=key) →
      (key'∈(s'.relationsOf actor).monitors table' ↔ key'∈(s.relationsOf actor).monitors table'))
    (hkey : ∀actor,key∈(s'.relationsOf actor).monitors table ↔ actor∈f (s.listeners table key))
    (hn : (f (s.listeners table key)).Nodup) : s'.Agree := by
  have hme : ∀key',s'.members key'=s.members key' := by
    intro key'
    rw [members_eq_cell,members_eq_cell,hc]
    split
    next heq => rw [heq.1,heq.2]
    next => rfl
  have hl : ∀table' key',s'.listeners table' key' =
      if table'=table ∧ key'=key then f (s.listeners table key)
      else s.listeners table' key' := by
    intro table' key'
    rw [listeners_eq_cell,hc]
    split <;> rw [listeners_eq_cell]
  refine ⟨fun actor key' => ?_,fun actor table' key' => ?_,fun table' key' => ?_⟩
  · rw [hme,hm]
    exact h.member actor key'
  · rw [hl]
    split
    next heq =>
      obtain ⟨rfl,rfl⟩:=heq
      exact (hkey actor).symm
    next hne => rw [ho actor table' key' hne,h.listener]
  · rw [hl]
    split
    · exact hn
    · exact h.nodup table' key'

/-! ### Joining -/

/-- After `done` of the actors, all of which are accepted. -/
structure Joining (key : ScopeGroupKey) (s : PgState Id) (done : List Id)
    (sp : PgState Id × JoinProgress Id) : Prop where
  pointed : sp.1.Pointed
  entry : sp.1.entry=s.entry
  index : sp.1.index=s.index
  relations : ∀actor,sp.1.relationsOf actor =
    if actor∈done then (s.relationsOf actor).addMembership key else s.relationsOf actor
  processed : ∀actor,actor∈sp.2.processed ↔ actor∈done
  accepted : ∀actor,actor∈sp.2.accepted ↔ actor∈done
  stopped : sp.2.stopped=[]
  pointers : ∀actor,actor∉done →
    sp.1.actorRelations.lookup actor=s.actorRelations.lookup actor

theorem Joining.joinActor {done : List Id} {sp : PgState Id × JoinProgress Id}
    (h : Joining key s done sp) (hs : status actor ≤ .draining) :
    Joining key s (done++[actor]) (joinActor status key sp actor) := by
  unfold PgState.joinActor
  split
  next hse =>
    have hmem : ∀a,a∈done++[actor] ↔ a∈done := by
      intro a
      rw [List.mem_append,List.mem_singleton]
      exact or_iff_left_of_imp fun heq => heq ▸ (h.processed actor).mp hse
    exact ⟨h.pointed,h.entry,h.index,fun a => by simp only [hmem,h.relations],
      fun a => (h.processed a).trans (hmem a).symm,fun a => (h.accepted a).trans (hmem a).symm,
      h.stopped,fun a ha => h.pointers a fun hd => ha ((hmem a).mpr hd)⟩
  next hnew =>
    obtain ⟨hl,hp,hr,he,hi,ho⟩ := getOrCreate_spec h.pointed actor
    have hnot : actor∉done:=fun hmem => hnew ((h.processed actor).mpr hmem)
    refine ⟨hp.congr rfl rfl,he.trans h.entry,hi.trans h.index,fun a => ?_,
      fun a => ?_,fun a => ?_,h.stopped,fun a ha => ?_⟩
    · rw [relationsOf_updateRelations hp _ hl,hr,h.relations,h.relations]
      by_cases ha : a=actor
      · subst ha
        simp [hnot]
      · simp [ha]
    · simp [h.processed,or_comm]
    · simp [h.accepted,or_comm]
    · rw [List.mem_append,List.mem_singleton,not_or] at ha
      exact (ho a ha.2).trans (h.pointers a ha.1)

theorem Joining.foldl (actors : List Id) :
    ∀{done : List Id} {sp : PgState Id × JoinProgress Id},Joining key s done sp →
      (∀actor∈actors,status actor ≤ .draining) →
      Joining key s (done++actors) (actors.foldl (PgState.joinActor status key) sp) := by
  induction actors with
  | nil => exact fun h _ => by simpa using h
  | cons actor rest ih =>
    intro done sp h hs
    have hn:=h.joinActor (hs actor mem_cons_self)
    have:=ih hn fun a ha => hs a (mem_cons_of_mem _ ha)
    simpa using this

/-- With statuses that do not change meanwhile, all actors that were not filtered out join. -/
theorem Coherent.joinSection (h : s.Coherent) (key : ScopeGroupKey) {actors : List Id}
    (hne : actors≠[]) (hs : ∀actor∈actors,status actor ≤ .draining) :
    let result := joinSection status s key actors
    result.1.Coherent ∧ result.2.1=actors ∧ result.2.2.2=[] ∧ ∀actor,actor∉actors →
      result.1.actorRelations.lookup actor=s.actorRelations.lookup actor := by
  have hop : SameRelations s (s.openEntry .group key):=sameRelations_openEntry
  have hst : Joining key (s.openEntry .group key) [] (s.openEntry .group key,{}) :=
    ⟨h.toPointed.congr hop.pointers hop.next,rfl,rfl,fun _ => by simp,by simp,by simp,rfl,
      fun _ _ => rfl⟩
  have hjo:=hst.foldl actors hs
  unfold PgState.joinSection
  generalize actors.foldl (PgState.joinActor status key) (s.openEntry .group key,{})=sp at hjo ⊢
  obtain ⟨s₁,p⟩:=sp
  simp only [nil_append] at hjo ⊢
  have hj : actors.filter (· ∈ p.accepted)=actors :=
    filter_eq_self.mpr fun a ha => decide_eq_true ((hjo.accepted a).mpr ha)
  rw [hj]
  have hsa : SameRelations s₁ (s₁.joinMembers key actors):=sameRelations_joinMembers
  have hr : ∀a,(s₁.joinMembers key actors).relationsOf a =
      if a∈actors then (s.relationsOf a).addMembership key else s.relationsOf a := by
    intro a
    rw [hsa.relationsOf,hjo.relations,hop.relationsOf]
  have ho : s₁.occupied .group key=true := by
    rw [occupied_eq,hjo.entry,← occupied_eq]
    exact occupied_openEntry
  have hc : s₁.cell=s.cell:=(cell_congr hjo.entry).trans cell_openEntry
  refine ⟨⟨hjo.pointed.congr hsa.pointers hsa.next,?_,?_,?_⟩,rfl,hjo.stopped,fun a ha => ?_⟩
  · refine h.toAgree.update_members (f:=(· ∪ actors.toFinset))
      (fun table' key' => by rw [cell_joinMembers ho,hc]) (fun a table => ?_)
      (fun a key' hkey => ?_) fun a => ?_
    · rw [hr]
      split <;> simp
    · rw [hr]
      split <;> simp [hkey]
    · rw [hr,mem_union,mem_toFinset,h.member]
      split <;> simp [*]
  · refine Indexed.joinMembers (h.toIndexed.congr hjo.index fun key' _ => ?_) ho hne
    rw [members_eq_cell,members_eq_cell,hc]
  · exact (h.tidy.openEntry.congr hjo.entry).joinMembers ho hne
  · rw [hsa.pointers,hjo.pointers a ha,hop.pointers]

/-- No actor that is stopping has relations. -/
def Gone (status : Id → ActorStatus) (s : PgState Id) : Prop :=
  ∀actor,.stopping ≤ status actor → s.actorRelations.lookup actor=none

theorem Coherent.joinScoped (h : s.Coherent) (hg : Gone status s) (scope group : String)
    (actors : List Id) :
    (s.joinScoped status scope group actors).Coherent ∧
      Gone status (s.joinScoped status scope group actors) := by
  simp only [PgState.joinScoped]
  split
  next => exact ⟨h,hg⟩
  next hne =>
    have hs : ∀a∈actors.filter (status · ≤ .draining),status a ≤ .draining :=
      fun a ha => of_decide_eq_true (mem_filter.mp ha).2
    obtain ⟨hc,hj,hst,hp⟩ := h.joinSection {scope:=scope,group:=group} hne hs
    simp only [hj,hst,foldl_nil,if_neg hne]
    refine ⟨hc,fun a ha => (hp a fun hmem => ?_).trans (hg a ha)⟩
    exact ActorStatus.not_le_draining.mpr ha (hs a hmem)

/-! ### Leaving -/

/-- After `done` of the actors have been taken out of the group. -/
structure Leaving (key : ScopeGroupKey) (s : PgState Id) (done : List Id) (s' : PgState Id) :
    Prop where
  pointers : s'.actorRelations=s.actorRelations
  next : s'.next=s.next
  index : s'.index=s.index
  relations : ∀actor,s'.relationsOf actor =
    if actor∈done then (s.relationsOf actor).removeMembership key else s.relationsOf actor
  tidy : s'.Tidy (some (.group,key))

theorem Leaving.leaveActor (hs : s.Pointed) {done : List Id} (h : Leaving key s done s')
    (actor : Id) : Leaving key s (done++[actor]) (leaveActor key s' actor) := by
  have hs' : s'.Pointed:=hs.congr h.pointers h.next
  obtain ⟨he,hi,hn,hp⟩ := s'.updateFound_rest (s'.getActorRelations actor) (.removeMembership key)
  have hr:=relationsOf_updateFound hs' (f:=.removeMembership key) rfl actor
  unfold PgState.leaveActor
  generalize s'.updateFound (s'.getActorRelations actor) (.removeMembership key)=s₁ at *
  have hsa : SameRelations s₁ (s₁.updateMembers key (·.erase actor)):=sameRelations_updateMembers
  refine ⟨hsa.pointers.trans (hp.trans h.pointers),hsa.next.trans (hn.trans h.next),
    index_updateMembers.trans (hi.trans h.index),fun a => ?_,
    (h.tidy.congr he).updateMembers⟩
  rw [hsa.relationsOf,hr,h.relations,h.relations]
  by_cases ha : a=actor
  · subst ha
    by_cases hd : a∈done <;> simp [hd,removeMembership]
  · simp [ha]

theorem Leaving.foldl (hs : s.Pointed) (actors : List Id) : ∀{done : List Id} {s' : PgState Id},
    Leaving key s done s' →
      Leaving key s (done++actors) (actors.foldl (PgState.leaveActor key) s') := by
  induction actors with
  | nil => exact fun h => by simpa using h
  | cons actor rest ih =>
    intro done s' h
    simpa using ih (h.leaveActor hs actor)

theorem Leaving.initial (h : s.Coherent) (key : ScopeGroupKey) : Leaving key s [] s :=
  ⟨rfl,rfl,rfl,fun a => by simp,h.tidy.weaken⟩

theorem Coherent.leaveSection (h : s.Coherent) (key : ScopeGroupKey) (actors : List Id) :
    (s.leaveSection key actors).1.Coherent ∧
      (s.leaveSection key actors).1.actorRelations=s.actorRelations := by
  unfold PgState.leaveSection
  split
  next =>
    have hl:=(Leaving.initial h key).foldl h.toPointed actors
    have hc:=cell_leaveActors key actors s
    generalize actors.foldl (PgState.leaveActor key) s=s₁ at hl hc
    simp only [nil_append] at hl ⊢
    have hs : SameRelations s₁ (s₁.leaveMembers key):=sameRelations_leaveMembers
    have hm : s₁.members key=s.members key \ actors.toFinset := by
      rw [members_eq_cell,hc,if_pos ⟨rfl,rfl⟩,members_eq_cell]
    refine ⟨⟨?_,?_,?_,hl.tidy.leaveMembers⟩,hs.pointers.trans hl.pointers⟩
    · exact h.toPointed.congr (hs.pointers.trans hl.pointers) (hs.next.trans hl.next)
    · refine h.toAgree.update_members (f:=(· \ actors.toFinset))
        (fun table' key' => by rw [cell_leaveMembers,hc]) (fun a table => ?_)
        (fun a key' hkey => ?_) fun a => ?_
      all_goals rw [hs.relationsOf,hl.relations]
      · split <;> simp
      · split <;> simp [hkey]
      · rw [mem_sdiff,mem_toFinset,h.member]
        split <;> simp [*]
    · refine Indexed.leaveMembers ?_ fun hne => ?_
      · refine h.toIndexed.weaken.congr hl.index fun key' hkey => ?_
        rw [members_eq_cell,members_eq_cell,hc,if_neg fun heq => hkey (congrArg some heq.2)]
      · rw [whichScopedGroups,hl.index]
        refine (h.groups key (by simp)).mpr fun he => hne ?_
        rw [hm,he,empty_sdiff]
  next => exact ⟨h,rfl⟩

/-! ### Monitoring -/

theorem mem_pushListener {other : Id} {l : List Id} :
    other∈pushListener actor l ↔ other=actor ∨ other∈l := by
  unfold pushListener
  split
  next hmem => exact (or_iff_right_of_imp fun heq => heq ▸ hmem).symm
  next => simp [or_comm]

theorem nodup_pushListener {l : List Id} (h : l.Nodup) : (pushListener actor l).Nodup := by
  unfold pushListener
  split
  next => exact h
  next hmem => exact h.append (nodup_singleton actor) (by simpa using hmem)

theorem Coherent.addListener (h : s.Coherent) {relations : ℕ}
    (hl : s.actorRelations.lookup actor=some relations) :
    ((s.openEntry table key).addListener table key actor relations).Coherent := by
  have ho : SameRelations s (s.openEntry table key):=sameRelations_openEntry
  have hs : SameRelations s ((s.openEntry table key).updateListeners table key
      (pushListener actor)):=ho.trans sameRelations_updateListeners
  have hp:=h.toPointed.congr hs.pointers hs.next
  have hc : ∀table' key',((s.openEntry table key).addListener table key actor relations).cell
      table' key'=if table'=table ∧ key'=key then
        {s.cell table key with listeners:=pushListener actor (s.cell table key).listeners}
      else s.cell table' key' := by
    intro table' key'
    have he : ((s.openEntry table key).addListener table key actor relations).entry =
        ((s.openEntry table key).updateListeners table key (pushListener actor)).entry:=rfl
    rw [cell_congr he,cell_updateListeners (.inl occupied_openEntry),cell_openEntry]
  have hr : ∀a,((s.openEntry table key).addListener table key actor relations).relationsOf a =
        if a=actor then (s.relationsOf actor).addMonitor table key else s.relationsOf a := by
    intro a
    rw [PgState.addListener,relationsOf_updateRelations hp _ (hs.pointers ▸ hl),hs.relationsOf]
  refine ⟨hp.congr rfl rfl,?_,?_,?_⟩
  · refine h.toAgree.update_listeners hc (fun a => ?_) (fun a table' key' hne => ?_) (fun a => ?_)
      (nodup_pushListener (h.nodup table key))
    all_goals rw [hr]
    · split
      next heq => rw [heq,memberships_addMonitor]
      next => rfl
    · split
      next heq =>
        rw [heq,monitors_addMonitor]
        split
        next ht => rw [mem_insert,or_iff_right fun hkey => hne ⟨ht,hkey⟩]
        next => rfl
      next => rfl
    · rw [mem_pushListener,h.listener]
      split
      next heq => simp [heq,monitors_addMonitor]
      next hne => simp [hne]
  · refine h.toIndexed.of_members ?_ fun key' => ?_
    · exact index_updateListeners.trans index_openEntry
    · rw [hc]
      split
      next heq => rw [heq.1,heq.2]
      next => rfl
  · have hti : ((s.openEntry table key).addListener table key actor relations).Tidy
        (some (table,key)):=(h.tidy.openEntry.updateListeners).congr rfl
    refine hti.of_cell_ne fun heq => ?_
    have hmem : actor∈pushListener actor (s.cell table key).listeners :=
      mem_pushListener.mpr (.inl rfl)
    rw [hc,if_pos ⟨rfl,rfl⟩] at heq
    rw [(GroupState.mk.inj heq).2] at hmem
    exact absurd hmem not_mem_nil

theorem Coherent.congr (h : s.Coherent) (hp : s'.Pointed)
    (hr : s'.relationsOf=s.relationsOf) (he : s'.entry=s.entry)
    (hi : s'.index=s.index) : s'.Coherent :=
  ⟨hp,h.toAgree.congr (cell_congr he) hr,
    h.toIndexed.of_members hi fun key => by rw [cell_congr he],h.tidy.congr he⟩

/-- An entry that was opened and closed again is as it was. -/
theorem Tidy.entry_closeEntry_openEntry (h : s.Tidy none) :
    ((s.openEntry table key).closeEntry table key).entry=s.entry := by
  funext table' key'
  simp only [entry_closeEntry,Vacant,entry_openEntry,and_self,if_true]
  by_cases hkey : table'=table ∧ key'=key
  · obtain ⟨rfl,rfl⟩:=hkey
    cases he : s.entry table' key' with
    | none => simp
    | some group =>
      have hne : group≠{}:=fun heq => h table' key' (by simp) (heq ▸ he)
      simp [hne]
  · rw [if_neg fun heq => hkey ⟨heq.1,heq.2.1⟩,if_neg hkey]

theorem Coherent.monitorIn (h : s.Coherent) (hg : Gone status s) (table : ListenerTable)
    (key : ScopeGroupKey) (actor : Id) :
    (s.monitorIn status table key actor).Coherent ∧
      Gone status (s.monitorIn status table key actor) := by
  obtain ⟨hl,hp,hr,he,hi,ho⟩ := getOrCreate_spec h.toPointed actor
  simp only [PgState.monitorIn]
  generalize s.getOrCreateActorRelations actor=result at *
  obtain ⟨relations,s₁⟩:=result
  simp only at hl hp hr he hi ho ⊢
  have h₁ : s₁.Coherent:=h.congr hp hr he hi
  have hop : SameRelations s₁ (s₁.openEntry table key):=sameRelations_openEntry
  by_cases hs : status actor ≤ .draining
  · have hnot : ¬ .stopping ≤ status actor := fun hle => ActorStatus.not_le_draining.mpr hle hs
    rw [if_pos hs,if_neg hnot]
    have hsa : SameRelations s₁ ((s₁.openEntry table key).updateListeners table key
        (pushListener actor)):=hop.trans sameRelations_updateListeners
    refine ⟨h₁.addListener hl,fun a ha => ?_⟩
    have hne : a≠actor:=fun heq => hnot (heq ▸ ha)
    exact (congrArg (·.lookup a) hsa.pointers).trans ((ho a hne).trans (hg a ha))
  · have hst : .stopping ≤ status actor:=ActorStatus.not_le_draining.mp hs
    rw [if_neg hs,if_pos hst]
    have hc : SameRelations s₁ ((s₁.openEntry table key).closeEntry table key) :=
      hop.trans sameRelations_closeEntry
    have hlookup₂:=hl
    rw [← hc.pointers] at hlookup₂
    have hem : ((s₁.openEntry table key).closeEntry table key).relationsOf actor={} := by
      rw [hc.relationsOf,hr,relationsOf_of_none (hg actor hst)]
    obtain ⟨hf,hpointed₃,hrelations₃,hentry₃,hindex₃,hothers₃⟩ :=
      removeEmpty_spec (hp.congr hc.pointers hc.next) hlookup₂ hem
    refine ⟨h₁.congr hpointed₃ (hrelations₃.trans hc.relationsOf)
      (hentry₃.trans h₁.tidy.entry_closeEntry_openEntry)
      (hindex₃.trans (index_closeEntry.trans index_openEntry)),fun a ha => ?_⟩
    by_cases heq : a=actor
    · exact heq ▸ hf
    · rw [hothers₃ a heq,hc.pointers,ho a heq,hg a ha]

theorem cell_dropListener {table' : ListenerTable} {key' : ScopeGroupKey} :
    (s.dropListener table key actor).cell table' key'=if table'=table ∧ key'=key then
        {s.cell table key with listeners:=(s.cell table key).listeners.filter (· ≠ actor)}
      else s.cell table' key' := by
  rw [dropListener,cell_closeEntry,cell_updateListeners (.inr rfl)]

theorem index_dropListener : (s.dropListener table key actor).index=s.index :=
  index_closeEntry.trans index_updateListeners

theorem Tidy.dropListener (h : s.Tidy none) : (s.dropListener table key actor).Tidy none :=
  h.weaken.updateListeners.closeEntry

/-- With an entry or without one, the actor is taken off its listeners. -/
theorem demonitorSection_spec (s : PgState Id) (table : ListenerTable) (key : ScopeGroupKey)
    (found : Option ℕ) (actor : Id) :
    let s₁ := s.updateFound found (.removeMonitor table key)
    let s' := s.demonitorSection table key actor found
    SameRelations s₁ s' ∧ s'.index=s.index ∧ (s.Tidy none→s'.Tidy none) ∧
      ∀table' key',s'.cell table' key'=if table'=table ∧ key'=key then
          {s.cell table key with listeners:=(s.cell table key).listeners.filter (· ≠ actor)}
        else s.cell table' key' := by
  obtain ⟨he,hi,-,-⟩:=s.updateFound_rest found (.removeMonitor table key)
  simp only [demonitorSection]
  generalize s.updateFound found (.removeMonitor table key)=s₁ at *
  split
  next =>
    refine ⟨sameRelations_dropListener,index_dropListener.trans hi,
      fun h => (h.congr he).dropListener,fun table' key' => ?_⟩
    rw [cell_dropListener,cell_congr he]
  next ho =>
    refine ⟨.refl _,hi,fun h => h.congr he,fun table' key' => ?_⟩
    rw [occupied_eq,Option.not_isSome_iff_eq_none,he] at ho
    rw [cell_congr he]
    split
    next heq =>
      have hc : s.cell table key={} := by rw [cell,ho,Option.getD_none]
      rw [heq.1,heq.2,hc]
      rfl
    next => rfl

theorem Coherent.demonitorSection (h : s.Coherent) (table : ListenerTable) (key : ScopeGroupKey)
    (actor : Id) :
    let s' := s.demonitorSection table key actor (s.getActorRelations actor)
    s'.Coherent ∧ s'.actorRelations=s.actorRelations := by
  obtain ⟨hs,hi,hti,hc⟩ := s.demonitorSection_spec table key (s.getActorRelations actor) actor
  obtain ⟨-,-,hn,hp⟩ := s.updateFound_rest (s.getActorRelations actor) (.removeMonitor table key)
  have he : removeMonitor table key {}={} := by cases table <;> rfl
  have hr:=relationsOf_updateFound h.toPointed he actor
  generalize s.demonitorSection table key actor (s.getActorRelations actor)=s' at *
  refine ⟨⟨?_,?_,?_,hti h.tidy⟩,hs.pointers.trans hp⟩
  · exact h.toPointed.congr (hs.pointers.trans hp) (hs.next.trans hn)
  · refine h.toAgree.update_listeners hc (fun a => ?_) (fun a table' key' hne => ?_) (fun a => ?_)
      ((h.nodup table key).filter _)
    all_goals rw [hs.relationsOf,hr]
    · split
      next heq => rw [heq,memberships_removeMonitor]
      next => rfl
    · split
      next heq =>
        rw [heq,monitors_removeMonitor]
        split
        next ht => rw [mem_erase,and_iff_right fun hkey => hne ⟨ht,hkey⟩]
        next => rfl
      next => rfl
    · rw [mem_filter,h.listener]
      split
      next heq => simp [heq,monitors_removeMonitor]
      next hne => simp [hne]
  · refine h.toIndexed.of_members hi fun key' => ?_
    rw [hc]
    split
    next heq => rw [heq.1,heq.2]
    next => rfl

end Coherent
end PgState
end Ractor
