import Ractor.GroupIndexes
import Ractor.ReachableRuns

/-!
# Process groups over whole runs

Any sequence of operations on the process groups, each of them taken as one step, leaves the tables
coherent, and nothing is left in them of an actor that is stopping. The operations that an actor
runs when it stops take its relations first and visit the entries they name afterwards.
-/

namespace Ractor
open ActorRelations Finset Function
namespace PgState
variable {Id : Type} [DecidableEq Id]

section Shutdown
variable {s s' : PgState Id} {table : ListenerTable} {key : ScopeGroupKey} {actor : Id}

/-! ### Stopping -/

theorem dropListeners_spec (table : ListenerTable) (actor : Id) (keys : List ScopeGroupKey) :
    ∀s : PgState Id,let s' := keys.foldl (fun s key => s.dropListener table key actor) s
      SameRelations s s' ∧ s'.index=s.index ∧ (s.Tidy none→s'.Tidy none) ∧
        ∀table' key',s'.cell table' key'=if table'=table ∧ key'∈keys then
            { s.cell table' key' with
              listeners:=(s.cell table' key').listeners.filter (· ≠ actor) }
          else s.cell table' key' := by
  induction keys with
  | nil => exact fun s => ⟨.refl s,rfl,id,fun table' key' => by simp⟩
  | cons key rest ih =>
    intro s
    obtain ⟨hs,hi,ht,hc⟩:=ih (s.dropListener table key actor)
    refine ⟨sameRelations_dropListener.trans hs,hi.trans index_dropListener,
      fun h => ht h.dropListener,fun table' key' => ?_⟩
    rw [List.foldl_cons,hc,cell_dropListener]
    by_cases hkey : table'=table ∧ key'=key
    · obtain ⟨rfl,rfl⟩:=hkey
      simp
    · have hmem : table'=table ∧ key'∈key::rest ↔ table'=table ∧ key'∈rest := by
        rw [List.mem_cons]
        exact ⟨fun h => ⟨h.1,h.2.resolve_left fun heq => hkey ⟨h.1,heq⟩⟩,fun h => ⟨h.1,.inr h.2⟩⟩
      simp only [if_neg hkey,hmem]

theorem leaveAllSection_spec (hi : s.Indexed none) (ht : s.Tidy none) (actor : Id)
    (key : ScopeGroupKey) :
    let s' := (s.leaveAllSection actor key).1
    SameRelations s s' ∧ s'.Indexed none ∧ s'.Tidy none := by
  simp only [leaveAllSection]
  split
  next hm =>
    refine ⟨sameRelations_updateMembers.trans sameRelations_leaveMembers,?_,
      ht.weaken.updateMembers.leaveMembers⟩
    refine Indexed.leaveMembers (hi.weaken.congr index_updateMembers fun key' hkey => ?_)
      fun _ => ?_
    · rw [members_eq_cell,members_eq_cell,cell_updateMembers (.inr (erase_empty _)),
        if_neg fun heq => hkey (congrArg some heq.2)]
    · rw [whichScopedGroups,index_updateMembers]
      exact (hi.groups key (by simp)).mpr (ne_empty_of_mem hm)
  next => exact ⟨.refl s,hi,ht⟩

theorem leaveAllSections_spec (actor : Id) (keys : List ScopeGroupKey) :
    ∀s : PgState Id,s.Indexed none→s.Tidy none →
      let s' := keys.foldl (fun s key => (s.leaveAllSection actor key).1) s
      SameRelations s s' ∧ s'.Indexed none ∧ s'.Tidy none ∧ ∀table' key',s'.cell table' key' =
        if table'=.group ∧ key'∈keys then
          {s.cell table' key' with members:=(s.cell table' key').members.erase actor}
        else s.cell table' key' := by
  induction keys with
  | nil => exact fun s hi ht => ⟨.refl s,hi,ht,fun table' key' => by simp⟩
  | cons key rest ih =>
    intro s hi ht
    obtain ⟨hsame₁,hindexed₁,htidy₁⟩:=leaveAllSection_spec hi ht actor key
    obtain ⟨hs,hi',ht',hc⟩:=ih _ hindexed₁ htidy₁
    refine ⟨hsame₁.trans hs,hi',ht',fun table' key' => ?_⟩
    rw [List.foldl_cons,hc,cell_leaveAllSection]
    by_cases hkey : table'=.group ∧ key'=key
    · obtain ⟨rfl,rfl⟩:=hkey
      simp
    · have hmem : table'=.group ∧ key'∈key::rest ↔ table'=.group ∧ key'∈rest := by
        rw [List.mem_cons]
        exact ⟨fun h => ⟨h.1,h.2.resolve_left fun heq => hkey ⟨h.1,heq⟩⟩,fun h => ⟨h.1,.inr h.2⟩⟩
      simp only [if_neg hkey,hmem]

def Enumerates (order : Finset ScopeGroupKey → List ScopeGroupKey) (keys : Finset ScopeGroupKey) :
    Prop :=
  (order keys).Nodup ∧ (order keys).toFinset=keys

instance (order : Finset ScopeGroupKey → List ScopeGroupKey) (keys : Finset ScopeGroupKey) :
    Decidable (Enumerates order keys):=inferInstanceAs (Decidable (_ ∧ _))

variable {order : Finset ScopeGroupKey → List ScopeGroupKey} {keys : Finset ScopeGroupKey}

theorem Enumerates.mem (h : Enumerates order keys) : key∈order keys ↔ key∈keys := by
  rw [← List.mem_toFinset,h.2]

theorem demonitorAll_spec (hs : s.Pointed) (ht : s.Tidy none)
    (ho : ∀table,Enumerates order ((s.relationsOf actor).monitors table)) :
    let s' := s.demonitorAll actor order
    (s'.actorRelations=s.actorRelations ∧ s'.next=s.next ∧ s'.index=s.index ∧ s'.Tidy none) ∧
      (∀other,s'.relationsOf other =
        if other=actor then (s.relationsOf actor).takeMonitors else s.relationsOf other) ∧
      ∀table key,s'.cell table key=if key∈(s.relationsOf actor).monitors table then
          {s.cell table key with listeners:=(s.cell table key).listeners.filter (· ≠ actor)}
        else s.cell table key := by
  simp only [PgState.demonitorAll]
  cases hl : s.getActorRelations actor with
  | none =>
    rw [relationsOf_of_none hl]
    dsimp only
    refine ⟨⟨rfl,rfl,rfl,ht⟩,fun other => ?_,fun table key => by cases table <;> rfl⟩
    split
    next heq =>
      rw [heq,relationsOf_of_none hl]
      rfl
    next => rfl
  | some relations =>
    have hr:=relationsOf_updateRelations hs .takeMonitors hl
    have hb : (s.updateRelations relations .takeMonitors).cell=s.cell:=cell_congr rfl
    obtain ⟨hsame₁,hindex₁,htidy₁,hcell₁⟩:=dropListeners_spec .group actor
      (order (s.heap relations).groupMonitors) (s.updateRelations relations .takeMonitors)
    simp only
    generalize (order (s.heap relations).groupMonitors).foldl
      (fun s key => s.dropListener .group key actor)
      (s.updateRelations relations .takeMonitors)=s₁ at *
    obtain ⟨hsame₂,hindex₂,htidy₂,hcell₂⟩:=dropListeners_spec .world actor
      (order (s.heap relations).worldMonitors) s₁
    generalize (order (s.heap relations).worldMonitors).foldl
      (fun s key => s.dropListener .world key actor) s₁=s₂ at *
    have hsa:=hsame₁.trans hsame₂
    refine ⟨⟨hsa.pointers,hsa.next,hindex₂.trans hindex₁,htidy₂ (htidy₁ (ht.congr rfl))⟩,
      fun other => by rw [hsa.relationsOf,hr],fun table key => ?_⟩
    have hmem : key∈order ((s.relationsOf actor).monitors table) ↔ _:=(ho table).mem
    rw [relationsOf_of_lookup hl] at hmem ⊢
    rw [hcell₂,hcell₁,hb]
    simp only [← hmem]
    cases table <;> simp [monitors]

theorem Coherent.demonitorAll (h : s.Coherent)
    (ho : ∀table,Enumerates order ((s.relationsOf actor).monitors table)) :
    (s.demonitorAll actor order).Coherent := by
  obtain ⟨⟨hp,hne,hi,ht⟩,hr,hc⟩ := demonitorAll_spec h.toPointed h.tidy ho
  generalize s.demonitorAll actor order=s' at *
  refine ⟨h.toPointed.congr hp hne,⟨fun a key => ?_,fun a table key => ?_,
    fun table key => ?_⟩,?_,ht⟩
  · have hm : s'.members key=s.members key := by
      rw [members_eq_cell,members_eq_cell,hc]
      split <;> rfl
    rw [hm,hr,h.member]
    split
    next ha => rw [ha,memberships_takeMonitors]
    next => rfl
  · have hl:=h.listener a table key
    rw [listeners_eq_cell] at hl ⊢
    rw [hc,hr]
    by_cases ha : a=actor
    · subst ha
      rw [if_pos rfl,monitors_takeMonitors]
      split
      next => simp
      next hnot => simp [hl,hnot]
    · rw [if_neg ha,← hl]
      split
      next => simp [ha]
      next => rfl
  · have hn:=h.nodup table key
    rw [listeners_eq_cell] at hn ⊢
    rw [hc]
    split
    · exact hn.filter _
    · exact hn
  · refine h.toIndexed.of_members hi fun key => ?_
    rw [hc]
    split <;> rfl

/-- An actor that listens nowhere leaves the tables. -/
theorem Coherent.leaveAll (h : s.Coherent) (hmo : ∀table,(s.relationsOf actor).monitors table=∅)
    (ho : Enumerates order (s.relationsOf actor).memberships) :
    let s' := s.leaveAll actor order
    s'.Coherent ∧ s'.actorRelations.lookup actor=none ∧ ∀other,other≠actor →
      s'.actorRelations.lookup other=s.actorRelations.lookup other := by
  simp only [PgState.leaveAll]
  cases hl : s.getActorRelations actor with
  | none => exact ⟨h,hl,fun _ _ => rfl⟩
  | some relations =>
    have hr:=relationsOf_updateRelations h.toPointed .takeMemberships hl
    have hb : (s.updateRelations relations .takeMemberships).cell=s.cell:=cell_congr rfl
    rw [relationsOf_of_lookup hl] at ho
    obtain ⟨hs,hi,ht,hc⟩:=leaveAllSections_spec actor
      (order (s.heap relations).memberships) (s.updateRelations relations .takeMemberships)
      (h.toIndexed.of_members rfl fun key => by rw [hb]) (h.tidy.congr rfl)
    simp only
    generalize (order (s.heap relations).memberships).foldl
      (fun s key => (s.leaveAllSection actor key).1)
      (s.updateRelations relations .takeMemberships)=s₁ at *
    rw [hb] at hc
    have hlookup₁ : s₁.actorRelations.lookup actor=some relations:=hs.pointers ▸ hl
    have h₁ : s₁.Coherent := by
      refine ⟨h.toPointed.congr hs.pointers hs.next,⟨fun a key => ?_,fun a table key => ?_,
        fun table key => ?_⟩,hi,ht⟩
      · have hm:=h.member a key
        rw [members_eq_cell] at hm ⊢
        rw [hc,hs.relationsOf,hr]
        by_cases ha : a=actor
        · subst ha
          rw [relationsOf_of_lookup hl] at hm
          rw [if_pos rfl,memberships_takeMemberships]
          simp only [ho.mem,true_and]
          split
          next => simp
          next hnot => simp [hm,hnot]
        · rw [if_neg ha,← hm]
          split
          next => simp [ha]
          next => rfl
      · have hli : s₁.listeners table key=s.listeners table key := by
          rw [listeners_eq_cell,listeners_eq_cell,hc]
          split <;> rfl
        rw [hli,hs.relationsOf,hr,h.listener]
        split
        next ha => rw [ha,monitors_takeMemberships]
        next => rfl
      · have hli : s₁.listeners table key=s.listeners table key := by
          rw [listeners_eq_cell,listeners_eq_cell,hc]
          split <;> rfl
        rw [hli]
        exact h.nodup table key
    have he : s₁.relationsOf actor={} := by
      rw [hs.relationsOf,hr,if_pos rfl]
      have hg:=hmo .group
      have hw:=hmo .world
      generalize s.relationsOf actor=r at hg hw
      obtain ⟨memberships,groupMonitors,worldMonitors⟩:=r
      obtain rfl : groupMonitors=∅:=hg
      obtain rfl : worldMonitors=∅:=hw
      rfl
    obtain ⟨hf,hp,hr',hen,hin,hot⟩ := removeEmpty_spec h₁.toPointed hlookup₁ he
    exact ⟨h₁.congr hp hr' hen hin,hf,
      fun other hne => (hot other hne).trans (by rw [hs.pointers]; rfl)⟩

end Shutdown
end PgState

/-! ### Runs -/

structure Groups (Id : Type) where
  pg : PgState Id:={}
  status : Id → ActorStatus:=fun _ => .unstarted

/-- The operations on the process groups. A status that is published comes with the order in which
the sets of keys are iterated over. -/
inductive GroupOperation (Id : Type) where
  | join (group : String) (actors : List Id)
  | joinScoped (scope group : String) (actors : List Id)
  | leave (group : String) (actors : List Id)
  | leaveScoped (scope group : String) (actors : List Id)
  | monitor (group : String) (actor : Id)
  | monitorScope (scope : String) (actor : Id)
  | demonitor (group : String) (actor : Id)
  | demonitorScope (scope : String) (actor : Id)
  | setStatus (actor : Id) (status : ActorStatus)
      (order : Finset ScopeGroupKey → List ScopeGroupKey)

namespace Groups
open PgState

variable {Id : Type} [DecidableEq Id] (g : Groups Id)

def Visits (actor : Id) (order : Finset ScopeGroupKey → List ScopeGroupKey) : Prop :=
  Enumerates order (g.pg.relationsOf actor).memberships ∧
    Enumerates order (g.pg.relationsOf actor).groupMonitors ∧
    Enumerates order (g.pg.relationsOf actor).worldMonitors

instance (g : Groups Id) (actor : Id) (order : Finset ScopeGroupKey → List ScopeGroupKey) :
    Decidable (g.Visits actor order):=inferInstanceAs (Decidable (_ ∧ _ ∧ _))

def setStatus (actor : Id) (status : ActorStatus)
    (order : Finset ScopeGroupKey → List ScopeGroupKey) : Groups Id :=
  { pg :=
      if .stopping ≤ status ∧ g.status actor < .stopping then
        (g.pg.demonitorAll actor order).leaveAll actor order
      else g.pg
    status:=update g.status actor (max (g.status actor) status) }

def step : GroupOperation Id → Option (Groups Id)
  | .join group actors => some {g with pg:=g.pg.join g.status group actors}
  | .joinScoped scope group actors =>
    some {g with pg:=g.pg.joinScoped g.status scope group actors}
  | .leave group actors => some {g with pg:=g.pg.leave group actors}
  | .leaveScoped scope group actors => some {g with pg:=g.pg.leaveScoped scope group actors}
  | .monitor group actor => some {g with pg:=g.pg.monitor g.status group actor}
  | .monitorScope scope actor => some {g with pg:=g.pg.monitorScope g.status scope actor}
  | .demonitor group actor => some {g with pg:=g.pg.demonitor group actor}
  | .demonitorScope scope actor => some {g with pg:=g.pg.demonitorScope scope actor}
  | .setStatus actor status order =>
    if g.Visits actor order then some (g.setStatus actor status order) else none

def Step (operation : GroupOperation Id) (g' : Groups Id) : Prop :=
  g.step operation=some g'

def Initial : Prop:=g={}

/-- The tables are coherent and stopping actors are gone from them. -/
structure Sound (g : Groups Id) : Prop extends g.pg.Coherent where
  gone : Gone g.status g.pg

theorem sound_initial : ({} : Groups Id).Sound :=
  { below:=fun _ _ h => by cases h
    distinct:=fun _ _ _ h => by cases h
    member:=fun _ _ => by simp [members,relationsOf]
    listener:=fun _ table _ => by cases table <;> simp [listeners,relationsOf,monitors]
    nodup:=fun table _ => by cases table <;> exact List.nodup_nil
    groups:=fun _ _ => by simp [members,whichScopedGroups]
    scopes:=fun _ => by rintro ⟨⟩
    tidy:=fun table _ _ => by cases table <;> rintro ⟨⟩
    gone:=fun _ _ => rfl }

theorem Sound.setStatus {g : Groups Id} (h : g.Sound) {actor : Id} (status : ActorStatus)
    {order : Finset ScopeGroupKey → List ScopeGroupKey} (hv : g.Visits actor order) :
    (g.setStatus actor status order).Sound := by
  obtain ⟨hme,hg,hw⟩:=hv
  have hm : ∀table,Enumerates order ((g.pg.relationsOf actor).monitors table)
    | .group => hg
    | .world => hw
  unfold Groups.setStatus
  split
  next =>
    obtain ⟨⟨hp,-,-,-⟩,hr,-⟩ := demonitorAll_spec h.toPointed h.tidy hm
    have hown : (g.pg.demonitorAll actor order).relationsOf actor =
        (g.pg.relationsOf actor).takeMonitors := by rw [hr,if_pos rfl]
    obtain ⟨hc,hf,ho⟩:=(h.toCoherent.demonitorAll hm).leaveAll
      (fun table => by rw [hown,monitors_takeMonitors])
      (by rw [hown]; exact hme)
    refine ⟨hc,fun a ha => ?_⟩
    by_cases heq : a=actor
    · exact heq ▸ hf
    · simp only [update_of_ne heq] at ha
      rw [ho a heq,hp]
      exact h.gone a ha
  next hnot =>
    refine ⟨h.toCoherent,fun a ha => h.gone a ?_⟩
    by_cases heq : a=actor
    · subst heq
      simp only [update_self,le_max_iff] at ha
      exact ha.elim id fun hle => not_lt.mp fun hlt => hnot ⟨hle,hlt⟩
    · simpa only [update_of_ne heq] using ha

theorem Sound.step {g g' : Groups Id} {operation : GroupOperation Id} (h : g.Sound)
    (hs : g.Step operation g') : g'.Sound := by
  cases operation with
  | join group actors =>
    cases hs
    obtain ⟨hc,hg⟩:=h.toCoherent.joinScoped h.gone defaultScope group actors
    exact ⟨hc,hg⟩
  | joinScoped scope group actors =>
    cases hs
    obtain ⟨hc,hg⟩:=h.toCoherent.joinScoped h.gone scope group actors
    exact ⟨hc,hg⟩
  | leave group actors =>
    cases hs
    obtain ⟨hc,hp⟩:=h.toCoherent.leaveSection ⟨defaultScope,group⟩ actors
    exact ⟨hc,fun a ha => hp ▸ h.gone a ha⟩
  | leaveScoped scope group actors =>
    cases hs
    obtain ⟨hc,hp⟩:=h.toCoherent.leaveSection ⟨scope,group⟩ actors
    exact ⟨hc,fun a ha => hp ▸ h.gone a ha⟩
  | monitor group actor =>
    cases hs
    obtain ⟨hc,hg⟩:=h.toCoherent.monitorIn h.gone .group ⟨defaultScope,group⟩ actor
    exact ⟨hc,hg⟩
  | monitorScope scope actor =>
    cases hs
    obtain ⟨hc,hg⟩ := h.toCoherent.monitorIn h.gone .world ⟨scope,allGroupsNotification⟩ actor
    exact ⟨hc,hg⟩
  | demonitor group actor =>
    cases hs
    obtain ⟨hc,hp⟩ := h.toCoherent.demonitorSection .group ⟨defaultScope,group⟩ actor
    exact ⟨hc,fun a ha => hp ▸ h.gone a ha⟩
  | demonitorScope scope actor =>
    cases hs
    obtain ⟨hc,hp⟩ := h.toCoherent.demonitorSection .world ⟨scope,allGroupsNotification⟩ actor
    exact ⟨hc,fun a ha => hp ▸ h.gone a ha⟩
  | setStatus actor status order =>
    obtain ⟨hv,hs⟩:=Option.ite_none_right_eq_some.mp hs
    exact Option.some.inj hs ▸ h.setStatus status hv

theorem sound_of_reachable {g : Groups Id} (h : Reachable Initial Step g) : g.Sound :=
  h.invariant (fun _ hs => hs ▸ sound_initial) fun _ _ _ hg hs => hg.step hs

/-! ### Queries -/

theorem mem_whichScopesAndGroups {s : PgState Id} {key : ScopeGroupKey} :
    key∈s.whichScopesAndGroups ↔ s.members key≠∅ := by
  rw [whichScopesAndGroups,Finset.mem_filter,and_iff_right_iff_imp]
  intro hne
  rw [Finmap.mem_keys,← Finmap.lookup_isSome]
  cases hl : s.map.lookup key with
  | none => exact absurd (by rw [members,hl]; rfl) hne
  | some group => rfl

/-- The tables of the process groups say the same over every sequence of operations, and nothing
is left in them of an actor that is stopping. -/
theorem tables_coherent {g : Groups Id} (h : Reachable Initial Step g) :
    (∀actor key,actor∈g.pg.members key ↔ key∈(g.pg.relationsOf actor).memberships) ∧
    (∀actor key,actor∈g.pg.listeners .group key ↔ key∈(g.pg.relationsOf actor).groupMonitors) ∧
    (∀actor key,actor∈g.pg.listeners .world key ↔ key∈(g.pg.relationsOf actor).worldMonitors) ∧
    (∀table key,(g.pg.listeners table key).Nodup) ∧
    (∀key,key.group∈g.pg.whichScopedGroups key.scope ↔ g.pg.members key≠∅) ∧
    (∀key,key∈g.pg.whichScopesAndGroups ↔ key.group∈g.pg.whichScopedGroups key.scope) ∧
    (∀group,group∈g.pg.whichGroups ↔ ∃scope,group∈g.pg.whichScopedGroups scope) ∧
    (∀scope,scope∈g.pg.whichScopes ↔ g.pg.whichScopedGroups scope≠∅) ∧
    (∀key,g.pg.map.lookup key≠some {}) ∧ (∀key,g.pg.worldListeners.lookup key≠some []) ∧
    (∀scope,g.pg.index.lookup scope≠some ∅) ∧
    ∀actor,.stopping≤g.status actor → g.pg.actorRelations.lookup actor=none ∧
      (∀key,actor∉g.pg.members key) ∧ ∀table key,actor∉g.pg.listeners table key := by
  have hg:=sound_of_reachable h
  have hindex : ∀key,key∈g.pg.whichScopesAndGroups ↔ key.group∈g.pg.whichScopedGroups key.scope :=
    fun key => mem_whichScopesAndGroups.trans (hg.groups key nofun).symm
  refine ⟨hg.member,fun a => hg.listener a .group,fun a => hg.listener a .world,hg.nodup,
    fun key => hg.groups key nofun,hindex,fun group => ?_,fun scope => ?_,
    fun key => hg.tidy .group key nofun,fun key hlookup => ?_,hg.scopes,fun actor hstatus => ?_⟩
  · rw [whichGroups,mem_image]
    constructor
    · rintro ⟨key,hkey,rfl⟩
      exact ⟨key.scope,(hindex key).mp hkey⟩
    · rintro ⟨scope,hscope⟩
      exact ⟨⟨scope,group⟩,(hindex ⟨scope,group⟩).mpr hscope,rfl⟩
  · rw [whichScopes,mem_image,← nonempty_iff_ne_empty]
    constructor
    · rintro ⟨key,hkey,rfl⟩
      exact ⟨key.group,(hindex key).mp hkey⟩
    · rintro ⟨group,hgroup⟩
      exact ⟨⟨scope,group⟩,(hindex ⟨scope,group⟩).mpr hgroup,rfl⟩
  · refine hg.tidy .world key nofun ?_
    rw [entry,hlookup]
    rfl
  · have hlookup:=hg.gone actor hstatus
    have hrelations:=relationsOf_of_none hlookup
    refine ⟨hlookup,fun key => ?_,fun table key => ?_⟩
    · rw [hg.member,hrelations]
      exact notMem_empty key
    · rw [hg.listener,hrelations]
      cases table <;> exact notMem_empty key

/-- Two actors are in a group that one of them monitors, and this one stops. -/
def stoppedMember : List (GroupOperation ℕ) :=
  let order := fun keys => [⟨defaultScope,"workers"⟩].filter (· ∈ keys)
  [.join "workers" [0,1,0],.monitor "workers" 0,.monitorScope defaultScope 1,
    .setStatus 0 .stopping order,.join "workers" [0],.monitor "workers" 0]

theorem exists_reachable (operations : List (GroupOperation Id)) (test : Groups Id→Bool)
    (h : (execute step {} operations).any test=true) :
    ∃g : Groups Id,Reachable Initial Step g ∧ test g=true :=
  exists_of_execute (fun _ _ _ hs => hs) (fun _ hs => (Option.some.inj hs).symm) operations h

theorem tables_coherent_stoppedMember : ∃g : Groups ℕ,Reachable Initial Step g ∧
    g.status 0=.stopping ∧ g.pg.members ⟨defaultScope,"workers"⟩={1} ∧
    g.pg.actorRelations.lookup 0=none ∧ 0∉g.pg.listeners .group ⟨defaultScope,"workers"⟩ ∧
    "workers"∈g.pg.whichGroups := by
  obtain ⟨g,hg,ht⟩:=exists_reachable stoppedMember
    (fun g => g.status 0=.stopping ∧ g.pg.members ⟨defaultScope,"workers"⟩={1}) (by decide)
  obtain ⟨hstatus,hmembers⟩:=of_decide_eq_true ht
  obtain ⟨-,-,-,-,hindex,-,hgroups,-,-,-,-,hgone⟩:=tables_coherent hg
  obtain ⟨hlookup,-,hlisteners⟩:=hgone 0 hstatus.ge
  refine ⟨g,hg,hstatus,hmembers,hlookup,hlisteners .group _,(hgroups "workers").mpr ?_⟩
  refine ⟨defaultScope,(hindex ⟨defaultScope,"workers"⟩).mpr ?_⟩
  rw [hmembers]
  exact singleton_ne_empty 1

end Groups
end Ractor
