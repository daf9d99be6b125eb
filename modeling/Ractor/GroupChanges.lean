import Ractor.GroupNotifications
import Ractor.ReplicatedViews

/-!
# Operations on process groups with their changes

An operation on the process groups together with the changes that it sends to the listeners, as one
step. The members after the operation are those before it with the changes made, and the listeners
stay as they are.
-/

namespace Ractor
open GroupChangeMessage ViewNote List
namespace GroupChangeMessage
variable {Id Id' : Type}

def actors : GroupChangeMessage Id → List Id
  | join _ _ actors => actors
  | leave _ _ actors => actors

def map (f : Id → Id') : GroupChangeMessage Id → GroupChangeMessage Id'
  | join scope group actors => join scope group (actors.map f)
  | leave scope group actors => leave scope group (actors.map f)

def note [DecidableEq Id] (actor : Id) : GroupChangeMessage Id → Option (ViewNote ScopeGroupKey)
  | join scope group actors => if actor∈actors then some (.mark ⟨scope,group⟩) else none
  | leave scope group actors => if actor∈actors then some (.unmark ⟨scope,group⟩) else none

theorem mem_apply [DecidableEq Id] (change : GroupChangeMessage Id) (actor : Id)
    (key : ScopeGroupKey) (members : Finset Id) :
    actor∈(if change.key=key then change.apply members else members) ↔
      ((change.note actor).bind (·.word key)).elim (actor∈members) (· = true) := by
  cases change with
  | join scope group actors | leave scope group actors =>
    by_cases hkey : (⟨scope,group⟩ : ScopeGroupKey)=key <;> by_cases ha : actor∈actors <;>
        simp [GroupChangeMessage.key,apply,note,ViewNote.word,hkey,ha]

end GroupChangeMessage

variable {key : ScopeGroupKey}

namespace PgState
open Notifications

variable {Id : Type} [DecidableEq Id]

def joinScopedChange (status : Id → ActorStatus) (s : PgState Id) (scope group : String)
    (actors : List Id) : Option (GroupChangeMessage Id) :=
  let actors := actors.filter (status · ≤ .draining)
  if actors=[] then none
  else
    let joined := (joinSection status s {scope:=scope,group:=group} actors).2.1
    if joined=[] then none else some (.join scope group joined)

def leaveScopedChange (s : PgState Id) (scope group : String) (actors : List Id) :
    Option (GroupChangeMessage Id) :=
  (s.leaveSection {scope:=scope,group:=group} actors).2.map fun _ => .leave scope group actors

def leaveAllSectionChanges (actor : Id) : List ScopeGroupKey → PgState Id →
    List (GroupChangeMessage Id)
  | [],_ => []
  | key::keys,s =>
    ((s.leaveAllSection actor key).2.map fun _ => .leave key.scope key.group [actor]).toList ++
      leaveAllSectionChanges actor keys (s.leaveAllSection actor key).1

def leaveAllChanges (s : PgState Id) (actor : Id)
    (order : Finset ScopeGroupKey → List ScopeGroupKey) : List (GroupChangeMessage Id) :=
  match s.getActorRelations actor with
  | none => []
  | some relations =>
    leaveAllSectionChanges actor (order (s.heap relations).memberships)
      (s.updateRelations relations .takeMemberships)

/-- What a listener is sent of a change: once for each place where it listens. -/
def noticesOf (s : PgState Id) (listener : Id) (change : GroupChangeMessage Id) :
    List (GroupChangeMessage Id) :=
  ((s.listeners .group change.key++(worldKeys change.key.scope).flatMap (s.listeners .world)).filter
    (· = listener)).map fun _ => change

/-! ### What the operations do -/

structure Makes (s : PgState Id) (changes : List (GroupChangeMessage Id)) (s' : PgState Id) :
    Prop where
  members : ∀key,s'.members key =
    (changes.filter (·.key=key)).foldl GroupChangeMessage.apply (s.members key)
  listeners : s'.listeners=s.listeners

variable {s s' s'' : PgState Id} {changes changes' : List (GroupChangeMessage Id)}
  {change : GroupChangeMessage Id} {actor : Id} {status : Id → ActorStatus} {actors : List Id}

namespace Makes

theorem of_cell_eq (h : s'.cell=s.cell) : Makes s [] s' := by
  refine ⟨fun key => ?_,?_⟩
  · rw [members_eq_cell,h,← members_eq_cell]
    rfl
  · funext table key
    rw [listeners_eq_cell,h,← listeners_eq_cell]

theorem of_changed {notified : List Id} (h : Changed s s' change notified) :
    Makes s [change] s' := by
  refine ⟨fun key => ?_,h.listeners⟩
  rw [h.members]
  by_cases hkey : key=change.key
  · simp [hkey]
  · simp [hkey,Ne.symm hkey]

theorem then_cell_eq (h : Makes s changes s') (hc : s''.cell=s'.cell) : Makes s changes s'' := by
  refine ⟨fun key => ?_,?_⟩
  · rw [← h.members,members_eq_cell,members_eq_cell,hc]
  · rw [← h.listeners]
    exact (of_cell_eq hc).listeners

theorem trans (h : Makes s changes s') (h' : Makes s' changes' s'') :
    Makes s (changes++changes') s'' := by
  refine ⟨fun key => ?_,h'.listeners.trans h.listeners⟩
  rw [h'.members,h.members,filter_append,foldl_append]

/-- The last change that names the actor decides whether it is a member. -/
theorem mem_members (h : Makes s changes s') (actor : Id) (key : ScopeGroupKey) :
    actor∈s'.members key ↔
      (lastWord key (changes.filterMap (·.note actor))).elim (actor∈s.members key) (· = true) := by
  rw [h.members]
  clear h
  generalize s.members key=members
  induction changes using reverseRecOn with
  | nil => rfl
  | append_singleton changes change ih =>
    have hf (members : Finset Id) : ([change].filter (·.key=key)).foldl
        GroupChangeMessage.apply members=if change.key=key then change.apply members else members := by
      by_cases hkey : change.key=key <;> simp [hkey]
    have hw : lastWord key ([change].filterMap (·.note actor)) =
        (change.note actor).bind (·.word key) := by
      cases hn : change.note actor with
      | none => simp [lastWord,hn]
      | some note => cases hw : note.word key <;> simp [lastWord,hn,hw]
    rw [filter_append,foldl_append,filterMap_append,lastWord_append,hf,hw,mem_apply]
    cases (change.note actor).bind (·.word key) with
    | none => exact ih
    | some word => rfl

end Makes

theorem cell_removeEmptyActorRelations {relations : ℕ} :
    (s.removeEmptyActorRelations actor relations).cell=s.cell := by
  refine cell_congr ?_
  unfold removeEmptyActorRelations
  split
  · exact (s.forgetRelations_rest actor relations).1
  · rfl

theorem cell_removeEmptyAll (stopped : List (Id × ℕ)) (s : PgState Id) :
    (stopped.foldl (fun s p => s.removeEmptyActorRelations p.1 p.2) s).cell=s.cell := by
  induction stopped generalizing s with
  | nil => rfl
  | cons p stopped ih =>
    rw [foldl_cons,ih]
    exact cell_removeEmptyActorRelations

theorem mem_accepted_joinActors (actors : List Id) (sp : PgState Id × JoinProgress Id)
    (hs : ∀actor∈actors,status actor ≤ .draining)
    (hp : ∀actor∈sp.2.processed,actor∈sp.2.accepted)
    (ha : actor∈actors ∨ actor∈sp.2.accepted) :
    actor∈(actors.foldl (joinActor status key) sp).2.accepted := by
  induction actors generalizing sp with
  | nil => exact ha.resolve_left not_mem_nil
  | cons first rest ih =>
    rw [foldl_cons]
    have hf:=hs first mem_cons_self
    by_cases hse : first∈sp.2.processed
    · have hsa : joinActor status key sp first=sp:=if_pos hse
      rw [hsa]
      refine ih sp (fun actor hm => hs actor (mem_cons_of_mem _ hm)) hp ?_
      rcases ha with ha | ha
      · exact (mem_cons.mp ha).elim (fun heq => .inr (hp _ (heq ▸ hse))) .inl
      · exact .inr ha
    · have hac : (joinActor status key sp first).2.accepted=first::sp.2.accepted := by
        simp [joinActor,hse,hf]
      have hmo : (joinActor status key sp first).2.processed=first::sp.2.processed := by
        simp [joinActor,hse,hf]
      refine ih _ (fun actor hm => hs actor (mem_cons_of_mem _ hm)) ?_ ?_
      · rw [hac,hmo]
        exact cons_subset_cons _ hp
      · rw [hac]
        rcases ha with ha | ha
        · exact (mem_cons.mp ha).elim (fun heq => .inr (heq ▸ mem_cons_self)) .inl
        · exact .inr (mem_cons_of_mem _ ha)

/-- All actors of a section have joined when none of them is stopping. -/
theorem joined_joinSection (hs : ∀actor∈actors,status actor ≤ .draining) :
    (joinSection status s key actors).2.1=actors := by
  refine filter_eq_self.mpr fun actor hm => decide_eq_true ?_
  exact mem_accepted_joinActors actors _ hs (fun _ hm => absurd hm not_mem_nil) (.inl hm)

theorem joinScopedChange_eq (status : Id → ActorStatus) (s : PgState Id) (scope group : String)
    (actors : List Id) :
    joinScopedChange status s scope group actors =
      if actors.filter (status · ≤ .draining)=[] then none
      else some (.join scope group (actors.filter (status · ≤ .draining))) := by
  have hs : ∀actor∈actors.filter (status · ≤ .draining),status actor ≤ .draining :=
    fun actor hm => of_decide_eq_true (mem_filter.mp hm).2
  simp only [joinScopedChange,joined_joinSection hs]
  split
  · rfl
  · rfl

theorem joinScoped_makes (status : Id → ActorStatus) (s : PgState Id) (scope group : String)
    (actors : List Id) :
    Makes s (joinScopedChange status s scope group actors).toList
      (s.joinScoped status scope group actors) := by
  rw [joinScopedChange_eq]
  simp only [joinScoped]
  split
  next => exact .of_cell_eq rfl
  next hne =>
    have hs : ∀actor∈actors.filter (status · ≤ .draining),status actor ≤ .draining :=
      fun actor hm => of_decide_eq_true (mem_filter.mp hm).2
    have hc:=joinSection_changed status s ⟨scope,group⟩ (actors.filter (status · ≤ .draining))
    simp only [joined_joinSection hs,if_neg hne] at hc ⊢
    exact (Makes.of_changed hc).then_cell_eq (cell_removeEmptyAll _ _)

theorem leaveScoped_makes (s : PgState Id) (scope group : String) (actors : List Id) :
    Makes s (leaveScopedChange s scope group actors).toList (s.leaveScoped scope group actors) := by
  unfold leaveScopedChange leaveScoped
  rcases leaveSection_cases s ⟨scope,group⟩ actors with ⟨hn,-⟩ | ⟨notified,hs,hc⟩
  · rw [hn]
    unfold leaveSection at hn ⊢
    split at hn
    · cases hn
    · split
      · contradiction
      · exact .of_cell_eq rfl
  · rw [hs]
    exact .of_changed hc

theorem leaveAllSection_makes (s : PgState Id) (actor : Id) (key : ScopeGroupKey) :
    Makes s ((s.leaveAllSection actor key).2.map fun _ =>
      .leave key.scope key.group [actor]).toList (s.leaveAllSection actor key).1 := by
  rcases leaveAllSection_cases s actor key with ⟨hn,-⟩ | ⟨notified,hs,hc⟩
  · rw [hn]
    unfold leaveAllSection at hn ⊢
    split at hn
    · cases hn
    · split
      · contradiction
      · exact .of_cell_eq rfl
  · rw [hs]
    exact .of_changed hc

theorem leaveAllSections_makes (actor : Id) (keys : List ScopeGroupKey) (s : PgState Id) :
    Makes s (leaveAllSectionChanges actor keys s)
      (keys.foldl (fun s key => (s.leaveAllSection actor key).1) s) := by
  induction keys generalizing s with
  | nil => exact .of_cell_eq rfl
  | cons key keys ih => exact (leaveAllSection_makes s actor key).trans (ih _)

theorem leaveAll_makes (s : PgState Id) (actor : Id)
    (order : Finset ScopeGroupKey → List ScopeGroupKey) :
    Makes s (s.leaveAllChanges actor order) (s.leaveAll actor order) := by
  unfold leaveAllChanges leaveAll
  cases s.getActorRelations actor with
  | none => exact .of_cell_eq rfl
  | some relations =>
    have ht : Makes s [] (s.updateRelations relations .takeMemberships) :=
      .of_cell_eq (cell_congr rfl)
    exact (ht.trans (leaveAllSections_makes actor _ _)).then_cell_eq cell_removeEmptyActorRelations

/-! ### Members -/

theorem mem_members_joinScoped {scope group : String} :
    actor∈(s.joinScoped status scope group actors).members key ↔
      key=⟨scope,group⟩ ∧ actor∈actors ∧ status actor ≤ .draining ∨ actor∈s.members key := by
  rw [(joinScoped_makes status s scope group actors).mem_members,joinScopedChange_eq]
  have hmem : actor∈actors.filter (status · ≤ .draining) ↔
      actor∈actors ∧ status actor ≤ .draining := by simp
  split
  next hnil =>
    have hnot : ¬(actor∈actors ∧ status actor ≤ .draining) := by
      rw [← hmem,hnil]
      exact not_mem_nil
    simp [lastWord,hnot]
  next =>
    by_cases ha : actor∈actors ∧ status actor ≤ .draining
    · by_cases hkey : (⟨scope,group⟩ : ScopeGroupKey)=key
      · simp [note,lastWord,ViewNote.word,hkey,ha]
      · simp [note,lastWord,ViewNote.word,hkey,ha,Ne.symm hkey]
    · have hn : (GroupChangeMessage.join scope group
          (actors.filter (status · ≤ .draining))).note actor=none:=if_neg (mt hmem.mp ha)
      simp [hn,lastWord,ha]

theorem mem_members_leaveScoped {scope group : String} :
    actor∈(s.leaveScoped scope group actors).members key ↔
      actor∈s.members key ∧ ¬(key=⟨scope,group⟩ ∧ actor∈actors) := by
  rw [(leaveScoped_makes s scope group actors).mem_members,leaveScopedChange]
  by_cases ho : s.occupied .group ⟨scope,group⟩=true
  · simp only [leaveSection,if_pos ho]
    by_cases ha : actor∈actors
    · by_cases hkey : (⟨scope,group⟩ : ScopeGroupKey)=key
      · simp [note,lastWord,ViewNote.word,hkey,ha]
      · simp [note,lastWord,ViewNote.word,hkey,ha,Ne.symm hkey]
    · simp [note,lastWord,ha]
  · have he : s.members ⟨scope,group⟩=∅ := by
      rw [members_eq]
      rw [occupied_eq,Bool.not_eq_true,Option.isSome_eq_false_iff,Option.isNone_iff_eq_none] at ho
      rw [ho]
      rfl
    simp only [leaveSection,if_neg ho]
    have himp : actor∈s.members key→¬(key=⟨scope,group⟩ ∧ actor∈actors) := by
      rintro hm ⟨rfl,-⟩
      rw [he] at hm
      exact absurd hm (Finset.notMem_empty _)
    simpa [lastWord] using himp

theorem actors_of_mem_leaveAllSectionChanges {keys : List ScopeGroupKey}
    (h : change∈leaveAllSectionChanges actor keys s) :
    ∃key : ScopeGroupKey,change=.leave key.scope key.group [actor] := by
  induction keys generalizing s with
  | nil => exact absurd h not_mem_nil
  | cons key keys ih =>
    rcases mem_append.mp h with h | h
    · obtain ⟨notified,-,heq⟩:=Option.map_eq_some_iff.mp (Option.mem_toList.mp h)
      exact ⟨key,heq.symm⟩
    · exact ih h

theorem actors_of_mem_leaveAllChanges {order : Finset ScopeGroupKey → List ScopeGroupKey}
    (h : change∈s.leaveAllChanges actor order) :
    ∃key : ScopeGroupKey,change=.leave key.scope key.group [actor] := by
  unfold leaveAllChanges at h
  split at h
  · exact absurd h not_mem_nil
  · exact actors_of_mem_leaveAllSectionChanges h

theorem mem_members_leaveAll_of_ne {other : Id} {order : Finset ScopeGroupKey → List ScopeGroupKey}
    (hne : other≠actor) :
    other∈(s.leaveAll actor order).members key ↔ other∈s.members key := by
  rw [(leaveAll_makes s actor order).mem_members]
  have hnil : (s.leaveAllChanges actor order).filterMap (·.note other)=[] := by
    rw [filterMap_eq_nil_iff]
    intro change hm
    obtain ⟨key,rfl⟩:=actors_of_mem_leaveAllChanges hm
    exact if_neg fun ho => hne (mem_singleton.mp ho)
  rw [hnil]
  rfl

/-! ### Listening -/

structure KeepsOthers (actor : Id) (s s' : PgState Id) : Prop where
  members : s'.members=s.members
  listeners : ∀table key other,other≠actor →
    (other∈s'.listeners table key ↔ other∈s.listeners table key)

namespace KeepsOthers

theorem of_cell_eq (h : s'.cell=s.cell) : KeepsOthers actor s s' := by
  have hs:=Makes.of_cell_eq h
  refine ⟨funext hs.members,fun table key other _ => ?_⟩
  rw [hs.listeners]

omit [DecidableEq Id] in
theorem trans (h : KeepsOthers actor s s') (h' : KeepsOthers actor s' s'') :
    KeepsOthers actor s s'' :=
  ⟨h'.members.trans h.members,fun table key other hne =>
    (h'.listeners table key other hne).trans (h.listeners table key other hne)⟩

theorem dropListener (s : PgState Id) (table : ListenerTable) (key : ScopeGroupKey) (actor : Id) :
    KeepsOthers actor s (s.dropListener table key actor) := by
  refine ⟨quiet_dropListener.members,fun table' key' other hne => ?_⟩
  rw [listeners_eq_cell,listeners_eq_cell,cell_dropListener]
  split
  next heq => simp [heq.1,heq.2,hne]
  next => rfl

theorem dropListeners (s : PgState Id) (table : ListenerTable) (keys : List ScopeGroupKey)
    (actor : Id) :
    KeepsOthers actor s (keys.foldl (fun s key => s.dropListener table key actor) s) := by
  induction keys generalizing s with
  | nil => exact .of_cell_eq rfl
  | cons key keys ih => exact (dropListener s table key actor).trans (ih _)

theorem demonitorAll (s : PgState Id) (actor : Id)
    (order : Finset ScopeGroupKey → List ScopeGroupKey) :
    KeepsOthers actor s (s.demonitorAll actor order) := by
  unfold PgState.demonitorAll
  cases s.getActorRelations actor with
  | none => exact .of_cell_eq rfl
  | some relations =>
    have ht : KeepsOthers actor s (s.updateRelations relations .takeMonitors) :=
      .of_cell_eq (cell_congr rfl)
    exact (ht.trans (dropListeners _ .group _ actor)).trans (dropListeners _ .world _ actor)

end KeepsOthers

theorem cell_monitorIn (hs : status actor ≤ .draining) (s : PgState Id)
    (table table' : ListenerTable) (key key' : ScopeGroupKey) :
    (s.monitorIn status table key actor).cell table' key'=if table'=table ∧ key'=key then
        {s.cell table key with listeners:=pushListener actor (s.cell table key).listeners}
      else s.cell table' key' := by
  have hnot : ¬ .stopping ≤ status actor:=fun hle => ActorStatus.not_le_draining.mpr hle hs
  have he : (s.getOrCreateActorRelations actor).2.entry=s.entry := by
    rcases s.getOrCreate_cases actor with ⟨relations,-,heq⟩ | ⟨-,heq⟩ <;> rw [heq]
    rfl
  simp only [monitorIn,if_pos hs,if_neg hnot]
  generalize s.getOrCreateActorRelations actor=result at he
  have ha : ((result.2.openEntry table key).addListener table key actor result.1).entry =
      ((result.2.openEntry table key).updateListeners table key (pushListener actor)).entry:=rfl
  rw [cell_congr ha,cell_updateListeners (.inl occupied_openEntry),cell_openEntry,cell_congr he]

theorem members_monitorIn (hs : status actor ≤ .draining) (s : PgState Id)
    (table : ListenerTable) (key : ScopeGroupKey) :
    (s.monitorIn status table key actor).members=s.members := by
  funext key'
  rw [members_eq_cell,cell_monitorIn hs]
  split
  next heq => rw [← heq.1,heq.2,members_eq_cell]
  next => rw [members_eq_cell]

theorem mem_listeners_monitorIn {other : Id} (hs : status actor ≤ .draining) (s : PgState Id)
    (table table' : ListenerTable) (key key' : ScopeGroupKey) :
    other∈(s.monitorIn status table key actor).listeners table' key' ↔
      other∈s.listeners table' key' ∨ other=actor ∧ table'=table ∧ key'=key := by
  rw [listeners_eq_cell,cell_monitorIn hs]
  split
  next heq => simp [mem_pushListener,heq.1,heq.2,listeners_eq_cell,or_comm]
  next hne => simp [hne,listeners_eq_cell]

end PgState
end Ractor
