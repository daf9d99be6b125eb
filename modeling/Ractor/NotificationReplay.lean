import Ractor.GroupNotifications

/-!
# Replaying group changes

A listener that applies the changes of a group in the order in which they arrive does not always end
up with the members of the group: changes are sent after the section that made them, and a later one
may overtake. It does when no change is sent to the listener before all earlier changes of the group
have been.
-/

namespace Ractor
open List Function
namespace GroupChangeMessage
variable {Id : Type} [DecidableEq Id]

theorem apply_apply (change : GroupChangeMessage Id) (members : Finset Id) :
    change.apply (change.apply members)=change.apply members := by
  cases change with
  | join => simp [apply,Finset.union_assoc]
  | leave => simp [apply]

theorem replay_append (key : ScopeGroupKey) (events : List (GroupChangeMessage Id))
    (change : GroupChangeMessage Id) : replay key (events++[change]) =
      if change.key=key then change.apply (replay key events) else replay key events := by
  unfold replay
  split
  next h => simp [h]
  next h => simp [h]

end GroupChangeMessage

namespace Notifications
open PgState GroupChangeMessage

variable {Thread Id : Type}

def places (key : ScopeGroupKey) : List (ListenerTable × ScopeGroupKey) :=
  (.group,key)::(worldKeys key.scope).map (.world,·)

variable (s : Notifications Thread Id)

def Registered (listener : Id) (place : ListenerTable × ScopeGroupKey) : Prop :=
  listener∈s.pg.listeners place.1 place.2

/-- The notice is still to be sent to the listener, as things are. -/
def Outstanding (listener : Id) (notice : Notice Id) : Prop :=
  listener∈notice.targets ∨ ∃world∈notice.worlds,listener∈s.pg.listeners .world world

def sending : GroupCall Id → Option (Notice Id)
  | .notify (notice::_) => some notice
  | _ => none

/-- A change of the group is sent to the listener when no earlier one is outstanding. -/
def InOrder (listener : Id) (key : ScopeGroupKey) : NotificationStep Thread Id → Prop
  | .begin _ _ => True
  | .resume thread _ =>
    ∀notice∈sending (s.calls thread),notice.change.key=key →
      notice.targets.head?=some listener → ∀thread',∀earlier∈(s.calls thread').notices,
        earlier.change.key=key → earlier.position<notice.position →
          ¬ s.Outstanding listener earlier

/-- The notice will reach the listener through its place. -/
def Owes (place : ListenerTable × ScopeGroupKey) (listener : Id) (notice : Notice Id) : Prop :=
  listener∈notice.targets ∨ place.1=.world ∧ place.2∈notice.worlds

variable {notice : Notice Id} {call : GroupCall Id}

theorem Owes.outstanding {s : Notifications Thread Id} {place : ListenerTable × ScopeGroupKey}
    {listener : Id} (h : Owes place listener notice) (hr : s.Registered listener place) :
    s.Outstanding listener notice := by
  rcases h with h | ⟨ht,hw⟩
  · exact .inl h
  · refine .inr ⟨place.2,hw,?_⟩
    rw [← ht]
    exact hr

variable [DecidableEq Id]

/-- The listener has received the first changes of the group, the last of them perhaps not for the
last time. All others are on their way. -/
structure Delivered (s : Notifications Thread Id) (listener : Id)
    (place : ListenerTable × ScopeGroupKey) (key : ScopeGroupKey) (received : ℕ) : Prop where
  bound : received≤(s.history key).length
  members : s.pg.members key=(s.history key).foldl apply ∅
  recorded : ∀thread,∀notice∈(s.calls thread).notices,notice.change.key=key →
    (s.history key)[notice.position]?=some notice.change
  replayed : replay key (s.ports listener)=((s.history key).take received).foldl apply ∅
  owed : ∀position,received≤position → position<(s.history key).length →
    ∃thread,∃notice∈(s.calls thread).notices,notice.change.key=key ∧
      notice.position=position ∧ Owes place listener notice
  settled : ∀thread,∀notice∈(s.calls thread).notices,notice.change.key=key →
    notice.position+1<received → ¬ s.Outstanding listener notice

variable {s} {s' : Notifications Thread Id} {listener : Id} {place : ListenerTable × ScopeGroupKey}
  {key : ScopeGroupKey} {received : ℕ} {thread : Thread}

theorem delivered_initial (h : s.Initial) : s.Delivered listener place key 0 := by
  refine ⟨Nat.zero_le _,?_,fun t => ?_,?_,?_,fun t => ?_⟩
  · rw [h.members,h.history]
    rfl
  · rw [h.calls]
    exact nofun
  · rw [h.ports]
    rfl
  · rw [h.history]
    exact nofun
  · rw [h.calls]
    exact nofun

variable [DecidableEq Thread]

omit [DecidableEq Id] in
theorem mem_notices_goto {t : Thread} :
    notice∈((s.goto thread call).calls t).notices ↔
      t=thread ∧ notice∈call.notices ∨ t≠thread ∧ notice∈(s.calls t).notices := by
  by_cases ht : t=thread
  · simp [goto,ht]
  · simp [goto,ht]

section
variable (h : s.Delivered listener place key received)
include h

theorem Delivered.quiet {pg : PgState Id} {status : Id → ActorStatus} (hpg : Quiet s.pg pg)
    (hno : call.notices=(s.calls thread).notices) :
    ({s with pg:=pg,status:=status}.goto thread call).Delivered listener place key
      received := by
  have hmem : ∀t notice,notice∈(({s with pg:=pg,status:=status}.goto thread
      call).calls t).notices ↔ notice∈(s.calls t).notices := by
    intro t notice
    rw [mem_notices_goto,hno]
    by_cases ht : t=thread <;> simp [ht]
  refine ⟨h.bound,?_,fun t notice hn => ?_,h.replayed,fun position hle hlt => ?_,
    fun t notice hn hkey hlt ho => ?_⟩
  · exact (congrFun hpg.members key).trans h.members
  · exact h.recorded t notice ((hmem t notice).mp hn)
  · obtain ⟨t,notice,hn,how⟩:=h.owed position hle hlt
    exact ⟨t,notice,(hmem t notice).mpr hn,how⟩
  · refine h.settled t notice ((hmem t notice).mp hn) hkey hlt ?_
    exact ho.imp_right fun ⟨world,hw,hl⟩ =>
      ⟨world,hw,hpg.listeners .world world hl⟩

/-- The change comes last in the history of its group. Its notice owes the listener, who is
registered while the section runs. -/
theorem Delivered.changed
    (hp : place∈places key) (hre : s.Registered listener place) {pg : PgState Id}
    {change : GroupChangeMessage Id} {notified : List Id} (hpg : Changed s.pg pg change notified)
    (hnot : call.notices=(s.calls thread).notices++[s.notice change notified]) :
    ((s.commit pg change).goto thread call).Delivered listener place key received := by
  have hmem : ∀t notice,notice∈(((s.commit pg change).goto thread call).calls t).notices ↔
      notice∈(s.calls t).notices ∨ t=thread ∧ notice=s.notice change notified := by
    intro t notice
    rw [mem_notices_goto,hnot,mem_append,mem_singleton]
    by_cases ht : t=thread <;> simp [ht,commit]
  have hh : (s.commit pg change).history key =
      s.history key++if key=change.key then [change] else [] := by
    by_cases hk : key=change.key <;> simp [commit,hk]
  refine ⟨?_,?_,fun t notice hn hno => ?_,?_,fun position hle hlt => ?_,
    fun t notice hn hkey hlt => ?_⟩
  · show received≤((s.commit pg change).history key).length
    rw [hh,length_append]
    exact h.bound.trans (Nat.le_add_right ..)
  · show pg.members key=((s.commit pg change).history key).foldl apply ∅
    rw [hh,foldl_append,← h.members,hpg.members]
    split <;> rfl
  · show ((s.commit pg change).history key)[notice.position]?=some notice.change
    rw [hh]
    rcases (hmem t notice).mp hn with hold | ⟨-,rfl⟩
    · have hr:=h.recorded t notice hold hno
      rw [List.getElem?_append_left (List.getElem?_eq_some_iff.mp hr).1,hr]
    · simp [notice,← hno]
  · show replay key (s.ports listener)=(((s.commit pg change).history key).take received).foldl
      apply ∅
    rw [hh,take_append_of_le_length h.bound]
    exact h.replayed
  · by_cases hold : position<(s.history key).length
    · obtain ⟨t,notice,hn,ho⟩:=h.owed position hle hold
      exact ⟨t,notice,(hmem t notice).mpr (.inl hn),ho⟩
    · replace hlt : position<((s.commit pg change).history key).length:=hlt
      rw [hh,length_append] at hlt
      have hkey : key=change.key := by
        by_contra hne
        rw [if_neg hne] at hlt
        exact hold hlt
      have hpos : (s.history key).length=position := by
        rw [if_pos hkey,length_singleton] at hlt
        omega
      refine ⟨thread,s.notice change notified,(hmem _ _).mpr (.inr ⟨rfl,rfl⟩),hkey.symm,
        by rw [notice,← hkey,hpos],?_⟩
      rcases mem_cons.mp hp with rfl | hw
      · refine .inl ?_
        rw [notice,hpg.notified,← hkey]
        exact hre
      · obtain ⟨world,hm,rfl⟩:=mem_map.mp hw
        refine .inr ⟨rfl,?_⟩
        rw [notice,← hkey]
        exact hm
  · have hsa : ((s.commit pg change).goto thread call).Outstanding listener notice ↔
        s.Outstanding listener notice := by
      simp only [Outstanding,goto,commit,hpg.listeners]
    rw [hsa]
    rcases (hmem t notice).mp hn with hold | ⟨-,rfl⟩
    · exact h.settled t notice hold hkey hlt
    · have hl : (s.history key).length+1<received:=hkey ▸ hlt
      exact absurd h.bound (by omega)

/-- The first notice of a thread has moved on, and more changes may have been received. -/
theorem Delivered.advance {received' : ℕ}
    {ports : Id → List (GroupChangeMessage Id)} {pending : List (Notice Id)}
    (hca : s.calls thread=.notify (notice::pending)) (rest : List (Notice Id))
    (hre : ∀notice'∈rest,notice'.change=notice.change ∧ notice'.position=notice.position ∧
      (s.Outstanding listener notice'→s.Outstanding listener notice))
    (howes : notice.change.key=key → received'≤notice.position→Owes place listener notice →
      ∃notice'∈rest,Owes place listener notice') (hle : received≤received')
    (hbo : received'≤(s.history key).length)
    (hr : replay key (ports listener)=((s.history key).take received').foldl apply ∅)
    (hs : ∀t,∀notice∈(s.calls t).notices,notice.change.key=key →
      notice.position+1<received'→¬ s.Outstanding listener notice) :
    ({s with ports:=ports}.goto thread (.notify (rest++pending))).Delivered listener place key
      received' := by
  have hmem : ∀t notice',notice'∈(({s with ports:=ports}.goto thread
      (.notify (rest++pending))).calls t).notices ↔
        t=thread ∧ notice'∈rest ∨ t=thread ∧ notice'∈pending ∨
          t≠thread ∧ notice'∈(s.calls t).notices := by
    intro t notice'
    rw [mem_notices_goto,GroupCall.notices,mem_append,and_or_left,or_assoc]
  -- Every notice was there before, though the first one perhaps in another shape.
  have hb : ∀t notice',notice'∈(({s with ports:=ports}.goto thread
      (.notify (rest++pending))).calls t).notices→∃old∈(s.calls t).notices,
        notice'.change=old.change ∧ notice'.position=old.position ∧
          (s.Outstanding listener notice'→s.Outstanding listener old) := by
    intro t notice' hn'
    rcases (hmem t notice').mp hn' with ⟨rfl,hin⟩ | ⟨rfl,hin⟩ | ⟨-,hin⟩
    · exact ⟨notice,by rw [hca]; exact mem_cons_self,hre notice' hin⟩
    · exact ⟨notice',by rw [hca]; exact mem_cons_of_mem _ hin,rfl,rfl,id⟩
    · exact ⟨notice',hin,rfl,rfl,id⟩
  refine ⟨hbo,h.members,fun t notice' hn' hkey => ?_,hr,
    fun position hp hlt => ?_,fun t notice' hn' hkey hlt ho => ?_⟩
  · obtain ⟨old,hold,hc,hp,-⟩:=hb t notice' hn'
    rw [hc] at hkey ⊢
    rw [hp]
    exact h.recorded t old hold hkey
  · obtain ⟨t,old,hold,hkey,rfl,how⟩:=h.owed position (hle.trans hp) hlt
    by_cases ht : t=thread
    · subst ht
      rw [hca] at hold
      rcases mem_cons.mp hold with rfl | hpe
      · obtain ⟨notice',hin,ho'⟩:=howes hkey hp how
        obtain ⟨hc,hsa,-⟩:=hre notice' hin
        exact ⟨t,notice',(hmem t notice').mpr (.inl ⟨rfl,hin⟩),by rw [hc,hkey],hsa,ho'⟩
      · exact ⟨t,old,(hmem t old).mpr (.inr (.inl ⟨rfl,hpe⟩)),hkey,rfl,how⟩
    · exact ⟨t,old,(hmem t old).mpr (.inr (.inr ⟨ht,hold⟩)),hkey,rfl,how⟩
  · obtain ⟨old,hold,hc,hp,hout⟩:=hb t notice' hn'
    exact hs t old hold (hc ▸ hkey) (hp ▸ hlt) (hout ho)

/-- A change that arrives is the next one or the last one once more. -/
theorem Delivered.send
    (hre : s.Registered listener place) {pending : List (Notice Id)} {target : Id}
    {targets : List Id} (hca : s.calls thread=.notify (notice::pending))
    (ht : notice.targets=target::targets)
    {order : Finset ScopeGroupKey → List ScopeGroupKey}
    (hor : s.InOrder listener key (.resume thread order)) :
    ∃received',((s.send target notice.change).goto thread
      (.notify ({notice with targets:=targets}::pending))).Delivered listener place key
        received' := by
  have hin : notice∈(s.calls thread).notices := by
    rw [hca]
    exact mem_cons_self
  have hrest : ∀notice'∈[{notice with targets:=targets}],notice'.change=notice.change ∧
      notice'.position=notice.position ∧
        (s.Outstanding listener notice'→s.Outstanding listener notice) := by
    simp only [mem_singleton,forall_eq,true_and]
    refine Or.imp_left fun hmem => ?_
    rw [ht]
    exact mem_cons_of_mem _ hmem
  by_cases ho : notice.change.key=key ∧ target=listener
  · obtain ⟨hkey,rfl⟩:=ho
    have hout : s.Outstanding target notice:=.inl (by rw [ht]; exact mem_cons_self)
    have hr:=h.recorded thread notice hin hkey
    obtain ⟨hl,hc⟩:=List.getElem?_eq_some_iff.mp hr
    have hea : ∀t,∀earlier∈(s.calls t).notices,earlier.change.key=key →
        earlier.position<notice.position→¬ s.Outstanding target earlier :=
      hor notice (by rw [hca]; rfl) hkey (by rw [ht]; rfl)
    have hrec : notice.position=received ∨ notice.position+1=received := by
      rcases Nat.lt_trichotomy received notice.position with hlt | heq | hgt
      · obtain ⟨t,earlier,hmem,he,hp,how⟩ := h.owed received (Nat.le_refl _) (hlt.trans hl)
        exact absurd (how.outstanding hre) (hea t earlier hmem he (hp ▸ hlt))
      · exact .inl heq.symm
      · refine .inr (Nat.le_antisymm hgt (not_lt.mp fun hlt => ?_))
        exact h.settled thread notice hin hkey hlt hout
    have hta : (s.history key).take (notice.position+1) =
        (s.history key).take notice.position++[notice.change] := by
      rw [take_add_one,hr]
      rfl
    refine ⟨notice.position+1,h.advance hca [{notice with targets:=targets}] hrest
      (fun _ hle => absurd hle (by omega)) (by omega) hl ?_ fun t earlier hmem he hlt =>
        hea t earlier hmem he (by omega)⟩
    rw [update_self,replay_append,if_pos hkey,h.replayed,hta,foldl_append]
    rcases hrec with rfl | rfl
    · rfl
    · rw [hta,foldl_append]
      exact apply_apply notice.change _
  · refine ⟨received,h.advance hca [{notice with targets:=targets}] hrest
      (fun hkey _ how => ⟨_,mem_singleton_self _,?_⟩) (Nat.le_refl _) h.bound ?_ h.settled⟩
    · refine how.imp_left fun hmem => ?_
      rw [ht] at hmem
      exact (mem_cons.mp hmem).resolve_left fun heq => ho ⟨hkey,heq.symm⟩
    · rw [← h.replayed]
      by_cases heq : listener=target
      · subst heq
        rw [update_self,replay_append,if_neg fun hkey => ho ⟨hkey,rfl⟩]
      · rw [update_of_ne heq]

theorem Delivered.step (hp : place∈places key)
    (hr : s.Registered listener place) {label : NotificationStep Thread Id}
    (ho : s.InOrder listener key label) (hs : s.Step label s') :
    ∃received',s'.Delivered listener place key received' := by
  cases label with
  | begin thread request =>
    simp only [Step,Notifications.step] at hs
    split at hs
    next hi =>
      cases hs
      refine ⟨received,h.quiet (.refl s.pg) ?_⟩
      rw [hi]
      cases request <;> rfl
    next => cases hs
  | resume thread order =>
    obtain ⟨result,hres,rfl⟩:=Option.map_eq_some_iff.mp hs
    have hre:=resume_resumed hres
    cases hre with
    | quiet pg status call hpg hn => exact ⟨received,h.quiet hpg hn⟩
    | changed pg change notified call hpg hn =>
      exact ⟨received,h.changed hp hr hpg hn⟩
    | sent notice target targets pending hc ht =>
      exact h.send hr hc ht ho
    | lookedUp notice world worlds pending hc ht hw =>
      refine ⟨received,h.advance hc
        [{notice with targets:=s.pg.listeners .world world,worlds:=worlds}] ?_
        (fun _ _ how => ⟨_,mem_singleton_self _,?_⟩) (Nat.le_refl _) h.bound h.replayed
        h.settled⟩
      · simp only [mem_singleton,forall_eq,true_and,Outstanding,ht,hw]
        exact fun hout => .inr (hout.elim (fun hmem => ⟨world,mem_cons_self,hmem⟩)
          fun ⟨world',hmem,hl⟩ => ⟨world',mem_cons_of_mem _ hmem,hl⟩)
      · rw [Owes,ht,hw] at how
        obtain ⟨hta,hmem⟩:=how.resolve_left not_mem_nil
        rcases mem_cons.mp hmem with rfl | hmem
        · exact .inl (hta ▸ hr)
        · exact .inr ⟨hta,hmem⟩
    | finished notice pending hc ht hw =>
      refine ⟨received,h.advance hc [] (fun _ hmem => nomatch hmem) (fun _ _ how => ?_)
        (Nat.le_refl _) h.bound h.replayed h.settled⟩
      rw [Owes,ht,hw] at how
      exact absurd (how.resolve_left not_mem_nil).2 not_mem_nil

end

/-! ### Replays -/

/-- The listener is registered before every step, and no change of the group overtakes another. -/
def ReplayedInOrder (listener : Id) (place : ListenerTable × ScopeGroupKey) (key : ScopeGroupKey)
    (s : Notifications Thread Id) (label : NotificationStep Thread Id) : Prop :=
  s.Registered listener place ∧ s.InOrder listener key label

theorem delivered_of_reachable (hp : place∈places key)
    (h : Reachable Initial (guarded (ReplayedInOrder listener place key) Step) s) :
    ∃received,s.Delivered listener place key received :=
  h.invariant (P:=fun s => ∃received,s.Delivered listener place key received)
    (fun _ hs => ⟨0,delivered_initial hs⟩)
    fun _ _ _ ⟨_,hd⟩ ⟨⟨hr,ho⟩,hs⟩ => hd.step hp hr ho hs

/-- A listener that hears of the changes of a group in their order knows its members when all calls
have finished. -/
theorem replay_eq_members (hplace : place∈places key)
    (h : Reachable Initial (guarded (ReplayedInOrder listener place key) Step) s)
    (hidle : ∀thread,s.calls thread=.idle) :
    replay key (s.ports listener)=s.pg.members key := by
  obtain ⟨received,hd⟩:=delivered_of_reachable hplace h
  have hall : received=(s.history key).length := by
    refine Nat.le_antisymm hd.bound (not_lt.mp fun hlt => ?_)
    obtain ⟨thread,notice,hmem,-⟩:=hd.owed received (Nat.le_refl _) hlt
    rw [hidle] at hmem
    exact absurd hmem not_mem_nil
  rw [hd.replayed,hd.members,hall,take_length]

instance : Decidable (s.Registered listener place):=inferInstanceAs (Decidable (_∈_))

instance {notice : Notice Id} : Decidable (s.Outstanding listener notice) :=
  inferInstanceAs (Decidable (_ ∨ ∃world∈notice.worlds,_))

instance [Fintype Thread] {label : NotificationStep Thread Id} :
    Decidable (s.InOrder listener key label) :=
  match label with
  | .begin _ _ => .isTrue trivial
  | .resume thread _ => inferInstanceAs (Decidable (∀notice∈sending (s.calls thread),_))

instance [Fintype Thread] {label : NotificationStep Thread Id} :
    Decidable (ReplayedInOrder listener place key s label):=inferInstanceAs (Decidable (_ ∧ _))

def monitored : Notifications Bool ℕ where
  pg:=({} : PgState ℕ).monitor (fun _ => .running) "workers" 0
  status:=fun _ => .running

theorem initial_monitored : monitored.Initial := by
  refine ⟨fun key => ?_,fun _ => rfl,fun _ => rfl,fun _ => rfl⟩
  have hmap : monitored.pg.map=((∅ : Finmap fun _ => GroupState ℕ).insert
      ⟨defaultScope,"workers"⟩ {}).insert ⟨defaultScope,"workers"⟩ {listeners:=[0]}:=rfl
  rw [members,hmap,lookup_insert_eq,lookup_insert_eq]
  split <;> rfl

def resumed (thread : Bool) (count : ℕ) : List (NotificationStep Bool ℕ) :=
  replicate count (.resume thread fun _ => [])

/-- A listener hears of two calls that run one after the other. -/
theorem replay_eq_members_serial : ∃s : Notifications Bool ℕ,
    Reachable Initial (guarded (ReplayedInOrder 0 (.group,⟨defaultScope,"workers"⟩)
      ⟨defaultScope,"workers"⟩) Step) s ∧ (∀thread,s.calls thread=.idle) ∧
    replay ⟨defaultScope,"workers"⟩ (s.ports 0)=s.pg.members ⟨defaultScope,"workers"⟩ ∧
    s.pg.members ⟨defaultScope,"workers"⟩={2} ∧ (s.ports 0).length=2 := by
  obtain ⟨s,hs,hidle,hmembers,hlength⟩ : ∃s,execute (fun s label =>
      if ReplayedInOrder 0 (.group,⟨defaultScope,"workers"⟩) ⟨defaultScope,"workers"⟩ s label then
        s.step label else none) monitored
      (.begin false (.joinScoped defaultScope "workers" [1,2])::resumed false 8 ++
        .begin true (.leaveScoped defaultScope "workers" [1])::resumed true 6)=some s ∧
      (∀thread,s.calls thread=.idle) ∧ s.pg.members ⟨defaultScope,"workers"⟩={2} ∧
      (s.ports 0).length=2:=⟨_,rfl,by decide,by decide,by decide⟩
  have hr:=Reachable.guarded_execute (fun _ _ _ h => h) _ (.start initial_monitored) hs
  exact ⟨s,hr,hidle,replay_eq_members mem_cons_self hr hidle,hmembers,hlength⟩

/-- An actor joins and leaves while the join has not been sent yet. The listener, who is registered
all the time, hears of the leave first and takes the actor for a member. -/
theorem leave_overtakes_join : ∃s : Notifications Bool ℕ,
    Reachable Initial (guarded (fun s _ => s.Registered 0 (.group,⟨defaultScope,"workers"⟩)) Step)
      s ∧
    (∀thread,s.calls thread=.idle) ∧ s.Registered 0 (.group,⟨defaultScope,"workers"⟩) ∧
    s.pg.members ⟨defaultScope,"workers"⟩=∅ ∧
    s.ports 0=[.leave defaultScope "workers" [1],.join defaultScope "workers" [1]] ∧
    replay ⟨defaultScope,"workers"⟩ (s.ports 0)={1} := by
  obtain ⟨s,hs,hidle,hregistered,hmembers,hports⟩ : ∃s,execute (fun s label =>
      if s.Registered 0 (.group,⟨defaultScope,"workers"⟩) then s.step label else none) monitored
      (.begin false (.joinScoped defaultScope "workers" [1])::resumed false 2 ++
        .begin true (.leaveScoped defaultScope "workers" [1])::resumed true 6 ++
        resumed false 6)=some s ∧
      (∀thread,s.calls thread=.idle) ∧ s.Registered 0 (.group,⟨defaultScope,"workers"⟩) ∧
      s.pg.members ⟨defaultScope,"workers"⟩=∅ ∧
      s.ports 0=[.leave defaultScope "workers" [1],.join defaultScope "workers" [1]] :=
    ⟨_,rfl,by decide,by decide,by decide,by decide⟩
  refine ⟨s,?_,hidle,hregistered,hmembers,hports,by rw [hports]; decide⟩
  exact Reachable.guarded_execute (fun _ _ _ h => h) _ (.start initial_monitored) hs

end Notifications
end Ractor
