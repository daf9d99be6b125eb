import Ractor.GroupRaceInvariants

/-!
# The steps of the calls

Every step of a call keeps what holds in every state. A step that changes an entry or relations has
their lock, or nobody has it.
-/

namespace Ractor
open Option List ActorStatus Function Finset JoinSection Seat ActorRelations

variable {found : Option ℕ} {f : ActorRelations → ActorRelations} {r : ℕ} {key : ScopeGroupKey}
  {table : ListenerTable}

namespace Races
open PgState

variable {Thread Id : Type} [DecidableEq Id] {other : Id} {s' : Races Thread Id}
  {tasks : List (CleanupTask Id)} {j : JoinSection Id} {m : Monitoring Id}

section Facts
variable {pg pg' : PgState Id} {actor : Id}

theorem Local.relationsOf {place : Option (ListenerTable × ScopeGroupKey)}
    (h : Local pg pg' place none) : pg'.relationsOf=pg.relationsOf := by
  funext actor
  rw [PgState.relationsOf,PgState.relationsOf,h.pointers]
  cases pg.actorRelations.lookup actor with
  | none => rfl
  | some r => exact h.heap r (by simp)

/-- A change through a pointer of the actor is not seen in the relations of others. -/
theorem relationsOf_updateFound_of_ne (ho : ∀r∈found,Owned pg actor r) (hne : other≠actor) :
    (pg.updateFound found f).relationsOf other=pg.relationsOf other := by
  cases found with
  | none => rfl
  | some r =>
    have hr : pg.actorRelations.lookup other≠some r:=fun heq =>
      hne ((ho r rfl).2 other heq)
    rw [PgState.relationsOf,PgState.relationsOf]
    cases hl : pg.actorRelations.lookup other with
    | none =>
      simp only [updateFound,updateRelations,hl]
      rfl
    | some r' =>
      simp only [updateFound,updateRelations,hl,elim_some]
      exact update_of_ne (fun heq => hr (by rw [hl,heq])) ..

/-- A change through a pointer that was found earlier is seen or not. -/
theorem relationsOf_updateFound_cases (pg : PgState Id) (actor : Id) (found : Option ℕ)
    (f : ActorRelations → ActorRelations) :
    (pg.updateFound found f).relationsOf actor=pg.relationsOf actor ∨
      (pg.updateFound found f).relationsOf actor=f (pg.relationsOf actor) := by
  cases found with
  | none => exact .inl rfl
  | some r =>
    rw [PgState.relationsOf,PgState.relationsOf]
    cases hl : pg.actorRelations.lookup actor with
    | none =>
      refine .inl ?_
      simp only [updateFound,updateRelations,hl]
      rfl
    | some r' =>
      simp only [updateFound,updateRelations,hl,elim_some]
      by_cases heq : r'=r
      · exact .inr (by rw [heq,update_self])
      · exact .inl (update_of_ne heq ..)

section

omit [DecidableEq Id]

theorem mem_members_updateMembers {f : Finset Id→Finset Id}
    (h : actor∈(pg.updateMembers key f).members key) : actor∈f (pg.members key) := by
  rw [members_eq,entry_updateMembers,if_pos ⟨rfl,rfl⟩] at h
  rw [members_eq]
  cases he : pg.entry .group key with
  | none =>
    rw [he] at h
    exact absurd h (notMem_empty actor)
  | some group =>
    rw [he] at h
    exact h

theorem listeners_updateMembers {f : Finset Id→Finset Id} :
    (pg.updateMembers key f).listeners=pg.listeners := by
  funext t k
  rw [listeners_eq,listeners_eq,entry_updateMembers]
  split
  next h =>
    rw [h.1,h.2]
    cases pg.entry .group key <;> rfl
  next => rfl

theorem mem_listeners_updateListeners {f : List Id → List Id}
    (h : actor∈(pg.updateListeners table key f).listeners table key) :
    actor∈f (pg.listeners table key) := by
  rw [listeners_eq,entry_updateListeners,if_pos ⟨rfl,rfl⟩] at h
  rw [listeners_eq]
  cases he : pg.entry table key with
  | none =>
    rw [he] at h
    exact absurd h not_mem_nil
  | some group =>
    rw [he] at h
    exact h

theorem members_updateListeners {f : List Id → List Id} :
    (pg.updateListeners table key f).members=pg.members := by
  funext k
  rw [members_eq,members_eq,entry_updateListeners]
  split
  next h =>
    rw [h.1,h.2]
    cases pg.entry table key <;> rfl
  next => rfl

end

theorem lookup_of_forgetRelations {r' : ℕ}
    (h : (pg.forgetRelations actor r).actorRelations.lookup other=some r') :
    pg.actorRelations.lookup other=some r' ∧ ¬(other=actor ∧ r'=r) := by
  rw [lookup_forgetRelations] at h
  split at h
  · cases h
  · next hnot => exact ⟨h,fun ⟨ho,hr⟩ => hnot ⟨ho,by rw [← ho,h,hr]⟩⟩

theorem pointed_forgetRelations (h : pg.Pointed) : (pg.forgetRelations actor r).Pointed := by
  refine ⟨fun a r' ha => ?_,fun a b r' ha hb => ?_⟩
  · rw [(pg.forgetRelations_rest actor r).2.2.1]
    exact h.below a r' (lookup_of_forgetRelations ha).1
  · exact h.distinct a b r' (lookup_of_forgetRelations ha).1 (lookup_of_forgetRelations hb).1

theorem relationsOf_forgetRelations (h : pg.actorRelations.lookup actor=some r→(pg.heap r).Empty) :
    (pg.forgetRelations actor r).relationsOf=pg.relationsOf := by
  funext other
  rw [relationsOf,lookup_forgetRelations,(pg.forgetRelations_rest actor r).2.1]
  split
  next hf =>
    rw [hf.1,relationsOf_of_lookup hf.2,eq_default_of_empty (h hf.2)]
    rfl
  next => rfl

theorem entry_closeEntry_ne : (pg.closeEntry table key).entry table key≠some {} := by
  rw [entry_closeEntry]
  split
  · exact nofun
  · next h => exact fun heq => h ⟨rfl,rfl,heq⟩

theorem entry_leaveMembers_ne : (pg.leaveMembers key).entry .group key≠some {} := by
  unfold leaveMembers
  split
  · exact entry_closeEntry_ne
  · next h =>
    refine fun heq => h ?_
    rw [members_eq,heq]
    rfl

theorem entry_joinMembers_ne {joined : List Id} (hne : joined≠[]) :
    (pg.joinMembers key joined).entry .group key≠some {} := by
  rw [entry_joinMembers,entry_updateMembers,if_pos ⟨rfl,rfl⟩]
  intro heq
  obtain ⟨group,-,hg⟩:=map_eq_some_iff.mp heq
  have hm : group.members ∪ joined.toFinset=∅:=congrArg GroupState.members hg
  exact hne (toFinset_eq_empty_iff joined |>.mp (union_eq_empty.mp hm).2)

theorem entry_demonitorSection_ne :
    (pg.demonitorSection table key actor found).entry table key≠some {} := by
  unfold demonitorSection
  simp only
  split
  · exact entry_closeEntry_ne
  · next h =>
    rw [occupied_eq,not_isSome_iff_eq_none] at h
    rw [h]
    exact nofun

theorem entry_addListener_ne : (pg.addListener table key actor r).entry table key≠some {} := by
  have he : (pg.addListener table key actor r).entry =
      (pg.updateListeners table key (pushListener actor)).entry:=rfl
  rw [he,entry_updateListeners,if_pos ⟨rfl,rfl⟩]
  intro heq
  obtain ⟨group,-,hg⟩:=map_eq_some_iff.mp heq
  have hl : pushListener actor group.listeners=[] :=
    congrArg GroupState.listeners hg
  exact not_mem_nil (hl ▸ mem_pushListener.mpr (.inl rfl) :
    actor∈([] : List Id))

end Facts

section Steps
variable {s : Races Thread Id} {thread : Thread} {pg : PgState Id} {before call : RacingCall Id}
  {shutdown : Shutdown} {actor : Id}

/-- The cleanup of an actor whose relations are not empty has not got to them yet. -/
theorem ShutdownOk.cleans (h : s.ShutdownOk actor shutdown)
    (hl : s.pg.actorRelations.lookup actor=some r) (hne : ¬ (s.pg.heap r).Empty) :
    shutdown.Cleans r := by
  have hr:=relationsOf_of_lookup hl
  cases shutdown with
  | notStarted | demonitorAll | takeMonitors | demonitoring | leaveAll => trivial
  | takeMemberships taken =>
    rcases h.1.2 with ht | he
    · exact some.inj (ht.symm.trans hl)
    · exact absurd (hr ▸ he) hne
  | leavingAll | removeEmpty | forget | done => exact absurd (hr ▸ h) hne

/-- Forgetting the pointer of an actor that is stopping disturbs nobody who has not locked it. -/
theorem rely_forgetRelations (hpg : s'.pg=s.pg.forgetRelations actor r)
    (hs : s'.status=s.status) (hst : .stopping ≤ s.status actor)
    (hem : s.pg.actorRelations.lookup actor=some r→(s.pg.heap r).Empty)
    (hhe : call.relations≠some r)
    (hfr : ∀a seat,(s.shutdowns a).Frees seat→(s'.shutdowns a).Frees seat)
    (hea : ∀a r,(s.shutdowns a).Early r→(s'.shutdowns a).Early r) : Rely s s' call := by
  obtain ⟨hen,hh,hn,-⟩:=s.pg.forgetRelations_rest actor r
  rw [← hpg] at hen hh hn
  refine ⟨fun _ => (congrFun hs _).ge,hn.ge,fun a r' _ hl => ?_,fun a r' hl => ?_,
    fun _ _ he => by rwa [hh],fun _ _ _ => by rw [hen],fun a seat _ hk => ?_,
    fun a r _ _ => hea a r⟩
  · rw [hpg] at hl
    exact (lookup_of_forgetRelations hl).1
  · by_cases hf : a=actor ∧ s.pg.actorRelations.lookup actor=some r
    · obtain ⟨rfl,hown⟩:=hf
      obtain rfl:=some.inj (hown.symm.trans hl)
      exact .inr ⟨hs ▸ hst,hhe⟩
    · rw [hpg,lookup_forgetRelations,if_neg hf]
      exact .inl hl
  · rw [Known,hpg,relationsOf_forgetRelations hem]
    exact hk.imp_right (hfr a seat)

theorem ShutdownOk.forgetRelations (h : s.ShutdownOk other shutdown)
    (hpg : s'.pg=s.pg.forgetRelations actor r)
    (he : s.pg.actorRelations.lookup actor=some r→(s.pg.heap r).Empty) :
    s'.ShutdownOk other shutdown := by
  have hs : s'.pg.relationsOf=s.pg.relationsOf := by
    rw [hpg,relationsOf_forgetRelations he]
  refine h.shrink (fun r' ho => ⟨?_,fun b hb => ?_⟩) (fun r' hl => ?_)
    fun _ => congrFun hs other ▸ id
  · rw [hpg,(s.pg.forgetRelations_rest actor r).2.2.1]
    exact ho.1
  · rw [hpg] at hb
    exact ho.2 b (lookup_of_forgetRelations hb).1
  · by_cases hf : other=actor ∧ s.pg.actorRelations.lookup actor=some r
    · refine .inr ?_
      rw [hs,hf.1,relationsOf_of_lookup hf.2]
      exact he hf.2
    · refine .inl ?_
      rwa [hpg,lookup_forgetRelations,if_neg hf]

theorem Known.inserting {a : Id} {seat : Seat} (h : s.Known a seat)
    (hs : s'.shutdowns=s.shutdowns) (hr : ∀other,s'.pg.relationsOf other =
      if other=actor then f (s.pg.relationsOf actor) else s.pg.relationsOf other)
    (hf : ∀r,seat.Noted r→seat.Noted (f r)) : s'.Known a seat := by
  rw [Known,hs,hr]
  refine h.imp_left fun hn => ?_
  split
  next ha => exact hf _ (ha ▸ hn)
  next => exact hn

/-- Nobody else loses a seat, and the actor loses no other seats. -/
theorem Known.updateFound {a : Id} {seat : Seat} (h : s.Known a seat)
    (hs : s'.shutdowns=s.shutdowns)
    (hr : s'.pg.relationsOf=(s.pg.updateFound found f).relationsOf)
    (ho : ∀r∈found,Owned s.pg actor r)
    (hk : a≠actor ∨ ∀r,seat.Noted r→seat.Noted (f r)) : s'.Known a seat := by
  rw [Known,hs,hr]
  refine h.imp_left fun hn => ?_
  rcases hk with hne | hf
  · rwa [relationsOf_updateFound_of_ne ho hne]
  · rcases relationsOf_updateFound_cases s.pg a found f with heq | heq
    · rwa [heq]
    · exact heq ▸ hf _ hn

theorem sweep_mem_tasks : .sweep actor r∈j.tasks ↔ (actor,r)∈j.progress.stopped := by
  unfold tasks
  split <;> simp

variable (h : s.Inv)
include h

theorem Inv.owned_of_lookup (hl : s.pg.actorRelations.lookup actor=some r) : Owned s.pg actor r :=
  ⟨h.pointed.below actor r hl,fun other ho => h.pointed.distinct other actor r ho hl⟩

/-- While an actor that is not stopping is looked at, its pointer is known. -/
theorem Inv.inserting (hf : s.Found actor r) (hst : s.status actor ≤ .draining) :
    s.Inserting actor r := by
  have hnot : ¬ .stopping ≤ s.status actor:=fun hle => not_le_draining.mpr hle hst
  refine ⟨hf.resolve_right hnot,?_⟩
  have hs : s.shutdowns actor=.notStarted:=not_ne_iff.mp fun hne =>
    hnot ((h.started actor).mpr hne)
  rw [hs]
  trivial

/-! ### Pointers -/

theorem rely_getOrCreate (actor : Id)
    (hpg : s'.pg=(s.pg.getOrCreateActorRelations actor).2) (hst : s'.status=s.status)
    (hs : s'.shutdowns=s.shutdowns) : Rely s s' call := by
  obtain ⟨-,-,hre,hen,-,ho⟩:=getOrCreate_spec h.pointed actor
  rw [← hpg] at hre hen ho
  have hk : ∀a seat,s.Known a seat→s'.Known a seat:=fun a seat hk => by
    rwa [Known,hre,hs]
  rcases s.pg.getOrCreate_cases actor with ⟨r,-,heq⟩ | ⟨hn,heq⟩
  · have hsa : s'.pg=s.pg := by rw [hpg,heq]
    exact ⟨fun _ => (congrFun hst _).ge,by rw [hsa],fun _ _ _ hl => by rwa [hsa] at hl,
      fun _ _ hl => .inl (by rwa [hsa]),fun _ _ he => by rwa [hsa],fun _ _ _ => by rw [hsa],
      fun a seat _ => hk a seat,fun _ _ _ _ he => by rwa [hs]⟩
  · rw [heq] at hpg
    refine ⟨fun _ => (congrFun hst _).ge,by rw [hpg]; exact Nat.le_succ _,fun a r hlt hl => ?_,
      fun a r hl => .inl ?_,fun r _ he => ?_,fun _ _ _ => by rw [hen],
      fun a seat _ => hk a seat,fun _ _ _ _ he => by rwa [hs]⟩
    · by_cases ha : a=actor
      · subst ha
        rw [hpg,Finmap.lookup_insert] at hl
        exact absurd (some.inj hl) hlt.ne'
      · rwa [ho a ha] at hl
    · have ha : a≠actor:=fun heq => by
        rw [heq,hn] at hl
        cases hl
      rwa [ho a ha]
    · rw [hpg]
      by_cases hr : r=s.pg.next
      · rw [hr]
        simp only [update_self]
        exact empty_default
      · simpa only [update_of_ne hr] using he

/-- The relations of the actor gain something that its cleanup will take. -/
theorem Inv.shutdowns_inserting (hi : s.Inserting actor r)
    (hp : s'.pg.actorRelations=s.pg.actorRelations) (hne : s'.pg.next=s.pg.next)
    (hr : ∀other,s'.pg.relationsOf other =
      if other=actor then f (s.pg.relationsOf actor) else s.pg.relationsOf other) (other : Id) :
    s'.ShutdownOk other (s.shutdowns other) := by
  by_cases ha : other=actor
  · subst ha
    exact (h.shutdowns other).early hi.2 (fun ho => ⟨hne.symm ▸ ho.1,fun b hb => ho.2 b (hp ▸ hb)⟩)
      (hp.symm ▸ hi.1)
  · refine (h.shutdowns other).lose hp hne fun seat hn => ?_
    rwa [hr,if_neg ha] at hn

/-- The relations of the actor lose at most, through a pointer that was found earlier. -/
theorem Inv.shutdowns_updateFound
    (hp : s'.pg.actorRelations=s.pg.actorRelations) (hne : s'.pg.next=s.pg.next)
    (hr : s'.pg.relationsOf=(s.pg.updateFound found f).relationsOf)
    (hf : ∀r (seat : Seat),seat.Noted (f r)→seat.Noted r) (other : Id) :
    s'.ShutdownOk other (s.shutdowns other) := by
  refine (h.shutdowns other).lose hp hne fun seat hn => ?_
  rw [hr] at hn
  rcases relationsOf_updateFound_cases s.pg other found f with heq | heq
  · rwa [heq] at hn
  · rw [heq] at hn
    exact hf _ seat hn

variable [DecidableEq Thread]

/-- A thread that stands at `before` keeps what holds in every state. -/
def Steps (s : Races Thread Id) (before : RacingCall Id) : Prop :=
  ∀thread result,s.calls thread=before → s.resume before=some result →
    (s.goto thread result.1 result.2).Inv

theorem Inv.goto_section (hb : s.calls thread=before)
    {lock : ListenerTable × ScopeGroupKey} (hlo : Local s.pg pg (some lock) none)
    (hlock : before.entry=some lock ∨ s.entryOwner lock=none)
    (hloc : s.Has before call.entry call.relations)
    (hc : (s.goto thread pg call).CallOk call)
    (hk : ∀actor seat,some lock=some seat.lock→seat.Taken pg actor→s.Known actor seat)
    (hp : s.Passes before call)
    (hpl : pg.entry lock.1 lock.2=some {}→call.Minds s.status lock.1 lock.2)
    (he : ∀table key,some lock≠some (table,key)→s.pg.entry table key=some {} →
      before.Minds s.status table key→call.Minds s.status table key) :
    (s.goto thread pg call).Inv := by
  have hs : pg.relationsOf=s.pg.relationsOf:=hlo.relationsOf
  refine h.goto_local hb hlo ⟨fun l hl => (some.inj hl) ▸ hlock,nofun⟩ hloc hc
    (fun actor => ?_) (fun actor seat hse ht => ?_) hp (fun table key hl => ?_) he
  · exact (h.shutdowns actor).lose hlo.pointers hlo.next fun _ => congrFun hs actor ▸ id
  · exact (hk actor seat hse ht).imp_left fun hn => (congrFun hs actor).symm ▸ hn
  · obtain rfl:=some.inj hl
    exact hpl

/-- A step that looks up the relations of an actor and makes a pointer if there is none. -/
theorem Inv.goto_getOrCreate (hb : s.calls thread=before) (actor : Id)
    (hen : call.entry=before.entry) (hr : call.relations=none)
    (hc : ∀s',Rely s s' call →
      s'.Found actor (s.pg.getOrCreateActorRelations actor).1→s'.CallOk call)
    (htra : call.Tracks actor (s.pg.getOrCreateActorRelations actor).1)
    (ht : ∀a r,before.Tracks a r→call.Tracks a r)
    (hm : ∀table key,before.Minds s.status table key→call.Minds s.status table key) :
    (s.goto thread (s.pg.getOrCreateActorRelations actor).2 call).Inv := by
  obtain ⟨hlo,hp,hs,he,-,ho⟩:=getOrCreate_spec h.pointed actor
  have hre : ∀c,Rely s (s.goto thread (s.pg.getOrCreateActorRelations actor).2 call) c :=
    fun c => rely_getOrCreate h actor rfl rfl rfl
  refine h.goto hb ⟨fun lock hl => .inl (hen ▸ hl),fun lock hl => ?_⟩ hp
    (fun t _ => hre (s.calls t)) (hc _ (hre call) (.inl hlo)) (fun a => ?_)
    (fun a seat hta => ?_) (fun a r _ hl => ?_) fun table key hem => ?_
  · rw [hr] at hl
    cases hl
  · refine (h.shutdowns a).shrink (fun r => (hre call).owned) (fun r hl => .inl ?_)
      fun _ => congrFun hs a ▸ id
    by_cases ha : a=actor
    · subst ha
      have hso : (s.pg.getOrCreateActorRelations a).1=r := by
        simp only [getOrCreateActorRelations,hl]
      exact hso ▸ hlo
    · exact (ho a ha).trans hl
  · exact (h.known a seat (seat.taken_of_cell (cell_congr he) hta)).imp_left
      fun hn => (congrFun hs a).symm ▸ hn
  · by_cases ha : a=actor
    · subst ha
      obtain rfl:=some.inj (hlo.symm.trans hl)
      exact .inl htra
    · by_cases htr : before.Tracks a r
      · exact .inl (ht a r htr)
      · exact .inr (.inr ⟨(ho a ha).symm.trans hl,htr⟩)
  · rw [he] at hem
    by_cases hmi : before.Minds s.status table key
    · exact .inl (hm table key hmi)
    · exact .inr ⟨hem,hmi⟩

theorem Inv.forget : s.Steps (.forget actor r tasks) := by
  rintro thread _ hb ⟨⟩
  obtain ⟨⟨hs,he⟩,hta⟩:=h.callOk hb
  have hen:=(s.pg.forgetRelations_rest actor r).1
  have hsa : (s.pg.forgetRelations actor r).relationsOf=s.pg.relationsOf :=
    relationsOf_forgetRelations fun _ => he
  refine h.goto hb ⟨nofun,nofun⟩ (pointed_forgetRelations h.pointed) (fun t ht => ?_) hta
    (fun a => ?_) (fun a seat htak => ?_) (fun a r' _ hl => ?_) fun table key hv => ?_
  · refine rely_forgetRelations rfl rfl hs (fun _ => he) (h.relations_ne ht (.inl ?_))
      (fun _ _ => id) fun _ _ => id
    rw [hb]
    rfl
  · exact (h.shutdowns a).forgetRelations rfl fun _ => he
  · exact (h.known a seat (seat.taken_of_cell (cell_congr hen) htak)).imp_left
      fun hn => (congrFun hsa a).symm ▸ hn
  · obtain ⟨hl,hnot⟩:=lookup_of_forgetRelations hl
    by_cases htr : (RacingCall.forget actor r tasks).Tracks a r'
    · exact .inl (htr.resolve_left hnot)
    · exact .inr (.inr ⟨hl,htr⟩)
  · rw [hen] at hv
    by_cases hm : .close table key∈tasks
    · exact .inl hm
    · exact .inr ⟨hv,hm⟩

/-- A step from outside of all sections to outside of all sections. -/
theorem Inv.goto_outside (hb : s.calls thread=before)
    (he : call.entry=none) (hr : call.relations=none) (hc : s.CallOk call)
    (ht : ∀actor r,¬ before.Tracks actor r)
    (hm : ∀table key,¬ before.Minds s.status table key) : (s.goto thread s.pg call).Inv := by
  refine h.goto_same hb ⟨fun lock hl => ?_,fun lock hl => ?_⟩ hc
    (fun actor r _ _ htr => absurd htr (ht actor r))
    fun table key _ hmi => absurd hmi (hm table key)
  · rw [he] at hl
    cases hl
  · rw [hr] at hl
    cases hl

/-! ### Joining -/

theorem Inv.joinFilter {kept : List Id} :
    ∀todo,s.Steps (.joinFilter key todo kept)
  | [] => by
    rintro thread _ hb ⟨⟩
    simp only
    split <;> exact h.goto_outside hb rfl rfl trivial (fun _ _ => id) fun _ _ => nofun
  | actor::todo => by
    rintro thread _ hb ⟨⟩
    exact h.goto_outside hb rfl rfl trivial (fun _ _ => id) fun _ _ => nofun

theorem Inv.joinLock {actors : List Id} : s.Steps (.joinLock key actors) := by
  intro thread _ hb hs
  obtain ⟨hf,⟨⟩⟩:=ite_none_right_eq_some.mp hs
  simp only
  exact h.goto_section hb local_openEntry (.inr hf)
    ⟨fun _ hl => .inr (some.inj hl ▸ hf),nofun⟩ ⟨nofun,nofun⟩
    (fun a seat _ ht => h.known a seat (seat.taken_of_cell cell_openEntry ht))
    (fun _ _ _ _ => False.elim) (fun _ => rfl) fun _ _ _ _ => nofun

theorem Inv.joinMembers (hb : s.calls thread=.joinNext j) :
    (s.goto thread (s.pg.joinMembers j.key j.joined) (.cleanup j.tasks)).Inv := by
  have hok : s.JoinOk j:=h.callOk hb
  refine h.goto_section hb local_joinMembers (.inl rfl) ⟨nofun,nofun⟩ (fun a r hmem => ?_)
    (fun a seat hl ht => ?_) (fun a r _ _ htr => .inl (sweep_mem_tasks.mpr htr))
    (fun hv => ?_) fun table k hne _ hm => absurd hm hne
  · exact hok.stopped (a,r) (sweep_mem_tasks.mp hmem)
  · cases seat with
    | member k =>
      cases hl
      rw [Taken,members_congr entry_joinMembers] at ht
      have hnew:=mem_members_updateMembers ht
      rcases mem_union.mp hnew with hold | hj
      · exact h.known a (.member j.key) hold
      · rw [List.mem_toFinset,JoinSection.joined,List.mem_filter] at hj
        exact hok.accepted a (of_decide_eq_true hj.2)
    | listener t k =>
      rw [Taken,listeners_congr entry_joinMembers,listeners_updateMembers] at ht
      exact h.known a (.listener t k) ht
  · by_cases hj : j.joined=[]
    · simp [RacingCall.Minds,tasks,hj]
    · exact absurd hv (entry_joinMembers_ne hj)

theorem Inv.joinNext : s.Steps (.joinNext j) := by
  intro thread _ hb hs
  have hok : s.JoinOk j:=h.callOk hb
  simp only [Races.resume] at hs
  split at hs
  next =>
    cases hs
    exact h.joinMembers hb
  next actor todo ht =>
    split at hs <;> cases hs
    next =>
      exact h.goto_same hb ⟨fun _ => .inl,nofun⟩ ⟨hok.accepted,hok.stopped⟩
        (fun _ _ _ _ => .inl) fun _ _ _ => id
    next =>
      refine h.goto_getOrCreate hb actor rfl rfl (fun s' hr hf => ⟨?_,hf⟩)
        (.inl ⟨rfl,rfl⟩) (fun a r htr => .inr htr) fun _ _ => id
      exact ⟨fun a ha => hr.known a (.member j.key) rfl (hok.accepted a ha),
        fun p hp => hr.stopping (hok.stopped p hp)⟩

theorem Inv.joinRead : s.Steps (.joinRead j actor r) := by
  rintro thread _ hb ⟨⟩
  obtain ⟨hj,hf⟩:=h.callOk hb
  simp only
  split
  next hs =>
    refine h.goto_same hb ⟨fun _ => .inl,fun _ => .inl⟩ ⟨hj,h.inserting hf hs⟩
      (fun a r' hst _ htr => .inl (htr.resolve_left fun heq => ?_)) fun _ _ _ => id
    exact not_le_draining.mpr (heq.1 ▸ hst) hs
  next hs =>
    exact h.goto_same hb ⟨fun _ => .inl,fun _ => .inl⟩
      ⟨hj,not_le_draining.mp hs⟩ (fun _ _ _ _ => .inl) fun _ _ _ => id

theorem Inv.joinRefuse : s.Steps (.joinRefuse j actor r) := by
  rintro thread _ hb ⟨⟩
  obtain ⟨hj,hs⟩:=h.callOk hb
  refine h.goto_same hb ⟨fun _ => .inl,nofun⟩ ⟨hj.accepted,fun p hp => ?_⟩
    (fun a r' hst hl htr => ?_) fun _ _ _ => id
  · simp only at hp
    split at hp
    · rcases mem_append.mp hp with hold | hnew
      · exact hj.stopped p hold
      · rw [List.mem_singleton.mp hnew]
        exact hs
    · exact hj.stopped p hp
  · simp only [RacingCall.Tracks] at htr ⊢
    split
    next => exact .inl (mem_append.mpr (htr.symm.imp_right fun heq => by simp [heq]))
    next hne =>
      rcases htr with ⟨rfl,rfl⟩ | hold
      · exact .inr ((h.shutdowns a).cleans hl hne)
      · exact .inl hold

theorem Inv.joinAccept : s.Steps (.joinAccept j actor r) := by
  rintro thread _ hb ⟨⟩
  obtain ⟨hj,hi⟩:=h.callOk hb
  have hr:=relationsOf_updateRelations h.pointed (.addMembership j.key) hi.1
  have hlo : Local s.pg (s.pg.updateRelations r (.addMembership j.key)) none (some r) :=
    local_updateRelations fun _ _ _ => noted_addMembership
  refine h.goto_local hb hlo ⟨nofun,fun lock hl => .inl (some.inj hl ▸ rfl)⟩
    ⟨fun _ => .inl,nofun⟩ ⟨fun a ha => ?_,hj.stopped⟩
    (h.shutdowns_inserting hi hlo.pointers hlo.next hr) nofun
    (fun _ _ _ _ => .inl) nofun fun _ _ _ _ => id
  rcases List.mem_cons.mp ha with rfl | hold
  · refine .inl ?_
    show j.key∈((s.pg.updateRelations r (.addMembership j.key)).relationsOf a).memberships
    rw [hr,if_pos rfl]
    exact mem_insert_self ..
  · exact (hj.accepted a hold).inserting rfl hr fun _ => noted_addMembership

/-! ### Leaving -/

theorem Inv.leaveLock {actors : List Id} : s.Steps (.leaveLock key actors) := by
  intro thread _ hb hs
  obtain ⟨hf,⟨⟩⟩:=ite_none_right_eq_some.mp hs
  simp only
  split
  · exact h.goto_same hb ⟨fun lock hl => .inr (some.inj hl ▸ hf),nofun⟩ trivial
      (fun _ _ _ _ => False.elim) fun _ _ _ => nofun
  · exact h.goto_outside hb rfl rfl trivial (fun _ _ => id) fun _ _ => nofun

theorem Inv.leaveRemove {todo : List Id} : s.Steps (.leaveRemove key todo actor found) := by
  intro thread _ hb hs
  obtain ⟨hf,⟨⟩⟩:=ite_none_right_eq_some.mp hs
  have ho : ∀r∈found,Owned s.pg actor r:=h.callOk hb
  have hlo : Local s.pg ((s.pg.updateFound found (.removeMembership key)).updateMembers key
    (·.erase actor)) (some (.group,key)) found:=local_leaveActor
  have hr : ((s.pg.updateFound found (.removeMembership key)).updateMembers key
      (·.erase actor)).relationsOf=(s.pg.updateFound found (.removeMembership key)).relationsOf :=
    sameRelations_updateMembers.relationsOf
  have he:=(s.pg.updateFound_rest found (.removeMembership key)).1
  refine h.goto_local hb hlo ⟨fun lock hl => .inl hl,fun lock hl => .inr (hf lock hl)⟩
    ⟨fun _ => .inl,by rintro _ ⟨⟩⟩ trivial
    (h.shutdowns_updateFound hlo.pointers hlo.next hr fun r seat => noted_of_removeMembership)
    (fun a seat hlock ht => ?_) (fun _ _ _ _ => False.elim) (fun _ _ hl _ => hl)
    fun _ _ hne _ hm => absurd hm hne
  cases seat with
  | member k =>
    cases hlock
    have hnew:=mem_members_updateMembers ht
    rw [members_congr he,mem_erase] at hnew
    exact (h.known a (.member key) hnew.2).updateFound rfl hr ho (.inl hnew.1)
  | listener t k =>
    rw [Taken,listeners_updateMembers,listeners_congr he] at ht
    exact (h.known a (.listener t k) ht).updateFound rfl hr ho
      (.inr fun _ => noted_removeMembership (by simp))

theorem Inv.leaveNext : ∀todo,s.Steps (.leaveNext key todo)
  | [] => by
    rintro thread _ hb ⟨⟩
    exact h.goto_section hb local_leaveMembers (.inl rfl) ⟨nofun,nofun⟩ trivial
      (fun a seat _ ht => h.known a seat (seat.taken_of_cell cell_leaveMembers ht))
      (fun _ _ _ _ => False.elim) (fun hv => absurd hv entry_leaveMembers_ne)
      fun _ _ hne _ hm => absurd hm hne
  | actor::todo => by
    rintro thread _ hb ⟨⟩
    exact h.goto_same hb ⟨fun _ => .inl,nofun⟩ (fun r hr => h.owned_of_lookup hr)
      (fun _ _ _ _ => False.elim) fun _ _ _ => id

/-! ### Monitoring -/

theorem Inv.monitorGet : s.Steps (.monitorGet table key actor) := by
  rintro thread _ hb ⟨⟩
  exact h.goto_getOrCreate hb actor rfl rfl (fun _ _ hf => hf) ⟨rfl,rfl⟩
    (fun _ _ => False.elim) fun _ _ => nofun

theorem Inv.monitorLock : s.Steps (.monitorLock m) := by
  intro thread _ hb hs
  obtain ⟨hf,⟨⟩⟩:=ite_none_right_eq_some.mp hs
  have hok : s.Found m.actor m.relations:=h.callOk hb
  have hlo : Local s.pg (s.pg.openEntry m.table m.key) (some (m.table,m.key)) none :=
    local_openEntry
  exact h.goto_section hb hlo (.inr hf) ⟨fun lock hl => .inr (some.inj hl ▸ hf),nofun⟩
    (hok.imp_left fun hl => hlo.pointers.symm ▸ hl)
    (fun a seat _ ht => h.known a seat (seat.taken_of_cell cell_openEntry ht))
    (fun _ _ _ _ => .inl) (fun _ => rfl) fun _ _ _ _ => nofun

theorem Inv.monitorRead : s.Steps (.monitorRead m) := by
  rintro thread _ hb ⟨⟩
  have hok : s.Found m.actor m.relations:=h.callOk hb
  simp only
  split
  next hs =>
    exact h.goto_same hb ⟨fun _ => .inl,fun _ => .inl⟩ (h.inserting hok hs)
      (fun _ _ _ _ => .inl) fun _ _ _ => id
  next hs =>
    exact h.goto_same hb ⟨fun _ => .inl,fun _ => .inl⟩
      (.inr (not_le_draining.mp hs)) (fun _ _ _ _ => .inl) fun _ _ _ => id

theorem Inv.monitorAccept : s.Steps (.monitorAccept m) := by
  rintro thread _ hb ⟨⟩
  have hok : s.Inserting m.actor m.relations:=h.callOk hb
  have hs : SameRelations s.pg (s.pg.updateListeners m.table m.key (pushListener m.actor)) :=
    sameRelations_updateListeners
  have hr : ∀other,(s.pg.addListener m.table m.key m.actor m.relations).relationsOf other =
      if other=m.actor then (s.pg.relationsOf m.actor).addMonitor m.table m.key
      else s.pg.relationsOf other := by
    intro other
    rw [addListener,relationsOf_updateRelations (h.pointed.congr hs.pointers hs.next) _
      (hs.pointers.symm ▸ hok.1),hs.relationsOf]
  have hlo : Local s.pg (s.pg.addListener m.table m.key m.actor m.relations)
    (some (m.table,m.key)) (some m.relations):=local_addListener
  have he : (s.pg.addListener m.table m.key m.actor m.relations).entry =
      (s.pg.updateListeners m.table m.key (pushListener m.actor)).entry:=rfl
  refine h.goto_local hb hlo ⟨fun lock hl => .inl hl,fun lock hl => .inl hl⟩
    ⟨fun _ => .inl,fun _ => .inl⟩ (.inl entry_addListener_ne)
    (h.shutdowns_inserting hok hlo.pointers hlo.next hr)
    (fun a seat hlock ht => ?_) (fun _ _ _ _ => .inl) (fun _ _ hl _ => hl)
    fun _ _ hne _ hmi => absurd hmi hne
  have hm : s.Known a seat→(s.goto thread (s.pg.addListener m.table m.key m.actor m.relations)
      (.monitorRelease m)).Known a seat:=fun hk =>
    hk.inserting rfl hr fun _ => noted_addMonitor
  cases seat with
  | member k =>
    rw [Taken,members_congr he,members_updateListeners] at ht
    exact hm (h.known a (.member k) ht)
  | listener t k =>
    cases hlock
    rw [Taken,listeners_congr he] at ht
    rcases mem_pushListener.mp (mem_listeners_updateListeners ht) with rfl | hold
    · refine .inl ?_
      show m.key∈((s.pg.addListener m.table m.key m.actor m.relations).relationsOf
        m.actor).monitors m.table
      rw [hr,if_pos rfl,monitors_addMonitor,if_pos rfl]
      exact mem_insert_self ..
    · exact hm (h.known a (.listener m.table m.key) hold)

theorem Inv.monitorUnlock : s.Steps (.monitorUnlock m) := by
  rintro thread _ hb ⟨⟩
  have hok : s.pg.entry m.table m.key≠some {} ∨ .stopping ≤ s.status m.actor:=h.callOk hb
  refine h.goto_same hb ⟨nofun,nofun⟩ trivial (fun _ _ _ _ => .inl) fun table k hv hm => ?_
  obtain ⟨rfl,rfl⟩:=Prod.mk.inj (some.inj hm)
  exact ⟨rfl,rfl,hok.resolve_left fun hne => hne hv⟩

theorem Inv.monitorReread : s.Steps (.monitorReread m) := by
  rintro thread _ hb ⟨⟩
  simp only
  split
  next hs =>
    refine h.goto_same hb ⟨nofun,nofun⟩ (fun a r hmem => ?_) (fun a r _ _ htr => .inl ?_)
      fun table k _ hm => ?_
    · obtain ⟨rfl,-⟩ : a=m.actor ∧ r=m.relations := by simpa using hmem
      exact hs
    · simp [RacingCall.Tracks,htr.1,htr.2]
    · obtain ⟨rfl,rfl,-⟩:=hm
      exact mem_cons_self
  next hs =>
    refine h.goto_same hb ⟨nofun,nofun⟩ trivial (fun a r hst _ htr => ?_)
      fun table k _ hm => absurd hm.2.2 hs
    exact absurd (htr.1 ▸ hst) hs

theorem Inv.demonitorSection : s.Steps (.demonitorSection table key actor found) := by
  intro thread _ hb hs
  obtain ⟨hf,⟨⟩⟩:=ite_none_right_eq_some.mp hs
  have ho : ∀r∈found,Owned s.pg actor r:=h.callOk hb
  obtain ⟨hs,-,-,hc⟩:=s.pg.demonitorSection_spec table key found actor
  have hr:=hs.relationsOf
  have hlo : Local s.pg (s.pg.demonitorSection table key actor found) (some (table,key)) found :=
    local_demonitorSection
  refine h.goto_local hb hlo ⟨fun lock hl => .inl hl,fun lock hl => .inr (hf lock hl)⟩
    ⟨by rintro _ ⟨⟩,by rintro _ ⟨⟩⟩ trivial
    (h.shutdowns_updateFound hlo.pointers hlo.next hr fun r seat => noted_of_removeMonitor)
    (fun a seat hlock ht => ?_) (fun _ _ _ _ => False.elim) (fun t k hl he => ?_)
    fun _ _ hne _ hm => absurd hm hne
  · cases seat with
    | member k =>
      cases hlock
      rw [Taken,members_eq_cell,hc,if_pos ⟨rfl,rfl⟩,← members_eq_cell] at ht
      exact (h.known a (.member key) ht).updateFound rfl hr ho
        (.inr fun _ => noted_removeMonitor (by simp))
    | listener t k =>
      cases hlock
      rw [Taken,listeners_eq_cell,hc,if_pos ⟨rfl,rfl⟩] at ht
      obtain ⟨hold,hne⟩:=List.mem_filter.mp ht
      rw [← listeners_eq_cell] at hold
      exact (h.known a (.listener table key) hold).updateFound rfl hr ho
        (.inl (of_decide_eq_true hne))
  · obtain ⟨rfl,rfl⟩:=Prod.mk.inj (some.inj hl)
    exact absurd he entry_demonitorSection_ne

/-! ### Cleaning up -/

theorem Inv.close : s.Steps (.cleanup (.close table key::tasks)) := by
  intro thread _ hb hs
  obtain ⟨hf,⟨⟩⟩:=ite_none_right_eq_some.mp hs
  have hok:=h.callOk hb
  refine h.goto_section hb local_closeEntry (.inr hf) ⟨nofun,nofun⟩
    (fun a r hmem => hok a r (mem_cons_of_mem _ hmem))
    (fun a seat _ ht => h.known a seat (seat.taken_of_cell cell_closeEntry ht))
    (fun a r _ _ htr => .inl ((List.mem_cons.mp htr).resolve_left nofun))
    (fun hv => absurd hv entry_closeEntry_ne) fun t k hne _ hm => ?_
  refine (List.mem_cons.mp hm).resolve_left fun heq => hne ?_
  obtain ⟨rfl,rfl⟩:=CleanupTask.close.inj heq
  rfl

theorem Inv.sweep : s.Steps (.cleanup (.sweep actor r::tasks)) := by
  intro thread _ hb hs
  obtain ⟨hf,⟨⟩⟩:=ite_none_right_eq_some.mp hs
  have hok:=h.callOk hb
  have ht : ∀a r,.sweep a r∈tasks → .stopping ≤ s.status a:=fun a r hmem =>
    hok a r (mem_cons_of_mem _ hmem)
  have hm : ∀table key,.close table key∈CleanupTask.sweep actor r::tasks →
      .close table key∈tasks:=fun table key hmem => (List.mem_cons.mp hmem).resolve_left nofun
  simp only
  split
  next he =>
    refine h.goto_same hb ⟨nofun,fun lock hl => .inr (some.inj hl ▸ hf)⟩
      ⟨⟨hok actor r mem_cons_self,he⟩,ht⟩ (fun a r' _ _ htr => .inl ?_)
      fun table key _ => hm table key
    exact (List.mem_cons.mp htr).imp_left fun heq => CleanupTask.sweep.inj heq
  next hne =>
    refine h.goto_same hb ⟨nofun,nofun⟩ ht (fun a r' hs hlo htr => ?_)
      fun table key _ => hm table key
    rcases List.mem_cons.mp htr with heq | hmem
    · obtain ⟨rfl,rfl⟩:=CleanupTask.sweep.inj heq
      exact .inr ((h.shutdowns a).cleans hlo hne)
    · exact .inl hmem

/-! ### All steps of a call -/

theorem Inv.resume : ∀before,s.Steps before
  | .idle => fun _ _ _ hs => (by cases hs)
  | .joinFilter _ todo _ => h.joinFilter todo
  | .joinLock _ _ => h.joinLock
  | .joinNext _ => h.joinNext
  | .joinAcquire _ _ _ | .monitorAcquire _ => fun _ _ hb hs => by
    have hok:=h.callOk hb
    obtain ⟨hf,⟨⟩⟩:=ite_none_right_eq_some.mp hs
    exact h.goto_same hb ⟨fun _ => .inl,fun lock hl => .inr (some.inj hl ▸ hf)⟩ hok
      (fun _ _ _ _ => .inl) fun _ _ _ => id
  | .joinRead _ _ _ => h.joinRead
  | .joinAccept _ _ _ => h.joinAccept
  | .joinRefuse _ _ _ => h.joinRefuse
  | .leaveLock _ _ => h.leaveLock
  | .leaveNext _ todo => h.leaveNext todo
  | .leaveRemove _ _ _ _ => h.leaveRemove
  | .monitorGet _ _ _ => h.monitorGet
  | .monitorLock _ => h.monitorLock
  | .monitorRead _ => h.monitorRead
  | .monitorAccept _ => h.monitorAccept
  | .monitorRelease _ => by
    rintro thread _ hb ⟨⟩
    have hok:=h.callOk hb
    exact h.goto_same hb ⟨fun _ => .inl,nofun⟩ hok (fun _ _ _ _ => .inl) fun _ _ _ => id
  | .monitorUnlock _ => h.monitorUnlock
  | .monitorReread _ => h.monitorReread
  | .demonitorGet _ _ _ => by
    rintro thread _ hb ⟨⟩
    exact h.goto_outside hb rfl rfl (fun r hr => h.owned_of_lookup hr) (fun _ _ => id)
      fun _ _ => nofun
  | .demonitorLock _ _ _ _ => fun _ _ hb hs => by
    have hok:=h.callOk hb
    obtain ⟨hf,⟨⟩⟩:=ite_none_right_eq_some.mp hs
    exact h.goto_same hb ⟨fun lock hl => .inr (some.inj hl ▸ hf),nofun⟩ hok
      (fun _ _ _ _ => False.elim) fun _ _ _ => nofun
  | .demonitorSection _ _ _ _ => h.demonitorSection
  | .cleanup [] => by
    rintro thread _ hb ⟨⟩
    exact h.goto_outside hb rfl rfl trivial (fun _ _ => not_mem_nil) fun _ _ => not_mem_nil
  | .cleanup (.close _ _::_) => h.close
  | .cleanup (.sweep _ _::_) => h.sweep
  | .forget _ _ _ => h.forget

end Steps
end Races
end Ractor
