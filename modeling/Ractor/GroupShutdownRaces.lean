import Ractor.GroupRaceSteps

/-!
# No process group leaks

When an actor has cleaned up after itself and no calls are going on, nothing is left of the actor in
the process groups, however the calls have raced with its shutdown, and no entry is left with nobody
in it.
-/

namespace Ractor
open ActorRelations Option Function List
namespace Races
open PgState

variable {Thread Id : Type} [DecidableEq Id] {s : Races Thread Id} {actor : Id} {pg : PgState Id}
  {before shutdown : Shutdown} {r : ℕ}

/-! ### Steps of a shutdown -/

/-- What the cleanup of the actor keeps, and others do not change. -/
theorem gotoShutdown_mono {P : Shutdown→Prop} {a : Id} (hb : s.shutdowns actor=before)
    (hk : a=actor→P before→P shutdown) (h : P (s.shutdowns a)) :
    P ((s.gotoShutdown actor pg shutdown).shutdowns a) := by
  simp only [Races.gotoShutdown,update_apply]
  split
  next ha => exact hk ha (hb ▸ ha ▸ h)
  next => exact h

theorem gotoShutdown_rec {P : Id → Shutdown→Prop} (hs : P actor shutdown)
    (ho : ∀a,a≠actor→P a (s.shutdowns a)) (a : Id) :
    P a ((s.gotoShutdown actor pg shutdown).shutdowns a) := by
  simp only [Races.gotoShutdown,update_apply]
  split
  next ha => exact ha ▸ hs
  next ha => exact ho a ha

/-- The cleanup of the actor, which stands at `before`, keeps what holds in every state. -/
def ShutdownSteps (s : Races Thread Id) (actor : Id) (before : Shutdown) : Prop :=
  ∀order result,s.shutdowns actor=before → s.resumeShutdown actor order before=some result →
    (s.gotoShutdown actor result.1 result.2).Inv

/-- Relations that were looked up earlier are still those of the actor, or they do not matter. -/
theorem relationsOf_take (f : ActorRelations → ActorRelations) (hp : s.pg.Pointed)
    (h : s.pg.actorRelations.lookup actor=some r ∨ (s.pg.relationsOf actor).Empty) :
    (s.pg.updateRelations r f).relationsOf actor=f (s.pg.relationsOf actor) ∨
      (s.pg.relationsOf actor).Empty ∧
        (s.pg.updateRelations r f).relationsOf actor=s.pg.relationsOf actor := by
  rcases h with hl | he
  · rw [relationsOf_updateRelations hp f hl,if_pos rfl]
    exact .inl rfl
  · exact (relationsOf_updateFound_cases s.pg actor (some r) f).symm.imp_right fun heq => ⟨he,heq⟩

/-- Where the relations say something, they are those that were looked up. -/
theorem lookup_of_noted {seat : Seat}
    (h : s.pg.actorRelations.lookup actor=some r ∨ (s.pg.relationsOf actor).Empty)
    (hn : seat.Noted (s.pg.relationsOf actor)) : seat.Noted (s.pg.heap r) := by
  rcases h with hl | he
  · rwa [relationsOf_of_lookup hl] at hn
  · exact absurd hn (Seat.empty_iff.mp he seat)

/-! ### Runs -/

theorem inv_initial : ({} : Races Thread Id).Inv where
  pointed:=⟨fun _ _ hl => (nomatch hl),fun _ _ _ hl => (nomatch hl)⟩
  entryOwner _ _ hl := by cases hl
  callOwner _ _ hl := by cases hl
  shutdownOwner _ _ hl := by cases hl
  started _:=iff_of_false (show ¬ ActorStatus.stopping ≤ .unstarted by decide) fun hne => hne rfl
  calls _:=trivial
  shutdowns _:=trivial
  known _ seat ht := by
    cases seat with
    | member => exact absurd ht (Finset.notMem_empty _)
    | listener table => cases table <;> exact absurd ht not_mem_nil
  tracked _ _ _ hl := by cases hl
  minded table _ hv := by cases table <;> cases hv

section
variable (h : s.Inv)
include h

theorem Inv.gotoShutdown (hb : s.shutdowns actor=before)
    (hs : before≠.notStarted) (hsti : shutdown≠.notStarted)
    (hr : ∀lock,shutdown.relations=some lock →
      before.relations=some lock ∨ s.relationsOwner lock=none)
    (hpo : pg.Pointed)
    (hre : ∀thread,Rely s (s.gotoShutdown actor pg shutdown) (s.calls thread))
    (hok : (s.gotoShutdown actor pg shutdown).ShutdownOk actor shutdown)
    (ho : ∀other,other≠actor →
      (s.gotoShutdown actor pg shutdown).ShutdownOk other (s.shutdowns other))
    (hk : ∀a (seat : Seat),seat.Taken pg a→(s.gotoShutdown actor pg shutdown).Known a seat)
    (hp : ∀a r,pg.actorRelations.lookup a=some r→s.pg.actorRelations.lookup a=some r)
    (ht : ∀r,pg.actorRelations.lookup actor=some r → before.Cleans r→shutdown.Cleans r)
    (hm : ∀table key,pg.entry table key=some {}→s.pg.entry table key=some {}) :
    (s.gotoShutdown actor pg shutdown).Inv := by
  subst hb
  refine ⟨hpo,h.entryOwner,fun t lock hlo => ?_,?_,?_,
    fun t => (h.calls t).rely (hre t),gotoShutdown_rec hok ho,hk,
    fun a r hst hl => ?_,fun table key he => h.minded table key (hm table key he)⟩
  · exact transfer_of_ne (h.callOwner t lock hlo) nofun (h.shutdownOwner actor lock) (hr lock)
  · refine gotoShutdown_rec (P:=fun a sh => ∀lock,sh.relations=some lock →
      (s.gotoShutdown actor pg shutdown).relationsOwner lock=some (.inr a))
      (fun lock hlo => transfer_self hlo) fun a ha lock hlo => ?_
    exact transfer_of_ne (h.shutdownOwner a lock hlo) (fun heq => ha (Sum.inr.inj heq))
      (h.shutdownOwner actor lock) (hr lock)
  · exact gotoShutdown_rec (P:=fun a sh => .stopping ≤ s.status a ↔ sh≠.notStarted)
      (iff_of_true ((h.started actor).mpr hs) hsti) fun a _ => h.started a
  · refine (h.tracked a r hst (hp a r hl)).imp_left
      (gotoShutdown_mono (P:=(·.Cleans r)) rfl fun ha => ?_)
    exact ht r (ha ▸ hl)

/-- A step that changes one entry that nobody has locked, or none at all. -/
theorem Inv.gotoShutdown_section (hb : s.shutdowns actor=before)
    (hst : before≠.notStarted) (hsti : shutdown≠.notStarted)
    (hr : ∀lock,shutdown.relations=some lock→s.relationsOwner lock=none)
    {place : Option (ListenerTable × ScopeGroupKey)} (hlo : Local s.pg pg place none)
    (hfr : ∀lock,place=some lock→s.entryOwner lock=none)
    (hok : s.ShutdownOk actor shutdown)
    (hf : ∀seat : Seat,place≠some seat.lock → before.Frees seat→shutdown.Frees seat)
    (he : ∀r,s.pg.actorRelations.lookup actor=some r → before.Early r→shutdown.Early r)
    (hk : ∀a seat,place=some seat.lock→seat.Taken pg a→seat.Taken s.pg a ∧
      (a=actor → before.Frees seat→shutdown.Frees seat))
    (htr : ∀r,s.pg.actorRelations.lookup actor=some r → before.Cleans r→shutdown.Cleans r)
    (hm : ∀table key,place=some (table,key)→pg.entry table key=some {} →
      s.pg.entry table key=some {}) :
    (s.gotoShutdown actor pg shutdown).Inv := by
  have hsa : pg.relationsOf=s.pg.relationsOf:=hlo.relationsOf
  have hs : ∀a sh,s.ShutdownOk a sh →
      (s.gotoShutdown actor pg shutdown).ShutdownOk a sh:=fun a sh hsh =>
    hsh.lose hlo.pointers hlo.next fun _ => congrFun hsa a ▸ id
  refine h.gotoShutdown hb hst hsti (fun lock hl => .inr (hr lock hl))
    (h.pointed.congr hlo.pointers hlo.next) (fun t => ?_) (hs actor shutdown hok)
    (fun other _ => hs other _ (h.shutdowns other)) (fun a seat ht => ?_)
    (fun a r hl => hlo.pointers ▸ hl) (fun r hl => htr r (hlo.pointers ▸ hl))
    fun table key hv => ?_
  · refine Local.rely hlo rfl (fun lock hl => h.entry_ne_of_free (hfr lock hl)) nofun
      (fun a seat hh => gotoShutdown_mono hb fun _ => hf seat fun hp => ?_)
      fun a r _ hloo => gotoShutdown_mono hb fun ha => he r (ha ▸ hloo)
    exact h.entry_ne_of_free (hfr _ hp) hh
  · by_cases hse : place=some seat.lock
    · obtain ⟨hold,hke⟩:=hk a seat hse ht
      exact (h.known a seat hold).imp (fun hn => (congrFun hsa a).symm ▸ hn)
        (gotoShutdown_mono hb hke)
    · exact Local.known hlo hse (gotoShutdown_mono hb fun _ => hf seat hse)
        (h.known a seat ((hlo.taken hse).mp ht))
  · by_cases hkey : place=some (table,key)
    · exact hm table key hkey hv
    · rwa [hlo.entry table key hkey] at hv

theorem Inv.gotoShutdown_same (hb : s.shutdowns actor=before)
    (hs : before≠.notStarted) (hst : shutdown≠.notStarted)
    (hr : ∀lock,shutdown.relations=some lock→s.relationsOwner lock=none)
    (hok : s.ShutdownOk actor shutdown)
    (hf : ∀seat,before.Frees seat→shutdown.Frees seat)
    (he : ∀r,s.pg.actorRelations.lookup actor=some r → before.Early r→shutdown.Early r)
    (ht : ∀r,s.pg.actorRelations.lookup actor=some r → before.Cleans r →
      shutdown.Cleans r) : (s.gotoShutdown actor s.pg shutdown).Inv :=
  h.gotoShutdown_section hb hs hst hr (Local.refl s.pg) nofun hok
    (fun seat _ => hf seat) he nofun ht nofun

theorem Inv.demonitorAll : s.ShutdownSteps actor .demonitorAll := by
  rintro order _ hb ⟨⟩
  cases hf : s.pg.getActorRelations actor with
  | none =>
    refine h.gotoShutdown_same hb nofun nofun nofun (fun table key => ?_) (fun _ => False.elim)
      (fun r hl => ?_)
      fun _ _ _ => trivial
    · rw [relationsOf_of_none hf]
      exact Seat.empty_iff.mp empty_default _
    · rw [getActorRelations,hl] at hf
      cases hf
  | some r =>
    exact h.gotoShutdown_same hb nofun nofun nofun ⟨h.owned_of_lookup hf,.inl hf⟩
      (fun _ => False.elim) (fun r' hl _ => some.inj (hf.symm.trans hl)) fun _ _ _ => trivial

theorem Inv.dropListener {table : ListenerTable} {key : ScopeGroupKey}
    {entries : List (ListenerTable × ScopeGroupKey)} :
    s.ShutdownSteps actor (.demonitoring ((table,key)::entries)) := by
  intro order _ hb hs
  obtain ⟨hf,⟨⟩⟩:=ite_none_right_eq_some.mp hs
  have hok : Deaf (s.pg.relationsOf actor):=h.shutdownOk hb
  refine h.gotoShutdown_section hb nofun nofun nofun local_dropListener
    (fun lock hl => some.inj hl ▸ hf) hok (fun seat hne hl => ?_)
    (fun _ _ => False.elim) (fun a seat hlo ht => ?_) (fun _ _ _ => trivial)
    fun t k hl hv => ?_
  · cases seat with
    | member k => exact hl
    | listener t k => exact (mem_cons.mp hl).resolve_left fun heq => hne (by rw [← heq]; rfl)
  · cases seat with
    | member k =>
      cases hlo
      rw [Seat.Taken,members_eq_cell,cell_dropListener,if_pos ⟨rfl,rfl⟩,← members_eq_cell] at ht
      exact ⟨ht,fun _ => False.elim⟩
    | listener t k =>
      cases hlo
      rw [Seat.Taken,listeners_eq_cell,cell_dropListener,if_pos ⟨rfl,rfl⟩] at ht
      obtain ⟨hold,hne⟩:=mem_filter.mp ht
      rw [← listeners_eq_cell] at hold
      exact ⟨hold,fun ha => absurd ha (of_decide_eq_true hne)⟩
  · obtain ⟨rfl,rfl⟩:=Prod.mk.inj (some.inj hl)
    exact absurd hv entry_closeEntry_ne

theorem Inv.leaveAll : s.ShutdownSteps actor .leaveAll := by
  rintro order _ hb ⟨⟩
  cases hf : s.pg.getActorRelations actor with
  | none =>
    refine h.gotoShutdown_same hb nofun nofun nofun ?_ (fun _ => False.elim) (fun _ _ => False.elim)
      fun r hl => ?_
    · show (s.pg.relationsOf actor).Empty
      rw [relationsOf_of_none hf]
      exact empty_default
    · rw [getActorRelations,hl] at hf
      cases hf
  | some r =>
    exact h.gotoShutdown_same hb nofun nofun nofun ⟨⟨h.owned_of_lookup hf,.inl hf⟩,h.shutdownOk hb⟩
      (fun _ => False.elim)
      (fun _ _ => False.elim) fun r' hl _ => some.inj (hf.symm.trans hl)

theorem Inv.leaveAllSection {key : ScopeGroupKey} {keys : List ScopeGroupKey} :
    s.ShutdownSteps actor (.leavingAll r (key::keys)) := by
  intro order _ hb hs
  obtain ⟨hf,⟨⟩⟩:=ite_none_right_eq_some.mp hs
  have hok : (s.pg.relationsOf actor).Empty:=h.shutdownOk hb
  refine h.gotoShutdown_section hb nofun nofun nofun local_leaveAllSection
    (fun lock hl => some.inj hl ▸ hf) hok (fun seat hne hl => ?_)
    (fun _ _ => False.elim) (fun a seat hlo ht => ?_) (fun _ _ => id) fun t k hl hv => ?_
  · cases seat with
    | member k => exact (mem_cons.mp hl).resolve_left fun heq => hne (by rw [heq]; rfl)
    | listener t k => exact hl
  · cases seat with
    | member k =>
      cases hlo
      rw [Seat.Taken,members_eq_cell,cell_leaveAllSection,if_pos ⟨rfl,rfl⟩] at ht
      obtain ⟨hne,hold⟩:=Finset.mem_erase.mp ht
      rw [← members_eq_cell] at hold
      exact ⟨hold,fun ha => absurd ha hne⟩
    | listener t k =>
      cases hlo
      rw [Seat.Taken,listeners_eq_cell,cell_leaveAllSection,if_pos ⟨rfl,rfl⟩,
        ← listeners_eq_cell] at ht
      exact ⟨ht,fun _ => False.elim⟩
  · obtain ⟨rfl,rfl⟩:=Prod.mk.inj (some.inj hl)
    unfold PgState.leaveAllSection at hv
    split at hv
    · exact absurd hv entry_leaveMembers_ne
    · exact hv

/-- A step that takes something from the relations of the actor. -/
theorem Inv.gotoShutdown_take (hb : s.shutdowns actor=before)
    (hs : before≠.notStarted) (hst : shutdown≠.notStarted)
    (hre : shutdown.relations=none) (hf : s.relationsOwner r=none)
    (how : Owned s.pg actor r) {f : ActorRelations → ActorRelations}
    (hok : (s.gotoShutdown actor (s.pg.updateRelations r f) shutdown).ShutdownOk actor shutdown)
    (hk : ∀seat,s.Known actor seat →
      seat.Noted ((s.pg.updateRelations r f).relationsOf actor) ∨ shutdown.Frees seat)
    (hea : ∀r',r'≠r → before.Early r'→shutdown.Early r')
    (ht : ∀r',before.Cleans r'→shutdown.Cleans r') :
    (s.gotoShutdown actor (s.pg.updateRelations r f) shutdown).Inv := by
  have ho : ∀r'∈some r,Owned s.pg actor r':=fun r' hr => some.inj hr ▸ how
  have hsa : ∀a,a≠actor→(s.pg.updateRelations r f).relationsOf a=s.pg.relationsOf a :=
    fun a ha => relationsOf_updateFound_of_ne ho ha
  have hk' : ∀a seat,s.Known a seat →
      (s.gotoShutdown actor (s.pg.updateRelations r f) shutdown).Known a seat:=fun a seat =>
    gotoShutdown_rec (P:=fun a sh => s.Known a seat →
      seat.Noted ((s.pg.updateRelations r f).relationsOf a) ∨ sh.Frees seat) (hk seat)
      (fun a ha hl => hl.imp_left fun hn => (hsa a ha).symm ▸ hn) a
  refine h.gotoShutdown hb hs hst (fun lock hl => ?_) (h.pointed.congr rfl rfl)
    (fun t => ?_) hok (fun a ha => (h.shutdowns a).lose rfl rfl fun _ => hsa a ha ▸ id)
    (fun a seat hta => hk' a seat (h.known a seat hta)) (fun _ _ => id)
    (fun r' _ => ht r') fun _ _ => id
  · rw [hre] at hl
    cases hl
  · have hne : ∀r',(s.calls t).relations=some r' → r'≠r:=fun r' hh heq =>
      h.relations_ne_of_free hf (heq ▸ hh)
    refine ⟨fun _ => le_refl _,le_refl _,fun _ _ _ => id,fun _ _ => .inl,fun r' hh he => ?_,
      fun _ _ _ => rfl,fun a seat _ => hk' a seat,
      fun a r' hh _ => gotoShutdown_mono hb fun _ => hea r' (hne r' hh)⟩
    show (update s.pg.heap r (f (s.pg.heap r)) r').Empty
    rwa [update_of_ne (hne r' hh)]

theorem Inv.takeMonitors : s.ShutdownSteps actor (.takeMonitors r) := by
  intro order _ hb hs
  obtain ⟨⟨hfr,hg,hw⟩,⟨⟩⟩:=ite_none_right_eq_some.mp hs
  obtain ⟨ho,hf⟩:=h.shutdownOk hb
  have ht:=relationsOf_take .takeMonitors h.pointed hf
  refine h.gotoShutdown_take hb nofun (by nofun) (by rfl) hfr ho (fun table key => ?_)
    (fun seat hl => ?_) (fun r' hne he => hne (Eq.symm he)) fun _ _ => trivial
  · show ¬ key∈((s.pg.updateRelations r .takeMonitors).relationsOf actor).monitors table
    rcases ht with heq | ⟨hem,heq⟩
    · rw [heq,monitors_takeMonitors]
      exact Finset.notMem_empty key
    · rw [heq]
      exact Seat.empty_iff.mp hem (.listener table key)
  · rw [Known,hb] at hl
    have hn:=hl.resolve_right id
    cases seat with
    | member key =>
      refine .inl ?_
      rcases ht with heq | ⟨-,heq⟩
      · rwa [heq,Seat.Noted,memberships_takeMonitors]
      · rwa [heq]
    | listener table key =>
      have hkey:=lookup_of_noted hf hn
      refine .inr ?_
      cases table with
      | group => simpa [Shutdown.Frees,hg.mem,Seat.Noted,monitors] using hkey
      | world => simpa [Shutdown.Frees,hw.mem,Seat.Noted,monitors] using hkey

theorem Inv.takeMemberships : s.ShutdownSteps actor (.takeMemberships r) := by
  intro order _ hb hs
  obtain ⟨⟨hfr,ho⟩,⟨⟩⟩:=ite_none_right_eq_some.mp hs
  obtain ⟨⟨how,hf⟩,hd⟩:=h.shutdownOk hb
  have ht:=relationsOf_take .takeMemberships h.pointed hf
  refine h.gotoShutdown_take hb nofun (by nofun) (by rfl) hfr how ?_
    (fun seat hl => ?_) (fun _ _ => False.elim) fun _ => id
  · show ((s.pg.updateRelations r .takeMemberships).relationsOf actor).Empty
    rcases ht with heq | ⟨he,heq⟩
    · rw [heq,empty_iff]
      refine ⟨rfl,fun table => Finset.eq_empty_of_forall_notMem fun key => ?_⟩
      rw [monitors_takeMemberships]
      exact hd table key
    · rwa [heq]
  · rw [Known,hb] at hl
    have hn:=hl.resolve_right id
    cases seat with
    | member key => exact .inr (ho.mem.mpr (lookup_of_noted hf hn))
    | listener table key => exact absurd hn (hd table key)

theorem Inv.removeEmpty : s.ShutdownSteps actor (.removeEmpty r) := by
  intro order _ hb hs
  obtain ⟨hf,⟨⟩⟩:=ite_none_right_eq_some.mp hs
  have hok : (s.pg.relationsOf actor).Empty:=h.shutdownOk hb
  simp only
  split
  next =>
    exact h.gotoShutdown_same hb (by simp) (by simp) (fun lock hl => some.inj hl ▸ hf) hok
      (fun _ => False.elim) (fun _ _ => False.elim) fun _ _ => id
  next hne =>
    refine h.gotoShutdown_same hb (by simp) (by simp) (by rintro _ ⟨⟩) hok
      (fun _ => False.elim) (fun _ _ => False.elim) fun r' hl hc => ?_
    obtain rfl : r=r':=hc
    rw [relationsOf_of_lookup hl] at hok
    exact hne hok

theorem Inv.forgetShutdown : s.ShutdownSteps actor (.forget r) := by
  rintro order _ hb ⟨⟩
  have hok : (s.pg.relationsOf actor).Empty:=h.shutdownOk hb
  have he : s.pg.actorRelations.lookup actor=some r→(s.pg.heap r).Empty:=fun hl =>
    relationsOf_of_lookup hl ▸ hok
  have hs : .stopping ≤ s.status actor:=(h.started actor).mpr (by rw [hb]; exact nofun)
  have hen:=(s.pg.forgetRelations_rest actor r).1
  have hsa : (s.pg.forgetRelations actor r).relationsOf=s.pg.relationsOf :=
    relationsOf_forgetRelations he
  refine h.gotoShutdown hb nofun nofun nofun (pointed_forgetRelations h.pointed) (fun t => ?_)
    ?_ (fun a _ => (h.shutdowns a).forgetRelations rfl he) (fun a seat ht => ?_)
    (fun a r' hl => (lookup_of_forgetRelations hl).1) (fun r' hl hc => ?_)
    fun table key hv => by rwa [hen] at hv
  · have hh : (s.calls t).relations≠some r:=fun heq => by
      have ho:=h.shutdownOwner actor r (by rw [hb]; rfl)
      rw [h.callOwner t r heq] at ho
      cases ho
    exact rely_forgetRelations rfl rfl hs he hh
      (fun _ seat => gotoShutdown_mono hb fun _ => False.elim)
      fun _ _ => gotoShutdown_mono hb fun _ => False.elim
  · show ((s.pg.forgetRelations actor r).relationsOf actor).Empty
    rwa [hsa]
  · exact (h.known a seat (seat.taken_of_cell (cell_congr hen) ht)).imp
      (fun hn => (congrFun hsa a).symm ▸ hn)
      (gotoShutdown_mono hb fun _ => False.elim)
  · exact absurd ⟨rfl,Eq.symm hc⟩ (lookup_of_forgetRelations hl).2

theorem Inv.resumeShutdown : ∀before,s.ShutdownSteps actor before
  | .notStarted | .done => fun _ _ _ hs => (by cases hs)
  | .demonitorAll => h.demonitorAll
  | .takeMonitors _ => h.takeMonitors
  | .demonitoring [] => by
    rintro order _ hb ⟨⟩
    have hok:=h.shutdownOk hb
    refine h.gotoShutdown_same hb nofun nofun nofun hok (fun seat hl => ?_)
      (fun _ _ => False.elim) fun _ _ _ => trivial
    cases seat with
    | member key => exact hl.elim
    | listener table key => exact absurd hl not_mem_nil
  | .demonitoring (_::_) => h.dropListener
  | .leaveAll => h.leaveAll
  | .takeMemberships _ => h.takeMemberships
  | .leavingAll _ [] => by
    rintro order _ hb ⟨⟩
    have hok:=h.shutdownOk hb
    refine h.gotoShutdown_same hb nofun nofun nofun hok (fun seat hl => ?_)
      (fun _ _ => False.elim) fun _ _ => id
    cases seat with
    | member key => exact absurd hl not_mem_nil
    | listener table key => exact hl.elim
  | .leavingAll _ (_::_) => h.leaveAllSection
  | .removeEmpty _ => h.removeEmpty
  | .forget _ => h.forgetShutdown

theorem Inv.setStatus (actor : Id) (status : ActorStatus) : (s.setStatus actor status).Inv := by
  have hsta : ∀a,s.status a≤(s.setStatus actor status).status a := by
    intro a
    by_cases ha : a=actor
    · rw [ha]
      simp only [Races.setStatus,Function.update_self]
      exact le_max_left ..
    · simp only [Races.setStatus,update_of_ne ha,le_refl]
  -- The cleanup begins, or nothing happens to it.
  have hs : ∀a,(s.setStatus actor status).shutdowns a=s.shutdowns a ∨
      s.shutdowns a=.notStarted ∧ (s.setStatus actor status).shutdowns a=.demonitorAll := by
    intro a
    simp only [Races.setStatus]
    split
    next hf =>
      by_cases ha : a=actor
      · subst ha
        refine .inr ⟨not_ne_iff.mp fun hne => ?_,Function.update_self ..⟩
        exact absurd ((h.started a).mpr hne) (not_le.mpr hf.2)
      · exact .inl (update_of_ne ha ..)
    next => exact .inl rfl
  have hk : ∀a seat,s.Known a seat→(s.setStatus actor status).Known a seat := by
    refine fun a seat hl => hl.imp_right fun hfr => ?_
    rcases hs a with heq | ⟨hnot,-⟩
    · rwa [heq]
    · rw [hnot] at hfr
      exact hfr.elim
  have hr : ∀call,Rely s (s.setStatus actor status) call := by
    refine fun call => ⟨hsta,le_refl _,fun _ _ _ => id,fun _ _ => .inl,fun _ _ => id,
      fun _ _ _ => rfl,fun a seat _ => hk a seat,fun a r _ _ he => ?_⟩
    rcases hs a with heq | ⟨-,hnow⟩
    · rwa [heq]
    · rw [hnow]
      trivial
  have hst : ∀a,.stopping≤(s.setStatus actor status).status a ↔
      (s.setStatus actor status).shutdowns a≠.notStarted := by
    intro a
    by_cases ha : a=actor
    · subst ha
      simp only [Races.setStatus,Function.update_self,le_max_iff]
      split
      next hf =>
        rw [Function.update_self]
        exact iff_of_true (.inr hf.1) nofun
      next hnot =>
        rw [← h.started a]
        exact or_iff_left_of_imp fun hle => not_lt.mp fun hlt => hnot ⟨hle,hlt⟩
    · simp only [Races.setStatus,update_of_ne ha]
      split
      · rw [update_of_ne ha]
        exact h.started a
      · exact h.started a
  refine ⟨h.pointed,h.entryOwner,h.callOwner,fun a lock hl => ?_,hst,
    fun t => (h.calls t).rely (hr _),fun a => ?_,
    fun a seat hta => hk a seat (h.known a seat hta),fun a r hsto hlo => ?_,
    fun table key hv => ?_⟩
  · rcases hs a with heq | ⟨-,hnow⟩
    · exact h.shutdownOwner a lock (heq ▸ hl)
    · rw [hnow] at hl
      cases hl
  · rcases hs a with heq | ⟨-,hnow⟩
    · rw [heq]
      exact (h.shutdowns a).lose rfl rfl fun _ => id
    · rw [hnow]
      trivial
  · rcases hs a with heq | ⟨-,hnow⟩
    · rw [heq]
      refine h.tracked a r ((h.started a).mpr ?_) hlo
      rw [← heq]
      exact (hst a).mp hsto
    · rw [hnow]
      exact .inl trivial
  · obtain ⟨t,ht⟩:=h.minded table key hv
    refine ⟨t,?_⟩
    show (s.calls t).Minds (s.setStatus actor status).status table key
    generalize s.calls t=call at ht ⊢
    cases call with
    | monitorReread m => exact ⟨ht.1,ht.2.1,ht.2.2.trans (hsta m.actor)⟩
    | _ => exact ht

end

variable [DecidableEq Thread] {s' : Races Thread Id}

theorem Inv.step (h : s.Inv) {label : RaceStep Thread Id} (hs : s.Step label s') : s'.Inv := by
  cases label with
  | begin thread request =>
    simp only [Step,Races.step] at hs
    split at hs
    next hi =>
      cases hs
      cases request <;> exact h.goto_outside hi rfl rfl trivial (fun _ _ => id) (by rintro _ _ ⟨⟩)
    next => cases hs
  | resume thread =>
    obtain ⟨result,hr,rfl⟩:=map_eq_some_iff.mp hs
    exact h.resume _ thread result rfl hr
  | setStatus actor status =>
    cases hs
    exact h.setStatus actor status
  | shutdown actor order =>
    obtain ⟨result,hr,rfl⟩:=map_eq_some_iff.mp hs
    exact h.resumeShutdown _ order result rfl hr

theorem inv_of_reachable (h : Reachable Initial Step s) : s.Inv :=
  h.invariant (fun _ hs => hs ▸ inv_initial) fun _ _ _ hi hs => hi.step hs

/-- When the shutdown of an actor and all calls have finished, nothing is left of the actor, and no
entry is left with nobody in it. -/
theorem no_process_group_leak (h : Reachable Initial Step s)
    (hidle : ∀thread,s.calls thread=.idle) (hdone : s.shutdowns actor=.done) :
    (∀key,actor∉s.pg.members key) ∧ (∀key,actor∉s.pg.listeners .group key) ∧
    (∀key,actor∉s.pg.listeners .world key) ∧ s.pg.actorRelations.lookup actor=none ∧
    (∀key,s.pg.map.lookup key≠some {}) ∧ ∀key,s.pg.worldListeners.lookup key≠some [] := by
  have hi:=inv_of_reachable h
  have hempty : (s.pg.relationsOf actor).Empty:=hi.shutdownOk hdone
  have hseat : ∀seat : Seat,¬ seat.Taken s.pg actor := by
    intro seat htaken
    have hl:=hi.known actor seat htaken
    rw [Known,hdone] at hl
    exact hl.elim (Seat.empty_iff.mp hempty seat) id
  have hvacant : ∀table key,s.pg.entry table key≠some {} := by
    intro table key hvacant
    obtain ⟨t,ht⟩:=hi.minded table key hvacant
    rw [hidle] at ht
    cases ht
  refine ⟨fun key => hseat (.member key),fun key => hseat (.listener .group key),
    fun key => hseat (.listener .world key),?_,hvacant .group,
    fun key hlookup => hvacant .world key ?_⟩
  · rw [eq_none_iff_forall_ne_some]
    intro r hlookup
    have hstopping:=(hi.started actor).mpr (by simp [hdone])
    rcases hi.tracked actor r hstopping hlookup with hcleans | ⟨t,ht⟩
    · rw [hdone] at hcleans
      exact hcleans
    · rw [hidle] at ht
      exact ht
  · rw [entry,hlookup]
    rfl

/-- An actor stops between the read of its status and the insertion into its relations, which are
locked meanwhile. A monitor looks up the relations before they are taken and is refused. -/
def racingShutdown : List (RaceStep Bool ℕ) :=
  let order := fun keys => [⟨defaultScope,"workers"⟩].filter (· ∈ keys)
  .begin false (.joinScoped defaultScope "workers" [0])::replicate 6 (.resume false) ++
    [.setStatus 0 .stopping,.shutdown 0 order,.begin true (.monitor "workers" 0),.resume true] ++
    replicate 3 (.resume false)++replicate 4 (.shutdown 0 order) ++
    replicate 6 (.resume true)++replicate 2 (.shutdown 0 order) ++
    replicate 4 (.resume true)++replicate 2 (.shutdown 0 order)

theorem no_process_group_leak_racingShutdown : ∃s : Races Bool ℕ,
    Reachable Initial Step s ∧ (∀thread,s.calls thread=.idle) ∧ s.shutdowns 0=.done ∧
    0∉s.pg.members ⟨defaultScope,"workers"⟩ ∧
    0∉s.pg.listeners .group ⟨defaultScope,"workers"⟩ ∧ s.pg.actorRelations.lookup 0=none ∧
    s.pg.map.lookup ⟨defaultScope,"workers"⟩≠some {} := by
  obtain ⟨s,hs,hidle,hdone⟩ : ∃s : Races Bool ℕ,execute step {} racingShutdown=some s ∧
      (∀thread,s.calls thread=.idle) ∧ s.shutdowns 0=.done :=
    ⟨_,rfl,fun thread => by cases thread <;> rfl,rfl⟩
  have hr : Reachable Initial Step s :=
    Reachable.execute (fun _ _ _ h => h) racingShutdown (.start rfl) hs
  obtain ⟨hmember,hlistener,-,hlookup,hentry,-⟩:=no_process_group_leak hr hidle hdone
  exact ⟨s,hr,hidle,hdone,hmember _,hlistener _,hlookup,hentry _⟩

end Races
end Ractor
