import Ractor.ActorCleanup

/-!
# Dead actors are detached

Whatever the threads do, the two ends of every link agree. An actor that has published `Stopping`
is not given a supervisor any more, and its cleanup closes its child set and gives up its
supervisor before it publishes `Stopped`.
-/

namespace Ractor
open Function ActorStatus List

variable {Id Event : Type}

/-- What the cleanup of `c` has achieved for `c` when it gets to a step. -/
def Cleanup.Achieved (c : Id) (cell : ActorCell Id) : Cleanup Id Event → Prop
  | .armed | .publishStopping _ => cell.status≠.stopped
  | .terminate pending _ =>
    cell.status≠.stopped ∧ .stopping≤cell.status ∧ (c∈pending ∨ cell.children=none)
  | .readTarget _ | .notify _ _ | .readSupervisor _ =>
    cell.status≠.stopped ∧ .stopping≤cell.status ∧ cell.children=none
  | .unlink supervisor _ =>
    cell.status≠.stopped ∧ .stopping≤cell.status ∧ cell.children=none ∧
      (cell.supervisor=some supervisor ∨ cell.supervisor=none)
  | .publishStopped _ =>
    cell.status≠.stopped ∧ .stopping≤cell.status ∧ cell.children=none ∧ cell.supervisor=none
  | .done _ => cell.status=.stopped ∧ cell.children=none ∧ cell.supervisor=none

theorem ActorStatus.eq_stopped_of_le {status : ActorStatus} (h : .stopped ≤ status) :
    status=.stopped := by
  cases status <;> first | rfl | exact absurd h (by decide)

namespace Forest

theorem Ages.supervisor_none {a b : ActorCell Id} (h : Ages a b) (hd : .draining≤a.status)
    (hn : a.supervisor=none) : b.supervisor=none := by
  rcases h.supervisor hd with hs | hs
  · exact hs.trans hn
  · exact hs

end Forest

open Forest

variable {c : Id} {cleanup : Cleanup Id Event}

/-- What has been achieved stays so while the others move. -/
theorem Cleanup.Achieved.ages {a b : ActorCell Id} (h : cleanup.Achieved c a) (hab : Ages a b) :
    cleanup.Achieved c b := by
  have hne (hs : a.status≠.stopped) : b.status≠.stopped:=fun hb => hs (hab.stopped hb)
  have hdr (hs : .stopping≤a.status) : .draining≤a.status:=le_trans (by decide) hs
  cases cleanup with
  | armed | publishStopping => exact hne h
  | terminate pending event =>
    exact ⟨hne h.1,h.2.1.trans hab.status,h.2.2.imp_right hab.children⟩
  | readTarget | notify | readSupervisor =>
    exact ⟨hne h.1,h.2.1.trans hab.status,hab.children h.2.2⟩
  | unlink supervisor event =>
    refine ⟨hne h.1,h.2.1.trans hab.status,hab.children h.2.2.1,?_⟩
    rcases h.2.2.2 with hs | hs
    · exact (hab.supervisor (hdr h.2.1)).imp_left fun he => he.trans hs
    · exact .inr (hab.supervisor_none (hdr h.2.1) hs)
  | publishStopped event =>
    exact ⟨hne h.1,h.2.1.trans hab.status,hab.children h.2.2.1,
      hab.supervisor_none (hdr h.2.1) h.2.2.2⟩
  | done event =>
    have hs : .stopped≤b.status:=h.1 ▸ hab.status
    exact ⟨eq_stopped_of_le hs,hab.children h.2.1,hab.supervisor_none (by rw [h.1]; decide) h.2.2⟩

namespace Supervision
variable [DecidableEq Id] {s s' : Supervision Id Event}

structure Sound (s : Supervision Id Event) : Prop where
  consistent : s.forest.Consistent
  achieved : ∀c,(s.cleanups c).Achieved c (s.forest c)

theorem Resumed.consistent (h : s.Resumed c cleanup s') (hf : s.forest.Consistent) :
    s'.forest.Consistent := by
  cases h with
  | stoppingPublished | stoppedPublished =>
    exact hf.congr (fun x => by simp [goto]) (fun x => by simp [goto])
  | visited actor => exact hf.visit actor
  | unlinked supervisor => exact hf.unlink c supervisor
  | _ => exact hf

/-- A step of the cleanup of `c` leaves the other cleanups alone. -/
theorem Resumed.cleanups_of_ne {x : Id} (h : s.Resumed c cleanup s') (hx : x≠c) :
    s'.cleanups x=s.cleanups x := by
  cases h <;> exact update_of_ne hx _ _

theorem Resumed.ages_of_ne {x : Id} (h : s.Resumed c cleanup s') (hx : x≠c) :
    Ages (s.forest x) (s'.forest x) := by
  cases h with
  | stoppingPublished | stoppedPublished => exact setStatus_ages _ _ _ (.inr hx)
  | visited actor => exact visit_ages _ _ _
  | unlinked supervisor => exact unlink_ages _ _ _ _
  | _ => exact ⟨le_refl _,id,id,fun _ => .inl rfl⟩

theorem goto_achieved (h : cleanup.Achieved c (s.forest c)) :
    ((s.goto c cleanup).cleanups c).Achieved c ((s.goto c cleanup).forest c) := by
  show (update s.cleanups c cleanup c).Achieved c (s.forest c)
  rwa [update_self]

/-- A step of the cleanup of `c` achieves what the next one relies on. -/
theorem Resumed.achieved (h : s.Resumed c cleanup s') (ha : cleanup.Achieved c (s.forest c)) :
    (s'.cleanups c).Achieved c (s'.forest c) := by
  cases h with
  | stoppingPublished event =>
    have hag:=setStatus_ages s.forest c c (.inl (le_refl stopping))
    exact goto_achieved ⟨fun hs => ha (hag.stopped hs),by simp,.inl mem_cons_self⟩
  | quietlyTerminated | terminated =>
    exact goto_achieved ⟨ha.1,ha.2.1,ha.2.2.resolve_left not_mem_nil⟩
  | visited actor rest order event =>
    have hag:=visit_ages s.forest actor c
    refine goto_achieved ⟨fun hs => ha.1 (hag.stopped hs),ha.2.1.trans hag.status,?_⟩
    rcases ha.2.2 with hmem | hc
    · rcases mem_cons.mp hmem with rfl | hmem
      · exact .inr (by simp [visit_apply])
      · exact .inl (mem_append_right _ hmem)
    · exact .inr (hag.children hc)
  | targetRead | nobodyNotified | notified => exact goto_achieved ha
  | supervisorRead supervisor event hs => exact goto_achieved ⟨ha.1,ha.2.1,ha.2.2,.inl hs⟩
  | noSupervisor event hs => exact goto_achieved ⟨ha.1,ha.2.1,ha.2.2,hs⟩
  | unlinked supervisor event =>
    obtain ⟨hne,hst,hc,hsup⟩:=ha
    have hag:=unlink_ages s.forest c supervisor c
    refine goto_achieved ⟨fun hs => hne (hag.stopped hs),hst.trans hag.status,hag.children hc,?_⟩
    show (s.forest.unlink c supervisor c).supervisor=none
    rw [unlink_apply]
    rcases hsup with hsup | hsup
    · simp [hsup]
    · simp [hsup]
  | stoppedPublished event =>
    refine goto_achieved ⟨?_,?_,?_⟩
    · exact eq_stopped_of_le (by simp)
    · simpa using ha.2.2.1
    · simpa using ha.2.2.2

theorem Sound.step (h : s.Sound) {label : SupervisionStep Id Event} (hs : s.Step label s') :
    s'.Sound := by
  -- a step on the links that every actor merely ages in
  have forest {f : Forest Id} (hf : f.Consistent) (hag : ∀x,Ages (s.forest x) (f x)) :
      Sound {s with forest:=f}:=⟨hf,fun c => (h.achieved c).ages (hag c)⟩
  cases label with
  | link child supervisor =>
    cases hs
    exact forest (h.consistent.link child supervisor) fun x => link_ages _ _ _ x
  | unlink child supervisor =>
    cases hs
    exact forest (h.consistent.unlink child supervisor) fun x => unlink_ages _ _ _ x
  | setStatus actor status =>
    obtain ⟨hle,hs⟩:=Option.ite_none_right_eq_some.mp hs
    cases hs
    exact forest (h.consistent.congr (fun x => by simp) fun x => by simp)
      fun x => setStatus_ages _ _ x (.inl hle)
  | kill actor =>
    cases hs
    exact forest (h.consistent.congr (fun x => by simp) fun x => by simp)
      fun x => ⟨by simp,by simp,by simp,fun _ => .inl (by simp)⟩
  | visit actor =>
    cases hs
    exact forest (h.consistent.visit actor) fun x => visit_ages _ _ x
  | dropPorts actor =>
    cases hs
    exact ⟨h.consistent,h.achieved⟩
  | begin actor event =>
    obtain ⟨hc,rfl⟩:=hs.begin_eq
    refine ⟨h.consistent,fun c => ?_⟩
    by_cases hca : c=actor
    · subst hca
      have ha:=h.achieved c
      rw [hc] at ha
      exact goto_achieved ha
    · show (update s.cleanups actor _ c).Achieved c (s.forest c)
      rw [update_of_ne hca]
      exact h.achieved c
  | resume actor order =>
    have hr:=resume_resumed hs
    refine ⟨hr.consistent h.consistent,fun c => ?_⟩
    by_cases hc : c=actor
    · subst hc
      exact hr.achieved (h.achieved c)
    · rw [hr.cleanups_of_ne hc]
      exact (h.achieved c).ages (hr.ages_of_ne hc)

theorem sound_of_reachable (h : Reachable Initial Step s) : s.Sound := by
  refine h.invariant (P:=Sound) ?_ fun _ _ _ hp hs => hp.step hs
  rintro _ rfl
  exact ⟨⟨fun p c => ⟨nofun,nofun⟩,fun p => nodup_nil⟩,fun c => by
    show unstarted≠_; decide⟩

omit [DecidableEq Id] in
/-- An actor with the status `Stopped` has finished its cleanup. -/
theorem Sound.exists_done (h : s.Sound) (hs : (s.forest c).status=.stopped) :
    ∃event,s.cleanups c=.done event := by
  have ha:=h.achieved c
  cases hc : s.cleanups c with
  | done event => exact ⟨event,rfl⟩
  | armed | publishStopping =>
    rw [hc] at ha
    exact absurd hs ha
  | _ =>
    rw [hc] at ha
    exact absurd hs ha.1

/-- A cleanup that has finished is not taken up again. -/
theorem Step.cleanups_done {label : SupervisionStep Id Event} (h : s.Step label s')
    {event : Option Event} (hc : s.cleanups c=.done event) : s'.cleanups c=.done event := by
  refine h.elim (motive:=fun t => t.cleanups c=.done event) (fun _ _ => hc) ?_ ?_
  · intro actor begun ha
    have hne : c≠actor := by
      rintro rfl
      cases ha.symm.trans hc
    exact (update_of_ne hne _ _).trans hc
  · intro actor t hr
    have hne : c≠actor := by
      rintro rfl
      rw [hc] at hr
      cases hr
    exact (hr.cleanups_of_ne hne).trans hc

/-- In every interleaving of links and unlinks with cleanups: the two ends of every link agree; a
link from or to an actor that is `Draining` or later, or to a closed child set, is refused and
changes nothing; and an actor that has published `Stopped` has no supervisor and no children and is
in no child set, now and later. -/
theorem links_consistent (h : Reachable Initial Step s) :
    (∀p c,c∈s.forest.childrenOf p ↔ (s.forest c).supervisor=some p) ∧
      (∀p,(s.forest.childrenOf p).Nodup) ∧
      (∀c p,.draining≤(s.forest c).status ∨ .draining≤(s.forest p).status ∨
        (s.forest p).children=none → s.forest.link c p=(false,s.forest)) ∧
      (∀c,(s.forest c).status=.stopped → ∀s',Reachable (· = s) Step s' →
        (s'.forest c).status=.stopped ∧ (s'.forest c).supervisor=none ∧
          (s'.forest c).children=none ∧ ∀p,c∉s'.forest.childrenOf p) := by
  have hsound:=sound_of_reachable h
  refine ⟨hsound.consistent.mem_iff,hsound.consistent.nodup,fun c p => link_refused _,?_⟩
  intro c hc s' hs'
  obtain ⟨event,hdone⟩:=hsound.exists_done hc
  have hdone' : s'.cleanups c=.done event :=
    hs'.invariant (P:=fun s => s.cleanups c=.done event) (fun _ he => he ▸ hdone)
      fun _ _ _ hd hstep => hstep.cleanups_done hd
  have hlater:=sound_of_reachable (h.trans hs')
  have ha:=hlater.achieved c
  rw [hdone'] at ha
  refine ⟨ha.1,ha.2.2,ha.2.1,fun p hp => ?_⟩
  cases ((hlater.consistent.mem_iff p c).mp hp).symm.trans ha.2.2

/-- An actor is linked and cleans up. -/
theorem links_consistent_replayed :
    ∃s : Supervision Bool Unit,Reachable Initial Step s ∧
      (s.forest false).status=.stopped ∧ s.ports true=[(false,())] ∧
      (s.forest false).supervisor=none ∧ ∀p,false∉s.forest.childrenOf p := by
  obtain ⟨s,hs,ht⟩:=exists_reachable (.link false true::.dropPorts false::.begin false (some ()) ::
      replicate 8 (.resume false []))
    (fun s : Supervision Bool Unit => decide ((s.forest false).status=.stopped ∧
      s.ports true=[(false,())])) (by decide +kernel)
  obtain ⟨hstopped,hport⟩:=of_decide_eq_true ht
  obtain ⟨-,hsup,-,hmem⟩:=(links_consistent hs).2.2.2 false hstopped s (.start rfl)
  exact ⟨s,hs,hstopped,hport,hsup,hmem⟩

end Supervision
end Ractor
