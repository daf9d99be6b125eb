import Ractor.FactoryHandlerMoves

/-!
# Kinds of handled events

Four events do the work of a factory: a dispatch, a completion, the exit of a worker and
a resize. Everything else is `Housekeeping`: it may sweep expired jobs out of the queue,
ping workers and change settings, but touches neither the router nor what a worker holds.
`guarded_rec` reduces an invariant of runs to these five cases.
-/

namespace Ractor.Factory
variable {Key Msg R Q : Type} {s s' : FactoryState Key Msg R Q} {args : FactoryArguments R Q}

open LawfulQueue (contents)

/-! ### Changes of the staff -/

def Effect.IsStaffing : Effect Key Msg → Prop
  | .spawned _ _ => True
  | .stopped _ => True
  | effect => effect.IsHousekeeping

namespace FactoryState
variable [Router R Key Msg]

theorem addWorker_staffing {wid : WorkerId} (h : s.addWorker wid=.ok s') :
    s'.queue=s.queue ∧ s.world.Writes Effect.IsStaffing s'.world := by
  obtain ⟨_,_,hs,rfl⟩:=addWorker_ok h
  obtain ⟨_,-,-,-,hlog⟩:=s.world.spawn_ok hs
  exact ⟨rfl,_,hlog,by simp [Effect.IsStaffing]⟩

theorem shrinkPool_staffing (s : FactoryState Key Msg R Q) (toRemove : ℕ) :
    (s.shrinkPool toRemove).queue=s.queue ∧
      s.world.Writes Effect.IsStaffing (s.shrinkPool toRemove).world :=
  shrinkPool_rec (P:=fun t => t.queue=s.queue ∧ s.world.Writes Effect.IsStaffing t.world)
    (fun _ _ _ _ _ _ ht => ht)
    (fun _ _ t _ _ _ ht => ⟨ht.1,ht.2.trans (.record t.world trivial)⟩) ⟨rfl,.of_log rfl⟩

section
variable [Queue Q Key Msg] [LawfulQueue Q]

theorem growPool_staffing {toAdd : ℕ} (h : s.growPool toAdd=.ok s') :
    s'.queue=s.queue ∧ s.world.Writes Effect.IsStaffing s'.world := by
  refine growPool_rec
    (P:=fun _ t => t.queue=s.queue ∧ s.world.Writes Effect.IsStaffing t.world) h ?_ ?_
    ⟨rfl,.of_log rfl⟩
  · intro wid t t' _ _ ⟨hq,hw⟩ hg
    unfold growWorker at hg
    split at hg
    · obtain ⟨hq',hw'⟩:=addWorker_staffing hg
      exact ⟨hq'.trans hq,hw.trans hw'⟩
    · cases hg
      exact ⟨hq,hw⟩
  · intro _ t ⟨hq,hw⟩
    refine ⟨hq,hw.trans ((pingWorkers_housekeeping t).writes.imp fun effect he => ?_)⟩
    cases effect <;> first | exact trivial | exact he

/-- The rule for the start: `P n` is a property of states with `n` workers spawned. -/
theorem starts_rec {P : ℕ→FactoryState Key Msg R Q→Prop}
    (hi : ∀oracle firstPid firstJob,Prenumbered args.queue firstJob →
      P 0 (initial args oracle firstPid firstJob))
    (hadd : ∀n t t',t.addWorker n=.ok t'→P n t→P (n+1) t')
    (hk : ∀n t t',Housekeeping t t'→P n t→P n t') (h : Starts args s) :
    P args.numInitialWorkers s := by
  obtain ⟨oracle,firstPid,firstJob,hta,hs⟩:=h
  exact preStart_rec hs (fun n t t' ht ha => hadd n t t' ha ht)
    (fun n t ht => hk n t _ (pingWorkers_housekeeping t) ht)
    (hi oracle firstPid firstJob hta)

end

/-! ### Handled events -/

def WorkMeets (G : FactoryState Key Msg R Q → Work Key Msg → Prop) (s : FactoryState Key Msg R Q)
    (label : FactoryEvent Key Msg × Oracle) : Prop :=
  ∀a work,(s.withOracle label.2).workOf label.1=some (a,work) → G a work

instance (G : FactoryState Key Msg R Q → Work Key Msg→Prop) [∀a work,Decidable (G a work)]
    (s : FactoryState Key Msg R Q) (label : FactoryEvent Key Msg × Oracle) :
    Decidable (WorkMeets G s label) :=
  match h : (s.withOracle label.2).workOf label.1 with
  | none => .isTrue fun _ _ hw => by rw [h] at hw; cases hw
  | some (a,work) =>
    decidable_of_iff (G a work)
      ⟨fun hg _ _ hw => by rw [h] at hw; cases hw; exact hg,fun hg => hg a work h⟩

variable [DecidableEq Key] [Queue Q Key Msg] [LawfulQueue Q]

theorem replaceExited_cases {t : FactoryState Key Msg R Q} {who : ActorId} {wid : WorkerId}
    {worker : WorkerProperties Key Msg} (h : s.replaceExited who wid worker=.ok t) :
    ∃replacement world,s.world.spawn worker.wid=.ok (replacement,world) ∧ Housekeeping
        { s with
          pool:=s.pool.insert wid (worker.replaceWorker replacement world).1
          workerByActor:=(s.workerByActor.erase who).insert replacement worker.wid
          world:=(worker.replaceWorker replacement world).2 } t := by
  obtain ⟨replacement,world,hs,hk⟩:=replaceExited_kept (H:=fun _ => True) h
  exact ⟨replacement,world,hs,hk.housekeeping⟩

def Handled (s : FactoryState Key Msg R Q) (event : FactoryEvent Key Msg)
    (s' : FactoryState Key Msg R Q) : Prop :=
  s.workOf event=none ∧ Housekeeping s s' ∨
    ∃a work b,s.workOf event=some (a,work) ∧ Housekeeping s a ∧ a.work work=.ok b ∧
      Housekeeping b s'

theorem handleEvent_handled {event : FactoryEvent Key Msg} (h : s.handleEvent event=.ok s') :
    Handled s event s' := by
  rcases handleEvent_kept (installs_all event) h with ⟨hn,hk⟩ | ⟨a,work,b,hw,ha,hab,hb⟩
  · exact .inl ⟨hn,hk.housekeeping⟩
  · exact .inr ⟨a,work,b,hw,ha.housekeeping,hab,hb.housekeeping⟩

/-- An invariant of runs, from the start, housekeeping and the work done. -/
theorem guarded_rec {P : FactoryState Key Msg R Q→Prop}
    {G : FactoryState Key Msg R Q → Work Key Msg→Prop} (hst : ∀s,Starts args s→P s)
    (hke : ∀s s',Housekeeping s s'→P s→P s')
    (hwo : ∀s work s',G s work→s.work work=.ok s'→P s→P s')
    (h : Reachable (Starts args) (guarded (WorkMeets G) Step) s) : P s := by
  refine h.invariant hst ?_
  rintro s label s' hs ⟨hg,hstep⟩
  have hs:=hke _ _ (withOracle_housekeeping s label.2) hs
  rcases handleEvent_handled hstep with ⟨_,hk⟩ | ⟨a,work,b,hw,ha,hab,hb⟩
  · exact hke _ _ hk hs
  · exact hke _ _ hb (hwo a work b (hg a work hw) hab (hke _ _ ha hs))

theorem reached_meets (h : Reached args s) :
    Reachable (Starts args) (guarded (WorkMeets fun _ _ => True) Step) s :=
  h.mono (fun _ hs => hs) fun _ _ _ hs => ⟨fun _ _ _ => trivial,hs⟩

end FactoryState
end Ractor.Factory
