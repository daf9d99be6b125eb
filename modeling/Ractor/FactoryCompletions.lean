import Ractor.FactorySystem

/-!
# Completions across worker replacement

A `Finished` message names a worker id and a key, not the actor that sent it. As long as it
comes from the actor that is the worker now, it completes the job that actor was working on.
A message of a replaced actor is harmless when the worker is not processing its key. Under this
condition the records of the factory are exact: what a worker has active is what was delivered
to its actor and is either still in the mailbox or reported by a message in flight.
-/

namespace Ractor.Factory
open List FactoryState Effect.IsStaffing Option World.Writes

variable {Key Msg R Q : Type}

open LawfulQueue (contents)
open WorkerProperties

def Effect.IsCompletion : Effect Key Msg → Prop
  | .completed _ _ => True
  | _ => False

theorem World.Writes.completions {world world' : World Key Msg}
    (h : world.Writes (fun effect => ¬effect.IsCompletion) world') (actor : ActorId) :
    completions actor world'.log=Factory.completions actor world.log := by
  obtain ⟨effects,hl,he⟩:=h
  have hz : Factory.completions actor effects=0 := by
    refine countP_eq_zero.mpr fun effect hm hc => ?_
    have hn:=he effect hm
    cases effect <;> first | exact hn trivial | cases hc
  rw [hl,completions_append,hz,Nat.add_zero]

theorem Effect.IsHousekeeping.not_completion {effect : Effect Key Msg} (h : effect.IsHousekeeping) :
    ¬effect.IsCompletion := by
  cases effect <;> first | exact id | exact h.elim

theorem Effect.IsStaffing.not_completion {effect : Effect Key Msg} (h : effect.IsStaffing) :
    ¬effect.IsCompletion := by
  cases effect <;> first | exact id | exact h.elim

variable [DecidableEq Key]

/-! ### Workers -/

theorem WorkerMove.writes_no_completion {d d' : Desk Key Msg} (h : WorkerMove d d') :
    d.2.Writes (fun effect => ¬effect.IsCompletion) d'.2 := by
  cases h with
  | tick w world => exact .of_log rfl
  | @discard w world job rest reason hq => exact .discard world _ reason job (fun _ => id) id
  | deliver | bounce => exact ⟨[_],rfl,by simp [Effect.IsCompletion]⟩

theorem Moves.writes_no_completion {d d' : Desk Key Msg} (h : Moves d d') :
    d.2.Writes (fun effect => ¬effect.IsCompletion) d'.2 :=
  h.preserves (P:=fun e => d.2.Writes _ e.2) (fun _ _ hm hs => hs.trans hm.writes_no_completion)
    (.of_log rfl)

variable {w : WorkerProperties Key Msg} {wid : WorkerId} {event : FactoryEvent Key Msg}
  {oracle : Oracle} {sys : System Key Msg R Q} {index : ℕ} {report : FinishedReport Key Msg}
  {input : SystemInput Key Msg}

namespace WorkerProperties

theorem enqueueJob_writes_no_completion (w : WorkerProperties Key Msg) (job : Job Key Msg)
    (world : World Key Msg) :
    world.Writes (fun effect => ¬effect.IsCompletion) (w.enqueueJob job world).2 := by
  have hre : world.Writes (fun effect => ¬effect.IsCompletion)
      (world.record (.enqueued w job)):=.record world id
  cases hr : w.refusesNewest with
  | true =>
    rw [enqueueJob_refused job world hr]
    exact hre.trans ((discard _ _ _ _ (fun _ => id) id).trans (.reject _ _ fun _ => id))
  | false =>
    exact hre.trans ((accept _ job fun _ => id).trans
      (enqueueJob_moves job world hr).writes_no_completion)

theorem replaceWorker_writes_no_completion (h : w.currJobs.entries.length≤1) (nworker : ActorId)
    (world : World Key Msg) :
    world.Writes (fun effect => ¬effect.IsCompletion) (w.replaceWorker nworker world).2 := by
  rcases replaceWorker_moves h nworker world with ⟨_,hm⟩ | ⟨key,options,_,hm⟩
  · exact hm.writes_no_completion
  · exact (record world id).trans hm.writes_no_completion

/-- A completion is booked on the worker's actor if the worker is processing the key. -/
theorem workerComplete_completions (h : w.currJobs.entries.length≤1) (key : Key)
    (world : World Key Msg) (actor : ActorId) :
    completions actor (w.workerComplete key world).2.2.log =
      completions actor world.log+if w.actor=actor ∧ w.isProcessingKey key then 1 else 0 := by
  cases hk : w.currJobs.lookup key with
  | none => simp [workerComplete,isProcessingKey,hk]
  | some options =>
    have hm:=(workerComplete_moves h hk world).writes_no_completion.completions actor
    rw [hm,World.record_log,completions_append]
    simp [completions,Effect.completedBy,isProcessingKey,hk]

end WorkerProperties

/-! ### The factory -/

section Factory
variable [Router R Key Msg] [LawfulRouter R] [Queue Q Key Msg] [LawfulQueue Q]
  {H : Option HandlerId→Prop} {hint : Option WorkerId} {s s' : FactoryState Key Msg R Q}

omit [DecidableEq Key] [Router R Key Msg] [LawfulRouter R] in
theorem Housekeeping.writes_no_completion (h : Housekeeping s s') :
    s.world.Writes (fun effect => ¬effect.IsCompletion) s'.world :=
  h.writes.imp fun _ => Effect.IsHousekeeping.not_completion

theorem RoutingMove.writes_no_completion {a b : Hand Key Msg R Q} (h : RoutingMove H hint a b) :
    a.1.world.Writes (fun effect => ¬effect.IsCompletion) b.1.world := by
  cases h with
  | quiet s hand hr hw => exact .of_log hw.log
  | keep hk => exact hk.housekeeping.writes_no_completion
  | note s hand h => exact (Housekeeping.note s h).writes_no_completion
  | arrive s job => exact ⟨[_],rfl,by simp [Effect.IsCompletion]⟩
  | take | store => exact .of_log rfl
  | discard s job reason => exact .discard s.world _ reason job (fun _ => id) id
  | enqueue => exact enqueueJob_writes_no_completion _ _ _

theorem Routing.writes_no_completion {a b : Hand Key Msg R Q} (h : Routing H hint a b) :
    a.1.world.Writes (fun effect => ¬effect.IsCompletion) b.1.world :=
  h.preserves (P:=fun c => a.1.world.Writes _ c.1.world)
    (fun _ _ hm hs => hs.trans hm.writes_no_completion) (.of_log rfl)

namespace FactoryState

omit [DecidableEq Key] [LawfulRouter R] in
theorem starts_completions {args : FactoryArguments R Q} (h : Starts args s) (actor : ActorId) :
    completions actor s.world.log=0 :=
  starts_rec (P:=fun _ t => completions actor t.world.log=0) (fun _ _ _ _ => rfl)
    (fun _ _ _ ha ht =>
      (((addWorker_staffing ha).2.imp fun _ => not_completion).completions actor).trans ht)
    (fun _ _ _ hk ht => (hk.writes_no_completion.completions actor).trans ht) h

omit [LawfulRouter R] in
theorem replaceExited_writes_no_completion {who : ActorId} {worker : WorkerProperties Key Msg}
    (h : s.replaceExited who wid worker=.ok s') (hc : worker.Consistent) :
    s.world.Writes (fun effect => ¬effect.IsCompletion) s'.world := by
  obtain ⟨replacement,world,hsp,hk⟩:=replaceExited_cases h
  obtain ⟨_,-,-,-,hlog⟩:=s.world.spawn_ok hsp
  have hs : s.world.Writes (fun effect => ¬effect.IsCompletion) world :=
    ⟨_,hlog,by simp [Effect.IsCompletion]⟩
  exact (hs.trans (replaceWorker_writes_no_completion hc.slot replacement world)).trans
    hk.writes_no_completion

def booked (s : FactoryState Key Msg R Q) (actor : ActorId) : FactoryEvent Key Msg → ℕ
  | .message (.finished who key) =>
    if (s.pool.lookup who).any fun w => decide (w.actor=actor) && w.isProcessingKey key then 1
    else 0
  | _ => 0

theorem workerFinishedJob_completions {who : WorkerId} {key : Key}
    (h : s.workerFinishedJob who key=.ok s') (hc : WorkersConsistent s) (actor : ActorId) :
    completions actor s'.world.log =
      completions actor s.world.log+s.booked actor (.message (.finished who key)) := by
  have hco : completions actor (s.completeJob who key).world.log =
      completions actor s.world.log+s.booked actor (.message (.finished who key)) := by
    unfold completeJob booked
    cases hl : s.pool.lookup who with
    | none => simp [hl]
    | some w =>
      have hw:=workerComplete_completions (hc who w hl).slot key s.world actor
      simpa [hl] using hw
  rw [← hco]
  cases workerFinishedJob_cases h with
  | draining => rfl
  | @dropped worker _ _ _ =>
    have hw : (s.completeJob who key).world.Writes (fun effect => ¬effect.IsCompletion)
        ((s.completeJob who key).dropWorker who worker).world:=.record _ id
    exact hw.completions actor
  | freed _ hr =>
    exact (routeToFreed_routing hr : Routing (fun _ => True) _ _ _).writes_no_completion.completions actor

theorem work_writes_no_completion {work : Work Key Msg} (h : s.work work=.ok s')
    (hw : ∀who key,work≠.finished who key) (hc : WorkersConsistent s) :
    s.world.Writes (fun effect => ¬effect.IsCompletion) s'.world := by
  cases work with
  | dispatch job => exact (dispatch_routing h : Routing (fun _ => True) _ _ _).writes_no_completion
  | finished who key => exact absurd rfl (hw who key)
  | exited who =>
    cases handleExit_cases h with
    | unknown => exact .of_log rfl
    | replaced hi hl ht hr =>
      exact (replaceExited_writes_no_completion ht (hc _ _ hl)).trans
        (routeToFreed_routing hr : Routing (fun _ => True) _ _ _).writes_no_completion
  | resized requestedPoolSize =>
    cases resizePool_cases h with
    | unchanged => exact .of_log rfl
    | grown _ _ hg hr =>
      exact ((growPool_staffing hg).2.imp fun _ => not_completion).trans
        (routeBacklog_routing hr : Routing (fun _ => True) _ _ _).writes_no_completion
    | shrunk => exact (shrinkPool_staffing s _).2.imp fun _ => not_completion

/-- Only the handling of a `Finished` message books a completion, and at most one. -/
theorem step_completions (h : Step s (event,oracle) s') (hc : WorkersConsistent s)
    (actor : ActorId) :
    completions actor s'.world.log=completions actor s.world.log+s.booked actor event := by
  have hc : WorkersConsistent (s.withOracle oracle):=hc
  have hlog : (s.withOracle oracle).world.log=s.world.log:=rfl
  have hbo : s.booked actor event=(s.withOracle oracle).booked actor event:=rfl
  rw [← hlog,hbo]
  rcases handleEvent_handled h with ⟨hn,hk⟩ | ⟨a,work,b,hwo,ha,hab,hb⟩
  · have hz : (s.withOracle oracle).booked actor event=0 := by
      unfold booked
      split
      · cases hn
      · rfl
    rw [hz,hk.writes_no_completion.completions actor,Nat.add_zero]
  · by_cases hf : ∃who key,work=.finished who key
    · obtain ⟨who,key,rfl⟩:=hf
      obtain ⟨rfl,rfl⟩:=workOf_finished hwo
      rw [hb.writes_no_completion.completions actor,workerFinishedJob_completions hab hc actor]
    · have hz : (s.withOracle oracle).booked actor event=0 := by
        unfold booked
        split
        · cases hwo
          exact absurd ⟨_,_,rfl⟩ hf
        · rfl
      have hw:=ha.writes_no_completion.trans ((work_writes_no_completion hab
        (fun who key he => hf ⟨who,key,he⟩) (ha.workersConsistent hc)).trans hb.writes_no_completion)
      rw [hz,hw.completions actor,Nat.add_zero]

end FactoryState
end Factory

/-! ### The system -/

namespace System

/-- A `Finished` message that was not sent by the current actor of its worker is about a key
that the worker is not processing. -/
def Attributes (sys : System Key Msg R Q) : SystemEvent Key Msg → Prop
  | .handle (.report index) _ _ =>
    ∀report∈sys.reports[index]?,∀w∈sys.factory.pool.lookup report.wid,
      w.actor≠report.sender → w.isProcessingKey report.job.key=false
  | _ => True

instance (sys : System Key Msg R Q) : ∀event,Decidable (sys.Attributes event)
  | .handle (.report _) _ _ => by
    unfold Attributes
    infer_instance
  | .handle (.request _) _ _ => .isTrue trivial
  | .handle (.exit _ _) _ _ => .isTrue trivial
  | .finish _ _ => .isTrue trivial
  | .crash _ => .isTrue trivial

/-- What actors have finished agrees with what was delivered to them and booked on them. -/
structure Books (sys : System Key Msg R Q) : Prop where
  finished : ∀actor,sys.done actor≤(deliveries actor sys.factory.world.log).length
  sent : ∀report∈sys.reports,Effect.spawned report.sender report.wid∈sys.factory.world.log
  account : ∀wid w,sys.factory.pool.lookup wid=some w →
    ∃past,(deliveries w.actor sys.factory.world.log).take (sys.done w.actor) =
        past++sys.reported w.actor ∧
      past.length=completions w.actor sys.factory.world.log

/-- The active job of a worker is in the mailbox of its actor, or the report about it is in
flight. -/
theorem Books.slot (hb : Books sys) (hs : Staffed sys.factory)
    (hl : sys.factory.pool.lookup wid=some w) :
    w.currJobs.entries=(sys.reported w.actor++sys.mailbox w.actor).map Job.entry := by
  obtain ⟨past,ht,hp⟩:=hb.account wid w hl
  obtain ⟨past',active,hlog,hp',hsl⟩:=(hs.posted wid w hl).ledgered
  have hsp : past++(sys.reported w.actor++sys.mailbox w.actor)=past'++active := by
    rw [← hlog,← append_assoc,← ht]
    exact take_append_drop _ _
  rw [hsl,(append_inj hsp (hp.trans hp'.symm)).2]

theorem Books.slot_length (hb : Books sys) (hs : Staffed sys.factory)
    (hl : sys.factory.pool.lookup wid=some w) :
    (sys.reported w.actor).length+(sys.mailbox w.actor).length≤1 := by
  have hlen:=(hs.posted wid w hl).consistent.slot
  rwa [hb.slot hs hl,length_map,length_append] at hlen

section

omit [DecidableEq Key]

/-- A message that is taken up, and what stays in flight. -/
theorem reports_split (h : sys.reports[index]?=some report) :
    ∃front back,sys.reports=front++report::back ∧
      (sys.without (.report index)).reports=front++back := by
  obtain ⟨hi,rfl⟩:=List.getElem?_eq_some_iff.mp h
  refine ⟨sys.reports.take index,sys.reports.drop (index+1),?_,eraseIdx_eq_take_drop_succ _ _⟩
  rw [← drop_eq_getElem_cons hi,take_append_drop]

/-- The reports of an actor that did not send the message taken up stay in flight. -/
theorem reported_without (h : sys.reports[index]?=some report) {actor : ActorId}
    (ha : report.sender≠actor) :
    (sys.without (.report index)).reported actor=sys.reported actor := by
  obtain ⟨front,back,hall,hr⟩:=reports_split h
  unfold reported
  rw [hall,hr]
  simp [ha]

/-- The sender of the message taken up has one report less in flight. -/
theorem reported_sender (h : sys.reports[index]?=some report)
    (hone : (sys.reported report.sender).length≤1) :
    sys.reported report.sender=[report.job] ∧
      (sys.without (.report index)).reported report.sender=[] := by
  obtain ⟨front,back,hall,hr⟩:=reports_split h
  unfold reported at hone ⊢
  rw [hall] at hone ⊢
  rw [hr]
  simp only [filter_append,filter_cons,decide_true,if_true,map_append,
    map_cons,length_append,length_cons] at hone ⊢
  have hf:=length_eq_zero_iff.mp (show (map FinishedReport.job
    (front.filter fun r => decide (r.sender=report.sender))).length=0 by omega)
  have hb:=length_eq_zero_iff.mp (show (map FinishedReport.job
    (back.filter fun r => decide (r.sender=report.sender))).length=0 by omega)
  rw [hf,hb]
  exact ⟨rfl,rfl⟩

/-- Nothing joins the reports in flight when an input is taken up. -/
theorem without_reports (sys : System Key Msg R Q) (input : SystemInput Key Msg) :
    (sys.without input).reports.Sublist sys.reports := by
  cases input with
  | report index => exact eraseIdx_sublist _ _
  | request message | exit index failed => exact .refl _

end

theorem booked_other (he : sys.eventOf input=some event) (hn : ∀index,input≠.report index)
    (actor : ActorId) : sys.factory.booked actor event=0 := by
  cases input with
  | report index => exact absurd rfl (hn index)
  | exit index failed =>
    obtain ⟨who,_,rfl⟩:=map_eq_some_iff.mp he
    rfl
  | request message =>
    cases message with
    | finished who key => cases he
    | _ =>
      cases he
      rfl

/-- Taking up a report settles the account of its sender, if that is the worker, and leaves the
accounts of other actors alone. -/
theorem account_without {closing : List ActorId} (he : sys.eventOf input=some event)
    (hs : Staffed sys.factory) (hg : sys.Attributes (.handle input oracle closing)) (hb : Books sys)
    (hl : sys.factory.pool.lookup wid=some w) :
    ∃past,(deliveries w.actor sys.factory.world.log).take (sys.done w.actor) =
        past++(sys.without input).reported w.actor ∧
      past.length = completions w.actor sys.factory.world.log+sys.factory.booked w.actor event := by
  obtain ⟨past,ht,hpa⟩:=hb.account wid w hl
  cases input with
  | request message | exit index failed =>
    rw [booked_other he (fun _ => nofun)]
    exact ⟨past,ht,hpa⟩
  | report index =>
    obtain ⟨report,hr,rfl⟩:=map_eq_some_iff.mp he
    have hsp:=hb.sent report (mem_of_getElem? hr)
    by_cases hse : report.sender=w.actor
    · -- the worker has sent the report, so it is about the one active job
      have hwid : report.wid=wid := by
        refine hs.unique report.sender _ _ hsp ?_
        rw [hse]
        exact (hs.posted wid w hl).spawned
      have hlen:=hb.slot_length hs hl
      rw [← hse] at hlen ht hpa ⊢
      obtain ⟨hone,hn⟩:=reported_sender hr (by omega)
      have hsl:=hb.slot hs hl
      rw [← hse,hone] at hsl
      have hac : w.isProcessingKey report.job.key=true := by
        rw [isProcessingKey,AList.lookup_isSome,AList.mem_keys,AList.keys,hsl]
        exact mem_cons_self
      have hbo : sys.factory.booked report.sender
          (.message (.finished report.wid report.job.key))=1 := by
        refine if_pos ((any_eq_true _ _).mpr ⟨w,?_,by simp [hse,hac]⟩)
        rw [hwid]
        exact hl
      refine ⟨past++[report.job],?_,?_⟩
      · rw [ht,hone,hn,append_nil]
      · rw [hbo,length_append,hpa]
        rfl
    · have hbo : sys.factory.booked w.actor (.message (.finished report.wid report.job.key))=0 := by
        unfold booked
        refine if_neg fun hany => ?_
        obtain ⟨v,hv,hva⟩:=(any_eq_true _ _).mp hany
        obtain ⟨ha,hp⟩:=Bool.and_eq_true_iff.mp hva
        have ha:=of_decide_eq_true ha
        have hst:=hg report hr v hv fun h => hse (h.symm.trans ha)
        rw [hst] at hp
        cases hp
      rw [hbo,reported_without hr hse]
      exact ⟨past,ht,hpa⟩

variable [Router R Key Msg] [LawfulRouter R] [Queue Q Key Msg] [LawfulQueue Q]

theorem account_handle {closing : List ActorId} {factory : FactoryState Key Msg R Q}
    (he : sys.eventOf input=some event)
    (hst : FactoryState.Step sys.factory (event,oracle) factory)
    (hg : sys.Attributes (.handle input oracle closing)) (hc : WorkersConsistent sys.factory)
    (hs : Staffed sys.factory) (hb : Books sys) (hl : factory.pool.lookup wid=some w) :
    ∃past,(deliveries w.actor factory.world.log).take (sys.done w.actor) =
        past++(sys.without input).reported w.actor ∧
      past.length=completions w.actor factory.world.log := by
  have hcont:=step_continues hst hs
  obtain ⟨effects,hlog⟩:=hcont.log
  rw [step_completions hst hc]
  rcases hcont.actor wid w hl with ⟨v,hv,hva⟩ | hf
  · obtain ⟨past,ht,hp⟩:=account_without he hs hg hb hv
    rw [hva] at ht hp
    rw [hlog,deliveries_append,take_append_of_le_length (hb.finished _)]
    exact ⟨past,ht,hp⟩
  · -- a fresh actor has sent nothing and has nothing booked on it
    obtain ⟨hd,hco⟩:=hs.unknown hf
    have hdo : sys.done w.actor=0 := by
      have hle:=hb.finished w.actor
      rwa [hd,length_nil,Nat.le_zero] at hle
    have hr : (sys.without input).reported w.actor=[] := by
      refine map_eq_nil_iff.mpr (filter_eq_nil_iff.mpr fun report hm hse => ?_)
      have hsp:=hb.sent report ((without_reports sys input).subset hm)
      refine hs.known _ hsp report.sender rfl ?_
      rwa [of_decide_eq_true hse]
    have hbo : sys.factory.booked w.actor event=0 := by
      unfold booked
      split
      · refine if_neg fun hany => ?_
        obtain ⟨v,hv,hva⟩:=(any_eq_true _ _).mp hany
        obtain ⟨ha,_⟩:=Bool.and_eq_true_iff.mp hva
        exact hs.not_fresh hv (of_decide_eq_true ha ▸ hf)
      · rfl
    refine ⟨[],?_,?_⟩
    · rw [hdo,hr]
      rfl
    · rw [hco,hbo]
      rfl

theorem Step.books {sys' : System Key Msg R Q} {event : SystemEvent Key Msg}
    (h : Step sys event sys') (hg : sys.Attributes event) (hc : WorkersConsistent sys.factory)
    (hs : Staffed sys.factory) (hb : Books sys) : Books sys' := by
  cases h with
  | @handle input event oracle closing factory he hst _ _ =>
    obtain ⟨effects,hlog⟩:=(step_continues hst hs).log
    have hd:=(without_frame sys input).2.1
    refine ⟨fun actor => ?_,fun report hm => ?_,fun wid w hl => ?_⟩
    · change (sys.without input).done actor≤(deliveries actor factory.world.log).length
      rw [hd,hlog,deliveries_append,length_append]
      exact Nat.le_add_right_of_le (hb.finished actor)
    · change Effect.spawned report.sender report.wid∈factory.world.log
      rw [hlog]
      exact mem_append_left _ (hb.sent report ((without_reports sys input).subset hm))
    · change ∃past,(deliveries w.actor factory.world.log).take ((sys.without input).done w.actor) =
        past++(sys.without input).reported w.actor ∧ _
      rw [hd]
      exact account_handle he hst hg hc hs hb hl
  | @finish actor wid job rest _ hem hma =>
    obtain ⟨wid',hsp,hwid⟩:=employs_iff.mp hem
    obtain rfl:=of_decide_eq_true hwid
    have hn : (deliveries actor sys.factory.world.log)[sys.done actor]?=some job := by
      have hf:=congrArg (fun jobs => jobs[0]?) hma
      rwa [mailbox,List.getElem?_drop,Nat.add_zero] at hf
    refine ⟨fun actor' => ?_,fun report hm => ?_,fun k w hl => ?_⟩
    · by_cases ha : actor'=actor
      · subst ha
        obtain ⟨hlt,-⟩:=List.getElem?_eq_some_iff.mp hn
        simpa using Nat.succ_le_of_lt hlt
      · simpa [ha] using hb.finished actor'
    · rcases mem_append.mp hm with hm | hm
      · exact hb.sent report hm
      · obtain rfl:=mem_singleton.mp hm
        exact hsp
    · obtain ⟨past,ht,hp⟩:=hb.account k w hl
      refine ⟨past,?_,hp⟩
      by_cases ha : w.actor=actor
      · subst ha
        have ht':=take_add_one (l:=deliveries w.actor sys.factory.world.log) (i:=sys.done w.actor)
        rw [hn,ht] at ht'
        simpa [reported] using ht'
      · have hne : actor≠w.actor:=fun h => ha h.symm
        simpa [reported,ha,hne] using ht
  | crash => exact ⟨hb.finished,hb.sent,hb.account⟩

/-- In a run that attributes its completions, the books are in order. -/
theorem guarded_books {args : FactoryArguments R Q}
    (h : Reachable (Starts args) (guarded Attributes Step) sys) : Books sys := by
  induction h with
  | @start sys h =>
    obtain ⟨hst,hsys⟩:=h
    rw [hsys]
    exact ⟨fun _ => Nat.zero_le _,fun _ hm => (by cases hm),
      fun _ w _ => ⟨[],rfl,(starts_completions hst w.actor).symm⟩⟩
  | @next sys event sys' h hs ih =>
    have hr:=reached_factory h
    exact hs.2.books hs.1 (reached_shaped hr).2 (reached_staffed hr) ih

end System

/-- Bookkeeping across replacement is exact, as long as no `Finished` message of a replaced actor
is about a key its worker is processing: the active jobs of a worker are the jobs delivered to
its current actor that are still in the mailbox or whose report is in flight, and the mailbox
never holds two jobs. -/
theorem bookkeeping_exact {L P : Type} [Hashable Key] [RateLimiter L] [Priority P]
    (args : FactoryArguments (BuiltInRouter Key Msg L) (BuiltInQueue Key Msg P))
    {sys : System Key Msg (BuiltInRouter Key Msg L) (BuiltInQueue Key Msg P)}
    (h : Reachable (System.Starts args) (guarded System.Attributes System.Step) sys) :
    ∀wid w,sys.factory.pool.lookup wid=some w →
      w.currJobs.entries=(sys.reported w.actor++sys.mailbox w.actor).map Job.entry ∧
        (sys.mailbox w.actor).length≤1 := by
  intro wid w hl
  have hb:=System.guarded_books h
  have hs:=reached_staffed (System.reached_factory h)
  have hlen:=hb.slot_length hs hl
  exact ⟨hb.slot hs hl,by omega⟩

/-- One worker, two jobs of different keys. The worker finishes the first one and crashes; its
replacement is given the second one before the stale report is handled. -/
theorem bookkeeping_exact_replayed :
    ∃sys,Reachable (System.Starts
        (.plain 1 (.bare (.roundRobin {}) : BuiltInRouter ℕ Unit Unlimited)))
        (guarded System.Attributes System.Step) sys ∧
      (sys.factory.pool.lookup 0).any (fun w => w.isProcessingKey 2)=true ∧
      ∀wid w,sys.factory.pool.lookup wid=some w →
        w.currJobs.entries=(sys.reported w.actor++sys.mailbox w.actor).map Job.entry ∧
          (sys.mailbox w.actor).length≤1 := by
  obtain ⟨sys,hs,ht⟩:=System.exists_guarded
    (.plain 1 (.bare (.roundRobin {}) : BuiltInRouter ℕ Unit Unlimited)) System.Attributes
    (fun sys event => decide (System.Attributes sys event)) (fun _ _ => of_decide_eq_true) .calm 10
    [.handle (.request (.dispatch (.plain 1))) .calm [],
      .handle (.request (.dispatch (.plain 2))) .calm [],
      .finish (.ofLocal 10) 0,.crash (.ofLocal 10),
      .handle (.exit 0 true) .calm [],.handle (.report 0) .calm []]
    (fun sys => (sys.factory.pool.lookup 0).any fun w => w.isProcessingKey 2) rfl
    (by decide +kernel)
  exact ⟨sys,hs,ht,bookkeeping_exact _ hs⟩

/-- The same with two jobs of one key: the stale report completes the job that the replacement
has in its mailbox. -/
theorem stale_completion_accepted :
    ∃sys,Reachable (System.Starts
        (.plain 1 (.bare (.roundRobin {}) : BuiltInRouter ℕ Unit Unlimited))) System.Step sys ∧
      ∃w,sys.factory.pool.lookup 0=some w ∧ w.currJobs=∅ ∧ (sys.mailbox w.actor).length=1 := by
  obtain ⟨sys,hs,ht⟩:=System.exists_reached
    (.plain 1 (.bare (.roundRobin {}) : BuiltInRouter ℕ Unit Unlimited)) .calm 10
    [.handle (.request (.dispatch (.plain 1))) .calm [],
      .handle (.request (.dispatch (.plain 1))) .calm [],
      .finish (.ofLocal 10) 0,.crash (.ofLocal 10),
      .handle (.exit 0 true) .calm [],.handle (.report 0) .calm []]
    (fun sys => (sys.factory.pool.lookup 0).any fun w =>
      w.currJobs.entries.isEmpty && (sys.mailbox w.actor).length == 1) rfl (by decide +kernel)
  obtain ⟨w,hl,hw⟩:=(any_eq_true _ _).mp ht
  obtain ⟨hj,hm⟩:=Bool.and_eq_true_iff.mp hw
  exact ⟨sys,hs,w,hl,w.currJobs_eq_empty (isEmpty_iff.mp hj),by simpa using hm⟩

end Ractor.Factory
