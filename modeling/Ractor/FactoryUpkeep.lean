import Ractor.FactoryRoutingAttempts

/-!
# The queue and the discard settings in the hands of the factory

Two things that the work of a factory keeps. The queue is only ever changed by its own
operations, so what they preserve holds of it in every run. A worker takes its discard settings
from the factory when it is created; if the factory has none to give, no worker sheds load.
-/

namespace Ractor.Factory
open Router

variable {Key Msg R Q : Type} [DecidableEq Key] [Router R Key Msg] [LawfulRouter R]
  [Queue Q Key Msg]

open FiniteMap (lookup_insert_eq_some lookup_erase_eq_some)
open WorkerProperties

structure QueueInvariant (I : Q → Prop) : Prop where
  popFront : ∀{q q' : Q} {job : Job Key Msg},Queue.popFront q=some (job,q') → I q → I q'
  discardOldest : ∀{q q' : Q} {job : Job Key Msg},
    Queue.discardOldest q=some (job,q') → I q → I q'
  pushBack : ∀{q q' : Q} {job : Job Key Msg},Queue.pushBack q job=.ok q' → I q → I q'
  removeExpiredItems : ∀(q : Q) (handler : Option HandlerId) (world : World Key Msg),
    I q → I (Queue.removeExpiredItems q handler world).2.1

/-- Whether jobs wait in the factory or at the workers is fixed by the routing rule. -/
class QueueingByRule (R : Type) {Key Msg : outParam Type} [DecidableEq Key] [Router R Key Msg]
    [LawfulRouter R] : Prop where
  queueing_eq {r r' : R} (h : LawfulRouter.rule r'=LawfulRouter.rule r) :
    isFactoryQueueing r'=isFactoryQueueing r

section Instances

instance [Hashable Key] : QueueingByRule (KeyPersistentRouting Key Msg):=⟨fun _ => rfl⟩

instance [Hashable Key] : QueueingByRule (BareRouter Key Msg) where
  queueing_eq {r r'} h := by
    cases r <;> cases r' <;> first | rfl | cases h

instance [Hashable Key] {L : Type} [RateLimiter L] : QueueingByRule (BuiltInRouter Key Msg L) where
  queueing_eq {r r'} h := by
    cases r <;> cases r' <;> exact QueueingByRule.queueing_eq (R:=BareRouter Key Msg) h

end Instances

def Unshedding (s : FactoryState Key Msg R Q) : Prop :=
  ∀wid w,s.pool.lookup wid=some w → w.discardSettings=.none

structure Upkeep (I : Q → Prop) (s s' : FactoryState Key Msg R Q) : Prop where
  queue : I s.queue → I s'.queue
  rule : LawfulRouter.rule s'.router=LawfulRouter.rule s.router
  unshedding : isFactoryQueueing s.router=true → Unshedding s → Unshedding s'

variable {I : Q→Prop} {s s' t : FactoryState Key Msg R Q} {H : Option HandlerId→Prop}
  {hint : Option WorkerId}

namespace Upkeep

omit [Queue Q Key Msg]

theorem refl (s : FactoryState Key Msg R Q) : Upkeep I s s:=⟨id,rfl,fun _ => id⟩

theorem trans [QueueingByRule R] (h : Upkeep I s s') (h' : Upkeep I s' t) : Upkeep I s t := by
  refine ⟨fun hq => h'.queue (h.queue hq),h'.rule.trans h.rule,fun hr hs => ?_⟩
  refine h'.unshedding ?_ (h.unshedding hr hs)
  rw [QueueingByRule.queueing_eq h.rule,hr]

theorem of_pool (hq : I s.queue→I s'.queue)
    (hr : LawfulRouter.rule s'.router=LawfulRouter.rule s.router) (hp : s'.pool=s.pool) :
    Upkeep I s s' :=
  ⟨hq,hr,fun _ hs wid w hl => hs wid w (hp ▸ hl)⟩

theorem of_insert (hq : s'.queue=s.queue)
    (hr : LawfulRouter.rule s'.router=LawfulRouter.rule s.router) {wid : WorkerId}
    {w' : WorkerProperties Key Msg} (hp : s'.pool=s.pool.insert wid w')
    (hw : isFactoryQueueing s.router=true→Unshedding s→w'.discardSettings=.none) :
    Upkeep I s s' := by
  refine ⟨hq ▸ id,hr,fun hf hs k v hk => ?_⟩
  rw [hp] at hk
  rcases lookup_insert_eq_some.mp hk with ⟨_,rfl⟩ | ⟨_,hk⟩
  · exact hw hf hs
  · exact hs k v hk

end Upkeep

/-! ### Moves -/

theorem KeepingMove.upkeep (hI : QueueInvariant I) (h : KeepingMove H s s') : Upkeep I s s' := by
  cases h with
  | adjust _ hl hd => exact .of_insert rfl rfl rfl fun hr hs => hd hr (hs _ _ hl)
  | sweep => exact .of_pool (hI.removeExpiredItems _ _ _) rfl rfl
  | _ => exact .of_pool id rfl rfl

theorem RoutingMove.upkeep (hI : QueueInvariant I) {a b : Hand Key Msg R Q}
    (h : RoutingMove H hint a b) : Upkeep I a.1 b.1 := by
  cases h with
  | quiet s hand hr => exact .of_pool id hr rfl
  | keep hk => exact hk.upkeep hI
  | take s h => exact .of_pool (h.elim hI.popFront hI.discardOldest) rfl rfl
  | store s h => exact .of_pool (hI.pushBack h) rfl rfl
  | @enqueue s wid w job hl =>
    have hf:=(w.enqueueJob_frame job s.world).discardSettings
    exact .of_insert rfl rfl rfl fun _ hs => hf.trans (hs _ _ hl)
  | _ => exact .of_pool id rfl rfl

variable [QueueingByRule R]

theorem Routing.upkeep (hI : QueueInvariant I) {a b : Hand Key Msg R Q} (h : Routing H hint a b) :
    Upkeep I a.1 b.1 :=
  h.preserves (P:=fun c => Upkeep I a.1 c.1) (fun _ _ hm ha => ha.trans (hm.upkeep hI)) (.refl _)

theorem FactoryMove.upkeep (hI : QueueInvariant I) (h : FactoryMove H s s')
    (hc : WorkersConsistent s) : Upkeep I s s' := by
  cases h with
  | routing h => exact h.upkeep hI
  | complete key hl =>
    have hf:=(workerComplete_frame (hc _ _ hl).slot key s.world).discardSettings
    exact .of_insert rfl rfl rfl fun _ hs => hf.trans (hs _ _ hl)
  | @replace _ _ replacement wid w world _ hl _ =>
    have hf:=(replaceWorker_frame (hc _ _ hl).slot replacement world).discardSettings
    exact .of_insert rfl rfl rfl fun _ hs => hf.trans (hs wid w hl)
  | add _ h =>
    obtain ⟨_,_,-,rfl⟩:=FactoryState.addWorker_ok h
    exact .of_insert rfl (LawfulRouter.availability_rule _ _ _) rfl fun hr _ => if_pos hr
  | @setDraining _ wid w _ hl => exact .of_insert rfl rfl rfl fun _ hs => hs wid w hl
  | remove => exact ⟨id,rfl,fun _ hs k v hk => hs k v (lookup_erase_eq_some.mp hk).2⟩
  | setPoolSize => exact .of_pool id rfl rfl

theorem FactoryMoves.upkeep [LawfulQueue Q] (hI : QueueInvariant I) (h : FactoryMoves H s s')
    (hc : WorkersConsistent s) : Upkeep I s s' :=
  (h.preserves (P:=fun t => WorkersConsistent t ∧ Upkeep I s t)
    (fun _ _ hm ⟨hc,ht⟩ => ⟨hm.workersConsistent hc,ht.trans (hm.upkeep hI hc)⟩)
    ⟨hc,.refl s⟩).2

namespace FactoryState

theorem step_upkeep [LawfulQueue Q] (hI : QueueInvariant I) {label : FactoryEvent Key Msg × Oracle}
    (h : Step s label s') (hc : WorkersConsistent s) : Upkeep I s s' :=
  (step_moves (installs_all label.1) h).upkeep hI hc

theorem starts_upkeep [LawfulQueue Q] (hI : QueueInvariant I) {args : FactoryArguments R Q}
    (h : Starts args s) :
    ∃oracle firstPid firstJob,Upkeep I (initial args oracle firstPid firstJob) s := by
  obtain ⟨oracle,firstPid,firstJob,-,hs⟩:=h
  refine ⟨oracle,firstPid,firstJob,?_⟩
  exact (preStart_moves hs : FactoryMoves (fun _ => True) _ _).upkeep hI nofun

end FactoryState
end Ractor.Factory
