import Ractor.FactoryDisciplinedWork

/-!
# Jobs that must not be shed

A `PriorityManager` may declare keys that are not discardable. A factory that queues jobs itself
sheds load in two ways. In the `Newest` mode it turns a discardable job away on arrival. In the
`Oldest` mode it takes jobs out of its queue without asking, so a job that must not be shed is only
safe as long as there are enough jobs of lower priority, or older ones, to be shed before it.
-/

namespace Ractor.Factory
open FactoryState FactoryArguments Discipline

variable {Key Msg P : Type}

/-- Every job may be started, and the jobs that may be shed are those a manager declares. -/
def Discipline.discardable (manager : PriorityManager Key P) : Discipline Key Msg where
  Live _:=True
  Sheds job:=manager.isDiscardable job.key=true
  live_taken _ _:=trivial

variable [Priority P]

/-- No queue operation exchanges the manager. -/
theorem PriorityQueue.manager_invariant (manager : PriorityManager Key P) :
    QueueInvariant fun queue : PriorityQueue Key Msg P => queue.priorityManager=manager where
  popFront h hq := by
    obtain ⟨popped,_,he⟩:=Option.map_eq_some_iff.mp h
    cases he
    exact hq
  discardOldest h hq := by
    obtain ⟨popped,_,he⟩:=Option.map_eq_some_iff.mp h
    cases he
    exact hq
  pushBack {q q' job} h hq := by
    change (if _ then _ else _)=_ at h
    split at h
    · cases h
      exact hq
    · cases h
  removeExpiredItems _ _ _ hq:=hq

/-! ### The order of shedding -/

namespace PriorityQueue

/-- The jobs from the lowest priority up, the oldest of each priority first. -/
def shedOrder (queue : PriorityQueue Key Msg P) : List (Job Key Msg):=queue.queues.reverse.flatten

/-- A job that is not discardable has as many jobs before it as the queue is above the limit. -/
def Spares (limit : ℕ) (queue : PriorityQueue Key Msg P) : Prop :=
  ∀p∈queue.shedOrder.zipIdx,queue.priorityManager.isDiscardable p.1.key=false →
    Queue.len queue≤limit+p.2

instance (limit : ℕ) (queue : PriorityQueue Key Msg P) : Decidable (queue.Spares limit) :=
  inferInstanceAs (Decidable (∀p∈queue.shedOrder.zipIdx,_))

theorem discardOldest_shedOrder {queue queue' : PriorityQueue Key Msg P} {job : Job Key Msg}
    (h : Queue.discardOldest queue=some (job,queue')) :
    queue.shedOrder=job::queue'.shedOrder ∧ queue'.priorityManager=queue.priorityManager := by
  obtain ⟨⟨job',queues⟩,hp,he⟩:=Option.map_eq_some_iff.mp h
  cases he
  refine ⟨?_,rfl⟩
  simp only [shedOrder,List.reverse_reverse]
  exact popFirst_some hp

/-- A queue that spares what is not discardable goes on doing so while it is shed. -/
theorem Spares.yields {limit : ℕ} {queue : PriorityQueue Key Msg P} (h : queue.Spares limit) :
    (discardable queue.priorityManager).Yields limit queue := by
  refine ⟨fun q => q.Spares limit ∧ q.priorityManager=queue.priorityManager,⟨h,rfl⟩,?_⟩
  rintro q job q' ⟨hs,hm⟩ hlt hd
  have hlen:=(LawfulQueue.discardOldest_some hd).length_eq
  obtain ⟨ho,hm'⟩:=discardOldest_shedOrder hd
  rw [List.length_cons,← LawfulQueue.len_eq,← LawfulQueue.len_eq] at hlen
  unfold Spares at hs
  rw [ho,hm] at hs
  refine ⟨?_,?_,hm'.trans hm⟩
  · by_contra hj
    have hle:=hs (job,0) (by simp) (by simpa [discardable] using hj)
    omega
  · rintro ⟨other,i⟩ hp hn
    rw [List.mk_mem_zipIdx_iff_getElem?] at hp
    have hle:=hs (other,i+1) (List.mk_mem_zipIdx_iff_getElem?.mpr hp) (by rwa [hm',hm] at hn)
    dsimp only at hle ⊢
    omega

end PriorityQueue

/-- In the `Oldest` mode, the queue spares what is not discardable once a job has joined it that is
not expired and comes before the factory is draining. -/
def FactoryState.ShedsDiscardable {R : Type} (s : FactoryState Key Msg R (PriorityQueue Key Msg P)) :
    Work Key Msg → Prop
  | .dispatch job => job.isExpired s.world.now=false → s.drainState=.notDraining →
    ∀setting∈s.discardSettings.getLimitAndMode,setting.2=.oldest →
      ∀queue∈(Queue.pushBack s.queue (job.numbered s.world.nextJob).taken).toOption,
        queue.Spares setting.1
  | _ => True

instance {R : Type} (s : FactoryState Key Msg R (PriorityQueue Key Msg P)) :
    ∀work,Decidable (s.ShedsDiscardable work)
  | .dispatch _ =>
    inferInstanceAs (Decidable (_→_→∀setting∈s.discardSettings.getLimitAndMode,_))
  | .finished _ _ => .isTrue trivial
  | .exited _ => .isTrue trivial
  | .resized _ => .isTrue trivial

theorem FactoryState.ShedsDiscardable.yieldsTo {R : Type} {manager : PriorityManager Key P}
    {s : FactoryState Key Msg R (PriorityQueue Key Msg P)} {job : Job Key Msg}
    (h : s.ShedsDiscardable (.dispatch job)) (he : job.isExpired s.world.now=false)
    (hd : s.drainState=.notDraining)
    (hm : s.queue.priorityManager=manager) :
    (discardable manager).YieldsTo s.discardSettings s.queue (job.numbered s.world.nextJob) := by
  unfold YieldsTo
  split
  · exact fun hd => hm ▸ hd
  next limit hl =>
    intro queue hp
    have hq:=(PriorityQueue.manager_invariant manager).pushBack hp hm
    exact hq ▸ (h he hd (limit,.oldest) hl rfl queue (by rw [hp]; rfl)).yields
  · trivial

variable {L : Type} [DecidableEq Key] [Hashable Key] [RateLimiter L]
  {s s' : FactoryState Key Msg (BuiltInRouter Key Msg L) (PriorityQueue Key Msg P)}

/-- What a run with a queueing router keeps: the manager, workers that do not shed, and a log
without jobs that were wrongly shed. -/
structure ShedsRightly (manager : PriorityManager Key P)
    (s : FactoryState Key Msg (BuiltInRouter Key Msg L) (PriorityQueue Key Msg P)) : Prop where
  queueing : Router.isFactoryQueueing s.router=true
  managed : s.queue.priorityManager=manager
  unshedding : Unshedding s
  consistent : WorkersConsistent s
  log : ∀effect∈s.world.log,(discardable manager).Permits effect

namespace ShedsRightly
variable {manager : PriorityManager Key P}

theorem step {label : FactoryEvent Key Msg × Oracle} (h : ShedsRightly manager s)
    (hg : WorkMeets ShedsDiscardable s label)
    (hst : Step s label s') : ShedsRightly manager s' := by
  have hu:=step_upkeep (PriorityQueue.manager_invariant manager) hst h.consistent
  have hc : (discardable manager).CoversStaff (s.withOracle label.2) :=
    .inr ⟨h.queueing,h.unshedding⟩
  have hs : ∀a work,(s.withOracle label.2).workOf label.1=some (a,work) →
      Suits (discardable manager) a work := by
    intro a work hw
    refine ⟨fun _ _ _ _ _ => trivial,?_⟩
    rintro job rfl he hn
    have hd:=hg a _ hw
    obtain ⟨-,rfl⟩:=workOf_dispatch hw
    exact hd.yieldsTo he hn h.managed
  obtain ⟨-,effects,hlog,hp⟩:=handleEvent_obeys hst hs hc h.consistent ⟨nofun,fun _ _ _ => trivial⟩
  refine ⟨?_,hu.queue h.managed,hu.unshedding h.queueing h.unshedding,
    (step_moves (installs_all label.1) hst).workersConsistent h.consistent,fun effect hm => ?_⟩
  · rw [QueueingByRule.queueing_eq hu.rule,h.queueing]
  · rw [hlog] at hm
    exact (List.mem_append.mp hm).elim (h.log effect) (hp effect)

theorem starts {args : FactoryArguments (BuiltInRouter Key Msg L) (PriorityQueue Key Msg P)}
    (hr : Router.isFactoryQueueing args.router=true) (h : Starts args s) :
    ShedsRightly args.queue.priorityManager s := by
  obtain ⟨oracle,firstPid,firstJob,hu⟩:=starts_upkeep
    (PriorityQueue.manager_invariant args.queue.priorityManager) h
  obtain ⟨_,_,_,ho⟩:=starts_obeys (d:=discardable args.queue.priorityManager) h
  obtain ⟨-,effects,hlog,hp⟩:=ho ⟨nofun,fun _ _ _ => trivial⟩
  refine ⟨?_,hu.queue rfl,hu.unshedding hr (fun _ _ hl => by cases hl),
    starts_consistent h,fun effect hm => ?_⟩
  · rw [QueueingByRule.queueing_eq hu.rule]
    exact hr
  · rw [hlog] at hm
    exact hp effect hm

end ShedsRightly

/-- A factory that queues jobs itself never sheds a job that is not discardable, as long as the
`Oldest` mode finds discardable jobs to shed. -/
theorem nondiscardable_never_shed
    (args : FactoryArguments (BuiltInRouter Key Msg L) (PriorityQueue Key Msg P))
    (hr : Router.isFactoryQueueing args.router=true)
    (h : Reachable (Starts args) (guarded (WorkMeets ShedsDiscardable) Step) s) :
    ∀handler job,.discarded handler .loadshed job∈s.world.log →
      args.queue.priorityManager.isDiscardable job.key=true := by
  have hs : ShedsRightly args.queue.priorityManager s :=
    h.invariant (fun _ hs => .starts hr hs) fun _ _ _ hs ⟨hg,hstep⟩ => hs.step hg hstep
  exact fun handler job hm => hs.log _ hm

/-! ### Runs -/

/-- Keys below 10 are discardable; keys from 20 on have the lowest priority. -/
def smallKeysDiscardable : PriorityManager ℕ StandardPriority where
  isDiscardable key:=decide (key<10)
  getPriority key:=some (if 20≤key then .bestEffort else .normal)

/-- One worker, a discard handler and a queue that sheds its oldest job beyond one. -/
def FactoryArguments.shedding :
    FactoryArguments (BuiltInRouter ℕ Unit Unlimited) (PriorityQueue ℕ Unit StandardPriority) where
  router:=.bare (.queuer {})
  queue:=.new 5 smallKeysDiscardable
  discardHandler:=some 0
  discardSettings:=.static 1 .oldest

/-- A discardable job makes room for one that is not. -/
theorem nondiscardable_never_shed_replayed :
    ∃s,Reachable (Starts shedding) (guarded (WorkMeets ShedsDiscardable) Step) s ∧
      (s.world.log.any fun
        | .discarded _ .loadshed job => job.key == 2
        | _ => false)=true ∧
      ∀handler job,.discarded handler .loadshed job∈s.world.log →
        smallKeysDiscardable.isDiscardable job.key=true := by
  obtain ⟨s,hs,ht⟩:=exists_guarded shedding (WorkMeets ShedsDiscardable)
    (fun s label => decide (WorkMeets ShedsDiscardable s label))
    (fun _ _ => of_decide_eq_true) .calm 0
    (calmly [.dispatch (.plain 1),.dispatch (.plain 2),.dispatch (.plain 13)])
    (fun s => s.world.log.any fun
      | .discarded _ .loadshed job => job.key == 2
      | _ => false) rfl (by decide +kernel)
  exact ⟨s,hs,ht,nondiscardable_never_shed _ rfl hs⟩

/-- A job that is not discardable waits alone. The next job, of a higher priority, sheds it. -/
theorem oldest_sheds_nondiscardable :
    ∃s,Reached shedding s ∧ ∃handler job,.discarded handler .loadshed job∈s.world.log ∧
        smallKeysDiscardable.isDiscardable job.key=false := by
  obtain ⟨s,hs,ht⟩:=exists_reached shedding .calm 0
    (calmly [.dispatch (.plain 1),.dispatch (.plain 20),.dispatch (.plain 2)])
    (fun s => s.world.log.any fun
      | .discarded _ .loadshed job => !smallKeysDiscardable.isDiscardable job.key
      | _ => false) rfl (by decide +kernel)
  obtain ⟨effect,hm,he⟩:=List.any_eq_true.mp ht
  refine ⟨s,hs,?_⟩
  split at he
  next handler job => exact ⟨handler,job,hm,by simpa using he⟩
  next => cases he

end Ractor.Factory
