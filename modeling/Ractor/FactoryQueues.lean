import Ractor.FactoryWorld
import Mathlib.Algebra.GroupWithZero.Nat

/-!
# Factory queues

The trait `Queue` of `queues.rs` with its two implementations. `LawfulQueue` is what
the factory relies on: a queue is a list of jobs, the next job to pop first. Where an
implementation reorders (the priorities of `PriorityQueue`), the laws fix only the
multiset of jobs.
-/

namespace Ractor.Factory
open List Option

variable {Key Msg : Type}

/-- The trait `Queue`. `pushBack` may panic in `PriorityQueue`, on a priority index
outside the array. -/
class Queue (Q : Type) (Key Msg : outParam Type) where
  len : Q → ℕ
  isEmpty : Q → Bool
  popFront : Q → Option (Job Key Msg × Q)
  discardOldest : Q → Option (Job Key Msg × Q)
  peek : Q → Option (Job Key Msg)
  pushBack : Q → Job Key Msg → Except FactoryError Q
  removeExpiredItems : Q → Option HandlerId → World Key Msg → ℕ × Q × World Key Msg
  isJobDiscardable : Q → Key → Bool:=fun _ _ => true

/-- `retain_mut` with the expiry closure of `remove_expired_items`. -/
def retainLive (handler : Option HandlerId) :
    List (Job Key Msg) → World Key Msg → List (Job Key Msg) × World Key Msg
  | [],world => ([],world)
  | job::rest,world =>
    if job.isExpired world.now then
      retainLive handler rest (world.tick.discard handler .ttlExpired job)
    else
      let kept := retainLive handler rest world.tick
      (job::kept.1,kept.2)

structure DefaultQueue (Key Msg : Type) where
  q : List (Job Key Msg):=[]

instance : Queue (DefaultQueue Key Msg) Key Msg where
  len queue:=queue.q.length
  isEmpty queue:=queue.q.isEmpty
  popFront queue :=
    match queue.q with
    | [] => none
    | job::rest => some (job,⟨rest⟩)
  discardOldest queue :=
    match queue.q with
    | [] => none
    | job::rest => some (job,⟨rest⟩)
  peek queue:=queue.q.head?
  pushBack queue job:=.ok ⟨queue.q++[job]⟩
  removeExpiredItems queue handler world :=
    let kept := retainLive handler queue.q world
    (queue.q.length - kept.1.length,⟨kept.1⟩,kept.2)

class Priority (P : Type) where
  default : P
  ofIndex : ℕ → P
  getIndex : P → ℕ

/-- The priorities the crate provides; an unknown index is `normal`. -/
inductive StandardPriority where
  | highest
  | high
  | important
  | normal
  | bestEffort
  deriving DecidableEq, Repr

instance : Priority StandardPriority where
  default:=.normal
  ofIndex
    | 0 => .highest
    | 1 => .high
    | 2 => .important
    | 4 => .bestEffort
    | _ => .normal
  getIndex
    | .highest => 0
    | .high => 1
    | .important => 2
    | .normal => 3
    | .bestEffort => 4

structure PriorityManager (Key P : Type) where
  isDiscardable : Key → Bool
  getPriority : Key → Option P

/-- `PriorityQueue`. The array of `NUM_PRIORITIES` deques is a list that no operation
lengthens or shortens. -/
structure PriorityQueue (Key Msg P : Type) where
  queues : List (List (Job Key Msg))
  priorityManager : PriorityManager Key P

namespace PriorityQueue
variable {P : Type}

def new (numPriorities : ℕ) (priorityManager : PriorityManager Key P) :
    PriorityQueue Key Msg P where
  queues:=replicate numPriorities []
  priorityManager:=priorityManager

def popFirst : List (List (Job Key Msg)) → Option (Job Key Msg × List (List (Job Key Msg)))
  | [] => none
  | []::queues => (popFirst queues).map fun popped => (popped.1,[]::popped.2)
  | (job::rest)::queues => some (job,rest::queues)

def retainAll (handler : Option HandlerId) :
    List (List (Job Key Msg)) → World Key Msg → List (List (Job Key Msg)) × World Key Msg
  | [],world => ([],world)
  | queue::queues,world =>
    let kept := retainLive handler queue world
    let others := retainAll handler queues kept.2
    (kept.1::others.1,others.2)

def indexOf [Priority P] (queue : PriorityQueue Key Msg P) (key : Key) : ℕ :=
  Priority.getIndex ((queue.priorityManager.getPriority key).getD Priority.default)

instance [Priority P] : Queue (PriorityQueue Key Msg P) Key Msg where
  len queue:=(queue.queues.map length).sum
  isEmpty queue:=queue.queues.all isEmpty
  popFront queue :=
    (popFirst queue.queues).map fun popped => (popped.1,{queue with queues:=popped.2})
  discardOldest queue :=
    (popFirst queue.queues.reverse).map fun popped =>
      (popped.1,{queue with queues:=popped.2.reverse})
  peek queue:=queue.queues.findSome? head?
  pushBack queue job :=
    if queue.indexOf job.key<queue.queues.length then
      .ok {queue with queues:=queue.queues.modify (queue.indexOf job.key) (· ++ [job])}
    else .error .priorityOutOfRange
  removeExpiredItems queue handler world :=
    let kept := retainAll handler queue.queues world
    ((queue.queues.map length).sum - (kept.1.map length).sum,
      {queue with queues:=kept.1},kept.2)
  isJobDiscardable queue key:=queue.priorityManager.isDiscardable key

end PriorityQueue

inductive BuiltInQueue (Key Msg P : Type) where
  | default (queue : DefaultQueue Key Msg)
  | priority (queue : PriorityQueue Key Msg P)

instance {P : Type} [Priority P] : Queue (BuiltInQueue Key Msg P) Key Msg where
  len
    | .default queue => Queue.len queue
    | .priority queue => Queue.len queue
  isEmpty
    | .default queue => Queue.isEmpty queue
    | .priority queue => Queue.isEmpty queue
  popFront
    | .default queue => (Queue.popFront queue).map fun popped => (popped.1,.default popped.2)
    | .priority queue => (Queue.popFront queue).map fun popped => (popped.1,.priority popped.2)
  discardOldest
    | .default queue => (Queue.discardOldest queue).map fun popped => (popped.1,.default popped.2)
    | .priority queue =>
      (Queue.discardOldest queue).map fun popped => (popped.1,.priority popped.2)
  peek
    | .default queue => Queue.peek queue
    | .priority queue => Queue.peek queue
  pushBack
    | .default queue,job => (Queue.pushBack queue job).map .default
    | .priority queue,job => (Queue.pushBack queue job).map .priority
  removeExpiredItems
    | .default queue,handler,world =>
      let swept := Queue.removeExpiredItems queue handler world
      (swept.1,.default swept.2.1,swept.2.2)
    | .priority queue,handler,world =>
      let swept := Queue.removeExpiredItems queue handler world
      (swept.1,.priority swept.2.1,swept.2.2)
  isJobDiscardable
    | .default queue,key => Queue.isJobDiscardable queue key
    | .priority queue,key => Queue.isJobDiscardable queue key

/-- A queue seen as the list of its jobs in popping order. -/
class LawfulQueue (Q : Type) {Key Msg : outParam Type} [Queue Q Key Msg] where
  contents : Q → List (Job Key Msg)
  len_eq (q : Q) : Queue.len q=(contents q).length
  peek_eq (q : Q) : Queue.peek q=(contents q).head?
  popFront_none {q : Q} : Queue.popFront q=none → contents q=[]
  popFront_some {q q' : Q} {job : Job Key Msg} :
    Queue.popFront q=some (job,q') → contents q=job::contents q'
  discardOldest_none {q : Q} : Queue.discardOldest q=none → contents q=[]
  discardOldest_some {q q' : Q} {job : Job Key Msg} :
    Queue.discardOldest q=some (job,q') → (contents q).Perm (job::contents q')
  pushBack_ok {q q' : Q} {job : Job Key Msg} :
    Queue.pushBack q job=.ok q' → (contents q').Perm (job::contents q)
  removeExpiredItems_eq (q : Q) (handler : Option HandlerId) (world : World Key Msg) :
    (contents (Queue.removeExpiredItems q handler world).2.1,
      (Queue.removeExpiredItems q handler world).2.2)=retainLive handler (contents q) world

instance : LawfulQueue (DefaultQueue Key Msg) where
  contents queue:=queue.q
  len_eq _:=rfl
  peek_eq _:=rfl
  popFront_none {queue} h := by
    rcases queue with ⟨_ | ⟨job,rest⟩⟩
    · rfl
    · cases h
  popFront_some {queue queue' job} h := by
    rcases queue with ⟨_ | ⟨job,rest⟩⟩
    · cases h
    · cases h
      rfl
  discardOldest_none {queue} h := by
    rcases queue with ⟨_ | ⟨job,rest⟩⟩
    · rfl
    · cases h
  discardOldest_some {queue queue' job} h := by
    rcases queue with ⟨_ | ⟨job,rest⟩⟩
    · cases h
    · cases h
      exact .refl _
  pushBack_ok {queue queue' job} h := by
    cases h
    exact perm_append_singleton job queue.q
  removeExpiredItems_eq _ _ _:=rfl

/-- Sweeping a concatenation sweeps the parts from left to right. -/
theorem retainLive_append (handler : Option HandlerId) (xs ys : List (Job Key Msg))
    (world : World Key Msg) :
    retainLive handler (xs++ys) world =
      ((retainLive handler xs world).1++(retainLive handler ys (retainLive handler xs world).2).1,
        (retainLive handler ys (retainLive handler xs world).2).2) := by
  induction xs generalizing world with
  | nil => rfl
  | cons job rest ih =>
    simp only [cons_append,retainLive]
    split
    · exact ih _
    · simp only [ih,cons_append]

namespace PriorityQueue
variable {P : Type}

theorem popFirst_some {job : Job Key Msg} :
    ∀{queues queues' : List (List (Job Key Msg))},popFirst queues=some (job,queues') →
      queues.flatten=job::queues'.flatten
  | [],_,h => by cases h
  | []::queues,queues',h => by
    obtain ⟨popped,hp,he⟩:=map_eq_some_iff.mp h
    cases he
    simpa using popFirst_some hp
  | (job'::rest)::queues,queues',h => by
    cases h
    rfl

theorem popFirst_none :
    ∀{queues : List (List (Job Key Msg))},popFirst queues=none → queues.flatten=[]
  | [],_ => rfl
  | []::queues,h => by simpa using popFirst_none (map_eq_none_iff.mp h)
  | (job::rest)::queues,h => by cases h

theorem findSome?_head? (queues : List (List (Job Key Msg))) :
    queues.findSome? head?=queues.flatten.head? := by
  induction queues with
  | nil => rfl
  | cons queue queues ih =>
    cases queue with
    | nil => simpa [findSome?_cons] using ih
    | cons job rest => simp [findSome?_cons]

theorem modify_flatten_perm (job : Job Key Msg) :
    ∀(queues : List (List (Job Key Msg))) (i : ℕ),i<queues.length →
      (queues.modify i (· ++ [job])).flatten.Perm (job::queues.flatten)
  | [],i,h => absurd h (Nat.not_lt_zero i)
  | queue::queues,0,_ => by
    simp
  | queue::queues,i+1,h => by
    have ih:=modify_flatten_perm job queues i (Nat.lt_of_succ_lt_succ h)
    have hp:=(ih.append_left queue).trans perm_middle
    simpa using hp

theorem retainAll_flatten (handler : Option HandlerId) (queues : List (List (Job Key Msg)))
    (world : World Key Msg) :
    ((retainAll handler queues world).1.flatten,(retainAll handler queues world).2) =
      retainLive handler queues.flatten world := by
  induction queues generalizing world with
  | nil => rfl
  | cons queue queues ih =>
    have hq:=ih (retainLive handler queue world).2
    rw [flatten_cons,retainLive_append,← hq]
    rfl

instance [Priority P] : LawfulQueue (PriorityQueue Key Msg P) where
  contents queue:=queue.queues.flatten
  len_eq queue := by
    change (queue.queues.map length).sum=queue.queues.flatten.length
    rw [length_flatten]
  peek_eq queue:=findSome?_head? queue.queues
  popFront_none {queue} h:=popFirst_none (map_eq_none_iff.mp h)
  popFront_some {queue queue' job} h := by
    obtain ⟨popped,hp,he⟩:=map_eq_some_iff.mp h
    cases he
    exact popFirst_some hp
  discardOldest_none {queue} h := by
    have hn:=popFirst_none (map_eq_none_iff.mp h)
    have hp:=(reverse_perm queue.queues).flatten
    rw [hn] at hp
    exact hp.nil_eq.symm
  discardOldest_some {queue queue' job} h := by
    obtain ⟨⟨job',queues'⟩,hp,he⟩:=map_eq_some_iff.mp h
    cases he
    have hq:=(reverse_perm queue.queues).symm.flatten
    rw [popFirst_some hp] at hq
    exact hq.trans ((reverse_perm queues').symm.flatten.cons _)
  pushBack_ok {queue queue' job} h := by
    change (if _ then _ else _)=_ at h
    split at h
    next hi =>
      cases h
      exact modify_flatten_perm job queue.queues _ hi
    next => cases h
  removeExpiredItems_eq queue handler world:=retainAll_flatten handler queue.queues world

end PriorityQueue

instance {P : Type} [Priority P] : LawfulQueue (BuiltInQueue Key Msg P) where
  contents
    | .default queue => LawfulQueue.contents queue
    | .priority queue => LawfulQueue.contents queue
  len_eq
    | .default queue => LawfulQueue.len_eq queue
    | .priority queue => LawfulQueue.len_eq queue
  peek_eq
    | .default queue => LawfulQueue.peek_eq queue
    | .priority queue => LawfulQueue.peek_eq queue
  popFront_none {queue} h := by
    cases queue with
    | default queue | priority queue =>
      exact LawfulQueue.popFront_none (map_eq_none_iff.mp h)
  popFront_some {queue queue' job} h := by
    cases queue with
    | default queue | priority queue =>
      obtain ⟨popped,hp,he⟩:=map_eq_some_iff.mp h
      cases he
      exact LawfulQueue.popFront_some hp
  discardOldest_none {queue} h := by
    cases queue with
    | default queue | priority queue =>
      exact LawfulQueue.discardOldest_none (map_eq_none_iff.mp h)
  discardOldest_some {queue queue' job} h := by
    cases queue with
    | default queue | priority queue =>
      obtain ⟨popped,hp,he⟩:=map_eq_some_iff.mp h
      cases he
      exact LawfulQueue.discardOldest_some hp
  pushBack_ok {queue queue' job} h := by
    cases queue with
    | default queue =>
      cases h
      exact perm_append_singleton job queue.q
    | priority queue =>
      cases hp : Queue.pushBack queue job with
      | error e => simp [Queue.pushBack,Except.map] at h hp; simp [hp] at h
      | ok pushed =>
        have he : queue'=.priority pushed := by
          simp only [Queue.pushBack,Except.map] at h hp
          rw [hp] at h
          cases h
          rfl
        subst he
        exact LawfulQueue.pushBack_ok hp
  removeExpiredItems_eq
    | .default queue,handler,world => LawfulQueue.removeExpiredItems_eq queue handler world
    | .priority queue,handler,world => LawfulQueue.removeExpiredItems_eq queue handler world

section Laws
variable {Q : Type} [Queue Q Key Msg] [LawfulQueue Q]

open LawfulQueue (contents)

theorem peek_none {q : Q} (h : Queue.peek q=none) : contents q=[] := by
  rw [LawfulQueue.peek_eq] at h
  exact head?_eq_none_iff.mp h

/-- What `peek` shows is what the next `popFront` returns. -/
theorem popFront_of_peek {q : Q} {job : Job Key Msg} (h : Queue.peek q=some job) :
    ∃q',Queue.popFront q=some (job,q') ∧ contents q=job::contents q' := by
  rw [LawfulQueue.peek_eq] at h
  cases hp : Queue.popFront q with
  | none => simp [LawfulQueue.popFront_none hp] at h
  | some popped =>
    obtain ⟨job',q'⟩:=popped
    have hc:=LawfulQueue.popFront_some hp
    obtain rfl : job'=job := by simpa [hc] using h
    exact ⟨q',rfl,hc⟩

end Laws
end Ractor.Factory
