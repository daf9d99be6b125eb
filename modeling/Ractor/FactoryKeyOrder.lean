import Ractor.FactoryDispatchOrder
import Ractor.FactoryUpkeep

/-!
# The order of the jobs of one key

Key persistent routing keeps the jobs of one key in line: those that reached a worker actor,
those queued at the one worker that holds the key, and those in the factory queue. A worker
sends from the front of its queue and a routing attempt takes the first job of the line that is
still in the factory. A dispatch goes straight to a worker, past the factory queue, so the order
depends on no job of the key waiting there.
-/

namespace Ractor.Factory
open List Effect.IsHousekeeping Effect.IsStaffing Option Job FactoryState FiniteMap AList Queue Effect

variable {Key Msg R Q : Type}

open LawfulQueue (contents)
open WorkerProperties

variable {world : World Key Msg} {w : WorkerProperties Key Msg} {d d' : Desk Key Msg}
  {job : Job Key Msg} {key : Key} {pool : Pool Key Msg} {wid : WorkerId} {hint : Option WorkerId}

theorem Effect.IsHousekeeping.deliversNone {effect : Effect Key Msg} (h : effect.IsHousekeeping) :
    effect.DeliversNone := by
  cases effect <;> first | rfl | exact h.elim

theorem Effect.IsStaffing.deliversNone {effect : Effect Key Msg} (h : effect.IsStaffing) :
    effect.DeliversNone := by
  cases effect <;> first | rfl | exact h.elim

variable [DecidableEq Key]

/-! ### Queues that keep the jobs of a key in order -/

def ofKey (key : Key) (jobs : List (Job Key Msg)) : List (Job Key Msg) :=
  jobs.filter fun job => job.key=key

@[simp] theorem ofKey_append (key : Key) (xs ys : List (Job Key Msg)) :
    ofKey key (xs++ys)=ofKey key xs++ofKey key ys :=
  filter_append xs ys

theorem ofKey_sublist {xs ys : List (Job Key Msg)} (h : xs.Sublist ys) (key : Key) :
    (ofKey key xs).Sublist (ofKey key ys) :=
  h.filter _

/-- A queue in which a job comes after all others of its key. -/
class KeyedQueue (Q : Type) {Key Msg : outParam Type} [DecidableEq Key] [Queue Q Key Msg]
    [LawfulQueue Q] where
  Sorted : Q → Prop
  sorted : QueueInvariant Sorted
  sorted_of_empty {q : Q} : contents q=[] → Sorted q
  pushBack_ofKey {q q' : Q} {job : Job Key Msg} : Sorted q → pushBack q job=.ok q' →
    ∀key,ofKey key (contents q')=ofKey key (contents q++[job])
  discardOldest_sublist {q q' : Q} {job : Job Key Msg} :
    discardOldest q=some (job,q') → (contents q').Sublist (contents q)

instance : KeyedQueue (DefaultQueue Key Msg) where
  Sorted _:=True
  sorted:=⟨fun _ => id,fun _ => id,fun _ => id,fun _ _ _ => id⟩
  sorted_of_empty _:=trivial
  pushBack_ofKey := by
    rintro q _ job - ⟨⟩ key
    rfl
  discardOldest_sublist {q q' job} h := by
    have hc : contents q=job::contents q':=LawfulQueue.popFront_some h
    rw [hc]
    exact sublist_cons_self _ _

namespace PriorityQueue
variable {P : Type}

def Sorted [Priority P] (queue : PriorityQueue Key Msg P) : Prop :=
  ∀i jobs,queue.queues[i]?=some jobs → ∀job∈jobs,queue.indexOf job.key=i

section

omit [DecidableEq Key]

theorem popFirst_forall₂ {job : Job Key Msg} :
    ∀{queues queues' : List (List (Job Key Msg))},popFirst queues=some (job,queues') →
      List.Forall₂ List.Sublist queues' queues
  | [],_,h => by cases h
  | []::queues,queues',h => by
    obtain ⟨popped,hp,he⟩:=map_eq_some_iff.mp h
    cases he
    exact .cons (.refl _) (popFirst_forall₂ hp)
  | (job'::rest)::queues,queues',h => by
    cases h
    exact .cons (sublist_cons_self _ _) (forall₂_same.mpr fun _ _ => .refl _)

theorem retainAll_forall₂ (handler : Option HandlerId) (queues : List (List (Job Key Msg)))
    (world : World Key Msg) : List.Forall₂ List.Sublist (retainAll handler queues world).1 queues := by
  induction queues generalizing world with
  | nil => exact .nil
  | cons queue queues ih =>
    exact .cons (retainLive_housekeeping handler queue world).1 (ih _)

theorem flatten_sublist {queues queues' : List (List (Job Key Msg))}
    (h : List.Forall₂ List.Sublist queues' queues) : queues'.flatten.Sublist queues.flatten := by
  induction h with
  | nil => exact .refl _
  | cons hq _ ih => exact hq.append ih

theorem Sorted.sublists [Priority P] {queue : PriorityQueue Key Msg P} (h : queue.Sorted)
    {queues : List (List (Job Key Msg))} (hq : List.Forall₂ List.Sublist queues queue.queues) :
    ({queue with queues:=queues} : PriorityQueue Key Msg P).Sorted := by
  intro i jobs hi job hj
  obtain ⟨hlt,rfl⟩:=List.getElem?_eq_some_iff.mp hi
  have hlt' : i<queue.queues.length:=hq.length_eq ▸ hlt
  have hs : queues[i].Sublist queue.queues[i]:=List.Forall₂.get hq hlt hlt'
  exact h i _ (List.getElem?_eq_getElem hlt') job (hs.subset hj)

end

/-- A job appended to its own queue comes after the others of its key. -/
theorem modify_ofKey (job : Job Key Msg) (key : Key) :
    ∀(queues : List (List (Job Key Msg))) (i : ℕ),i<queues.length →
      (∀j jobs,i<j → queues[j]?=some jobs → ofKey job.key jobs=[]) →
      ofKey key (queues.modify i (· ++ [job])).flatten=ofKey key (queues.flatten++[job])
  | [],i,h,_ => absurd h (Nat.not_lt_zero i)
  | queue::queues,0,_,hl => by
    have hr : ofKey job.key queues.flatten=[] := by
      refine filter_eq_nil_iff.mpr fun later hm => ?_
      obtain ⟨jobs,hjo,hm⟩:=mem_flatten.mp hm
      obtain ⟨j,hj⟩:=mem_iff_getElem?.mp hjo
      have hnil:=hl (j+1) jobs (Nat.succ_pos j) hj
      exact filter_eq_nil_iff.mp hnil later hm
    simp only [modify_zero_cons,flatten_cons,ofKey_append]
    by_cases hk : job.key=key
    · subst hk
      rw [hr,List.append_nil,List.append_nil]
    · have hjob : ofKey key [job]=[] := by simp [ofKey,hk]
      rw [hjob,List.append_nil,List.append_nil]
  | queue::queues,i+1,h,hl => by
    have ih:=modify_ofKey job key queues i (Nat.lt_of_succ_lt_succ h) fun j jobs hj hq =>
      hl (j+1) jobs (Nat.succ_lt_succ hj) hq
    simp only [modify_succ_cons,flatten_cons,ofKey_append,append_assoc] at ih ⊢
    rw [ih]

instance [Priority P] : KeyedQueue (PriorityQueue Key Msg P) where
  Sorted:=Sorted
  sorted :=
    { popFront := by
        intro q q' job h hs
        obtain ⟨popped,hp,he⟩:=map_eq_some_iff.mp h
        cases he
        exact hs.sublists (popFirst_forall₂ hp)
      discardOldest := by
        intro q q' job h hs
        obtain ⟨popped,hp,he⟩:=map_eq_some_iff.mp h
        cases he
        have hq:=forall₂_reverse_iff.mpr (popFirst_forall₂ hp)
        rw [reverse_reverse] at hq
        exact hs.sublists hq
      pushBack := by
        intro q q' job h hs
        change (if _ then _ else _)=_ at h
        split at h
        · cases h
          intro i jobs hi other hm
          dsimp only at hi
          rw [List.getElem?_modify] at hi
          obtain ⟨jobs',hi',rfl⟩:=map_eq_some_iff.mp hi
          split at hm
          next heq =>
            rcases mem_append.mp hm with hm | hm
            · exact hs i jobs' hi' other hm
            · rw [mem_singleton.mp hm]
              exact heq
          next => exact hs i jobs' hi' other hm
        · cases h
      removeExpiredItems:=fun q handler world hs => hs.sublists (retainAll_forall₂ _ _ _) }
  sorted_of_empty {q} h := by
    intro i jobs hi job hj
    have hm : job∈q.queues.flatten:=mem_flatten.mpr ⟨jobs,mem_of_getElem? hi,hj⟩
    have hnil : q.queues.flatten=[]:=h
    rw [hnil] at hm
    cases hm
  pushBack_ofKey {q q' job} hs h key := by
    change (if _ then _ else _)=_ at h
    split at h
    next hi =>
      cases h
      refine modify_ofKey job key q.queues _ hi fun j jobs hj hq => ?_
      refine filter_eq_nil_iff.mpr fun other hm => ?_
      have ho:=hs j jobs hq other hm
      intro hk
      rw [of_decide_eq_true hk] at ho
      omega
    next => cases h
  discardOldest_sublist {q q' job} h := by
    obtain ⟨popped,hp,he⟩:=map_eq_some_iff.mp h
    cases he
    have hq:=forall₂_reverse_iff.mpr (popFirst_forall₂ hp)
    rw [reverse_reverse] at hq
    exact flatten_sublist hq

end PriorityQueue

instance {P : Type} [Priority P] : KeyedQueue (BuiltInQueue Key Msg P) where
  Sorted
    | .default _ => True
    | .priority queue => queue.Sorted
  sorted := by
    have hso : QueueInvariant (PriorityQueue.Sorted : PriorityQueue Key Msg P→Prop) :=
      KeyedQueue.sorted
    constructor
    · rintro (q | q) q' job h hs
      · obtain ⟨popped,hp,he⟩:=map_eq_some_iff.mp h
        cases he
        trivial
      · obtain ⟨popped,hp,he⟩:=map_eq_some_iff.mp h
        cases he
        exact hso.popFront hp hs
    · rintro (q | q) q' job h hs
      · obtain ⟨popped,hp,he⟩:=map_eq_some_iff.mp h
        cases he
        trivial
      · obtain ⟨popped,hp,he⟩:=map_eq_some_iff.mp h
        cases he
        exact hso.discardOldest hp hs
    · rintro (q | q) q' job h hs
      · cases h
        trivial
      · change (pushBack q job).map .priority=.ok q' at h
        cases hp : pushBack q job with
        | error e => simp [hp,Except.map] at h
        | ok pushed =>
          rw [hp] at h
          cases h
          exact hso.pushBack hp hs
    · rintro (q | q) handler world hs
      · trivial
      · exact hso.removeExpiredItems q handler world hs
  sorted_of_empty {q} h := by
    cases q with
    | default => trivial
    | priority q => exact KeyedQueue.sorted_of_empty (q:=q) h
  pushBack_ofKey {q q' job} hs h key := by
    cases q with
    | default q =>
      cases h
      rfl
    | priority q =>
      change (pushBack q job).map .priority=.ok q' at h
      cases hp : pushBack q job with
      | error e => simp [hp,Except.map] at h
      | ok pushed =>
        rw [hp] at h
        cases h
        exact KeyedQueue.pushBack_ofKey (q:=q) hs hp key
  discardOldest_sublist {q q' job} h := by
    cases q with
    | default q | priority q =>
      obtain ⟨popped,hp,he⟩:=map_eq_some_iff.mp h
      cases he
      exact KeyedQueue.discardOldest_sublist (q:=q) hp

/-! ### The line of a key -/

/-- Some worker holds the key, with these jobs of the key in its queue. -/
def HeldAs (pool : Pool Key Msg) (key : Key) (jobs : List (Job Key Msg)) : Prop :=
  ∃wid w,pool.lookup wid=some w ∧ w.Holds key ∧ ofKey key w.messageQueue=jobs

structure QueuedAs (pool : Pool Key Msg) (key : Key) (queued : List (Job Key Msg)) : Prop where
  holder : ∀jobs,HeldAs pool key jobs → jobs=queued
  nobody : (∀jobs,¬HeldAs pool key jobs) → queued=[]

/-- The delivered, the queued and the waiting jobs of the key are in the order of dispatch. -/
def LineOf (key : Key) (pool : Pool Key Msg) (world : World Key Msg)
    (waiting : List (Job Key Msg)) : Prop :=
  ∃queued,QueuedAs pool key queued ∧
    ((ofKey key world.deliveredJobs++queued++ofKey key waiting).map taken).Sublist
      ((ofKey key world.dispatchedJobs).map taken)

theorem WorkerProperties.ofKey_eq_nil (h : ¬w.Holds key) : ofKey key w.messageQueue=[] := by
  refine filter_eq_nil_iff.mpr fun job hm hk => h (.inr ⟨job,hm,?_⟩)
  exact of_decide_eq_true hk

/-- One worker is rewritten: it sends jobs of the key from its queue and may get jobs to queue,
provided that nobody else holds the key then. -/
theorem QueuedAs.insert {queued sent extra : List (Job Key Msg)} {w' : WorkerProperties Key Msg}
    (h : QueuedAs pool key queued) (hl : pool.lookup wid=some w)
    (ha : w.Holds key ∨ extra≠[]→∀k v,pool.lookup k=some v→v.Holds key→k=wid)
    (hh : w'.Holds key→w.Holds key ∨ extra≠[])
    (hs : (sent++ofKey key w'.messageQueue).Sublist (ofKey key w.messageQueue++extra)) :
    ∃queued',QueuedAs (pool.insert wid w') key queued' ∧
      (sent++queued').Sublist (queued++extra) := by
  by_cases hw : w.Holds key ∨ extra≠[]
  · have hq : ofKey key w.messageQueue=queued := by
      by_cases hold : w.Holds key
      · exact h.holder _ ⟨wid,w,hl,hold,rfl⟩
      · rw [ofKey_eq_nil hold,h.nobody]
        rintro jobs ⟨k,v,hk,hv,-⟩
        obtain rfl:=ha hw k v hk hv
        rw [hl] at hk
        cases hk
        exact hold hv
    refine ⟨ofKey key w'.messageQueue,⟨?_,fun hn => ?_⟩,hq ▸ hs⟩
    · rintro jobs ⟨k,v,hk,hv,rfl⟩
      rcases lookup_insert_eq_some.mp hk with ⟨_,rfl⟩ | ⟨hne,hk⟩
      · rfl
      · exact absurd (ha hw k v hk hv) hne
    · exact ofKey_eq_nil fun hold => hn _ ⟨wid,w',lookup_insert _,hold,rfl⟩
  · obtain ⟨hold,he⟩:=not_or.mp hw
    have hnil : sent=[] ∧ ofKey key w'.messageQueue=[] := by
      rw [ofKey_eq_nil hold,not_not.mp he,nil_append,sublist_nil] at hs
      exact append_eq_nil_iff.mp hs
    refine ⟨queued,⟨?_,fun hn => h.nobody ?_⟩,?_⟩
    · rintro jobs ⟨k,v,hk,hv,hj⟩
      rcases lookup_insert_eq_some.mp hk with ⟨_,rfl⟩ | ⟨_,hk⟩
      · exact absurd (hh hv) hw
      · exact h.holder jobs ⟨k,v,hk,hv,hj⟩
    · rintro jobs ⟨k,v,hk,hv,hj⟩
      refine hn jobs ⟨k,v,?_,hv,hj⟩
      rw [lookup_insert_ne,hk]
      rintro rfl
      rw [hl] at hk
      cases hk
      exact hold hv
    · rw [hnil.1,nil_append]
      exact sublist_append_left _ _

namespace LineOf
variable {pool' : Pool Key Msg} {world' : World Key Msg} {waiting waiting' : List (Job Key Msg)}

/-- Nothing is delivered or dispatched, and jobs only leave the queue. -/
theorem shrinks (h : LineOf key pool world waiting)
    (hp : ∀jobs,HeldAs pool' key jobs ↔ HeldAs pool key jobs)
    (hde : world'.deliveredJobs=world.deliveredJobs)
    (hd : world'.dispatchedJobs=world.dispatchedJobs)
    (hq : waiting'.Sublist waiting) : LineOf key pool' world' waiting' := by
  obtain ⟨queued,hqu,hs⟩:=h
  refine ⟨queued,⟨fun jobs hj => hqu.holder jobs ((hp jobs).mp hj),fun hn =>
    hqu.nobody fun jobs hj => hn jobs ((hp jobs).mpr hj)⟩,?_⟩
  rw [hde,hd]
  exact (((ofKey_sublist hq key).append_left _).map _).trans hs

theorem arrives (h : LineOf key pool world waiting) (hde : world'.deliveredJobs=world.deliveredJobs)
    (hd : world'.dispatchedJobs=world.dispatchedJobs++[job])
    (hq : (ofKey key waiting').Sublist (ofKey key (waiting++[job.taken]))) :
    LineOf key pool world' waiting' := by
  obtain ⟨queued,hqu,hs⟩:=h
  refine ⟨queued,hqu,?_⟩
  have hl : (ofKey key (world.dispatchedJobs++[job])).map taken =
      (ofKey key world.dispatchedJobs).map taken++(ofKey key [job.taken]).map taken := by
    rw [ofKey_append,map_append]
    congr 1
    unfold ofKey
    by_cases hk : job.key=key <;> simp [hk,taken]
  rw [hde,hd,hl]
  refine ((hq.append_left _).map _).trans ?_
  rw [ofKey_append,← append_assoc,map_append]
  exact hs.append_right _

/-- A worker acts: it sends from the front of its queue, and the jobs it was given are the first
of the line in the factory. -/
theorem sends (h : LineOf key pool world waiting) (hl : pool.lookup wid=some w)
    {extra : List (Job Key Msg)} (hse : SendsFrom (w.messageQueue++extra) world d)
    (hd : d.2.dispatchedJobs=world.dispatchedJobs)
    (ha : w.Holds key ∨ ofKey key extra≠[] → ∀k v,pool.lookup k=some v→v.Holds key→k=wid)
    (hh : d.1.Holds key→w.Holds key ∨ ofKey key extra≠[])
    (hq : ((ofKey key (extra++waiting')).map taken).Sublist
      ((ofKey key waiting).map taken)) : LineOf key (pool.insert wid d.1) d.2 waiting' := by
  obtain ⟨queued,hqu,hs⟩:=h
  obtain ⟨sent,hde,hsent⟩:=hse
  have hsent:=ofKey_sublist hsent key
  rw [ofKey_append,ofKey_append] at hsent
  obtain ⟨queued',hq',hli⟩:=hqu.insert hl ha hh hsent
  refine ⟨queued',hq',?_⟩
  rw [hde,hd,ofKey_append]
  refine List.Sublist.trans ?_ hs
  have hf : (ofKey key world.deliveredJobs++ofKey key sent++queued').Sublist
      (ofKey key world.deliveredJobs++queued++ofKey key extra) := by
    rw [append_assoc,append_assoc]
    exact hli.append_left _
  refine ((hf.append_right _).map _).trans ?_
  rw [append_assoc,← ofKey_append]
  simp only [map_append]
  exact hq.append_left _

end LineOf

def InLine [Queue Q Key Msg] [LawfulQueue Q] (s : FactoryState Key Msg R Q) : Prop :=
  ∀key,LineOf key s.pool s.world (contents s.queue)

section Steps
variable [Queue Q Key Msg] [LawfulQueue Q]

theorem HeldAs.of_jobs {pool' : Pool Key Msg}
    (h : ∀wid,(pool'.lookup wid).map (fun w => (w.messageQueue,w.currJobs)) =
      (pool.lookup wid).map fun w => (w.messageQueue,w.currJobs)) (key : Key)
    (jobs : List (Job Key Msg)) : HeldAs pool' key jobs→HeldAs pool key jobs := by
  rintro ⟨wid,w',hl',hw',hjo⟩
  have hc:=h wid
  rw [hl',map_some] at hc
  obtain ⟨w,hl,hw⟩:=map_eq_some_iff.mp hc.symm
  obtain ⟨hq,hj⟩:=Prod.mk.inj hw
  refine ⟨wid,w,hl,?_,by rw [hq]; exact hjo⟩
  unfold Holds isProcessingKey at hw' ⊢
  rwa [hq,hj]

theorem InLine.housekeeping {s s' : FactoryState Key Msg R Q} (h : InLine s)
    (hk : Housekeeping s s') : InLine s' := by
  have hp : ∀wid,(s'.pool.lookup wid).map (fun w => (w.messageQueue,w.currJobs)) =
      (s.pool.lookup wid).map fun w => (w.messageQueue,w.currJobs) := by
    intro wid
    have hc:=congrArg (Option.map fun core => (core.2.2.1,core.2.2.2.1)) (hk.pool wid)
    rwa [Option.map_map,Option.map_map] at hc
  intro key
  refine (h key).shrinks (fun jobs => ⟨.of_jobs hp key jobs,
    .of_jobs (fun wid => (hp wid).symm) key jobs⟩) ?_ ?_ hk.queue
  · exact (hk.writes.imp fun _ => deliversNone).deliveredJobs
  · exact (hk.writes.imp fun _ => routeless).dispatchedJobs

theorem HeldAs.of_insert (hl : pool.lookup wid=none) (hw : ∀key,¬w.Holds key) (key : Key)
    (jobs : List (Job Key Msg)) : HeldAs (pool.insert wid w) key jobs ↔ HeldAs pool key jobs := by
  constructor
  · rintro ⟨k,v,hk,hv,hj⟩
    rcases lookup_insert_eq_some.mp hk with ⟨_,rfl⟩ | ⟨_,hk⟩
    · exact absurd hv (hw key)
    · exact ⟨k,v,hk,hv,hj⟩
  · rintro ⟨k,v,hk,hv,hj⟩
    refine ⟨k,v,?_,hv,hj⟩
    rw [lookup_insert_ne,hk]
    rintro rfl
    rw [hl] at hk
    cases hk

theorem HeldAs.of_erase (hl : pool.lookup wid=some w) (hw : ∀key,¬w.Holds key) (key : Key)
    (jobs : List (Job Key Msg)) : HeldAs (pool.erase wid) key jobs ↔ HeldAs pool key jobs := by
  constructor
  · rintro ⟨k,v,hk,hv,hj⟩
    exact ⟨k,v,(lookup_erase_eq_some.mp hk).2,hv,hj⟩
  · rintro ⟨k,v,hk,hv,hj⟩
    refine ⟨k,v,lookup_erase_eq_some.mpr ⟨?_,hk⟩,hv,hj⟩
    rintro rfl
    rw [hl] at hk
    cases hk
    exact hw key hv

theorem HeldAs.setDraining (hl : pool.lookup wid=some w) (isDraining : Bool) (key : Key)
    (jobs : List (Job Key Msg)) :
    HeldAs (pool.insert wid (w.setDraining isDraining)) key jobs ↔ HeldAs pool key jobs := by
  have hs : ∀k,((pool.insert wid (w.setDraining isDraining)).lookup k).map
      (fun w => (w.messageQueue,w.currJobs)) =
      (pool.lookup k).map fun w => (w.messageQueue,w.currJobs) := by
    intro k
    by_cases hk : k=wid
    · subst hk
      rw [lookup_insert,hl]
      rfl
    · rw [lookup_insert_ne hk]
  exact ⟨.of_jobs hs key jobs,.of_jobs (fun k => (hs k).symm) key jobs⟩

theorem WorkerProperties.not_holds_of_available (h : w.isAvailable=true) (key : Key) :
    ¬w.Holds key := by
  unfold isAvailable at h
  simp only [Bool.and_eq_true,List.isEmpty_iff] at h
  rintro (hp | ⟨job,hj,_⟩)
  · simp [isProcessingKey,w.currJobs_eq_empty h.1] at hp
  · simp [h.2] at hj

namespace FactoryState

omit [Queue Q Key Msg] [LawfulQueue Q] in
/-- A job that key persistent routing hands to a worker joins the line of its key there. -/
theorem enqueue_line {s : FactoryState Key Msg R Q} (hx : Exclusive s) (hc : WorkersConsistent s)
    (hl : s.pool.lookup wid=some w)
    (ht : RoutingRule.keyPersistent.Targets s.poolSize s.pool hint job.key wid w)
    {waiting waiting' : List (Job Key Msg)} (h : LineOf key s.pool world waiting)
    (hq : ((ofKey key ([job.taken]++waiting')).map taken).Sublist ((ofKey key waiting).map taken)) :
    LineOf key (s.pool.insert wid (w.enqueueJob job world).1) (w.enqueueJob job world).2
      waiting' := by
  have hjob : ofKey key [job.taken]≠[] ↔ key=job.key := by
    unfold ofKey
    by_cases hk : job.key=key
    · simp [hk]
    · simp [hk,Ne.symm hk]
  refine h.sends hl (w.enqueueJob_sendsFrom job world) (w.enqueueJob_calls job world).1 ?_ ?_ hq
  · intro hh k v hk hv
    rcases hh with hw | hj
    · exact hx key k v wid w hk hl hv hw
    · obtain rfl:=hjob.mp hj
      -- the router found the key pending here, or pending nowhere
      rcases ht with hp | ⟨hn,_⟩
      · exact hx _ k v wid w hk hl hv (((hc wid w hl).hasPendingKey_iff _).mp hp)
      · have hp:=((hc k v hk).hasPendingKey_iff _).mpr hv
        rw [hn k v hk] at hp
        cases hp
  · exact fun hw => (enqueueJob_holds hw).imp id hjob.mpr

variable [Hashable Key] {s s' : FactoryState Key Msg (KeyPersistentRouting Key Msg) Q}

theorem tryRouteNextActiveJob_inLine (h : s.tryRouteNextActiveJob hint=.ok s') (hx : Exclusive s)
    (hc : WorkersConsistent s) (hs : InLine s) : InLine s' := by
  intro key
  have hsu:=liveBacklog_suffix s.world.oracle.clock (contents s.queue)
  cases tryRouteNextActiveJob_attempted h with
  | exhausted _ hq hp hw =>
    rw [hp,hq]
    exact (hs key).shrinks (fun _ => .rfl) (hw.imp fun _ => deliversNone).deliveredJobs
      (hw.imp fun _ => routeless).dispatchedJobs (nil_sublist _)
  | stuck hj hq hp _ hw =>
    rw [hp,hq,← hj]
    exact (hs key).shrinks (fun _ => .rfl) (hw.imp fun _ => deliversNone).deliveredJobs
      (hw.imp fun _ => routeless).dispatchedJobs hsu.sublist
  | @routed job rest wid w world hj hq hl ht hp hw hwr =>
    rw [hj] at hsu
    have hli : LineOf key s.pool world (job::rest):=(hs key).shrinks (fun _ => .rfl)
      (hw.imp fun _ => deliversNone).deliveredJobs
      (hw.imp fun _ => routeless).dispatchedJobs hsu.sublist
    rw [hp,hq,hwr]
    refine enqueue_line hx hc hl ht hli ?_
    unfold ofKey
    by_cases hk : job.key=key <;> simp [hk,taken]

structure Orderly (s : FactoryState Key Msg (KeyPersistentRouting Key Msg) Q) : Prop where
  line : InLine s
  exclusive : Exclusive s
  consistent : WorkersConsistent s

theorem Orderly.moves (hs : Orderly s) (h : FactoryMoves (fun _ => True) s s') (hl : InLine s') :
    Orderly s' := by
  obtain ⟨hx,hc⟩:=h.preserves (P:=fun s => Exclusive s ∧ WorkersConsistent s)
    (fun _ _ => FactoryMove.exclusive) ⟨hs.exclusive,hs.consistent⟩
  exact ⟨hl,hx,hc⟩

omit [Hashable Key] in
theorem Orderly.housekeeping (hs : Orderly s) (h : Housekeeping s s') : Orderly s' :=
  ⟨hs.line.housekeeping h,h.exclusive hs.exclusive,h.workersConsistent hs.consistent⟩

theorem Orderly.tryRoute (hs : Orderly s) (h : s.tryRouteNextActiveJob hint=.ok s') : Orderly s' :=
  hs.moves (tryRouteNextActiveJob_routing h).moves
    (tryRouteNextActiveJob_inLine h hs.exclusive hs.consistent hs.line)

theorem Orderly.completeJob (hs : Orderly s) (who : WorkerId) (key : Key) :
    Orderly (s.completeJob who key) := by
  refine hs.moves (completeJob_moves s who key) fun k => ?_
  unfold FactoryState.completeJob
  split
  next => exact hs.line k
  next worker hl =>
    have hsl:=(hs.consistent who worker hl).slot
    have hse : SendsFrom (worker.messageQueue++[]) s.world (worker.workerComplete key s.world).2 := by
      rw [List.append_nil]
      exact workerComplete_sendsFrom hsl key s.world
    refine (hs.line k).sends hl hse ?_ ?_ ?_ (.refl _)
    · exact (World.Writes.imp (worker.workerComplete_frame hsl key s.world).log
        fun _ => OfWorker.routeless).dispatchedJobs
    · rintro (hw | hne) k' v hk' hv
      · exact hs.exclusive k k' v who worker hk' hl hv hw
      · exact absurd rfl hne
    · exact fun hw => .inl (workerComplete_holds hsl hw)

theorem Orderly.replaceExited (hs : Orderly s) {who : ActorId} {worker : WorkerProperties Key Msg}
    (hi : s.workerByActor.lookup who=some wid) (hl : s.pool.lookup wid=some worker)
    (h : s.replaceExited who wid worker=.ok s') : Orderly s' := by
  obtain ⟨replacement,world,hspa,hk⟩:=replaceExited_cases h
  obtain ⟨_,-,-,-,hlog⟩:=s.world.spawn_ok hspa
  have hsl:=(hs.consistent wid worker hl).slot
  have hsp : s.world.Writes IsStaffing world := ⟨_,hlog,forall_mem_singleton.mpr trivial⟩
  have hse : SendsFrom (worker.messageQueue++[]) world
      (worker.replaceWorker replacement world) := by
    rw [List.append_nil]
    exact replaceWorker_sendsFrom hsl replacement world
  refine hs.moves (replaceExited_moves hi hl h) (InLine.housekeeping (fun key => ?_) hk)
  have hli : LineOf key s.pool world (contents s.queue):=(hs.line key).shrinks (fun _ => .rfl)
    (hsp.imp fun _ => deliversNone).deliveredJobs
    (hsp.imp fun _ => routeless).dispatchedJobs (.refl _)
  refine hli.sends hl hse (worker.replaceWorker_routeless hsl replacement world).dispatchedJobs
    ?_ (fun hw => .inl (replaceWorker_holds hsl hw)) (.refl _)
  rintro (hw | hne) k v hk hv
  · exact hs.exclusive key k v wid worker hk hl hv hw
  · exact absurd rfl hne

omit [Hashable Key] in
theorem addWorker_inLine [Router R Key Msg] {t t' : FactoryState Key Msg R Q}
    (hl : t.pool.lookup wid=none) (h : t.addWorker wid=.ok t') (ht : InLine t) : InLine t' := by
  obtain ⟨hq,hw⟩:=addWorker_staffing h
  obtain ⟨_,_,-,rfl⟩:=addWorker_ok h
  intro key
  exact (ht key).shrinks (HeldAs.of_insert hl (not_holds_of_available rfl) key)
    (hw.imp fun _ => deliversNone).deliveredJobs
    (hw.imp fun _ => routeless).dispatchedJobs (.refl _)

theorem Orderly.growPool (hs : Orderly s) {toAdd : ℕ} (h : s.growPool toAdd=.ok s') :
    Orderly s' := by
  refine hs.moves (growPool_moves h) ?_
  refine growPool_rec (P:=fun _ t => InLine t) h ?_
    (fun _ t ht => ht.housekeeping (pingWorkers_housekeeping t)) hs.line
  intro wid t t' _ _ ht hg
  unfold growWorker at hg
  split at hg
  next hl => exact addWorker_inLine hl hg ht
  next existing hl =>
    cases hg
    intro key
    exact (ht key).shrinks (HeldAs.setDraining hl false key) rfl rfl (.refl _)

theorem Orderly.shrinkPool (hs : Orderly s) (toRemove : ℕ) : Orderly (s.shrinkPool toRemove) := by
  refine hs.moves (shrinkPool_moves s toRemove) ?_
  refine shrinkPool_rec (P:=InLine) ?_ ?_ hs.line
  · intro wid w t _ hl _ ht key
    exact (ht key).shrinks (HeldAs.setDraining hl true key) rfl rfl (.refl _)
  · intro wid w t _ hl ha ht key
    have hst : t.world.Writes IsStaffing (t.world.record (.stopped w.actor)) :=
      .record t.world trivial
    exact (ht key).shrinks (HeldAs.of_erase hl (not_holds_of_available ha) key)
      (hst.imp fun _ => deliversNone).deliveredJobs
      (hst.imp fun _ => routeless).dispatchedJobs (.refl _)

theorem Orderly.work {work : Work Key Msg} (hs : Orderly s) (h : s.work work=.ok s')
    (hw : ∀job,work≠.dispatch job) : Orderly s' := by
  refine work_rec (I:=Orderly) (G:=fun _ => True) hs.completeJob ?_
    (fun _ _ _ _ hi hl ht => hs.replaceExited hi hl ht) (fun _ _ hg => hs.growPool hg) hs.shrinkPool
    (fun _ _ _ _ _ _ hro ht => ht.tryRoute hro) ?_ hs h hw fun _ _ => trivial
  · intro t who worker hl ha ht
    have hst : t.world.Writes IsStaffing (t.world.record (.stopped worker.actor)) :=
      .record _ trivial
    refine ht.moves (.single (.remove hl ha)) fun k => ?_
    exact (ht.line k).shrinks (HeldAs.of_erase hl (not_holds_of_available ha) k)
      (hst.imp fun _ => deliversNone).deliveredJobs
      (hst.imp fun _ => routeless).dispatchedJobs (.refl _)
  · intro t t' hp hq hwo ht
    refine ⟨fun key => ?_,?_,?_⟩
    · rw [hp,hq,hwo]
      exact ht.line key
    · unfold Exclusive
      rw [hp]
      exact ht.exclusive
    · unfold WorkersConsistent
      rw [hp]
      exact ht.consistent

/-- While the factory has workers, a job is dispatched only if no other job of its key waits in
the factory queue. -/
def KeepsKeyOrder {R : Type} (s : FactoryState Key Msg R Q) : Work Key Msg → Prop
  | .dispatch job => s.pool.keys=[] ∨ ∀waiting∈contents s.queue,waiting.key≠job.key
  | _ => True

theorem Orderly.dispatch [KeyedQueue Q] (hs : Orderly s) (hso : KeyedQueue.Sorted s.queue)
    (h : s.dispatch job=.ok s') (htu : s.KeepsKeyOrder (.dispatch job)) : Orderly s' := by
  refine hs.moves (dispatch_routing h).moves fun key => ?_
  have hd:=dispatch_dispatched h
  have hkey : (job.numbered s.world.nextJob).key=job.key:=rfl
  generalize job.numbered s.world.nextJob=arriving at hd hkey
  have hla : ∀world,(s.arrived arriving).world.Writes IsHousekeeping world →
      ∀waiting,(ofKey key waiting).Sublist (ofKey key (contents s.queue++[arriving.taken])) →
        LineOf key s.pool world waiting := by
    intro world hw waiting hq
    have hde : world.deliveredJobs=s.world.deliveredJobs := by
      rw [(hw.imp fun _ => deliversNone).deliveredJobs]
      simp [arrived,World.deliveredJobs,deliveredJob]
    have hdi : world.dispatchedJobs=s.world.dispatchedJobs++[arriving] := by
      rw [(hw.imp fun _ => routeless).dispatchedJobs,(s.arrived_calls arriving).1]
    exact (hs.line key).arrives hde hdi hq
  cases hd with
  | refused hq hp hw =>
    rw [hp]
    refine hla _ hw _ ?_
    rw [hq]
    exact ofKey_sublist (sublist_append_left _ _) key
  | @routed wid w world _ _ hq hl ht hp hw hwr =>
    have hf : ∀waiting∈contents s.queue,waiting.key≠arriving.key := by
      rw [hkey]
      refine htu.resolve_left fun hn => ?_
      have hm : wid∈s.pool.keys:=mem_keys.mpr (lookup_isSome.mp (by simp [hl]))
      rw [hn] at hm
      cases hm
    rw [hp,hwr,hq]
    refine enqueue_line hs.exclusive hs.consistent hl ht
      (hla world hw (contents s.queue++[arriving.taken]) (.refl _)) ?_
    rw [ofKey_append,ofKey_append]
    by_cases hk : arriving.key=key
    · have hnil : ofKey key (contents s.queue)=[] := by
        refine filter_eq_nil_iff.mpr fun waiting hm hkey => ?_
        exact hf waiting hm ((of_decide_eq_true hkey).trans hk.symm)
      rw [hnil,List.append_nil,nil_append]
    · have hnil : ofKey key [arriving.taken]=[] := by simp [ofKey,hk]
      rw [hnil,List.append_nil,nil_append]
  | stored _ hp _ ha =>
    obtain ⟨t,hq,-,hw,ht⟩:=ha
    rw [hp]
    refine hla _ (hw.trans (maybeEnqueue_frame ht).2.2) _ ?_
    rw [← hq] at hso ⊢
    rw [ofKey_append]
    refine maybeEnqueue_sublist (F:=fun q => ofKey key (contents q)) (fun q' hpu => ?_)
      (fun q q' _ hsh => ofKey_sublist (KeyedQueue.discardOldest_sublist hsh) key) ht
    rw [KeyedQueue.pushBack_ofKey hso hpu key,ofKey_append]

/-! ### Runs -/

theorem starts_orderly {args : FactoryArguments (KeyPersistentRouting Key Msg) Q}
    (hq : contents args.queue=[]) (h : Starts args s) : Orderly s := by
  have hli : InLine s ∧ ∀wid,args.numInitialWorkers≤wid→s.pool.lookup wid=none := by
    refine starts_rec (P:=fun n t => InLine t ∧ ∀wid,n≤wid→t.pool.lookup wid=none) ?_ ?_ ?_ h
    · intro oracle firstPid firstJob _
      refine ⟨fun key => ⟨[],⟨?_,fun _ => rfl⟩,?_⟩,fun _ _ => rfl⟩
      · rintro jobs ⟨wid,w,hl,-⟩
        cases hl
      · simp [initial,hq,World.deliveredJobs,ofKey]
    · rintro n t t' ha ⟨hs,hf⟩
      refine ⟨addWorker_inLine (hf n le_rfl) ha hs,fun wid hwid => ?_⟩
      rw [addWorker_lookup ha (by omega : wid≠n)]
      exact hf wid (by omega)
    · rintro n t t' hk ⟨hs,hf⟩
      refine ⟨hs.housekeeping hk,fun wid hwid => ?_⟩
      have hp:=hk.pool wid
      rwa [hf wid hwid,map_none,map_eq_none_iff] at hp
  obtain ⟨hx,hc⟩:=reached_of_moves (P:=fun s => Exclusive s ∧ WorkersConsistent s)
    (fun _ _ _ _ => ⟨by rintro _ _ _ _ _ ⟨⟩,by rintro _ _ ⟨⟩⟩) (fun _ _ => FactoryMove.exclusive)
    (.start h)
  exact ⟨hli.1,hx,hc⟩

theorem guarded_orderly [KeyedQueue Q] {args : FactoryArguments (KeyPersistentRouting Key Msg) Q}
    (hq : contents args.queue=[])
    (h : Reachable (Starts args) (guarded (WorkMeets KeepsKeyOrder) Step) s) : Orderly s := by
  refine (h.invariant (P:=fun s => Orderly s ∧ KeyedQueue.Sorted s.queue) ?_ ?_).1
  · intro s hs
    obtain ⟨_,_,_,hu⟩:=starts_upkeep KeyedQueue.sorted hs
    exact ⟨starts_orderly hq hs,hu.queue (KeyedQueue.sorted_of_empty hq)⟩
  · rintro s label s' ⟨hs,hso⟩ ⟨ht,hst⟩
    refine ⟨?_,(step_upkeep KeyedQueue.sorted hst hs.consistent).queue hso⟩
    have hs:=hs.housekeeping (withOracle_housekeeping s label.2)
    rcases handleEvent_handled hst with ⟨_,hk⟩ | ⟨a,work,b,hw,ha,hab,hb⟩
    · exact hs.housekeeping hk
    · refine Orderly.housekeeping ?_ hb
      have hs:=hs.housekeeping ha
      by_cases hd : ∃job,work=.dispatch job
      · obtain ⟨job,rfl⟩:=hd
        refine hs.dispatch ?_ hab (ht a _ hw)
        rw [(workOf_dispatch hw).2]
        exact hso
      · exact hs.work hab fun job hjob => hd ⟨job,hjob⟩

instance {R : Type} (s : FactoryState Key Msg R Q) :
    ∀work : Work Key Msg,Decidable (s.KeepsKeyOrder work)
  | .dispatch job =>
    inferInstanceAs (Decidable (s.pool.keys=[] ∨ ∀waiting∈contents s.queue,waiting.key≠job.key))
  | .finished _ _ => .isTrue trivial
  | .exited _ => .isTrue trivial
  | .resized _ => .isTrue trivial

end FactoryState
end Steps

/-- With key persistent routing, the jobs of a key reach worker actors in the order in which they
were dispatched, as long as no job is dispatched past one of its key in the factory queue. -/
theorem keyPersistent_keeps_order [Hashable Key] {P : Type} [Priority P]
    (args : FactoryArguments (KeyPersistentRouting Key Msg) (BuiltInQueue Key Msg P))
    (hq : contents args.queue=[])
    {s : FactoryState Key Msg (KeyPersistentRouting Key Msg) (BuiltInQueue Key Msg P)}
    (h : Reachable (Starts args) (guarded (WorkMeets KeepsKeyOrder) Step) s)
    (key : Key) :
    ((ofKey key s.world.deliveredJobs).map taken).Sublist
      ((ofKey key s.world.dispatchedJobs).map taken) := by
  obtain ⟨queued,-,hs⟩:=(guarded_orderly hq h).line key
  rw [append_assoc,map_append] at hs
  exact (sublist_append_left _ _).trans hs

/-- No worker at first. Of two jobs with one key that wait in the backlog, the growth routes one
and the completion of that one routes the other. -/
theorem keyPersistent_keeps_order_replayed :
    ∃s,Reachable (Starts (.plain 0 (⟨⟩ : KeyPersistentRouting ℕ Unit)))
        (guarded (WorkMeets KeepsKeyOrder) Step) s ∧
      (ofKey 2 s.world.deliveredJobs).map tag=[1,2] ∧
      ((ofKey 2 s.world.deliveredJobs).map taken).Sublist
        ((ofKey 2 s.world.dispatchedJobs).map taken) := by
  obtain ⟨s,hs,ht⟩:=exists_guarded (.plain 0 (⟨⟩ : KeyPersistentRouting ℕ Unit))
    (WorkMeets KeepsKeyOrder)
    (fun s label => decide (WorkMeets KeepsKeyOrder s label))
    (fun _ _ => of_decide_eq_true) .calm 0
    (calmly [.dispatch (.plain 1),.dispatch (.plain 2),.dispatch (.plain 2),.adjustWorkerPool 2,
      .finished 0 2])
    (fun s => decide ((ofKey 2 s.world.deliveredJobs).map tag=[1,2])) rfl
    (by decide +kernel)
  exact ⟨s,hs,of_decide_eq_true ht,keyPersistent_keeps_order _ rfl hs 2⟩

/-- A dispatch without a deadline, a completion or a resize. -/
def FactoryEvent.isPlain : FactoryEvent Key Msg → Bool
  | .message (.dispatch job) => job.options.ttl.isNone && job.options.ttlTimer.isNone
  | .message (.finished _ _) => true
  | .message (.adjustWorkerPool _) => true
  | _ => false

def Effect.isSendErr : Effect Key Msg → Bool
  | .cast _ _ delivered => !delivered
  | _ => false

/-- No worker at first, and two jobs wait when one worker is added. The first one is routed; a
third job, with the key of the second one, goes straight to the worker and is started before it. -/
theorem keyPersistent_overtakes_backlog :
    ∃s,Reachable (Starts (.plain 0 (⟨⟩ : KeyPersistentRouting ℕ Unit)))
        (guarded (fun _ label => label.1.isPlain=true) Step) s ∧
      (∀effect∈s.world.log,effect.isSendErr=false) ∧
      ¬((ofKey 2 s.world.deliveredJobs).map taken).Sublist
        ((ofKey 2 s.world.dispatchedJobs).map taken) := by
  obtain ⟨s,hs,ht⟩:=exists_guarded (.plain 0 (⟨⟩ : KeyPersistentRouting ℕ Unit))
    (fun _ label => label.1.isPlain=true) (fun _ label => label.1.isPlain) (fun _ _ h => h) .calm 0
    (calmly [.dispatch (.plain 1),.dispatch (.plain 2),.adjustWorkerPool 1,.dispatch (.plain 2),
      .finished 0 1,.finished 0 2])
    (fun s => decide ((∀effect∈s.world.log,effect.isSendErr=false) ∧
      (ofKey 2 s.world.deliveredJobs).map tag=[2,1] ∧
      (ofKey 2 s.world.dispatchedJobs).map tag=[1,2])) rfl (by decide +kernel)
  obtain ⟨hlog,hdelivered,hdispatched⟩:=of_decide_eq_true ht
  refine ⟨s,hs,hlog,fun hsub => ?_⟩
  have htags:=hsub.map tag
  have htaken : (tag ∘ taken : Job ℕ Unit→ℕ)=tag:=rfl
  rw [List.map_map,List.map_map,htaken,hdelivered,hdispatched] at htags
  exact absurd htags (by decide)

end Ractor.Factory
