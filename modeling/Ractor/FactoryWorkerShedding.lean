import Ractor.FactoryHandlers
import Ractor.FactoryWorkerFrames

/-!
# What a busy worker sheds

Looking for the next live job, a worker discards the expired jobs in front of it. `Scanned` says
what such a scan does to the queue, and `Shed` what the `Oldest` loop of `enqueue_job` does, which
scans once per round: a round that begins because the queue is too long takes a live job away even
when the expired jobs in front of it were enough. That happens if and only if the last job that has
to go is expired and a live one stands behind it.
-/

namespace Ractor.Factory
open List World WorkerProperties

variable {Key Msg : Type}

/-! ### The jobs that one scan takes off a queue -/

def Effect.discard (handler : Option HandlerId) (reason : DiscardReason) (job : Job Key Msg) :
    Effect Key Msg :=
  match handler with
  | some handler => .discarded handler reason job
  | none => .dropped reason job

theorem World.discard_log (world : World Key Msg) (handler : Option HandlerId)
    (reason : DiscardReason) (job : Job Key Msg) :
    (world.discard handler reason job).log=world.log++[.discard handler reason job] := by
  cases handler <;> rfl

/-- The jobs of a queue with whether each is found to be expired, when the clock is read once per
job from the head of the queue on. -/
def verdicts (clock : ℕ → Instant) (queue : List (Job Key Msg)) : List (Job Key Msg × Bool) :=
  queue.mapIdx fun i job => (job,job.isExpired (clock i))

/-- Expired jobs are discarded as such, all others as shed. -/
def Effect.discardBy (handler : Option HandlerId) (verdict : Job Key Msg × Bool) : Effect Key Msg :=
  .discard handler (if verdict.2 then .ttlExpired else .loadshed) verdict.1

section Verdicts
variable {clock : ℕ→Instant} {queue rest : List (Job Key Msg)} {job : Job Key Msg}

@[simp] theorem verdicts_cons : verdicts clock (job::rest) =
    (job,job.isExpired (clock 0))::verdicts (fun i => clock (i+1)) rest := by
  simp [verdicts,mapIdx_cons]

@[simp] theorem length_verdicts : (verdicts clock queue).length=queue.length := by
  simp [verdicts]

theorem verdicts_drop (n : ℕ) :
    (verdicts clock queue).drop n=verdicts (fun i => clock (i+n)) (queue.drop n) := by
  induction n generalizing clock queue with
  | zero => simp
  | succ n ih =>
    cases queue with
    | nil => simp [verdicts]
    | cons job rest =>
      rw [verdicts_cons,drop_succ_cons,drop_succ_cons,ih]
      simp only [Nat.add_assoc]

end Verdicts

variable {w : WorkerProperties Key Msg} {limit : ℕ}

namespace WorkerProperties
variable [DecidableEq Key]

/-- What a scan for the next live job does: `n` expired jobs are discarded, and the clock is read
once for each job that is looked at. -/
structure Scanned (queue : List (Job Key Msg)) (w : WorkerProperties Key Msg)
    (world : World Key Msg) (n : ℕ) (next : Option (Job Key Msg))
    (w' : WorkerProperties Key Msg) (world' : World Key Msg) : Prop where
  expired : ∀i v,i<n → (verdicts world.oracle.clock queue)[i]?=some v → v.2=true
  found : (verdicts world.oracle.clock queue)[n]?=next.map fun job => (job,false)
  rest : w'.messageQueue=queue.drop (n+1)
  log : world'.log=world.log ++
    ((verdicts world.oracle.clock queue).take n).map (.discardBy w.discardHandler)
  clock : next.isSome → world'.oracle.clock=fun i => world.oracle.clock (i+(n+1))
  casts : world'.oracle.casts=world.oracle.casts
  handler : w'.discardHandler=w.discardHandler

theorem nextNonExpired_scanned (queue : List (Job Key Msg)) (w : WorkerProperties Key Msg)
    (world : World Key Msg) :
    ∃n,Scanned queue w world n (nextNonExpired queue w world).1
      (nextNonExpired queue w world).2.1 (nextNonExpired queue w world).2.2 := by
  induction queue generalizing w world with
  | nil =>
    exact ⟨0,⟨by simp,by simp [verdicts,nextNonExpired],rfl,by simp [nextNonExpired],nofun,rfl,rfl⟩⟩
  | cons job rest ih =>
    unfold nextNonExpired
    split
    next he =>
      obtain ⟨n,h⟩:=ih (w.untrackPendingKey job.key)
        (world.tick.discard w.discardHandler .ttlExpired job)
      have hc : (world.tick.discard w.discardHandler .ttlExpired job).oracle.clock =
          fun i => world.oracle.clock (i+1) := by
        rw [discard_oracle]
        rfl
      have hlog:=discard_log world.tick w.discardHandler .ttlExpired job
      have hh : job.isExpired (world.oracle.clock 0)=true:=he
      refine ⟨n+1,⟨?_,?_,?_,?_,?_,?_,?_⟩⟩
      · have hex:=h.expired
        simp only [hc] at hex
        rintro (_ | i) v hi hv
        · rw [verdicts_cons,List.getElem?_cons_zero] at hv
          exact Option.some.inj hv ▸ hh
        · rw [verdicts_cons,List.getElem?_cons_succ] at hv
          exact hex i v (by omega) hv
      · have hf:=h.found
        simp only [hc] at hf
        rw [verdicts_cons,List.getElem?_cons_succ,hf]
      · rw [h.rest,drop_succ_cons]
      · rw [h.log,hlog,hc,untrackPendingKey_discardHandler,verdicts_cons,take_succ_cons,map_cons]
        simp [Effect.discardBy,hh]
      · intro hs
        rw [h.clock hs,hc]
        funext i
        simp only [Nat.add_assoc]
      · rw [h.casts,discard_oracle]
        rfl
      · rw [h.handler,untrackPendingKey_discardHandler]
    next he =>
      have hh : job.isExpired (world.oracle.clock 0)=false := by simpa [now] using he
      exact ⟨0,⟨by simp,by simp [hh],rfl,by simp,fun _ => rfl,rfl,rfl⟩⟩

/-! ### The shedding loop -/

/-- What the `Oldest` loop of `enqueue_job` does: it takes the first `n` jobs off the queue. It begins
and goes on behind a live job only while the queue is too long, and ends with a live job or with the
queue. -/
structure Shed (limit : ℕ) (w : WorkerProperties Key Msg) (world : World Key Msg) (n : ℕ)
    (w' : WorkerProperties Key Msg) (world' : World Key Msg) : Prop where
  le : n≤w.messageQueue.length
  rest : w'.messageQueue=w.messageQueue.drop n
  log : world'.log=world.log ++
    ((verdicts world.oracle.clock w.messageQueue).take n).map (.discardBy w.discardHandler)
  enough : w.messageQueue.length - n≤limit
  begun : 0<n → limit<w.messageQueue.length
  goesOn : ∀i job,i+1<n →
    (verdicts world.oracle.clock w.messageQueue)[i]?=some (job,false) →
    limit<w.messageQueue.length - (i+1)
  ends : ∀i v,i+1=n → n<w.messageQueue.length →
    (verdicts world.oracle.clock w.messageQueue)[i]?=some v → v.2=false

theorem shedOldest_nil (limit fuel : ℕ) (world : World Key Msg) (h : w.messageQueue=[]) :
    shedOldest limit fuel w world=(w,world) := by
  cases fuel with
  | zero => rfl
  | succ fuel => simp [shedOldest,h]

omit [DecidableEq Key] in
theorem Scanned.shed_all {n : ℕ} {w' : WorkerProperties Key Msg} {world world' : World Key Msg}
    (h : Scanned w.messageQueue w world n none w' world') (hlo : limit<w.messageQueue.length) :
    Shed limit w world w.messageQueue.length w' world' := by
  have hn : w.messageQueue.length≤n := by simpa using h.found
  have ht : (verdicts world.oracle.clock w.messageQueue).take n =
      (verdicts world.oracle.clock w.messageQueue).take w.messageQueue.length := by
    rw [take_of_length_le (by simpa using hn),take_of_length_le (by simp)]
  refine ⟨le_rfl,?_,by rw [h.log,ht],by omega,fun _ => hlo,?_,fun _ _ _ => by omega⟩
  · rw [h.rest,drop_of_length_le (by omega),drop_length]
  · intro i job hi hv
    exact absurd (h.expired i _ (by omega) hv) (by simp)

/-- A live job that is found behind `n` expired ones is shed, and the loop goes on. -/
theorem Scanned.shed_next {n m : ℕ} {w' t : WorkerProperties Key Msg}
    {world world' u : World Key Msg} {job : Job Key Msg} (hlo : limit<w.messageQueue.length)
    (h : Scanned w.messageQueue w world n (some job) w' world')
    (hnext : Shed limit (w'.untrackPendingKey job.key)
      (world'.discard w'.discardHandler .loadshed job) m t u) :
    Shed limit w world (n+1+m) t u := by
  have hn : n<w.messageQueue.length := by
    obtain ⟨hn,-⟩:=List.getElem?_eq_some_iff.mp h.found
    rwa [length_verdicts] at hn
  have hlen : (verdicts world.oracle.clock w.messageQueue).length=w.messageQueue.length :=
    length_verdicts
  have hf:=h.found
  have he:=h.expired
  have hlog:=h.log
  generalize hv : verdicts world.oracle.clock w.messageQueue=v at hlen hf he hlog
  have hr : v.drop (n+1)=verdicts (world'.discard w'.discardHandler .loadshed job).oracle.clock
      (w'.untrackPendingKey job.key).messageQueue := by
    rw [← hv,verdicts_drop,discard_oracle,h.clock rfl,untrackPendingKey_messageQueue,h.rest]
  have hle:=hnext.le
  have hen:=hnext.enough
  rw [untrackPendingKey_messageQueue,h.rest,length_drop] at hle hen
  have hs (j : ℕ) : v[n+1+j]?=(v.drop (n+1))[j]?:=(List.getElem?_drop ..).symm
  refine ⟨by omega,?_,?_,by omega,fun _ => hlo,?_,?_⟩
  · rw [hnext.rest,untrackPendingKey_messageQueue,h.rest,drop_drop]
  · rw [hnext.log,← hr,discard_log,hlog,untrackPendingKey_discardHandler,h.handler,
      hv,take_add,take_add_one,hf]
    simp [Effect.discardBy]
  · rw [hv]
    intro i job' hi hl
    rcases Nat.lt_trichotomy i n with hlt | rfl | hgt
    · exact absurd (he i _ hlt hl) (by simp)
    · have hb:=hnext.begun (by omega)
      rwa [untrackPendingKey_messageQueue,h.rest,length_drop] at hb
    · obtain ⟨k,rfl⟩ : ∃k,i=n+1+k:=⟨i - (n+1),by omega⟩
      rw [hs,hr] at hl
      have hg:=hnext.goesOn k job' (by omega) hl
      rw [untrackPendingKey_messageQueue,h.rest,length_drop] at hg
      omega
  · rw [hv]
    intro i u hi hlt hl
    rcases m with _ | m
    · obtain rfl : i=n := by omega
      rw [hf] at hl
      cases hl
      rfl
    · obtain rfl : i=n+1+m := by omega
      rw [hs,hr] at hl
      refine hnext.ends m u rfl ?_ hl
      rw [untrackPendingKey_messageQueue,h.rest,length_drop]
      omega

theorem shedOldest_shed (limit : ℕ) {fuel : ℕ} (world : World Key Msg)
    (hf : w.messageQueue.length≤fuel) :
    ∃n,Shed limit w world n (shedOldest limit fuel w world).1 (shedOldest limit fuel w world).2 := by
  induction fuel generalizing w world with
  | zero =>
    have he : w.messageQueue=[]:=eq_nil_of_length_eq_zero (by omega)
    exact ⟨0,⟨by omega,rfl,by simp [shedOldest],by simp [he],nofun,nofun,nofun⟩⟩
  | succ fuel ih =>
    unfold shedOldest
    split
    next hl =>
      obtain ⟨n,hsc⟩:=nextNonExpired_scanned w.messageQueue w world
      unfold getNextNonExpiredJob
      generalize nextNonExpired w.messageQueue w world=next at hsc
      obtain ⟨_ | job,w',world'⟩:=next
      · have he : w'.messageQueue=[] := by
          have hn : w.messageQueue.length≤n := by simpa using hsc.found
          rw [hsc.rest,drop_of_length_le (by omega)]
        dsimp only
        rw [shedOldest_nil limit fuel world' he]
        exact ⟨_,hsc.shed_all hl⟩
      · have hs : (w'.untrackPendingKey job.key).messageQueue.length≤fuel := by
          have hr:=hsc.rest
          rw [untrackPendingKey_messageQueue,hr,length_drop]
          omega
        obtain ⟨m,hne⟩:=ih (world'.discard w'.discardHandler .loadshed job) hs
        exact ⟨_,hsc.shed_next hl hne⟩
    next hs => exact ⟨0,⟨by omega,rfl,by simp,by omega,nofun,nofun,nofun⟩⟩

/-- The queue of a busy worker once a job has joined it, with which of its jobs are found to be
expired. -/
def arrivalVerdicts (w : WorkerProperties Key Msg) (job : Job Key Msg) (world : World Key Msg) :
    List (Job Key Msg × Bool) :=
  verdicts world.oracle.clock (w.messageQueue++[job.taken])

def shedCount (w : WorkerProperties Key Msg) (job : Job Key Msg) (world : World Key Msg) : ℕ :=
  w.messageQueue.length+1 - (w.enqueueJob job world).1.messageQueue.length

omit [DecidableEq Key] in
theorem refusesNewest_oldest (h : w.discardSettings=.static limit .oldest) :
    w.refusesNewest=false := by
  simp [refusesNewest,h,WorkerDiscardSettings.getLimitAndMode]

theorem enqueueJob_shed (hsl : w.currJobs.entries≠[])
    (hs : w.discardSettings=.static limit .oldest) (job : Job Key Msg)
    (world : World Key Msg) :
    Shed limit (w.acceptJob job) ((world.record (.enqueued w job)).accept job)
      (w.shedCount job world) (w.enqueueJob job world).1 (w.enqueueJob job world).2 := by
  have hq : (w.acceptJob job).messageQueue.length=w.messageQueue.length+1 := by
    simp [acceptJob]
  obtain ⟨n,h⟩:=shedOldest_shed limit ((world.record (.enqueued w job)).accept job) hq.le
  unfold shedCount
  rw [enqueueJob_busy job world (refusesNewest_oldest hs) hsl,hs]
  simp only [WorkerDiscardSettings.getLimitAndMode]
  have hn : w.messageQueue.length+1 - (shedOldest limit (w.messageQueue.length+1)
      (w.acceptJob job) ((world.record (.enqueued w job)).accept job)).1.messageQueue.length=n := by
    have hle:=h.le
    rw [h.rest,length_drop]
    omega
  rwa [hn]

/-- Of the first `n` jobs, which are discarded, a live one is only shed while the queue from it on is
too long; so none is if the expired jobs in front are enough. -/
def ShedsMinimally (limit n : ℕ) (queue : List (Job Key Msg × Bool)) : Prop :=
  (∀i job,i<n → queue[i]?=some (job,false) → limit<queue.length - i) ∧
    ∀expired,(∀i v,i<expired → queue[i]?=some v → v.2=true) →
      queue.length - expired≤limit → ∀i v,i<n → queue[i]?=some v → v.2=true

/-- If the last job above the limit is expired, no live one stands behind it. -/
def ExcessEndsLive (limit : ℕ) (queue : List (Job Key Msg × Bool)) : Prop :=
  ∀last u,queue.length=limit+last+1 → queue[last]?=some u → u.2=true →
    ∀i v,last < i → queue[i]?=some v → v.2=true

omit [DecidableEq Key] in
theorem Shed.minimal_iff {n : ℕ} {w' : WorkerProperties Key Msg} {world world' : World Key Msg}
    (h : Shed limit w world n w' world') :
    ShedsMinimally limit n (verdicts world.oracle.clock w.messageQueue) ↔
      ExcessEndsLive limit (verdicts world.oracle.clock w.messageQueue) := by
  obtain ⟨hle,-,-,hen,hbe,hgo,hends⟩:=h
  have hl : (verdicts world.oracle.clock w.messageQueue).length=w.messageQueue.length :=
    length_verdicts
  generalize verdicts world.oracle.clock w.messageQueue=queue at hl hgo hends
  rw [← hl] at hle hen hbe hgo hends
  constructor
  · rintro ⟨hm,-⟩ last ⟨late,_⟩ hlast hla rfl i ⟨job,_ | _⟩ hi hv
    · have hin:=(List.getElem?_eq_some_iff.mp hv).1
      by_cases hn : n<queue.length
      · -- the loop ends with a live job, which stands behind the last one above the limit
        obtain ⟨k,rfl⟩ : ∃k,n=k+1:=⟨n - 1,by omega⟩
        have hk:=hends k queue[k] rfl hn (getElem?_eq_getElem (by omega))
        rcases Nat.lt_or_ge last k with hlt | hge
        · have hs:=hm k queue[k].1 (by omega) (by rw [getElem?_eq_getElem (by omega),← hk])
          omega
        · obtain rfl : k=last := by omega
          rw [getElem?_eq_getElem (by omega)] at hla
          rw [Option.some_inj.mp hla] at hk
          cases hk
      · have hs:=hm i job (by omega) hv
        omega
    · rfl
  · intro hb
    have hlive : ∀i job,i<n → queue[i]?=some (job,false)→limit<queue.length - i := by
      intro i job hi hv
      by_contra hlim
      have hin:=(List.getElem?_eq_some_iff.mp hv).1
      have hlo:=hbe (by omega)
      have hat : queue[queue.length - limit - 1]?=some queue[queue.length - limit - 1] :=
        getElem?_eq_getElem (by omega)
      cases he : queue[queue.length - limit - 1].2 with
      | false =>
        have hg:=hgo (queue.length - limit - 1) queue[queue.length - limit - 1].1 (by omega)
          (by rw [hat,← he])
        omega
      | true => exact absurd (hb _ _ (by omega) hat he i _ (by omega) hv) (by simp)
    refine ⟨hlive,?_⟩
    rintro expired hexp hsh i ⟨job,_ | _⟩ hi hv
    · -- a live job stands behind the expired ones, where the queue is short enough
      have hlong:=hlive i job hi hv
      have hbe : expired ≤ i := by
        by_contra hlt
        exact absurd (hexp i _ (by omega) hv) (by simp)
      omega
    · rfl

/-- A busy worker that sheds its oldest jobs discards expired jobs as expired and live ones as shed. It
sheds no more live jobs than it has to if and only if no live job stands behind the last job above the
limit where that one is expired. -/
theorem oldest_shedding_minimal {w : WorkerProperties Key Msg} {limit : ℕ}
    (hslot : w.currJobs.entries≠[]) (hsettings : w.discardSettings=.static limit .oldest)
    (job : Job Key Msg) (world : World Key Msg) :
    (w.enqueueJob job world).2.log=((world.record (.enqueued w job)).accept job).log ++
      ((w.arrivalVerdicts job world).take (w.shedCount job world)).map
        (.discardBy w.discardHandler) ∧
    (w.enqueueJob job world).1.messageQueue =
      (w.messageQueue++[job.taken]).drop (w.shedCount job world) ∧
    (ShedsMinimally limit (w.shedCount job world) (w.arrivalVerdicts job world) ↔
      ExcessEndsLive limit (w.arrivalVerdicts job world)) := by
  have h:=enqueueJob_shed hslot hsettings job world
  have hverdicts : verdicts ((world.record (.enqueued w job)).accept job).oracle.clock
      (w.acceptJob job).messageQueue=w.arrivalVerdicts job world := by
    rw [accept_oracle]
    rfl
  have hlog:=h.log
  have hminimal:=h.minimal_iff
  rw [hverdicts] at hlog hminimal
  exact ⟨hlog,h.rest,hminimal⟩

end WorkerProperties

def Job.late (key : ℕ) : Job ℕ Unit:=⟨key,(),⟨0,some 0,some ⟨0,0,true⟩,0⟩,none⟩

/-- A worker that is busy with key 0 and sheds its oldest jobs beyond a limit. -/
def WorkerProperties.busy (limit : ℕ) (queue : List (Job ℕ Unit)) : WorkerProperties ℕ Unit :=
  { (.new 0 (.ofLocal 0) (.static limit .oldest) none : WorkerProperties ℕ Unit) with
    messageQueue:=queue
    currJobs:=(∅ : AList fun _ : ℕ => JobOptions).insert 0 (Job.plain 0).options }

def World.calm : World ℕ Unit:=⟨.calm,0,0,[]⟩

/-- The oldest of two live jobs makes room for a third one. -/
theorem oldest_shedding_minimal_busy :
    ∃w : WorkerProperties ℕ Unit,w.currJobs.entries≠[] ∧
      w.discardSettings=.static 2 .oldest ∧ w.shedCount (.plain 3) .calm=1 ∧
      ShedsMinimally 2 1 (w.arrivalVerdicts (.plain 3) .calm) := by
  have h:=(oldest_shedding_minimal (w:=.busy 2 [.plain 1,.plain 2]) (by decide) rfl
    (.plain 3) .calm).2.2
  refine ⟨.busy 2 [.plain 1,.plain 2],by decide,rfl,by decide,h.mpr ?_⟩
  rintro (_ | last) u hlast hu hexpired
  · cases hu
    cases hexpired
  · have hlast : 3=2+(last+1)+1:=hlast
    omega

/-- Behind an expired job a live one is shed although the queue has become short enough. -/
theorem oldest_sheds_behind_expired :
    ∃w : WorkerProperties ℕ Unit,w.currJobs.entries≠[] ∧ w.discardSettings=.static 2 .oldest ∧
      w.arrivalVerdicts (.plain 3) .calm=[(.late 1,true),(.plain 2,false),(.plain 3,false)] ∧
      (w.enqueueJob (.plain 3) .calm).2.log =
        [.enqueued w (.plain 3),.dropped .ttlExpired (.late 1),.dropped .loadshed (.plain 2)] :=
  ⟨.busy 2 [.late 1,.plain 2],by decide,rfl,rfl,rfl⟩

end Ractor.Factory
