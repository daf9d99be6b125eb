import Ractor.FactoryJobs
import Ractor.ReachableRuns

/-!
# Retriable messages

A `RetriableMessage` that is dropped sends its payload to the factory once more, in a copy with one
retry less. Whoever holds the job may let go of it at any time, and a `Drop` lets go of copies of its
own, of a job that has expired and of one that came back from a closed factory. `Copy` says where a
message is, with the two halves of its `Drop`, and a copy becomes at most one other copy. `Within`
counts the retries that are left to it.
-/

namespace Ractor.Factory
open Option List

inductive MessageRetryStrategy where
  | retryForever
  | count (n : ℕ)
  | noRetry
  deriving DecidableEq, Repr

namespace MessageRetryStrategy

def hasRetries : MessageRetryStrategy → Bool
  | retryForever => true
  | count n => 0<n
  | noRetry => false

def decrement : MessageRetryStrategy → MessageRetryStrategy
  | count n => if 1<n then count (n - 1) else noRetry
  | retryForever => retryForever
  | noRetry => noRetry

/-- The number of retries, unless they are unlimited. -/
def retries? : MessageRetryStrategy → Option ℕ
  | retryForever => none
  | count n => some n
  | noRetry => some 0

theorem retries_decrement {strategy : MessageRetryStrategy} {k : ℕ}
    (h : strategy.retries?=some k) (hr : strategy.hasRetries=true) :
    ∃j,k=j+1 ∧ strategy.decrement.retries?=some j := by
  cases strategy with
  | retryForever => simp [retries?] at h
  | noRetry => simp [hasRetries] at hr
  | count n =>
    simp only [retries?,some.injEq] at h
    simp only [hasRetries,decide_eq_true_eq] at hr
    refine ⟨n - 1,by omega,?_⟩
    simp only [decrement]
    split
    · rfl
    · simp only [retries?,some.injEq]
      omega

end MessageRetryStrategy

/-- The retry hook only looks at the key, and is caught when it panics. -/
structure RetriableMessage (Key Msg : Type) where
  key : Key
  message : Option Msg
  strategy : MessageRetryStrategy
  retryHook : Option HandlerId
  retryState : Option (JobOptions × ActorId)
  deriving DecidableEq, Repr

variable {Key Msg : Type}

abbrev RetriableJob (Key Msg : Type):=Job Key (RetriableMessage Key Msg)

namespace RetriableMessage

def new (key : Key) (message : Msg) (strategy : MessageRetryStrategy) : RetriableMessage Key Msg :=
  ⟨key,some message,strategy,none,none⟩

variable (self : RetriableMessage Key Msg)

def captureRetryState (options : JobOptions) (factory : ActorId) : RetriableMessage Key Msg :=
  {self with retryState:=some (options,factory)}

def fromJob (job : Job Key Msg) (strategy : MessageRetryStrategy) (factory : ActorId) :
    RetriableJob Key Msg :=
  ⟨job.key,(new job.key job.msg strategy).captureRetryState job.options factory,job.options,none⟩

def completed : RetriableMessage Key Msg:={self with strategy:=.noRetry,message:=none}

/-- The first half of `Drop`: the job to send, if there is one. `typeOf` is the answer of
`is_message_type_of` of the factory. -/
def retry (typeOf : Option Bool) : Option (RetriableJob Key Msg) :=
  if !self.strategy.hasRetries || self.message.isNone then none
  else
    match self.retryState with
    | none => none
    | some (options,factory) =>
      if typeOf≠some true then none
      else some
        { key:=self.key
          msg :=
            { key:=self.key,message:=self.message,strategy:=self.strategy.decrement,
              retryHook:=self.retryHook,retryState:=some (options,factory) }
          options:=options
          accepted:=none }

/-- What is left of a message when the job to send has been made of it. -/
def taken : RetriableMessage Key Msg:={self with message:=none,retryHook:=none}

end RetriableMessage

/-- Where a retriable message is: in the hands of a worker, a queue, a discard handler or a factory
that is closing, or in a `Drop` of its own. -/
inductive Copy (Key Msg : Type) where
  | held (job : RetriableJob Key Msg)
  | entered (self : RetriableMessage Key Msg)
  | resubmits (self : RetriableMessage Key Msg) (job : RetriableJob Key Msg)

inductive RetryEvent where
  | setRetryHook (hook : HandlerId)
  | completed
  | letGo
  | enter (typeOf : Option Bool)
  | resubmit (now : Instant) (accepts : Bool)
  deriving Repr

namespace Copy

/-- The copy that takes the place of this one, and the jobs that are cast to the factory meanwhile.
A job that has expired and a job that comes back are completed and dropped. -/
def next : Copy Key Msg → RetryEvent → Option (Option (Copy Key Msg) × List (RetriableJob Key Msg))
  | held job,.setRetryHook hook =>
    some (some (held {job with msg:={job.msg with retryHook:=some hook}}),[])
  | held job,.completed => some (some (held {job with msg:=job.msg.completed}),[])
  | held job,.letGo => some (some (entered job.msg),[])
  | entered self,.enter typeOf => some ((self.retry typeOf).map (resubmits self.taken),[])
  | resubmits _ job,.resubmit now accepts =>
    if job.isExpired now then some (some (entered job.msg.completed),[])
    else if accepts then some (some (held job),[job])
    else some (some (entered job.msg.completed),[job])
  | _,_ => none

def payloads : Copy Key Msg → List Msg
  | held job => job.msg.message.toList
  | entered self => self.message.toList
  | resubmits self job => self.message.toList++job.msg.message.toList

/-- The message is completed, has expired, or came back from a closed factory. -/
def ends : Copy Key Msg → RetryEvent → Bool
  | held _,.completed => true
  | resubmits _ job,.resubmit now accepts => job.isExpired now || !accepts
  | _,_ => false

/-- At most `k` retries are left. -/
def Within (k : ℕ) : Copy Key Msg → Prop
  | held job => job.msg.message≠none → job.msg.strategy.retries?=some k
  | entered self => self.message≠none → self.strategy.retries?=some k
  | resubmits self job =>
    self.message=none ∧ ∃j,k=j+1 ∧ job.msg.strategy.retries?=some j

variable {c : Copy Key Msg} {event : RetryEvent} {after : Option (Copy Key Msg)}
  {sent : List (RetriableJob Key Msg)} {k : ℕ}

theorem length_payloads_le (h : c.Within k) : c.payloads.length≤1 := by
  cases c with
  | held job => exact length_toList_le
  | entered self => exact length_toList_le
  | resubmits self job =>
    simp only [payloads,h.1,toList_none,nil_append]
    exact length_toList_le

/-- A step sends nothing, or sends one job with one retry less. -/
theorem Within.step (h : c.Within k) (hn : c.next event=some (after,sent)) :
    (sent=[] ∧ ∀c'∈after,c'.Within k) ∨
      ∃job j,k=j+1 ∧ sent=[job] ∧ job.msg.strategy.retries?=some j ∧ ∀c'∈after,c'.Within j := by
  cases c with
  | held job =>
    cases event <;> cases hn <;> refine .inl ⟨rfl,?_⟩ <;> rintro _ ⟨⟩
    · exact h
    · exact fun hne => absurd rfl hne
    · exact h
  | entered self =>
    cases event <;> cases hn
    refine .inl ⟨rfl,fun c' hc => ?_⟩
    obtain ⟨job,hj,rfl⟩:=map_eq_some_iff.mp hc
    simp only [RetriableMessage.retry] at hj
    split at hj
    · cases hj
    next hne =>
      simp only [Bool.or_eq_true,Bool.not_eq_true',isNone_iff_eq_none,not_or,
        Bool.not_eq_false] at hne
      split at hj
      · cases hj
      · obtain ⟨-,⟨⟩⟩:=ite_none_left_eq_some.mp hj
        exact ⟨rfl,MessageRetryStrategy.retries_decrement (h hne.2) hne.1⟩
  | resubmits self job =>
    obtain ⟨-,j,rfl,hj⟩:=h
    cases event with
    | resubmit now accepts =>
      simp only [next] at hn
      split at hn
      · cases hn
        refine .inl ⟨rfl,?_⟩
        rintro _ ⟨⟩
        exact fun hne => absurd rfl hne
      · refine .inr ⟨job,j,rfl,?_⟩
        split at hn <;> cases hn <;> refine ⟨rfl,hj,?_⟩ <;> rintro _ ⟨⟩
        · exact fun _ => hj
        · exact fun hne => absurd rfl hne
    | _ => cases hn

/-- No retries are left, whatever the strategy was. -/
theorem within_of_ends (he : c.ends event=true) (hn : c.next event=some (after,sent)) :
    ∀c'∈after,c'.Within 0 := by
  cases c with
  | held job =>
    cases event <;> cases he
    cases hn
    rintro _ ⟨⟩ hne
    exact absurd rfl hne
  | entered self => cases he
  | resubmits self job =>
    cases event with
    | resubmit now accepts =>
      have he : after=some (entered job.msg.completed) := by
        simp only [next] at hn
        cases hx : job.isExpired now <;> simp_all [ends]
      subst he
      rintro _ ⟨⟩ hne
      exact absurd rfl hne
    | _ => cases he

end Copy

/-- All copies of one message, and the jobs that were cast to the factory by `Drop`. -/
structure Retrial (Key Msg : Type) where
  copies : List (Copy Key Msg)
  redispatched : List (RetriableJob Key Msg):=[]

namespace Retrial

def step (s : Retrial Key Msg) (label : ℕ × RetryEvent) : Option (Retrial Key Msg) :=
  (s.copies[label.1]?).bind fun c => (c.next label.2).map fun (next,sent) =>
    { copies:=s.copies.take label.1++next.toList++s.copies.drop (label.1+1)
      redispatched:=s.redispatched++sent }

abbrev Step (s : Retrial Key Msg) (label : ℕ × RetryEvent) (s' : Retrial Key Msg) : Prop :=
  s.step label=some s'

variable {s s' : Retrial Key Msg} {label : ℕ × RetryEvent}

/-- There is one copy at most. -/
structure Sound (n : ℕ) (s : Retrial Key Msg) : Prop where
  bound : s.redispatched.length≤n
  fewer : s.redispatched.map (·.msg.strategy.retries?) =
    (range s.redispatched.length).map fun i => some (n - 1 - i)
  alone : ∃c : Option (Copy Key Msg),s.copies=c.toList ∧
    ∀c'∈c,c'.Within (n - s.redispatched.length)

theorem step_alone {c : Option (Copy Key Msg)} (hc : s.copies=c.toList) (hs : s.Step label s') :
    ∃c' after sent,c=some c' ∧ c'.next label.2=some (after,sent) ∧
      s'=⟨after.toList,s.redispatched++sent⟩ := by
  obtain ⟨c',hc',hm⟩:=bind_eq_some_iff.mp hs
  obtain ⟨⟨after,sent⟩,hn,rfl⟩:=map_eq_some_iff.mp hm
  cases c with
  | none => simp [hc] at hc'
  | some c =>
    rw [hc,toList_some,getElem?_singleton] at hc'
    obtain ⟨hz,⟨⟩⟩:=ite_none_right_eq_some.mp hc'
    exact ⟨c',after,sent,rfl,hn,by simp [hc,hz]⟩

theorem Sound.step {n : ℕ} (h : s.Sound n) (hs : s.Step label s') : s'.Sound n := by
  obtain ⟨c,hc,hw⟩:=h.alone
  obtain ⟨c,after,sent,rfl,hn,rfl⟩:=step_alone hc hs
  rcases (hw c rfl).step hn with ⟨rfl,hw'⟩ | ⟨job,j,hj,rfl,hr,hw'⟩
  · exact ⟨by simpa using h.bound,by simpa using h.fewer,after,rfl,by simpa using hw'⟩
  · refine ⟨?_,?_,after,rfl,?_⟩
    · simp only [length_append,length_singleton]
      omega
    · simp only [map_append,h.fewer,length_append,length_singleton,range_succ,map_singleton,hr]
      congr 3
      omega
    · simp only [length_append,length_singleton]
      rwa [show n - (s.redispatched.length+1)=j by omega]

theorem redispatched_of_within {c : Option (Copy Key Msg)} (hc : s.copies=c.toList)
    (hw : ∀c'∈c,c'.Within 0) (h : Reachable (· = s) Step s') :
    s'.redispatched=s.redispatched := by
  refine (h.invariant (P:=fun t => t.redispatched=s.redispatched ∧
    ∃c : Option (Copy Key Msg),t.copies=c.toList ∧ ∀c'∈c,c'.Within 0) ?_ ?_).1
  · rintro _ rfl
    exact ⟨rfl,c,hc,hw⟩
  · rintro t label t' ⟨hr,c,hc,hw⟩ hs
    obtain ⟨c,after,sent,rfl,hn,rfl⟩:=step_alone hc hs
    rcases (hw c rfl).step hn with ⟨rfl,hw⟩ | ⟨job,j,hj,-⟩
    · exact ⟨by simpa using hr,after,rfl,hw⟩
    · cases hj

def submitted (job : Job Key Msg) (strategy : MessageRetryStrategy) (factory : ActorId) :
    Retrial Key Msg :=
  {copies:=[.held (RetriableMessage.fromJob job strategy factory)]}

/-- `Drop` sends a message to the factory as often as it has retries, with one less each time. There
is never a second payload, and none is left when the message was completed, has expired or has come
back. -/
theorem retry_budget (job : Job Key Msg) (factory : ActorId) {strategy : MessageRetryStrategy}
    {n : ℕ} (hn : strategy.retries?=some n)
    (h : Reachable (· = submitted job strategy factory) Step s) :
    s.redispatched.length≤n ∧ s.redispatched.map (·.msg.strategy.retries?) =
        (range s.redispatched.length).map (fun i => some (n - 1 - i)) ∧
      (s.copies.flatMap Copy.payloads).length≤1 ∧
      ∀label c s',s.copies[label.1]?=some c → c.ends label.2=true → s.Step label s' →
        ∀s'',Reachable (· = s') Step s'' → s''.redispatched=s'.redispatched := by
  have hsound : s.Sound n := by
    refine h.invariant ?_ fun _ _ _ ht => ht.step
    rintro _ rfl
    refine ⟨Nat.zero_le n,rfl,some (.held (RetriableMessage.fromJob job strategy factory)),rfl,?_⟩
    rintro _ ⟨⟩
    exact fun _ => hn
  obtain ⟨c,hc,hw⟩:=hsound.alone
  refine ⟨hsound.bound,hsound.fewer,?_,fun label c' s' hc' he hs s'' hs'' => ?_⟩
  · rw [hc]
    cases c with
    | none => simp
    | some c => simpa using Copy.length_payloads_le (hw c rfl)
  · obtain ⟨c,after,sent,rfl,hne,rfl⟩:=step_alone hc hs
    rw [hc,toList_some,getElem?_singleton] at hc'
    obtain ⟨-,⟨⟩⟩:=ite_none_right_eq_some.mp hc'
    exact redispatched_of_within rfl (Copy.within_of_ends he hne) hs''

theorem exists_reached {first : Retrial Key Msg} (labels : List (ℕ × RetryEvent))
    {test : Retrial Key Msg→Bool} (h : (execute step first labels).any test=true) :
    ∃s,Reachable (· = first) Step s ∧ test s=true :=
  exists_of_execute (fun _ _ _ hs => hs) (fun _ hs => (some.inj hs).symm) labels h

/-- A worker fails, the job is sent again, and the next worker completes it. -/
theorem retry_budget_once :
    ∃s s' : Retrial Unit Unit,
      Reachable (· = submitted ⟨(),(),⟨0,none,none,0⟩,none⟩ (.count 2) (.ofLocal 1)) Step s ∧
      s.Step (0,.completed) s' ∧ s'.redispatched.length=1 ∧
      ∀s'',Reachable (· = s') Step s''→s''.redispatched=s'.redispatched := by
  have hrun : (execute step (submitted (⟨(),(),⟨0,none,none,0⟩,none⟩ : Job Unit Unit)
      (.count 2) (.ofLocal 1)) [(0,.letGo),(0,.enter (some true)),(0,.resubmit 0 true)]).any
        (fun s => s.copies[0]?.any (·.ends .completed) &&
          (s.step (0,.completed)).any (·.redispatched.length == 1))=true:=rfl
  obtain ⟨s,h,ht⟩:=exists_reached _ hrun
  obtain ⟨hc,hs⟩:=Bool.and_eq_true_iff.mp ht
  obtain ⟨c,hc,he⟩:=(any_eq_true _ _).mp hc
  obtain ⟨s',hs,hl⟩:=(any_eq_true _ _).mp hs
  exact ⟨s,s',h,hs,eq_of_beq hl,(retry_budget _ _ rfl h).2.2.2 _ c s' hc he hs⟩

end Retrial
end Ractor.Factory
