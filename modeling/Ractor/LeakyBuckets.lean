import Mathlib.Data.Nat.ModEq
import Mathlib.Data.Set.Card
import Mathlib.Tactic.Ring
import Ractor.FactoryRouting
import Ractor.ReachableRuns
import Ractor.WireBytes

/-!
# The leaky bucket

`LeakyBucketRateLimiter` of `ratelim.rs`. What a refresh does is said by the number of the deadlines
`d`, `d + i`, `d + 2 i`, … that have passed: splitting the time in between changes nothing, as a later
refresh counts on from where an earlier one has stopped.
-/

namespace Ractor.Factory

def maxLbBalance [Target] : ℕ:=isizeMax

/-- The last instant that the clock of the machine can represent. -/
class InstantRange where
  last : Instant

def checkedAdd [InstantRange] (now : Instant) (duration : Duration) : Option Instant :=
  if now+duration≤InstantRange.last then some (now+duration) else none

def nanosPerSec : ℕ:=1000000000

structure LeakyBucketRateLimiter where
  refill : ℕ
  interval : Duration
  max : ℕ
  balance : ℕ
  deadline : Option Instant
  /-- A `Duration` has 64 bits for its seconds. -/
  interval_lt : interval<2^64*nanosPerSec
  deriving DecidableEq, Repr

/-- The number of the deadlines `d`, `d + interval`, … that are not after `now`. -/
noncomputable def duePeriods (d interval now : ℕ) : ℕ:={j : ℕ | d+j*interval≤now}.ncard

/-! ### Times -/

variable {l : LeakyBucketRateLimiter} {d interval k now : ℕ}

theorem lt_duePeriods (hi : 0 < interval) : k<duePeriods d interval now ↔ d+k*interval≤now := by
  have hset : {j : ℕ | d+j*interval≤now} =
      ↑(Finset.range (if now<d then 0 else (now - d) / interval+1)) := by
    ext j
    rw [Set.mem_ofPred_eq,Finset.coe_range,Set.mem_Iio]
    split
    next hlt => omega
    next hlt =>
      rw [Nat.lt_succ_iff,Nat.le_div_iff_mul_le hi]
      omega
  have hmem : k∈{j : ℕ | d+j*interval≤now} ↔ k<duePeriods d interval now := by
    rw [duePeriods,hset,Set.ncard_coe_finset,Finset.card_range,Finset.coe_range,Set.mem_Iio]
  exact hmem.symm

theorem duePeriods_eq (hi : 0 < interval) (hle : d≤now) :
    duePeriods d interval now=(now - d) / interval+1 := by
  refine eq_of_forall_lt_iff fun j => ?_
  rw [lt_duePeriods hi,Nat.lt_succ_iff,Nat.le_div_iff_mul_le hi]
  omega

theorem duePeriods_pos (hi : 0 < interval) : 0<duePeriods d interval now ↔ d≤now := by
  rw [lt_duePeriods hi,Nat.zero_mul,Nat.add_zero]

theorem duePeriods_eq_zero (hi : 0 < interval) (hlt : now<d) : duePeriods d interval now=0 :=
  Nat.eq_zero_of_not_pos fun hpos => Nat.not_le.mpr hlt ((duePeriods_pos hi).mp hpos)

theorem duePeriods_add {t₁ t₂ : ℕ} (hi : 0 < interval) (ht : t₁≤t₂) :
    duePeriods d interval t₁+duePeriods (d+duePeriods d interval t₁*interval) interval t₂ =
      duePeriods d interval t₂ := by
  refine eq_of_forall_lt_iff fun j => ?_
  rw [lt_duePeriods hi]
  rcases Nat.lt_or_ge j (duePeriods d interval t₁) with hj | hj
  · have hle:=(lt_duePeriods hi).mp hj
    exact iff_of_true (by omega) (hle.trans ht)
  · obtain ⟨m,rfl⟩:=Nat.exists_eq_add_of_le hj
    rw [Nat.add_lt_add_iff_left,lt_duePeriods hi,Nat.add_mul,Nat.add_assoc]

namespace LeakyBucketRateLimiter

/-- Neither the seconds nor what is left of a second is cut off. -/
theorem seconds_add_subsec (h : k<l.interval) :
    min (k / nanosPerSec) (2^64 - 1)*nanosPerSec+min (k % nanosPerSec) (2^32 - 1)=k := by
  have hlt:=h.trans l.interval_lt
  have hsec : k / nanosPerSec<2^64:=Nat.div_lt_of_lt_mul (by rwa [Nat.mul_comm])
  have hsub : k % nanosPerSec<nanosPerSec:=Nat.mod_lt _ (by decide)
  rw [min_eq_left (by omega),min_eq_left (by simp only [nanosPerSec] at hsub ⊢; omega)]
  exact Nat.div_add_mod' _ _

variable [Target] [InstantRange]

def new (refill : ℕ) (interval : Duration) (max : ℕ) (initial : Option ℕ) (now : Instant)
    (interval_lt : interval<2^64*nanosPerSec) : LeakyBucketRateLimiter where
  refill:=refill
  interval:=interval
  max:=max
  balance:=min (initial.getD max) max
  deadline:=checkedAdd now interval
  interval_lt:=interval_lt

def refresh (l : LeakyBucketRateLimiter) (now : Instant) : LeakyBucketRateLimiter :=
  match l.deadline with
  | none => l
  | some deadline =>
    if now<deadline then l
    else if l.interval=0 then
      {l with balance:=min (min (l.balance+l.refill) usizeMax) l.max,deadline:=some now}
    else
      let since := now - deadline
      let periods := min (since / l.interval+1) usizeMax
      let tokens := min (min (periods*l.refill) usizeMax) maxLbBalance
      let sinceLastPeriod := since % l.interval
      let seconds := min (sinceLastPeriod / nanosPerSec) (2^64 - 1)
      let subsecNanos := min (sinceLastPeriod % nanosPerSec) (2^32 - 1)
      { l with
        deadline:=checkedAdd now (l.interval - (seconds*nanosPerSec+subsecNanos))
        balance:=min (min (l.balance+tokens) usizeMax) l.max }

instance : RateLimiter LeakyBucketRateLimiter where
  check l now:=(decide (0<(l.refresh now).balance),l.refresh now)
  bump l:=if 0<l.balance then {l with balance:=l.balance - 1} else l

/-! ### What a refresh does -/

omit [InstantRange] in
/-- The products saturate only where the bucket gets full anyway. -/
theorem min_tokens (hm : l.max ≤ maxLbBalance) (k : ℕ) :
    min (min (l.balance+min (min (min k usizeMax*l.refill) usizeMax) maxLbBalance) usizeMax)
      l.max=min l.max (l.balance+k*l.refill) := by
  have hlt : maxLbBalance<usizeMax:=isizeMax_lt_usizeMax
  have hle : min k usizeMax*l.refill≤k*l.refill:=Nat.mul_le_mul_right _ (min_le_left ..)
  have hk : k*l.refill=min k usizeMax*l.refill ∨ usizeMax ≤ min k usizeMax*l.refill := by
    rcases le_total k usizeMax with hk | hk
    · exact .inl (by rw [min_eq_left hk])
    · rcases Nat.eq_zero_or_pos l.refill with hr | hr
      · exact .inl (by rw [hr,Nat.mul_zero,Nat.mul_zero])
      · exact .inr (by rw [min_eq_right hk]; exact Nat.le_mul_of_pos_right _ hr)
  omega

theorem refresh_of_lt (hd : l.deadline=some d) (hlt : now<d) : l.refresh now=l := by
  simp only [refresh,hd,if_pos hlt]

/-- A refresh is determined by the number of the deadlines that have passed. -/
theorem refresh_eq (hd : l.deadline=some d) (hl : d≤InstantRange.last) (hi : 0<l.interval)
    (hm : l.max ≤ maxLbBalance)
    (h : 0<duePeriods d l.interval now ∨ l.balance≤l.max) :
    l.refresh now={l with
      balance:=min l.max (l.balance+duePeriods d l.interval now*l.refill)
      deadline:=checkedAdd d (duePeriods d l.interval now*l.interval)} := by
  rcases Nat.lt_or_ge now d with hlt | hle
  · rw [duePeriods_eq_zero hi hlt] at h ⊢
    have hb : min l.max (l.balance+0*l.refill)=l.balance := by
      rw [Nat.zero_mul]
      exact min_eq_right (h.resolve_left (Nat.lt_irrefl 0))
    rw [refresh_of_lt hd hlt,hb,Nat.zero_mul,checkedAdd,Nat.add_zero,if_pos hl,← hd]
  · have hmod:=Nat.mod_lt (now - d) hi
    have hsplit:=Nat.div_add_mod' (now - d) l.interval
    -- the deadline is computed from the remainder of the time since the old one
    have hnext : now+(l.interval - (now - d) % l.interval) =
        d+((now - d) / l.interval+1)*l.interval := by
      rw [Nat.add_mul]
      omega
    simp only [refresh,hd,duePeriods_eq hi hle,if_neg (Nat.not_lt.mpr hle),if_neg hi.ne',
      seconds_add_subsec hmod,checkedAdd,hnext,min_tokens hm]

theorem refresh_refresh {t₁ t₂ : ℕ} (hd : l.deadline=some d) (hl : d≤InstantRange.last)
    (hi : 0<l.interval) (hm : l.max ≤ maxLbBalance) (ht : t₁≤t₂)
    (hr : (l.refresh t₂).deadline≠none) : (l.refresh t₁).refresh t₂=l.refresh t₂ := by
  rcases Nat.lt_or_ge t₁ d with hlt | hle
  · rw [refresh_of_lt hd hlt]
  have hpos₁:=(duePeriods_pos hi).mpr hle
  have hpos₂:=(duePeriods_pos hi).mpr (hle.trans ht)
  have hadd:=duePeriods_add (d:=d) hi ht
  rw [refresh_eq hd hl hi hm (.inl hpos₂)] at hr ⊢
  rw [refresh_eq hd hl hi hm (.inl hpos₁)]
  have hle₂ : d+duePeriods d l.interval t₂*l.interval≤InstantRange.last := by
    by_contra hnot
    exact hr (if_neg hnot)
  rw [← hadd,Nat.add_mul] at hle₂ ⊢
  have hle₁ : d+duePeriods d l.interval t₁*l.interval≤InstantRange.last := by omega
  refine (refresh_eq (l:={l with
    balance:=min l.max (l.balance+duePeriods d l.interval t₁*l.refill)
    deadline:=checkedAdd d (duePeriods d l.interval t₁*l.interval)})
    (if_pos hle₁) hle₁ hi hm (.inr (min_le_left ..))).trans ?_
  simp only [checkedAdd,Nat.add_mul,← Nat.add_assoc]
  congr 1
  omega

/-- Refreshing a bucket twice is refreshing it once, at the later time. A refill adds the tokens of
all deadlines that have passed, up to the maximum, and leaves the first one that has not. Where
none has passed the balance stays, also one above the maximum. -/
theorem refresh_path_independent {t₁ t₂ : ℕ} (hd : l.deadline=some d)
    (hl : d≤InstantRange.last) (hi : 0<l.interval) (hm : l.max ≤ maxLbBalance) (ht : t₁≤t₂)
    (hr : (l.refresh t₂).deadline≠none) :
    (l.refresh t₁).refresh t₂=l.refresh t₂ ∧
      (l.refresh t₂).balance=(if duePeriods d l.interval t₂=0 then l.balance else
        min l.max (l.balance+duePeriods d l.interval t₂*l.refill)) ∧
      ∀d',(l.refresh t₂).deadline=some d' → d' ≡ d [MOD l.interval] ∧
        (0<duePeriods d l.interval t₂ → t₂<d') := by
  refine ⟨refresh_refresh hd hl hi hm ht hr,?_⟩
  rcases Nat.lt_or_ge t₂ d with hlt | hle
  · rw [refresh_of_lt hd hlt,duePeriods_eq_zero hi hlt]
    refine ⟨(if_pos rfl).symm,fun d' hd' => ⟨?_,fun h => absurd h (Nat.lt_irrefl 0)⟩⟩
    rw [Option.some.inj (hd.symm.trans hd')]
  · have hpos:=(duePeriods_pos hi).mpr hle
    rw [refresh_eq hd hl hi hm (.inl hpos)]
    refine ⟨(if_neg hpos.ne').symm,fun d' hd' => ?_⟩
    obtain ⟨-,rfl⟩:=Option.ite_some_none_eq_some.mp hd'
    refine ⟨by simp [Nat.ModEq],fun _ => ?_⟩
    exact Nat.lt_of_not_le fun h => Nat.lt_irrefl _ ((lt_duePeriods hi).mpr h)

omit [Target] [InstantRange] in
/-- A bucket that holds more than its maximum, as its public fields allow, is not cut down to it as
long as no refill is due. -/
theorem overfull_bucket_stays :
    letI:=Target.wide
    letI : InstantRange:=⟨100⟩
    let l : LeakyBucketRateLimiter := ⟨1,10,1,2,some 10,by decide⟩
    l.max ≤ maxLbBalance ∧ (l.refresh 0).deadline=some 10 ∧
      (l.refresh 0).balance≠min l.max (l.balance+duePeriods 10 l.interval 0*l.refill) := by
  refine ⟨by decide,by decide,?_⟩
  rw [duePeriods_eq_zero (by decide) (by decide)]
  decide

omit [Target] [InstantRange] in
theorem refresh_path_independent_thrice :
    letI:=Target.wide
    letI : InstantRange:=⟨100⟩
    let l : LeakyBucketRateLimiter := ⟨2,10,8,1,some 10,by decide⟩
    (l.refresh 37).balance=7 ∧ (l.refresh 37).deadline=some 40 ∧
      (l.refresh 15).refresh 37=l.refresh 37 := by
  let _ := Target.wide
  let _ : InstantRange := ⟨100⟩
  exact ⟨by decide,by decide,(refresh_path_independent rfl (by decide) (by decide) (by decide)
    (by decide) (by decide)).1⟩

/-! ### Admissions -/

/-- The tokens left in a bucket and those spent come from the start and from `k` refills, which were
due. -/
structure Granted (l₀ : LeakyBucketRateLimiter) (t₀ : Instant) (l : LeakyBucketRateLimiter)
    (now : Instant) (spent : ℕ) : Prop where
  fixed : l={l₀ with balance:=l.balance,deadline:=l.deadline}
  balance_le : l.balance≤l₀.max
  refills : ∃k,t₀+k*l₀.interval≤now ∧ l.balance+spent≤l₀.balance+l₀.refill*k ∧
    ∀d,l.deadline=some d → d=t₀+(k+1)*l₀.interval ∧ d≤InstantRange.last

section Granted
variable {l₀ : LeakyBucketRateLimiter} {t₀ t spent : ℕ} (h : Granted l₀ t₀ l now spent)
include h

theorem Granted.refresh (hi : 0<l₀.interval) (hm : l₀.max ≤ maxLbBalance) (ht : now≤t) :
    Granted l₀ t₀ (l.refresh t) t spent := by
  obtain ⟨hfixed,hle,k,hk,hspent,hdue⟩:=h
  cases hd : l.deadline with
  | none =>
    have hsame : l.refresh t=l := by simp only [LeakyBucketRateLimiter.refresh,hd]
    rw [hsame]
    exact ⟨hfixed,hle,k,hk.trans ht,hspent,hdue⟩
  | some d =>
    obtain ⟨hdk,hlast⟩:=hdue d hd
    rw [hfixed] at hd ⊢
    rw [refresh_eq hd hlast hi hm (.inr hle)]
    refine ⟨rfl,min_le_left ..,k+duePeriods d l₀.interval t,?_,?_,fun d' hd' => ?_⟩
    · rcases hp : duePeriods d l₀.interval t with _ | m
      · exact hk.trans ht
      · have hm':=(lt_duePeriods hi).mp (show m<duePeriods d l₀.interval t by omega)
        have hsum : t₀+(k+(m+1))*l₀.interval=d+m*l₀.interval := by
          rw [hdk]
          ring
        exact hsum.le.trans hm'
    · have hmin:=min_le_right l₀.max (l.balance+duePeriods d l₀.interval t*l₀.refill)
      have hring : l₀.refill*(k+duePeriods d l₀.interval t) =
          l₀.refill*k+duePeriods d l₀.interval t*l₀.refill := by ring
      simp only
      omega
    · obtain ⟨hle',rfl⟩:=Option.ite_some_none_eq_some.mp hd'
      refine ⟨?_,hle'⟩
      rw [hdk]
      ring

theorem Granted.bump (hpos : 0<l.balance) (ht : now≤t) :
    Granted l₀ t₀ (RateLimiter.bump l) t (spent+1) := by
  obtain ⟨hfixed,hle,k,hk,hspent,hdue⟩:=h
  have hb : RateLimiter.bump l={l with balance:=l.balance - 1}:=if_pos hpos
  rw [hb,hfixed]
  refine ⟨rfl,(Nat.sub_le ..).trans hle,k,hk.trans ht,?_,hdue⟩
  simp only
  omega

omit [Target] in
theorem Granted.spent_le (hi : 0<l₀.interval) (ht : now≤t) :
    spent≤l₀.balance+l₀.refill*((t - t₀) / l₀.interval) := by
  obtain ⟨-,-,k,hk,hspent,-⟩:=h
  have hdiv : k≤(t - t₀) / l₀.interval := 
    (Nat.le_div_iff_mul_le hi).mpr (Nat.le_sub_of_add_le' (hk.trans ht))
  have hmul:=Nat.mul_le_mul_left l₀.refill hdiv
  omega

end Granted

inductive LimiterCall where
  | check (now : Instant)
  | bump (now : Instant)

structure Admissions where
  limiter : LeakyBucketRateLimiter
  now : Instant
  /-- The last call was a check that succeeded. -/
  passed : Bool:=false
  bumps : List Instant:=[]

/-- As in `RateLimitedRouter::route_message`, a limiter is bumped after a successful check. -/
def Admissions.step (s : Admissions) : LimiterCall → Option Admissions
  | .check now =>
    if s.now≤now then
      let checked := RateLimiter.check s.limiter now
      some {s with limiter:=checked.2,now:=now,passed:=checked.1}
    else none
  | .bump now =>
    if s.now≤now ∧ s.passed=true then
      some ⟨RateLimiter.bump s.limiter,now,false,now::s.bumps⟩
    else none

/-- What calls at times that do not decrease make of a limiter. -/
def Admissions.Runs (l₀ : LeakyBucketRateLimiter) (t₀ : Instant) : Admissions → Prop :=
  Reachable (· = {limiter:=l₀,now:=t₀}) fun s call s' => s.step call=some s'

structure Admissions.Bounded (l₀ : LeakyBucketRateLimiter) (t₀ : Instant) (s : Admissions) : Prop where
  granted : Granted l₀ t₀ s.limiter s.now s.bumps.length
  passed : s.passed=true → 0<s.limiter.balance
  bumps : ∀t,s.bumps.countP (· ≤ t)≤l₀.balance+l₀.refill*((t - t₀) / l₀.interval)

theorem Admissions.Bounded.step {s s' : Admissions} {l₀ : LeakyBucketRateLimiter} {t₀ : Instant}
    (h : s.Bounded l₀ t₀) (hi : 0<l₀.interval) (hm : l₀.max ≤ maxLbBalance) {call : LimiterCall}
    (hs : s.step call=some s') : s'.Bounded l₀ t₀ := by
  cases call with
  | check now =>
    obtain ⟨hnow,rfl⟩:=Option.ite_some_none_eq_some.mp hs
    exact ⟨h.granted.refresh hi hm hnow,of_decide_eq_true,h.bumps⟩
  | bump now =>
    obtain ⟨⟨hnow,hp⟩,rfl⟩:=Option.ite_some_none_eq_some.mp hs
    have hb:=h.granted.bump (h.passed hp) hnow
    refine ⟨hb,nofun,fun t => ?_⟩
    -- what is counted at an earlier time has been counted before
    rcases Nat.lt_or_ge t now with hlt | hle
    · rw [List.countP_cons_of_neg (by simpa using hlt)]
      exact h.bumps t
    · exact List.countP_le_length.trans (hb.spent_le hi hle)

/-- However a bucket is checked and bumped, it admits no more than it holds at the start and is refilled
with in the whole intervals since then. -/
theorem leaky_bucket_admission_bound {refill interval max : ℕ} {initial : Option ℕ} {t₀ : Instant}
    (hlt : interval<2^64*nanosPerSec) (hi : 0 < interval) (hm : max ≤ maxLbBalance)
    {s : Admissions} (h : s.Runs (new refill interval max initial t₀ hlt) t₀) :
    s.limiter.balance ≤ max ∧ ∀t,s.bumps.countP (· ≤ t) ≤
      min (initial.getD max) max+refill*((t - t₀) / interval) := by
  have hb : s.Bounded (new refill interval max initial t₀ hlt) t₀ := by
    refine Reachable.invariant ?_ (fun _ _ _ hs hstep => hs.step hi hm hstep) h
    rintro _ rfl
    refine ⟨⟨rfl,min_le_right ..,0,?_,?_,fun d hd => ?_⟩,nofun,fun t => Nat.zero_le _⟩
    · simp
    · simp
    · obtain ⟨hle,rfl⟩:=Option.ite_some_none_eq_some.mp hd
      exact ⟨by simp [new],hle⟩
  exact ⟨hb.granted.balance_le,hb.bumps⟩

omit [Target] [InstantRange] in
theorem leaky_bucket_admission_bound_refilled :
    letI:=Target.wide
    letI : InstantRange:=⟨100⟩
    ∃s : Admissions,s.Runs (new 1 10 5 (some 1) 0 (by decide)) 0 ∧ s.bumps=[13,0] ∧
      s.bumps.countP (· ≤ 13) ≤ min 1 5+1*((13 - 0) / 10) := by
  let _ := Target.wide
  let _ : InstantRange := ⟨100⟩
  have hrun : (execute Admissions.step {limiter:=new 1 10 5 (some 1) 0 (by decide),now:=0}
      [.check 0,.bump 0,.check 12,.bump 13]).map Admissions.bumps=some [13,0] := by decide
  obtain ⟨s,hs,hb⟩:=Option.map_eq_some_iff.mp hrun
  have hr : s.Runs (new 1 10 5 (some 1) 0 (by decide)) 0 :=
    Reachable.execute (fun _ _ _ => id) _ (.start rfl) hs
  exact ⟨s,hr,hb,(leaky_bucket_admission_bound (by decide) (by decide) (by decide) hr).2 13⟩

end LeakyBucketRateLimiter
end Ractor.Factory
