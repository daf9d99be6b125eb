import Mathlib.Data.Nat.Notation
import Mathlib.Logic.Relation

/-!
# Runs of a labelled transition system

`Reachable start step` collects the states that some finite run leads to. The
induction rule `Reachable.invariant` is the only way later modules reason about
runs. `guarded` restricts every step of a run by a condition on the state before
the step and on its label. `execute` replays a list of labels through a
deterministic step function, so that a closed computation witnesses reachability.
The last two rules are for loops over a range of indices.
-/

namespace Ractor
open List

universe u v

variable {σ : Type u} {ε : Type v}

/-- The states reached from a starting state by finitely many steps. -/
inductive Reachable (start : σ→Prop) (step : σ→ε→σ→Prop) : σ→Prop where
  | start {s} (h : start s) : Reachable start step s
  | next {s e s'} (h : Reachable start step s) (hs : step s e s') : Reachable start step s'

variable {start : σ→Prop} {step : σ→ε→σ→Prop}

/-- What holds at the start and is kept by every step holds in every reachable state. -/
theorem Reachable.invariant {P : σ→Prop} (initial : ∀s,start s→P s)
    (kept : ∀s e s',P s→step s e s'→P s') {s : σ} (h : Reachable start step s) : P s := by
  induction h with
  | start h => exact initial _ h
  | next _ hs ih => exact kept _ _ _ ih hs

theorem Reachable.mono {start' : σ→Prop} {step' : σ→ε→σ→Prop}
    (hst : ∀s,start s→start' s) (hstep : ∀s e s',step s e s'→step' s e s')
    {s : σ} (h : Reachable start step s) : Reachable start' step' s := by
  induction h with
  | start h => exact .start (hst _ h)
  | next _ hs ih => exact .next ih (hstep _ _ _ hs)

theorem Reachable.trans {s s' : σ} (h : Reachable start step s)
    (h' : Reachable (· = s) step s') : Reachable start step s' :=
  h'.invariant (fun _ he => he ▸ h) fun _ _ _ hr hs => hr.next hs

def guarded (guard : σ → ε → Prop) (step : σ → ε → σ → Prop) (s : σ) (e : ε) (s' : σ) : Prop :=
  guard s e ∧ step s e s'

def execute (f : σ → ε → Option σ) : σ → List ε → Option σ
  | s,[] => some s
  | s,e::es => (f s e).bind fun s' => execute f s' es

theorem Reachable.execute {f : σ→ε→Option σ} (hf : ∀s e s',f s e=some s'→step s e s') :
    ∀(es : List ε) {s s' : σ},Reachable start step s→execute f s es=some s' →
      Reachable start step s'
  | [],s,s',h,he => by
    obtain rfl : s=s' := by simpa [Ractor.execute] using he
    exact h
  | e::es,s,s',h,he => by
    obtain ⟨t,ht,he⟩:=Option.bind_eq_some_iff.mp he
    exact Reachable.execute hf es (.next h (hf _ _ _ ht)) he

/-- Replay labels as long as the guard admits them. -/
theorem Reachable.guarded_execute {f : σ→ε→Option σ}
    (hf : ∀s e s',f s e=some s'→step s e s') {guard : σ→ε→Prop}
    [∀s e,Decidable (guard s e)] (es : List ε) {s s' : σ}
    (h : Reachable start (guarded guard step) s)
    (he : Ractor.execute (fun s e => if guard s e then f s e else none) s es=some s') :
    Reachable start (guarded guard step) s' := by
  have hg (s : σ) (e : ε) (s' : σ) (hs : (if guard s e then f s e else none)=some s') :
      guarded guard step s e s':=(Option.ite_none_right_eq_some.mp hs).imp_right (hf s e s')
  exact Reachable.execute hg es h he

/-- A test on the last state of a replay exhibits a reachable state that passes it. -/
theorem exists_of_execute {f : σ→ε→Option σ} (hf : ∀s e s',f s e=some s'→step s e s')
    {first : Option σ} (hfi : ∀s,first=some s→start s) (es : List ε) {test : σ→Bool}
    (h : (first.bind fun s => execute f s es).any test=true) :
    ∃s,Reachable start step s ∧ test s=true := by
  obtain ⟨s,hs,ht⟩:=(Option.any_eq_true _ _).mp h
  obtain ⟨s₀,hs₀,he⟩:=Option.bind_eq_some_iff.mp hs
  exact ⟨s,Reachable.execute hf es (.start (hfi s₀ hs₀)) he,ht⟩

/-! ### Loops over a range -/

/-- A property indexed by the loop counter, for a loop that may fail. -/
theorem foldlM_range'_rec {κ : Type v} {f : σ→ℕ→Except κ σ} {P : ℕ→σ→Prop} {first n : ℕ} {s s' : σ}
    (step : ∀i s s',first ≤ i→i<first+n→P i s→f s i=.ok s'→P (i+1) s')
    (h : (range' first n).foldlM f s=.ok s') (hs : P first s) : P (first+n) s' := by
  induction n generalizing first s with
  | zero =>
    cases h
    exact hs
  | succ n ih =>
    rw [range'_succ,foldlM_cons] at h
    cases hf : f s first with
    | error e =>
      rw [hf] at h
      cases h
    | ok t =>
      rw [hf] at h
      have ht : P (first+1) t:=step first s t (Nat.le_refl _) (by omega) hs hf
      have hr:=ih (fun i s s' hi hn => step i s s' (by omega) (by omega)) h ht
      rwa [show first+(n+1)=first+1+n by omega]

/-- A property indexed by the loop counter, for a loop that cannot fail. -/
theorem foldl_range'_rec {f : σ→ℕ→σ} {P : ℕ→σ→Prop} {first n : ℕ} {s : σ}
    (step : ∀i s,first ≤ i→i<first+n→P i s→P (i+1) (f s i)) (hs : P first s) :
    P (first+n) ((range' first n).foldl f s) := by
  induction n generalizing first s with
  | zero => exact hs
  | succ n ih =>
    rw [range'_succ,foldl_cons,show first+(n+1)=first+1+n by omega]
    exact ih (fun i s hi hn => step i s (by omega) (by omega))
      (step first s (Nat.le_refl _) (by omega) hs)

end Ractor
