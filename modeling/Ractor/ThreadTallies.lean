import Mathlib.Algebra.Order.BigOperators.Group.Finset
import Mathlib.Data.Fintype.BigOperators

/-!
# Counting threads

A finite family of threads, each with a local state. `tally p f` is the number of threads whose
state passes the test `p`. A step of one thread replaces one member of the family and changes a
tally by what that thread contributes before and after.
-/

namespace Ractor
open Finset
open Function

variable {ι α : Type*} [Fintype ι]

def tally (p : α → Bool) (f : ι → α) : ℕ := ∑ i,(p (f i)).toNat

theorem toNat_le_tally (p : α→Bool) (f : ι→α) (i : ι) : (p (f i)).toNat≤tally p f :=
  single_le_sum (f:=fun i => (p (f i)).toNat) (fun _ _ => Nat.zero_le _) (mem_univ i)

variable {p : α→Bool} {f : ι→α}

theorem tally_pos {i : ι} (h : p (f i)=true) : 0<tally p f := by
  have hi:=toNat_le_tally p f i
  rw [h] at hi
  exact hi

theorem tally_eq_zero (h : ∀i,p (f i)=false) : tally p f=0 := by
  refine sum_eq_zero fun i _ => ?_
  rw [h i]
  rfl

theorem tally_le_card (p : α→Bool) (f : ι→α) : tally p f≤Fintype.card ι := by
  have h : ∀i∈univ,(p (f i)).toNat≤1:=fun i _ => Bool.toNat_le _
  simpa [tally] using sum_le_card_nsmul univ (fun i => (p (f i)).toNat) 1 h

variable [DecidableEq ι]

theorem tally_update (p : α→Bool) (f : ι→α) (i : ι) (a : α) :
    tally p (update f i a)+(p (f i)).toNat=tally p f+(p a).toNat := by
  have hu : (fun j => (p (update f i a j)).toNat) =
      update (fun j => (p (f j)).toNat) i (p a).toNat :=
    comp_update (fun b => (p b).toNat) f i a
  have hf:=sum_update_of_mem (mem_univ i) (fun j => (p (f j)).toNat) (p (f i)).toNat
  rw [update_eq_self] at hf
  unfold tally
  rw [hu,sum_update_of_mem (mem_univ i),hf]
  omega

theorem tally_update_of_eq {i : ι} {a : α} (h : p a=p (f i)) :
    tally p (update f i a)=tally p f := by
  have hu:=tally_update p f i a
  rw [h] at hu
  omega

end Ractor
