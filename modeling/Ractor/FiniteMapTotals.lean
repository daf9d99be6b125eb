import Mathlib.Data.List.AList
import Mathlib.Algebra.GroupWithZero.Nat
import Mathlib.Algebra.BigOperators.Group.List.Basic

/-!
# Totals over finite maps

A finite map is an `AList` with a constant value type. `total f m` adds `f` over
the stored values, once per key. Inserting, overwriting and erasing one key change
a total by exactly the contribution of that key, which is all an accounting
argument over a table needs. `visit` rewrites values in place.
-/

namespace Ractor.FiniteMap
open AList List

universe u v w

variable {α : Type u} {β : Type v} (f : β→ℕ)

def total (m : AList (fun _ : α => β)) : ℕ :=
  (m.entries.map fun e => f e.2).sum

@[simp] theorem total_empty : total f (∅ : AList (fun _ : α => β))=0:=rfl

theorem total_add (f g : β→ℕ) (m : AList (fun _ : α => β)) :
    total (fun b => f b+g b) m=total f m+total g m := by
  unfold total
  induction m.entries with
  | nil => rfl
  | cons e l ih =>
    simp only [map_cons,sum_cons,ih]
    omega

variable [DecidableEq α] {b : β} {m : AList (fun _ : α => β)} {a a' : α}

private theorem sum_kerase (f : β→ℕ) (a : α) :
    ∀l : List (Sigma fun _ : α => β),l.dlookup a=some b →
      ((l.kerase a).map fun e => f e.2).sum+f b=(l.map fun e => f e.2).sum
  | [],h => by simp at h
  | ⟨a',b'⟩::l,h => by
    by_cases ha : a=a'
    · subst a'
      rw [dlookup_cons_eq,Option.some.injEq] at h
      subst b'
      have hk : kerase a ((⟨a,b⟩ : Sigma fun _ : α => β)::l)=l:=kerase_cons_eq rfl
      rw [hk]
      simp [Nat.add_comm]
    · rw [dlookup_cons_ne _ _ ha] at h
      have ih:=sum_kerase f a l h
      rw [kerase_cons_ne ha]
      simp only [map_cons,sum_cons]
      omega

theorem total_erase (h : m.lookup a=some b) : total f (m.erase a)+f b=total f m :=
  sum_kerase f a m.entries h

theorem total_insert_of_lookup (b' : β) (h : m.lookup a=some b) :
    total f (m.insert a b')+f b=total f m+f b' := by
  have he:=sum_kerase f a m.entries h
  simp only [total,entries_insert,map_cons,sum_cons]
  omega

theorem total_insert_of_notMem (b : β) (h : a∉m) : total f (m.insert a b)=total f m+f b := by
  simp only [total,entries_insert_of_notMem h,map_cons,sum_cons]
  omega

theorem lookup_insert_eq_some {b' : β} :
    (m.insert a b).lookup a'=some b' ↔ a'=a ∧ b'=b ∨ a'≠a ∧ m.lookup a'=some b' := by
  by_cases ha : a'=a
  · subst ha
    simp [lookup_insert,eq_comm]
  · simp [lookup_insert_ne ha,ha]

theorem exists_lookup_insert (b : β) (h : a'=a ∨ ∃b',m.lookup a'=some b') :
    ∃b',(m.insert a b).lookup a'=some b' := by
  by_cases ha : a'=a
  · exact ⟨b,by rw [ha]; exact lookup_insert m⟩
  · rw [lookup_insert_ne ha]
    exact h.resolve_left ha

theorem lookup_erase_eq_some {b' : β} :
    (m.erase a).lookup a'=some b' ↔ a'≠a ∧ m.lookup a'=some b' := by
  by_cases ha : a'=a
  · subst ha
    simp [lookup_erase]
  · simp [lookup_erase_ne ha,ha]

theorem exists_of_total_pos (h : 0<total f m) : ∃a b,m.lookup a=some b ∧ 0<f b := by
  have hm : ∃x∈m.entries.map (fun e => f e.2),x≠0 := by
    by_contra hn
    push Not at hn
    have hz:=sum_eq_zero hn
    exact absurd hz (by simpa [total] using h.ne')
  obtain ⟨x,hx,hpos⟩:=hm
  obtain ⟨⟨a,b⟩,he,rfl⟩:=mem_map.mp hx
  exact ⟨a,b,mem_lookup_iff.mpr he,Nat.pos_of_ne_zero hpos⟩

theorem le_total (h : m.lookup a=some b) : f b≤total f m := by
  have he:=total_erase f h
  omega

/-- Two maps with the same contribution at every key have the same total. -/
theorem total_congr {m' : AList (fun _ : α => β)}
    (h : ∀a,(m.lookup a).map f=(m'.lookup a).map f) : total f m=total f m' := by
  induction m using insertRec generalizing m' with
  | H0 =>
    by_contra hne
    rw [total_empty] at hne
    obtain ⟨a,b,hl,_⟩:=exists_of_total_pos f (Nat.pos_of_ne_zero (Ne.symm hne))
    have ha:=h a
    rw [hl] at ha
    cases ha
  | IH a b m hm ih =>
    have ha:=h a
    rw [lookup_insert,Option.map_some] at ha
    obtain ⟨b',hl,hb⟩:=Option.map_eq_some_iff.mp ha.symm
    have hr : total f m=total f (m'.erase a) := by
      refine ih fun k => ?_
      by_cases hk : k=a
      · subst hk
        rw [lookup_erase,lookup_eq_none.mpr hm]
      · rw [lookup_erase_ne hk,← h k,lookup_insert_ne hk]
    rw [total_insert_of_notMem f b hm,hr,← hb,total_erase f hl]

/-- Visit the listed keys in order, rewriting the value stored at each one and
threading an accumulator. Keys outside the map are skipped. -/
def visit {σ : Type w} (f : β → σ → β × σ) :
    List α → AList (fun _ : α => β) → σ → AList (fun _ : α => β) × σ
  | [],m,s => (m,s)
  | a::as,m,s =>
    match m.lookup a with
    | none => visit f as m s
    | some b => visit f as (m.insert a (f b s).1) (f b s).2

/-- The rule for a visit: what every single rewrite preserves, the visit preserves. -/
theorem visit_rec {σ : Type w} (f : β→σ→β × σ) (P : AList (fun _ : α => β)→σ→Prop)
    (step : ∀m s a b,m.lookup a=some b→P m s→P (m.insert a (f b s).1) (f b s).2) :
    ∀as m s,P m s→P (visit f as m s).1 (visit f as m s).2
  | [],_,_,h => h
  | a::as,m,s,h => by
    cases hb : m.lookup a with
    | none => simpa only [visit,hb] using visit_rec f P step as m s h
    | some b =>
      simpa only [visit,hb] using visit_rec f P step as _ _ (step m s a b hb h)

end Ractor.FiniteMap
