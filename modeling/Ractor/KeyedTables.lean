import Mathlib.Logic.Function.Basic
import Mathlib.Data.List.Basic

/-!
# Tables that index a list of records

A record may have a key or none. A table indexes the records when it maps a key to a position
exactly if the record at that position has the key. The rules say how a table has to change when
a record is added, replaced by one with the same key, or replaced by one without a key.
-/

namespace Ractor.KeyedTable
open Function

universe u v

variable {α : Type u} {κ : Type v} [DecidableEq κ] (table : κ→Option ℕ)

def put (key : Option κ) (value : Option ℕ) : κ → Option ℕ :=
  match key with
  | none => table
  | some k => update table k value

@[simp] theorem put_none (value : Option ℕ) : put table none value=table :=
  rfl

@[simp] theorem put_some (k : κ) (value : Option ℕ) :
    put table (some k) value=update table k value:=rfl

theorem put_none_of_free {table : κ→Option ℕ} {key : Option κ}
    (hf : ∀k,key=some k→table k=none) : put table key none=table := by
  cases key with
  | none => rfl
  | some k => simp [← hf k rfl]

def Indexed (key : α → Option κ) (table : κ → Option ℕ) (items : List α) : Prop :=
  ∀k a,table k=some a ↔ ∃item,items[a]?=some item ∧ key item=some k

variable {key : α→Option κ} {table} {table' : κ→Option ℕ} {items : List α}

omit [DecidableEq κ] in
/-- The records determine the table. -/
theorem Indexed.unique (h : Indexed key table items) (h' : Indexed key table' items) :
    table=table' := by
  funext k
  ext a
  rw [h k a,h' k a]

theorem Indexed.push {item : α} (h : Indexed key table items)
    (hf : ∀k,key item=some k→table k=none) :
    Indexed key (put table (key item) (some items.length)) (items++[item]) := by
  intro k a
  have hold (hk : key item≠some k) :
      (∃i,(items++[item])[a]?=some i ∧ key i=some k) ↔
        ∃i,items[a]?=some i ∧ key i=some k := by
    refine ⟨fun ⟨i,hi,hik⟩ => ?_,fun ⟨i,hi,hik⟩ => ⟨i,?_,hik⟩⟩
    · rw [List.getElem?_append] at hi
      split at hi
      · exact ⟨i,hi,hik⟩
      · have hmem:=List.mem_of_getElem? hi
        rw [List.mem_singleton] at hmem
        exact absurd (hmem ▸ hik) hk
    · rw [List.getElem?_append_left (List.getElem?_eq_some_iff.mp hi).1,hi]
  cases hkey : key item with
  | none => rw [put_none,h k a,hold (by simp [hkey])]
  | some k' =>
    rw [put_some]
    by_cases hk : k=k'
    · subst hk
      rw [update_self,Option.some.injEq]
      constructor
      · rintro rfl
        exact ⟨item,by simp,hkey⟩
      · rintro ⟨i,hi,hik⟩
        -- no older record has the key, since it was free
        by_contra hne
        have ha : a < items.length := by
          have:=(List.getElem?_eq_some_iff.mp hi).1
          simp only [List.length_append,List.length_singleton] at this
          omega
        rw [List.getElem?_append_left ha] at hi
        have:=(h k a).mpr ⟨i,hi,hik⟩
        rw [hf k hkey] at this
        cases this
    · rw [update_of_ne hk,h k a,hold (by simp [hkey,Ne.symm hk])]

omit [DecidableEq κ] in
theorem Indexed.set {item item' : α} {i : ℕ} (h : Indexed key table items)
    (hi : items[i]?=some item) (hkey : key item'=key item) :
    Indexed key table (items.set i item') := by
  intro k a
  rw [h k a,List.getElem?_set]
  have hlen : i < items.length:=(List.getElem?_eq_some_iff.mp hi).1
  by_cases ha : i=a
  · subst ha
    rw [hi]
    simp [hlen,hkey]
  · simp [ha]

theorem Indexed.clear {item item' : α} {i : ℕ} (h : Indexed key table items)
    (hi : items[i]?=some item) (hkey : key item'=none) :
    Indexed key (put table (key item) none) (items.set i item') := by
  intro k a
  have hlen : i < items.length:=(List.getElem?_eq_some_iff.mp hi).1
  have hr : (∃j,(items.set i item')[a]?=some j ∧ key j=some k) ↔ i≠a ∧ table k=some a := by
    rw [List.getElem?_set,h k a]
    by_cases ha : i=a
    · subst ha
      simp [hlen,hkey]
    · simp [ha]
  rw [hr]
  cases hk' : key item with
  | none =>
    rw [put_none]
    refine ⟨fun ht => ⟨?_,ht⟩,And.right⟩
    rintro rfl
    obtain ⟨j,hj,hjk⟩:=(h k i).mp ht
    rw [hi,Option.some.injEq] at hj
    rw [← hj,hk'] at hjk
    cases hjk
  | some k' =>
    rw [put_some]
    have ho : table k'=some i:=(h k' i).mpr ⟨item,hi,hk'⟩
    by_cases hk : k=k'
    · subst hk
      simp [ho]
    · rw [update_of_ne hk]
      refine ⟨fun ht => ⟨?_,ht⟩,And.right⟩
      rintro rfl
      obtain ⟨j,hj,hjk⟩:=(h k i).mp ht
      rw [hi,Option.some.injEq] at hj
      rw [← hj,hk',Option.some.injEq] at hjk
      exact hk hjk.symm

end Ractor.KeyedTable
