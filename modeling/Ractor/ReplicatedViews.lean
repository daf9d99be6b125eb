import Mathlib.Data.Set.Insert

/-!
# Views that are kept by notes

An observer is told of something far away by notes: that it is there, that it is marked with a key or
no longer, and that it is gone. Its view is nothing, or the set of the keys. What the observer has in
the end depends only on the last word on each key, as long as nothing is said to be gone, and on
nothing that was said before it was gone.
-/

namespace Ractor
open List

universe u

variable {κ : Type u}

inductive ViewNote (κ : Type u) where
  | create
  | mark (key : κ)
  | unmark (key : κ)
  | remove

variable {notes : List (ViewNote κ)} {view : Option (Set κ)} {key : κ}

namespace ViewNote

/-- A mark is put on what is not there yet as well, and creates it. -/
def apply : Option (Set κ) → ViewNote κ → Option (Set κ)
  | view,create => some (view.getD ∅)
  | view,mark key => some (insert key (view.getD ∅))
  | view,unmark key => view.map (· \ {key})
  | _,remove => none

def replay (view : Option (Set κ)) (notes : List (ViewNote κ)) : Option (Set κ) :=
  notes.foldl apply view

def Creates : ViewNote κ → Prop
  | create | mark _ => True
  | unmark _ | remove => False

theorem replay_append (view : Option (Set κ)) (notes notes' : List (ViewNote κ)) :
    replay view (notes++notes')=replay (replay view notes) notes' :=
  foldl_append

theorem replay_none (h : ∀note∈notes,¬ note.Creates) : replay none notes=none := by
  induction notes with
  | nil => rfl
  | cons note notes ih =>
    have hn : apply none note=none := by
      have hno:=h note mem_cons_self
      cases note with
      | create | mark key => exact absurd trivial hno
      | unmark key | remove => rfl
    rw [replay,foldl_cons,hn]
    exact ih fun note hm => h note (mem_cons_of_mem _ hm)

theorem replay_remove (view : Option (Set κ)) (notes : List (ViewNote κ))
    {notes' : List (ViewNote κ)} (h : ∀note∈notes',¬ note.Creates) :
    replay view (notes++remove::notes')=none := by
  rw [replay_append,replay,foldl_cons]
  exact replay_none h

theorem isSome_apply {note : ViewNote κ} (hn : note≠remove) :
    (apply view note).isSome=true ↔ view.isSome=true ∨ note.Creates := by
  cases note with
  | create | mark key | unmark key => simp [apply,Creates]
  | remove => exact absurd rfl hn

theorem isSome_replay (h : ∀note∈notes,note≠remove) :
    (replay view notes).isSome=true ↔ view.isSome=true ∨ ∃note∈notes,note.Creates := by
  induction notes generalizing view with
  | nil => simp [replay]
  | cons note notes ih =>
    have hr : (replay (apply view note) notes).isSome=true ↔ _ :=
      ih fun note hm => h note (mem_cons_of_mem _ hm)
    rw [replay,foldl_cons]
    refine hr.trans ?_
    simp [isSome_apply (h note mem_cons_self),or_assoc]

/-! ### The last word on a key -/

def Marked (key : κ) (view : Option (Set κ)) : Prop:=key∈view.getD ∅

section Last
variable [DecidableEq κ]

def word (key : κ) : ViewNote κ → Option Bool
  | mark key' => if key'=key then some true else none
  | unmark key' => if key'=key then some false else none
  | create | remove => none

def lastWord (key : κ) (notes : List (ViewNote κ)) : Option Bool :=
  (notes.filterMap (word key)).getLast?

theorem lastWord_append (key : κ) (notes notes' : List (ViewNote κ)) :
    lastWord key (notes++notes')=(lastWord key notes').or (lastWord key notes) := by
  rw [lastWord,filterMap_append,getLast?_append]
  rfl

theorem lastWord_eq_none : lastWord key notes=none ↔ ∀note∈notes,note.word key=none := by
  rw [lastWord,getLast?_eq_none_iff,filterMap_eq_nil_iff]

theorem marked_apply {note : ViewNote κ} (hn : note≠remove) :
    Marked key (apply view note) ↔ (note.word key).elim (Marked key view) (· = true) := by
  cases note with
  | create => simp [apply,Marked,word]
  | mark key' =>
    by_cases heq : key'=key
    · simp [apply,Marked,word,heq]
    · simp [apply,Marked,word,heq,Ne.symm heq]
  | unmark key' =>
    cases view with
    | none => by_cases heq : key'=key <;> simp [apply,Marked,word,heq]
    | some keys =>
      by_cases heq : key'=key
      · simp [apply,Marked,word,heq]
      · simp [apply,Marked,word,heq,Ne.symm heq]
  | remove => exact absurd rfl hn

theorem marked_replay (h : ∀note∈notes,note≠remove) :
    Marked key (replay view notes) ↔ (lastWord key notes).elim (Marked key view) (· = true) := by
  induction notes generalizing view with
  | nil => rfl
  | cons note notes ih =>
    have hr : Marked key (replay (apply view note) notes) ↔ _ :=
      ih fun note hm => h note (mem_cons_of_mem _ hm)
    have hc : lastWord key (note::notes)=(lastWord key notes).or (note.word key) := by
      rw [← singleton_append,lastWord_append]
      congr 1
      cases hw : note.word key <;> simp [lastWord,hw]
    rw [replay,foldl_cons,hc]
    refine hr.trans ?_
    cases lastWord key notes with
    | none => exact marked_apply (h note mem_cons_self)
    | some word => rfl

end Last
end ViewNote
end Ractor
