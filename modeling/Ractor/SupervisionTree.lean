import Ractor.ActorStatus
import Mathlib.Logic.Function.Basic
import Mathlib.Data.List.Nodup
import Mathlib.Order.MinMax

/-!
# Supervision links

Every actor knows its supervisor and the set of its children; the set is `none` once it has been
closed for good. `link`, `unlink` and `takeChildren` change both ends of a link under one lock. The
two ends agree: an actor is among the children of `p` exactly when `p` is its supervisor.
-/

namespace Ractor
open Function Option List

/-- What the other actors can see of an actor. -/
@[ext] structure ActorCell (Id : Type) where
  status : ActorStatus:=.unstarted
  /-- The child set, in the order in which it is iterated over. -/
  children : Option (List Id):=some []
  supervisor : Option Id:=none
  /-- `Signal::Kill` has been sent on the signal port. -/
  killSent : Bool:=false
  deriving DecidableEq, Repr

abbrev Forest (Id : Type):=Id → ActorCell Id

namespace Forest
variable {Id : Type}

def childrenOf (f : Forest Id) (p : Id) : List Id:=(f p).children.getD []

variable [DecidableEq Id] (f : Forest Id) (actor : Id)

def setChildren (p : Id) (children : Option (List Id)) : Forest Id :=
  update f p {f p with children:=children}

def setSupervisor (c : Id) (supervisor : Option Id) : Forest Id :=
  update f c {f c with supervisor:=supervisor}

def removeChild (p c : Id) : Forest Id :=
  f.setChildren p ((f p).children.map fun children => children.erase c)

def link (child supervisor : Id) : Bool × Forest Id :=
  if .draining≤(f child).status ∨ .draining≤(f supervisor).status then (false,f)
  else
    match (f supervisor).children with
    | none => (false,f)
    | some children =>
      let inserted := f.setChildren supervisor (some (children.insert child))
      if (f child).supervisor=some supervisor then (true,inserted)
      else
        let replaced := inserted.setSupervisor child (some supervisor)
        match (f child).supervisor with
        | none => (true,replaced)
        | some previous => (true,replaced.removeChild previous child)

def unlink (child supervisor : Id) : Forest Id :=
  if (f child).supervisor=some supervisor then
    (f.removeChild supervisor child).setSupervisor child none
  else f

def takeChildren (parent : Id) : List Id × Forest Id :=
  let cells := f.childrenOf parent
  (cells,cells.foldl
    (fun f child => if (f child).supervisor=some parent then f.setSupervisor child none else f)
    (f.setChildren parent none))

/-- `kill`: the first `Signal::Kill` takes the signal port, any other finds it gone. -/
def kill : Forest Id :=
  update f actor {f actor with killSent:=true}

def setStatus (status : ActorStatus) : Forest Id :=
  update f actor {f actor with status:=max (f actor).status status}

def visit : List Id × Forest Id :=
  (if (f actor).status ≤ .upgrading then f.kill actor else f).takeChildren actor

/-! ### What the operations do to each actor -/

section Pointwise
variable (x : Id)

@[simp] theorem setChildren_apply (p : Id) (children : Option (List Id)) :
    f.setChildren p children x = {f x with children:=if x=p then children else (f x).children} := by
  unfold setChildren
  by_cases h : x=p
  · subst h
    rw [update_self,if_pos rfl]
  · rw [update_of_ne h,if_neg h]

@[simp] theorem setSupervisor_apply (c : Id) (supervisor : Option Id) :
    f.setSupervisor c supervisor x =
      {f x with supervisor:=if x=c then supervisor else (f x).supervisor} := by
  unfold setSupervisor
  by_cases h : x=c
  · subst h
    rw [update_self,if_pos rfl]
  · rw [update_of_ne h,if_neg h]

@[simp] theorem removeChild_apply (p c : Id) :
    f.removeChild p c x={f x with
      children:=if x=p then (f x).children.map fun children => children.erase c
        else (f x).children} := by
  unfold removeChild
  rw [setChildren_apply]
  by_cases h : x=p
  · subst h
    rfl
  · rw [if_neg h,if_neg h]

@[simp] theorem kill_apply (actor : Id) :
    f.kill actor x={f x with killSent:=(f x).killSent || decide (x=actor)} := by
  unfold kill
  by_cases h : x=actor
  · subst h
    simp
  · simp [h]

@[simp] theorem setStatus_apply (actor : Id) (status : ActorStatus) :
    f.setStatus actor status x =
      {f x with status:=if x=actor then max (f x).status status else (f x).status} := by
  unfold setStatus
  by_cases h : x=actor
  · subst h
    rw [update_self,if_pos rfl]
  · rw [update_of_ne h,if_neg h]

/-- Linking is refused under a shutting down actor or a closed child set. -/
theorem link_refused {child supervisor : Id}
    (h : .draining≤(f child).status ∨ .draining≤(f supervisor).status ∨
      (f supervisor).children=none) : f.link child supervisor=(false,f) := by
  unfold link
  split
  · rfl
  · next hs =>
    rw [not_or] at hs
    rw [(h.resolve_left hs.1).resolve_left hs.2]

/-- An accepted link moves the child from its previous supervisor to the new one. -/
theorem link_accepted {child supervisor : Id} {children : List Id}
    (hc : (f child).status < .draining) (hs : (f supervisor).status < .draining)
    (ho : (f supervisor).children=some children) :
    (f.link child supervisor).1=true ∧ (f.link child supervisor).2 x={f x with
        children:=if x=supervisor then some (children.insert child)
          else if (f child).supervisor=some x then
            (f x).children.map fun children => children.erase child
          else (f x).children
        supervisor:=if x=child then some supervisor else (f x).supervisor} := by
  unfold link
  rw [if_neg (not_or.mpr ⟨not_le_of_gt hc,not_le_of_gt hs⟩),ho]
  dsimp only
  by_cases hsa : (f child).supervisor=some supervisor
  · rw [if_pos hsa]
    refine ⟨rfl,(setChildren_apply ..).trans ?_⟩
    ext1
    · rfl
    · by_cases hx : x=supervisor
      · rw [if_pos hx,if_pos hx]
      · have hne : (f child).supervisor≠some x := by
          rw [hsa]
          exact fun he => hx (some.inj he).symm
        rw [if_neg hx,if_neg hx,if_neg hne]
    · by_cases hx : x=child
      · rw [if_pos hx,hx]
        exact hsa
      · rw [if_neg hx]
    · rfl
  · rw [if_neg hsa]
    cases hp : (f child).supervisor with
    | none =>
      refine ⟨rfl,?_⟩
      dsimp only
      rw [setSupervisor_apply,setChildren_apply]
      simp
    | some previous =>
      have hne : previous≠supervisor:=fun he => hsa (he ▸ hp)
      refine ⟨rfl,?_⟩
      dsimp only
      rw [removeChild_apply,setSupervisor_apply,setChildren_apply]
      ext1
      · rfl
      · by_cases hx : x=supervisor
        · have hxp : x≠previous:=fun he => hne (he.symm.trans hx)
          rw [if_neg hxp,if_pos hx,if_pos hx]
        · simp only [if_neg hx,some.injEq,eq_comm]
      · rfl
      · rfl

/-- A link is refused, or both actors are active and the child set is open. -/
theorem link_cases (child supervisor : Id) :
    f.link child supervisor=(false,f) ∨ (f child).status < .draining ∧
      (f supervisor).status < .draining ∧ ∃children,(f supervisor).children=some children := by
  by_cases hc : .draining≤(f child).status
  · exact .inl (link_refused f (.inl hc))
  by_cases hs : .draining≤(f supervisor).status
  · exact .inl (link_refused f (.inr (.inl hs)))
  cases ho : (f supervisor).children with
  | none => exact .inl (link_refused f (.inr (.inr ho)))
  | some children => exact .inr ⟨lt_of_not_ge hc,lt_of_not_ge hs,children,rfl⟩

theorem unlink_apply (child supervisor : Id) :
    f.unlink child supervisor x=if (f child).supervisor=some supervisor then
      { f x with
        children:=if x=supervisor then (f x).children.map fun children => children.erase child
          else (f x).children
        supervisor:=if x=child then none else (f x).supervisor }
    else f x := by
  unfold unlink
  split
  · rw [setSupervisor_apply,removeChild_apply]
  · rfl

theorem takeChildren_apply (parent : Id) :
    (f.takeChildren parent).2 x={f x with
      children:=if x=parent then none else (f x).children
      supervisor:=if x∈f.childrenOf parent ∧ (f x).supervisor=some parent then none
        else (f x).supervisor} := by
  have detach : ∀(cells : List Id) (f : Forest Id),cells.foldl (fun f child =>
        if (f child).supervisor=some parent then f.setSupervisor child none else f) f x =
      {f x with supervisor:=
          if x∈cells ∧ (f x).supervisor=some parent then none else (f x).supervisor} := by
    intro cells
    induction cells with
    | nil => simp
    | cons child cells ih =>
      intro f
      rw [foldl_cons,ih]
      by_cases hs : (f child).supervisor=some parent
      · rw [if_pos hs,setSupervisor_apply]
        by_cases hx : x=child
        · subst hx
          simp [hs]
        · simp [hx]
      · rw [if_neg hs]
        by_cases hx : x=child
        · subst hx
          simp [hs]
        · simp [hx]
  exact (detach _ _).trans (by rw [setChildren_apply])

theorem visit_apply (actor : Id) :
    (f.visit actor).2 x={f x with
      children:=if x=actor then none else (f x).children
      supervisor:=if x∈f.childrenOf actor ∧ (f x).supervisor=some actor then none
        else (f x).supervisor
      killSent:=(f x).killSent || decide (x=actor ∧ (f x).status ≤ .upgrading)} := by
  have hk : (f.kill actor).childrenOf actor=f.childrenOf actor := by
    unfold childrenOf
    rw [kill_apply]
  unfold visit
  rw [takeChildren_apply]
  by_cases hs : (f actor).status ≤ .upgrading
  · rw [if_pos hs,hk,kill_apply]
    by_cases hx : x=actor
    · subst hx
      simp [hs]
    · simp [hx]
  · rw [if_neg hs]
    by_cases hx : x=actor
    · subst hx
      simp [hs]
    · simp [hx]

end Pointwise

/-! ### Both ends of a link agree -/

/-- An actor is among the children of `p` exactly when `p` is its supervisor. -/
structure Consistent (f : Forest Id) : Prop where
  mem_iff : ∀p c,c∈f.childrenOf p ↔ (f c).supervisor=some p
  nodup : ∀p,(f.childrenOf p).Nodup

variable {f}

omit [DecidableEq Id] in
theorem Consistent.congr (h : f.Consistent) {f' : Forest Id}
    (hc : ∀x,(f' x).children=(f x).children)
    (hs : ∀x,(f' x).supervisor=(f x).supervisor) : f'.Consistent := by
  have hk (p : Id) : f'.childrenOf p=f.childrenOf p := by
    unfold childrenOf
    rw [hc]
  exact ⟨fun p c => by rw [hk,hs]; exact h.mem_iff p c,fun p => by rw [hk]; exact h.nodup p⟩

theorem Consistent.link (h : f.Consistent) (child supervisor : Id) :
    (f.link child supervisor).2.Consistent := by
  rcases f.link_cases child supervisor with he | ⟨hc,hs,children,ho⟩
  · rw [he]
    exact h
  · have hat (x : Id):=(f.link_accepted x hc hs ho).2
    have hk (p : Id) : (f.link child supervisor).2.childrenOf p =
        if p=supervisor then (f.childrenOf p).insert child
        else if (f child).supervisor=some p then (f.childrenOf p).erase child
        else f.childrenOf p := by
      unfold childrenOf
      rw [hat]
      by_cases hp : p=supervisor
      · rw [if_pos hp,if_pos hp,hp,ho]
        rfl
      · rw [if_neg hp,if_neg hp]
        split
        · cases (f p).children <;> rfl
        · rfl
    constructor
    · intro p c
      rw [hk,hat]
      have hm:=h.mem_iff p c
      by_cases hp : p=supervisor
      · subst hp
        rw [if_pos rfl,mem_insert_iff,hm]
        by_cases hx : c=child
        · simp [hx]
        · simp [hx]
      · rw [if_neg hp]
        by_cases hx : c=child
        · subst hx
          have hne : ¬ some supervisor=some p:=fun he => hp (some.inj he).symm
          simp only [if_pos,hne,iff_false]
          split
          · exact (h.nodup p).not_mem_erase
          · next hsup => exact fun hmem => hsup (hm.mp hmem)
        · simp only [if_neg hx]
          split
          · rw [mem_erase_of_ne hx,hm]
          · exact hm
    · intro p
      rw [hk]
      split
      · exact List.Nodup.insert (h.nodup p)
      · split
        · exact List.Nodup.erase child (h.nodup p)
        · exact h.nodup p

theorem Consistent.unlink (h : f.Consistent) (child supervisor : Id) :
    (f.unlink child supervisor).Consistent := by
  by_cases hs : (f child).supervisor=some supervisor
  · have hat (x : Id):=f.unlink_apply x child supervisor
    simp only [if_pos hs] at hat
    have hk (p : Id) : (f.unlink child supervisor).childrenOf p =
        if p=supervisor then (f.childrenOf p).erase child else f.childrenOf p := by
      unfold childrenOf
      rw [hat]
      split
      · cases (f p).children <;> rfl
      · rfl
    constructor
    · intro p c
      rw [hk,hat]
      have hm:=h.mem_iff p c
      by_cases hx : c=child
      · subst hx
        simp only [if_pos,reduceCtorEq,iff_false]
        split
        · exact (h.nodup p).not_mem_erase
        · next hp =>
          rw [hm,hs]
          exact fun he => hp (some.inj he).symm
      · simp only [if_neg hx]
        split
        · rw [mem_erase_of_ne hx,hm]
        · exact hm
    · intro p
      rw [hk]
      split
      · exact List.Nodup.erase child (h.nodup p)
      · exact h.nodup p
  · unfold Forest.unlink
    rw [if_neg hs]
    exact h

theorem Consistent.visit (h : f.Consistent) (actor : Id) : (f.visit actor).2.Consistent := by
  have hat (x : Id):=f.visit_apply x actor
  have hk (p : Id) : (f.visit actor).2.childrenOf p=if p=actor then [] else f.childrenOf p := by
    unfold childrenOf
    rw [hat]
    split
    · rfl
    · rfl
  constructor
  · intro p c
    rw [hk,hat]
    simp only [h.mem_iff actor c,and_self]
    by_cases hs : (f c).supervisor=some actor
    · simp only [if_pos hs,reduceCtorEq,iff_false]
      split
      · exact not_mem_nil
      · next hp =>
        rw [h.mem_iff,hs]
        exact fun he => hp (some.inj he).symm
    · simp only [if_neg hs]
      split
      · next hp =>
        subst hp
        exact ⟨nofun,fun he => absurd he hs⟩
      · exact h.mem_iff p c
  · intro p
    rw [hk]
    split
    · exact nodup_nil
    · exact h.nodup p

/-! ### What never comes back -/

/-- How an actor may change while it is not the one to publish `Stopped`: its status does not go
back, a closed child set stays closed, and from `Draining` on it is not given a supervisor. -/
structure Ages (a b : ActorCell Id) : Prop where
  status : a.status≤b.status
  stopped : b.status=.stopped → a.status=.stopped
  children : a.children=none → b.children=none
  supervisor : .draining≤a.status → b.supervisor=a.supervisor ∨ b.supervisor=none

theorem link_ages (f : Forest Id) (child supervisor x : Id) :
    Ages (f x) ((f.link child supervisor).2 x) := by
  rcases f.link_cases child supervisor with he | ⟨hc,hs,children,ho⟩
  · rw [he]
    exact ⟨le_refl _,id,id,fun _ => .inl rfl⟩
  · rw [(f.link_accepted x hc hs ho).2]
    refine ⟨le_refl _,id,fun hn => ?_,fun hd => ?_⟩
    · have hx : x≠supervisor := by
        rintro rfl
        cases hn.symm.trans ho
      simp [hx,hn]
    · have hx : x≠child := by
        rintro rfl
        exact absurd hc (not_lt_of_ge hd)
      simp [hx]

theorem unlink_ages (f : Forest Id) (child supervisor x : Id) :
    Ages (f x) (f.unlink child supervisor x) := by
  rw [unlink_apply]
  split
  · refine ⟨le_refl _,id,fun hn => ?_,fun _ => ?_⟩
    · simp [hn]
    · by_cases hx : x=child <;> simp [hx]
  · exact ⟨le_refl _,id,id,fun _ => .inl rfl⟩

theorem visit_ages (f : Forest Id) (actor x : Id) : Ages (f x) ((f.visit actor).2 x) := by
  rw [visit_apply]
  refine ⟨le_refl _,id,fun hn => ?_,fun _ => ?_⟩
  · simp [hn]
  · by_cases hx : x∈f.childrenOf actor ∧ (f x).supervisor=some actor <;> simp [hx]

theorem setStatus_ages (f : Forest Id) (actor x : Id) {status : ActorStatus}
    (h : status ≤ .stopping ∨ x≠actor) : Ages (f x) (f.setStatus actor status x) := by
  rw [setStatus_apply]
  by_cases hx : x=actor
  · have hs : status ≤ .stopping:=h.resolve_right (not_not.mpr hx)
    refine ⟨by simp [hx],fun hst => ?_,id,fun _ => .inl rfl⟩
    simp only [if_pos hx] at hst
    rcases max_choice (f x).status status with he | he
    · exact he ▸ hst
    · rw [he] at hst
      subst hst
      exact absurd hs (by decide)
  · simp only [if_neg hx]
    exact ⟨le_refl _,id,id,fun _ => .inl rfl⟩

end Forest
end Ractor
