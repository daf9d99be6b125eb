import Ractor.SupervisionTree
import Mathlib.Data.Fintype.Card
import Mathlib.Logic.Relation

/-!
# Terminating a subtree

`terminate` works through the descendants of an actor with a worklist: it kills each one that is not
past `Upgrading`, closes its child set and goes on with the children it has taken. Every descendant
is visited, also in a graph of links with cycles, because a child set is closed when it is taken. A
descendant that is `Draining` is visited but not killed.
-/

namespace Ractor.Forest
open List Finset

variable {Id : Type}

def Child (f : Forest Id) (p c : Id) : Prop:=c∈f.childrenOf p

def openSets [Fintype Id] (f : Forest Id) : ℕ :=
  (univ.filter fun x => (f x).children.isSome=true).card

variable [DecidableEq Id]

theorem visit_fst (f : Forest Id) (actor : Id) : (f.visit actor).1=f.childrenOf actor := by
  unfold visit takeChildren childrenOf
  split
  · simp
  · rfl

/-- Taking an open child set closes it. -/
theorem openSets_visit_lt [Fintype Id] (f : Forest Id) {actor : Id} (h : (f actor).children.isSome=true) :
    (f.visit actor).2.openSets<f.openSets := by
  apply card_lt_card
  rw [ssubset_iff_of_subset]
  · exact ⟨actor,by simp [h],by simp [visit_apply]⟩
  · intro x hx
    simp only [mem_filter_univ,visit_apply] at hx ⊢
    split at hx
    · cases hx
    · exact hx

theorem openSets_visit_le [Fintype Id] (f : Forest Id) (actor : Id) :
    (f.visit actor).2.openSets≤f.openSets := by
  apply card_le_card
  intro x hx
  simp only [mem_filter_univ,visit_apply] at hx ⊢
  split at hx
  · cases hx
  · exact hx

/-- The loop of `terminate`, with the next actor to visit in front. -/
def terminateLoop [Fintype Id] (f : Forest Id) : List Id → Forest Id
  | [] => f
  | actor::rest => terminateLoop (f.visit actor).2 ((f.visit actor).1++rest)
termination_by pending => (f.openSets,pending.length)
decreasing_by cases h : (f actor).children with
  | none =>
    have hkids : (f.visit actor).1=[] := by
      rw [visit_fst,childrenOf,h]
      rfl
    refine Prod.Lex.right' _ (f.openSets_visit_le actor) ?_
    rw [hkids]
    exact Nat.lt_succ_self _
  | some children => exact Prod.Lex.left _ _ (f.openSets_visit_lt (by rw [h]; rfl))

def terminate [Fintype Id] (f : Forest Id) (root : Id) : Forest Id:=f.terminateLoop [root]

variable [Fintype Id] (f : Forest Id)

/-! ### Who is visited -/

def Below (pending : List Id) (x : Id) : Prop :=
  ∃y∈pending,Relation.ReflTransGen f.Child y x

omit [Fintype Id] in
theorem child_visit {actor p c : Id} : (f.visit actor).2.Child p c ↔ p≠actor ∧ f.Child p c := by
  unfold Child childrenOf
  rw [visit_apply]
  by_cases h : p=actor
  · simp [h]
  · simp [h]

omit [Fintype Id] in
/-- The descendants of an actor that is visited are those of its children. -/
theorem below_cons (actor : Id) (rest : List Id) (x : Id) :
    f.Below (actor::rest) x ↔
      x=actor ∨ (f.visit actor).2.Below (f.childrenOf actor++rest) x := by
  constructor
  · rintro ⟨y,hy,hp⟩
    induction hp with
    | refl =>
      rcases List.mem_cons.mp hy with rfl | hy
      · exact .inl rfl
      · exact .inr ⟨y,mem_append_right _ hy,.refl⟩
    | @tail z x _ hed ih =>
      -- the last time the path leaves `actor` it goes to one of its children
      by_cases hz : z=actor
      · subst hz
        exact .inr ⟨x,mem_append_left _ hed,.refl⟩
      · obtain ⟨k,hk,hp⟩:=ih.resolve_left hz
        exact .inr ⟨k,hk,hp.tail ((child_visit f).mpr ⟨hz,hed⟩)⟩
  · have hm {y : Id} (h : Relation.ReflTransGen (f.visit actor).2.Child y x) :
        Relation.ReflTransGen f.Child y x :=
      Relation.ReflTransGen.mono (fun _ _ he => ((child_visit f).mp he).2) _ _ h
    rintro (rfl | ⟨y,hy,hp⟩)
    · exact ⟨x,mem_cons_self,.refl⟩
    · rcases mem_append.mp hy with hy | hy
      · exact ⟨actor,mem_cons_self,.head hy (hm hp)⟩
      · exact ⟨y,mem_cons_of_mem _ hy,hm hp⟩

/-- The loop kills the actors that are pending and their descendants up to `Upgrading`, and leaves
every status alone. -/
theorem terminateLoop_spec (pending : List Id) (x : Id) :
    (f.terminateLoop pending x).status=(f x).status ∧ ((f.terminateLoop pending x).killSent=true ↔
        (f x).killSent=true ∨ (f.Below pending x ∧ (f x).status ≤ .upgrading)) := by
  fun_induction terminateLoop f pending with
  | case1 f => simp [Below]
  | case2 f actor rest ih =>
    rw [visit_fst] at ih ⊢
    obtain ⟨hs,hk⟩:=ih
    rw [f.visit_apply x actor] at hs hk
    refine ⟨hs,?_⟩
    rw [hk,f.below_cons actor rest x]
    simp only [Bool.or_eq_true,decide_eq_true_eq]
    tauto

omit [Fintype Id] [DecidableEq Id] in
theorem below_of_transGen {root d : Id} (h : Relation.TransGen f.Child root d) : f.Below [root] d :=
  ⟨root,mem_cons_self,h.to_reflTransGen⟩

/-- After `terminate` every descendant that has not begun to stop has been sent a kill, exactly if
those that were `Draining` had been sent one before. -/
theorem terminate_kills_iff (root : Id) :
    (∀d,Relation.TransGen f.Child root d → (f d).status < .stopping →
      (f.terminate root d).killSent=true) ↔
    ∀d,Relation.TransGen f.Child root d → (f d).status=.draining → (f d).killSent=true := by
  constructor
  · intro h d hd hs
    have hk:=h d hd (by rw [hs]; decide)
    rcases (f.terminateLoop_spec [root] d).2.mp hk with hk | ⟨-,hle⟩
    · exact hk
    · rw [hs] at hle
      exact absurd hle (by decide)
  · intro h d hd hs
    refine (f.terminateLoop_spec [root] d).2.mpr ?_
    by_cases hdr : (f d).status=.draining
    · exact .inl (h d hd hdr)
    · refine .inr ⟨below_of_transGen f hd,?_⟩
      revert hs hdr
      cases (f d).status <;> decide

/-- A running supervisor with one child that is `Draining`. -/
def drainingChild : Forest Bool
  | true => {status:=.running,children:=some [false]}
  | false => {status:=.draining,supervisor:=some true}

/-- The child is detached from its terminated supervisor and is not killed. -/
theorem terminate_spares_draining :
    drainingChild.Consistent ∧ Relation.TransGen drainingChild.Child true false ∧
      (drainingChild false).status < .stopping ∧
      (drainingChild.terminate true false).killSent=false ∧
      (drainingChild.terminate true false).supervisor=none := by
  have hterm : drainingChild.terminate true=((drainingChild.visit true).2.visit false).2 := by
    unfold terminate
    rw [terminateLoop,visit_fst]
    show terminateLoop _ [false]=_
    rw [terminateLoop,visit_fst]
    have hnone : (drainingChild.visit true).2.childrenOf false=[]:=rfl
    rw [hnone]
    exact terminateLoop.eq_1 _
  refine ⟨⟨by decide,by decide⟩,.single mem_cons_self,by decide,?_,?_⟩
  · rw [hterm]
    rfl
  · rw [hterm]
    rfl

/-! ### What is left of the links -/

theorem children_terminateLoop {x : Id} (h : (f x).children=none) (pending : List Id) :
    (f.terminateLoop pending x).children=none := by
  fun_induction terminateLoop f pending with
  | case1 f => exact h
  | case2 f actor rest ih => exact ih ((f.visit_ages actor x).children h)

/-- Supervisors are only given up. -/
theorem supervisor_of_terminateLoop {pending : List Id} {x p : Id}
    (h : (f.terminateLoop pending x).supervisor=some p) : (f x).supervisor=some p := by
  fun_induction terminateLoop f pending with
  | case1 f => exact h
  | case2 f actor rest ih =>
    have hv:=ih h
    rw [visit_apply] at hv
    exact (Option.ite_none_left_eq_some.mp hv).2

theorem Consistent.terminateLoop {f : Forest Id} (h : f.Consistent) (pending : List Id) :
    (f.terminateLoop pending).Consistent := by
  fun_induction Forest.terminateLoop f pending with
  | case1 f => exact h
  | case2 f actor rest ih => exact ih (h.visit actor)

/-- The child set of an actor that is visited is closed, and it supervises nobody. -/
theorem terminateLoop_detaches {f : Forest Id} (hf : f.Consistent) {pending : List Id} {p : Id}
    (hp : f.Below pending p) : (f.terminateLoop pending p).children=none ∧
      ∀x,(f.terminateLoop pending x).supervisor≠some p := by
  fun_induction Forest.terminateLoop f pending with
  | case1 f =>
    obtain ⟨y,hy,-⟩:=hp
    cases hy
  | case2 f actor rest ih =>
    rcases (f.below_cons actor rest p).mp hp with rfl | hp
    · have hn : ((f.visit p).2 p).children=none := by rw [visit_apply,if_pos rfl]
      refine ⟨children_terminateLoop _ hn _,fun x hx => ?_⟩
      have hm:=((hf.visit p).mem_iff p x).mpr (supervisor_of_terminateLoop _ hx)
      rw [childrenOf,hn] at hm
      cases hm
    · exact ih (hf.visit actor) ((f.visit_fst actor).symm ▸ hp)

/-- The rounds of the loop in `terminate`, with the actors in the order in which they are visited. -/
inductive Rounds : Forest Id → List Id → List Id→Forest Id→Prop where
  | done (f : Forest Id) : Rounds f [] [] f
  | visit {f g : Forest Id} {actor : Id} {rest visited : List Id} :
      Rounds (f.visit actor).2 ((f.visit actor).1++rest) visited g →
      Rounds f (actor::rest) (actor::visited) g

theorem exists_rounds (pending : List Id) :
    ∃visited,Rounds f pending visited (f.terminateLoop pending) ∧
      ∀x,x∈visited ↔ f.Below pending x := by
  fun_induction terminateLoop f pending with
  | case1 f => exact ⟨[],.done f,by simp [Below]⟩
  | case2 f actor rest ih =>
    obtain ⟨visited,hr,hv⟩:=ih
    refine ⟨actor::visited,.visit hr,fun x => ?_⟩
    rw [List.mem_cons,hv,visit_fst,f.below_cons]

/-- The calls that change links or what they depend on. A child set may be iterated over in a new
order each time. -/
inductive TreeCall (Id : Type) where
  | link (child supervisor : Id)
  | unlink (child supervisor : Id)
  | setStatus (actor : Id) (status : ActorStatus)
  | terminate (root : Id)
  | reorder (parent : Id) (order : List Id)

def call : TreeCall Id → Forest Id
  | .link child supervisor => (f.link child supervisor).2
  | .unlink child supervisor => f.unlink child supervisor
  | .setStatus actor status => f.setStatus actor status
  | .terminate root => f.terminate root
  | .reorder parent order =>
    if order.Perm (f.childrenOf parent) then
      f.setChildren parent ((f parent).children.map fun _ => order)
    else f

theorem Consistent.call {f : Forest Id} (h : f.Consistent) (call : TreeCall Id) :
    (f.call call).Consistent := by
  cases call with
  | link child supervisor => exact h.link child supervisor
  | unlink child supervisor => exact h.unlink child supervisor
  | setStatus actor status => exact h.congr (by simp [Forest.call]) (by simp [Forest.call])
  | terminate root => exact h.terminateLoop [root]
  | reorder parent order =>
    unfold Forest.call
    dsimp only
    split
    next hp =>
      have hk (p : Id) : ((f.setChildren parent
          ((f parent).children.map fun _ => order)).childrenOf p).Perm (f.childrenOf p) := by
        rw [childrenOf,setChildren_apply]
        dsimp only
        split
        next he =>
          subst he
          unfold childrenOf at hp ⊢
          cases hc : (f p).children <;> simp_all
        next => exact .rfl
      refine ⟨fun p c => ?_,fun p => (hk p).nodup_iff.mpr (h.nodup p)⟩
      rw [(hk p).mem_iff,h.mem_iff,setChildren_apply]
    next => exact h

theorem children_call {x : Id} (h : (f x).children=none) (call : TreeCall Id) :
    (f.call call x).children=none := by
  cases call with
  | link child supervisor => exact (f.link_ages child supervisor x).children h
  | unlink child supervisor => exact (f.unlink_ages child supervisor x).children h
  | setStatus actor status => rwa [Forest.call,setStatus_apply]
  | terminate root => exact f.children_terminateLoop h [root]
  | reorder parent order =>
    unfold Forest.call
    dsimp only
    split
    · rw [setChildren_apply]
      by_cases hx : x=parent
      · subst hx
        simp [h]
      · simp [hx,h]
    · exact h

/-- The actors after some calls, none of them linked at first. -/
def built (calls : List (TreeCall Id)) : Forest Id:=calls.foldl call fun _ => {}

/-- Whatever links have been made, `terminate` ends after visits of exactly the actors below the
root. Their child sets are closed from then on, and what has been taken from them is not supervised
by any of them. -/
theorem terminate_detaches_all (before : List (TreeCall Id)) (root : Id) :
    ∃visited,Rounds (built before) [root] visited ((built before).terminate root) ∧
      (∀x,x∈visited ↔ Relation.ReflTransGen (built before).Child root x) ∧
      (∀x∈visited,∀(after : List (TreeCall Id)) (child : Id),
        ((after.foldl call ((built before).terminate root)).link child x).1=false) ∧
      ∀x∈visited,∀child∈(built before).childrenOf x,∀y∈visited,
        ((built before).terminate root child).supervisor≠some y := by
  have hc : (built before).Consistent :=
    foldlRecOn before call ⟨fun _ _ => by simp [childrenOf],fun _ => .nil⟩
      fun f h call _ => h.call call
  generalize built before=f at hc
  obtain ⟨visited,hr,hv⟩:=f.exists_rounds [root]
  refine ⟨visited,hr,fun x => (hv x).trans (by simp [Below]),fun x hx after child => ?_,
    fun x hx child hm y hy => ?_⟩
  · have hn : (after.foldl call (f.terminate root) x).children=none :=
      foldlRecOn after call (terminateLoop_detaches hc ((hv x).mp hx)).1
        fun f h call _ => f.children_call h call
    rw [link_refused _ (.inr (.inr hn))]
  · exact (terminateLoop_detaches hc ((hv y).mp hy)).2 child

end Ractor.Forest
