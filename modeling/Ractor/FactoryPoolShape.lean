import Ractor.FactoryKeyExclusivity

/-!
# The shape of the pool

Growing, shrinking, completing and replacing update `pool`, `pool_size` and
`worker_by_actor` separately. `ShapeAt C D` is the shape of the three in the middle of
such an update: `C` are the worker ids that must be present, `D` the ones that are
draining. Routing and completions do not change the shape at all.
-/

namespace Ractor.Factory
open Option AList WorkerProperties

variable {Key Msg R Q : Type} {s s' : FactoryState Key Msg R Q} {wid : ℕ}
  {w : WorkerProperties Key Msg} {world : World Key Msg} {who : ActorId}
  {args : FactoryArguments R Q}

namespace FactoryState

def profile (s : FactoryState Key Msg R Q) (wid : WorkerId) : Option (WorkerId × ActorId × Bool) :=
  (s.pool.lookup wid).map fun w => (w.wid,w.actor,w.isDraining)

structure SameProfile (s s' : FactoryState Key Msg R Q) : Prop where
  poolSize : s'.poolSize=s.poolSize
  workerByActor : s'.workerByActor=s.workerByActor
  nextPid : s'.world.nextPid=s.world.nextPid
  profile : ∀wid,s'.profile wid=s.profile wid

namespace SameProfile

theorem refl (s : FactoryState Key Msg R Q) : SameProfile s s:=⟨rfl,rfl,rfl,fun _ => rfl⟩

theorem symm (h : SameProfile s s') : SameProfile s' s :=
  ⟨h.poolSize.symm,h.workerByActor.symm,h.nextPid.symm,fun wid => (h.profile wid).symm⟩

theorem trans {a b c : FactoryState Key Msg R Q} (h : SameProfile a b) (h' : SameProfile b c) :
    SameProfile a c :=
  ⟨h'.poolSize.trans h.poolSize,h'.workerByActor.trans h.workerByActor,
    h'.nextPid.trans h.nextPid,fun wid => (h'.profile wid).trans (h.profile wid)⟩

/-- A worker of the new pool was there before, with the same identity. -/
theorem lookup (h : SameProfile s s') {w' : WorkerProperties Key Msg}
    (hl : s'.pool.lookup wid=some w') :
    ∃w,s.pool.lookup wid=some w ∧ w'.wid=w.wid ∧ w'.actor=w.actor ∧ w'.isDraining=w.isDraining := by
  have hp:=h.profile wid
  unfold FactoryState.profile at hp
  rw [hl] at hp
  cases hw : s.pool.lookup wid with
  | none => simp [hw] at hp
  | some w =>
    simp only [hw,map_some,some.injEq,Prod.mk.injEq] at hp
    exact ⟨w,rfl,hp.1,hp.2.1,hp.2.2⟩

theorem insert {w' : WorkerProperties Key Msg} (hl : s.pool.lookup wid=some w)
    (hw : w'.wid=w.wid) (ha : w'.actor=w.actor) (hd : w'.isDraining=w.isDraining)
    (hp : world.nextPid=s.world.nextPid) :
    SameProfile s {s with pool:=s.pool.insert wid w',world:=world} := by
  refine ⟨rfl,rfl,hp,fun k => ?_⟩
  unfold FactoryState.profile
  by_cases hk : k=wid
  · subst hk
    rw [lookup_insert,hl,map_some,map_some,hw,ha,hd]
  · rw [lookup_insert_ne hk]

theorem of_pool (hn : s'.poolSize=s.poolSize) (hp : s'.pool=s.pool)
    (hi : s'.workerByActor=s.workerByActor) (hw : s'.world.nextPid=s.world.nextPid) :
    SameProfile s s' :=
  ⟨hn,hi,hw,fun wid => by unfold FactoryState.profile; rw [hp]⟩

end SameProfile
end FactoryState

open FactoryState
open FiniteMap (lookup_insert_eq_some exists_lookup_insert lookup_erase_eq_some)

theorem World.Quiet.nextPid {world' : World Key Msg} (h : world.Quiet world') :
    world'.nextPid=world.nextPid := by
  obtain ⟨_,rfl⟩:=h
  rfl

theorem World.Quiet.log {world' : World Key Msg} (h : world.Quiet world') :
    world'.log=world.log := by
  obtain ⟨_,rfl⟩:=h
  rfl

theorem World.discard_nextPid (world : World Key Msg) (handler : Option HandlerId)
    (reason : DiscardReason) (job : Job Key Msg) :
    (world.discard handler reason job).nextPid=world.nextPid := by
  cases handler <;> rfl

theorem Housekeeping.sameProfile [Queue Q Key Msg] [LawfulQueue Q] (h : Housekeeping s s') :
    SameProfile s s' := by
  refine ⟨h.poolSize,h.workerByActor,h.nextPid,fun wid => ?_⟩
  have hp:=congrArg (Option.map fun core => (core.1,core.2.1,core.2.2.2.2.2)) (h.pool wid)
  rwa [map_map,map_map] at hp

/-! ### Shapes in the middle of a resize -/

structure ShapeAt (C D : ℕ → Prop) (s : FactoryState Key Msg R Q) : Prop where
  covers : ∀wid : ℕ,C wid → ∃w,s.pool.lookup wid=some w
  draining : ∀(wid : ℕ) w,s.pool.lookup wid=some w → (w.isDraining=true ↔ D wid)
  inverse : ∀actor wid,s.workerByActor.lookup actor=some wid ↔
    ∃w,s.pool.lookup wid=some w ∧ w.actor=actor
  own : ∀wid w,s.pool.lookup wid=some w → w.wid=wid
  fresh : ∀wid w,s.pool.lookup wid=some w → ∃pid<s.world.nextPid,w.actor=.ofLocal pid

namespace ShapeAt
variable {C D C' D' : ℕ→Prop}

theorem imp (h : ShapeAt C D s) (hC : ∀wid,C' wid → C wid) (hD : ∀wid,D' wid ↔ D wid) :
    ShapeAt C' D' s :=
  ⟨fun wid hc => h.covers wid (hC wid hc),fun wid w hl => (h.draining wid w hl).trans (hD wid).symm,
    h.inverse,h.own,h.fresh⟩

theorem congr (h : ShapeAt C D s) (hp : SameProfile s s') : ShapeAt C D s' := by
  refine ⟨?_,?_,?_,?_,?_⟩
  · intro wid hc
    obtain ⟨w,hl⟩:=h.covers wid hc
    obtain ⟨w',hl',_⟩:=hp.symm.lookup hl
    exact ⟨w',hl'⟩
  · intro wid w hl
    obtain ⟨w',hl',_,_,hd⟩:=hp.lookup hl
    rw [hd]
    exact h.draining wid w' hl'
  · intro actor wid
    rw [hp.workerByActor,h.inverse]
    constructor
    · rintro ⟨w,hl,ha⟩
      obtain ⟨w',hl',_,ha',_⟩:=hp.symm.lookup hl
      exact ⟨w',hl',ha'.symm.trans ha⟩
    · rintro ⟨w,hl,ha⟩
      obtain ⟨w',hl',_,ha',_⟩:=hp.lookup hl
      exact ⟨w',hl',ha'.symm.trans ha⟩
  · intro wid w hl
    obtain ⟨w',hl',hw,_⟩:=hp.lookup hl
    exact hw.trans (h.own wid w' hl')
  · intro wid w hl
    obtain ⟨w',hl',_,ha,_⟩:=hp.lookup hl
    rw [ha,hp.nextPid]
    exact h.fresh wid w' hl'

/-- An actor that the allocator has not handed out yet is nobody's worker. -/
theorem not_fresh (h : ShapeAt C D s) (hl : s.pool.lookup wid=some w) (gap : ℕ) :
    w.actor≠.ofLocal (s.world.nextPid+gap) := by
  obtain ⟨pid,hp,ha⟩:=h.fresh wid w hl
  rw [ha]
  intro he
  injection he with he
  omega

theorem add [Router R Key Msg] (h : ShapeAt C D s) (hl : s.pool.lookup wid=none)
    (ha : s.addWorker wid=.ok s') :
    ShapeAt (fun k => C k ∨ k=wid) (fun k => D k ∧ k≠wid) s' := by
  obtain ⟨_,world,hsp,rfl⟩:=addWorker_ok ha
  obtain ⟨gap,rfl,hn,-,-⟩:=s.world.spawn_ok hsp
  refine ⟨?_,?_,?_,?_,?_⟩
  · intro k hk
    exact exists_lookup_insert _ (hk.symm.imp_right (h.covers k))
  · intro k w hk
    rcases lookup_insert_eq_some.mp hk with ⟨rfl,rfl⟩ | ⟨hkw,hk⟩
    · simp [new]
    · simpa [hkw] using h.draining k w hk
  · intro actor k
    rw [lookup_insert_eq_some,h.inverse]
    constructor
    · rintro (⟨rfl,rfl⟩ | ⟨_,w,hk,ha⟩)
      · exact ⟨_,lookup_insert _,rfl⟩
      · have hkw : k≠wid := by
          rintro rfl
          cases hl.symm.trans hk
        exact ⟨w,by rwa [lookup_insert_ne hkw],ha⟩
    · rintro ⟨w,hk,ha⟩
      rcases lookup_insert_eq_some.mp hk with ⟨rfl,rfl⟩ | ⟨_,hk⟩
      · exact .inl ⟨ha.symm,rfl⟩
      · refine .inr ⟨?_,w,hk,ha⟩
        rintro rfl
        exact h.not_fresh hk gap ha
  · intro k w hk
    rcases lookup_insert_eq_some.mp hk with ⟨rfl,rfl⟩ | ⟨_,hk⟩
    · rfl
    · exact h.own k w hk
  · intro k w hk
    rcases lookup_insert_eq_some.mp hk with ⟨rfl,rfl⟩ | ⟨_,hk⟩
    · exact ⟨_,by dsimp only; omega,rfl⟩
    · obtain ⟨pid,hp,ha⟩:=h.fresh k w hk
      exact ⟨pid,by dsimp only; omega,ha⟩

theorem setDraining (h : ShapeAt C D s) (hl : s.pool.lookup wid=some w) (b : Bool) :
    ShapeAt (fun k => C k ∨ k=wid) (fun k => if k=wid then b=true else D k)
      {s with pool:=s.pool.insert wid (w.setDraining b)} := by
  have hold : ∀k w',(s.pool.insert wid (w.setDraining b)).lookup k=some w' →
      ∃w₀,s.pool.lookup k=some w₀ ∧ w'.wid=w₀.wid ∧ w'.actor=w₀.actor ∧
        w'.isDraining=if k=wid then b else w₀.isDraining := by
    intro k w' hk
    rcases lookup_insert_eq_some.mp hk with ⟨rfl,rfl⟩ | ⟨hkw,hk⟩
    · exact ⟨w,hl,rfl,rfl,by rw [if_pos rfl]; rfl⟩
    · exact ⟨w',hk,rfl,rfl,by rw [if_neg hkw]⟩
  refine ⟨?_,?_,?_,?_,?_⟩
  · intro k hk
    exact exists_lookup_insert _ (hk.symm.imp_right (h.covers k))
  · intro k w' hk
    obtain ⟨w₀,hk₀,_,_,hd⟩:=hold k w' hk
    rw [hd]
    by_cases hkw : k=wid
    · simp [hkw]
    · simpa [hkw] using h.draining k w₀ hk₀
  · intro actor k
    rw [h.inverse]
    constructor
    · rintro ⟨w₀,hk,ha⟩
      by_cases hkw : k=wid
      · subst hkw
        rw [hl] at hk
        cases hk
        exact ⟨_,lookup_insert _,ha⟩
      · exact ⟨w₀,by rwa [lookup_insert_ne hkw],ha⟩
    · rintro ⟨w',hk,ha⟩
      obtain ⟨w₀,hk₀,_,ha₀,_⟩:=hold k w' hk
      exact ⟨w₀,hk₀,ha₀.symm.trans ha⟩
  · intro k w' hk
    obtain ⟨w₀,hk₀,hw₀,_⟩:=hold k w' hk
    exact hw₀.trans (h.own k w₀ hk₀)
  · intro k w' hk
    obtain ⟨w₀,hk₀,_,ha₀,_⟩:=hold k w' hk
    rw [ha₀]
    exact h.fresh k w₀ hk₀

theorem remove (h : ShapeAt C D s) (hl : s.pool.lookup wid=some w) (effect : Effect Key Msg) :
    ShapeAt (fun k => C k ∧ k≠wid) (fun k => D k ∨ k=wid)
      { s with
        pool:=s.pool.erase wid
        workerByActor:=s.workerByActor.erase w.actor
        world:=s.world.record effect } := by
  refine ⟨?_,?_,?_,?_,?_⟩
  · rintro k ⟨hc,hkw⟩
    rw [lookup_erase_ne hkw]
    exact h.covers k hc
  · intro k w' hk
    obtain ⟨hkw,hk⟩:=lookup_erase_eq_some.mp hk
    simpa [hkw] using h.draining k w' hk
  · intro actor k
    rw [lookup_erase_eq_some,h.inverse]
    constructor
    · rintro ⟨hact,w',hk,ha⟩
      have hkw : k≠wid := by
        rintro rfl
        rw [hl] at hk
        cases hk
        exact hact ha.symm
      exact ⟨w',by rwa [lookup_erase_ne hkw],ha⟩
    · rintro ⟨w',hk,ha⟩
      obtain ⟨hkw,hk⟩:=lookup_erase_eq_some.mp hk
      refine ⟨?_,w',hk,ha⟩
      -- the erased actor belonged to the erased worker and to no other
      rintro rfl
      have hwid:=(h.inverse w.actor wid).mpr ⟨w,hl,rfl⟩
      have hidx:=(h.inverse w.actor k).mpr ⟨w',hk,ha⟩
      exact hkw (some.inj (hidx.symm.trans hwid))
  · intro k w' hk
    exact h.own k w' (lookup_erase_eq_some.mp hk).2
  · intro k w' hk
    exact h.fresh k w' (lookup_erase_eq_some.mp hk).2

theorem replace [DecidableEq Key] (h : ShapeAt C D s) {replacement : ActorId}
    (hi : s.workerByActor.lookup who=some wid) (hl : s.pool.lookup wid=some w)
    (hsl : w.currJobs.entries.length≤1) (hs : s.world.spawn w.wid=.ok (replacement,world)) :
    ShapeAt C D
      { s with
        pool:=s.pool.insert wid (w.replaceWorker replacement world).1
        workerByActor:=(s.workerByActor.erase who).insert replacement w.wid
        world:=(w.replaceWorker replacement world).2 } := by
  have hf:=replaceWorker_frame hsl replacement world
  have hwid : (w.replaceWorker replacement world).1.wid=w.wid:=hf.wid
  have hac : (w.replaceWorker replacement world).1.actor=replacement:=hf.actor
  have hd : (w.replaceWorker replacement world).1.isDraining=w.isDraining:=hf.isDraining
  have hpid : (w.replaceWorker replacement world).2.nextPid=world.nextPid:=hf.nextPid
  have hown : w.actor=who := by
    obtain ⟨w',hl',ha⟩:=(h.inverse who wid).mp hi
    rw [hl] at hl'
    cases hl'
    exact ha
  obtain ⟨gap,hrep,hn,-,-⟩:=s.world.spawn_ok hs
  refine ⟨?_,?_,?_,?_,?_⟩
  · intro k hk
    exact exists_lookup_insert _ (.inr (h.covers k hk))
  · intro k v hk
    rcases lookup_insert_eq_some.mp hk with ⟨rfl,rfl⟩ | ⟨_,hk⟩
    · rw [hd]
      exact h.draining k w hl
    · exact h.draining k v hk
  · intro actor k
    rw [lookup_insert_eq_some,lookup_erase_eq_some,h.inverse]
    constructor
    · rintro (⟨rfl,rfl⟩ | ⟨_,hne,v,hk,ha⟩)
      · rw [h.own wid w hl]
        exact ⟨_,lookup_insert _,hac⟩
      · have hkw : k≠wid := by
          rintro rfl
          rw [hl] at hk
          cases hk
          exact hne (ha.symm.trans hown)
        exact ⟨v,by rwa [lookup_insert_ne hkw],ha⟩
    · rintro ⟨v,hk,ha⟩
      rcases lookup_insert_eq_some.mp hk with ⟨rfl,rfl⟩ | ⟨hkw,hold⟩
      · exact .inl ⟨ha.symm.trans hac,(h.own k w hl).symm⟩
      · refine .inr ⟨?_,?_,v,hold,ha⟩
        · rintro rfl
          rw [hrep] at ha
          exact h.not_fresh hold gap ha
        · rintro rfl
          have hidx:=(h.inverse actor k).mpr ⟨v,hold,ha⟩
          rw [hi,some.injEq] at hidx
          exact hkw hidx.symm
  · intro k v hk
    rcases lookup_insert_eq_some.mp hk with ⟨rfl,rfl⟩ | ⟨_,hk⟩
    · exact hwid.trans (h.own k w hl)
    · exact h.own k v hk
  · intro k v hk
    dsimp only
    rw [hpid,hn]
    rcases lookup_insert_eq_some.mp hk with ⟨rfl,rfl⟩ | ⟨_,hk⟩
    · exact ⟨s.world.nextPid+gap,Nat.lt_succ_self _,hac.trans hrep⟩
    · obtain ⟨pid,hp,ha⟩:=h.fresh k v hk
      exact ⟨pid,by omega,ha⟩

end ShapeAt

/-! ### The shape between messages -/

/-- The shape the handlers restore. -/
def Shaped (s : FactoryState Key Msg R Q) : Prop :=
  ShapeAt (fun wid => wid<s.poolSize) (fun wid => s.poolSize≤wid) s

theorem Shaped.congr (h : Shaped s) (hp : SameProfile s s') : Shaped s' := by
  unfold Shaped
  rw [hp.poolSize]
  exact ShapeAt.congr h hp

namespace FactoryState

theorem initial_shape (args : FactoryArguments R Q) (oracle : Oracle) (firstPid firstJob : ℕ) :
    ShapeAt (fun k => k<0) (fun k => 0≤k)
      (initial args oracle firstPid firstJob : FactoryState Key Msg R Q) where
  covers wid hwid:=absurd hwid (Nat.not_lt_zero wid)
  draining wid w hl := by cases hl
  inverse actor wid := by simp [initial]
  own wid w hl := by cases hl
  fresh wid w hl := by cases hl

theorem completeJob_sameProfile [DecidableEq Key] (hc : WorkersConsistent s) (who : ℕ) (key : Key) :
    SameProfile s (s.completeJob who key) := by
  unfold completeJob
  split
  next => exact .refl s
  next worker hl =>
    have hf:=workerComplete_frame (hc _ _ hl).slot key s.world
    exact .insert hl hf.wid hf.actor hf.isDraining hf.nextPid

variable [Router R Key Msg]

/-- One round of a growth covers one more worker id, and it does not drain. -/
theorem growWorker_shape (h : ShapeAt (fun k => k<wid) (fun k => wid≤k) s)
    (hg : s.growWorker wid=.ok s') :
    ShapeAt (fun k => k<wid+1) (fun k => wid+1≤k) s' := by
  unfold growWorker at hg
  cases hl : s.pool.lookup wid with
  | none =>
    rw [hl] at hg
    exact (h.add hl hg).imp (fun k hk => by omega) (fun k => by omega)
  | some existing =>
    rw [hl] at hg
    cases hg
    refine ((h.setDraining hl false).imp (fun k hk => by omega) (fun k => ?_)).congr
      (.of_pool rfl rfl rfl rfl)
    by_cases hk : k=wid
    · simp [hk]
    · rw [if_neg hk]
      omega

/-- One round of a shrink, after the ids from `first` up to `wid` are dealt with. -/
theorem shrinkWorker_shape {first size : ℕ} (hw : first≤wid)
    (h : ShapeAt (fun k => k<first) (fun k => first≤k ∧ k<wid ∨ size≤k) s) :
    ShapeAt (fun k => k<first) (fun k => first≤k ∧ k<wid+1 ∨ size≤k) (s.shrinkWorker wid) := by
  unfold shrinkWorker
  split
  next hl =>
    refine ⟨h.covers,fun k w hk => ?_,h.inverse,h.own,h.fresh⟩
    have hkw : k≠wid := by
      rintro rfl
      rw [hl] at hk
      cases hk
    rw [h.draining k w hk]
    omega
  next existing hl =>
    split
    · refine (h.setDraining hl true).imp (fun k hk => .inl hk) (fun k => ?_)
      by_cases hk : k=wid
      · simp [hk,hw]
      · rw [if_neg hk]
        omega
    · refine ((h.remove hl _).imp (fun k hk => ⟨hk,by omega⟩) (fun k => ?_)).congr
        (.of_pool rfl rfl rfl rfl)
      omega

theorem shrinkPool_shape {newSize : ℕ} (h : Shaped s) (hn : newSize ≤ s.poolSize) :
    ShapeAt (fun k => k<newSize) (fun k => newSize≤k) (s.shrinkPool (s.poolSize - newSize)) := by
  have hf : s.poolSize - (s.poolSize - newSize)=newSize := by omega
  have hr : ShapeAt (fun k => k<newSize)
      (fun k => newSize≤k ∧ k<newSize+(s.poolSize - newSize) ∨ s.poolSize≤k)
      ((List.range' newSize (s.poolSize - newSize)).foldl shrinkWorker s) :=
    foldl_range'_rec (P:=fun wid t => ShapeAt (fun k => k<newSize)
        (fun k => newSize≤k ∧ k<wid ∨ s.poolSize≤k) t)
      (fun wid t hi _ ht => shrinkWorker_shape hi ht)
      (ShapeAt.imp h (fun k hk => by omega) (fun k => by omega))
  unfold shrinkPool
  rw [hf]
  exact hr.imp (fun k hk => hk) (fun k => by omega)

theorem addWorker_poolSize (h : s.addWorker wid=.ok s') : s'.poolSize=s.poolSize := by
  obtain ⟨_,_,-,rfl⟩:=addWorker_ok h
  rfl

variable [Queue Q Key Msg] [LawfulQueue Q]

theorem growPool_shape {toAdd : ℕ} (h : Shaped s) (hg : s.growPool toAdd=.ok s') :
    ShapeAt (fun k => k<s.poolSize+toAdd) (fun k => s.poolSize+toAdd≤k) s' :=
  growPool_rec (P:=fun n t => ShapeAt (fun k => k<n) (fun k => n≤k) t) hg
    (fun _ _ _ _ _ ht hs => growWorker_shape ht hs)
    (fun _ t ht => ht.congr (pingWorkers_housekeeping t).sameProfile) h

/-- Once a growth sets the pool size, the shape is restored. -/
theorem growPool_shaped {newPoolSize : ℕ} {t : FactoryState Key Msg R Q} (h : Shaped s)
    (hlt : s.poolSize<newPoolSize) (hg : s.growPool (newPoolSize - s.poolSize)=.ok t) :
    Shaped {t with poolSize:=newPoolSize} := by
  have ht:=growPool_shape h hg
  rw [show s.poolSize+(newPoolSize - s.poolSize)=newPoolSize by omega] at ht
  exact ⟨ht.covers,ht.draining,ht.inverse,ht.own,ht.fresh⟩

/-- A started factory is shaped and has no workers beyond the pool size. -/
theorem starts_exact (h : Starts args s) :
    Shaped s ∧ ∀wid : ℕ,s.poolSize≤wid→s.pool.lookup wid=none := by
  have ht : ShapeAt (fun k => k<args.numInitialWorkers) (fun k => args.numInitialWorkers≤k) s ∧
      (∀wid : ℕ,args.numInitialWorkers≤wid→s.pool.lookup wid=none) ∧
      s.poolSize=args.numInitialWorkers := by
    refine starts_rec (P:=fun n t => ShapeAt (fun k => k<n) (fun k => n≤k) t ∧
      (∀wid : ℕ,n≤wid→t.pool.lookup wid=none) ∧ t.poolSize=args.numInitialWorkers)
      (fun oracle firstPid firstJob _ =>
        ⟨initial_shape args oracle firstPid firstJob,fun _ _ => rfl,rfl⟩) ?_ ?_ h
    · rintro n t t' ha ⟨hs,hf,hsi⟩
      refine ⟨(hs.add (hf n (Nat.le_refl n)) ha).imp (fun k hk => by omega)
        (fun k => by omega),fun wid hw => ?_,(addWorker_poolSize ha).trans hsi⟩
      rw [addWorker_lookup ha (by omega : wid≠n)]
      exact hf wid (by omega)
    · rintro n t t' hk ⟨hs,hf,hsi⟩
      refine ⟨hs.congr hk.sameProfile,fun wid hw => ?_,hk.poolSize.trans hsi⟩
      have hp:=hk.pool wid
      rw [hf wid hw] at hp
      simpa using hp
  unfold Shaped
  rw [ht.2.2]
  exact ⟨ht.1,ht.2.1⟩

theorem starts_shape (h : Starts args s) : Shaped s := (starts_exact h).1

variable [DecidableEq Key]

theorem replaceExited_shape {worker : WorkerProperties Key Msg} (h : Shaped s)
    (hc : WorkersConsistent s) (hi : s.workerByActor.lookup who=some wid)
    (hl : s.pool.lookup wid=some worker) (hr : s.replaceExited who wid worker=.ok s') :
    Shaped s' := by
  obtain ⟨replacement,world,hs,hk⟩:=replaceExited_cases hr
  have hrep : Shaped {s with
      pool:=s.pool.insert wid (worker.replaceWorker replacement world).1
      workerByActor:=(s.workerByActor.erase who).insert replacement worker.wid
      world:=(worker.replaceWorker replacement world).2} :=
    ShapeAt.replace h hi hl (hc wid worker hl).slot hs
  exact hrep.congr hk.sameProfile

end FactoryState

/-! ### Handlers and runs -/

variable [DecidableEq Key] [Router R Key Msg] [LawfulRouter R] [Queue Q Key Msg] [LawfulQueue Q]

theorem RoutingMove.sameProfile {H : Option HandlerId→Prop} {hint : Option WorkerId}
    {a b : Hand Key Msg R Q} (h : RoutingMove H hint a b) : SameProfile a.1 b.1 := by
  cases h with
  | quiet s hand hr hw => exact .of_pool rfl rfl rfl hw.nextPid
  | keep hk => exact hk.housekeeping.sameProfile
  | note | arrive | take | store => exact .of_pool rfl rfl rfl rfl
  | discard s job reason => exact .of_pool rfl rfl rfl (World.discard_nextPid _ _ _ _)
  | @enqueue s wid w job hl ht =>
    have hf:=w.enqueueJob_frame job s.world
    exact .insert hl hf.wid hf.actor hf.isDraining hf.nextPid

theorem Routing.sameProfile {H : Option HandlerId→Prop} {hint : Option WorkerId}
    {a b : Hand Key Msg R Q} (h : Routing H hint a b) : SameProfile a.1 b.1 :=
  h.preserves (P:=fun c => SameProfile a.1 c.1) (fun _ _ hm hs => hs.trans hm.sameProfile) (.refl _)

namespace FactoryState

theorem resizePool_shape {size : ℕ} (h : Shaped s) (hr : s.resizePool size=.ok s') : Shaped s' := by
  cases resizePool_cases hr with
  | unchanged => exact h
  | grown _ hlt hg hro =>
    exact (growPool_shaped h hlt hg).congr
      (routeBacklog_routing hro : Routing (fun _ => True) none _ _).sameProfile
  | shrunk _ _ hlt =>
    have ht:=shrinkPool_shape h (Nat.le_of_lt hlt)
    exact ⟨ht.covers,ht.draining,ht.inverse,ht.own,ht.fresh⟩

theorem workerFinishedJob_shape {who : ℕ} {key : Key} (h : Shaped s) (hc : WorkersConsistent s)
    (hf : s.workerFinishedJob who key=.ok s') : Shaped s' := by
  have ht:=h.congr (completeJob_sameProfile hc who key)
  have hca:=workerFinishedJob_cases hf
  generalize s.completeJob who key=t at hca ht
  cases hca with
  | draining => exact ht
  | dropped hl hd _ =>
    have hout:=(ht.draining who _ hl).mp hd
    exact (ShapeAt.remove ht hl _).imp (fun k hk => ⟨hk,by change k<t.poolSize at hk; omega⟩)
      (fun k => by change t.poolSize≤k ↔ _; omega)
  | freed _ hr => exact ht.congr (routeToFreed_routing hr : Routing (fun _ => True) _ _ _).sameProfile

theorem handleExit_shape (h : Shaped s) (hc : WorkersConsistent s) (he : s.handleExit who=.ok s') :
    Shaped s' := by
  cases handleExit_cases he with
  | unknown => exact h
  | replaced hi hl ht hr =>
    exact (replaceExited_shape h hc hi hl ht).congr
      (routeToFreed_routing hr : Routing (fun _ => True) _ _ _).sameProfile

theorem work_shape {work : Work Key Msg} (hw : s.work work=.ok s') (h : Shaped s)
    (hc : WorkersConsistent s) : Shaped s' := by
  cases work with
  | dispatch job => exact h.congr (dispatch_routing hw : Routing (fun _ => True) _ _ _).sameProfile
  | finished who key => exact workerFinishedJob_shape h hc hw
  | exited who => exact handleExit_shape h hc hw
  | resized size => exact resizePool_shape h hw

theorem starts_consistent (h : Starts args s) : WorkersConsistent s := by
  obtain ⟨oracle,firstPid,firstJob,_,hs⟩:=h
  refine FactoryMoves.workersConsistent (H:=fun _ => True) (preStart_moves hs) ?_
  intro wid w hl
  cases hl

/-- Between messages the pool is shaped and its records are consistent, so an invariant of runs may
rest on that. -/
theorem shaped_rec {P : FactoryState Key Msg R Q→Prop}
    {G : FactoryState Key Msg R Q → Work Key Msg→Prop} (hst : ∀s,Starts args s→P s)
    (hke : ∀s s',Housekeeping s s'→P s→P s')
    (hwo : ∀s work s',G s work→s.work work=.ok s' → Shaped s → WorkersConsistent s→P s→P s')
    (h : Reachable (Starts args) (guarded (WorkMeets G) Step) s) :
    P s ∧ Shaped s ∧ WorkersConsistent s := by
  refine guarded_rec (P:=fun s => P s ∧ Shaped s ∧ WorkersConsistent s)
    (fun s hs => ⟨hst s hs,starts_shape hs,starts_consistent hs⟩) ?_ ?_ h
  · intro s s' hk ⟨hp,hs,hc⟩
    exact ⟨hke s s' hk hp,hs.congr hk.sameProfile,hk.workersConsistent hc⟩
  · intro s work s' hg hw ⟨hp,hs,hc⟩
    exact ⟨hwo s work s' hg hw hs hc hp,work_shape hw hs hc,work_consistent hw hc⟩

theorem reached_shaped (h : Reached args s) : Shaped s ∧ WorkersConsistent s :=
  (shaped_rec (P:=fun _ => True) (fun _ _ => trivial) (fun _ _ _ _ => trivial)
    (fun _ _ _ _ _ _ _ _ => trivial) (reached_meets h)).2

end FactoryState

/-- The pool contains every worker id below the pool size, exactly the workers from there on
are draining, and `worker_by_actor` is the inverse of the actors of the pool. -/
theorem pool_shape_reached [Hashable Key] {L P : Type} [RateLimiter L] [Priority P]
    (args : FactoryArguments (BuiltInRouter Key Msg L) (BuiltInQueue Key Msg P))
    {s : FactoryState Key Msg (BuiltInRouter Key Msg L) (BuiltInQueue Key Msg P)}
    (h : Reached args s) :
    (∀wid<s.poolSize,∃w,s.pool.lookup wid=some w) ∧
      (∀wid w,s.pool.lookup wid=some w → (w.isDraining=true ↔ s.poolSize≤wid)) ∧
      ∀actor wid,s.workerByActor.lookup actor=some wid ↔
        ∃w,s.pool.lookup wid=some w ∧ w.actor=actor := by
  have hs:=(FactoryState.reached_shaped h).1
  exact ⟨hs.covers,hs.draining,hs.inverse⟩

/-- Two busy workers, a shrink to one and a growth to three. -/
theorem pool_shape_replayed :
    ∃s,Reached (.plain 2 (.bare (.queuer {}) : BuiltInRouter ℕ Unit Unlimited)) s ∧
      (s.poolSize == 3 && s.pool.entries.length == 3)=true ∧
      ((∀wid<s.poolSize,∃w,s.pool.lookup wid=some w) ∧
        (∀wid w,s.pool.lookup wid=some w→(w.isDraining=true ↔ s.poolSize≤wid)) ∧
        ∀actor wid,s.workerByActor.lookup actor=some wid ↔
          ∃w,s.pool.lookup wid=some w ∧ w.actor=actor) := by
  obtain ⟨s,hs,ht⟩:=FactoryState.exists_reached
    (.plain 2 (.bare (.queuer {}) : BuiltInRouter ℕ Unit Unlimited)) .calm 0
    (calmly [.dispatch (.plain 1),.dispatch (.plain 2),.adjustWorkerPool 1,.adjustWorkerPool 3])
    (fun s => s.poolSize == 3 && s.pool.entries.length == 3) rfl (by decide +kernel)
  exact ⟨s,hs,ht,pool_shape_reached _ hs⟩

end Ractor.Factory
