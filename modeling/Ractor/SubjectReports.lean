import Ractor.ReplicatedViews

/-!
# Reports on a subject

A reporter keeps an observer informed of a subject that appears, is marked with keys, and is
withdrawn. It subscribes to two sources of events, takes a snapshot of each, and sends what it has
read before any of the events. The events that have come in the meantime are handled afterwards.

The subject does not wait for the reporter: it goes on between any two steps. In the end the observer
has the subject if and only if it is present, with the keys that it is marked with. The one condition
is that no snapshot of the marks sees a subject whose end is not among the events.
-/

namespace Ractor
open List ViewNote

universe u

variable {κ : Type u}

/-- A subject can be marked as long as it is open. -/
inductive SubjectLife where
  | unborn | opened | closing | withdrawn
  deriving DecidableEq, Repr

def SubjectLife.Present : SubjectLife → Prop
  | unborn | withdrawn => False
  | opened | closing => True

/-- How far the reporter is: it hears of lives, has counted the subjects that are present and has
announced them, listens to marks, and reads which subjects are marked with a key, one key at a
time. -/
inductive ReportPhase (κ : Type u) where
  | start
  | hearing
  | counted (present : Bool)
  | announced
  | listening
  | reading (todo : List κ)
  | carrying (key : κ) (marked : Bool) (todo : List κ)
  | done

namespace ReportPhase

def Hears : ReportPhase κ → Prop
  | start => False
  | _ => True

def Counts : ReportPhase κ → Prop
  | start | hearing => False
  | _ => True

def Listens : ReportPhase κ → Prop
  | start | hearing | counted _ | announced => False
  | _ => True

/-- The marks with the key are still to be read. -/
def Unread (key : κ) : ReportPhase κ → Prop
  | reading todo | carrying _ _ todo => key∈todo
  | done => False
  | _ => True

def todo : ReportPhase κ → List κ
  | reading todo | carrying _ _ todo => todo
  | _ => []

def pending : ReportPhase κ → List (ViewNote κ)
  | counted true => [.create]
  | carrying key true _ => [.mark key]
  | _ => []

variable {phase : ReportPhase κ}

theorem hears_of_ne_start (h : phase≠.start) : phase.Hears := by
  cases phase with
  | start => exact h rfl
  | hearing | counted _ | announced | listening | reading _ | carrying _ _ _ | done => trivial

theorem Counts.hears (h : phase.Counts) : phase.Hears := hears_of_ne_start (by rintro rfl; exact h)

theorem Listens.hears (h : phase.Listens) : phase.Hears :=
  hears_of_ne_start (by rintro rfl; exact h)

theorem listens_of_not_unread {key : κ} (h : ¬ phase.Unread key) : phase.Listens := by
  cases phase with
  | start | hearing | counted _ | announced => exact absurd trivial h
  | listening | reading _ | carrying _ _ _ | done => trivial

theorem remove_notMem_pending (phase : ReportPhase κ) : .remove∉phase.pending := by
  cases phase with
  | counted present => cases present <;> simp [pending]
  | carrying key marked todo => cases marked <;> simp [pending]
  | start | hearing | announced | listening | reading _ | done => simp [pending]

end ReportPhase

/-- The subject, the reporter and what the observer has of the subject. The subject may be dropped
by the observer again when it has been removed. -/
structure Replica (κ : Type u) where
  life : SubjectLife
  marks : Set κ
  phase : ReportPhase κ
  events : List (ViewNote κ)
  link : List (ViewNote κ)
  view : Option (Set κ)
  dropped : Prop

variable {phase : ReportPhase κ} {link rest notes : List (ViewNote κ)}

namespace Replica
variable (r : Replica κ)

open Classical in
/-- An event of the life of the subject is queued when the reporter hears of it. -/
noncomputable def heard (note : ViewNote κ) : List (ViewNote κ) :=
  if r.phase.Hears then [note] else []

def sent : List (ViewNote κ):=r.link++r.phase.pending

/-- The view when everything is delivered that has been sent or read. -/
def arrived : Option (Set κ):=replay r.view r.sent

def final : Option (Set κ):=replay r.arrived r.events

section Steps
variable [DecidableEq κ]

/-- The notes on marks are queued when the reporter listens, some of them perhaps more than once. -/
structure Queues (r : Replica κ) (notes copies : List (ViewNote κ)) : Prop where
  mem : ∀note∈copies,note∈notes
  listening : r.phase.Listens → ∀key,lastWord key copies=lastWord key notes
  deaf : ¬ r.phase.Listens → copies=[]

/-- A subject that is open can be marked, and every subject that there is or was can be unmarked. -/
def Allows (r : Replica κ) (note : ViewNote κ) : Prop :=
  note≠.remove ∧ note≠.create ∧ r.life≠.unborn ∧ (note.Creates → r.life=.opened)

/-- The reporter goes on to a phase, and what is on the link then. -/
inductive Reports (r : Replica κ) : ReportPhase κ → List (ViewNote κ)→Prop where
  | hear : r.phase=.start→Reports r .hearing r.link
  | count {present : Bool} : r.phase=.hearing→(present=true ↔ r.life.Present) →
      Reports r (.counted present) r.link
  | announce {present : Bool} : r.phase=.counted present→Reports r .announced r.sent
  | listen : r.phase=.announced→Reports r .listening r.link
  | list {todo : List κ} : r.phase=.listening→todo.Nodup→(∀key∈r.marks,key∈todo) →
      Reports r (.reading todo) r.link
  | read {key : κ} {marked : Bool} {todo : List κ} : r.phase=.reading (key::todo) →
      (marked=true ↔ key∈r.marks)→(marked=true → r.life.Present ∨ .remove∈r.events) →
      Reports r (.carrying key marked todo) r.link
  | send {key : κ} {marked : Bool} {todo : List κ} : r.phase=.carrying key marked todo →
      Reports r (.reading todo) r.sent
  | finish : r.phase=.reading []→Reports r .done r.link

inductive Step (r : Replica κ) : Replica κ→Prop where
  | appear : r.life=.unborn → Step r {r with life:=.opened,events:=r.events++r.heard .create}
  | close : r.life=.opened → Step r {r with life:=.closing}
  | withdraw : r.life=.closing → Step r {r with life:=.withdrawn,events:=r.events++r.heard .remove}
  | alter {notes copies : List (ViewNote κ)} {marks : Set κ} :
      (∀note∈notes,r.Allows note) →
      (∀key,key∈marks ↔ (lastWord key notes).elim (key∈r.marks) (· = true)) →
      r.Queues notes copies →
      Step r {r with marks:=marks,events:=r.events++copies}
  | report {phase : ReportPhase κ} {link : List (ViewNote κ)} : r.Reports phase link →
      Step r {r with phase:=phase,link:=link}
  | handle {notes rest : List (ViewNote κ)} : r.phase=.done → r.events=notes++rest →
      Step r {r with events:=rest,link:=r.link++notes}
  | deliver {notes rest : List (ViewNote κ)} {dropped : Prop} : r.link=notes++rest →
      (dropped → r.dropped ∨ .remove∈notes) →
      Step r {r with link:=rest,view:=replay r.view notes,dropped:=dropped}
  | expire {dropped : Prop} : r.dropped → Step r {r with view:=none,dropped:=dropped}

/-! ### What the reporter reads -/

/-- The reporter goes on to a phase and has read the notes, which say what is so. -/
structure Goes (r : Replica κ) (phase : ReportPhase κ) (link notes : List (ViewNote κ)) : Prop where
  early : r.phase≠.done
  sent : link++phase.pending=r.sent++notes
  kept : .remove∉notes
  born : r.life=.unborn → r.marks=∅ → notes=[]
  hears : phase.Hears
  listens : r.phase.Listens → phase.Listens
  counts : r.life.Present → phase.Counts → r.phase.Counts ∨ ∃note∈notes,note.Creates
  nodup : phase.todo.Nodup
  unread : ∀key,phase.Unread key → r.phase.Unread key ∧ lastWord key notes=none
  read : ∀key,r.phase.Unread key → ¬ phase.Unread key →
    (lastWord key notes=some true ↔ key∈r.marks)
  again : ∀key,¬ r.phase.Unread key → lastWord key notes=none
  missed : r.life=.withdrawn → .remove∉r.events → notes=[]

variable {r}

/-- Nothing is read, but keys may turn out to be those of no mark. -/
theorem Goes.same {before : ReportPhase κ} (hp : r.phase=before) (early : before≠.done)
    (sent : link++phase.pending=r.link++before.pending) (hears : phase.Hears)
    (listens : before.Listens→phase.Listens) (counts : phase.Counts → before.Counts)
    (nodup : phase.todo.Nodup) (unread : ∀key,phase.Unread key → before.Unread key)
    (read : ∀key,before.Unread key→¬ phase.Unread key→key∉r.marks) :
    r.Goes phase link [] := by
  subst hp
  exact {
    early:=early
    sent:=sent.trans (append_nil _).symm
    kept:=not_mem_nil
    born:=fun _ _ => rfl
    hears:=hears
    listens:=listens
    counts:=fun _ hc => .inl (counts hc)
    nodup:=nodup
    unread:=fun key hkey => ⟨unread key hkey,rfl⟩
    read:=fun key hkey hnow => iff_of_false nofun (read key hkey hnow)
    again:=fun _ _ => rfl
    missed:=fun _ _ => rfl}

theorem Reports.goes (h : r.Reports phase link) (hn : r.phase.todo.Nodup) :
    ∃notes,r.Goes phase link notes := by
  cases h with
  | hear hp => exact ⟨[],.same hp nofun rfl trivial nofun nofun .nil (fun _ => id)
      fun _ _ hnow => absurd trivial hnow⟩
  | @count present hp hpr =>
    refine ⟨(ReportPhase.counted present : ReportPhase κ).pending,?_⟩
    have hw (key : κ) :
        lastWord key (ReportPhase.counted present : ReportPhase κ).pending=none := by
      cases present <;> rfl
    have hno (hl : ¬ r.life.Present) :
        (ReportPhase.counted present : ReportPhase κ).pending=[] := by
      rw [Bool.eq_false_iff.mpr (mt hpr.mp hl)]
      rfl
    refine ⟨by simp [hp],by simp [sent,hp,ReportPhase.pending],
      ReportPhase.remove_notMem_pending _,fun hl _ => hno (hl ▸ id),trivial,
      by simp [hp,ReportPhase.Listens],fun hl _ => .inr ?_,.nil,
      fun key _ => ⟨by simp [hp,ReportPhase.Unread],hw key⟩,
      fun _ _ hnow => absurd trivial hnow,fun key _ => hw key,fun hl _ => hno (hl ▸ id)⟩
    rw [hpr.mpr hl]
    exact ⟨.create,mem_singleton_self _,trivial⟩
  | announce hp => exact ⟨[],.same hp nofun (by simp [sent,hp,ReportPhase.pending])
      trivial nofun (fun _ => trivial) .nil (fun _ => id) fun _ _ hnow => absurd trivial hnow⟩
  | listen hp => exact ⟨[],.same hp nofun rfl trivial nofun (fun _ => trivial) .nil
      (fun _ => id) fun _ _ hnow => absurd trivial hnow⟩
  | list hp hn hma => exact ⟨[],.same hp nofun rfl trivial (fun _ => trivial)
      (fun _ => trivial) hn (fun _ _ => trivial) fun key _ hnow hm => hnow (hma key hm)⟩
  | @read key marked todo hp hmar hs =>
    rw [hp] at hn
    obtain ⟨hkey,hn⟩:=nodup_cons.mp hn
    refine ⟨(ReportPhase.carrying key marked todo).pending,?_⟩
    have hw {key' : κ} (hne : key'≠key) :
        lastWord key' (ReportPhase.carrying key marked todo).pending=none := by
      cases marked with
      | false => rfl
      | true => simp [ReportPhase.pending,lastWord,word,hne.symm]
    have hno (hu : marked≠true) : (ReportPhase.carrying key marked todo).pending=[] := by
      rw [Bool.eq_false_iff.mpr hu]
      rfl
    refine ⟨by simp [hp],by simp [sent,hp,ReportPhase.pending],
      ReportPhase.remove_notMem_pending _,fun _ hma => hno fun ht => ?_,trivial,
      fun _ => trivial,fun _ _ => .inl (hp ▸ trivial),hn,fun key' hk' => ?_,
      fun key' hb hnow => ?_,fun key' hb => ?_,
      fun hl hm => hno fun ht => ?_⟩
    · have hm:=hmar.mp ht
      rw [hma] at hm
      exact hm
    · have hne : key'≠key:=fun heq => hkey (heq ▸ hk')
      exact ⟨hp ▸ mem_cons_of_mem _ hk',hw hne⟩
    · rw [hp] at hb
      obtain rfl : key'=key:=(mem_cons.mp hb).resolve_right hnow
      rw [← hmar]
      cases marked <;> simp [ReportPhase.pending,lastWord,word]
    · rw [hp] at hb
      exact hw fun heq => hb (heq ▸ mem_cons_self)
    · rcases hs ht with hl' | hm'
      · rw [hl] at hl'
        exact hl'
      · exact hm hm'
  | send hp =>
    rw [hp] at hn
    exact ⟨[],.same hp (by simp) (by simp [sent,hp,ReportPhase.pending]) trivial
      (fun _ => trivial) (fun _ => trivial) hn (fun _ => id) fun _ hkey hnow => absurd hkey hnow⟩
  | finish hp => exact ⟨[],.same hp (by simp) rfl trivial (fun _ => trivial) (fun _ => trivial)
      .nil (fun _ => False.elim) fun _ hkey => absurd hkey not_mem_nil⟩

end Steps

/-! ### The order of the notes -/

/-- Nothing is created after it has been removed, and only what is over is removed. -/
structure Orderly (r : Replica κ) : Prop where
  ordered : (r.sent++r.events).Pairwise fun note next => note=.remove → ¬ next.Creates
  unsent : r.phase≠.done → .remove∉r.link
  present : r.life.Present → .remove∉r.sent++r.events
  nodup : r.phase.todo.Nodup
  unborn : r.life=.unborn → r.sent++r.events=[] ∧ r.view=none ∧ r.marks=∅
  dropped : r.dropped → r.view=none ∧ (∀note∈r.sent++r.events,¬ note.Creates) ∧
    r.life=.withdrawn ∧ r.phase=.done

variable {r} {r' : Replica κ}

theorem mem_heard {note note' : ViewNote κ} (h : note'∈r.heard note) : note'=note := by
  unfold heard at h
  split at h
  · exact mem_singleton.mp h
  · exact absurd h not_mem_nil

theorem pairwise_heard (R : ViewNote κ→ViewNote κ→Prop) (note : ViewNote κ) :
    (r.heard note).Pairwise R := by
  unfold heard
  split
  · exact pairwise_singleton _ _
  · exact .nil

namespace Orderly
variable (h : r.Orderly)
include h

theorem not_dropped (hl : r.life≠.withdrawn) : ¬ r.dropped := fun hd => hl (h.dropped hd).2.2.1

theorem appear (hl : r.life=.unborn) :
    Orderly {r with life:=.opened,events:=r.events++r.heard .create} := by
  obtain ⟨hnil,hv,hma⟩:=h.unborn hl
  have hnew : r.sent++(r.events++r.heard .create)=r.heard .create := by
    rw [← append_assoc,hnil,nil_append]
  refine ⟨?_,h.unsent,fun _ hm => ?_,h.nodup,nofun,
    fun hd => absurd hd (h.not_dropped (by simp [hl]))⟩
  · show (r.sent++(r.events++r.heard .create)).Pairwise _
    rw [hnew]
    exact pairwise_heard _ _
  · have hm : .remove∈r.sent++(r.events++r.heard .create):=hm
    rw [hnew] at hm
    exact nomatch mem_heard hm

theorem close (hl : r.life=.opened) : Orderly {r with life:=.closing} := by
  exact {h with
    present:=fun _ => h.present (hl ▸ trivial)
    unborn:=nofun
    dropped:=fun hd => absurd hd (h.not_dropped (by simp [hl]))}

theorem withdraw (hl : r.life=.closing) :
    Orderly {r with life:=.withdrawn,events:=r.events++r.heard .remove} := by
  refine ⟨?_,h.unsent,nofun,h.nodup,nofun,fun hd => absurd hd (h.not_dropped (by simp [hl]))⟩
  show (r.sent++(r.events++r.heard .remove)).Pairwise _
  rw [← append_assoc]
  refine pairwise_append.mpr ⟨h.ordered,pairwise_heard _ _,fun note _ next hm _ hc => ?_⟩
  rw [mem_heard hm] at hc
  exact hc

theorem deliver {dropped : Prop} (hli : r.link=notes++rest)
    (hd : dropped → r.dropped ∨ .remove∈notes) :
    Orderly {r with link:=rest,view:=replay r.view notes,dropped:=dropped} := by
  have hall : r.sent++r.events=notes++(rest++r.phase.pending++r.events) := by
    rw [sent,hli]
    simp only [append_assoc]
  have hsub : ∀note∈rest++r.phase.pending++r.events,note∈r.sent++r.events := by
    intro note hm
    rw [hall]
    exact mem_append_right _ hm
  have ho:=h.ordered
  rw [hall] at ho
  obtain ⟨hn,hre,ha⟩:=pairwise_append.mp ho
  refine ⟨hre,fun hp hm => h.unsent hp ?_,fun hpr hm => ?_,h.nodup,fun hu => ?_,fun hnow => ?_⟩
  · rw [hli]
    exact mem_append_right _ hm
  · exact h.present hpr (hsub _ hm)
  · obtain ⟨hnil,hv,hma⟩:=h.unborn hu
    rw [hall] at hnil
    obtain ⟨rfl,hnil⟩:=append_eq_nil_iff.mp hnil
    exact ⟨hnil,hv,hma⟩
  · rcases hd hnow with hb | hr
    · obtain ⟨hv,hno,hl,hp⟩:=h.dropped hb
      refine ⟨?_,fun note hm => hno note (hsub note hm),hl,hp⟩
      show replay r.view notes=none
      rw [hv]
      refine replay_none fun note hm => hno note ?_
      rw [hall]
      exact mem_append_left _ hm
    · -- a note that removes is on the link only when the subject is over and everything is read
      have hmem : .remove∈r.link := by
        rw [hli]
        exact mem_append_left _ hr
      have hp : r.phase=.done := by
        by_contra hp
        exact h.unsent hp hmem
      have hm' : .remove∈r.sent++r.events:=mem_append_left _ (mem_append_left _ hmem)
      have hl : r.life=.withdrawn := by
        cases hl : r.life with
        | unborn =>
          rw [(h.unborn hl).1] at hm'
          cases hm'
        | opened | closing => exact absurd hm' (h.present (hl ▸ trivial))
        | withdrawn => rfl
      obtain ⟨before,after,rfl⟩:=append_of_mem hr
      refine ⟨replay_remove r.view before fun note hm => ?_,fun note hm => ?_,hl,hp⟩
      · have haf:=(pairwise_append.mp hn).2.1
        exact (pairwise_cons.mp haf).1 note hm rfl
      · exact ha .remove hr note hm rfl

theorem handle (hp : r.phase=.done) (he : r.events=notes++rest) :
    Orderly {r with events:=rest,link:=r.link++notes} := by
  have hs : sent {r with events:=rest,link:=r.link++notes}++rest = r.sent++r.events := by
    simp [sent,hp,he,ReportPhase.pending]
  refine ⟨?_,fun hne => absurd hp hne,?_,h.nodup,?_,?_⟩
  · exact hs ▸ h.ordered
  · exact hs ▸ h.present
  · exact hs ▸ h.unborn
  · exact hs ▸ h.dropped

theorem expire {dropped : Prop} (hb : r.dropped) :
    Orderly {r with view:=none,dropped:=dropped} := by
  obtain ⟨hv,hn,hl,hp⟩:=h.dropped hb
  refine ⟨h.ordered,h.unsent,h.present,h.nodup,fun hu => ?_,fun _ => ⟨rfl,hn,hl,hp⟩⟩
  obtain ⟨hnil,-,hm⟩:=h.unborn hu
  exact ⟨hnil,rfl,hm⟩

variable [DecidableEq κ]

theorem alter {copies : List (ViewNote κ)} {marks : Set κ} (hn : ∀note∈notes,r.Allows note)
    (hma : ∀key,key∈marks ↔ (lastWord key notes).elim (key∈r.marks) (· = true))
    (hco : r.Queues notes copies) :
    Orderly {r with marks:=marks,events:=r.events++copies} := by
  have ha : ∀note∈copies,r.Allows note:=fun note hm => hn note (hco.mem note hm)
  refine ⟨?_,h.unsent,fun hp hm => ?_,h.nodup,fun hu => ?_,fun hd => ?_⟩
  · show (r.sent++(r.events++copies)).Pairwise _
    rw [← append_assoc]
    refine pairwise_append.mpr ⟨h.ordered,?_,fun note hm next hne hr hc => ?_⟩
    · exact pairwise_of_forall_mem_list fun note hm _ _ hr =>
        absurd hr (ha note hm).1
    · have hl:=(ha next hne).2.2.2 hc
      exact h.present (hl ▸ trivial) (hr ▸ hm)
  · have hm : .remove∈r.sent++(r.events++copies):=hm
    rw [← append_assoc] at hm
    exact (mem_append.mp hm).elim (h.present hp) fun hm => (ha _ hm).1 rfl
  · obtain ⟨hnil,hv,hno⟩:=h.unborn hu
    obtain rfl : notes=[] := eq_nil_iff_forall_not_mem.mpr fun note hm => (hn note hm).2.2.1 hu
    obtain rfl : copies=[] :=
      eq_nil_iff_forall_not_mem.mpr fun note hm => not_mem_nil (hco.mem note hm)
    refine ⟨?_,hv,?_⟩
    · show r.sent++(r.events++[])=[]
      rw [append_nil]
      exact hnil
    · exact (Set.ext fun key => hma key).trans hno
  · obtain ⟨hv,hno,hl,hph⟩:=h.dropped hd
    refine ⟨hv,fun note hm hc => ?_,hl,hph⟩
    have hm : note∈r.sent++(r.events++copies):=hm
    rw [← append_assoc] at hm
    rcases mem_append.mp hm with hm | hm
    · exact hno note hm hc
    · have ho:=(ha note hm).2.2.2 hc
      rw [hl] at ho
      cases ho

theorem report (hg : r.Goes phase link notes) : Orderly {r with phase:=phase,link:=link} := by
  have hs : Replica.sent {r with phase:=phase,link:=link}=r.sent++notes:=hg.sent
  have hn : .remove∉r.sent++notes := by
    intro hm
    rcases mem_append.mp hm with hm | hm
    · rcases mem_append.mp hm with hm | hm
      · exact h.unsent hg.early hm
      · exact ReportPhase.remove_notMem_pending _ hm
    · exact hg.kept hm
  rw [← hs] at hn
  refine ⟨?_,fun _ hm => hn (mem_append_left _ hm),fun hp hm => ?_,hg.nodup,
    fun hu => ?_,fun hd => absurd (h.dropped hd).2.2.2 hg.early⟩
  · refine pairwise_append.mpr ⟨?_,(pairwise_append.mp h.ordered).2.1,
      fun note hm next _ hr => absurd (hr ▸ hm) hn⟩
    exact pairwise_of_forall_mem_list fun note hm _ _ hr => absurd (hr ▸ hm) hn
  · exact (mem_append.mp hm).elim hn fun hm => h.present hp (mem_append_right _ hm)
  · obtain ⟨hnil,hv,hma⟩:=h.unborn hu
    refine ⟨?_,hv,hma⟩
    rw [hs,hg.born hu hma,append_nil]
    exact hnil

theorem step (hs : r.Step r') : r'.Orderly := by
  cases hs with
  | appear hl => exact h.appear hl
  | close hl => exact h.close hl
  | withdraw hl => exact h.withdraw hl
  | alter hn hm hc => exact h.alter hn hm hc
  | report hr =>
    obtain ⟨notes,hg⟩:=hr.goes h.nodup
    exact h.report hg
  | handle hp he => exact h.handle hp he
  | deliver hli hd => exact h.deliver hli hd
  | expire hb => exact h.expire hb

end Orderly

/-! ### What arrives -/

variable [DecidableEq κ]

/-- What has been sent and the events that are queued make up for each other: the observer follows
the marks of a subject that is present in what has been read, and the last events on the rest are up
to date. A subject that is over is over for the observer in the end. -/
structure Faithful (r : Replica κ) : Prop where
  silent : ¬ r.phase.Hears → r.arrived=none ∧ r.events=[]
  wordless : ¬ r.phase.Listens → ∀key,lastWord key r.events=none
  unread : ∀key,r.phase.Unread key → ¬ Marked key r.arrived
  known : r.life.Present → r.phase.Counts →
    r.arrived.isSome=true ∨ ∃note∈r.events,note.Creates
  current : r.life.Present → ∀key,r.phase.Unread key → ∀word,
    lastWord key r.events=some word → (word=true ↔ key∈r.marks)
  followed : r.life.Present → ∀key,¬ r.phase.Unread key → (Marked key r.final ↔ key∈r.marks)
  ending : r.life=.withdrawn → r.phase≠.done → .remove∈r.events →
    ∀view,replay view r.events=none
  missed : r.life=.withdrawn → r.phase≠.done → .remove∉r.events →
    r.arrived=none ∧ ∀note∈r.events,¬ note.Creates
  gone : r.life=.withdrawn → r.phase=.done → r.final=none

theorem lastWord_heard {note : ViewNote κ} (hn : ∀key,note.word key=none) (key : κ) :
    lastWord key (r.heard note)=none := by
  refine lastWord_eq_none.mpr fun note' hm => ?_
  rw [mem_heard hm]
  exact hn key

namespace Faithful
variable (h : r.Faithful)
include h

/-- Only what arrives matters. -/
theorem congr (hl : r'.life=r.life) (hm : r'.marks=r.marks)
    (hp : r'.phase=r.phase) (he : r'.events=r.events)
    (ha : r'.arrived=r.arrived) : r'.Faithful := by
  have hf : r'.final=r.final := by rw [final,final,ha,he]
  obtain ⟨hs,hw,hu,hk,hc,hfo,hen,hmi,hg⟩:=h
  constructor
  · rwa [hp,ha,he]
  · rwa [hp,he]
  · rwa [hp,ha]
  · rwa [hl,hp,ha,he]
  · rwa [hl,hp,he,hm]
  · rwa [hl,hp,hf,hm]
  · rwa [hl,hp,he]
  · rwa [hl,hp,he,ha]
  · rwa [hl,hp,hf]

theorem appear (ho : r.Orderly) (hl : r.life=.unborn) :
    Faithful {r with life:=.opened,events:=r.events++r.heard .create} := by
  obtain ⟨hnil,hv,hma⟩:=ho.unborn hl
  obtain ⟨hs,he⟩:=append_eq_nil_iff.mp hnil
  have ha : r.arrived=none := by
    rw [arrived,hs,hv]
    rfl
  have hw (key : κ) : lastWord key (r.events++r.heard .create)=none := by
    rw [he,nil_append]
    exact lastWord_heard (fun _ => rfl) key
  refine ⟨fun hears => ⟨ha,?_⟩,fun _ => hw,h.unread,fun _ hc => .inr ?_,
    fun _ key _ word hwo => ?_,fun _ key hu => ?_,nofun,nofun,nofun⟩
  · show r.events++r.heard .create=[]
    rw [he,heard,if_neg hears]
    rfl
  · have hears : r.phase.Hears:=ReportPhase.Counts.hears hc
    refine ⟨.create,mem_append_right _ ?_,trivial⟩
    rw [heard,if_pos hears]
    exact mem_singleton_self _
  · exact nomatch (hw key).symm.trans hwo
  · have hn : ∀note∈r.events++r.heard .create,note≠.remove := by
      rw [he]
      rintro note hm rfl
      exact nomatch mem_heard hm
    show Marked key (replay r.arrived (r.events++r.heard .create)) ↔ key∈r.marks
    rw [marked_replay hn,hw,ha,hma]
    rfl

theorem close (hl : r.life=.opened) : Faithful {r with life:=.closing} := by
  have hp : r.life.Present:=hl ▸ trivial
  exact {h with
    known:=fun _ => h.known hp
    current:=fun _ => h.current hp
    followed:=fun _ => h.followed hp
    ending:=nofun
    missed:=nofun
    gone:=nofun}

theorem withdraw (ho : r.Orderly) (hli : r.life=.closing) :
    Faithful {r with life:=.withdrawn,events:=r.events++r.heard .remove} := by
  have hk : .remove∉r.events:=fun hm =>
    ho.present (hli ▸ trivial) (mem_append_right _ hm)
  have he (hears : r.phase.Hears) (view : Option (Set κ)) :
      replay view (r.events++r.heard .remove)=none := by
    rw [heard,if_pos hears]
    exact replay_remove view r.events nofun
  have hu (hears : ¬ r.phase.Hears) : r.events++r.heard .remove=r.events := by
    rw [heard,if_neg hears,append_nil]
  refine ⟨fun hears => ?_,fun hl key => ?_,h.unread,nofun,nofun,nofun,
    fun _ _ hm => ?_,fun _ _ hm => ?_,fun _ hp => ?_⟩
  · exact (hu hears).symm ▸ h.silent hears
  · rw [lastWord_append,h.wordless hl,lastWord_heard fun _ => rfl]
    rfl
  · by_cases hears : r.phase.Hears
    · exact he hears
    · have hm : .remove∈r.events++r.heard .remove:=hm
      rw [hu hears] at hm
      exact absurd hm hk
  · have hears : ¬ r.phase.Hears := by
      intro hears
      refine hm (mem_append_right _ ?_)
      rw [heard,if_pos hears]
      exact mem_singleton_self _
    obtain ⟨ha,hev⟩:=h.silent hears
    refine ⟨ha,?_⟩
    rw [hu hears,hev]
    exact nofun
  · have hp : r.phase=.done:=hp
    exact he (hp ▸ trivial) r.arrived

theorem alter {copies : List (ViewNote κ)} {marks : Set κ} (hn : ∀note∈notes,r.Allows note)
    (hma : ∀key,key∈marks ↔ (lastWord key notes).elim (key∈r.marks) (· = true))
    (hc : r.Queues notes copies) :
    Faithful {r with marks:=marks,events:=r.events++copies} := by
  have hal : ∀note∈copies,r.Allows note:=fun note hm => hn note (hc.mem note hm)
  have hk : ∀note∈copies,note≠.remove:=fun note hm => (hal note hm).1
  have hov (hli : r.life=.withdrawn) : ∀note∈copies,¬ note.Creates := by
    intro note hm hcr
    have ho:=(hal note hm).2.2.2 hcr
    rw [hli] at ho
    cases ho
  refine ⟨fun hears => ?_,fun hl key => ?_,h.unread,fun hp hco => ?_,
    fun hp key hu word hw => ?_,fun hp key hu => ?_,
    fun hli hph hm view => ?_,fun hli hph hm => ?_,fun hli hph => ?_⟩
  · obtain ⟨ha,he⟩:=h.silent hears
    have hl : ¬ r.phase.Listens:=fun hl => hears hl.hears
    refine ⟨ha,?_⟩
    rw [he,hc.deaf hl]
    rfl
  · rw [hc.deaf hl,append_nil]
    exact h.wordless hl key
  · refine (h.known hp hco).imp_right fun ⟨note,hm,hcr⟩ => ?_
    exact ⟨note,mem_append_left _ hm,hcr⟩
  · have hw : lastWord key (r.events++copies)=some word:=hw
    rw [lastWord_append] at hw
    refine Iff.trans ?_ (hma key).symm
    by_cases hl : r.phase.Listens
    · rw [hc.listening hl] at hw
      cases hla : lastWord key notes with
      | none =>
        rw [hla] at hw
        exact h.current hp key hu word hw
      | some word' =>
        rw [hla] at hw
        cases hw
        rfl
    · rw [hc.deaf hl,h.wordless hl] at hw
      cases hw
  · have hl : r.phase.Listens:=ReportPhase.listens_of_not_unread hu
    show Marked key (replay r.arrived (r.events++copies)) ↔ _
    rw [replay_append,marked_replay hk,hc.listening hl]
    refine Iff.trans ?_ (hma key).symm
    cases lastWord key notes with
    | none => exact h.followed hp key hu
    | some word => rfl
  · have hm : .remove∈r.events := by
      refine (mem_append.mp hm).resolve_right fun hm => ?_
      exact hk _ hm rfl
    rw [replay_append,h.ending hli hph hm]
    exact replay_none (hov hli)
  · obtain ⟨ha,hno⟩:=h.missed hli hph fun hr => hm (mem_append_left _ hr)
    refine ⟨ha,fun note hm => ?_⟩
    exact (mem_append.mp hm).elim (hno note) (hov hli note)
  · show replay r.arrived (r.events++copies)=none
    rw [replay_append]
    have hf : replay r.arrived r.events=none:=h.gone hli hph
    rw [hf]
    exact replay_none (hov hli)

/-- The reporter goes on: what it has read is so, and what it has not read is in the events. -/
theorem report (ho : r.Orderly) (hg : r.Goes phase link notes) :
    Faithful {r with phase:=phase,link:=link} := by
  have ha : arrived {r with phase:=phase,link:=link}=replay r.arrived notes := by
    rw [arrived,arrived,← replay_append,← hg.sent]
    rfl
  have hk : ∀note∈notes,note≠.remove:=fun note hm heq => hg.kept (heq ▸ hm)
  have hmi (hli : r.life=.withdrawn) (hm : .remove∉r.events) :
      replay r.arrived notes=none ∧ ∀note∈r.events,¬ note.Creates := by
    rw [hg.missed hli hm]
    exact h.missed hli hg.early hm
  refine ⟨fun hears => absurd hg.hears hears,fun hl => h.wordless (mt hg.listens hl),
    fun key hkey => ?_,fun hli hco => ?_,fun hli key hkey => ?_,fun hli key hkey => ?_,
    fun hli _ => h.ending hli hg.early,fun hli _ hm => ha ▸ hmi hli hm,
    fun hli _ => ?_⟩
  · obtain ⟨hb,hw⟩:=hg.unread key hkey
    rw [ha,marked_replay hk,hw]
    exact h.unread key hb
  · rw [ha,isSome_replay hk,or_assoc]
    rcases hg.counts hli hco with hco | hc
    · exact (h.known hli hco).imp_right .inr
    · exact .inr (.inl hc)
  · exact h.current hli key (hg.unread key hkey).1
  · have he : ∀note∈r.events,note≠.remove := by
      rintro note hm rfl
      exact ho.present hli (mem_append_right _ hm)
    rw [final,ha,marked_replay he,marked_replay hk]
    by_cases hb : r.phase.Unread key
    · cases hla : lastWord key r.events with
      | some word => exact h.current hli key hb word hla
      | none =>
        have hu:=h.unread key hb
        rw [← hg.read key hb hkey]
        cases lastWord key notes <;> simp [hu]
    · rw [hg.again key hb,← h.followed hli key hb,final,marked_replay he]
      rfl
  · rw [final,ha]
    by_cases hm : .remove∈r.events
    · exact h.ending hli hg.early hm _
    · obtain ⟨hn,hc⟩:=hmi hli hm
      rw [hn]
      exact replay_none hc

theorem handle (ho : r.Orderly) (hp : r.phase=.done) (he : r.events=notes++rest) :
    Faithful {r with events:=rest,link:=r.link++notes} := by
  have ha : arrived {r with events:=rest,link:=r.link++notes} = replay r.arrived notes := by
    simp [arrived,sent,hp,ReportPhase.pending,replay_append]
  have hf : final {r with events:=rest,link:=r.link++notes}=r.final := by
    rw [final,final,ha,he,replay_append]
  have ht : (ReportPhase.done : ReportPhase κ).Hears ∧
    (ReportPhase.done : ReportPhase κ).Listens:=⟨trivial,trivial⟩
  rw [← hp] at ht
  have hu (key : κ) : ¬ r.phase.Unread key := by simp [hp,ReportPhase.Unread]
  refine ⟨fun hears => absurd ht.1 hears,fun hl => absurd ht.2 hl,
    fun key hkey => absurd hkey (hu key),fun hli hco => ?_,
    fun _ key hkey => absurd hkey (hu key),fun hli key hkey => ?_,
    fun _ hne => absurd hp hne,fun _ hne => absurd hp hne,fun hli hd => ?_⟩
  · have hk : ∀note∈notes,note≠.remove := by
      rintro note hm rfl
      refine ho.present hli (mem_append_right _ ?_)
      rw [he]
      exact mem_append_left _ hm
    rw [ha,isSome_replay hk]
    rcases h.known hli hco with hs | ⟨note,hm,hc⟩
    · exact .inl (.inl hs)
    · rw [he] at hm
      rcases mem_append.mp hm with hm | hm
      · exact .inl (.inr ⟨note,hm,hc⟩)
      · exact .inr ⟨note,hm,hc⟩
  · exact hf ▸ h.followed hli key hkey
  · exact hf ▸ h.gone hli hd

theorem step (ho : r.Orderly) (hs : r.Step r') : r'.Faithful := by
  cases hs with
  | appear hl => exact h.appear ho hl
  | close hl => exact h.close hl
  | withdraw hl => exact h.withdraw ho hl
  | alter hn hm hc => exact h.alter hn hm hc
  | report hr =>
    obtain ⟨notes,hg⟩:=hr.goes ho.nodup
    exact h.report ho hg
  | handle hp he => exact h.handle ho hp he
  | deliver hli =>
    refine h.congr rfl rfl rfl rfl ?_
    simp only [arrived,sent,hli,replay_append]
  | expire hb =>
    refine h.congr rfl rfl rfl rfl ?_
    rw [arrived,arrived,(ho.dropped hb).1]
    rfl

/-- When all is handled and delivered, the observer has the subject as it is. -/
theorem converged (ho : r.Orderly) (hp : r.phase=.done) (he : r.events=[]) (hli : r.link=[]) :
    (r.view.isSome=true ↔ r.life.Present) ∧
      (r.life.Present→∀key,Marked key r.view ↔ key∈r.marks) := by
  have ha : r.arrived=r.view := by
    rw [arrived,sent,hli,hp]
    rfl
  have hf : r.final=r.view := by
    rw [final,ha,he]
    rfl
  refine ⟨⟨fun hs => ?_,fun hl => ?_⟩,fun hl key => ?_⟩
  · cases hl : r.life with
    | unborn =>
      rw [(ho.unborn hl).2.1] at hs
      cases hs
    | opened | closing => trivial
    | withdrawn =>
      rw [← hf,h.gone hl hp] at hs
      cases hs
  · rcases h.known hl (by simp [hp,ReportPhase.Counts]) with hs | ⟨note,hm,-⟩
    · rwa [ha] at hs
    · rw [he] at hm
      cases hm
  · rw [← hf]
    exact h.followed hl key (by simp [hp,ReportPhase.Unread])

end Faithful
end Replica
end Ractor
