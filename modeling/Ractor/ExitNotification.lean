import Ractor.SupervisionLinks

/-!
# Exit events reach the right supervisor

The supervisor of an actor is read when the event is sent and again when the actor is unlinked,
each time without the lock of the tree. From the moment the actor has published `Stopping` no link
moves it to another supervisor, so that the one who is notified is the one it had then, unless it
is unlinked or the supervisor closes its child set. A supervisor that has left its processing loop
has no receiver any more, and may still have its child set open: the event is lost on it.
-/

namespace Ractor
open Function Option List
open Forest

variable {Id Event : Type} [DecidableEq Id]

namespace Forest
variable (f : Forest Id)

/-- A link gives `x` a new supervisor, or leaves the one it has. -/
theorem link_supervisor (child supervisor x : Id) :
    ((f.link child supervisor).2 x).supervisor=(f x).supervisor ∨
      x=child ∧ (f.link child supervisor).1=true ∧
        ((f.link child supervisor).2 x).supervisor=some supervisor := by
  rcases f.link_cases child supervisor with he | ⟨hc,hs,children,ho⟩
  · exact .inl (by rw [he])
  · obtain ⟨hok,hat⟩:=f.link_accepted x hc hs ho
    rw [hat]
    by_cases hx : x=child
    · exact .inr ⟨hx,hok,by simp [hx]⟩
    · exact .inl (by simp [hx])

theorem unlink_supervisor {child supervisor x : Id}
    (h : ¬(x=child ∧ (f x).supervisor=some supervisor)) :
    (f.unlink child supervisor x).supervisor=(f x).supervisor := by
  rw [unlink_apply]
  split
  · next hs =>
    have hx : x≠child:=fun hx => h ⟨hx,hx ▸ hs⟩
    simp [hx]
  · rfl

theorem visit_supervisor {actor x : Id} (h : (f x).supervisor≠some actor) :
    ((f.visit actor).2 x).supervisor=(f x).supervisor := by
  rw [visit_apply]
  simp [h]

theorem link_status (child supervisor x : Id) :
    ((f.link child supervisor).2 x).status=(f x).status := by
  rcases f.link_cases child supervisor with he | ⟨hc,hs,children,ho⟩
  · rw [he]
  · rw [(f.link_accepted x hc hs ho).2]

theorem unlink_status (child supervisor x : Id) :
    (f.unlink child supervisor x).status=(f x).status := by
  rw [unlink_apply]
  split <;> rfl

end Forest

/-- The exit goes to `p`: the cleanup is going to find `p` as the supervisor and nobody has received
an event so far, or nobody but `p` has received one, and `p` has received what was `sent`. -/
def Cleanup.ExitsTo (p : Id) (supervisor : Option Id) (sent : Event → List Event → Prop)
    (received : Id → List Event) : Cleanup Id Event → Prop
  | .armed | .publishStopping _ | .terminate _ _ | .readTarget _ =>
    supervisor=some p ∧ ∀q,received q=[]
  | .notify target _ => target=some p ∧ ∀q,received q=[]
  | .readSupervisor event | .unlink _ event | .publishStopped event | .done event =>
    (∀q,q≠p → received q=[]) ∧ ∀e∈event,sent e (received p)

/-- The cleanup has published `Stopping`. -/
def Cleanup.begun : Cleanup Id Event → Bool
  | .armed | .publishStopping _ => false
  | _ => true

variable {cleanup : Cleanup Id Event} {d : Id} {label : SupervisionStep Id Event}

omit [DecidableEq Id] in
theorem Cleanup.ExitsTo.mono {p : Id} {supervisor supervisor' : Option Id}
    {sent sent' : Event → List Event→Prop} {received : Id → List Event}
    (h : cleanup.ExitsTo p supervisor sent received)
    (hs : supervisor=some p→supervisor'=some p) (hr : ∀e l,sent e l→sent' e l) :
    cleanup.ExitsTo p supervisor' sent' received := by
  cases cleanup with
  | armed | publishStopping | terminate | readTarget => exact ⟨hs h.1,h.2⟩
  | notify => exact h
  | readSupervisor | unlink | publishStopped | done => exact ⟨h.1,fun e he => hr e _ (h.2 e he)⟩

namespace Supervision
variable (s : Supervision Id Event)

def exitsOf (c q : Id) : List Event :=
  ((s.ports q).filter fun exit => exit.1=c).map Prod.snd

/-- The step unlinks `c` from `p` or closes the child set of `p`. -/
def detaches (c p : Id) : SupervisionStep Id Event → Bool
  | .unlink child supervisor => decide (child=c ∧ supervisor=p)
  | .visit actor => decide (actor=p)
  | .resume actor _ =>
    match s.cleanups actor with
    | .terminate (next::_) _ => decide (next=p)
    | _ => false
  | _ => false

/-- The step links `c` to another supervisor than `p`. -/
def relinks (c p : Id) : SupervisionStep Id Event → Bool
  | .link child supervisor =>
    decide (child=c ∧ supervisor≠p) && (s.forest.link child supervisor).1
  | _ => false

variable {s} {s' : Supervision Id Event} {c p : Id}

/-- Exit events of `c` are sent by the cleanup of `c`. -/
theorem Resumed.exitsOf_of_ne (h : s.Resumed d cleanup s') (hd : c≠d) :
    s'.exitsOf c=s.exitsOf c := by
  cases h with
  | notified target event =>
    funext q
    show map _ (filter _ (update s.ports target _ q))=_
    by_cases hq : q=target
    · subst hq
      rw [update_self]
      split
      · rw [filter_append]
        simp [exitsOf,hd.symm]
      · rfl
    · rw [update_of_ne hq]
      rfl
  | _ => rfl

theorem exitsOf_deliver_of_ne {target q : Id} (event : Event) (h : q≠target) :
    (s.deliver target c event).exitsOf c q=s.exitsOf c q := by
  show map _ (filter _ (update s.ports target _ q))=_
  rw [update_of_ne h]
  rfl

theorem exitsOf_deliver (target : Id) (event : Event) :
    (s.deliver target c event).exitsOf c target =
      s.exitsOf c target++if s.receiving target then [event] else [] := by
  show map _ (filter _ (update s.ports target _ target))=_
  rw [update_self]
  split <;> simp [exitsOf]

/-! ### The way of an exit event -/

def ExitsTo (s : Supervision Id Event) (c p : Id) (sent : Event → List Event → Prop) : Prop :=
  (s.cleanups c).ExitsTo p (s.forest c).supervisor sent (s.exitsOf c)

variable {sent : Event → List Event→Prop}

theorem goto_exitsTo (h : cleanup.ExitsTo p (s.forest c).supervisor sent (s.exitsOf c)) :
    (s.goto c cleanup).ExitsTo c p sent := by
  show (update s.cleanups c cleanup c).ExitsTo p (s.forest c).supervisor sent (s.exitsOf c)
  rwa [update_self]

theorem ExitsTo.resumed (h : s.ExitsTo c p sent) (hr : s.Resumed c (s.cleanups c) s')
    (hd : ∀rest event,s.cleanups c≠.terminate (p::rest) event)
    (hn : ∀e,s.cleanups c=.notify (some p) e→sent e (if s.receiving p then [e] else [])) :
    s'.ExitsTo c p sent := by
  unfold ExitsTo at h
  generalize s.cleanups c=cleanup at h hr hd hn
  cases hr with
  | stoppingPublished event => exact goto_exitsTo ⟨by simpa using h.1,h.2⟩
  | quietlyTerminated => exact goto_exitsTo ⟨fun q _ => h.2 q,nofun⟩
  | terminated event => exact goto_exitsTo h
  | visited actor rest order event =>
    have hne : (s.forest c).supervisor≠some actor := by
      rw [h.1]
      rintro ⟨⟩
      exact hd rest event rfl
    exact goto_exitsTo ⟨(visit_supervisor _ hne).trans h.1,h.2⟩
  | targetRead event => exact goto_exitsTo h
  | nobodyNotified event => cases h.1
  | notified target event =>
    obtain rfl : target=p:=some.inj h.1
    refine goto_exitsTo ⟨fun q hq => (exitsOf_deliver_of_ne event hq).trans (h.2 q),?_⟩
    rintro _ ⟨⟩
    rw [exitsOf_deliver,h.2 target]
    exact hn event rfl
  | supervisorRead | noSupervisor | unlinked supervisor event | stoppedPublished event =>
    exact goto_exitsTo h

theorem ExitsTo.resumed_of_ne (h : s.ExitsTo c p sent) (hr : s.Resumed d (s.cleanups d) s')
    (hne : c≠d) (hd : ∀rest event,s.cleanups d≠.terminate (p::rest) event) :
    s'.ExitsTo c p sent := by
  have hc:=hr.cleanups_of_ne hne
  have he:=hr.exitsOf_of_ne hne
  unfold ExitsTo at h ⊢
  rw [hc,he]
  refine h.mono (fun hs => ?_) fun _ _ => id
  generalize s.cleanups d=cleanup at hr hd
  cases hr with
  | stoppingPublished | stoppedPublished => simpa [goto] using hs
  | visited actor rest order event =>
    refine (visit_supervisor _ ?_).trans hs
    rw [hs]
    rintro ⟨⟩
    exact hd rest event rfl
  | unlinked supervisor => exact (unlink_supervisor _ fun hx => hne hx.1).trans hs
  | _ => exact hs

theorem detaches_resume {order : List Id} (h : s.detaches c p (.resume d order)=false)
    (rest : List Id) (event : Option Event) : s.cleanups d≠.terminate (p::rest) event := by
  intro hc
  simp [detaches,hc] at h

theorem ExitsTo.step (h : s.ExitsTo c p sent) (hd : s.detaches c p label=false)
    (hl : s.relinks c p label=false) (hs : s.Step label s')
    (hn : ∀e order,label=.resume c order→s.cleanups c=.notify (some p) e →
      sent e (if s.receiving p then [e] else [])) : s'.ExitsTo c p sent := by
  -- a step on the links that keeps `p` as the supervisor of `c`
  have forest {f : Forest Id} (hf : (s.forest c).supervisor=some p→(f c).supervisor=some p) :
      ExitsTo {s with forest:=f} c p sent:=Cleanup.ExitsTo.mono h hf fun _ _ => id
  cases label with
  | link child supervisor =>
    cases hs
    refine forest fun hsup => ?_
    rcases s.forest.link_supervisor child supervisor c with he | ⟨rfl,hok,he⟩
    · exact he.trans hsup
    · -- an accepted link of `c` is one to `p`
      have hp : supervisor=p := by
        by_contra hp
        simp [relinks,hp,hok] at hl
      rw [he,hp]
  | unlink child supervisor =>
    cases hs
    refine forest fun hsup => (unlink_supervisor _ ?_).trans hsup
    rintro ⟨rfl,he⟩
    simp [detaches,some.inj (he.symm.trans hsup)] at hd
  | setStatus actor status =>
    cases (ite_none_right_eq_some.mp hs).2
    exact forest fun hsup => by simpa using hsup
  | kill actor =>
    cases hs
    exact forest fun hsup => by simpa using hsup
  | visit actor =>
    cases hs
    refine forest fun hsup => (visit_supervisor _ ?_).trans hsup
    intro he
    simp [detaches,some.inj (he.symm.trans hsup)] at hd
  | dropPorts actor =>
    cases hs
    exact h
  | begin actor event =>
    obtain ⟨ha,rfl⟩:=hs.begin_eq
    by_cases hca : c=actor
    · subst hca
      unfold ExitsTo at h
      rw [ha] at h
      exact goto_exitsTo h
    · show (update s.cleanups actor _ c).ExitsTo p _ _ _
      rw [update_of_ne hca]
      exact h
  | resume actor order =>
    have hr:=resume_resumed hs
    by_cases hca : c=actor
    · subst hca
      exact h.resumed hr (detaches_resume hd) fun e => hn e order rfl
    · exact h.resumed_of_ne hr hca (detaches_resume hd)

/-! ### Before the cleanup -/

theorem Resumed.begun (h : s.Resumed c cleanup s') : (s'.cleanups c).begun=true := by
  have hat (cleanup : Cleanup Id Event) : update s.cleanups c cleanup c=cleanup := update_self ..
  cases h <;> exact (congrArg Cleanup.begun (hat _)).trans rfl

/-- Nobody hears of the exit of `c` before its cleanup has published `Stopping`. -/
theorem exitsOf_of_not_begun (h : Reachable Initial Step s) (c : Id)
    (hb : (s.cleanups c).begun=false) (q : Id) : s.exitsOf c q=[] := by
  revert q
  refine h.invariant (P:=fun s => (s.cleanups c).begun=false→∀q,s.exitsOf c q=[]) ?_ ?_ hb
  · rintro _ rfl _ q
    rfl
  · intro s label s' ih hs
    refine hs.elim (motive:=fun t => (t.cleanups c).begun=false→∀q,t.exitsOf c q=[])
      (fun _ _ => ih) ?_ ?_
    · intro actor event ha hb
      by_cases hca : c=actor
      · subst hca
        exact ih (by rw [ha]; rfl)
      · refine ih (Eq.trans ?_ hb)
        exact congrArg Cleanup.begun (update_of_ne hca _ _).symm
    · intro actor t hr hb
      by_cases hca : c=actor
      · subst hca
        exact nomatch hr.begun.symm.trans hb
      · rw [hr.exitsOf_of_ne hca]
        exact ih (by rw [← hr.cleanups_of_ne hca]; exact hb)

omit [DecidableEq Id] in
theorem Sound.stopping_le (h : s.Sound) (hb : (s.cleanups c).begun=true) :
    .stopping≤(s.forest c).status := by
  have ha:=h.achieved c
  cases hc : s.cleanups c with
  | armed | publishStopping =>
    rw [hc] at hb
    cases hb
  | done =>
    rw [hc] at ha
    rw [ha.1]
    decide
  | _ =>
    rw [hc] at ha
    exact ha.2.1

theorem not_begun_of_lt_stopping (h : Reachable Initial Step s)
    (hs : (s.forest c).status < .stopping) : (s.cleanups c).begun=false := by
  rw [← Bool.not_eq_true]
  exact fun hb => absurd ((sound_of_reachable h).stopping_le hb) (not_le_of_gt hs)

/-- An actor that has not published `Stopping` exits to the supervisor it has. -/
theorem exitsTo_of_lt_stopping (h : Reachable Initial Step s)
    (hs : (s.forest c).status < .stopping) (f : Forest Id) (hp : (f c).supervisor=some p) :
    ExitsTo {s with forest:=f} c p sent := by
  have hb:=not_begun_of_lt_stopping h hs
  have he:=exitsOf_of_not_begun h c hb
  unfold ExitsTo
  show (s.cleanups c).ExitsTo p (f c).supervisor sent (s.exitsOf c)
  cases hc : s.cleanups c with
  | armed | publishStopping => exact ⟨hp,he⟩
  | _ =>
    rw [hc] at hb
    cases hb

/-! ### After `Stopping` has been published -/

/-- The status of `c` is changed by `set_status` on `c` and by the cleanup of `c`. -/
theorem Step.status_eq (h : s.Step label s') (hset : ∀status,label≠.setStatus c status)
    (hres : ∀order,label≠.resume c order) : (s'.forest c).status=(s.forest c).status := by
  cases label with
  | link child supervisor =>
    cases h
    exact link_status s.forest child supervisor c
  | unlink child supervisor =>
    cases h
    exact unlink_status s.forest child supervisor c
  | setStatus actor status =>
    cases (ite_none_right_eq_some.mp h).2
    have hne : c≠actor:=fun he => hset status (he ▸ rfl)
    simp [hne]
  | kill actor =>
    cases h
    simp
  | visit actor =>
    cases h
    simp [visit_apply]
  | dropPorts actor =>
    cases h
    rfl
  | begin actor event =>
    obtain ⟨-,rfl⟩:=h.begin_eq
    rfl
  | resume actor order =>
    have hne : c≠actor:=fun he => hres order (he ▸ rfl)
    have hr:=resume_resumed h
    generalize s.cleanups actor=cleanup at hr
    cases hr with
    | stoppingPublished | stoppedPublished => simp [goto,hne]
    | visited => simp [goto,visit_apply]
    | unlinked supervisor => exact unlink_status s.forest actor supervisor c
    | _ => rfl

theorem Step.status_le (h : s.Step label s') (c : Id) :
    (s.forest c).status≤(s'.forest c).status := by
  by_cases hset : ∃status,label=.setStatus c status
  · obtain ⟨status,rfl⟩:=hset
    cases (ite_none_right_eq_some.mp h).2
    simp
  by_cases hres : ∃order,label=.resume c order
  · obtain ⟨order,rfl⟩:=hres
    have hr:=resume_resumed h
    generalize s.cleanups c=cleanup at hr
    cases hr with
    | stoppingPublished | stoppedPublished => simp [goto]
    | visited => simp [goto,visit_apply]
    | unlinked supervisor => exact (unlink_status s.forest c supervisor c).ge
    | _ => exact le_refl _
  · exact (h.status_eq (fun status he => hset ⟨status,he⟩) fun order he => hres ⟨order,he⟩).ge

/-- From `Draining` on no link is accepted. -/
theorem relinks_eq_false (h : .draining≤(s.forest c).status) (p : Id)
    (label : SupervisionStep Id Event) : s.relinks c p label=false := by
  cases label with
  | link child supervisor =>
    by_cases hc : child=c
    · subst hc
      simp [relinks,link_refused s.forest (.inl h)]
    · simp [relinks,hc]
  | _ => rfl

/-- An actor exits to the supervisor it has when it publishes `Stopping`. -/
theorem Step.exitsTo (hs : s.Step label s') (h : Reachable Initial Step s)
    (hlt : (s.forest c).status < .stopping) (hle : .stopping≤(s'.forest c).status)
    (hp : (s.forest c).supervisor=some p) : s'.ExitsTo c p sent := by
  have hto : s.ExitsTo c p sent:=exitsTo_of_lt_stopping h hlt s.forest hp
  by_cases hset : ∃status,label=.setStatus c status
  · obtain ⟨status,rfl⟩:=hset
    exact hto.step rfl rfl hs nofun
  by_cases hres : ∃order,label=.resume c order
  · obtain ⟨order,rfl⟩:=hres
    -- the cleanup has not got to its termination loop yet
    have hb:=not_begun_of_lt_stopping h hlt
    refine hto.step ?_ rfl hs fun e _ _ hc => ?_
    · simp only [detaches]
      split
      · next hc =>
        rw [hc] at hb
        cases hb
      · rfl
    · rw [hc] at hb
      cases hb
  · have he:=hs.status_eq (fun status he => hset ⟨status,he⟩) fun order he => hres ⟨order,he⟩
    rw [he] at hle
    exact absurd hle (not_le_of_gt hlt)

/-! ### Runs -/

section Runs
variable {guard : Supervision Id Event → SupervisionStep Id Event→Prop}

/-- On a run from `a` to `b` the cleanup of `c` sends the event to `p`, who receives it if `p` still
has its receiver then. -/
def SentIn (guard : Supervision Id Event → SupervisionStep Id Event → Prop)
    (a b : Supervision Id Event) (c p : Id) (event : Event) (received : List Event) : Prop :=
  ∃t order t',Reachable (· = a) (guarded guard Step) t ∧ t.cleanups c=.notify (some p) event ∧
    t.Step (.resume c order) t' ∧ Reachable (· = t') (guarded guard Step) b ∧
    received=if t.receiving p then [event] else []

/-- On a run from `a` to `b` the exit event of `c` is sent to `p`. From then on `p` has received it
once if `p` still had its receiver when it was sent, and otherwise not at all; nobody else ever
receives an exit event of `c`. -/
def NotifiedOnly (guard : Supervision Id Event → SupervisionStep Id Event → Prop)
    (a b : Supervision Id Event) (c p : Id) (event : Event) : Prop :=
  ∃received,SentIn guard a b c p event received ∧ ∀s',Reachable (· = b) Step s' →
    (∀q,q≠p → s'.exitsOf c q=[]) ∧ s'.exitsOf c p=received

theorem ExitsTo.run {a b : Supervision Id Event} (h : a.ExitsTo c p fun _ _ => False)
    (hg : ∀t label,Reachable (· = a) (guarded guard Step) t → guard t label →
      t.detaches c p label=false ∧ t.relinks c p label=false)
    (hb : Reachable (· = a) (guarded guard Step) b) : b.ExitsTo c p (SentIn guard a b c p) := by
  induction hb with
  | start he =>
    subst he
    exact Cleanup.ExitsTo.mono h id fun _ _ => False.elim
  | @next t label t' ht hs ih =>
    obtain ⟨hd,hl⟩:=hg t label ht hs.1
    have hm : t.ExitsTo c p (SentIn guard a t' c p) :=
      Cleanup.ExitsTo.mono ih id fun e l ⟨u,order,u',hu,hc,hn,hr,hl⟩ =>
        ⟨u,order,u',hu,hc,hn,hr.next hs,hl⟩
    refine hm.step hd hl hs.2 ?_
    rintro e order rfl hc
    exact ⟨t,order,t',ht,hc,hs.2,.start rfl,rfl⟩

/-- After the cleanup of `c` no exit event of `c` is sent. -/
theorem Step.exitsOf_done (h : s.Step label s') {event : Option Event}
    (hc : s.cleanups c=.done event) : s'.exitsOf c=s.exitsOf c := by
  refine h.elim (motive:=fun t => t.exitsOf c=s.exitsOf c) (fun _ _ => rfl)
    (fun _ _ _ => rfl) fun actor t hr => hr.exitsOf_of_ne ?_
  rintro rfl
  rw [hc] at hr
  cases hr

theorem ExitsTo.notifiedOnly {a : Supervision Id Event} (h : s.ExitsTo c p (SentIn guard a s c p))
    {event : Event} (hc : s.cleanups c=.done (some event)) : NotifiedOnly guard a s c p event := by
  unfold ExitsTo at h
  rw [hc] at h
  refine ⟨s.exitsOf c p,h.2 event rfl,fun s' hs' => ?_⟩
  have hl : s'.cleanups c=.done (some event) ∧ s'.exitsOf c=s.exitsOf c := by
    refine hs'.invariant
      (P:=fun t => t.cleanups c=.done (some event) ∧ t.exitsOf c=s.exitsOf c) ?_ ?_
    · rintro _ rfl
      exact ⟨hc,rfl⟩
    · rintro t label t' ⟨hd,he⟩ hs
      exact ⟨hs.cleanups_done hd,(hs.exitsOf_done hd).trans he⟩
  rw [hl.2]
  exact ⟨h.1,rfl⟩

end Runs

/-- The step neither unlinks `c` from `p` nor closes the child set of `p`. -/
abbrev Keeps (c p : Id) (s : Supervision Id Event) (label : SupervisionStep Id Event) : Prop :=
  s.detaches c p label=false

/-- Nor does it link `c` to another supervisor. -/
abbrev KeepsLinked (c p : Id) (s : Supervision Id Event) (label : SupervisionStep Id Event) : Prop :=
  s.detaches c p label=false ∧ s.relinks c p label=false

/-- An actor that has the supervisor `p` when it publishes `Stopping`, and is not unlinked from `p`
while `p` keeps its child set open, notifies nobody but `p` of its exit, and `p` receives the event
once if it still has its receiver when the event is sent, and otherwise not at all. A link to `p` that
is accepted takes effect before the exit event is sent, and `p` is the one to be notified unless the
actor is detached from `p` or linked elsewhere after that. -/
theorem exit_event_notifies_supervisor (c p : Id) (event : Event) :
    (∀(a₀ : Supervision Id Event) label a b,Reachable Initial Step a₀ → a₀.Step label a →
      (a₀.forest c).status < .stopping → .stopping≤(a.forest c).status →
      (a₀.forest c).supervisor=some p →
      Reachable (· = a) (guarded (Keeps c p) Step) b →
      b.cleanups c=.done (some event) → NotifiedOnly (Keeps c p) a b c p event) ∧
    (∀a a' : Supervision Id Event,Reachable Initial Step a → (a.forest.link c p).1=true →
      a.Step (.link c p) a' → (∀q,a.exitsOf c q=[]) ∧
      ∀b,Reachable (· = a') (guarded (KeepsLinked c p) Step) b →
        b.cleanups c=.done (some event) → NotifiedOnly (KeepsLinked c p) a' b c p event) := by
  constructor
  · intro a₀ label a b h hs hlt hle hp hb hdone
    have hto : a.ExitsTo c p fun _ _ => False:=hs.exitsTo h hlt hle hp
    refine (hto.run (fun t label ht hd => ⟨hd,?_⟩) hb).notifiedOnly hdone
    have hst:=ht.invariant (P:=fun t => .stopping≤(t.forest c).status) (fun _ he => he ▸ hle)
      fun t label t' hst hstep => hst.trans (hstep.2.status_le c)
    exact relinks_eq_false (le_trans (by decide) hst) p label
  · rintro a _ h hok ⟨⟩
    rcases a.forest.link_cases c p with he | ⟨hc,hs,children,ho⟩
    · rw [he] at hok
      cases hok
    · have hlt : (a.forest c).status < .stopping:=lt_trans hc (by decide)
      have hsup : ((a.forest.link c p).2 c).supervisor=some p := by
        rw [(a.forest.link_accepted c hc hs ho).2]
        simp
      have hto : ExitsTo {a with forest:=(a.forest.link c p).2} c p fun _ _ => False :=
        exitsTo_of_lt_stopping h hlt _ hsup
      refine ⟨exitsOf_of_not_begun h c (not_begun_of_lt_stopping h hlt),?_⟩
      exact fun b hb hdone => (hto.run (fun _ _ _ => id) hb).notifiedOnly hdone

def replayKeeping (c p : Id) (a : Supervision Id Event) (labels : List (SupervisionStep Id Event)) :
    Option (Supervision Id Event) :=
  execute (fun s label => if KeepsLinked c p s label then s.step label else none) a labels

theorem reachable_of_replayKeeping {a b : Supervision Id Event}
    {labels : List (SupervisionStep Id Event)} (h : replayKeeping c p a labels=some b) :
    Reachable (· = a) (guarded (KeepsLinked c p) Step) b :=
  Reachable.guarded_execute (fun _ _ _ hs => hs) labels (.start rfl) h

theorem guarded_of_replayKeeping {a b : Supervision Id Event}
    {labels : List (SupervisionStep Id Event)} (h : replayKeeping c p a labels=some b) :
    Reachable (· = a) (guarded (Keeps c p) Step) b :=
  (reachable_of_replayKeeping h).mono (fun _ he => he) fun _ _ _ hs => ⟨hs.1.1,hs.2⟩

/-- An actor that publishes `Stopping` notifies its supervisor, and one that is linked to another
supervisor after its cleanup has been called and before it publishes `Stopping` the new one. -/
theorem exit_event_notifies_supervisor_replayed :
    ∃a₀ a a' b b' : Supervision (Fin 3) ℕ,Reachable Initial Step a₀ ∧
      (a₀.forest 0).supervisor=some 1 ∧ a₀.Step (.resume 0 []) a ∧ b.exitsOf 0 1=[7] ∧
      NotifiedOnly (Keeps 0 1) a b 0 1 7 ∧ a₀.Step (.link 0 2) a' ∧ b'.exitsOf 0 2=[7] ∧
      NotifiedOnly (KeepsLinked 0 2) a' b' 0 2 7 := by
  obtain ⟨a₀,h₀,ht⟩:=exists_reachable [.link 0 1,.dropPorts 0,.begin 0 (some 7)]
    (fun a₀ : Supervision (Fin 3) ℕ =>
      decide ((a₀.forest 0).supervisor=some 1 ∧ (a₀.forest 0).status < .stopping) &&
      ((a₀.step (.resume 0 [])).any fun a : Supervision (Fin 3) ℕ =>
        decide (ActorStatus.stopping≤(a.forest 0).status) &&
        (replayKeeping 0 1 a (replicate 7 (.resume 0 []))).any fun b : Supervision (Fin 3) ℕ =>
            decide (b.cleanups 0=.done (some 7) ∧ b.exitsOf 0 1=[7])) &&
      (a₀.forest.link 0 2).1 &&
      (replayKeeping 0 2 {a₀ with forest:=(a₀.forest.link 0 2).2} (replicate 8 (.resume 0 []))).any
        fun b : Supervision (Fin 3) ℕ =>
          decide (b.cleanups 0=.done (some 7) ∧ b.exitsOf 0 2=[7]))
    (by decide +kernel)
  simp only [Bool.and_eq_true,decide_eq_true_eq] at ht
  obtain ⟨⟨⟨⟨hsup,hlt⟩,ha⟩,hok⟩,hb'⟩:=ht
  obtain ⟨a,hstep,ha⟩:=(any_eq_true _ _).mp ha
  obtain ⟨hle,hb⟩:=(Bool.and_eq_true_iff).mp ha
  obtain ⟨b,hb,hdone⟩:=(any_eq_true _ _).mp hb
  obtain ⟨b',hb',hdone'⟩:=(any_eq_true _ _).mp hb'
  obtain ⟨hdone,honce⟩:=of_decide_eq_true hdone
  obtain ⟨hdone',honce'⟩:=of_decide_eq_true hdone'
  refine ⟨a₀,a,_,b,b',h₀,hsup,hstep,honce,?_,rfl,honce',?_⟩
  · exact (exit_event_notifies_supervisor 0 1 7).1 a₀ _ a b h₀ hstep hlt (of_decide_eq_true hle)
      hsup (guarded_of_replayKeeping hb) hdone
  · exact ((exit_event_notifies_supervisor 0 2 7).2 a₀ _ h₀ hok rfl).2 b'
      (reachable_of_replayKeeping hb') hdone'

/-- The supervisor has left its loop and published `Stopping`, but not closed its child set yet,
when its child cleans up: nobody receives the exit event. -/
theorem exit_event_lost_on_leaving_supervisor :
    ∃a₀ a b : Supervision Bool ℕ,Reachable Initial Step a₀ ∧ a₀.Step (.resume false []) a ∧
      (a₀.forest false).status < .stopping ∧ .stopping≤(a.forest false).status ∧
      (a₀.forest false).supervisor=some true ∧
      Reachable (· = a) (guarded (fun s label => s.detaches false true label=false) Step) b ∧
      b.cleanups false=.done (some 7) ∧ b.exitsOf false true=[] := by
  obtain ⟨a₀,h₀,ht⟩:=exists_reachable
    [.link false true,.dropPorts true,.begin true (some 3),.resume true [],.dropPorts false,
      .begin false (some 7)]
    (fun a₀ : Supervision Bool ℕ =>
      decide ((a₀.forest false).supervisor=some true ∧ (a₀.forest false).status < .stopping) &&
      (a₀.step (.resume false [])).any fun a : Supervision Bool ℕ =>
        decide (ActorStatus.stopping≤(a.forest false).status) &&
        (replayKeeping false true a (replicate 7 (.resume false []))).any
          fun b : Supervision Bool ℕ =>
            decide (b.cleanups false=.done (some 7) ∧ b.exitsOf false true=[]))
    (by decide +kernel)
  simp only [Bool.and_eq_true,decide_eq_true_eq] at ht
  obtain ⟨⟨hsup,hlt⟩,ha⟩:=ht
  obtain ⟨a,hstep,ha⟩:=(any_eq_true _ _).mp ha
  obtain ⟨hle,hb⟩:=(Bool.and_eq_true_iff).mp ha
  obtain ⟨b,hb,hdone⟩:=(any_eq_true _ _).mp hb
  obtain ⟨hdone,hlost⟩:=of_decide_eq_true hdone
  exact ⟨a₀,a,b,h₀,hstep,hlt,of_decide_eq_true hle,hsup,guarded_of_replayKeeping hb,hdone,hlost⟩

end Supervision
end Ractor
