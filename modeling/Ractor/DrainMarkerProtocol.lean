import Ractor.SendOutcomes
import Ractor.ThreadTallies

/-!
# One drain marker, behind every message

The invariant of the admission word: it counts the calls that hold an admission, and its two flags
say whether the port is closed and whether some call has been elected to push the marker. While
the port is closed without admissions and nobody has been elected, some call is still going to look
at the word, so that the marker is not forgotten.
-/

namespace Ractor
open Function MuxedMessage Call List

variable {Thread Msg : Type}

def MuxedMessage.isDrain {α : Type} : MuxedMessage α → Bool
  | .drain => true
  | .message _ => false

namespace Call

def admitted : Option (Call Thread Msg) → Bool
  | some (.box ..) | some (.push ..) | some (.release ..) => true
  | _ => false

/-- The call has set `DRAIN_MARKER_SENT` and is about to push the marker. -/
def elected : Option (Call Thread Msg) → Bool
  | some (.pushMarker _) => true
  | _ => false

/-- The call is going to look at the admission word again, or tries to set `DRAIN_MARKER_SENT` on
the word of a closed port without admissions. -/
def attends : Option (Call Thread Msg) → Prop
  | some .publishDraining | some (.loadMarker _) => True
  | some (.mark _ state) => state=flagged true false 0
  | _ => False

end Call

variable {i : Thread} {c : Option (Call Thread Msg)} {e : Envelope Thread Msg}

namespace Mailbox
variable [Fintype Thread]

def admissions (s : Mailbox Thread Msg) : ℕ:=tally admitted s.calls

/-- The calls that are about to push the marker and the markers pushed. -/
def markers (s : Mailbox Thread Msg) : ℕ :=
  tally elected s.calls+s.pushed.countP isDrain

/-- The admission word counts the admissions, and the flags in it say how far draining is. -/
structure Protocol (s : Mailbox Thread Msg) (closed sent : Bool) : Prop where
  word : s.admission=flagged closed sent s.admissions
  sent_closed : sent=true → closed=true ∧ s.admissions=0
  markers_le : s.markers ≤ sent.toNat
  le_markers : s.receiverAlive=true → sent.toNat ≤ s.markers
  last : .drain∉s.pushed.dropLast
  attended : closed=true → sent=false → s.admissions=0 → ∃i,attends (s.calls i)
  called : s.drainCalled=true → closed=true ∨ ∃i,s.calls i=some .closeAdmission

variable {s s' : Mailbox Thread Msg} {closed sent : Bool}

/-- The counter does not run into the flags. -/
theorem admissions_lt (hc : Fintype.card Thread<2^62) (s : Mailbox Thread Msg) :
    s.admissions<2^62 :=
  Nat.lt_of_le_of_lt (tally_le_card _ _) hc

/-- Nothing is pushed after the marker: before a push there is none. -/
theorem Protocol.drain_notMem (h : s.Protocol closed sent)
    (hs : sent=false ∨ 0<tally elected s.calls) : .drain∉s.pushed := by
  intro hd
  have hp : 0<s.pushed.countP isDrain:=countP_pos_iff.mpr ⟨_,hd,rfl⟩
  have hm:=h.markers_le
  have hs':=Bool.toNat_le sent
  unfold markers at hm
  rcases hs with rfl | hs
  · rw [Bool.toNat_false] at hm
    omega
  · omega

variable [DecidableEq Thread]

theorem admissions_update (hc : s'.calls=update s.calls i c) :
    s'.admissions+(admitted (s.calls i)).toNat=s.admissions+(admitted c).toNat := by
  unfold admissions
  rw [hc]
  exact tally_update _ _ _ _

theorem markers_update (hc : s'.calls=update s.calls i c)
    {pushed : List (MuxedMessage (Envelope Thread Msg))} (hp : s'.pushed=s.pushed++pushed) :
    s'.markers+(elected (s.calls i)).toNat = s.markers+(elected c).toNat+pushed.countP isDrain := by
  have h:=tally_update elected s.calls i c
  unfold markers
  rw [hc,hp,countP_append]
  omega

omit [Fintype Thread] in
/-- A thread that attends keeps attending while other threads move. -/
theorem attends_update (hc : s'.calls=update s.calls i c)
    (h : ∃j,attends (s.calls j)) (hi : attends (s.calls i)→attends c) :
    ∃j,attends (s'.calls j) := by
  obtain ⟨j,hj⟩:=h
  rw [hc]
  by_cases hji : j=i
  · subst hji
    exact ⟨j,by rw [update_self]; exact hi hj⟩
  · exact ⟨j,by rwa [update_of_ne hji]⟩

omit [Fintype Thread] in
/-- A drainer that has not closed the admission yet stays where it is while other threads move. -/
theorem closing_update (hc : s'.calls=update s.calls i c)
    (hi : s.calls i=some .closeAdmission→closed=true)
    (h : closed=true ∨ ∃j,s.calls j=some .closeAdmission) :
    closed=true ∨ ∃j,s'.calls j=some .closeAdmission := by
  rcases h with h | ⟨j,hj⟩
  · exact .inl h
  · by_cases hji : j=i
    · subst hji
      exact .inl (hi hj)
    · exact .inr ⟨j,by rw [hc,update_of_ne hji]; exact hj⟩

/-- A call moves on, begins or ends without touching the admission word or the channel. -/
theorem Protocol.replace (h : s.Protocol closed sent) {call : Option (Call Thread Msg)}
    (hi : s.calls i=call) (hc : s'.calls=update s.calls i c)
    (hw : s'.admission=s.admission) (hp : s'.pushed=s.pushed)
    (hr : s'.receiverAlive=s.receiverAlive)
    (admitted : admitted c=admitted call) (elected : elected c=elected call)
    (attends : s.admission=flagged true false 0→attends call→attends c)
    (called : s'.drainCalled=true →
      s.drainCalled=true ∧ call≠some .closeAdmission ∨ c=some .closeAdmission) :
    s'.Protocol closed sent := by
  rw [← hi] at admitted elected attends
  have ha : s'.admissions=s.admissions := by
    unfold admissions
    rw [hc]
    exact tally_update_of_eq admitted
  have hm : s'.markers=s.markers := by
    unfold markers
    rw [hc,hp,tally_update_of_eq elected]
  refine ⟨by rw [hw,ha]; exact h.word,by rw [ha]; exact h.sent_closed,by rw [hm]; exact h.markers_le,
    by rw [hm,hr]; exact h.le_markers,by rw [hp]; exact h.last,?_,?_⟩
  · intro hcl hs hz
    rw [ha] at hz
    refine attends_update hc (h.attended hcl hs hz) (attends ?_)
    rw [h.word,hcl,hs,hz]
  · intro hca
    rcases called hca with ⟨hca,hne⟩ | rfl
    · exact closing_update hc (fun hcl => absurd (hi.symm.trans hcl) hne) (h.called hca)
    · exact .inr ⟨i,by rw [hc,update_self]⟩

/-! ### The steps on the admission word and the channel -/

/-- The port is open, so nobody has drained it: one more admission. -/
theorem Protocol.tryAdmit (hcard : Fintype.card Thread<2^62) (h : s.Protocol closed sent)
    {kind : SendKind} (hi : s.calls i=some (.tryAdmit kind e s.admission))
    (ho : s.admission &&& messageAdmissionClosed=0) :
    ({s with admission:=s.admission+1}.goto i (.box kind e)).Protocol closed sent := by
  obtain rfl : closed=false := by
    rw [h.word] at ho
    exact (flagged_and_highFlag _ _ _).mp ho
  obtain rfl : sent=false := by
    cases sent with
    | false => rfl
    | true => cases (h.sent_closed rfl).1
  set s':={s with admission:=s.admission+1}.goto i (.box kind e)
  have hc : s'.calls=update s.calls i (some (.box kind e)):=rfl
  have ha : s'.admissions=s.admissions+1 := by
    have:=admissions_update hc
    rwa [hi] at this
  have hm : s'.markers=s.markers := by
    have:=markers_update hc (append_nil _).symm
    rwa [hi] at this
  refine ⟨?_,nofun,by rw [hm]; exact h.markers_le,fun _ => Nat.zero_le _,h.last,nofun,?_⟩
  · rw [ha,← flagged_add_one _ _ (by rw [← ha]; exact admissions_lt hcard s'),← h.word]
    rfl
  · exact fun hca => closing_update hc (by rw [hi]; nofun) (h.called hca)

/-- An admitted send pushes: the marker is not there yet. -/
theorem Protocol.push (h : s.Protocol closed sent) (hi : s.calls i=some (.push e)) :
    ({s with pushed:=s.pushed++[MuxedMessage.message e]}.goto i (.release e (.ok ()))).Protocol
      closed sent := by
  have hpos : 0<s.admissions:=tally_pos (i:=i) (by rw [hi]; rfl)
  obtain rfl : sent=false := by
    cases sent with
    | false => rfl
    | true =>
      have:=(h.sent_closed rfl).2
      omega
  set s':={s with pushed:=s.pushed++[MuxedMessage.message e]}.goto i (.release e (.ok ()))
  have hc : s'.calls=update s.calls i (some (.release e (.ok ()))):=rfl
  have ha : s'.admissions=s.admissions := by
    have:=admissions_update hc
    rw [hi] at this
    exact Nat.add_right_cancel this
  have hm : s'.markers=s.markers := by
    have hp : s'.pushed=s.pushed++[MuxedMessage.message e]:=rfl
    have:=markers_update hc hp
    rwa [hi] at this
  refine ⟨by rw [ha]; exact h.word,nofun,by rw [hm]; exact h.markers_le,
    fun _ => Nat.zero_le _,?_,?_,?_⟩
  · show MuxedMessage.drain∉(s.pushed++[MuxedMessage.message e]).dropLast
    rw [List.dropLast_concat]
    exact h.drain_notMem (.inl rfl)
  · intro _ _ hz
    omega
  · exact fun hca => closing_update hc (by rw [hi]; nofun) (h.called hca)

/-- An admission is given back. The last one to go after the port was closed sees to the marker. -/
theorem Protocol.release (hcard : Fintype.card Thread<2^62) (h : s.Protocol closed sent)
    {result : Except (MessagingErr Msg) Unit} (hi : s.calls i=some (.release e result))
    (hc : s'.calls=update s.calls i c) (hw : s'.admission=s.admission - 1)
    (hp : s'.pushed=s.pushed) (hd : s'.drainCalled=s.drainCalled)
    (hadm : admitted c=false) (he : elected c=false)
    (attends : s.admission &&& messageAdmissionClosed≠0 →
      s.admission &&& messageAdmissionCountMask=1→attends c) :
    s'.Protocol closed sent := by
  have ha : s.admissions=s'.admissions+1 := by
    have:=admissions_update hc
    rw [hi,hadm] at this
    exact this.symm
  have hlt:=admissions_lt hcard s
  obtain rfl : sent=false := by
    cases sent with
    | false => rfl
    | true =>
      have:=(h.sent_closed rfl).2
      omega
  have hm : s'.markers=s.markers := by
    have:=markers_update hc (hp.trans (append_nil _).symm)
    rw [hi,he] at this
    exact this
  refine ⟨?_,nofun,by rw [hm]; exact h.markers_le,fun _ => Nat.zero_le _,
    by rw [hp]; exact h.last,?_,?_⟩
  · rw [hw,h.word,ha,flagged_sub_one _ _ (by rwa [← ha])]
  · rintro rfl _ hz
    refine ⟨i,?_⟩
    rw [hc,update_self]
    apply attends
    · rw [h.word]
      exact fun hf => nomatch (flagged_and_highFlag _ _ _).mp hf
    · rw [h.word]
      exact (flagged_and_countMask_eq_one _ _ (by omega) hlt).mpr (by omega)
  · rw [hd]
    exact fun hca => closing_update hc (by rw [hi]; nofun) (h.called hca)

/-- Draining closes the port; the drainer looks at the word afterwards. -/
theorem Protocol.closeAdmission (h : s.Protocol closed sent) (hi : s.calls i=some .closeAdmission) :
    ({s with admission:=s.admission ||| messageAdmissionClosed}.goto i
      .publishDraining).Protocol true sent := by
  set s':={s with admission:=s.admission ||| messageAdmissionClosed}.goto i .publishDraining
  have hc : s'.calls=update s.calls i (some .publishDraining):=rfl
  have ha : s'.admissions=s.admissions := by
    have:=admissions_update hc
    rwa [hi] at this
  have hm : s'.markers=s.markers := by
    have:=markers_update hc (append_nil _).symm
    rwa [hi] at this
  refine ⟨?_,fun hs => ⟨rfl,ha.trans (h.sent_closed hs).2⟩,by rw [hm]; exact h.markers_le,
    by rw [hm]; exact h.le_markers,h.last,fun _ _ _ => ⟨i,?_⟩,fun _ => .inl rfl⟩
  · show s.admission ||| messageAdmissionClosed=_
    rw [ha,h.word]
    exact flagged_or_highFlag _ _ _
  · rw [hc,update_self]
    trivial

/-- Setting `DRAIN_MARKER_SENT` elects the call. -/
theorem Protocol.mark (hca : Fintype.card Thread<2^62) (h : s.Protocol closed sent)
    {sender : MarkerSender Thread Msg} (hi : s.calls i=some (.mark sender s.admission))
    (hcl : s.admission &&& messageAdmissionClosed≠0)
    (hco : s.admission &&& messageAdmissionCountMask=0)
    (hs : s.admission &&& drainMarkerSent=0) :
    ({s with admission:=s.admission ||| drainMarkerSent}.goto i (.pushMarker sender)).Protocol
      closed true := by
  rw [h.word] at hcl hco hs
  obtain rfl : closed=true := by
    rw [← Bool.not_eq_false]
    exact fun hf => hcl ((flagged_and_highFlag _ _ _).mpr hf)
  obtain rfl : sent=false:=(flagged_and_lowFlag _ _ _).mp hs
  have hz : s.admissions=0 := (flagged_and_countMask_eq_zero _ _ (admissions_lt hca s)).mp hco
  set s':={s with admission:=s.admission ||| drainMarkerSent}.goto i (.pushMarker sender)
  have hc : s'.calls=update s.calls i (some (.pushMarker sender)):=rfl
  have ha : s'.admissions=0 := by
    have:=admissions_update hc
    rw [hi,hz] at this
    exact this
  have hm : s'.markers=s.markers+1 := by
    have:=markers_update hc (append_nil _).symm
    rwa [hi] at this
  have hle:=h.markers_le
  refine ⟨?_,fun _ => ⟨rfl,ha⟩,?_,?_,h.last,nofun,fun _ => .inl rfl⟩
  · show s.admission ||| drainMarkerSent=_
    rw [ha,h.word,hz]
    exact flagged_or_lowFlag _ _ _
  · rw [Bool.toNat_false] at hle
    rw [hm,Bool.toNat_true]
    omega
  · intro _
    rw [hm,Bool.toNat_true]
    omega

/-- The elected call pushes the only marker. -/
theorem Protocol.pushMarker (h : s.Protocol closed sent) {sender : MarkerSender Thread Msg}
    (hi : s.calls i=some (.pushMarker sender)) (hc : s'.calls=update s.calls i none)
    (hw : s'.admission=s.admission)
    (hp : s'.pushed=s.pushed++(if s.receiverAlive then [.drain] else []))
    (hr : s'.receiverAlive=s.receiverAlive) (hd : s'.drainCalled=s.drainCalled) :
    s'.Protocol closed sent := by
  have hpos : 0<tally elected s.calls:=tally_pos (i:=i) (by rw [hi]; rfl)
  have hle:=h.markers_le
  have hge:=h.le_markers
  have ha : s'.admissions=s.admissions := by
    have:=admissions_update hc
    rwa [hi] at this
  have hm:=markers_update hc hp
  rw [hi] at hm
  change s'.markers+1=s.markers+0+_ at hm
  refine ⟨by rw [hw,ha]; exact h.word,by rw [ha]; exact h.sent_closed,?_,?_,?_,?_,?_⟩
  · split at hm
    · change _=_+1 at hm
      omega
    · change _=_+0 at hm
      omega
  · intro hr'
    rw [hr] at hr'
    rw [if_pos hr'] at hm
    change _=_+1 at hm
    have:=hge hr'
    omega
  · rw [hp]
    split
    · rw [List.dropLast_concat]
      exact h.drain_notMem (.inr hpos)
    · rw [append_nil]
      exact h.last
  · intro hcl hs hz
    rw [ha] at hz
    exact attends_update hc (h.attended hcl hs hz) (by rw [hi]; exact False.elim)
  · rw [hd]
    exact fun hca => closing_update hc (by rw [hi]; nofun) (h.called hca)

/-! ### Runs -/

omit [Fintype Thread] in
theorem answerMarker_frame (s : Mailbox Thread Msg) (i : Thread)
    (result : Except (MessagingErr Unit) Unit) (sender : MarkerSender Thread Msg) :
    (s.answerMarker i result sender).calls=update s.calls i none ∧
      (s.answerMarker i result sender).admission=s.admission ∧
      (s.answerMarker i result sender).pushed=s.pushed ∧
      (s.answerMarker i result sender).receiverAlive=s.receiverAlive ∧
      (s.answerMarker i result sender).drainCalled=s.drainCalled := by
  cases sender <;> exact ⟨rfl,rfl,rfl,rfl,rfl⟩

theorem Protocol.resumed (hca : Fintype.card Thread<2^62) (h : s.Protocol closed sent)
    {call : Call Thread Msg} (hi : s.calls i=some call) (hr : s.Resumed i call s') :
    ∃closed sent,s'.Protocol closed sent := by
  cases hr with
  | statusRejected | statusRead | admissionLoaded | rejected | notAdmitted | notBoxed | boxed
  | notPushed =>
    exact ⟨closed,sent,h.replace hi rfl rfl rfl rfl rfl rfl nofun fun hca => .inl ⟨hca,nofun⟩⟩
  | admitted kind e ho => exact ⟨closed,sent,h.tryAdmit hca hi ho⟩
  | pushed e hr => exact ⟨closed,sent,h.push hi⟩
  | releasedLast e result =>
    exact ⟨closed,sent,h.release hca hi rfl rfl rfl rfl rfl rfl fun _ _ => trivial⟩
  | released e result hl =>
    exact ⟨closed,sent,h.release hca hi rfl rfl rfl rfl rfl rfl fun hc hone => absurd ⟨hc,hone⟩ hl⟩
  | admissionClosed => exact ⟨true,sent,h.closeAdmission hi⟩
  | drainingPublished =>
    exact ⟨closed,sent,h.replace hi rfl rfl rfl rfl rfl rfl (fun _ _ => trivial)
      fun hca => .inl ⟨hca,nofun⟩⟩
  | markerLoaded | notMarked =>
    exact ⟨closed,sent,h.replace hi rfl rfl rfl rfl rfl rfl (fun hw _ => hw)
      fun hca => .inl ⟨hca,nofun⟩⟩
  | noMarker sender state hs =>
    obtain ⟨hc,hw,hp,hr,hd⟩:=answerMarker_frame s i (.ok ()) sender
    refine ⟨closed,sent,h.replace hi hc hw hp hr rfl rfl (fun _ hgo => ?_)
      fun hca => .inl ⟨hd.symm.trans hca,nofun⟩⟩
    -- a call that attends has read a word that does not make it return
    obtain rfl : state=flagged true false 0:=hgo
    rcases hs with hst | hst | hst
    · cases (flagged_and_highFlag _ _ _).mp hst
    · exact absurd ((flagged_and_countMask_eq_zero _ _ (Nat.two_pow_pos _)).mpr rfl) hst
    · exact absurd ((flagged_and_lowFlag _ _ _).mpr rfl) hst
  | marked sender hgo =>
    rw [not_or,not_or,not_not,not_not] at hgo
    exact ⟨closed,true,h.mark hca hi hgo.1 hgo.2.1 hgo.2.2⟩
  | markerPushed sender result =>
    obtain ⟨hc,hw,hp,hr,hd⟩:=answerMarker_frame (s.push .drain) i result sender
    rw [push_eq] at hc hw hp hr hd ⊢
    exact ⟨closed,sent,h.pushMarker hi hc hw hp hr hd⟩

theorem Protocol.step (hc : Fintype.card Thread<2^62) (h : s.Protocol closed sent)
    {event : MailboxEvent Thread Msg} (hs : s.Step event s') :
    ∃closed sent,s'.Protocol closed sent := by
  refine hs.elim (P:=fun s' => ∃closed sent,s'.Protocol closed sent) ?_ ?_ ?_ ?_ ?_
  · exact fun i kind message hi =>
      ⟨closed,sent,h.replace hi rfl rfl rfl rfl rfl rfl nofun fun hca => .inl ⟨hca,nofun⟩⟩
  · exact fun i hi => ⟨closed,sent,h.replace hi rfl rfl rfl rfl rfl rfl nofun fun _ => .inr rfl⟩
  · exact fun i call next hi hr => h.resumed hc hi hr
  · exact fun _ => ⟨closed,sent,h.word,h.sent_closed,h.markers_le,h.le_markers,h.last,
      h.attended,h.called⟩
  · exact ⟨closed,sent,h.word,h.sent_closed,h.markers_le,nofun,h.last,h.attended,h.called⟩

theorem protocol_of_reachable (hc : Fintype.card Thread<2^62)
    (h : Reachable Initial Step s) : ∃closed sent,s.Protocol closed sent := by
  refine h.invariant (P:=fun s => ∃closed sent,s.Protocol closed sent) ?_
    fun _ _ _ ⟨_,_,hp⟩ hs => hp.step hc hs
  rintro _ rfl
  have ha : ({} : Mailbox Thread Msg).admissions=0:=tally_eq_zero fun _ => rfl
  have hm : ({} : Mailbox Thread Msg).markers=0 := by
    unfold markers
    rw [tally_eq_zero fun _ => rfl]
    rfl
  refine ⟨false,false,?_,nofun,by rw [hm]; exact Nat.le_refl _,fun _ => Nat.zero_le _,nofun,
    nofun,nofun⟩
  rw [ha]
  exact ((flagged_eq_zero (Nat.two_pow_pos 62)).mpr ⟨rfl,rfl,rfl⟩).symm

omit [DecidableEq Thread] in
/-- The marker is the last entry of the channel. -/
theorem Protocol.eq_nil_of_drain (h : s.Protocol closed sent)
    {l r : List (MuxedMessage (Envelope Thread Msg))} (he : s.pushed=l++.drain::r) :
    r=[] := by
  rcases eq_nil_or_concat r with rfl | ⟨r,m,rfl⟩
  · rfl
  · have hl:=h.last
    rw [he,concat_eq_append,← cons_append,← append_assoc,List.dropLast_concat] at hl
    exact absurd (mem_append_right l mem_cons_self) hl

omit [DecidableEq Thread] in
/-- A drained port without calls in progress has its marker. -/
theorem Protocol.countP_isDrain (h : s.Protocol closed sent) (alive : s.receiverAlive=true)
    (hid : ∀i,s.calls i=none) (hca : s.drainCalled=true) :
    s.pushed.countP isDrain=1 := by
  have hz : s.admissions=0:=tally_eq_zero fun i => by rw [hid i]; rfl
  have he : tally elected s.calls=0:=tally_eq_zero fun i => by rw [hid i]; rfl
  obtain rfl : closed=true := by
    rcases h.called hca with hc | ⟨i,hi⟩
    · exact hc
    · exact nomatch (hid i).symm.trans hi
  obtain rfl : sent=true := by
    cases sent with
    | true => rfl
    | false =>
      obtain ⟨i,hi⟩:=h.attended rfl rfl hz
      rw [hid i] at hi
      exact hi.elim
  have hle:=h.markers_le
  have hge:=h.le_markers alive
  unfold markers at hle hge
  rw [he,Bool.toNat_true] at hle hge
  omega

/-- Any number of threads that send and drain in any interleaving push at most one marker and no
message behind it; a send returns `Ok` exactly when its message went into the channel, before the
marker; and when a `drain` has been called and no call is in progress, the marker is there. -/
theorem drain_marker_protocol (hcard : Fintype.card Thread<2^62)
    (h : Reachable Initial Step s) (alive : s.receiverAlive=true) :
    s.pushed.countP isDrain≤1 ∧ (∀l r,s.pushed=l++.drain::r → r=[]) ∧
      (∀e result,.send e result∈s.returned → (result=.ok () ↔ .message e∈s.pushed) ∧
        (result=.ok () → ∀l r,s.pushed=l++.drain::r → .message e∈l)) ∧
      ((∀i,s.calls i=none) → s.drainCalled=true → s.pushed.countP isDrain=1) := by
  obtain ⟨closed,sent,hp⟩:=protocol_of_reachable hcard h
  have ha:=accounted_of_reachable h
  have hle:=hp.markers_le.trans (Bool.toNat_le sent)
  refine ⟨?_,fun l r => hp.eq_nil_of_drain,?_,?_⟩
  · unfold markers at hle
    omega
  · intro e result he
    have hiff:=(ha.returned_iff he).trans mem_messages
    refine ⟨hiff,fun hok l r hlr => ?_⟩
    have hm:=hiff.mp hok
    rw [hlr,hp.eq_nil_of_drain hlr,mem_append,mem_singleton] at hm
    rcases hm with hm | hm
    · exact hm
    · cases hm
  · exact hp.countP_isDrain alive

/-- A drainer closes the port under a sender that has been admitted: the sender pushes its message
and then the marker. -/
theorem drain_marker_protocol_replayed :
    ∃s : Mailbox Bool ℕ,Reachable Initial Step s ∧ s.receiverAlive=true ∧
      s.pushed=[.message ⟨false,0,7⟩,.drain] ∧ (∀i,s.calls i=none) ∧
      s.drainCalled=true ∧ s.pushed.countP isDrain=1 := by
  obtain ⟨s,hs,ht⟩:=exists_reachable
    [.send false .unchecked 7,.resume false false,.resume false false,.resume false false,
      .drain true,.resume true false,.resume true false,.resume true false,.resume true false,
      .resume false false,.resume false false,.resume false false,.resume false false,
      .resume false false,.resume false false]
    (fun s : Mailbox Bool ℕ => s.receiverAlive &&
      decide (s.pushed=[.message ⟨false,0,7⟩,.drain]) && (s.calls false).isNone &&
        (s.calls true).isNone && s.drainCalled)
    (by decide +kernel)
  simp only [Bool.and_eq_true,decide_eq_true_eq,Option.isNone_iff_eq_none] at ht
  obtain ⟨⟨⟨⟨alive,hp⟩,hf⟩,ht⟩,hd⟩:=ht
  have hidle : ∀i,s.calls i=none:=Bool.forall_bool.mpr ⟨hf,ht⟩
  exact ⟨s,hs,alive,hp,hidle,hd,(drain_marker_protocol (by decide) hs alive).2.2.2 hidle hd⟩

end Mailbox
end Ractor
