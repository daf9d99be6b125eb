import Ractor.MessageAdmission
import Mathlib.Tactic.Set

/-!
# What a send returns

A send returns `Ok` exactly when its message went into the channel, and no message goes in twice.
The bookkeeping follows each call from its first operation to its answer: as long as the outcome of
a send is open its message has not been pushed, and once it is decided the call carries the result.
-/

namespace Ractor
open Function List MuxedMessage

variable {Thread Msg : Type}

def MuxedMessage.message? {α : Type} : MuxedMessage α → Option α
  | .drain => none
  | .message m => some m

/-- The send a call belongs to, with its result once that is decided. -/
def Call.sending :
    Call Thread Msg → Option (Envelope Thread Msg × Option (Except (MessagingErr Msg) Unit))
  | .readStatus _ e | .loadAdmission _ e | .tryAdmit _ e _ | .box _ e | .push e => some (e,none)
  | .release e result => some (e,some result)
  | .loadMarker (.send e result) | .mark (.send e result) _ | .pushMarker (.send e result) =>
    some (e,some result)
  | _ => none

variable {e : Envelope Thread Msg} {i : Thread} {call : Call Thread Msg}

namespace Mailbox

def messages (s : Mailbox Thread Msg) : List (Envelope Thread Msg) :=
  s.pushed.filterMap message?

theorem mem_messages {s : Mailbox Thread Msg} : e∈s.messages ↔ .message e∈s.pushed := by
  unfold messages
  rw [mem_filterMap]
  constructor
  · rintro ⟨m,hm,he⟩
    cases m with
    | drain => cases he
    | message e' =>
      cases he
      exact hm
  · exact fun h => ⟨_,h,rfl⟩

/-- A send of thread `i` that has not returned. -/
structure Pending (s : Mailbox Thread Msg) (i : Thread) (e : Envelope Thread Msg)
    (outcome : Option (Except (MessagingErr Msg) Unit)) : Prop where
  sender : e.sender=i
  number : e.number+1=s.sends i
  pushed_iff : e∈s.messages ↔ outcome=some (.ok ())
  unanswered : ∀result,.send e result∉s.returned

structure Accounted (s : Mailbox Thread Msg) : Prop where
  pending : ∀{i call e outcome},s.calls i=some call → call.sending=some (e,outcome) →
    s.Pending i e outcome
  pushed_number : ∀e∈s.messages,e.number<s.sends e.sender
  returned_number : ∀{e result},.send e result∈s.returned → e.number<s.sends e.sender
  returned_iff : ∀{e result},.send e result∈s.returned → (result=.ok () ↔ e∈s.messages)
  nodup : s.messages.Nodup

section
variable {s s' : Mailbox Thread Msg} (h : s.Accounted)
include h

/-- The account depends on the calls, the messages and the answers only. -/
theorem Accounted.congr (hc : s'.calls=s.calls) (hn : s'.sends=s.sends)
    (hm : s'.messages=s.messages) (hr : s'.returned=s.returned) : s'.Accounted := by
  refine ⟨fun hi hs => ?_,by rw [hm,hn]; exact h.pushed_number,
    by rw [hr,hn]; exact h.returned_number,by rw [hr,hm]; exact h.returned_iff,
    by rw [hm]; exact h.nodup⟩
  rw [hc] at hi
  have hp:=h.pending hi hs
  exact ⟨hp.sender,by rw [hn]; exact hp.number,by rw [hm]; exact hp.pushed_iff,
    by rw [hr]; exact hp.unanswered⟩

theorem Accounted.push_drain : (s.push .drain).Accounted := by
  unfold Mailbox.push
  split
  · refine h.congr rfl rfl ?_ rfl
    show filterMap _ (s.pushed++_)=_
    rw [filterMap_append]
    exact append_nil _
  · exact h

variable [DecidableEq Thread]

/-- The sends of other threads do not notice a step that leaves their messages and answers alone. -/
theorem Accounted.pending_update {c : Option (Call Thread Msg)} (hc : s'.calls=update s.calls i c)
    (hi : ∀{call e outcome},c=some call→call.sending=some (e,outcome) → s'.Pending i e outcome)
    (others : ∀{j e outcome},j≠i→s.Pending j e outcome→s'.Pending j e outcome) {j : Thread}
    {outcome : Option (Except (MessagingErr Msg) Unit)} (hj : s'.calls j=some call)
    (hs : call.sending=some (e,outcome)) : s'.Pending j e outcome := by
  rw [hc] at hj
  by_cases hji : j=i
  · subst hji
    rw [update_self] at hj
    exact hi hj hs
  · rw [update_of_ne hji] at hj
    exact others hji (h.pending hj hs)

/-- A call moves on: the messages pushed and the answers stay, and the result of the send stays
open, is carried on, or is decided to be an error. -/
theorem Accounted.move (hi : s.calls i=some call) {c : Call Thread Msg}
    (hc : s'.calls=update s.calls i (some c)) (hn : s'.sends=s.sends)
    (hm : s'.messages=s.messages) (hr : s'.returned=s.returned)
    (hs : ∀{e outcome},c.sending=some (e,outcome)→∃outcome',call.sending=some (e,outcome') ∧
        (outcome=some (.ok ()) ↔ outcome'=some (.ok ()))) : s'.Accounted := by
  have others {j e outcome} (hp : s.Pending j e outcome) : s'.Pending j e outcome :=
    ⟨hp.sender,by rw [hn]; exact hp.number,by rw [hm]; exact hp.pushed_iff,
      by rw [hr]; exact hp.unanswered⟩
  refine ⟨h.pending_update hc ?_ fun _ => others,by rw [hm,hn]; exact h.pushed_number,
    by rw [hr,hn]; exact h.returned_number,by rw [hr,hm]; exact h.returned_iff,
    by rw [hm]; exact h.nodup⟩
  rintro _ e outcome ⟨⟩ he
  obtain ⟨outcome',hca,hiff⟩:=hs he
  have hp:=others (h.pending hi hca)
  exact ⟨hp.sender,hp.number,hp.pushed_iff.trans hiff.symm,hp.unanswered⟩

theorem Accounted.push (hi : s.calls i=some (.push e)) :
    ({s with pushed:=s.pushed++[message e]}.goto i (.release e (.ok ()))).Accounted := by
  have hp:=h.pending hi rfl
  have hnew : e∉s.messages:=fun hm => nomatch hp.pushed_iff.mp hm
  set s':={s with pushed:=s.pushed++[message e]}.goto i (.release e (.ok ()))
  have hm : s'.messages=s.messages++[e] := by
    show filterMap _ (s.pushed++[message e])=_
    rw [filterMap_append]
    rfl
  have hc : s'.calls=update s.calls i (some (.release e (.ok ()))):=rfl
  refine ⟨h.pending_update hc ?_ ?_,?_,h.returned_number,?_,?_⟩
  · rintro call e' outcome ⟨⟩ ⟨⟩
    exact ⟨hp.sender,hp.number,by simp [hm],hp.unanswered⟩
  · intro j e' outcome hj hp'
    have hne : e'≠e := by
      rintro rfl
      exact hj (hp'.sender.symm.trans hp.sender)
    exact ⟨hp'.sender,hp'.number,by simpa [hm,hne] using hp'.pushed_iff,hp'.unanswered⟩
  · intro e' he'
    rw [hm,mem_append,mem_singleton] at he'
    rcases he' with he' | rfl
    · exact h.pushed_number _ he'
    · show e'.number<s.sends e'.sender
      rw [hp.sender,← hp.number]
      exact Nat.lt_succ_self _
  · intro e' result hr
    have hne : e'≠e := by
      rintro rfl
      exact hp.unanswered result hr
    simpa [hm,hne] using h.returned_iff hr
  · rw [hm]
    exact nodup_append.mpr ⟨h.nodup,pairwise_singleton _ _,by
      rintro a ha b hb rfl
      exact hnew (mem_singleton.mp hb ▸ ha)⟩

theorem Accounted.answer (hi : s.calls i=some call)
    (hc : s'.calls=update s.calls i none) (hn : s'.sends=s.sends)
    (hm : s'.messages=s.messages) {reply : Answer Thread Msg}
    (hr : s'.returned=s.returned++[reply])
    (hs : ∀{e result},reply=.send e result→∃outcome,
      call.sending=some (e,outcome) ∧ (result=.ok () ↔ outcome=some (.ok ()))) :
    s'.Accounted := by
  have returned {e result} (he : .send e result∈s'.returned) :
      .send e result∈s.returned ∨ ∃outcome,s.Pending i e outcome ∧
        (result=.ok () ↔ outcome=some (.ok ())) := by
    rw [hr,mem_append,mem_singleton] at he
    rcases he with he | he
    · exact .inl he
    · obtain ⟨outcome,hca,hiff⟩:=hs he.symm
      exact .inr ⟨outcome,h.pending hi hca,hiff⟩
  refine ⟨h.pending_update hc nofun ?_,by rw [hm,hn]; exact h.pushed_number,?_,?_,
    by rw [hm]; exact h.nodup⟩
  · intro j e outcome hj hp
    refine ⟨hp.sender,by rw [hn]; exact hp.number,by rw [hm]; exact hp.pushed_iff,?_⟩
    intro result he
    rcases returned he with he | ⟨outcome',hp',-⟩
    · exact hp.unanswered _ he
    · exact hj (hp.sender.symm.trans hp'.sender)
  · intro e result he
    rw [hn]
    rcases returned he with he | ⟨outcome,hp,-⟩
    · exact h.returned_number he
    · rw [hp.sender,← hp.number]
      exact Nat.lt_succ_self _
  · intro e result he
    rw [hm]
    rcases returned he with he | ⟨outcome,hp,hiff⟩
    · exact h.returned_iff he
    · exact hiff.trans hp.pushed_iff.symm

theorem Accounted.send (kind : SendKind) (message : Msg) : (s.send i kind message).Accounted := by
  set s':=s.send i kind message
  have hc : s'.calls=update s.calls i (some (.readStatus kind ⟨i,s.sends i,message⟩)):=rfl
  have hle : ∀j,s.sends j ≤ s'.sends j := by
    intro j
    show s.sends j≤update s.sends i (s.sends i+1) j
    by_cases hj : j=i
    · subst hj
      rw [update_self]
      exact Nat.le_succ _
    · rw [update_of_ne hj]
  refine ⟨h.pending_update hc ?_ ?_,fun e he => (h.pushed_number e he).trans_le (hle _),
    fun he => (h.returned_number he).trans_le (hle _),h.returned_iff,h.nodup⟩
  · rintro call e outcome ⟨⟩ ⟨⟩
    refine ⟨rfl,?_,?_,?_⟩
    · show s.sends i+1=update s.sends i (s.sends i+1) i
      rw [update_self]
    · exact ⟨fun he => absurd (h.pushed_number _ he) (Nat.lt_irrefl _),nofun⟩
    · exact fun result he => absurd (h.returned_number he) (Nat.lt_irrefl _)
  · intro j e outcome hj hp
    refine ⟨hp.sender,?_,hp.pushed_iff,hp.unanswered⟩
    show e.number+1=update s.sends i (s.sends i+1) j
    rw [update_of_ne hj]
    exact hp.number

theorem Accounted.answerMarker (hi : s.calls i=some call) {sender : MarkerSender Thread Msg}
    (hc : ∀{e result},sender=.send e result→call.sending=some (e,some result))
    (result : Except (MessagingErr Unit) Unit) : (s.answerMarker i result sender).Accounted := by
  cases sender with
  | send e sent =>
    exact h.answer hi rfl rfl rfl rfl (by rintro _ _ ⟨⟩; exact ⟨_,hc rfl,by simp⟩)
  | drain => exact h.answer hi rfl rfl rfl rfl nofun

theorem Accounted.resumed (hi : s.calls i=some call) (hr : s.Resumed i call s') : s'.Accounted := by
  cases hr with
  | statusRejected kind e | rejected kind e state =>
    exact h.answer hi rfl rfl rfl rfl (by rintro _ _ ⟨⟩; exact ⟨none,rfl,nofun,nofun⟩)
  | statusRead | admissionLoaded | admitted | notAdmitted | boxed | releasedLast =>
    exact h.move hi rfl rfl rfl rfl fun hs => ⟨_,hs,Iff.rfl⟩
  | notBoxed kind e | notPushed e =>
    exact h.move hi rfl rfl rfl rfl (by rintro _ _ ⟨⟩; exact ⟨none,rfl,nofun,nofun⟩)
  | pushed e => exact h.push hi
  | released e result =>
    exact h.answer hi rfl rfl rfl rfl (by rintro _ _ ⟨⟩; exact ⟨_,rfl,by simp⟩)
  | admissionClosed | drainingPublished => exact h.move hi rfl rfl rfl rfl nofun
  | markerLoaded sender | marked sender | notMarked sender =>
    exact h.move hi rfl rfl rfl rfl fun hs => ⟨_,by cases sender <;> exact hs,Iff.rfl⟩
  | noMarker sender state =>
    exact h.answerMarker hi (by rintro _ _ rfl; rfl) _
  | markerPushed sender result =>
    have hi' : (s.push .drain).calls i=some (.pushMarker sender) := by rw [push_eq]; exact hi
    exact h.push_drain.answerMarker hi' (by rintro _ _ rfl; rfl) _

theorem Accounted.drain (i : Thread) : (s.drain i).Accounted := by
  have hc : (s.drain i).calls=update s.calls i (some .closeAdmission):=rfl
  refine ⟨h.pending_update hc ?_ fun _ hp => ⟨hp.sender,hp.number,hp.pushed_iff,hp.unanswered⟩,
    h.pushed_number,h.returned_number,h.returned_iff,h.nodup⟩
  rintro call e outcome ⟨⟩ ⟨⟩

theorem Accounted.step {event : MailboxEvent Thread Msg} (hs : s.Step event s') : s'.Accounted :=
  hs.elim (fun _ kind message _ => h.send kind message) (fun i _ => h.drain i)
    (fun _ _ _ hi hr => h.resumed hi hr) (fun _ => h.congr rfl rfl rfl rfl)
    (h.congr rfl rfl rfl rfl)

end

theorem accounted_of_reachable [DecidableEq Thread] {s : Mailbox Thread Msg}
    (h : Reachable Initial Step s) : s.Accounted := by
  refine h.invariant (P:=Accounted) ?_ fun _ _ _ hp hs => hp.step hs
  rintro _ rfl
  exact ⟨nofun,nofun,nofun,nofun,nodup_nil⟩

end Mailbox
end Ractor
