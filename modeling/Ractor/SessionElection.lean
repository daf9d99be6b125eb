import Mathlib.Order.Compare
import Mathlib.Data.List.Basic

/-!
# The election among the sessions with one peer

`elect_sessions` narrows the candidates down in three stages: to the direction that the names of
the two nodes prefer, to the smallest connection id, and to one accepted session. What a stage
keeps is stated through membership, so that the order of the candidates does not matter.
-/

namespace Ractor
open List Option

/-- `SessionElectionCandidate`; a connection id of zero is no connection id. -/
structure SessionElectionCandidate where
  actorId : ℕ
  isServer : Bool
  connectionId : Option ℕ
  deriving DecidableEq, Repr

section Stages
variable {Name : Type} [LinearOrder Name]

/-- The connection is retained that was initiated by the node whose name sorts last. -/
def preferredIsServer (thisNodeName peerName : Name) : Option Bool :=
  match compare peerName thisNodeName with
  | .lt => some false
  | .gt => some true
  | .eq => none

def retainPreferred (thisNodeName peerName : Name) (candidates : List SessionElectionCandidate) :
    List SessionElectionCandidate :=
  if candidates.any (·.isServer) && candidates.any (!·.isServer) then
    match preferredIsServer thisNodeName peerName with
    | some preferred => candidates.filter (·.isServer == preferred)
    | none => candidates
  else candidates

def retainSmallestId (candidates : List SessionElectionCandidate) : List SessionElectionCandidate :=
  match (candidates.filterMap (·.connectionId)).min? with
  | some connectionId => candidates.filter (·.connectionId == some connectionId)
  | none => candidates

/-- Only the accepting endpoint breaks a tie. -/
def retainFirstAccepted (candidates : List SessionElectionCandidate) :
    List SessionElectionCandidate :=
  if 1<candidates.length && candidates.all (·.isServer) then
    match (candidates.map (·.actorId)).min? with
    | some winner => candidates.filter (·.actorId == winner)
    | none => candidates
  else candidates

def electCandidates (thisNodeName peerName : Name) (candidates : List SessionElectionCandidate) :
    List SessionElectionCandidate :=
  if candidates.length≤1 then candidates
  else retainFirstAccepted (retainSmallestId (retainPreferred thisNodeName peerName candidates))

def electSessions (thisNodeName peerName : Name) (candidates : List SessionElectionCandidate) :
    List ℕ :=
  (electCandidates thisNodeName peerName candidates).map (·.actorId)

end Stages

namespace SessionElection
variable {Name : Type} [LinearOrder Name] {thisNodeName peerName : Name}
  {candidates : List SessionElectionCandidate} {c d : SessionElectionCandidate}

/-! ### What each stage keeps -/

theorem mem_retainPreferred :
    c∈retainPreferred thisNodeName peerName candidates ↔ c∈candidates ∧
      ∀d∈candidates,preferredIsServer thisNodeName peerName=some d.isServer →
        c.isServer=d.isServer := by
  unfold retainPreferred
  split
  next hb =>
    simp only [Bool.and_eq_true,List.any_eq_true,Bool.not_eq_true'] at hb
    obtain ⟨⟨server,hse,hs⟩,client,hcl,hc⟩:=hb
    split
    next preferred hp =>
      rw [mem_filter,beq_iff_eq,hp]
      refine and_congr_right fun _ => ⟨fun h d _ hd => h.trans (some.inj hd),fun h => ?_⟩
      cases preferred with
      | true => exact (h server hse (by rw [hs])).trans hs
      | false => exact (h client hcl (by rw [hc])).trans hc
    next hp =>
      rw [hp]
      simp
  next hone =>
    -- all candidates have one direction
    simp only [Bool.and_eq_true,List.any_eq_true,Bool.not_eq_true',not_and,not_exists] at hone
    refine ⟨fun hc => ⟨hc,fun d hd _ => ?_⟩,And.left⟩
    cases hcs : c.isServer <;> cases hds : d.isServer
    · rfl
    · exact absurd hcs (hone ⟨d,hd,hds⟩ c hc)
    · exact absurd hds (hone ⟨c,hc,hcs⟩ d hd)
    · rfl

theorem mem_retainSmallestId :
    c∈retainSmallestId candidates ↔ c∈candidates ∧
      ∀d∈candidates,∀k,d.connectionId=some k→∃j≤k,c.connectionId=some j := by
  unfold retainSmallestId
  split
  next k hk =>
    obtain ⟨hmem,hmin⟩:=min?_eq_some_iff.mp hk
    obtain ⟨e,he,hek⟩:=mem_filterMap.mp hmem
    rw [mem_filter,beq_iff_eq]
    refine and_congr_right fun _ => ⟨fun hc d hd k' hk' => ⟨k,?_,hc⟩,fun hall => ?_⟩
    · exact hmin k' (mem_filterMap.mpr ⟨d,hd,hk'⟩)
    · obtain ⟨j,hj,hcj⟩:=hall e he k hek
      have hle:=hmin j (mem_filterMap.mpr ⟨c,by assumption,hcj⟩)
      rw [hcj,Nat.le_antisymm hj hle]
  next hn =>
    rw [min?_eq_none_iff,filterMap_eq_nil_iff] at hn
    refine ⟨fun hc => ⟨hc,fun d hd k hk => ?_⟩,And.left⟩
    rw [hn d hd] at hk
    cases hk

theorem retainFirstAccepted_sublist : (retainFirstAccepted candidates).Sublist candidates := by
  unfold retainFirstAccepted
  split
  · split
    · exact filter_sublist
    · exact .refl _
  · exact .refl _

theorem retainFirstAccepted_actorId (hall : ∀e∈candidates,e.isServer=true)
    (hc : c∈retainFirstAccepted candidates) (hd : d∈retainFirstAccepted candidates) :
    c.actorId=d.actorId := by
  unfold retainFirstAccepted at hc hd
  rw [List.all_eq_true.mpr hall,Bool.and_true] at hc hd
  split at hc
  next hlen =>
    rw [if_pos hlen] at hd
    split at hc
    next winner hw =>
      rw [hw] at hd
      rw [mem_filter,beq_iff_eq] at hc hd
      rw [hc.2,hd.2]
    next hn =>
      rw [min?_eq_none_iff,map_eq_nil_iff] at hn
      rw [hn] at hc
      cases hc
  next hlen =>
    rw [if_neg hlen] at hd
    match candidates,hc,hd with
    | [e],hc,hd => rw [mem_singleton.mp hc,mem_singleton.mp hd]
    | _::_::_,_,_ => simp at hlen

/-- The stages keep a candidate that is alone. -/
theorem electCandidates_eq :
    electCandidates thisNodeName peerName candidates=retainFirstAccepted
        (retainSmallestId (retainPreferred thisNodeName peerName candidates)) := by
  unfold electCandidates
  split
  next hlen =>
    match candidates,hlen with
    | [],_ => rfl
    | [c],_ =>
      cases hs : c.isServer <;> cases hid : c.connectionId <;>
        simp [retainPreferred,retainSmallestId,retainFirstAccepted,hs,hid]
  next => rfl

theorem electCandidates_subset (hc : c∈electCandidates thisNodeName peerName candidates) :
    c∈retainSmallestId (retainPreferred thisNodeName peerName candidates) := by
  rw [electCandidates_eq] at hc
  exact retainFirstAccepted_sublist.subset hc

theorem mem_of_mem_electCandidates
    (hc : c∈electCandidates thisNodeName peerName candidates) : c∈candidates :=
  (mem_retainPreferred.mp (mem_retainSmallestId.mp (electCandidates_subset hc)).1).1

/-! ### What the elected have in common -/

/-- Candidates among which no election makes a difference. -/
structure Uniform (candidates : List SessionElectionCandidate) : Prop where
  direction : ∀c∈candidates,∀d∈candidates,c.isServer=d.isServer
  connectionId : ∀c∈candidates,∀d∈candidates,c.connectionId=d.connectionId
  accepted : ∀c∈candidates,∀d∈candidates,c.isServer=true → c.actorId=d.actorId

theorem Uniform.subset {candidates' : List SessionElectionCandidate} (h : Uniform candidates)
    (hsub : ∀c∈candidates',c∈candidates) : Uniform candidates' where
  direction c hc d hd:=h.direction c (hsub c hc) d (hsub d hd)
  connectionId c hc d hd:=h.connectionId c (hsub c hc) d (hsub d hd)
  accepted c hc d hd:=h.accepted c (hsub c hc) d (hsub d hd)

theorem electCandidates_connectionId (hc : c∈electCandidates thisNodeName peerName candidates)
    (hd : d∈electCandidates thisNodeName peerName candidates) :
    c.connectionId=d.connectionId := by
  obtain ⟨hc,hcm⟩:=mem_retainSmallestId.mp (electCandidates_subset hc)
  obtain ⟨hd,hdm⟩:=mem_retainSmallestId.mp (electCandidates_subset hd)
  cases hck : c.connectionId with
  | some k =>
    obtain ⟨j,hj,hdj⟩:=hdm c hc k hck
    obtain ⟨k',hk',hck'⟩:=hcm d hd j hdj
    rw [hck,some.injEq] at hck'
    rw [hdj,some.injEq]
    omega
  | none =>
    cases hdk : d.connectionId with
    | none => rfl
    | some k =>
      obtain ⟨j,-,hcj⟩:=hcm d hd k hdk
      rw [hck] at hcj
      cases hcj

theorem preferredIsServer_isSome (h : peerName≠thisNodeName) :
    ∃preferred,preferredIsServer thisNodeName peerName=some preferred := by
  unfold preferredIsServer
  split
  · exact ⟨_,rfl⟩
  · exact ⟨_,rfl⟩
  next he => exact absurd (compare_eq_iff_eq.mp he) h

/-- Between two different nodes one direction is preferred. -/
theorem retainPreferred_direction (h : peerName≠thisNodeName)
    (hc : c∈retainPreferred thisNodeName peerName candidates)
    (hd : d∈retainPreferred thisNodeName peerName candidates) : c.isServer=d.isServer := by
  obtain ⟨hc,hcp⟩:=mem_retainPreferred.mp hc
  obtain ⟨hd,hdp⟩:=mem_retainPreferred.mp hd
  obtain ⟨preferred,hp⟩:=preferredIsServer_isSome h
  rw [hp] at hcp hdp
  by_cases hcs : preferred=c.isServer
  · exact (hdp c hc (by rw [hcs])).symm
  · by_cases hds : preferred=d.isServer
    · exact hcp d hd (by rw [hds])
    · rw [Bool.eq_not_of_ne (Ne.symm hcs),Bool.eq_not_of_ne (Ne.symm hds)]

/-- Between two different nodes the election ends with one direction, one connection id, and at
most one accepted session. -/
theorem electCandidates_uniform (h : peerName≠thisNodeName) :
    Uniform (electCandidates thisNodeName peerName candidates) := by
  have hsub (c) (hc : c∈electCandidates thisNodeName peerName candidates) :=
    (mem_retainSmallestId.mp (electCandidates_subset hc)).1
  refine ⟨fun c hc d hd => retainPreferred_direction h (hsub c hc) (hsub d hd),
    fun c hc d hd => electCandidates_connectionId hc hd,fun c hc d hd hcs => ?_⟩
  have hall : ∀e∈retainSmallestId (retainPreferred thisNodeName peerName candidates),
      e.isServer=true:=fun e he =>
    (retainPreferred_direction h (mem_retainSmallestId.mp he).1 (hsub c hc)).trans hcs
  rw [electCandidates_eq] at hc hd
  exact retainFirstAccepted_actorId hall hc hd

theorem Uniform.retainFirstAccepted (h : Uniform candidates) (hc : c∈candidates) :
    c∈retainFirstAccepted candidates := by
  unfold Ractor.retainFirstAccepted
  split
  next hs =>
    rw [Bool.and_eq_true,List.all_eq_true] at hs
    split
    next winner hw =>
      obtain ⟨d,hd,rfl⟩:=List.mem_map.mp (min?_mem hw)
      rw [mem_filter,beq_iff_eq]
      exact ⟨hc,h.accepted c hc d hd (hs.2 c hc)⟩
    next => exact hc
  next => exact hc

theorem Uniform.mem_electCandidates (h : Uniform candidates) :
    c∈electCandidates thisNodeName peerName candidates ↔ c∈candidates := by
  refine ⟨mem_of_mem_electCandidates,fun hc => ?_⟩
  have hp (e) (he : e∈candidates) : e∈retainPreferred thisNodeName peerName candidates :=
    mem_retainPreferred.mpr ⟨he,fun d hd _ => h.direction e he d hd⟩
  have hsub (e) (he : e∈retainPreferred thisNodeName peerName candidates) : e∈candidates :=
    (mem_retainPreferred.mp he).1
  have hs : c∈retainSmallestId (retainPreferred thisNodeName peerName candidates) := by
    refine mem_retainSmallestId.mpr ⟨hp c hc,fun d hd k hk => ⟨k,Nat.le_refl k,?_⟩⟩
    rw [h.connectionId c hc d (hsub d hd),hk]
  rw [electCandidates_eq]
  exact (h.subset fun e he => hsub e (mem_retainSmallestId.mp he).1).retainFirstAccepted hs

/-- A candidate in the preferred direction, with a smaller connection id than any other one in its
direction, is the only one elected. -/
theorem electSessions_eq_singleton {k : ℕ} (hc : c∈candidates) (hk : c.connectionId=some k)
    (hdi : ∀d∈candidates,preferredIsServer thisNodeName peerName=some d.isServer →
      c.isServer=d.isServer)
    (hs : ∀d∈candidates,d.isServer=c.isServer→d≠c→∃j,d.connectionId=some j ∧ k<j)
    (hn : peerName≠thisNodeName) {a : ℕ} :
    a∈electSessions thisNodeName peerName candidates ↔ a=c.actorId := by
  have hp:=mem_retainPreferred.mpr ⟨hc,hdi⟩
  have ha (e) (he : e∈retainSmallestId (retainPreferred thisNodeName peerName candidates)) :
      e=c := by
    obtain ⟨he,hmin⟩:=mem_retainSmallestId.mp he
    by_contra hne
    obtain ⟨j,hj,hlt⟩:=hs e (mem_retainPreferred.mp he).1 (retainPreferred_direction hn he hp) hne
    obtain ⟨j',hle,hj'⟩:=hmin c hp k hk
    rw [hj,some.injEq] at hj'
    omega
  have hke : c∈retainSmallestId (retainPreferred thisNodeName peerName candidates) := by
    refine mem_retainSmallestId.mpr ⟨hp,fun d hd k' hk' => ⟨k,?_,hk⟩⟩
    by_cases hdc : d=c
    · rw [hdc,hk,some.injEq] at hk'
      exact Nat.le_of_eq hk'
    · obtain ⟨j,hj,hlt⟩:=hs d (mem_retainPreferred.mp hd).1 (retainPreferred_direction hn hd hp) hdc
      rw [hj,some.injEq] at hk'
      omega
  have hu : Uniform (retainSmallestId (retainPreferred thisNodeName peerName candidates)) :=
    ⟨fun e he d hd => by rw [ha e he,ha d hd],fun e he d hd => by rw [ha e he,ha d hd],
      fun e he d hd _ => by rw [ha e he,ha d hd]⟩
  rw [electSessions,List.mem_map,electCandidates_eq]
  constructor
  · rintro ⟨e,he,rfl⟩
    rw [ha e (retainFirstAccepted_sublist.subset he)]
  · rintro rfl
    exact ⟨c,hu.retainFirstAccepted hke,rfl⟩

end SessionElection
end Ractor
