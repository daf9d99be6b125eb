import Ractor.NodeSessionMessages

/-!
# Stand-ins for remote actors

A `RemoteActor` passes the messages it is sent on to the session, and keeps the reply ports of the
calls it has passed on. A reply of the peer is matched with a port by its tag. With every message
that is handled, a few of the ports are inspected, and those are dropped whose receivers are gone.
-/

namespace Ractor

/-- An `RpcReplyPort`, by what tells it apart and by its timeout. -/
structure CallPort where
  id : ℕ
  timeoutMs : Option UInt64
  deriving DecidableEq, Repr

/-- What a `RemoteActor` does outside of its state. -/
inductive RemoteActorEffect where
  | sendMessage (message : NodeMessage)
  | reply (port : CallPort) (data : List UInt8)
  deriving DecidableEq, Repr

def pendingRequestCleanupBudget : ℕ:=16

structure RemoteActorState where
  messageTag : UInt64:=0
  pendingRequests : Std.TreeMap UInt64 CallPort:=∅
  pendingRequestCleanupCursor : Option UInt64:=none

variable {s : RemoteActorState} {tag : UInt64} {port : CallPort}

namespace RemoteActorState

def getAndIncrementMtag (s : RemoteActorState) : UInt64 × RemoteActorState :=
  (s.messageTag+1,{s with messageTag:=s.messageTag+1})

/-! ### Cleaning up -/

/-- The tags that a clean-up inspects: those that follow the cursor, and then the first ones. -/
def cleanupTags (s : RemoteActorState) : List UInt64 :=
  let cleanupCount := min s.pendingRequests.size pendingRequestCleanupBudget
  let following := match s.pendingRequestCleanupCursor with
    | some cursor => (s.pendingRequests.keys.filter (cursor < ·)).take cleanupCount
    | none => []
  following++s.pendingRequests.keys.take (cleanupCount - following.length)

def sweep (closed : CallPort → Bool) (tags : List UInt64) (pending : Std.TreeMap UInt64 CallPort) :
    Std.TreeMap UInt64 CallPort :=
  tags.foldl (fun pending tag => if pending[tag]?.any closed then pending.erase tag else pending)
    pending

def cleanupClosedPendingRequests (closed : CallPort → Bool) (s : RemoteActorState) :
    RemoteActorState :=
  if min s.pendingRequests.size pendingRequestCleanupBudget=0 then
    {s with pendingRequestCleanupCursor:=none}
  else
    let pending := sweep closed s.cleanupTags s.pendingRequests
    { s with
      pendingRequests:=pending
      pendingRequestCleanupCursor:=if pending.isEmpty then none else s.cleanupTags.getLast? }

theorem getElem?_sweep (closed : CallPort→Bool) (tags : List UInt64)
    (pending : Std.TreeMap UInt64 CallPort) (tag : UInt64) :
    (sweep closed tags pending)[tag]? =
      if tag∈tags ∧ pending[tag]?.any closed then none else pending[tag]? := by
  induction tags generalizing pending with
  | nil => simp [sweep]
  | cons first tags ih =>
    have hs : sweep closed (first::tags) pending=sweep closed tags
      (if pending[first]?.any closed then pending.erase first else pending):=rfl
    rw [hs,ih]
    by_cases heq : first=tag
    · subst heq
      by_cases hc : pending[first]?.any closed=true
      · simp [hc]
      · simp [hc]
    · have hne : tag≠first:=fun h => heq h.symm
      split
      · simp [Std.TreeMap.getElem?_erase,heq,hne]
      · simp [hne]

/-- A request that is still pending after a clean-up was pending before. -/
theorem getElem?_of_cleanup {closed : CallPort→Bool}
    (h : (s.cleanupClosedPendingRequests closed).pendingRequests[tag]?=some port) :
    s.pendingRequests[tag]?=some port := by
  unfold cleanupClosedPendingRequests at h
  split at h
  · exact h
  · rw [getElem?_sweep] at h
    split at h
    · cases h
    · exact h

/-- A clean-up leaves the requests whose receivers still wait. -/
theorem getElem?_cleanup {closed : CallPort→Bool} (h : s.pendingRequests[tag]?=some port)
    (ho : closed port=false) :
    (s.cleanupClosedPendingRequests closed).pendingRequests[tag]?=some port := by
  unfold cleanupClosedPendingRequests
  split
  · exact h
  · rw [getElem?_sweep,h]
    simp [ho]

@[simp] theorem messageTag_cleanup (closed : CallPort→Bool) (s : RemoteActorState) :
    (s.cleanupClosedPendingRequests closed).messageTag=s.messageTag := by
  unfold cleanupClosedPendingRequests
  split <;> rfl

/-! ### Handling messages -/

def removePendingRequest (s : RemoteActorState) (messageTag : UInt64) :
    Option CallPort × RemoteActorState :=
  let pending := s.pendingRequests.erase messageTag
  (s.pendingRequests[messageTag]?,{s with
    pendingRequests:=pending
    pendingRequestCleanupCursor:=
      if pending.isEmpty then none else s.pendingRequestCleanupCursor})

/-- `handle_serialized` of the stand-in for a pid. A cast to the session fails when the session does
not take messages. -/
def handleSerialized (closed : CallPort → Bool) (sessionAlive : Bool) (pid : UInt64)
    (s : RemoteActorState) (message : SerializedMessage CallPort) :
    RemoteActorState × List RemoteActorEffect :=
  let s := s.cleanupClosedPendingRequests closed
  match message with
  | .call variant args reply metadata =>
    let (tag,s) := s.getAndIncrementMtag
    let s := {s with pendingRequests:=s.pendingRequests.insert tag reply}
    if sessionAlive then
      (s,[.sendMessage (.call pid tag args reply.timeoutMs variant metadata)])
    else ((s.removePendingRequest tag).2,[])
  | .cast variant args metadata =>
    (s,if sessionAlive then [.sendMessage (.cast pid args variant metadata)] else [])
  | .callReply messageTag replyData =>
    match s.removePendingRequest messageTag with
    | (some port,s) => (s,[.reply port replyData])
    | (none,s) => (s,[])

theorem getElem?_removePendingRequest {tag' : UInt64} :
    (s.removePendingRequest tag).2.pendingRequests[tag']?=some port ↔
      tag'≠tag ∧ s.pendingRequests[tag']?=some port := by
  simp only [removePendingRequest,Std.TreeMap.getElem?_erase,Std.compare_eq_iff_eq]
  split
  next heq => simp [heq]
  next hne => simp [Ne.symm hne]

theorem getElem?_insert_request {pending : Std.TreeMap UInt64 CallPort} {tag' : UInt64}
    {port' : CallPort} :
    (pending.insert tag port)[tag']?=some port' ↔
      tag'=tag ∧ port'=port ∨ tag'≠tag ∧ pending[tag']?=some port' := by
  simp only [Std.TreeMap.getElem?_insert,Std.compare_eq_iff_eq]
  split
  next heq => simp [heq,eq_comm]
  next hne => simp [Ne.symm hne]

section Handling
variable (closed : CallPort→Bool) (pid : UInt64) (s)

theorem handleSerialized_call (variant : String) (args : List UInt8) (port : CallPort)
    (metadata : Option (List UInt8)) :
    s.handleSerialized closed true pid (.call variant args port metadata) =
      ({s.cleanupClosedPendingRequests closed with
          messageTag:=s.messageTag+1
          pendingRequests:=(s.cleanupClosedPendingRequests closed).pendingRequests.insert
            (s.messageTag+1) port},
        [.sendMessage (.call pid (s.messageTag+1) args port.timeoutMs variant metadata)]) := by
  simp [handleSerialized,getAndIncrementMtag]

/-- A call that cannot be passed on is forgotten. -/
theorem handleSerialized_call_failed (variant : String) (args : List UInt8) (port : CallPort)
    (metadata : Option (List UInt8)) :
    let result := s.handleSerialized closed false pid (.call variant args port metadata)
    result.1.messageTag=s.messageTag+1 ∧ result.2=[] ∧
      ∀(tag : UInt64) (port' : CallPort),result.1.pendingRequests[tag]?=some port' →
        s.pendingRequests[tag]?=some port' := by
  refine ⟨by simp [handleSerialized,getAndIncrementMtag,removePendingRequest],rfl,
    fun tag port' hp => ?_⟩
  obtain ⟨hne,hp⟩:=getElem?_removePendingRequest.mp hp
  rcases getElem?_insert_request.mp hp with ⟨heq,-⟩ | ⟨-,hp⟩
  · exact absurd heq hne
  · exact getElem?_of_cleanup hp

theorem handleSerialized_callReply (sessionAlive : Bool) (tag : UInt64) (data : List UInt8) :
    s.handleSerialized closed sessionAlive pid (.callReply tag data) =
      (((s.cleanupClosedPendingRequests closed).removePendingRequest tag).2,
        (s.cleanupClosedPendingRequests closed).pendingRequests[tag]?.toList.map (.reply · data)) := by
  simp only [handleSerialized,removePendingRequest]
  cases (s.cleanupClosedPendingRequests closed).pendingRequests[tag]? <;> rfl

end Handling
end RemoteActorState
end Ractor
