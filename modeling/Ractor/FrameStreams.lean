import Ractor.ReachableRuns
import Ractor.WireBytes

/-!
# Frames on a byte stream

The two ends of a session's connection: `run_write_task`, which encodes the messages of a channel
into batches of frames, and `read_network_message`, which takes frames off the stream again. The
transport may return any non-empty part of what is asked for, and nothing only at the end of the
stream; to wait for a socket to become readable takes nothing off the stream. Memory is never
exhausted below the limit on the size of a vector, which a batch must not exceed.
-/

namespace Ractor
open List

/-- A protobuf message: `encode` writes as many bytes as `encoded_len` says, and `decode` inverts
it. The error of a failed `decode` is its text. -/
class ProstMessage (M : Type) where
  encodedLen : M → ℕ
  encode : M → List UInt8
  decode : List UInt8 → Except String M
  length_encode (message : M) : (encode message).length=encodedLen message
  decode_encode (message : M) : decode (encode message)=.ok message

inductive ErrorKind where
  | unexpectedEof
  | invalidData
  deriving DecidableEq, Repr

structure IoError where
  kind : ErrorKind
  message : String
  deriving DecidableEq, Repr

/-! ### The reading end -/

/-- The bytes that are still to come, and how the transport splits them: `splits i` is the size
of the `i`-th read from now, a read of size zero being one of a single byte. For every read so far
`asked` has the position in the stream and the size of the buffer. -/
structure ByteStream where
  remaining : List UInt8
  splits : ℕ → ℕ
  position : ℕ:=0
  asked : List (ℕ × ℕ):=[]

/-- One read into a buffer. It is empty only at the end of the stream. -/
def ByteStream.read (s : ByteStream) (size : ℕ) : List UInt8 × ByteStream :=
  let count := min size (max 1 (s.splits 0))
  (s.remaining.take count,
    { remaining:=s.remaining.drop count
      splits:=fun i => s.splits (i+1)
      position:=s.position+(s.remaining.take count).length
      asked:=s.asked++[(s.position,size)] })

/-- Read until `len` bytes are there, at most `chunkSize` at a time. `reserve` makes room for more
bytes in the buffer, and may fail. -/
def readLoop (chunkSize len : ℕ) (eof : IoError) (reserve : ℕ → ℕ → Option IoError)
    (buf : List UInt8) (s : ByteStream) : Except IoError (List UInt8) × ByteStream :=
  if buf.length<len then
    let next := s.read (min (len - buf.length) chunkSize)
    if next.1=[] then (.error eof,next.2)
    else
      match reserve buf.length next.1.length with
      | some e => (.error e,next.2)
      | none => readLoop chunkSize len eof reserve (buf++next.1) next.2
  else (.ok buf,s)
termination_by len - buf.length
decreasing_by
  rename_i hlt hne
  have hpos : 0<(s.read (min (len - buf.length) chunkSize)).1.length := length_pos_iff.mpr hne
  rw [length_append]
  omega

variable {s s' : ByteStream}

namespace ByteStream

theorem read_append (s : ByteStream) (size : ℕ) :
    (s.read size).1++(s.read size).2.remaining=s.remaining :=
  take_append_drop _ _

theorem length_read_le (s : ByteStream) (size : ℕ) : (s.read size).1.length ≤ size := by
  simp only [read,length_take]
  omega

theorem remaining_of_read_nil {size : ℕ} (hs : 0<size) (h : (s.read size).1=[]) :
    s.remaining=[] := by
  rcases take_eq_nil_iff.mp h with hc | hnil
  · omega
  · exact hnil

end ByteStream

def readU64 (s : ByteStream) : Except IoError ℕ × ByteStream :=
  let header := readLoop 8 8 ⟨.unexpectedEof,"early eof"⟩ (fun _ _ => none) [] s
  (header.1.map beValue,header.2)

def frameReadChunkSize : ℕ:=8*1024

section Reading
variable [Target]

def tryReserve (len additional : ℕ) : Option IoError :=
  if isizeMax<len+additional then
    some ⟨.invalidData,"cluster frame payload could not be extended: " ++
      "memory allocation failed because the computed capacity exceeded the collection's maximum"⟩
  else none

def readNBytes (s : ByteStream) (len : ℕ) : Except IoError (List UInt8) × ByteStream :=
  readLoop frameReadChunkSize len ⟨.unexpectedEof,"EOF"⟩ tryReserve [] s

def checkedFrameLength (length maxFrameSize : ℕ) : Except IoError ℕ :=
  if maxFrameSize<length then
    .error ⟨.invalidData,
      s!"cluster frame length {length} exceeds configured limit {maxFrameSize}"⟩
  else if isizeMax<length then
    .error ⟨.invalidData,s!"cluster frame length {length} could not be allocated by a Vec"⟩
  else if usizeMax<length then
    .error ⟨.invalidData,
      s!"cluster frame length {length} cannot fit in memory on this platform"⟩
  else .ok length

variable {M : Type} [ProstMessage M]

def readNetworkMessage (s : ByteStream) (maxFrameSize : ℕ) : Except IoError M × ByteStream :=
  match readU64 s with
  | (.error e,s) => (.error e,s)
  | (.ok wireLength,s) =>
    match checkedFrameLength wireLength maxFrameSize with
    | .error e => (.error e,s)
    | .ok frameLength =>
      match readNBytes s frameLength with
      | (.error e,s) => (.error e,s)
      | (.ok bytes,s) =>
        match ProstMessage.decode bytes with
        | .error e => (.error ⟨.invalidData,s!"invalid cluster protobuf frame: {e}"⟩,s)
        | .ok message => (.ok message,s)

end Reading

/-! ### Reading up to a length -/

section ReadLoop
variable {chunkSize len : ℕ} {eof : IoError} {reserve : ℕ→ℕ→Option IoError}

section
variable (buf : List UInt8) (s)

/-- The reads from `s` to `s'` ask for at most `chunkSize` bytes each, and for none behind the next
`count` bytes. -/
def ByteStream.AsksWithin (chunkSize count : ℕ) (s' : ByteStream) : Prop :=
  ∃asks,s'.asked=s.asked++asks ∧
    ∀ask∈asks,ask.2≤chunkSize ∧ s.position≤ask.1 ∧ ask.1+ask.2 ≤ s.position+count

theorem readLoop_asksWithin :
    s.AsksWithin chunkSize (len - buf.length) (readLoop chunkSize len eof reserve buf s).2 := by
  fun_induction readLoop chunkSize len eof reserve buf s with
  | case1 buf s hlt next hnil =>
    refine ⟨[_],rfl,?_⟩
    simp only [mem_singleton,forall_eq]
    omega
  | case2 buf s hlt next hne e he =>
    refine ⟨[_],rfl,?_⟩
    simp only [mem_singleton,forall_eq]
    omega
  | case3 buf s hlt next hne hr ih =>
    obtain ⟨asks,ha,has⟩:=ih
    have hn : next.2.asked=s.asked++[(s.position,min (len - buf.length) chunkSize)]:=rfl
    have hp : next.2.position=s.position+next.1.length:=rfl
    have hle : next.1.length ≤ min (len - buf.length) chunkSize:=s.length_read_le _
    rw [hn,append_assoc] at ha
    refine ⟨_,ha,?_⟩
    rintro ask (_ | ⟨_,hm⟩)
    · dsimp only
      omega
    · have hask:=has ask hm
      rw [hp,length_append] at hask
      omega
  | case4 buf s hge => exact ⟨[],by simp,by simp⟩

/-- If there are enough bytes, the loop takes as many as it needs. -/
theorem readLoop_ok (hc : 0<chunkSize)
    (hr : ∀i n,i+n≤len → reserve i n=none) (buf : List UInt8) (s : ByteStream)
    (hen : len≤buf.length+s.remaining.length) :
    ∃s',readLoop chunkSize len eof reserve buf s =
        (.ok (buf++s.remaining.take (len - buf.length)),s') ∧
      s'.remaining=s.remaining.drop (len - buf.length) := by
  fun_induction readLoop chunkSize len eof reserve buf s with
  | case1 buf s hlt next hnil =>
    have hem:=ByteStream.remaining_of_read_nil (by omega) hnil
    rw [hem,length_nil] at hen
    omega
  | case2 buf s hlt next hne e he =>
    have hle : next.1.length ≤ min (len - buf.length) chunkSize:=s.length_read_le _
    rw [hr _ _ (by omega)] at he
    cases he
  | case3 buf s hlt next hne _ ih =>
    have hle : next.1.length ≤ min (len - buf.length) chunkSize:=s.length_read_le _
    have hs : next.1++next.2.remaining=s.remaining:=s.read_append _
    have hl:=congrArg length hs
    rw [length_append] at hl
    obtain ⟨s',hs',hre⟩:=ih (by rw [length_append]; omega)
    have hw : (next.1.take (len - buf.length),next.1.drop (len - buf.length))=(next.1,[]) := by
      rw [take_of_length_le (by omega),drop_of_length_le (by omega)]
    obtain ⟨ht,hd⟩:=Prod.mk.inj hw
    rw [length_append,Nat.sub_add_eq] at hs' hre
    refine ⟨s',?_,?_⟩
    · rw [hs',← hs,take_append,ht,append_assoc]
    · rw [hre,← hs,drop_append,hd,nil_append]
  | case4 buf s hge =>
    have hz : len - buf.length=0 := by omega
    exact ⟨s,by simp [hz],by simp [hz]⟩

theorem readLoop_eof (hr : ∀i n,i+n≤len → reserve i n=none) (buf : List UInt8) (s : ByteStream)
    (hsh : buf.length+s.remaining.length<len) :
    ∃s',readLoop chunkSize len eof reserve buf s=(.error eof,s') := by
  fun_induction readLoop chunkSize len eof reserve buf s with
  | case1 buf s hlt next hnil => exact ⟨_,rfl⟩
  | case2 buf s hlt next hne e he =>
    have hle : next.1.length ≤ min (len - buf.length) chunkSize:=s.length_read_le _
    rw [hr _ _ (by omega)] at he
    cases he
  | case3 buf s hlt next hne _ ih =>
    have hs : next.1++next.2.remaining=s.remaining:=s.read_append _
    have hl:=congrArg length hs
    rw [length_append] at hl
    exact ih (by rw [length_append]; omega)
  | case4 buf s hge => omega

theorem readLoop_remaining_le :
    (readLoop chunkSize len eof reserve buf s).2.remaining.length ≤ s.remaining.length := by
  have hr (s : ByteStream) (size : ℕ) : (s.read size).2.remaining.length ≤ s.remaining.length :=
    length_drop ▸ Nat.sub_le _ _
  fun_induction readLoop chunkSize len eof reserve buf s with
  | case1 buf s hlt next hnil => exact hr s _
  | case2 buf s hlt next hne e he => exact hr s _
  | case3 buf s hlt next hne _ ih => exact Nat.le_trans ih (hr s _)
  | case4 buf s hge => exact Nat.le_refl _

end
end ReadLoop

/-! ### Reading a frame -/

theorem readU64_ok (s : ByteStream) (h : 8 ≤ s.remaining.length) :
    ∃s',readU64 s=(.ok (beValue (s.remaining.take 8)),s') ∧ s'.remaining=s.remaining.drop 8 := by
  obtain ⟨s',hs',hr⟩ := @readLoop_ok 8 8 ⟨.unexpectedEof,"early eof"⟩ (fun _ _ => none)
    (by decide) (fun _ _ _ => rfl) [] s (by simpa using h)
  exact ⟨s',by simp [readU64,hs',Except.map],hr⟩

theorem readU64_eof (s : ByteStream) (h : s.remaining.length<8) :
    ∃s',readU64 s=(.error ⟨.unexpectedEof,"early eof"⟩,s') := by
  obtain ⟨s',hs'⟩ := @readLoop_eof 8 8 ⟨.unexpectedEof,"early eof"⟩ (fun _ _ => none)
    (fun _ _ _ => rfl) [] s (by simpa using h)
  exact ⟨s',by simp [readU64,hs',Except.map]⟩

theorem readU64_asksWithin (s : ByteStream) : s.AsksWithin 8 8 (readU64 s).2 :=
  readLoop_asksWithin s []

section Reading
variable [Target]

theorem readNBytes_ok (s : ByteStream) {len : ℕ} (hlen : len ≤ isizeMax)
    (h : len ≤ s.remaining.length) :
    ∃s',readNBytes s len=(.ok (s.remaining.take len),s') ∧ s'.remaining=s.remaining.drop len := by
  have hr (i n : ℕ) (hin : i+n≤len) : tryReserve i n=none:=if_neg (by omega)
  exact readLoop_ok (by decide) hr [] s (by simpa using h)

theorem readNBytes_eof (s : ByteStream) {len : ℕ} (hlen : len ≤ isizeMax)
    (h : s.remaining.length<len) :
    ∃s',readNBytes s len=(.error ⟨.unexpectedEof,"EOF"⟩,s') := by
  have hr (i n : ℕ) (hin : i+n≤len) : tryReserve i n=none:=if_neg (by omega)
  exact readLoop_eof hr [] s (by simpa using h)

theorem checkedFrameLength_ok {length maxFrameSize : ℕ} (hmax : length ≤ maxFrameSize)
    (hf : length ≤ isizeMax) : checkedFrameLength length maxFrameSize=.ok length := by
  have hu:=isizeMax_lt_usizeMax
  rw [checkedFrameLength,if_neg (by omega),if_neg (by omega),if_neg (by omega)]

theorem checkedFrameLength_error {length maxFrameSize : ℕ}
    (h : maxFrameSize<length ∨ isizeMax<length) :
    ∃message,checkedFrameLength length maxFrameSize=.error ⟨.invalidData,message⟩ := by
  unfold checkedFrameLength
  split
  · exact ⟨_,rfl⟩
  · rw [if_pos (by omega)]
    exact ⟨_,rfl⟩

variable {M : Type} [ProstMessage M] {maxFrameSize : ℕ}

def frame (message : M) : List UInt8 :=
  beBytes 8 (ProstMessage.encodedLen message)++ProstMessage.encode message

/-- The payload is within the limit of the session and in that of a vector. -/
def Fits (maxFrameSize : ℕ) (message : M) : Prop :=
  ProstMessage.encodedLen message ≤ maxFrameSize ∧ ProstMessage.encodedLen message ≤ isizeMax

omit [Target] in
@[simp] theorem length_frame (message : M) :
    (frame message).length=8+ProstMessage.encodedLen message := by
  simp [frame,ProstMessage.length_encode]

variable {message : M}

/-- The length in front of a frame is read back. -/
theorem beValue_frame (h : Fits maxFrameSize message) (rest : List UInt8) :
    beValue ((frame message++rest).take 8)=ProstMessage.encodedLen message := by
  have hh : (frame message++rest).take 8=beBytes 8 (ProstMessage.encodedLen message) := by
    rw [frame,append_assoc,take_append_of_le_length (by simp),take_of_length_le (by simp)]
  have hi:=isizeMax_lt_usizeMax
  have hu:=usizeMax_lt
  rw [hh,beValue_beBytes]
  have hf:=h.2
  omega

theorem readNetworkMessage_frame (h : Fits maxFrameSize message) {rest : List UInt8}
    (hs : s.remaining=frame message++rest) :
    ∃s',readNetworkMessage s maxFrameSize=(.ok message,s') ∧ s'.remaining=rest := by
  have hl : s.remaining.length=8+ProstMessage.encodedLen message+rest.length := by
    rw [hs,length_append,length_frame]
  obtain ⟨s₁,hh,hrest₁⟩:=readU64_ok s (by omega)
  have hp : s₁.remaining=ProstMessage.encode message++rest := by
    rw [hrest₁,hs,frame,append_assoc]
    exact drop_left' (length_beBytes _ _)
  obtain ⟨s₂,hb,hrest₂⟩:=readNBytes_ok s₁ h.2 (by
    rw [hp,length_append,ProstMessage.length_encode]
    omega)
  rw [hp,take_left' (ProstMessage.length_encode message)] at hb
  rw [hp,drop_left' (ProstMessage.length_encode message)] at hrest₂
  refine ⟨s₂,?_,hrest₂⟩
  rw [hs,beValue_frame h] at hh
  simp only [readNetworkMessage,hh,checkedFrameLength_ok h.1 h.2,hb,ProstMessage.decode_encode]

/-- A frame that is cut off is not read. -/
theorem readNetworkMessage_cut (h : Fits maxFrameSize message) {k : ℕ}
    (hk : k<(frame message).length) (hs : s.remaining=(frame message).take k) :
    ∃text s',readNetworkMessage (M:=M) s maxFrameSize = (.error ⟨.unexpectedEof,text⟩,s') := by
  have hl : s.remaining.length=k := by
    rw [hs,length_take]
    omega
  rw [length_frame] at hk
  by_cases hh : k<8
  · obtain ⟨s₁,hs₁⟩:=readU64_eof s (by omega)
    exact ⟨"early eof",s₁,by simp only [readNetworkMessage,hs₁]⟩
  · obtain ⟨s₁,hs₁,hr⟩:=readU64_ok s (by omega)
    have hv : s.remaining.take 8=(frame message++[]).take 8 := by
      rw [hs,take_take,append_nil,Nat.min_eq_left (by omega)]
    rw [hv,beValue_frame h] at hs₁
    obtain ⟨s₂,hs₂⟩:=readNBytes_eof s₁ h.2 (by
      rw [hr,length_drop]
      omega)
    exact ⟨"EOF",s₂,by simp only [readNetworkMessage,hs₁,checkedFrameLength_ok h.1 h.2,hs₂]⟩

theorem readNetworkMessage_oversized {header rest : List UInt8} (hh : header.length=8)
    (hs : s.remaining=header++rest)
    (h : maxFrameSize<beValue header ∨ isizeMax<beValue header) :
    ∃text s',readNetworkMessage (M:=M) s maxFrameSize=(.error ⟨.invalidData,text⟩,s') ∧
      s'.remaining=rest ∧ s.AsksWithin 8 8 s' := by
  obtain ⟨s₁,hs₁,hr⟩:=readU64_ok s (by rw [hs,length_append]; omega)
  have ha:=readU64_asksWithin s
  rw [hs,take_left' hh] at hs₁
  rw [hs,drop_left' hh] at hr
  obtain ⟨text,ht⟩:=checkedFrameLength_error h
  rw [hs₁] at ha
  exact ⟨text,s₁,by simp only [readNetworkMessage,hs₁,ht],hr,ha⟩

omit [Target] in
theorem readU64_remaining_lt {n : ℕ} (h : readU64 s=(.ok n,s')) :
    s'.remaining.length<s.remaining.length := by
  by_cases he : 8 ≤ s.remaining.length
  · obtain ⟨s₁,hs₁,hr⟩:=readU64_ok s he
    obtain ⟨-,rfl⟩:=Prod.mk.inj (h.symm.trans hs₁)
    rw [hr,length_drop]
    omega
  · obtain ⟨s₁,hs₁⟩:=readU64_eof s (by omega)
    simp [hs₁] at h

theorem readNetworkMessage_remaining_lt (h : readNetworkMessage s maxFrameSize=(.ok message,s')) :
    s'.remaining.length<s.remaining.length := by
  unfold readNetworkMessage at h
  split at h
  · cases h
  next s₁ hu64 =>
    have hh:=readU64_remaining_lt hu64
    split at h
    · cases h
    next frameLength _ =>
      have hp : (readNBytes s₁ frameLength).2.remaining.length ≤ s₁.remaining.length :=
        readLoop_remaining_le s₁ []
      split at h
      · cases h
      next hb =>
        rw [hb] at hp
        split at h
        · cases h
        · cases h
          exact Nat.lt_of_le_of_lt hp hh

/-- The reader of a session: `read_network_message` is called again and again, until it fails. -/
def readAll (maxFrameSize : ℕ) (s : ByteStream) : List M × IoError :=
  match _h : readNetworkMessage (M:=M) s maxFrameSize with
  | (.error e,_) => ([],e)
  | (.ok message,s') =>
    let later := readAll maxFrameSize s'
    (message::later.1,later.2)
termination_by s.remaining.length
decreasing_by exact readNetworkMessage_remaining_lt (by assumption)

theorem readAll_error {e : IoError} (h : readNetworkMessage (M:=M) s maxFrameSize=(.error e,s')) :
    readAll (M:=M) maxFrameSize s=([],e) := by
  rw [readAll]
  split
  next hr =>
    cases hr.symm.trans h
    rfl
  next hr => cases hr.symm.trans h

theorem readAll_ok (h : readNetworkMessage s maxFrameSize=(.ok message,s')) :
    readAll maxFrameSize s =
      (message::(readAll maxFrameSize s').1,(readAll (M:=M) maxFrameSize s').2) := by
  rw [readAll]
  split
  next hr => cases hr.symm.trans h
  next hr =>
    cases hr.symm.trans h
    rfl

def frames (messages : List M) : List UInt8:=messages.flatMap frame

/-- The messages whose frames are complete in the first `count` bytes. -/
def completeIn : ℕ → List M → List M
  | _,[] => []
  | count,message::messages =>
    if (frame message).length≤count then
      message::completeIn (count - (frame message).length) messages
    else []

/-- Cut anywhere, a stream of frames gives the complete ones and then ends. -/
theorem readAll_frames_take {messages : List M}
    (h : ∀message∈messages,Fits maxFrameSize message) {count : ℕ}
    (hs : s.remaining=(frames messages).take count) :
    ∃text,readAll maxFrameSize s=(completeIn count messages,⟨.unexpectedEof,text⟩) := by
  induction messages generalizing count s with
  | nil =>
    obtain ⟨s',hs'⟩:=readU64_eof s (by rw [hs]; simp [frames])
    have hr : readNetworkMessage (M:=M) s maxFrameSize =
        (.error ⟨.unexpectedEof,"early eof"⟩,s') := by simp only [readNetworkMessage,hs']
    exact ⟨"early eof",readAll_error hr⟩
  | cons message messages ih =>
    have hf:=h message mem_cons_self
    have hl:=fun m hm => h m (mem_cons_of_mem _ hm)
    change s.remaining=(frame message++frames messages).take count at hs
    rw [take_append] at hs
    rw [completeIn]
    split
    next hle =>
      rw [take_of_length_le hle] at hs
      obtain ⟨s',hs',hre⟩:=readNetworkMessage_frame hf hs
      obtain ⟨text,ht⟩:=ih hl hre
      exact ⟨text,by rw [readAll_ok hs',ht]⟩
    next hlt =>
      rw [Nat.sub_eq_zero_of_le (by omega),take_zero,append_nil] at hs
      obtain ⟨text,s',hs'⟩:=readNetworkMessage_cut hf (by omega) hs
      exact ⟨text,readAll_error hs'⟩

omit [Target] in
theorem completeIn_length (messages : List M) :
    completeIn (frames messages).length messages=messages := by
  induction messages with
  | nil => rfl
  | cons message messages ih =>
    have hl : (frames (message::messages)).length =
        (frame message).length+(frames messages).length := by simp [frames]
    rw [completeIn,if_pos (by omega),hl,Nat.add_sub_cancel_left,ih]

end Reading

/-! ### The writing end -/

/-- Where the write task is: waiting for a message, collecting a batch into its buffer, about to
write the batch, or gone. -/
inductive WritePhase where
  | waiting
  | draining (buf : List UInt8)
  | writing (buf : List UInt8)
  | stopped

/-- The state of `run_write_task`: the channel, and the bytes that are on the wire. `sent` lists the
messages that were ever put into the channel. -/
structure WriteTask (M : Type) where
  channel : List M:=[]
  phase : WritePhase:=.waiting
  wire : List UInt8:=[]
  sent : List M:=[]

/-- A message is put into the channel, the task makes its next step, or the transport fails after
some bytes of a batch. -/
inductive WriteEvent (M : Type) where
  | send (message : M)
  | next
  | fail (written : ℕ)

section Writing
variable [Target] {M : Type} [ProstMessage M]

section
variable (task : WriteTask M) (message : M) (buf : List UInt8)

/-- The vector of a batch panics when it would get too long. -/
def encodeNetworkMessage : Option (List UInt8) :=
  if buf.length+8+ProstMessage.encodedLen message ≤ isizeMax then
    some (buf++beBytes 8 (ProstMessage.encodedLen message)++ProstMessage.encode message)
  else none

/-- A panic ends the task, and what it has collected is lost. -/
def WriteTask.collect (rest : List M) : WriteTask M :=
  match encodeNetworkMessage message buf with
  | some buf => {task with channel:=rest,phase:=.draining buf}
  | none => {task with channel:=rest,phase:=.stopped}

/-- One step of `run_write_task`: the first message of a batch, each `try_recv`, and the write. -/
def WriteTask.step : WriteEvent M → Option (WriteTask M)
  | .send message =>
    some {task with channel:=task.channel++[message],sent:=task.sent++[message]}
  | .next =>
    match task.phase,task.channel with
    | .waiting,[] => none
    | .waiting,message::rest => some (task.collect message [] rest)
    | .draining buf,message::rest => some (task.collect message buf rest)
    | .draining buf,[] => some {task with phase:=.writing buf}
    | .writing buf,_ => some {task with phase:=.waiting,wire:=task.wire++buf}
    | .stopped,_ => none
  | .fail written =>
    match task.phase with
    | .writing buf => some {task with phase:=.stopped,wire:=task.wire++buf.take written}
    | _ => none

end

def WriteTask.Step (task : WriteTask M) (event : WriteEvent M) (task' : WriteTask M) : Prop :=
  task.step event=some task'

def WriteTask.Runs : WriteTask M → Prop:=Reachable (· = {}) WriteTask.Step

def WritePhase.pending : WritePhase → List UInt8
  | .draining buf => buf
  | .writing buf => buf
  | _ => []

/-- The batch that the task collects, if nothing else is put into the channel. -/
def WriteTask.batch (task : WriteTask M) : List UInt8 :=
  match task.phase with
  | .draining buf => buf++frames task.channel
  | _ => frames task.channel

/-- What is on the wire, in the batch and in the channel are the frames of the messages in the
order in which they were sent. A task that is gone has left a first part of them on the wire. -/
def WriteTask.InOrder (task : WriteTask M) : Prop :=
  task.phase≠.stopped ∧
      task.wire++task.phase.pending++frames task.channel=frames task.sent ∨
    task.phase=.stopped ∧ task.wire <+: frames task.sent

omit [Target] in
theorem frames_append (messages messages' : List M) :
    frames (messages++messages')=frames messages++frames messages' :=
  flatMap_append

section
variable {task : WriteTask M} {message : M} {buf : List UInt8}

theorem encodeNetworkMessage_cases (message : M) (buf : List UInt8) :
    encodeNetworkMessage message buf=some (buf++frame message) ∧
        (buf++frame message).length ≤ isizeMax ∨
      encodeNetworkMessage message buf=none ∧ isizeMax<(buf++frame message).length := by
  unfold encodeNetworkMessage
  split
  next hle =>
    refine .inl ⟨by rw [frame,append_assoc],?_⟩
    rw [length_append,length_frame]
    omega
  next hlt =>
    refine .inr ⟨rfl,?_⟩
    rw [length_append,length_frame]
    omega

omit [Target] in
theorem append_frames_cons (rest : List M) :
    buf++frames (message::rest)=buf++frame message++frames rest := by
  simp [frames]

theorem WriteTask.collect_inOrder {rest : List M}
    (hb : task.wire++(buf++frames (message::rest))=frames task.sent) :
    (task.collect message buf rest).InOrder := by
  unfold collect
  rcases encodeNetworkMessage_cases message buf with ⟨he,-⟩ | ⟨he,-⟩
  · rw [he]
    refine .inl ⟨nofun,?_⟩
    rw [append_frames_cons] at hb
    simpa [WritePhase.pending] using hb
  · rw [he]
    exact .inr ⟨rfl,hb ▸ prefix_append _ _⟩

theorem WriteTask.InOrder.step {task' : WriteTask M} {event : WriteEvent M} (h : task.InOrder)
    (hs : task.Step event task') : task'.InOrder := by
  obtain ⟨channel,phase,wire,sent⟩:=task
  cases event with
  | send message =>
    cases hs
    refine h.imp (fun ⟨hp,hb⟩ => ⟨hp,?_⟩) (fun ⟨hp,hb⟩ => ⟨hp,?_⟩)
    · dsimp only at hb ⊢
      rw [frames_append,frames_append,← hb,← append_assoc]
    · dsimp only at hb ⊢
      rw [frames_append]
      exact hb.trans (prefix_append _ _)
  | next =>
    rcases h with ⟨hp,hb⟩ | ⟨hp,-⟩
    · dsimp only at hp hb
      cases phase with
      | waiting =>
        cases channel with
        | nil => cases hs
        | cons message rest =>
          cases hs
          exact collect_inOrder (by simpa [WritePhase.pending] using hb)
      | draining buf =>
        cases channel with
        | nil =>
          cases hs
          exact .inl ⟨nofun,hb⟩
        | cons message rest =>
          cases hs
          exact collect_inOrder (by simpa [WritePhase.pending] using hb)
      | writing buf =>
        cases hs
        refine .inl ⟨nofun,?_⟩
        dsimp only [WritePhase.pending] at hb ⊢
        rw [append_nil,hb]
      | stopped => exact absurd rfl hp
    · dsimp only at hp
      subst hp
      cases hs
  | fail written =>
    rcases h with ⟨hp,hb⟩ | ⟨hp,-⟩
    · dsimp only at hb
      cases phase with
      | writing buf =>
        cases hs
        right
        refine ⟨rfl,?_⟩
        dsimp only [WritePhase.pending] at hb ⊢
        rw [← hb,append_assoc,prefix_append_right_inj]
        exact (List.take_prefix _ _).trans (prefix_append _ _)
      | _ => cases hs
    · dsimp only at hp
      subst hp
      cases hs

theorem WriteTask.Runs.inOrder (h : task.Runs) : task.InOrder := by
  refine h.invariant ?_ fun _ _ _ hs hst => hs.step hst
  rintro _ rfl
  exact .inl ⟨nofun,rfl⟩

/-- What is on the wire is a first part of the frames of what was sent. -/
theorem WriteTask.Runs.wire_eq (h : task.Runs) :
    task.wire=(frames task.sent).take task.wire.length := by
  rcases h.inOrder with ⟨-,hb⟩ | ⟨-,hp⟩
  · rw [← hb,append_assoc,take_left]
  · exact (prefix_iff_eq_take.mp hp)

/-- Once the task waits for a message and none is left, all of them are on the wire. -/
theorem WriteTask.Runs.wire_waiting (h : task.Runs) (hp : task.phase=.waiting)
    (hc : task.channel=[]) : task.wire=frames task.sent := by
  rcases h.inOrder with ⟨-,hb⟩ | ⟨hs,-⟩
  · rw [hp,hc] at hb
    simpa [WritePhase.pending,frames] using hb
  · rw [hp] at hs
    cases hs

/-! ### The progress of the write task -/

/-- The task gets there by itself, while nothing is put into the channel. -/
def WriteTask.Proceeds : WriteTask M → WriteTask M → Prop :=
  Relation.ReflTransGen fun task task' => task.Step .next task'

theorem WriteTask.Runs.proceeds {task' : WriteTask M} (h : task.Runs) (hp : task.Proceeds task') :
    task'.Runs := by
  induction hp with
  | refl => exact h
  | tail _ hs ih => exact ih.next hs

section Progress
variable {channel sent : List M} {wire : List UInt8}

theorem WriteTask.collect_step {rest : List M} (phase : WritePhase)
    (hf : (buf++frames (message::rest)).length ≤ isizeMax) :
    collect ⟨message::rest,phase,wire,sent⟩ message buf rest =
      ⟨rest,.draining (buf++frame message),wire,sent⟩ := by
  rw [append_frames_cons,length_append] at hf
  unfold collect
  rcases encodeNetworkMessage_cases message buf with ⟨he,-⟩ | ⟨-,hlt⟩
  · rw [he]
  · omega

theorem WriteTask.draining_proceeds (hf : (buf++frames channel).length ≤ isizeMax) :
    Proceeds ⟨channel,.draining buf,wire,sent⟩ ⟨[],.waiting,wire++(buf++frames channel),sent⟩ := by
  induction channel generalizing buf with
  | nil =>
    have hw : Step ⟨[],.draining buf,wire,sent⟩ .next ⟨([] : List M),.writing buf,wire,sent⟩:=rfl
    refine .head hw (.single ?_)
    simp [Step,step,frames]
  | cons message rest ih =>
    have hc : Step ⟨message::rest,.draining buf,wire,sent⟩ .next _ :=
      congrArg some (collect_step _ hf)
    rw [append_frames_cons] at hf ⊢
    exact .head hc (ih hf)

theorem WriteTask.waiting_proceeds (hf : (frames channel).length ≤ isizeMax) :
    Proceeds ⟨channel,.waiting,wire,sent⟩ ⟨[],.waiting,wire++frames channel,sent⟩ := by
  cases channel with
  | nil =>
    rw [show frames ([] : List M)=[] from rfl,append_nil]
    exact .refl
  | cons message rest =>
    have hf : ([]++frames (message::rest)).length ≤ isizeMax:=hf
    have hc : Step ⟨message::rest,.waiting,wire,sent⟩ .next _ :=
      congrArg some (collect_step _ hf)
    rw [← nil_append (frames (message::rest)),append_frames_cons] at hf ⊢
    exact .head hc (draining_proceeds hf)

end Progress

/-- A task that is not gone writes what it has, unless the batch gets too long. -/
theorem WriteTask.exists_waiting (hp : task.phase≠.stopped) (hf : task.batch.length ≤ isizeMax) :
    ∃task',task.Proceeds task' ∧ task'.sent=task.sent ∧ task'.phase=.waiting ∧
      task'.channel=[] := by
  obtain ⟨channel,phase,wire,sent⟩:=task
  cases phase with
  | waiting => exact ⟨_,waiting_proceeds hf,rfl,rfl,rfl⟩
  | draining buf => exact ⟨_,draining_proceeds hf,rfl,rfl,rfl⟩
  | writing buf =>
    have hw : Step ⟨channel,.writing buf,wire,sent⟩ .next ⟨channel,.waiting,wire++buf,sent⟩:=rfl
    exact ⟨_,.head hw (waiting_proceeds hf),rfl,rfl,rfl⟩
  | stopped => exact absurd rfl hp

theorem WriteTask.collect_stopped {rest : List M}
    (h : (task.collect message buf rest).phase=.stopped) :
    isizeMax<(buf++frames (message::rest)).length := by
  unfold collect at h
  rcases encodeNetworkMessage_cases message buf with ⟨he,-⟩ | ⟨-,hlt⟩
  · rw [he] at h
    cases h
  · rw [append_frames_cons,length_append]
    omega

/-- The task is gone when the transport has failed or the batch has got too long. -/
theorem WriteTask.Step.stopped {task' : WriteTask M} {event : WriteEvent M}
    (hs : task.Step event task') (hp : task'.phase=.stopped) :
    task.phase=.stopped ∨ (∃written,event=.fail written) ∨
      event=.next ∧ isizeMax<task.batch.length := by
  obtain ⟨channel,phase,wire,sent⟩:=task
  cases event with
  | send message =>
    cases hs
    exact .inl hp
  | next =>
    cases phase with
    | waiting =>
      cases channel with
      | nil => cases hs
      | cons message rest =>
        cases hs
        exact .inr (.inr ⟨rfl,collect_stopped hp⟩)
    | draining buf =>
      cases channel with
      | nil =>
        cases hs
        cases hp
      | cons message rest =>
        cases hs
        exact .inr (.inr ⟨rfl,collect_stopped hp⟩)
    | writing buf =>
      cases hs
      cases hp
    | stopped => exact .inl rfl
  | fail written => exact .inr (.inl ⟨written,rfl⟩)

end
end Writing

/-- Frame stream round trip: however the write task batches the messages and the transport splits
the bytes, the write task gets all that was sent on the wire as long as it is not gone and its batch
fits in a vector, and is only gone when the transport fails or a batch does not fit. Once all is on
the wire, the reader gets the messages in order and then finds the end of the stream. If the stream
is cut, it gets the messages whose frames are complete. A header beyond the limits fails before a
byte behind it is read. Reading a payload ends, asks for no more than a chunk at a time and for no
byte behind the payload. -/
theorem frame_stream_round_trip [Target] {M : Type} [ProstMessage M] (maxFrameSize : ℕ)
    (splits : ℕ → ℕ) :
    (∀task : WriteTask M,task.Runs → (∀message∈task.sent,Fits maxFrameSize message) →
      (task.phase≠.stopped → task.batch.length ≤ isizeMax → ∃task',task.Proceeds task' ∧
        task'.sent=task.sent ∧ task'.phase=.waiting ∧ task'.channel=[]) ∧
      (∀event task',task.Step event task' → task'.phase=.stopped →
        task.phase=.stopped ∨ (∃written,event=.fail written) ∨
          event=.next ∧ isizeMax<task.batch.length) ∧
      (task.phase=.waiting → task.channel=[] → ∃text,readAll maxFrameSize ⟨task.wire,splits,0,[]⟩ =
          (task.sent,⟨.unexpectedEof,text⟩)) ∧
      ∀count≤task.wire.length,∃text,readAll maxFrameSize ⟨task.wire.take count,splits,0,[]⟩ =
          (completeIn count task.sent,⟨.unexpectedEof,text⟩)) ∧
    (∀header rest : List UInt8,header.length=8 →
      maxFrameSize<beValue header ∨ isizeMax<beValue header →
      ∃text s',readNetworkMessage (M:=M) ⟨header++rest,splits,0,[]⟩ maxFrameSize =
          (.error ⟨.invalidData,text⟩,s') ∧ s'.remaining=rest ∧
        ByteStream.AsksWithin ⟨header++rest,splits,0,[]⟩ 8 8 s') ∧
    ∀(s : ByteStream) (len : ℕ),s.AsksWithin frameReadChunkSize len (readNBytes s len).2 ∧
      (len ≤ isizeMax→len ≤ s.remaining.length → (readNBytes s len).1=.ok (s.remaining.take len) ∧
          (readNBytes s len).2.remaining=s.remaining.drop len) ∧
      (len ≤ isizeMax→s.remaining.length<len →
        (readNBytes s len).1=.error ⟨.unexpectedEof,"EOF"⟩) := by
  refine ⟨fun task hrun hfits => ⟨WriteTask.exists_waiting,fun event task' hs hp => hs.stopped hp,
    fun hphase hchannel => ?_,fun count hcount => ?_⟩,?_,?_⟩
  · have hwire:=hrun.wire_waiting hphase hchannel
    have htake : task.wire=(frames task.sent).take (frames task.sent).length := by
      rw [hwire,take_length]
    have hread:=readAll_frames_take (s:=⟨task.wire,splits,0,[]⟩) hfits htake
    rwa [completeIn_length] at hread
  · refine readAll_frames_take hfits ?_
    dsimp only
    rw [hrun.wire_eq,take_take,Nat.min_eq_left hcount]
  · intro header rest hheader hlarge
    exact readNetworkMessage_oversized hheader rfl hlarge
  · intro s len
    refine ⟨readLoop_asksWithin s [],fun hlen henough => ?_,fun hlen hshort => ?_⟩
    · obtain ⟨s',hs',hrest⟩:=readNBytes_ok s hlen henough
      rw [hs']
      exact ⟨rfl,hrest⟩
    · obtain ⟨s',hs'⟩:=readNBytes_eof s hlen hshort
      rw [hs']

structure RawMessage where
  bytes : List UInt8

instance : ProstMessage RawMessage where
  encodedLen message:=message.bytes.length
  encode message:=message.bytes
  decode bytes:=.ok ⟨bytes⟩
  length_encode _:=rfl
  decode_encode _:=rfl

/-- Two messages that went out in one batch are read byte by byte. -/
theorem frame_stream_round_trip_batch :
    letI:=Target.wide
    ∃task task' : WriteTask RawMessage,task.Runs ∧ task.sent=[⟨[1]⟩,⟨[2,3]⟩] ∧
      task.Proceeds task' ∧ ∃text,readAll 2 ⟨task'.wire,fun _ => 1,0,[]⟩ =
        (task.sent,⟨.unexpectedEof,text⟩) := by
  let _ := Target.wide
  have hisize : @isizeMax Target.wide=2^63 - 1:=rfl
  have hrun : WriteTask.Runs (M:=RawMessage)
      ⟨[⟨[2,3]⟩],.draining (beBytes 8 1++[1]),[],[⟨[1]⟩,⟨[2,3]⟩]⟩ :=
    Reachable.execute (f:=WriteTask.step) (fun _ _ _ hs => hs)
      [.send ⟨[1]⟩,.next,.send ⟨[2,3]⟩] (.start rfl) rfl
  have hfits : ∀message∈[(⟨[1]⟩ : RawMessage),⟨[2,3]⟩],Fits 2 message := by
    simp [Fits,ProstMessage.encodedLen,hisize]
  obtain ⟨task',hproceeds,hsent,hwaiting,hempty⟩ :=
    ((frame_stream_round_trip 2 fun _ => 1).1 _ hrun hfits).1 nofun (by decide)
  refine ⟨_,task',hrun,rfl,hproceeds,?_⟩
  have hfits' : ∀message∈task'.sent,Fits 2 message:=hsent ▸ hfits
  have hread:=((frame_stream_round_trip 2 fun _ => 1).1 _ (hrun.proceeds hproceeds)
    hfits').2.2.1 hwaiting hempty
  rwa [hsent] at hread

/-- The frame of a message whose payload is as long as a vector may be does not fit in a vector: the
write task is gone, and nothing is ever put on the wire. -/
theorem longest_payload_stops_write_task :
    letI:=Target.wide
    ∃message : RawMessage,Fits isizeMax message ∧ ∃task : WriteTask RawMessage,task.Runs ∧
      task.sent=[message] ∧ task.phase=.stopped ∧
      ∀task',Reachable (· = task) WriteTask.Step task'→task'.wire=[] := by
  let _ := Target.wide
  obtain ⟨message,hlen⟩ : ∃message : RawMessage,message.bytes.length=isizeMax :=
    ⟨⟨replicate isizeMax 0⟩,length_replicate⟩
  have hsent : WriteTask.Runs ⟨[message],.waiting,[],[message]⟩ :=
    Reachable.execute (f:=WriteTask.step) (fun _ _ _ hs => hs) [.send message] (.start rfl) rfl
  have hstop : WriteTask.Step ⟨[message],.waiting,[],[message]⟩ .next
      ⟨[],.stopped,[],[message]⟩ := by
    have hn : encodeNetworkMessage message []=none:=if_neg (by
      simp only [ProstMessage.encodedLen,hlen]
      omega)
    simp [WriteTask.Step,WriteTask.step,WriteTask.collect,hn]
  refine ⟨message,⟨Nat.le_of_eq hlen,Nat.le_of_eq hlen⟩,_,hsent.next hstop,rfl,rfl,fun task' h => ?_⟩
  have hgone:=h.invariant (P:=fun task => task.phase=.stopped ∧ task.wire=[])
    (fun _ he => he ▸ ⟨rfl,rfl⟩) fun task event task' hg hs => by
      obtain ⟨channel,phase,wire,sent⟩:=task
      obtain ⟨rfl,rfl⟩:=hg
      cases event with
      | send message =>
        cases hs
        exact ⟨rfl,rfl⟩
      | next => cases hs
      | fail written => cases hs
  exact hgone.2

end Ractor
