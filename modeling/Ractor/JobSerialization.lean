import Ractor.FactoryJobs
import Ractor.MessageDecoding
import Ractor.WireBytes

/-!
# Jobs on the wire

A job is sent to a factory on another node as its inner message, and the metadata of the message
carries the options and the key: 8 bytes for the submit time, 8 bytes for the time to live and as
many as the key takes. A time to live of zero is written like none at all, so that a job with one is
never expired on arrival. Every other time to live arrives, and a job is then expired at the remote
factory exactly when it is expired at its sender.
-/

namespace Ractor.Factory
open JobOptions

/-- What `SystemTime::now` and `Instant::now` return. -/
structure Clocks where
  systemTime : SystemTime
  instant : Instant

/-- The two clocks of a host at a time: the instants of a host count from a time of its own. -/
def Clocks.at (started time : ℕ) : Clocks:=⟨time,started+time⟩

variable (submitTime ttl : ℕ) (clocks : Clocks)

def TtlTimer.new (now : Instant) : TtlTimer:=⟨now,ttl,false⟩

/-- `duration_since` fails for a submit time ahead of the clock, which counts as no time. -/
def TtlTimer.fromSubmitTime : TtlTimer :=
  let elapsed := clocks.systemTime - submitTime
  ⟨clocks.instant,ttl - elapsed,decide (ttl<elapsed)⟩

theorem TtlTimer.fromSubmitTime_isExpired {started sent now : ℕ} (hs : submitTime ≤ sent)
    (hn : sent≤now) :
    (fromSubmitTime submitTime ttl (.at started sent)).isExpired (started+now) =
      decide (ttl<now - submitTime) := by
  show (decide (ttl<sent - submitTime) ||
    decide (ttl - (sent - submitTime)<started+now - (started+sent)))=_
  rw [Bool.eq_iff_iff]
  simp only [Bool.or_eq_true,decide_eq_true_eq]
  omega

theorem TtlTimer.new_eq_fromSubmitTime (started : ℕ) :
    new ttl (started+submitTime)=fromSubmitTime submitTime ttl (.at started submitTime) := by
  simp [new,fromSubmitTime,Clocks.at]

namespace JobOptions

def new (ttl : Option Duration) : JobOptions :=
  ⟨clocks.systemTime,ttl,ttl.map (.new · clocks.instant),0⟩

variable (options : JobOptions)

def resetTtlTimer : JobOptions :=
  {options with ttlTimer:=options.ttl.map (.fromSubmitTime options.submitTime · clocks)}

def intoBytes : List UInt8 :=
  beBytes 8 (options.submitTime % 2^64)++beBytes 8 ((options.ttl.map (· % 2^64)).getD 0)

def fromBytes (data : List UInt8) : JobOptions :=
  if data.length≠16 then new clocks none
  else
    let ttl := beValue (data.drop 8)
    resetTtlTimer clocks
      { submitTime:=beValue (data.take 8),ttl:=if 0<ttl then some ttl else none,
        ttlTimer:=none,tag:=0 }

@[simp] theorem length_intoBytes : options.intoBytes.length=16 := by
  simp [intoBytes]

/-- Zero stands for no time to live. -/
theorem fromBytes_intoBytes (hs : options.submitTime<2^64)
    (ht : ∀ttl,options.ttl=some ttl→ttl<2^64) :
    fromBytes clocks options.intoBytes =
      resetTtlTimer clocks {options with ttl:=options.ttl.filter (0 < ·),tag:=0} := by
  have hl:=length_beBytes 8 (options.submitTime % 2^64)
  have hv (n : ℕ) (hn : n<2^64) : beValue (beBytes 8 (n % 2^64))=n := by
    rw [Nat.mod_eq_of_lt hn]
    exact beValue_beBytes hn
  rw [fromBytes,if_neg (by simp)]
  simp only [intoBytes,List.take_left' hl,List.drop_left' hl,hv _ hs]
  cases hto : options.ttl with
  | none => simp [resetTtlTimer,beValue_beBytes]
  | some ttl =>
    simp only [Option.map_some,Option.getD_some,hv _ (ht ttl hto),Option.filter_some,
      decide_eq_true_eq,resetTtlTimer]

end JobOptions

/-- The `BytesConvertable` of a key type. -/
structure KeyBytes (Key : Type) where
  intoBytes : Key → List UInt8
  fromBytes : List UInt8 → Key

namespace Job
variable {Key Msg Port : Type} (keys : KeyBytes Key) (inner : MessageCodec Port Msg)
  (job : Job Key Msg)

def serializeMeta : List UInt8 × Msg :=
  (job.options.intoBytes++keys.intoBytes job.key,job.msg)

def deserializeMeta : Option (List UInt8) → Outcome BoxedDowncastErr (Key × JobOptions)
  | some bytes =>
    if bytes.length<16 then .err ⟨⟩
    else .ok (keys.fromBytes (bytes.drop 16),.fromBytes clocks (bytes.take 16))
  | none => .err ⟨⟩

def serialize : Outcome BoxedDowncastErr (SerializedMessage Port) :=
  let (bytes,msg) := job.serializeMeta keys
  match inner.serialize msg with
  | .ok (.callReply _ _) => .err ⟨⟩
  | .ok (.call variant args reply _) => .ok (.call variant args reply (some bytes))
  | .ok (.cast variant args _) => .ok (.cast variant args (some bytes))
  | .err e => .err e
  | .panicked payload => .panicked payload

/-- The end of `deserialize`, with the message that is left for the inner one. -/
def deserializeWith (metadata : Option (List UInt8)) (message : SerializedMessage Port) :
    Outcome BoxedDowncastErr (Job Key Msg) :=
  match deserializeMeta clocks keys metadata with
  | .ok (key,options) =>
    match inner.deserialize message with
    | .ok msg => .ok ⟨key,msg,options,none⟩
    | .err e => .err e
    | .panicked payload => .panicked payload
  | .err e => .err e
  | .panicked payload => .panicked payload

def deserialize : SerializedMessage Port → Outcome BoxedDowncastErr (Job Key Msg)
  | .callReply _ _ => .err ⟨⟩
  | .cast variant args metadata =>
    deserializeWith clocks keys inner metadata (.cast variant args none)
  | .call variant args reply metadata =>
    deserializeWith clocks keys inner metadata (.call variant args reply none)

def codec : MessageCodec Port (Job Key Msg) where
  serializable:=inner.serializable
  serialize:=serialize keys inner
  deserialize:=deserialize clocks keys inner

theorem deserializeMeta_serializeMeta (hkey : keys.fromBytes (keys.intoBytes job.key)=job.key) :
    deserializeMeta clocks keys (some (job.serializeMeta keys).1) =
      .ok (job.key,.fromBytes clocks job.options.intoBytes) := by
  have hl:=job.options.length_intoBytes
  simp [deserializeMeta,serializeMeta,List.take_left' hl,List.drop_left' hl,hkey]

/-- What is left for the inner message of a job on arrival: a job writes its metadata over that of the
message inside it, and takes it out again. -/
def withoutMetadata : SerializedMessage Port → Option (SerializedMessage Port)
  | .cast variant args _ => some (.cast variant args none)
  | .call variant args reply _ => some (.call variant args reply none)
  | .callReply _ _ => none

variable {wire : SerializedMessage Port} {job' : Job Key Msg}

theorem arrives_iff (job' : Job Key Msg) (hkey : keys.fromBytes (keys.intoBytes job.key)=job.key)
    (hwire : inner.serialize job.msg=.ok wire) :
    (∃message,job.serialize keys inner=.ok message ∧
      deserialize clocks keys inner message=.ok job') ↔
      ∃msg,(withoutMetadata wire).map inner.deserialize=some (.ok msg) ∧
        job'=⟨job.key,msg,.fromBytes clocks job.options.intoBytes,none⟩ := by
  have hmeta:=deserializeMeta_serializeMeta clocks keys job hkey
  simp only [serializeMeta] at hmeta
  -- the job arrives if and only if the inner message is read back from what is left for it
  have hwith (bare : SerializedMessage Port) :
      deserializeWith clocks keys inner (some (job.options.intoBytes++keys.intoBytes job.key)) bare =
        .ok job' ↔ ∃msg,inner.deserialize bare=.ok msg ∧
          job'=⟨job.key,msg,.fromBytes clocks job.options.intoBytes,none⟩ := by
    simp only [deserializeWith,hmeta]
    cases inner.deserialize bare <;> simp [eq_comm]
  cases wire <;> simp [serialize,serializeMeta,hwire,deserialize,withoutMetadata,hwith]

theorem filter_pos_eq_self_iff {ttl : Option Duration} : ttl.filter (0 < ·)=ttl ↔ ttl≠some 0 := by
  rcases ttl with _ | _ | ttl <;> simp

theorem isExpired_of_timer {started sent now : ℕ} (h : job.options.ttlTimer =
      job.options.ttl.map (.fromSubmitTime job.options.submitTime · (.at started sent)))
    (hs : job.options.submitTime ≤ sent) (hn : sent≤now) :
    job.isExpired (started+now) =
      job.options.ttl.any fun ttl => decide (ttl<now - job.options.submitTime) := by
  simp only [isExpired,h]
  cases job.options.ttl with
  | none => rfl
  | some ttl => exact TtlTimer.fromSubmitTime_isExpired _ _ hs hn

/-- A job arrives with its key, its submit time and its time to live if and only if that is not zero
and the message inside it can be read without metadata of its own. At a remote factory whose clock
agrees with the sender's, it is then expired whenever it is expired at its sender. -/
theorem metadata_survives_wire (hkey : keys.fromBytes (keys.intoBytes job.key)=job.key)
    (hwire : inner.serialize job.msg=.ok wire) (hsubmit : job.options.submitTime<2^64)
    (httl : ∀ttl,job.options.ttl=some ttl → ttl<2^64) (msg : Msg) :
    (∃message job',(codec clocks keys inner).serialize job=.ok message ∧
      (codec clocks keys inner).deserialize message=.ok job' ∧ job'.key=job.key ∧
      job'.msg=msg ∧ job'.options.submitTime=job.options.submitTime ∧
      job'.options.ttl=job.options.ttl ∧
      ∀started started' received now,clocks=.at started' received →
        job.options={new (.at started job.options.submitTime) job.options.ttl with
          tag:=job.options.tag} →
        job.options.submitTime≤received → received≤now →
        job'.isExpired (started'+now)=job.isExpired (started+now)) ↔
      job.options.ttl≠some 0 ∧ (withoutMetadata wire).map inner.deserialize=some (.ok msg) := by
  have harrives (job' : Job Key Msg):=arrives_iff clocks keys inner job job' hkey hwire
  simp only [job.options.fromBytes_intoBytes clocks hsubmit httl] at harrives
  constructor
  · rintro ⟨message,job',hs,hd,-,rfl,-,ht,-⟩
    obtain ⟨msg,hmsg,rfl⟩:=(harrives job').mp ⟨message,hs,hd⟩
    exact ⟨filter_pos_eq_self_iff.mp ht,hmsg⟩
  · rintro ⟨hz,hmsg⟩
    obtain ⟨message,hs,hd⟩:=(harrives _).mpr ⟨msg,hmsg,rfl⟩
    rw [filter_pos_eq_self_iff.mpr hz] at hd
    refine ⟨message,_,hs,hd,rfl,rfl,rfl,rfl,?_⟩
    intro started started' received now hc hnew hle hnow
    subst hc
    have htimer:=congrArg ttlTimer hnew
    simp only [new,Clocks.at,TtlTimer.new_eq_fromSubmitTime] at htimer
    exact (isExpired_of_timer ⟨job.key,msg,.resetTtlTimer (.at started' received)
      {job.options with tag:=0},none⟩ rfl hle hnow).trans (isExpired_of_timer job htimer
        (Nat.le_refl _) (Nat.le_trans hle hnow)).symm

/-! ### A time to live of zero -/

def unitKeys : KeyBytes Unit:=⟨fun _ => [],fun _ => ()⟩

def unitCodec : MessageCodec Unit Unit:=⟨true,fun _ => .ok (.cast "Ping" [] none),fun _ => .ok ()⟩

/-- A job without a message or a key to speak of, submitted at time 5. -/
def ping (ttl : Option Duration) : Job Unit Unit:=⟨(),(),.new (.at 0 5) ttl,none⟩

theorem metadata_survives_wire_ping :
    ∃message job',(codec (.at 3 9) unitKeys unitCodec).serialize (ping (some 7))=.ok message ∧
      (codec (.at 3 9) unitKeys unitCodec).deserialize message=.ok job' ∧
      job'.options.ttl=some 7 ∧ job'.isExpired (3+13)=true ∧ job'.isExpired (3+12)=false := by
  obtain ⟨message,job',hs,hd,-,-,-,ht,he⟩:=(metadata_survives_wire (.at 3 9) unitKeys unitCodec
    (ping (some 7)) rfl rfl (by decide) (by simp [ping,new]) ()).mpr ⟨by decide,rfl⟩
  exact ⟨message,job',hs,hd,ht,he 0 3 9 13 rfl rfl (by decide) (by decide),
    he 0 3 9 12 rfl rfl (by decide) (by decide)⟩

/-- A job that may not wait at all arrives as one that may wait forever. -/
theorem zero_ttl_lost :
    ∃message job',(codec (.at 3 9) unitKeys unitCodec).serialize (ping (some 0))=.ok message ∧
      (codec (.at 3 9) unitKeys unitCodec).deserialize message=.ok job' ∧
      (ping (some 0)).options.ttl=some 0 ∧ job'.options.ttl=none ∧
      (ping (some 0)).isExpired 6=true ∧ ∀now,job'.isExpired now=false := by
  obtain ⟨message,hs,hd⟩:=(arrives_iff (.at 3 9) unitKeys unitCodec (ping (some 0)) _ rfl
    rfl).mpr ⟨(),rfl,rfl⟩
  rw [fromBytes_intoBytes _ _ (by decide) (by simp [ping,new])] at hd
  exact ⟨message,_,hs,hd,rfl,rfl,rfl,fun _ => rfl⟩

end Job
end Ractor.Factory
