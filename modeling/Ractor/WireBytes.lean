import Mathlib.Data.List.Induction
import Mathlib.Algebra.Group.Nat.Defs

/-!
# Bytes on the wire

Numbers as big-endian bytes of a fixed width, and blocks of bytes behind their length. A `Target`
fixes the size of a pointer, and with it the largest vector.
-/

namespace Ractor
open List

/-! ### Machine integers -/

/-- The pointer width of the machine a program is compiled for. -/
class Target where
  pointerWidth : ℕ
  pos : 0<pointerWidth
  le : pointerWidth≤64

@[reducible] def Target.wide : Target:=⟨64,by decide,by decide⟩

section Target
variable [Target]

def isizeMax : ℕ:=2^(Target.pointerWidth - 1) - 1

def usizeMax : ℕ:=2^Target.pointerWidth - 1

theorem isizeMax_lt_usizeMax : isizeMax<usizeMax := by
  have hpos:=Target.pos
  have hs : 2^Target.pointerWidth=2*2^(Target.pointerWidth - 1) := by
    rw [← Nat.pow_succ']
    congr 1
    omega
  have htwo : 0<2^(Target.pointerWidth - 1):=Nat.two_pow_pos _
  simp only [isizeMax,usizeMax]
  omega

theorem usizeMax_lt : usizeMax<2^64 := by
  have htwo : 0<2^Target.pointerWidth:=Nat.two_pow_pos _
  have hle : 2^Target.pointerWidth≤2^64:=Nat.pow_le_pow_right (by decide) Target.le
  simp only [usizeMax]
  omega

end Target

/-! ### Big-endian bytes -/

/-- The `width` low-order bytes of a number, the most significant one first. -/
def beBytes : ℕ → ℕ → List UInt8
  | 0,_ => []
  | width+1,n => beBytes width (n / 256)++[UInt8.ofNat n]

variable (bytes : List UInt8)

def beValue : ℕ :=
  bytes.foldl (fun n byte => n*256+byte.toNat) 0

@[simp] theorem length_beBytes (width n : ℕ) : (beBytes width n).length=width := by
  induction width generalizing n with
  | zero => rfl
  | succ width ih => simp [beBytes,ih]

theorem beValue_append_singleton (byte : UInt8) :
    beValue (bytes++[byte])=beValue bytes*256+byte.toNat := by
  simp [beValue,foldl_append]

theorem beValue_beBytes {width n : ℕ} (h : n<256^width) : beValue (beBytes width n)=n := by
  induction width generalizing n with
  | zero =>
    have hz : n=0 := by simpa using h
    rw [hz]
    rfl
  | succ width ih =>
    have hdiv : n / 256<256^width := by
      rw [Nat.pow_succ] at h
      omega
    rw [beBytes,beValue_append_singleton,ih hdiv,UInt8.toNat_ofNat']
    omega

theorem beBytes_beValue : beBytes bytes.length (beValue bytes)=bytes := by
  induction bytes using reverseRecOn with
  | nil => rfl
  | append_singleton bytes byte ih =>
    have hb:=byte.toNat_lt
    have hdiv : (beValue bytes*256+byte.toNat) / 256=beValue bytes := by omega
    have hmod : UInt8.ofNat (beValue bytes*256+byte.toNat)=byte := by
      apply UInt8.toNat_inj.mp
      rw [UInt8.toNat_ofNat']
      omega
    rw [beValue_append_singleton,length_append,length_singleton,beBytes,hdiv,hmod,ih]

/-! ### Length-prefixed blocks -/

def lengthPrefixed (payload : List UInt8) : List UInt8 :=
  beBytes 8 payload.length++payload

@[simp] theorem length_lengthPrefixed (payload : List UInt8) :
    (lengthPrefixed payload).length=8+payload.length := by
  simp [lengthPrefixed]

def takePrefixed : Option (List UInt8 × List UInt8) :=
  if 8≤bytes.length then
    let size := beValue (bytes.take 8)
    let rest := bytes.drop 8
    if size≤rest.length then some (rest.take size,rest.drop size) else none
  else none

theorem takePrefixed_lengthPrefixed {payload : List UInt8} (h : payload.length<2^64)
    (rest : List UInt8) : takePrefixed (lengthPrefixed payload++rest)=some (payload,rest) := by
  have hh : (lengthPrefixed payload++rest).take 8=beBytes 8 payload.length := by
    rw [lengthPrefixed,append_assoc,take_left' (length_beBytes _ _)]
  have hr : (lengthPrefixed payload++rest).drop 8=payload++rest := by
    rw [lengthPrefixed,append_assoc,drop_left' (length_beBytes _ _)]
  have hs : beValue (beBytes 8 payload.length)=payload.length:=beValue_beBytes (by omega)
  have he : 8≤(lengthPrefixed payload++rest).length := by
    rw [length_append,length_lengthPrefixed]
    omega
  simp only [takePrefixed,hh,hr,hs,if_pos he,take_left,drop_left]
  rw [if_pos (by rw [length_append]; omega)]

theorem eq_of_takePrefixed {bytes payload rest : List UInt8}
    (h : takePrefixed bytes=some (payload,rest)) : bytes=lengthPrefixed payload++rest := by
  unfold takePrefixed at h
  split at h
  next he =>
    dsimp only at h
    split at h
    next hs =>
      cases h
      have hh : (bytes.take 8).length=8 := by
        rw [length_take]
        omega
      have hl : ((bytes.drop 8).take (beValue (bytes.take 8))).length=beValue (bytes.take 8) := by
        rw [length_take]
        omega
      have hb:=beBytes_beValue (bytes.take 8)
      rw [hh] at hb
      rw [lengthPrefixed,hl,hb,append_assoc,take_append_drop,take_append_drop]
    next => cases h
  next => cases h

end Ractor
