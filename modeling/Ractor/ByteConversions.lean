import Ractor.WireBytes
import Mathlib.Data.Nat.Basic
import Mathlib.Algebra.BigOperators.Group.List.Basic

/-!
# Conversions to bytes and back

The `BytesConvertable` implementations of `serialization.rs`. A conversion is `none` where the code
panics, which includes every slice that is out of range and every index that overflows a `usize`.
Numbers are taken as their bits, of either sign and also for floats: `to_be_bytes` looks at nothing
else. The buffers are assumed to be there, as they are no larger than the vector that is converted.
-/

namespace Ractor
open List

/-! ### Loops over a buffer -/

/-- A loop that goes from one given state to the next. -/
theorem foldlM_range_eq_some {σ : Type} {f : σ→ℕ→Option σ} {n : ℕ} (state : ℕ→σ)
    (h : ∀i<n,f (state i) i=some (state (i+1))) :
    (range n).foldlM f (state 0)=some (state n) := by
  induction n with
  | zero => rfl
  | succ n ih =>
    rw [range_succ,foldlM_append,ih fun i hi => h i (Nat.lt_succ_of_lt hi)]
    simp [h n (Nat.lt_succ_self n)]

section Elements
variable {α : Type} {size : ℕ} {encode : α → List UInt8} {items : List α}

theorem length_flatMap_const (h : ∀item,(encode item).length=size) (items : List α) :
    (items.flatMap encode).length=items.length*size := by
  simp [length_flatMap,h]

/-- The elements from a position on stand behind the bytes of those before it. -/
theorem drop_flatMap_const (h : ∀item,(encode item).length=size) (items : List α) (i : ℕ) :
    (items.flatMap encode).drop (i*size)=(items.drop i).flatMap encode := by
  induction items generalizing i with
  | nil => simp
  | cons item items ih =>
    cases i with
    | zero => simp
    | succ i =>
      rw [flatMap_cons,drop_succ_cons,← ih i,Nat.succ_mul,Nat.add_comm,← drop_drop,
        drop_left' (h item)]

variable [Target]

def elementRange (size offset : ℕ) : Option (ℕ × ℕ) :=
  if offset*size+size≤usizeMax then some (offset*size,offset*size+size) else none

def copyInto (buffer : List UInt8) (range : ℕ × ℕ) (source : List UInt8) : Option (List UInt8) :=
  if range.2≤buffer.length ∧ source.length=range.2 - range.1 then
    some (buffer.take range.1++source++buffer.drop range.2)
  else none

def sliceAt (buffer : List UInt8) (range : ℕ × ℕ) : Option (List UInt8) :=
  if range.2≤buffer.length then some ((buffer.take range.2).drop range.1) else none

def storeAt (result : List α) (offset : ℕ) (value : α) : Option (List α) :=
  if offset<result.length then some (result.set offset value) else none

/-- The loop of `into_bytes` over the elements of a vector. -/
def writeElements (size : ℕ) (encode : α → List UInt8) (items : List α) : Option (List UInt8) :=
  (range items.length).foldlM (fun result offset => do
    let item ← items[offset]?
    let range ← elementRange size offset
    copyInto result range (encode item)) (replicate (items.length*size) 0)

/-- The loop of `from_bytes` over the elements of a vector, which are `fill` at first. -/
def readElements (size : ℕ) (decode : List UInt8 → α) (fill : α) (bytes : List UInt8) :
    Option (List α) :=
  (range (bytes.length / size)).foldlM (fun result offset => do
    let range ← elementRange size offset
    let data ← sliceAt bytes range
    storeAt result offset (decode data)) (replicate (bytes.length / size) fill)

theorem elementRange_eq {n i : ℕ} (hi : i<n) (hf : n*size≤usizeMax) :
    elementRange size i=some (i*size,i*size+size) := by
  have hm : (i+1)*size≤n*size:=Nat.mul_le_mul_right size hi
  rw [Nat.succ_mul] at hm
  exact if_pos (hm.trans hf)

/-- Every element is written behind the ones before it. -/
theorem writeElements_eq (h : ∀item,(encode item).length=size) (hf : items.length*size≤usizeMax) :
    writeElements size encode items=some (items.flatMap encode) := by
  have hloop:=foldlM_range_eq_some (n:=items.length) (f:=fun result offset => do
      let item ← items[offset]?
      let range ← elementRange size offset
      copyInto result range (encode item))
    (fun i => (items.take i).flatMap encode++replicate ((items.length - i)*size) 0)
    fun i hi => ?_
  · simpa [writeElements] using hloop
  have hl : ((items.take i).flatMap encode).length=i*size := by
    rw [length_flatMap_const h,length_take_of_le hi.le]
  have hn : (items.length - i)*size=size+(items.length - (i+1))*size := by
    rw [show items.length - i=items.length - (i+1)+1 by omega,Nat.succ_mul,Nat.add_comm]
  have ht : (items.take (i+1)).flatMap encode=(items.take i).flatMap encode++encode items[i] := by
    rw [← take_append_getElem hi,flatMap_append,flatMap_singleton]
  rw [getElem?_eq_getElem hi,elementRange_eq hi hf,ht,hn,← replicate_append_replicate]
  simp only [Option.bind_eq_bind,Option.bind_some,copyInto]
  rw [if_pos,take_left' hl,← append_assoc ((items.take i).flatMap encode),drop_left' (by simp [hl])]
  simp [hl,h]

/-- Every element is read from the bytes that it was written to. -/
theorem readElements_eq (hpos : 0<size) (h : ∀item,(encode item).length=size)
    {decode : List UInt8→α} (hd : ∀item,decode (encode item)=item) (fill : α)
    (hf : items.length*size≤usizeMax) :
    readElements size decode fill (items.flatMap encode)=some items := by
  have hlen:=length_flatMap_const h items
  have hloop:=foldlM_range_eq_some (n:=items.length) (f:=fun result offset => do
      let range ← elementRange size offset
      let data ← sliceAt (items.flatMap encode) range
      storeAt result offset (decode data))
    (fun i => items.take i++replicate (items.length - i) fill) fun i hi => ?_
  · rw [readElements,hlen,Nat.mul_div_cancel _ hpos]
    simpa using hloop
  have hm : (i+1)*size ≤ items.length*size:=Nat.mul_le_mul_right size hi
  rw [Nat.succ_mul] at hm
  have hs : sliceAt (items.flatMap encode) (i*size,i*size+size)=some (encode items[i]) := by
    rw [sliceAt,if_pos (hm.trans_eq hlen.symm),drop_take,drop_flatMap_const h,
      drop_eq_getElem_cons hi,flatMap_cons,Nat.add_sub_cancel_left,take_left' (h _)]
  have hn : items.length - i=items.length - (i+1)+1 := by omega
  rw [elementRange_eq hi hf]
  simp only [Option.bind_eq_bind,Option.bind_some,hs,hd,storeAt]
  rw [if_pos (by simp; omega),← take_append_getElem hi,hn,replicate_succ,
    set_append_right _ _ (length_take_le _ _),length_take_of_le hi.le,Nat.sub_self,set_cons_zero,
    append_assoc]
  rfl

end Elements

/-! ### The types -/

/-- The types of `implement_numeric`. -/
inductive Numeric where
  | i8 | i16 | i32 | i64 | i128 | u8 | u16 | u32 | u64 | u128 | f32 | f64
  deriving DecidableEq, Repr

namespace Numeric

def size : Numeric → ℕ
  | i8 | u8 => 1
  | i16 | u16 => 2
  | i32 | u32 | f32 => 4
  | i64 | u64 | f64 => 8
  | i128 | u128 => 16

abbrev Bits (ty : Numeric):=BitVec (8*ty.size)

def min : (ty : Numeric) → ty.Bits
  | i8 | i16 | i32 | i64 | i128 => BitVec.intMin _
  | u8 | u16 | u32 | u64 | u128 => 0
  | f32 => 0xff7fffff
  | f64 => 0xffefffffffffffff

def toBeBytes {ty : Numeric} (value : ty.Bits) : List UInt8:=beBytes ty.size value.toNat

def fromBeBytes (ty : Numeric) (bytes : List UInt8) : ty.Bits:=BitVec.ofNat _ (beValue bytes)

/-- `from_bytes` of a number, which takes its bytes from the front. -/
def fromBytes (ty : Numeric) (bytes : List UInt8) : Option ty.Bits :=
  if ty.size≤bytes.length then some (ty.fromBeBytes (bytes.take ty.size)) else none

theorem fromBeBytes_toBeBytes {ty : Numeric} (value : ty.Bits) :
    ty.fromBeBytes (toBeBytes value)=value := by
  have hv : value.toNat<256^ty.size := by
    rw [show (256 : ℕ)=2^8 from rfl,← Nat.pow_mul]
    exact value.isLt
  rw [fromBeBytes,toBeBytes,beValue_beBytes hv]
  exact BitVec.eq_of_toNat_eq (by simp)

theorem fromBytes_toBeBytes {ty : Numeric} (value : ty.Bits) :
    ty.fromBytes (toBeBytes value)=some value := by
  have hl : (toBeBytes value).length=ty.size:=length_beBytes _ _
  rw [fromBytes,if_pos hl.ge,take_of_length_le hl.le,fromBeBytes_toBeBytes]

end Numeric

def charBits (c : Char) : Numeric.u32.Bits:=c.val.toBitVec

def charFromU32 (u : Numeric.u32.Bits) : Option Char :=
  if h : (UInt32.ofBitVec u).isValidChar then some ⟨_,h⟩ else none

theorem charFromU32_charBits (c : Char) : charFromU32 (charBits c)=some c:=dif_pos c.valid

theorem mapM_charFromU32 (items : List Char) :
    (items.map charBits).mapM charFromU32=some items := by
  induction items with
  | nil => rfl
  | cons c items ih => simp [ih,charFromU32_charBits]

def boolByte (value : Bool) : List UInt8:=if value then [1] else [0]

theorem boolByte_beq (value : Bool) : (boolByte value == [1])=value := by cases value <;> rfl

inductive BytesConvertable where
  | numeric (ty : Numeric)
  | unit | bool | char | string
  | numerics (ty : Numeric)
  | bools | chars

namespace BytesConvertable

def Carrier : BytesConvertable → Type
  | numeric ty => ty.Bits
  | unit => Unit
  | bool => Bool
  | char => Char
  | string => String
  | numerics ty => List ty.Bits
  | bools => List Bool
  | chars => List Char

def byteSize : (ty : BytesConvertable) → ty.Carrier → ℕ
  | numerics ty,(items : List _) => items.length*ty.size
  | bools,(items : List _) => items.length*1
  | chars,(items : List _) => items.length*Numeric.u32.size
  | _,_ => 0

variable [Target]

def intoBytes : (ty : BytesConvertable) → ty.Carrier → Option (List UInt8)
  | numeric _,value => some (Numeric.toBeBytes value)
  | unit,_ => some []
  | bool,value => some (boolByte value)
  | char,value => some (Numeric.toBeBytes (charBits value))
  | string,value => some (String.toUTF8 value).data.toList
  | numerics .u8,(items : List _) => some (items.map UInt8.ofBitVec)
  | numerics ty,items => writeElements ty.size Numeric.toBeBytes items
  | bools,items => writeElements 1 boolByte items
  | chars,(items : List Char) => writeElements Numeric.u32.size Numeric.toBeBytes
      (items.map charBits)

def fromBytes : (ty : BytesConvertable) → List UInt8 → Option ty.Carrier
  | numeric ty,bytes => ty.fromBytes bytes
  | unit,_ => some ()
  | bool,bytes => bytes[0]?.map fun byte => byte == 1
  | char,bytes => Numeric.u32.fromBytes bytes >>= charFromU32
  | string,bytes => String.fromUTF8? ⟨bytes.toArray⟩
  | numerics .u8,bytes => some (bytes.map UInt8.toBitVec)
  | numerics ty,bytes => readElements ty.size ty.fromBeBytes ty.min bytes
  | bools,bytes => readElements 1 (fun data => data == [1]) false bytes
  | chars,bytes => do
    let u32s ← readElements Numeric.u32.size Numeric.u32.fromBeBytes Numeric.u32.min bytes
    u32s.mapM charFromU32

/-- Every value is converted to bytes and back without a panic, if the bytes of a vector can be
counted by a `usize`. -/
theorem bytes_round_trip (ty : BytesConvertable) (value : ty.Carrier)
    (hfits : ty.byteSize value≤usizeMax) :
    ∃bytes,ty.intoBytes value=some bytes ∧ ty.fromBytes bytes=some value := by
  have hlength {ty : Numeric} (value : ty.Bits) : (Numeric.toBeBytes value).length=ty.size :=
    length_beBytes _ _
  match ty,value,hfits with
  | .numeric ty,value,_ => exact ⟨_,rfl,Numeric.fromBytes_toBeBytes value⟩
  | .unit,_,_ => exact ⟨_,rfl,rfl⟩
  | .bool,(value : Bool),_ => exact ⟨_,rfl,by cases value <;> rfl⟩
  | .char,(value : Char),_ =>
    refine ⟨_,rfl,?_⟩
    rw [fromBytes,Numeric.fromBytes_toBeBytes]
    exact charFromU32_charBits value
  | .string,(value : String),_ => exact ⟨_,rfl,dif_pos value.isValidUTF8⟩
  | .numerics ty,(items : List ty.Bits),hfits =>
    cases ty with
    | u8 => exact ⟨_,rfl,congrArg some (map_map.trans (map_id items))⟩
    | i8 | i16 | i32 | i64 | i128 | u16 | u32 | u64 | u128 | f32 | f64 =>
      exact ⟨_,writeElements_eq hlength hfits,
        readElements_eq (by decide) hlength Numeric.fromBeBytes_toBeBytes _ hfits⟩
  | .bools,(items : List Bool),hfits =>
    have hone (value : Bool) : (boolByte value).length=1 := by cases value <;> rfl
    exact ⟨_,writeElements_eq hone hfits,readElements_eq Nat.one_pos hone boolByte_beq false hfits⟩
  | .chars,(items : List Char),hfits =>
    have hfits : (items.map charBits).length*Numeric.u32.size≤usizeMax := by
      rw [length_map]
      exact hfits
    refine ⟨_,writeElements_eq hlength hfits,?_⟩
    rw [fromBytes,readElements_eq (by decide) hlength Numeric.fromBeBytes_toBeBytes _ hfits]
    exact mapM_charFromU32 items

end BytesConvertable

/-- Two numbers of two bytes each, one of them negative. -/
theorem bytes_round_trip_numerics :
    letI:=Target.wide
    ∃bytes,BytesConvertable.intoBytes (.numerics .i16) [1#16,0xfffe#16]=some bytes ∧
      BytesConvertable.fromBytes (.numerics .i16) bytes=some [1#16,0xfffe#16] :=
  letI:=Target.wide
  BytesConvertable.bytes_round_trip (.numerics .i16) [1#16,0xfffe#16] (by decide)

end Ractor
