import Ractor.DeriveCodegen

/-!
# Runs of generated code

What the blocks that the message derive generates for a field do to the variables in scope: a field
is packed behind its length, and is unpacked again while a pointer moves through the arguments.
`decodeAll` is the decoder that the unpacking of all fields amounts to.
-/

namespace Ractor.Derive
open List Option Scope WireTypes
open WireTypes (Carrier)

theorem mapM_eq_ok_iff {α β ε : Type} {f : α→Except ε β} {as : List α} {bs : List β} :
    as.mapM f=.ok bs ↔ List.Forall₂ (fun a b => f a=.ok b) as bs := by
  induction as generalizing bs with
  | nil =>
    rw [forall₂_nil_left_iff]
    constructor
    · intro h
      cases h
      rfl
    · intro h
      rw [h]
      rfl
  | cons a as ih =>
    rw [mapM_cons]
    constructor
    · intro h
      cases hb : f a with
      | error e => simp [hb,bind,Except.bind] at h
      | ok b =>
        cases hbs : as.mapM f with
        | error e => simp [hb,hbs,bind,Except.bind] at h
        | ok rest =>
          simp only [hb,hbs,bind,Except.bind,pure,Except.pure,Except.ok.injEq] at h
          rw [← h]
          exact .cons hb (ih.mp hbs)
    · intro h
      cases h with
      | cons hb hbs => simp [hb,ih.mpr hbs,bind,Except.bind,pure,Except.pure]

variable {Ty Reply : Type} [WireTypes Ty]

/-! ### Scopes -/

namespace Scope
variable {scope : Scope Ty Reply} {x y : Ident} {value : Value Ty Reply}

@[simp] theorem length_set (scope : Scope Ty Reply) (x : Ident) (value : Value Ty Reply) :
    (set scope x value).length=scope.length := by
  induction scope with
  | nil => rfl
  | cons entry rest ih =>
    obtain ⟨y,old⟩:=entry
    simp only [set]
    split <;> simp [ih]

theorem lookup_set_ne (h : y≠x) (scope : Scope Ty Reply) (value : Value Ty Reply) :
    (set scope x value).lookup y=scope.lookup y := by
  induction scope with
  | nil => rfl
  | cons entry rest ih =>
    obtain ⟨z,old⟩:=entry
    simp only [set]
    split
    next hz =>
      subst hz
      rw [lookup_cons,lookup_cons,beq_false_of_ne h]
    next => rw [lookup_cons,lookup_cons,ih]

theorem lookup_set_self (h : scope.lookup x≠none) (value : Value Ty Reply) :
    (set scope x value).lookup x=some value := by
  induction scope with
  | nil => exact absurd rfl h
  | cons entry rest ih =>
    obtain ⟨y,old⟩:=entry
    simp only [set]
    split
    next hy => rw [lookup_cons,hy,beq_self_eq_true]
    next hy =>
      have hxy : (x == y)=false:=beq_false_of_ne (Ne.symm hy)
      rw [lookup_cons,hxy] at h ⊢
      exact ih h

end Scope

variable [Target] [DecidableEq Ty]

/-! ### One field -/

variable {scope : Scope Ty Reply} {args bytes : List UInt8} {ptr : ℕ} {x : Ident} {types : List Ty}

/-- A field is packed behind its length, if the vector can hold it. -/
theorem packArgs_run {field : Ident × Ty} {value : Carrier field.2} {packed : List UInt8}
    (hn : field.1≠"__data") (hf : scope.lookup field.1=some (.data value))
    (hb : intoBytes value=some bytes)
    (hfi : packed.length+(8+bytes.length) ≤ isizeMax) :
    (packArgs field).run (("__data",.bytes packed)::scope) =
      .ok (("__data",.bytes (packed++lengthPrefixed bytes))::scope) := by
  have hi:=isizeMax_lt_usizeMax
  have hu:=usizeMax_lt
  have hl : lookup field.1 (("__data",Value.bytes packed)::scope)=some (.data value) := by
    rw [lookup_cons,beq_false_of_ne hn]
    exact hf
  have hu64 : bytes.length<18446744073709551616 := by omega
  have hadd : addUsize 8 bytes.length=some (8+bytes.length):=if_pos (by omega)
  simp [packArgs,hl,hb,hu64,hadd,hfi,bind,Except.bind,pure,Except.pure,lookup_cons,lengthPrefixed]

/-- The bytes of the next field and the position behind them, as `unpack_arg` computes them. -/
def unpackStep (args : List UInt8) (ptr : ℕ) : Option (List UInt8 × ℕ) := do
  let lenEnd ← addUsize ptr 8
  let encodedLen ← getRange args ptr lenEnd
  let dataEnd ← if beValue encodedLen≤usizeMax then addUsize lenEnd (beValue encodedLen) else none
  let dataBytes ← getRange args lenEnd dataEnd
  some (dataBytes,dataEnd)

theorem addUsize_eq {a b c : ℕ} (h : addUsize a b=some c) : c=a+b := by
  unfold addUsize at h
  split at h
  · exact (some.inj h).symm
  · cases h

omit [Target] in
theorem length_getRange {slice : List UInt8} {lo hi : ℕ} (h : getRange bytes lo hi=some slice) :
    slice.length=hi - lo := by
  unfold getRange at h
  split at h
  next hb =>
    cases h
    rw [length_drop,length_take]
    omega
  next => cases h

/-- A field is decoded from its bytes, and the pointer moves behind them. -/
theorem unpackArg_run (ha : scope.lookup "__args"=some (.bytes args))
    (hptr : scope.lookup "__ptr"=some (.usize ptr)) (field : Ident × Ty) :
    (unpackArg field).run scope=match unpackStep args ptr with
      | none => .error .downcastErr
      | some (dataBytes,dataEnd) =>
        match fromBytes field.2 dataBytes with
        | none => .error .downcastErr
        | some value => .ok ((field.1,.data value)::scope.set "__ptr" (.usize dataEnd)) := by
  unfold unpackStep
  cases hl : addUsize ptr 8 with
  | none => simp [unpackArg,hptr,hl,bind,Except.bind]
  | some lenEnd =>
    cases he : getRange args ptr lenEnd with
    | none => simp [unpackArg,ha,hptr,hl,he,bind,Except.bind,lookup_cons]
    | some encodedLen =>
      -- the slice is as long as the array it is copied to
      have hc : encodedLen.length=8 := by
        rw [length_getRange he,addUsize_eq hl,Nat.add_sub_cancel_left]
      by_cases hlen : beValue encodedLen≤usizeMax
      · cases hd : addUsize lenEnd (beValue encodedLen) with
        | none =>
          simp [unpackArg,ha,hptr,hl,he,hc,hlen,hd,bind,Except.bind,lookup_cons]
        | some dataEnd =>
          cases hda : getRange args lenEnd dataEnd with
          | none =>
            simp [unpackArg,ha,hptr,hl,he,hc,hlen,hd,hda,bind,Except.bind,lookup_cons]
          | some dataBytes =>
            cases hv : fromBytes field.2 dataBytes with
            | none =>
              simp [unpackArg,ha,hptr,hl,he,hc,hlen,hd,hda,hv,bind,Except.bind,lookup_cons]
            | some value =>
              simp [unpackArg,ha,hptr,hl,he,hc,hlen,hd,hda,hv,
                bind,Except.bind,pure,Except.pure,lookup_cons,Nat.add_assoc]
      · simp [unpackArg,ha,hptr,hl,he,hc,hlen,bind,Except.bind,lookup_cons]

/-- On a vector the step takes the block behind the pointer. -/
theorem unpackStep_eq (hle : ptr≤args.length) (hf : args.length ≤ isizeMax) :
    unpackStep args ptr =
      (takePrefixed (args.drop ptr)).map fun block => (block.1,args.length - block.2.length) := by
  have hu:=isizeMax_lt_usizeMax
  unfold unpackStep takePrefixed
  rw [length_drop]
  by_cases hh : 8≤args.length - ptr
  · have hl : addUsize ptr 8=some (ptr+8):=if_pos (by omega)
    have he : getRange args ptr (ptr+8)=some ((args.drop ptr).take 8) := by
      rw [getRange,if_pos (by omega),drop_take,Nat.add_sub_cancel_left]
    rw [if_pos hh]
    simp only [hl,he,bind_eq_bind,bind_some]
    generalize beValue ((args.drop ptr).take 8)=size
    rw [drop_drop,length_drop]
    by_cases hr : size≤args.length - (ptr+8)
    · have hd : addUsize (ptr+8) size=some (ptr+8+size):=if_pos (by omega)
      have hda : getRange args (ptr+8) (ptr+8+size) = some ((args.drop (ptr+8)).take size) := by
        rw [getRange,if_pos (by omega),drop_take,Nat.add_sub_cancel_left]
      have hend : args.length - ((args.drop (ptr+8)).drop size).length=ptr+8+size := by
        rw [length_drop,length_drop]
        omega
      rw [if_pos hr,if_pos (by omega),hd,bind_some,hda,bind_some,map_some,hend]
    · have hda : getRange args (ptr+8) (ptr+8+size)=none:=if_neg (by omega)
      rw [if_neg hr,map_none]
      split
      · by_cases hd : ptr+8+size≤usizeMax
        · rw [addUsize,if_pos hd,bind_some,hda,bind_none]
        · rw [addUsize,if_neg hd,bind_none]
      · rfl
  · have he : getRange args ptr (ptr+8)=none:=if_neg (by omega)
    rw [if_neg hh,map_none]
    by_cases hl : ptr+8≤usizeMax
    · rw [addUsize,if_pos hl]
      simp [he]
    · rw [addUsize,if_neg hl]
      rfl

/-! ### All fields -/

/-- Decode one block per type. What is left comes second. -/
def decodeAll : List Ty → List UInt8 → Option (List (Value Ty Reply) × List UInt8)
  | [],bytes => some ([],bytes)
  | ty::types,bytes =>
    match takePrefixed bytes with
    | none => none
    | some (payload,rest) =>
      match fromBytes ty payload with
      | none => none
      | some value => (decodeAll types rest).map fun decoded => (.data value::decoded.1,decoded.2)

namespace Scope

omit [Target] [DecidableEq Ty] in
theorem set_set (scope : Scope Ty Reply) (x : Ident) (value value' : Value Ty Reply) :
    (scope.set x value).set x value'=scope.set x value' := by
  induction scope with
  | nil => rfl
  | cons entry rest ih =>
    obtain ⟨y,old⟩:=entry
    by_cases hy : y=x <;> simp [hy,ih]

omit [Target] [DecidableEq Ty] in
theorem set_eq_self {value : Value Ty Reply} (h : scope.lookup x=some value) :
    scope.set x value=scope := by
  induction scope with
  | nil => rfl
  | cons entry rest ih =>
    obtain ⟨y,old⟩:=entry
    by_cases hy : y=x
    · subst hy
      rw [lookup_cons,beq_self_eq_true] at h
      cases h
      simp
    · rw [lookup_cons,beq_false_of_ne (Ne.symm hy)] at h
      simp [hy,ih h]

end Scope

omit [Target] in
theorem rest_eq_drop {payload rest : List UInt8} (h : args.drop ptr=lengthPrefixed payload++rest) :
    args.drop (args.length - rest.length)=rest ∧ rest.length≤args.length := by
  have hs : rest <:+ args :=
    (suffix_append (lengthPrefixed payload) rest).trans (h ▸ drop_suffix ptr args)
  exact ⟨(suffix_iff_eq_drop.mp hs).symm,hs.length_le⟩

/-- The generated code decodes the fields in order, and the pointer stands behind them. -/
theorem unpackAll_run (hf : args.length ≤ isizeMax) (fields : List (Ident × Ty))
    (hna : "__args"∉fields.map Prod.fst) (hnp : "__ptr"∉fields.map Prod.fst)
    (ha : scope.lookup "__args"=some (.bytes args))
    (hptr : scope.lookup "__ptr"=some (.usize ptr)) (hle : ptr≤args.length) :
    (fields.map unpackArg).foldlM Block.run scope =
      match decodeAll (fields.map Prod.snd) (args.drop ptr) with
      | none => .error .downcastErr
      | some (values,rest) =>
        .ok (((fields.map Prod.fst).zip values).reverse ++
          scope.set "__ptr" (.usize (args.length - rest.length))) := by
  induction fields generalizing scope ptr with
  | nil =>
    have hset : scope.set "__ptr" (.usize ptr)=scope:=set_eq_self hptr
    have hl : args.length - (args.length - ptr)=ptr := by omega
    simp [decodeAll,hl,hset,pure,Except.pure]
  | cons field fields ih =>
    rw [map_cons,foldlM_cons,unpackArg_run ha hptr,unpackStep_eq hle hf,map_cons,decodeAll]
    cases ht : takePrefixed (args.drop ptr) with
    | none => rfl
    | some block =>
      obtain ⟨payload,rest⟩:=block
      cases hv : fromBytes field.2 payload with
      | none => simp [hv,bind,Except.bind]
      | some value =>
        obtain ⟨hd,hr⟩:=rest_eq_drop (eq_of_takePrefixed ht)
        have hno : "__args"≠field.1:=ne_of_not_mem_cons hna
        have hn : "__ptr"≠field.1:=ne_of_not_mem_cons hnp
        have hp' : scope.lookup "__ptr"≠none := by simp [hptr]
        have hargs₁ : lookup "__args" ((field.1,Value.data value) ::
            scope.set "__ptr" (.usize (args.length - rest.length)))=some (.bytes args) := by
          rw [lookup_cons,beq_false_of_ne hno,lookup_set_ne (by decide),ha]
        have hptr₁ : lookup "__ptr" ((field.1,Value.data value) ::
            scope.set "__ptr" (.usize (args.length - rest.length))) =
              some (.usize (args.length - rest.length)) := by
          rw [lookup_cons,beq_false_of_ne hn,lookup_set_self hp']
        have hla:=ih (not_mem_of_not_mem_cons hna) (not_mem_of_not_mem_cons hnp) hargs₁ hptr₁
          (Nat.sub_le _ _)
        simp only [map_some,hv,bind,Except.bind]
        rw [hla,hd]
        cases decodeAll (fields.map Prod.snd) rest with
        | none => rfl
        | some decoded => simp [hn.symm,Scope.set_set]

omit [Target] [DecidableEq Ty] in
theorem length_decodeAll {rest : List UInt8} {values : List (Value Ty Reply)}
    (h : decodeAll types bytes=some (values,rest)) :
    values.length=types.length ∧ rest.length≤bytes.length := by
  induction types generalizing bytes values with
  | nil =>
    cases h
    exact ⟨rfl,Nat.le_refl _⟩
  | cons ty types ih =>
    rw [decodeAll] at h
    split at h
    · cases h
    next payload later ht =>
      split at h
      · cases h
      next value _ =>
        obtain ⟨decoded,hde,hd⟩:=map_eq_some_iff.mp h
        cases hd
        obtain ⟨hl,hle⟩:=ih hde
        rw [eq_of_takePrefixed ht,length_append]
        exact ⟨by simp [hl],by omega⟩

/-- The bytes are one length-prefixed block for each type, in order, which its decoder accepts. -/
def WellFormedArgs (types : List Ty) (args : List UInt8) : Prop :=
  ∃payloads : List (List UInt8),args=payloads.flatMap lengthPrefixed ∧
    List.Forall₂ (fun ty payload => (fromBytes ty payload).isSome=true) types payloads

omit [Target] [DecidableEq Ty] in
theorem wellFormedArgs_of_decodeAll {values : List (Value Ty Reply)}
    (h : decodeAll types bytes=some (values,[])) : WellFormedArgs types bytes := by
  induction types generalizing bytes values with
  | nil =>
    cases h
    exact ⟨[],rfl,.nil⟩
  | cons ty types ih =>
    rw [decodeAll] at h
    split at h
    · cases h
    next payload rest ht =>
      split at h
      · cases h
      next value hv =>
        obtain ⟨decoded,hde,hd⟩:=map_eq_some_iff.mp h
        obtain ⟨decodedValues,decodedRest⟩:=decoded
        obtain ⟨-,rfl⟩:=Prod.mk.inj hd
        obtain ⟨payloads,rfl,ha⟩:=ih hde
        exact ⟨payload::payloads,eq_of_takePrefixed ht,.cons (by simp [hv]) ha⟩

omit [DecidableEq Ty] in
theorem decodeAll_of_wellFormedArgs (hf : args.length ≤ isizeMax) (h : WellFormedArgs types args) :
    ∃values : List (Value Ty Reply),decodeAll types args=some (values,[]) := by
  obtain ⟨payloads,rfl,ha⟩:=h
  induction ha with
  | nil => exact ⟨[],rfl⟩
  | @cons ty payload types payloads hv _ ih =>
    have hi:=isizeMax_lt_usizeMax
    have hu:=usizeMax_lt
    rw [flatMap_cons,length_append,length_lengthPrefixed] at hf
    obtain ⟨value,hv⟩:=isSome_iff_exists.mp hv
    obtain ⟨values,hva⟩:=ih (by omega)
    refine ⟨.data value::values,?_⟩
    rw [flatMap_cons,decodeAll,takePrefixed_lengthPrefixed (by omega)]
    simp [hv,hva]

/-! ### Variables and fields -/

def Binds (scope : Scope Ty Reply) (names : List Ident) (values : List (Value Ty Reply)) : Prop :=
  List.Forall₂ (fun name value => scope.lookup name=some value) names values

namespace Binds

omit [Target] [DecidableEq Ty]

variable {base : Scope Ty Reply} {names : List Ident} {values : List (Value Ty Reply)}

theorem mapM_get (h : Binds scope names values) : names.mapM scope.get=.ok values := by
  rw [mapM_eq_ok_iff]
  exact h.imp fun name value hv => by simp [hv]

theorem mono (h : Binds scope names values)
    (hs : ∀name∈names,base.lookup name=scope.lookup name) : Binds base names values := by
  induction h with
  | nil => exact .nil
  | cons hv _ ih =>
    exact .cons ((hs _ mem_cons_self).trans hv) (ih fun name hm => hs name (mem_cons_of_mem _ hm))

theorem cons (h : Binds scope names values) (hx : x∉names) (value : Value Ty Reply) :
    Binds ((x,value)::scope) names values := by
  refine h.mono fun name hm => ?_
  rw [lookup_cons,beq_false_of_ne]
  rintro rfl
  exact hx hm

theorem append (h : Binds scope names values) {names' : List Ident}
    {values' : List (Value Ty Reply)} (h' : Binds scope names' values') :
    Binds scope (names++names') (values++values') :=
  rel_append h h'

theorem lookup_zip (hl : names.length=values.length) (hx : x∉names) (base : Scope Ty Reply) :
    (names.zip values++base).lookup x=base.lookup x := by
  induction names generalizing values with
  | nil => rfl
  | cons name names ih =>
    cases values with
    | nil => cases hl
    | cons value values =>
      rw [zip_cons_cons,cons_append,lookup_cons,beq_false_of_ne (ne_of_not_mem_cons hx)]
      exact ih (by simpa using hl) (not_mem_of_not_mem_cons hx)

/-- Distinct names stand for the values that they are zipped with. -/
theorem zip (hn : names.Nodup) (hl : names.length=values.length)
    (base : Scope Ty Reply) : Binds (names.zip values++base) names values := by
  induction names generalizing values with
  | nil =>
    obtain rfl:=length_eq_zero_iff.mp hl.symm
    exact .nil
  | cons name names ih =>
    cases values with
    | nil => cases hl
    | cons value values =>
      obtain ⟨hna,hn⟩:=nodup_cons.mp hn
      refine List.Forall₂.cons ?_ ?_
      · rw [zip_cons_cons,cons_append,lookup_cons,beq_self_eq_true]
      · exact (ih hn (by simpa using hl)).cons hna value

theorem reverse_zip (hl : names.length=values.length) :
    (names.zip values).reverse=names.reverse.zip values.reverse := by
  simp only [List.zip]
  exact List.reverse_zipWith hl

theorem lookup_zip_reverse (hl : names.length=values.length) (hx : x∉names)
    (base : Scope Ty Reply) : ((names.zip values).reverse++base).lookup x=base.lookup x := by
  rw [reverse_zip hl]
  exact lookup_zip (by simpa using hl) (by simpa using hx) base

theorem zip_reverse (hn : names.Nodup) (hl : names.length=values.length)
    (base : Scope Ty Reply) : Binds ((names.zip values).reverse++base) names values := by
  rw [reverse_zip hl]
  exact forall₂_reverse_iff.mp (zip (nodup_reverse.mpr hn) (by simpa using hl) base)

end Binds
end Ractor.Derive
