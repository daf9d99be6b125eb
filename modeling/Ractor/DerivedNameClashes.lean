import Ractor.DerivedCodecs

/-!
# Names that clash with generated code

What becomes of a field whose name is that of a variable of the generated code. A field `__data` or a
port of an inner name cannot be packed; behind a field `__ptr` or `__args` no arguments are accepted,
since the pointer is hidden or has gone behind the bytes that now stand for the arguments; and a field
`__reply` or `__target_port` gets in the way of the reply port.
-/

namespace Ractor.Derive
open List DeserializeArm SerializeArm Shape Scope Binds
open WireTypes (Carrier)

variable {Ty Reply : Type} [WireTypes Ty] [Target] [DecidableEq Ty] {scope scope' : Scope Ty Reply}
  {fields : List (Ident × Ty)} {args : List UInt8} {x : Ident}

/-! ### Packing -/

theorem SerializeArm.run_finish {arm : SerializeArm Ty} {wire : Wire Reply} {declared : Fields Ty}
    {values : List (Value Ty Reply)} (h : arm.run declared values=.ok wire) :
    ∃args,∃scope : Scope Ty Reply,arm.finish args scope=.ok wire := by
  unfold run at h
  cases hb : arm.pattern.bindings declared values with
  | error halt => simp [hb,bind,Except.bind] at h
  | ok scope =>
    simp only [hb,bind,Except.bind] at h
    split at h
    · exact ⟨[],scope,h⟩
    · split at h
      · cases h
      next inner _ =>
        split at h
        · cases h
        next args _ => exact ⟨args,inner,h⟩

/-! ### Unpacking -/

/-- No field can be unpacked and the end is not reached: the pointer or the arguments are hidden, or
the pointer stands behind the arguments. -/
def Scope.Spoiled (scope : Scope Ty Reply) : Prop :=
  ∀ptr args,scope.usize "__ptr"=.ok ptr→scope.bytes "__args"=.ok args→args.length<ptr

omit [Target] [DecidableEq Ty] in
theorem Scope.bytes_cons {y : Ident} (h : x≠y) (value : Value Ty Reply) :
    bytes ((y,value)::scope) x=bytes scope x := by
  simp [bytes,lookup_cons,beq_false_of_ne h]

/-- What reads the length in front of a field. -/
def readLength : List (Stmt Ty) :=
  [.bind "__len_end" (.plusSize "__ptr"),.bind "__len_bytes" .zeroBytes,
    .bind "__encoded_len" (.get "__args" "__ptr" "__len_end")]

theorem unpackArg_error {halt : Halt} (h : readLength.foldlM Stmt.run scope=.error halt)
    (field : Ident × Ty) : (unpackArg field).run scope=.error halt := by
  have hb : (unpackArg field).run scope=(do
      let inner ← (readLength++_).foldlM Stmt.run scope
      let value ← inner.get "__t_result"
      .ok ((field.1,value)::inner.drop (inner.length - scope.length))):=rfl
  rw [hb,foldlM_append,h]
  rfl

theorem Scope.Spoiled.unpack_error (h : scope.Spoiled) (field : Ident × Ty) :
    ∃halt,(unpackArg field).run scope=.error halt := by
  cases hp : scope.usize "__ptr" with
  | error halt =>
    refine ⟨halt,unpackArg_error ?_ field⟩
    simp only [readLength,foldlM_cons,Stmt.run,Expr.eval,hp,bind,Except.bind]
  | ok ptr =>
    cases hl : addUsize ptr 8 with
    | none =>
      refine ⟨.downcastErr,unpackArg_error ?_ field⟩
      simp only [readLength,foldlM_cons,Stmt.run,Expr.eval,hp,hl,orDowncastErr,bind,Except.bind]
    | some lenEnd =>
      have hp' : usize (("__len_bytes",Value.bytes (replicate 8 0)) ::
          ("__len_end",Value.usize lenEnd)::scope) "__ptr"=.ok ptr := by
        rw [← hp]
        simp [lookup_cons]
      have he : usize (("__len_bytes",Value.bytes (replicate 8 0)) ::
          ("__len_end",Value.usize lenEnd)::scope) "__len_end"=.ok lenEnd := by
        simp [lookup_cons]
      cases ha : scope.bytes "__args" with
      | error halt =>
        refine ⟨halt,unpackArg_error ?_ field⟩
        simp only [readLength,foldlM_cons,Stmt.run,Expr.eval,hp,hl,orDowncastErr,bind,Except.bind,
          bytes_cons (show "__args"≠"__len_bytes" by decide),
          bytes_cons (show "__args"≠"__len_end" by decide),ha]
      | ok args =>
        have hlt:=h ptr args hp ha
        have hn : getRange args ptr lenEnd=none:=if_neg (by omega)
        refine ⟨.downcastErr,unpackArg_error ?_ field⟩
        simp only [readLength,foldlM_cons,Stmt.run,Expr.eval,hp,hl,orDowncastErr,bind,Except.bind,
          bytes_cons (show "__args"≠"__len_bytes" by decide),
          bytes_cons (show "__args"≠"__len_end" by decide),ha,hp',he,hn]

theorem Scope.Spoiled.kept (h : scope.Spoiled)
    (hrun : (fields.map unpackArg).foldlM Block.run scope=.ok scope') : scope'.Spoiled := by
  cases fields with
  | nil =>
    cases hrun
    exact h
  | cons field fields =>
    obtain ⟨halt,he⟩:=h.unpack_error field
    rw [map_cons,foldlM_cons,he] at hrun
    cases hrun

omit [Target] [DecidableEq Ty] in
theorem Scope.Spoiled.atEnd (h : scope.Spoiled) {arm : DeserializeArm Ty}
    (hu : arm.unpacked≠[]) : arm.atEnd scope≠.ok true := by
  unfold DeserializeArm.atEnd
  cases ha : scope.bytes "__args" with
  | error halt => simp [bind,Except.bind]
  | ok args =>
    simp only [bind,Except.bind,List.isEmpty_iff,hu,if_false]
    cases hp : scope.usize "__ptr" with
    | error halt => simp
    | ok ptr =>
      have hlt:=h ptr args hp ha
      simp only [ne_eq,Except.ok.injEq,beq_iff_eq]
      omega

theorem unpackStep_le {ptr dataEnd : ℕ} {dataBytes : List UInt8}
    (h : unpackStep args ptr=some (dataBytes,dataEnd)) : 8+dataBytes.length≤dataEnd := by
  unfold unpackStep at h
  obtain ⟨lenEnd,hl,h⟩:=Option.bind_eq_some_iff.mp h
  obtain ⟨encodedLen,-,h⟩:=Option.bind_eq_some_iff.mp h
  have hle:=addUsize_eq hl
  dsimp only at h
  split at h
  · obtain ⟨dataEnd',hd,h⟩:=Option.bind_eq_some_iff.mp h
    obtain ⟨dataBytes',hb,h⟩:=Option.bind_eq_some_iff.mp h
    cases h
    have hlen:=length_getRange hb
    have hde:=addUsize_eq hd
    omega
  · cases h

section Hidden
variable (hseen : ∀(ty : Ty) bytes (value : Carrier ty) seen,WireTypes.fromBytes ty bytes =
    some value → WireTypes.asBytes value=some seen→seen.length≤bytes.length)
include hseen

/-- Behind a field that hides the pointer or the arguments nothing is accepted. -/
theorem unpackAll_hidden {ptr : ℕ} (ha : scope.lookup "__args"=some (.bytes args))
    (hptr : scope.lookup "__ptr"=some (.usize ptr))
    (hh : "__args"∈fields.map Prod.fst ∨ "__ptr"∈fields.map Prod.fst)
    (hrun : (fields.map unpackArg).foldlM Block.run scope=.ok scope') : scope'.Spoiled := by
  induction fields generalizing scope ptr with
  | nil => simp at hh
  | cons field fields ih =>
    rw [map_cons,foldlM_cons,unpackArg_run ha hptr] at hrun
    cases hs : unpackStep args ptr with
    | none => simp [hs,bind,Except.bind] at hrun
    | some block =>
      obtain ⟨dataBytes,dataEnd⟩:=block
      cases hv : WireTypes.fromBytes field.2 dataBytes with
      | none => simp [hs,hv,bind,Except.bind] at hrun
      | some value =>
        simp only [hs,hv,bind,Except.bind] at hrun
        have hset : (scope.set "__ptr" (.usize dataEnd)).lookup "__ptr" =
            some (.usize dataEnd):=lookup_set_self (by simp [hptr]) _
        by_cases hp : field.1="__ptr"
        · refine Spoiled.kept (fun ptr args hu => ?_) hrun
          simp [hp] at hu
        by_cases hn : field.1="__args"
        · refine Spoiled.kept (fun ptr seen hu hb => ?_) hrun
          have hle:=unpackStep_le hs
          simp only [usize,lookup_cons,beq_false_of_ne (Ne.symm hp),hset,Except.ok.injEq] at hu
          simp only [bytes,lookup_cons,hn,beq_self_eq_true] at hb
          split at hb
          next bytes heq =>
            cases hb
            have:=hseen _ _ _ _ hv heq
            omega
          next => cases hb
        · have hptr' : lookup "__ptr" ((field.1,Value.data value) ::
              scope.set "__ptr" (.usize dataEnd))=some (.usize dataEnd) := by
            rw [lookup_cons,beq_false_of_ne (Ne.symm hp),hset]
          refine ih ?_ hptr' ?_ hrun
          · rw [lookup_cons,beq_false_of_ne (Ne.symm hn),lookup_set_ne (by decide),ha]
          · exact hh.imp (fun hm => (mem_cons.mp hm).resolve_left (Ne.symm hn))
              fun hm => (mem_cons.mp hm).resolve_left (Ne.symm hp)

theorem DeserializeArm.notMem_of_run {arm : DeserializeArm Ty}
    (hu : arm.unpacked=fields.map unpackArg) {declared : Fields Ty}
    (ha : scope.lookup "__args"=some (.bytes args)) {message : Message Ty Reply}
    (h : arm.run declared scope=.ok message) :
    "__args"∉fields.map Prod.fst ∧ "__ptr"∉fields.map Prod.fst := by
  by_contra hc
  have hh : "__args"∈fields.map Prod.fst ∨ "__ptr"∈fields.map Prod.fst := by tauto
  have hne : arm.unpacked≠[] := by
    rw [hu]
    rintro hn
    rw [map_eq_nil_iff] at hn
    simp [hn] at hh
  have ha' : lookup "__args" (("__ptr",Value.usize 0)::scope)=some (.bytes args) := by
    rw [lookup_cons,beq_false_of_ne (by decide),ha]
  simp only [run,List.isEmpty_iff,hne,if_false,bind,Except.bind] at h
  split at h
  · cases h
  next scope' hrun =>
    rw [hu] at hrun
    have hend:=(unpackAll_hidden hseen ha' (by rw [lookup_cons,beq_self_eq_true]) hh hrun).atEnd hne
    split at h
    · cases h
    next more he =>
      cases more with
      | false => cases h
      | true => exact hend he

end Hidden

/-! ### The reply port -/

omit [DecidableEq Ty] [Target] in
theorem decodeAll_data {types : List Ty} {bytes rest : List UInt8} {values : List (Value Ty Reply)}
    (h : decodeAll types bytes=some (values,rest)) {value : Value Ty Reply} (hm : value∈values) :
    ∃(ty : Ty) (data : Carrier ty),value=.data data := by
  induction types generalizing bytes values with
  | nil =>
    cases h
    cases hm
  | cons ty types ih =>
    rw [decodeAll] at h
    split at h
    · cases h
    · split at h
      · cases h
      next data _ =>
        obtain ⟨decoded,hde,hd⟩:=Option.map_eq_some_iff.mp h
        cases hd
        rcases mem_cons.mp hm with rfl | hm
        · exact ⟨ty,data,rfl⟩
        · exact ih hde hm

end Ractor.Derive
