import Ractor.DerivedCodeRuns

/-!
# Derived codecs

The generated `serialize` and `deserialize` of an enum. A field of a named variant is a variable of
the generated code under its own name, so it can hide a variable of the generator: `Hygienic` says
which names do not. A field that is called `__args` hides the arguments that are being decoded, and
the code compiles if it is a `Vec<u8>`.
-/

namespace Ractor.Derive
open List DeserializeArm Shape Binds Port
open WireTypes (Carrier)

variable {Ty Reply : Type}

/-! ### Names -/

/-- The names of the fields do not hide a variable of the generated code that is used behind them.
Without data fields there is no `__data` that could hide the port. -/
def ParsedVariant.Hygienic (variant : ParsedVariant Ty) : Prop :=
  match variant.kind with
  | .cast => ∀field∈variant.dataFields,field.1∉["__data","__ptr","__args"]
  | .call _ port _ => port∉portLocals ∧ (variant.dataFields≠[]→port≠"__data") ∧
      ∀field∈variant.dataFields,
        field.1∉["__data","__ptr","__args","__reply","__target_port"]

theorem fieldIdent_injective {i j : ℕ} (h : fieldIdent i=fieldIdent j) : i=j := by
  have hd : Nat.toDigits 10 i=Nat.toDigits 10 j := by
    simpa [fieldIdent] using congrArg String.toList h
  calc
    i=Nat.ofDigitChars 10 (Nat.toDigits 10 i) 0 :=
      (Nat.ofDigitChars_toDigits (by decide) (by decide)).symm
    _=Nat.ofDigitChars 10 (Nat.toDigits 10 j) 0 := by rw [hd]
    _=j:=Nat.ofDigitChars_toDigits (by decide) (by decide)

theorem Fields.nodup_names (fields : Fields Ty) : fields.names.Nodup := by
  unfold names
  cases fields with
  | unit => exact .nil
  | unnamed types =>
    have hn : (types.mapIdx fun i ty => (fieldIdent i,ty)).map Prod.fst =
        (range types.length).map fieldIdent := by
      refine ext_getElem (by simp) fun i hi hi' => by simp
    simp only [Fields.all]
    rw [hn]
    exact nodup_range.map fun i j hij => fieldIdent_injective hij
  | named fields distinct => exact distinct

/-- The names that unnamed fields get begin with a letter that no name of the generator begins with. -/
theorem fieldIdent_notMem (i : ℕ) : fieldIdent i ∉
    ["__data","__ptr","__args","__reply","__target_port"]++portLocals := by
  have hh : (fieldIdent i).toList.head?=some 'f' := by simp [fieldIdent]
  intro hm
  simp only [portLocals,cons_append,nil_append,mem_cons,not_mem_nil,or_false] at hm
  rcases hm with h | h | h | h | h | h | h | h | h | h | h <;>
    · rw [h] at hh
      revert hh
      decide

theorem Fields.all_tuple {fields : Fields Ty} (h : fields.all.2=.tuple) {field : Ident × SynType Ty}
    (hm : field∈fields.all.1) : ∃i,field.1=fieldIdent i := by
  cases fields with
  | unit => cases hm
  | unnamed types =>
    obtain ⟨i,hi,rfl⟩:=mem_mapIdx.mp hm
    exact ⟨i,rfl⟩
  | named fields distinct => cases h

theorem fieldIdent_notMem_of_subset {i : ℕ} {names : List Ident} (h : ∀name∈names,name ∈
    ["__data","__ptr","__args","__reply","__target_port"]++portLocals) :
    fieldIdent i∉names :=
  fun hm => fieldIdent_notMem i (h _ hm)

variable {declared : Variant Ty} {variant : ParsedVariant Ty} {x port : Ident}
  {before behind : List (Ident × Ty)} {args : List UInt8}

theorem mem_callFields {field : Ident × Ty} (hm : field∈before++behind) (ty : SynType Ty) :
    (field.1,SynType.plain field.2)∈plainFields before++(port,ty)::plainFields behind := by
  rcases mem_append.mp hm with hm | hm
  · exact mem_append_left _ (mem_map.mpr ⟨field,hm,rfl⟩)
  · exact mem_append_right _ (mem_cons_of_mem _ (mem_map.mpr ⟨field,hm,rfl⟩))

/-- Only the names of a named variant can fail to be hygienic. -/
theorem ParsesTo.hygienic (h : ParsesTo declared variant)
    (hn : variant.fieldStyle=.named→variant.Hygienic) : variant.Hygienic := by
  cases hs : variant.fieldStyle with
  | named => exact hn hs
  | tuple =>
    cases h with
    | @cast fields fieldStyle hall =>
      have ht : declared.fields.all.2=.tuple := by rw [hall,← hs]
      intro field hm
      have hf : (field.1,SynType.plain field.2)∈declared.fields.all.1 := by
        rw [hall]
        exact mem_map.mpr ⟨field,hm,rfl⟩
      obtain ⟨i,hi⟩:=Fields.all_tuple ht hf
      rw [show field.1=fieldIdent i from hi]
      exact fieldIdent_notMem_of_subset (by decide)
    | @call before behind port ty fieldStyle hall =>
      have ht : declared.fields.all.2=.tuple := by rw [hall,← hs]
      have hp : (port,SynType.replyPort (some ty))∈declared.fields.all.1 := by simp [hall]
      obtain ⟨i,rfl⟩:=Fields.all_tuple ht hp
      refine ⟨fieldIdent_notMem_of_subset (by decide),fun _ => ?_,?_⟩
      · intro he
        apply fieldIdent_notMem i
        rw [show fieldIdent i="__data" from he]
        decide
      · intro field hm
        have hf : (field.1,SynType.plain field.2)∈declared.fields.all.1 := by
          rw [hall]
          exact mem_callFields hm _
        obtain ⟨i,hi⟩:=Fields.all_tuple ht hf
        rw [show field.1=fieldIdent i from hi]
        exact fieldIdent_notMem_of_subset (by decide)

theorem ParsedVariant.Hygienic.notMem (h : variant.Hygienic) (hx : x∈["__data","__ptr","__args"]) :
    x∉variant.dataFields.map Prod.fst := by
  intro hm
  obtain ⟨field,hf,rfl⟩:=mem_map.mp hm
  unfold ParsedVariant.Hygienic at h
  split at h
  · exact h field hf hx
  · exact h.2.2 field hf (mem_append_left ["__reply","__target_port"] hx)

/-! ### Fields in their positions -/

/-- The loop puts the port behind the fields that are left before it. -/
theorem orderedBindings_eq (port : Ident) (before behind : List Ident) (first : ℕ) :
    orderedBindings port (first+before.length) (before.length+behind.length+1) first
      (before++behind)=before++port::behind := by
  induction before generalizing first with
  | nil =>
    have hb : ∀(names : List Ident) (i : ℕ),first < i →
        orderedBindings port first names.length i names=names := by
      intro names
      induction names with
      | nil => intro i hi; rfl
      | cons name names ih =>
        intro i hi
        simp only [length_cons,orderedBindings]
        rw [if_neg (by omega),ih (i+1) (by omega)]
    simp only [length_nil,Nat.zero_add,Nat.add_zero,nil_append,orderedBindings,if_true]
    rw [hb behind (first+1) (Nat.lt_succ_self first)]
  | cons name before ih =>
    have hc : (name::before).length+behind.length+1 =
        before.length+behind.length+1+1 := by rw [length_cons]; omega
    have hin : first+(name::before).length=first+1+before.length := by
      rw [length_cons]; omega
    rw [hc,hin,cons_append,orderedBindings,if_neg (by omega)]
    simp only [ih (first+1),cons_append]

theorem buildOrderedBindings_eq (before behind : List (Ident × Ty)) (port : Ident) :
    buildOrderedBindings (before++behind) port before.length =
      before.map Prod.fst++port::behind.map Prod.fst := by
  have h:=orderedBindings_eq port (before.map Prod.fst) (behind.map Prod.fst) 0
  simpa [buildOrderedBindings] using h

theorem ownNames_lookup {fields : List (Ident × Ty)} (hx : x∈fields.map Prod.fst)
    (others : List (Ident × Ident)) : (ownNames fields++others).lookup x=some x := by
  induction fields with
  | nil => cases hx
  | cons field fields ih =>
    simp only [ownNames,map_cons,cons_append,lookup_cons]
    by_cases hf : x=field.1
    · rw [beq_iff_eq.mpr hf,hf]
    · rw [beq_false_of_ne hf]
      exact ih ((mem_cons.mp hx).resolve_left hf)

theorem ownNames_lookup_ne {fields : List (Ident × Ty)} (hx : x∉fields.map Prod.fst)
    (others : List (Ident × Ident)) : (ownNames fields++others).lookup x=others.lookup x := by
  induction fields with
  | nil => rfl
  | cons field fields ih =>
    simp only [ownNames,map_cons,cons_append,lookup_cons]
    rw [beq_false_of_ne (ne_of_not_mem_cons hx)]
    exact ih (not_mem_of_not_mem_cons hx)

variable [WireTypes Ty] {scope : Scope Ty Reply} {values : List (Value Ty Reply)}

/-- A constructor expression gives each field the value of its variable. -/
theorem Shape.build_named {names : List (Ident × Ident)} {declared : Fields Ty}
    (h : List.Forall₂ (fun field value => ∃x,names.lookup field=some x ∧
      scope.lookup x=some value) declared.names values) :
    (named names).build declared scope=.ok values := by
  rw [build,mapM_eq_ok_iff]
  refine h.imp fun field value hf => ?_
  obtain ⟨x,hx,hv⟩:=hf
  simp [hx,hv]

theorem Shape.bindings_named (declared : Fields Ty) (fields : List (Value Ty Reply))
    (names : List Ident)
    (h : ∀x∈names,∃value∈fields,(declared.names.zip fields).lookup x=some value) :
    ∃scope,(named (names.map fun x => (x,x))).bindings declared fields=.ok scope ∧
      ∀x∈names,scope.lookup x=(declared.names.zip fields).lookup x := by
  rw [bindings]
  induction names with
  | nil => exact ⟨[],rfl,fun x hx => absurd hx not_mem_nil⟩
  | cons name names ih =>
    obtain ⟨scope,hs,hl⟩:=ih fun x hx => h x (mem_cons_of_mem _ hx)
    obtain ⟨value,-,hv⟩:=h name mem_cons_self
    refine ⟨(name,value)::scope,?_,?_⟩
    · rw [map_cons,mapM_eq_ok_iff]
      exact .cons (by simp [hv,bind,Except.bind]) (mapM_eq_ok_iff.mp hs)
    · intro x hx
      rw [lookup_cons]
      by_cases hn : x=name
      · rw [hn,beq_self_eq_true,hv]
      · rw [beq_false_of_ne hn]
        exact hl x ((mem_cons.mp hx).resolve_left hn)

theorem Binds.exists_mem {names : List Ident} (h : Binds scope names values) (hx : x∈names) :
    ∃value∈values,scope.lookup x=some value := by
  induction h with
  | nil => cases hx
  | cons hv _ ih =>
    rcases mem_cons.mp hx with rfl | hx
    · exact ⟨_,mem_cons_self,hv⟩
    · obtain ⟨value,hm,hl⟩:=ih hx
      exact ⟨value,mem_cons_of_mem _ hm,hl⟩

theorem Binds.fields {names : List Ident} (h : Binds scope names values)
    {locals : List (Ident × Ident)} (hown : ∀x∈names,locals.lookup x=some x) :
    List.Forall₂ (fun field value => ∃x,locals.lookup field=some x ∧
      scope.lookup x=some value) names values := by
  induction h with
  | nil => exact .nil
  | @cons name value names values hv _ ih =>
    exact .cons ⟨name,hown name mem_cons_self,hv⟩ (ih fun x hx => hown x (mem_cons_of_mem _ hx))

section Patterns
variable {declared : Fields Ty} {fields : List (Value Ty Reply)} {style : FieldStyle}

theorem Shape.tuple_binds {names : List Ident} (hn : declared.names=names)
    (hl : declared.names.length=fields.length) :
    ∃scope,(tuple names).bindings declared fields=.ok scope ∧
      Binds scope declared.names fields := by
  have hzip:=zip declared.nodup_names hl ([] : Scope Ty Reply)
  rw [append_nil] at hzip
  exact ⟨declared.names.zip fields,by rw [← hn]; exact if_pos hl,hzip⟩

theorem Shape.named_binds {names : List Ident} (hl : declared.names.length=fields.length)
    (hn : ∀x,x∈names ↔ x∈declared.names) :
    ∃scope,(named (names.map fun x => (x,x))).bindings declared fields=.ok scope ∧
      Binds scope declared.names fields := by
  have hzip:=zip declared.nodup_names hl ([] : Scope Ty Reply)
  rw [append_nil] at hzip
  obtain ⟨scope,hs,hlo⟩:=bindings_named declared fields names
    fun x hx => hzip.exists_mem ((hn x).mp hx)
  exact ⟨scope,hs,hzip.mono fun x hx => hlo x ((hn x).mpr hx)⟩

section

omit [WireTypes Ty]

theorem Fields.names_cast {data : List (Ident × Ty)}
    (hall : declared.all=(plainFields data,style)) : declared.names=data.map Prod.fst := by
  simp [names,hall]

theorem Fields.names_call {ty : Ty} (hall : declared.all =
      (plainFields before++(port,.replyPort (some ty))::plainFields behind,style)) :
    declared.names=before.map Prod.fst++port::behind.map Prod.fst := by
  simp [names,hall]

/-- A variant without fields is declared without brackets, unless it is declared as `V()`. -/
theorem Fields.eq_unit (hall : declared.all=(plainFields [],.tuple))
    (hu : declared≠.unnamed []) : declared=.unit := by
  cases declared with
  | unit => rfl
  | unnamed types =>
    have hn : types=[] := by simpa [all,plainFields] using congrArg Prod.fst hall
    exact absurd (congrArg unnamed hn) hu
  | named fields distinct => cases congrArg Prod.snd hall

end
end Patterns

/-- The pattern of an arm of `serialize` binds every field under its name. -/
theorem ParsesTo.pattern_binds (h : ParsesTo declared variant) (hu : declared.fields≠.unnamed [])
    {fields : List (Value Ty Reply)} (hl : declared.fields.names.length=fields.length) :
    ∃scope,(genSerializeArm variant).pattern.bindings declared.fields fields=.ok scope ∧
      Binds scope declared.fields.names fields := by
  cases h with
  | @cast data style hall =>
    have hn:=Fields.names_cast hall
    cases style with
    | tuple =>
      cases data with
      | nil =>
        have hunit:=Fields.eq_unit hall hu
        rw [hunit] at hl ⊢
        cases fields with
        | nil => exact ⟨[],rfl,.nil⟩
        | cons => cases hl
      | cons => exact tuple_binds hn hl
    | named =>
      have hown : ownNames data=declared.fields.names.map fun x => (x,x) := by
        simp [ownNames,hn]
      simp only [genSerializeArm,castShape,hown]
      exact named_binds hl fun x => Iff.rfl
  | @call before behind port ty style hall =>
    have hn:=Fields.names_call hall
    cases style with
    | tuple =>
      simp only [genSerializeArm,buildOrderedBindings_eq]
      exact tuple_binds hn hl
    | named =>
      have hown : ownNames (before++behind)++[(port,port)] =
          ((before++behind).map Prod.fst++[port]).map fun x => (x,x) := by
        simp [ownNames,Function.comp_def]
      simp only [genSerializeArm,hown]
      refine named_binds hl fun x => ?_
      rw [hn]
      simp only [map_append,mem_append,mem_cons,not_mem_nil]
      tauto

/-! ### The arms -/

theorem DeserializeArm.atEnd_eq {arm : DeserializeArm Ty} (h : arm.unpacked≠[]) {ptr : ℕ}
    (ha : scope.lookup "__args"=some (.bytes args))
    (hptr : scope.lookup "__ptr"=some (.usize ptr)) :
    arm.atEnd scope=.ok (ptr == args.length) := by
  simp [atEnd,ha,hptr,h,bind,Except.bind]

variable [Target] [DecidableEq Ty]

/-- Bytes of the field that a variable holds. -/
def Scope.Packs (scope : Scope Ty Reply) (field : Ident × Ty) (bytes : List UInt8) : Prop :=
  ∃value : Carrier field.2,scope.lookup field.1=some (.data value) ∧
    WireTypes.intoBytes value=some bytes

/-- The fields are packed in order, unless one of them is hidden by the vector they are packed into. -/
theorem packAll_run {fields : List (Ident × Ty)} {payloads : List (List UInt8)}
    (h : List.Forall₂ scope.Packs fields payloads) (packed : List UInt8)
    (hfi : (packed++payloads.flatMap lengthPrefixed).length ≤ isizeMax) :
    (fields.map packArgs).foldlM Block.run (("__data",.bytes packed)::scope) =
      if "__data"∈fields.map Prod.fst then .error .stuck
      else .ok (("__data",.bytes (packed++payloads.flatMap lengthPrefixed))::scope) := by
  induction h generalizing packed with
  | nil => simp [pure,Except.pure]
  | @cons field payload fields payloads hf _ ih =>
    rw [map_cons,foldlM_cons]
    by_cases hn : field.1="__data"
    · simp [packArgs,hn,bind,Except.bind]
    · obtain ⟨value,hl,hb⟩:=hf
      rw [flatMap_cons,← append_assoc] at hfi ⊢
      have hs : packed.length+(8+payload.length) ≤ isizeMax := by
        simp only [length_append,length_lengthPrefixed] at hfi
        omega
      rw [packArgs_run hn hl hb hs]
      refine (ih _ hfi).trans (if_congr ?_ rfl rfl)
      rw [map_cons,mem_cons,or_iff_right (Ne.symm hn)]

/-- An arm of `deserialize` decodes the fields in order and builds the variant if nothing is left. -/
theorem DeserializeArm.run_eq (arm : DeserializeArm Ty) {fields : List (Ident × Ty)}
    (hu : arm.unpacked=fields.map unpackArg)
    (hna : "__args"∉fields.map Prod.fst) (hnp : "__ptr"∉fields.map Prod.fst)
    (hf : args.length ≤ isizeMax) (declared : Fields Ty) (scope : Scope Ty Reply)
    (har : scope.lookup "__args"=some (.bytes args)) :
    ∃base : Scope Ty Reply,(∀x,x≠"__ptr" → base.lookup x=scope.lookup x) ∧
      arm.run declared scope=match decodeAll (fields.map Prod.snd) args with
        | some (values,[]) =>
          arm.finish declared (((fields.map Prod.fst).zip values).reverse++base)
        | _ => .error .downcastErr := by
  cases fields with
  | nil =>
    refine ⟨scope,fun x hx => rfl,?_⟩
    cases args <;> simp [run,atEnd,hu,har,decodeAll,bind,Except.bind,pure,Except.pure]
  | cons field fields =>
    refine ⟨("__ptr",.usize args.length)::scope,fun x hx => ?_,?_⟩
    · rw [lookup_cons,beq_false_of_ne hx]
    have hs : lookup "__ptr" (("__ptr",Value.usize 0)::scope)=some (.usize 0) := by
      rw [lookup_cons,beq_self_eq_true]
    have ha : lookup "__args" (("__ptr",Value.usize 0)::scope)=some (.bytes args) := by
      rw [lookup_cons,beq_false_of_ne (by decide),har]
    have hrun:=unpackAll_run hf (field::fields) hna hnp ha hs (Nat.zero_le _)
    rw [drop_zero] at hrun
    simp only [run,hu]
    rw [if_neg (by simp),hrun]
    cases hd : @decodeAll Ty Reply _ ((field::fields).map Prod.snd) args with
    | none => rfl
    | some decoded =>
      obtain ⟨values,rest⟩:=decoded
      obtain ⟨hl,hr⟩:=length_decodeAll hd
      have hv : ((field::fields).map Prod.fst).length=values.length := by
        rw [hl,length_map,length_map]
      have hptr:=lookup_zip_reverse hv hnp (("__ptr",.usize (args.length - rest.length))::scope)
      have ha':=lookup_zip_reverse hv hna (("__ptr",.usize (args.length - rest.length))::scope)
      rw [lookup_cons,beq_self_eq_true] at hptr
      rw [lookup_cons,beq_false_of_ne (by decide),har] at ha'
      have hset : Scope.set (("__ptr",.usize 0)::scope) "__ptr"
          (.usize (args.length - rest.length)) =
            ("__ptr",.usize (args.length - rest.length))::scope := by simp
      have hend:=arm.atEnd_eq (by simp [hu]) ha' hptr
      simp only [hset,hend,bind,Except.bind]
      cases rest with
      | nil => simp
      | cons byte rest =>
        rw [length_cons] at hr ⊢
        rw [if_neg]
        simp only [beq_iff_eq]
        omega

def Port.typed (ty : Ty) (reply : Port Reply (List UInt8)) : Port Reply (Carrier ty) :=
  ⟨reply.timeout,fun value => (WireTypes.intoBytes value).bind reply.send⟩

def Port.binary {ty : Ty} (port : Port Reply (Carrier ty)) : Port Reply (List UInt8) :=
  ⟨port.timeout,fun bytes => (WireTypes.fromBytes ty bytes).bind port.send⟩

section Arms
variable {declared : Fields Ty} {fields : List (Ident × Ty)} {style : FieldStyle}

theorem finish_cast (ident tag : Ident) (hall : declared.all=(plainFields fields,style))
    (hu : declared≠.unnamed []) (hb : Binds scope (fields.map Prod.fst) values) :
    (genDeserializeArm ⟨ident,tag,.cast,style,fields⟩).finish declared scope =
      .ok ⟨ident,values⟩ := by
  have hbu : (genDeserializeArm ⟨ident,tag,.cast,style,fields⟩).construct.build declared scope =
      .ok values := by
    cases style with
    | tuple =>
      cases fields with
      | nil =>
        cases hb
        rw [Fields.eq_unit hall hu]
        rfl
      | cons => exact hb.mapM_get
    | named =>
      apply build_named
      rw [Fields.names_cast hall]
      have hown:=hb.fields fun x hx => ownNames_lookup hx []
      rwa [append_nil] at hown
  simp only [finish,genDeserializeArm,bind,Except.bind] at hbu ⊢
  rw [hbu]

theorem finish_call (ident tag : Ident) (style : FieldStyle) (ty : Ty)
    (hn : declared.names=before.map Prod.fst++port::behind.map Prod.fst)
    {valuesBefore valuesBehind : List (Value Ty Reply)} {reply : Port Reply (List UInt8)}
    (hb : Binds scope (before.map Prod.fst) valuesBefore)
    (hbe : Binds scope (behind.map Prod.fst) valuesBehind)
    (hr : scope.lookup "__reply"=some (.bytesPort reply))
    (ht : "__target_port"∉(before++behind).map Prod.fst)
    (hp : port∉(before++behind).map Prod.fst) :
    (genDeserializeArm ⟨ident,tag,.call ty port before.length,style,before++behind⟩).finish
        declared scope =
      .ok ⟨ident,valuesBefore++.port (typed ty reply)::valuesBehind⟩ := by
  have hs : (before++behind).map Prod.fst=before.map Prod.fst++behind.map Prod.fst := map_append
  rw [hs,mem_append,not_or] at ht
  have hb:=hb.cons ht.1 (.port (typed ty reply))
  have hbe:=hbe.cons ht.2 (.port (typed ty reply))
  have hbu : (genDeserializeArm ⟨ident,tag,.call ty port before.length,style,
      before++behind⟩).construct.build declared (("__target_port",.port (typed ty reply))::scope) =
          .ok (valuesBefore++.port (typed ty reply)::valuesBehind) := by
    cases style with
    | tuple =>
      simp only [genDeserializeArm,buildOrderedBindings_eq]
      refine mapM_get (hb.append (List.Forall₂.cons ?_ hbe))
      rw [lookup_cons,beq_self_eq_true]
    | named =>
      apply build_named
      have hown : ∀x∈(before++behind).map Prod.fst,
          (ownNames (before++behind)++[(port,"__target_port")]).lookup x=some x :=
        fun x hx => ownNames_lookup hx _
      rw [hs] at hown
      rw [hn]
      refine rel_append (hb.fields fun x hx => hown x (mem_append_left _ hx))
        (.cons ⟨"__target_port",?_,by rw [lookup_cons,beq_self_eq_true]⟩
          (hbe.fields fun x hx => hown x (mem_append_right _ hx)))
      rw [ownNames_lookup_ne hp,lookup_cons,beq_self_eq_true]
  have he : (Expr.deserializePort "__reply" ty).eval scope=.ok (.port (typed ty reply)) := by
    simp [hr,typed]
  simp only [finish,genDeserializeArm,bind,Except.bind] at hbu ⊢
  rw [he]
  simp only [hbu]

theorem deserialize_cast_run (ident tag : Ident) (hall : declared.all=(plainFields fields,style))
    (hu : declared≠.unnamed [])
    (hygienic : ParsedVariant.Hygienic ⟨ident,tag,.cast,style,fields⟩)
    (hf : args.length ≤ isizeMax) :
    (genDeserializeArm ⟨ident,tag,.cast,style,fields⟩).run declared [("__args",.bytes args)] =
      match @decodeAll Ty Reply _ (fields.map Prod.snd) args with
      | some (values,[]) => .ok ⟨ident,values⟩
      | _ => .error .downcastErr := by
  have ha : lookup "__args" [("__args",(.bytes args : Value Ty Reply))]=some (.bytes args):=rfl
  have hn:=declared.nodup_names
  rw [Fields.names_cast hall] at hn
  obtain ⟨base,-,hrun⟩ :=
    (genDeserializeArm ⟨ident,tag,.cast,style,fields⟩).run_eq rfl (hygienic.notMem (by decide))
      (hygienic.notMem (by decide)) hf declared _ ha
  rw [hrun]
  dsimp only
  split
  next values hd =>
    have hl : (fields.map Prod.fst).length=values.length := by
      rw [(length_decodeAll hd).1,length_map,length_map]
    exact finish_cast ident tag hall hu (zip_reverse hn hl base)
  next => rfl

/-- An arm for a call gives the decoded values with the typed reply port in its place. -/
theorem deserialize_call_run (ident tag : Ident) {ty : Ty} (hall : declared.all =
      (plainFields before++(port,.replyPort (some ty))::plainFields behind,style))
    (hygienic : ParsedVariant.Hygienic ⟨ident,tag,.call ty port before.length,style,before++behind⟩)
    (hfi : args.length ≤ isizeMax) (reply : Port Reply (List UInt8)) :
    (genDeserializeArm ⟨ident,tag,.call ty port before.length,style,before++behind⟩).run declared
        [("__args",.bytes args),("__reply",.bytesPort reply)] =
      match decodeAll ((before++behind).map Prod.snd) args with
      | some (values,[]) => .ok ⟨ident,values.take before.length ++
          .port (typed ty reply)::values.drop before.length⟩
      | _ => .error .downcastErr := by
  have hna:=Fields.names_call hall
  have hn:=declared.nodup_names
  rw [hna] at hn
  obtain ⟨base,hba,hrun⟩ :=
    (genDeserializeArm ⟨ident,tag,.call ty port before.length,style,before++behind⟩).run_eq rfl
      (hygienic.notMem (by decide)) (hygienic.notMem (by decide)) hfi declared
      [("__args",.bytes args),("__reply",.bytesPort reply)] rfl
  rw [hrun]
  dsimp only
  split
  next values hd =>
    have hl : ((before++behind).map Prod.fst).length=values.length := by
      rw [(length_decodeAll hd).1,length_map,length_map]
    have hmi:=perm_middle.nodup_iff.mp hn
    rw [← map_append] at hmi
    obtain ⟨hp,hn⟩:=nodup_cons.mp hmi
    have hb:=zip_reverse hn hl base
    have hnot : ∀x∈["__reply","__target_port"],x∉(before++behind).map Prod.fst := by
      intro x hx hm
      obtain ⟨field,hf,rfl⟩:=mem_map.mp hm
      have hre:=hygienic.2.2 field hf
      simp only [mem_cons,not_or] at hre hx
      tauto
    have hr:=lookup_zip_reverse hl (hnot "__reply" (by decide)) base
    rw [hba "__reply" (by decide)] at hr
    generalize (((before++behind).map Prod.fst).zip values).reverse++base=scope at hb hr ⊢
    have hbe:=forall₂_take before.length hb
    have hbeh:=forall₂_drop before.length hb
    rw [map_append,take_left' (length_map _)] at hbe
    rw [map_append,drop_left' (length_map _)] at hbeh
    exact finish_call ident tag style ty hna hbe hbeh hr (hnot "__target_port" (by decide)) hp
  next => rfl

end Arms
end Ractor.Derive
