import Ractor.DerivedNameClashes

/-!
# Round trips of derived messages

A value of the enum is serialized and deserialized to itself, and `deserialize` accepts exactly the
messages whose tag names a variant of their kind and whose arguments are one block per data field,
if and only if no name of a field clashes with the generated code and no variant is declared as `V()`.
-/

namespace Ractor.Derive
open List Variant ClusterMessage SerializeArm Port
open WireTypes (Carrier)

variable {payloads : List (List UInt8)} {args : List UInt8}

section Theorems
variable {Ty Reply : Type} [WireTypes Ty] [Target] [DecidableEq Ty]

/-! ### Messages -/

inductive HasType : SynType Ty→Value Ty Reply→Prop where
  | data {ty : Ty} (value : Carrier ty) : HasType (.plain ty) (.data value)
  | port {ty : Ty} (port : Port Reply (Carrier ty)) : HasType (.replyPort (some ty)) (.port port)

def Message.WellTyped (data : EnumData Ty) (message : Message Ty Reply) : Prop :=
  ∃declared∈data.variants,declared.ident=message.variant ∧
    List.Forall₂ HasType (declared.fields.all.1.map Prod.snd) message.fields

def RoundTrips (ty : Ty) : Prop :=
  ∀value : Carrier ty,∃bytes,WireTypes.intoBytes value=some bytes ∧
    WireTypes.fromBytes ty bytes=some value

def Value.packed : Value Ty Reply → List UInt8
  | .data value => ((WireTypes.intoBytes value).map lengthPrefixed).getD []
  | _ => []

def Message.packed (message : Message Ty Reply) : List UInt8:=message.fields.flatMap Value.packed

def Wire.bytes : Wire Reply → List UInt8
  | .cast _ args _ => args
  | .call _ args _ _ => args
  | .callReply _ data => data

/-- The variables of an arm of `deserialize`. -/
def Wire.scope : Wire Reply → Scope Ty Reply
  | .cast _ args _ => [("__args",.bytes args)]
  | .call _ args reply _ => [("__args",.bytes args),("__reply",.bytesPort reply)]
  | .callReply _ _ => []

variable {ty : Ty} {scope : Scope Ty Reply} {fields : List (Ident × Ty)}
  {values : List (Value Ty Reply)} {declared : Variant Ty} {data : EnumData Ty}

omit [Target] [DecidableEq Ty] in
theorem Port.typed_binary (h : RoundTrips ty) (port : Port Reply (Carrier ty)) :
    typed ty port.binary=port := by
  have hs : (typed ty port.binary).send=port.send := by
    funext value
    obtain ⟨bytes,hb,hv⟩:=h value
    simp [typed,binary,hb,hv]
  exact congrArg (mk port.timeout) hs

omit [DecidableEq Ty] in
/-- Data fields of types that round-trip, packed and decoded again. -/
theorem packs_of_binds (hr : ∀ty : Ty,RoundTrips ty) (hb : Binds scope (fields.map Prod.fst) values)
    (ht : List.Forall₂ HasType ((plainFields fields).map Prod.snd) values)
    (hf : (values.flatMap Value.packed).length ≤ isizeMax) :
    (∃payloads,List.Forall₂ scope.Packs fields payloads ∧
      payloads.flatMap lengthPrefixed=values.flatMap Value.packed) ∧
    decodeAll (fields.map Prod.snd) (values.flatMap Value.packed)=some (values,[]) := by
  induction fields generalizing values with
  | nil =>
    cases ht
    exact ⟨⟨[],.nil,rfl⟩,rfl⟩
  | cons field fields ih =>
    cases ht with
    | cons hty ht =>
      cases hb with
      | cons hl hb =>
        cases hty with
        | data value =>
          obtain ⟨bytes,hby,hv⟩:=hr field.2 value
          have hp : (.data value : Value Ty Reply).packed=lengthPrefixed bytes := by
            simp [Value.packed,hby]
          have hi:=isizeMax_lt_usizeMax
          have hu:=usizeMax_lt
          rw [flatMap_cons,hp,length_append,length_lengthPrefixed] at hf
          obtain ⟨⟨payloads,hpa,hfl⟩,hd⟩:=ih hb ht (by omega)
          rw [flatMap_cons,hp]
          constructor
          · refine ⟨bytes::payloads,.cons ⟨value,hl,hby⟩ hpa,?_⟩
            rw [flatMap_cons,hfl]
          · rw [map_cons,decodeAll,takePrefixed_lengthPrefixed (by omega)]
            simp [hv,hd]

/-- An arm of `serialize` builds the message around the packed fields, unless one of them is hidden. -/
theorem SerializeArm.run_eq (arm : SerializeArm Ty) {declared : Fields Ty}
    (hp : arm.packed=fields.map packArgs) (hs : arm.pattern.bindings declared values=.ok scope)
    (hpa : List.Forall₂ scope.Packs fields payloads)
    (hfits : (payloads.flatMap lengthPrefixed).length ≤ isizeMax) :
    arm.run declared values=if "__data"∈fields.map Prod.fst then .error .stuck
      else arm.finish (payloads.flatMap lengthPrefixed) (if fields=[] then scope
          else ("__data",.bytes (payloads.flatMap lengthPrefixed))::scope) := by
  have hrun:=packAll_run hpa [] hfits
  rw [nil_append] at hrun
  cases hpa with
  | nil => simp [run,hs,hp,bind,Except.bind]
  | cons =>
    split
    next hn =>
      rw [if_pos hn] at hrun
      simp only [run,hs,hp,bind,Except.bind,hrun]
      simp
    next hn =>
      rw [if_neg hn] at hrun
      simp only [run,hs,hp,bind,Except.bind,hrun]
      simp

/-- The vector of the packed fields is there only with data fields, and then does not hide the port. -/
theorem serialize_call_finish (ident tag : Ident) (style : FieldStyle) {port : Ident}
    {portIndex : ℕ} (hl : port∉portLocals) (hd : fields≠[]→port≠"__data")
    {typed : Port Reply (Carrier ty)} (hpo : scope.lookup port=some (.port typed))
    (args : List UInt8) :
    (genSerializeArm ⟨ident,tag,.call ty port portIndex,style,fields⟩).finish args
        (if fields=[] then scope else ("__data",.bytes args)::scope) =
      .ok (.call tag args typed.binary none) := by
  generalize hin : (if fields=[] then scope else ("__data",.bytes args)::scope)=inner
  have hpo' : inner.lookup port=some (.port typed) := by
    rw [← hin]
    split
    · exact hpo
    next hne => rw [lookup_cons,beq_false_of_ne (hd hne),hpo]
  have he : (Expr.serializePort port ty).eval inner=.ok (.bytesPort typed.binary) := by
    simp [hl,hpo',binary]
  simp only [finish,genSerializeArm,he,bind,Except.bind]

omit [Target] in
theorem forall₂_append_left {α β : Type} {R : α→β→Prop} {as as' : List α} {bs : List β}
    (h : List.Forall₂ R (as++as') bs) :
    ∃bs₁ bs₂,bs=bs₁++bs₂ ∧ List.Forall₂ R as bs₁ ∧ List.Forall₂ R as' bs₂ := by
  refine ⟨bs.take as.length,bs.drop as.length,(take_append_drop _ _).symm,?_,?_⟩
  · simpa using forall₂_take as.length h
  · simpa using forall₂_drop as.length h

omit [Target] [DecidableEq Ty] in
theorem length_names (ht : List.Forall₂ HasType (declared.fields.all.1.map Prod.snd) values) :
    declared.fields.names.length=values.length := by
  rw [← ht.length_eq,Fields.names,length_map,length_map]

section Values
variable (hr : ∀ty : Ty,RoundTrips ty)
  (ht : List.Forall₂ HasType (declared.fields.all.1.map Prod.snd) values)
  (hf : (values.flatMap Value.packed).length ≤ isizeMax) (hu : declared.fields≠.unnamed [])
  {style : FieldStyle} {before behind : List (Ident × Ty)} {port : Ident}
include hr ht hf hu

omit [DecidableEq Ty] in
/-- The fields of a cast are bound, packed and decoded again. -/
theorem cast_packs (hall : declared.fields.all=(plainFields fields,style)) :
    ∃scope payloads,(genSerializeArm
        ⟨declared.ident,declared.ident,.cast,style,fields⟩).pattern.bindings declared.fields values =
          .ok scope ∧ List.Forall₂ scope.Packs fields payloads ∧
      (payloads.flatMap lengthPrefixed).length ≤ isizeMax ∧
      decodeAll (fields.map Prod.snd) (payloads.flatMap lengthPrefixed)=some (values,[]) := by
  obtain ⟨scope,hs,hb⟩:=(ParsesTo.cast hall).pattern_binds hu (length_names ht)
  rw [hall] at ht
  rw [Fields.names_cast hall] at hb
  obtain ⟨⟨payloads,hp,hfl⟩,hd⟩:=packs_of_binds hr hb ht hf
  rw [← hfl] at hf hd
  exact ⟨scope,payloads,hs,hp,hf,hd⟩

omit [DecidableEq Ty] in
/-- The data fields of a call are bound, packed and decoded again, and the port is bound. -/
theorem call_packs (hall : declared.fields.all =
      (plainFields before++(port,.replyPort (some ty))::plainFields behind,style)) :
    ∃scope payloads valuesBefore typed valuesBehind,(genSerializeArm ⟨declared.ident,
        declared.ident,.call ty port before.length,style,before++behind⟩).pattern.bindings
          declared.fields values=.ok scope ∧
      scope.lookup port=some (@Value.port _ _ _ ty typed) ∧
      List.Forall₂ scope.Packs (before++behind) payloads ∧
      (payloads.flatMap lengthPrefixed).length ≤ isizeMax ∧
      values=valuesBefore++.port typed::valuesBehind ∧ before.length=valuesBefore.length ∧
      decodeAll ((before++behind).map Prod.snd) (payloads.flatMap lengthPrefixed) =
        some (valuesBefore++valuesBehind,[]) := by
  obtain ⟨scope,hs,hbin⟩:=(ParsesTo.call hall).pattern_binds hu (length_names ht)
  rw [hall,map_append,map_cons] at ht
  rw [Fields.names_call hall] at hbin
  obtain ⟨valuesBefore,valuesRest,rfl,htb,htypesRest⟩:=forall₂_append_left ht
  cases htypesRest with
  | @cons _ _ _ valuesBehind htype htyp =>
    cases htype with
    | port typed =>
      have hbe : (before.map Prod.fst).length=valuesBefore.length := by
        simpa [plainFields] using htb.length_eq
      have hb:=forall₂_take (before.map Prod.fst).length hbin
      have hbi:=forall₂_drop (before.map Prod.fst).length hbin
      rw [take_left,hbe,take_left] at hb
      rw [drop_left,hbe,drop_left] at hbi
      cases hbi with
      | cons hpo hbindsBehind =>
        have hbindsData : Binds scope ((before++behind).map Prod.fst) (valuesBefore++valuesBehind) := by
          rw [map_append]
          exact Binds.append hb hbindsBehind
        have htypesData : List.Forall₂ HasType ((plainFields (before++behind)).map Prod.snd)
            (valuesBefore++valuesBehind) := by
          rw [plainFields,map_append,map_append]
          exact rel_append htb htyp
        have hp : (valuesBefore++.port typed::valuesBehind).flatMap Value.packed =
            (valuesBefore++valuesBehind).flatMap Value.packed := by simp [Value.packed]
        rw [hp] at hf
        obtain ⟨⟨payloads,hpa,hfl⟩,hd⟩ := packs_of_binds hr hbindsData htypesData hf
        rw [← hfl] at hf hd
        rw [length_map] at hbe
        exact ⟨scope,payloads,valuesBefore,typed,valuesBehind,hs,hpo,hpa,hf,rfl,hbe,hd⟩

/-- The arms of a variant undo each other, and the port of a call is in its place again. -/
theorem ParsesTo.round_trip {variant : ParsedVariant Ty} (hp : ParsesTo declared variant)
    (hygienic : variant.Hygienic) :
    ∃wire,(genSerializeArm variant).run declared.fields values=.ok wire ∧
      (genDeserializeArm variant).run declared.fields wire.scope=.ok ⟨declared.ident,values⟩ := by
  have hn : "__data"∉variant.dataFields.map Prod.fst:=hygienic.notMem (by decide)
  cases hp with
  | cast hall =>
    obtain ⟨scope,payloads,hs,hp,hfi,hd⟩:=cast_packs hr ht hf hu hall
    refine ⟨_,(SerializeArm.run_eq _ rfl hs hp hfi).trans (if_neg hn),?_⟩
    exact (deserialize_cast_run _ _ hall hu hygienic hfi).trans (by rw [hd])
  | @call _ _ _ ty _ hall =>
    obtain ⟨scope,payloads,valuesBefore,typed,valuesBehind,hs,hpo,hpa,hfi,rfl,hbe,hd⟩ :=
      call_packs hr ht hf hu hall
    refine ⟨.call declared.ident (payloads.flatMap lengthPrefixed) typed.binary none,?_,?_⟩
    · rw [SerializeArm.run_eq _ rfl hs hpa hfi,if_neg hn]
      exact serialize_call_finish _ _ _ hygienic.1 hygienic.2.1 hpo _
    · refine (deserialize_call_run _ _ hall hygienic hfi typed.binary).trans ?_
      rw [hd,typed_binary (hr ty)]
      simp [hbe]

end Values

/-! ### The enum -/

section Enum

omit [WireTypes Ty] [Target] [DecidableEq Ty]

theorem ParsesTo.ident_eq {variant : ParsedVariant Ty} (h : ParsesTo declared variant) :
    variant.ident=declared.ident ∧ variant.variantTag=declared.ident := by
  cases h <;> exact ⟨rfl,rfl⟩

theorem mem_parsed {parsed : List (ParsedVariant Ty)}
    (h : parseClusterMessage (.enum data)=.ok parsed) {variant : ParsedVariant Ty} :
    variant∈parsed ↔ ∃declared∈data.variants,parseVariant declared=.ok variant := by
  have hp:=mapM_eq_ok_iff.mp h
  generalize data.variants=variants at hp
  clear h
  induction hp with
  | nil => simp
  | cons hv _ ih =>
    rw [mem_cons]
    constructor
    · rintro (rfl | hm)
      · exact ⟨_,List.mem_cons_self,hv⟩
      · obtain ⟨declared,hm,hd⟩:=ih.mp hm
        exact ⟨declared,List.mem_cons_of_mem _ hm,hd⟩
    · rintro ⟨declared,hm,hd⟩
      rcases mem_cons.mp hm with rfl | hm
      · rw [hv] at hd
        exact .inl (Except.ok.inj hd).symm
      · exact .inr (ih.mpr ⟨declared,hm,hd⟩)

theorem exists_parsed {parsed : List (ParsedVariant Ty)}
    (h : parseClusterMessage (.enum data)=.ok parsed) (hm : declared∈data.variants) :
    ∃variant,parseVariant declared=.ok variant := by
  have hp:=mapM_eq_ok_iff.mp h
  generalize data.variants=variants at hp hm
  clear h
  induction hp with
  | nil => cases hm
  | @cons first variant variants parsed hv _ ih =>
    rcases mem_cons.mp hm with rfl | hm
    · exact ⟨variant,hv⟩
    · exact ih hm

theorem eq_of_ident_eq {declared' : Variant Ty} (h : declared∈data.variants)
    (h' : declared'∈data.variants) (hi : declared.ident=declared'.ident) :
    declared=declared' :=
  inj_on_of_nodup_map data.distinct h h' hi

theorem find?_eq_some_of_unique {α : Type} {l : List α} {p : α→Bool} {a : α} (ha : a∈l)
    (hp : p a=true) (hu : ∀b∈l,p b=true → b=a) : l.find? p=some a := by
  cases h : l.find? p with
  | none => exact absurd hp (find?_eq_none.mp h a ha)
  | some b => rw [hu b (mem_of_find?_eq_some h) (find?_some h)]

variable {parsed : List (ParsedVariant Ty)} (hparse : parseClusterMessage (.enum data)=.ok parsed)
  {variant : ParsedVariant Ty}
include hparse

omit hparse in
theorem declared_fields (hm : declared∈data.variants) :
    data.declared declared.ident=declared.fields := by
  have hf : data.variants.find? (fun other => other.ident=declared.ident)=some declared :=
    find?_eq_some_of_unique hm (by simp) fun other ho hi =>
      eq_of_ident_eq ho hm (by simpa using hi)
  rw [EnumData.declared,hf]

theorem find_arm {Arm : Type} (gen : ParsedVariant Ty → Arm) (tag : Arm→Ident)
    (htag : ∀declared,∀variant,ParsesTo declared variant→tag (gen variant)=declared.ident)
    (hm : declared∈data.variants) (hv : parseVariant declared=.ok variant)
    (p : ParsedVariant Ty→Bool) (hp : p variant=true) :
    (((parsed.filter p).map gen).find? fun arm => tag arm=declared.ident)=some (gen variant) := by
  apply find?_eq_some_of_unique
  · have hmem:=(mem_parsed hparse).mpr ⟨declared,hm,hv⟩
    exact mem_map.mpr ⟨variant,mem_filter.mpr ⟨hmem,hp⟩,rfl⟩
  · exact decide_eq_true (htag _ _ (parseVariant_parses hv))
  · intro arm harm hn
    obtain ⟨other,ho,rfl⟩:=mem_map.mp harm
    obtain ⟨declared',hm',ho⟩:=(mem_parsed hparse).mp (mem_filter.mp ho).1
    have hi:=htag _ _ (parseVariant_parses ho)
    obtain rfl:=eq_of_ident_eq hm' hm (hi.symm.trans (of_decide_eq_true hn))
    rw [Except.ok.inj (ho.symm.trans hv)]

end Enum

/-- No variant is declared as `V()`, and no named field has a name that the generated code uses. -/
def Hygienic (data : EnumData Ty) (parsed : List (ParsedVariant Ty)) : Prop :=
  (∀declared∈data.variants,declared.fields≠.unnamed []) ∧
    ∀variant∈parsed,variant.fieldStyle=.named → variant.Hygienic

/-! ### What is accepted -/

def Variant.dataTypes (variant : Variant Ty) : List Ty :=
  (dataFieldsOf variant.fields.all.1).map Prod.snd

def Variant.isCast (variant : Variant Ty) : Bool :=
  variant.fields.all.1.all fun field => !field.2.isReplyPort

/-- The tag names a variant of the kind of the message, and the arguments are what the decoders of its
data fields accept. -/
def WellFormedWire (data : EnumData Ty) : Wire Reply → Prop
  | .cast tag args _ => ∃declared∈data.variants,declared.ident=tag ∧ declared.isCast=true ∧
      WellFormedArgs declared.dataTypes args
  | .call tag args _ _ => ∃declared∈data.variants,declared.ident=tag ∧
      declared.isCast=false ∧ WellFormedArgs declared.dataTypes args
  | .callReply _ _ => False

section

omit [WireTypes Ty] [Target] [DecidableEq Ty]

theorem isCast_plainFields (fields : List (Ident × Ty)) :
    (plainFields fields).all (fun field => !field.2.isReplyPort)=true := by
  simp [plainFields,SynType.isReplyPort]

theorem ParsesTo.isCast_eq {variant : ParsedVariant Ty} (h : ParsesTo declared variant) :
    variant.kind.isCast=declared.isCast := by
  unfold isCast
  cases h with
  | cast hall => rw [hall,isCast_plainFields]; rfl
  | call hall => simp [hall,VariantKind.isCast,SynType.isReplyPort]

theorem ParsesTo.dataTypes_eq {variant : ParsedVariant Ty} (h : ParsesTo declared variant) :
    variant.dataFields.map Prod.snd=declared.dataTypes := by
  unfold dataTypes
  cases h with
  | cast hall => rw [hall,dataFieldsOf_plainFields]
  | @call before behind port ty style hall =>
    have hp : dataFieldsOf ((port,SynType.replyPort (some ty))::plainFields behind) =
        dataFieldsOf (plainFields behind) := by simp [dataFieldsOf,SynType.dataType?]
    rw [hall,dataFieldsOf_append,hp,dataFieldsOf_plainFields,dataFieldsOf_plainFields]

end

omit [DecidableEq Ty] in
theorem decodeAll_spec {types : List Ty} (hf : args.length ≤ isizeMax)
    {build : List (Value Ty Reply)→Message Ty Reply} {result : Except Halt (Message Ty Reply)}
    (h : result=match decodeAll types args with
      | some (values,[]) => .ok (build values)
      | _ => .error .downcastErr) :
    (WellFormedArgs types args→∃message,result=.ok message) ∧
      (¬ WellFormedArgs types args → result=.error .downcastErr) := by
  constructor
  · intro ha
    obtain ⟨values,hv⟩ : ∃values : List (Value Ty Reply),decodeAll types args=some (values,[]) :=
      decodeAll_of_wellFormedArgs hf ha
    rw [hv] at h
    exact ⟨build values,h⟩
  · intro ha
    rw [h]
    split
    next values hv => exact absurd (wellFormedArgs_of_decodeAll hv) ha
    next => rfl

section Codec
variable {parsed : List (ParsedVariant Ty)} (hparse : parseClusterMessage (.enum data)=.ok parsed)
include hparse

/-- `deserialize` on the arms for one kind, by what the arms do. -/
theorem deserialize_kind {p : ParsedVariant Ty→Bool} {tag : Ident}
    (hrun : ∀declared∈data.variants,∀variant,parseVariant declared=.ok variant → p variant=true →
      (WellFormedArgs declared.dataTypes args →
        ∃message,(genDeserializeArm variant).run declared.fields scope=.ok message) ∧
      (¬ WellFormedArgs declared.dataTypes args →
        (genDeserializeArm variant).run declared.fields scope=.error .downcastErr))
    {result : Except Halt (Message Ty Reply)} (hr : result =
      match ((parsed.filter p).map genDeserializeArm).find? fun arm => arm.variantTag=tag with
      | some arm => arm.run (data.declared arm.variant) scope
      | none => .error .downcastErr) {isCast : Bool} (hp : ∀declared∈data.variants,∀variant,
      parseVariant declared=.ok variant→(p variant=true ↔ declared.isCast=isCast)) :
    ((∃declared∈data.variants,declared.ident=tag ∧ declared.isCast=isCast ∧
      WellFormedArgs declared.dataTypes args)→∃message,result=.ok message) ∧
    (¬ (∃declared∈data.variants,declared.ident=tag ∧ declared.isCast=isCast ∧
      WellFormedArgs declared.dataTypes args) → result=.error .downcastErr) := by
  by_cases hf : ∃declared∈data.variants,declared.ident=tag ∧ declared.isCast=isCast
  · obtain ⟨declared,hm,rfl,hc⟩:=hf
    obtain ⟨variant,hv⟩:=exists_parsed hparse hm
    have hk:=(hp declared hm variant hv).mpr hc
    have hi : (genDeserializeArm variant).variant=declared.ident :=
      (parseVariant_parses hv).ident_eq.1
    rw [find_arm hparse genDeserializeArm (·.variantTag) (fun _ _ h => h.ident_eq.2) hm hv p hk] at hr
    simp only [hi,declared_fields hm] at hr
    obtain ⟨hok,herr⟩:=hrun declared hm variant hv hk
    rw [hr]
    constructor
    · rintro ⟨declared',hm',hi',-,ha⟩
      obtain rfl:=eq_of_ident_eq hm' hm hi'
      exact hok ha
    · intro ha
      exact herr fun h => ha ⟨declared,hm,rfl,hc,h⟩
  · have hn : ((parsed.filter p).map genDeserializeArm).find? (fun arm => arm.variantTag=tag) =
        none := by
      refine find?_eq_none.mpr fun arm harm htag => hf ?_
      obtain ⟨variant,hv,rfl⟩:=mem_map.mp harm
      obtain ⟨hv,hk⟩:=mem_filter.mp hv
      obtain ⟨declared,hm,hd⟩:=(mem_parsed hparse).mp hv
      refine ⟨declared,hm,?_,(hp declared hm variant hd).mp hk⟩
      rw [← (parseVariant_parses hd).ident_eq.2]
      exact of_decide_eq_true htag
    rw [hn] at hr
    constructor
    · rintro ⟨declared,hm,htag,hc,-⟩
      exact absurd ⟨declared,hm,htag,hc⟩ hf
    · intro _
      exact hr

section Hygienic
variable (hygienic : Hygienic data parsed)
include hygienic

omit [WireTypes Ty] [Target] [DecidableEq Ty] in
theorem Hygienic.variant (hm : declared∈data.variants) {variant : ParsedVariant Ty}
    (hv : parseVariant declared=.ok variant) : variant.Hygienic :=
  (parseVariant_parses hv).hygienic (hygienic.2 variant ((mem_parsed hparse).mpr ⟨declared,hm,hv⟩))

theorem deserialize_spec (wire : Wire Reply) (hf : wire.bytes.length ≤ isizeMax) :
    (WellFormedWire data wire→∃message : Message Ty Reply,
      (expandClusterMessage parsed).deserialize data wire=.ok message) ∧
    (¬ WellFormedWire data wire →
      (expandClusterMessage parsed).deserialize data wire=.error .downcastErr) := by
  cases wire with
  | cast tag args metadata =>
    refine deserialize_kind hparse ?_ rfl ?_
    · intro declared hm variant hv hc
      have hv':=Hygienic.variant hparse hygienic hm hv
      have hp:=parseVariant_parses hv
      rw [← hp.dataTypes_eq]
      cases hp with
      | cast hall =>
        exact decodeAll_spec hf (deserialize_cast_run _ _ hall (hygienic.1 declared hm) hv' hf)
      | call hall => cases hc
    · intro declared hm variant hv
      rw [(parseVariant_parses hv).isCast_eq]
  | call tag args reply metadata =>
    refine deserialize_kind hparse ?_ rfl ?_
    · intro declared hm variant hv hc
      have hv':=Hygienic.variant hparse hygienic hm hv
      have hp:=parseVariant_parses hv
      rw [← hp.dataTypes_eq]
      cases hp with
      | cast hall => cases hc
      | call hall => exact decodeAll_spec hf (deserialize_call_run _ _ hall hv' hf reply)
    · intro declared hm variant hv
      rw [(parseVariant_parses hv).isCast_eq,Bool.not_eq_true']
  | callReply tag bytes => exact ⟨False.elim,fun _ => rfl⟩

end Hygienic

/-! ### The arms of a variant -/

section Variants
variable {variant : ParsedVariant Ty} (hm : declared∈data.variants)
  (hv : parseVariant declared=.ok variant)
include hm hv

theorem serialize_eq (fields : List (Value Ty Reply)) :
    (expandClusterMessage parsed).serialize data ⟨declared.ident,fields⟩ =
      (genSerializeArm variant).run declared.fields fields := by
  have hfind:=find_arm hparse genSerializeArm (·.variant) (fun _ _ h => h.ident_eq.1) hm hv
    (fun _ => true) rfl
  rw [filter_true] at hfind
  simp only [serialize,expandClusterMessage,hfind,declared_fields hm]

/-- A message comes to the arm of the variant that it was made of. -/
theorem deserialize_serialized {wire : Wire Reply} {fields : List (Value Ty Reply)}
    (h : (genSerializeArm variant).run declared.fields fields=.ok wire) :
    (expandClusterMessage parsed).deserialize data wire =
      (genDeserializeArm variant).run declared.fields wire.scope := by
  have hp:=parseVariant_parses hv
  obtain ⟨args,scope,hfin⟩:=run_finish h
  have hfind:=find_arm hparse genDeserializeArm (·.variantTag) (fun _ _ h => h.ident_eq.2) hm hv
  have hfields : data.declared (genDeserializeArm variant).variant=declared.fields := by
    rw [← declared_fields hm,← hp.ident_eq.1]
    rfl
  cases hp with
  | cast hall =>
    obtain rfl : wire=.cast declared.ident args none:=(Except.ok.inj hfin).symm
    simp only [deserialize,expandClusterMessage,hfind (fun variant => variant.kind.isCast) rfl,
      hfields,Wire.scope]
  | call hall =>
    simp only [finish,genSerializeArm,bind,Except.bind] at hfin
    split at hfin
    · cases hfin
    · split at hfin
      · cases hfin
        simp only [deserialize,expandClusterMessage,hfind (fun variant => !variant.kind.isCast) rfl,
          hfields,Wire.scope]
      · cases hfin

end Variants

/-- A value is serialized, and deserialized to itself. -/
theorem deserialize_serialize (hygienic : Hygienic data parsed) (hr : ∀ty : Ty,RoundTrips ty)
    {message : Message Ty Reply}
    (hty : message.WellTyped data) (hf : message.packed.length ≤ isizeMax) :
    ∃wire,(expandClusterMessage parsed).serialize data message=.ok wire ∧
      (expandClusterMessage parsed).deserialize data wire=.ok message := by
  obtain ⟨declared,hm,hi,ht⟩:=hty
  obtain ⟨variant,hv⟩:=exists_parsed hparse hm
  have hv':=Hygienic.variant hparse hygienic hm hv
  obtain ⟨ident,fields⟩:=message
  obtain rfl : declared.ident=ident:=hi
  obtain ⟨wire,hser,hdes⟩:=(parseVariant_parses hv).round_trip hr ht hf (hygienic.1 declared hm) hv'
  exact ⟨wire,(serialize_eq hparse hm hv _).trans hser,
    (deserialize_serialized hparse hm hv hser).trans hdes⟩

end Codec

/-! ### Clashes -/

omit [Target] in
theorem forall₂_and_mem {α β : Type} {R S : α→β→Prop} {as : List α} {bs : List β}
    (h : List.Forall₂ R as bs) (h' : List.Forall₂ S as bs) {a : α} (hm : a∈as) :
    ∃b,R a b ∧ S a b := by
  induction h with
  | nil => cases hm
  | cons hr _ ih =>
    cases h' with
    | cons hs h' =>
      rcases mem_cons.mp hm with rfl | hm
      · exact ⟨_,hr,hs⟩
      · exact ih h' hm

/-- A reply port that comes back is hidden by no field. -/
theorem finish_call_notMem {before behind : List (Ident × Ty)} {port : Ident}
    (ht : List.Forall₂ HasType (declared.fields.all.1.map Prod.snd) values)
    (hall : declared.fields.all =
      (plainFields before++(port,.replyPort (some ty))::plainFields behind,.named))
    {decoded : List (Value Ty Reply)}
    (hd : decodeAll ((before++behind).map Prod.snd) args=some (decoded,[]))
    {base : Scope Ty Reply} {reply : Port Reply (List UInt8)}
    (hba : base.lookup "__reply"=some (.bytesPort reply))
    (h : (genDeserializeArm ⟨declared.ident,declared.ident,.call ty port before.length,.named,
      before++behind⟩).finish declared.fields
        ((((before++behind).map Prod.fst).zip decoded).reverse++base)=.ok ⟨declared.ident,values⟩) :
    "__reply"∉(before++behind).map Prod.fst ∧ "__target_port"∉(before++behind).map Prod.fst := by
  have hlen : ((before++behind).map Prod.fst).length=decoded.length := by
    rw [(length_decodeAll hd).1,length_map,length_map]
  have hno:=declared.fields.nodup_names
  rw [Fields.names_call hall,perm_middle.nodup_iff,← map_append] at hno
  have hb:=Binds.zip_reverse (nodup_cons.mp hno).2 hlen base
  have hre : "__reply"∉(before++behind).map Prod.fst := by
    intro hm
    obtain ⟨value,hvm,hlo⟩:=hb.exists_mem hm
    obtain ⟨_,_,rfl⟩:=decodeAll_data hd hvm
    simp only [DeserializeArm.finish,genDeserializeArm,Expr.eval,hlo,bind,Except.bind] at h
    cases h
  refine ⟨hre,fun hm => ?_⟩
  have hlo:=(Binds.lookup_zip_reverse hlen hre base).trans hba
  obtain ⟨field,hmf,hname⟩:=mem_map.mp hm
  simp only [DeserializeArm.finish,genDeserializeArm,Expr.eval,hlo,bind,Except.bind] at h
  split at h
  · cases h
  next built hbu =>
    -- the variable of the field is the one of the port
    obtain rfl : built=values:=congrArg Message.fields (Except.ok.inj h)
    rw [Shape.build,mapM_eq_ok_iff,Fields.names,forall₂_map_left_iff] at hbu
    rw [forall₂_map_left_iff] at ht
    have hmem : (field.1,SynType.plain field.2)∈declared.fields.all.1 := by
      rw [hall]
      exact mem_callFields hmf _
    obtain ⟨value,hty,hbv⟩:=forall₂_and_mem ht hbu hmem
    cases hty
    rw [ownNames_lookup (mem_map_of_mem hmf) _,hname] at hbv
    simp only [Scope.get,lookup_cons,beq_self_eq_true] at hbv
    cases hbv

section Clashes
variable (hr : ∀ty : Ty,RoundTrips ty)
  (hseen : ∀(ty : Ty) bytes (value : Carrier ty) seen,WireTypes.fromBytes ty bytes =
    some value → WireTypes.asBytes value=some seen→seen.length≤bytes.length)
  (ht : List.Forall₂ HasType (declared.fields.all.1.map Prod.snd) values)
  (hf : (values.flatMap Value.packed).length ≤ isizeMax) {style : FieldStyle} {wire : Wire Reply}
  {before behind : List (Ident × Ty)} {port : Ident}
include hr hseen ht hf

/-- A cast whose value comes back has no clashing name. -/
theorem cast_hygienic (hall : declared.fields.all=(plainFields fields,style))
    (hser : (genSerializeArm ⟨declared.ident,declared.ident,.cast,style,fields⟩).run declared.fields
      values=.ok wire)
    (hdes : (genDeserializeArm ⟨declared.ident,declared.ident,.cast,style,fields⟩).run
      declared.fields wire.scope=.ok ⟨declared.ident,values⟩) :
    declared.fields≠.unnamed [] ∧
      ParsedVariant.Hygienic ⟨declared.ident,declared.ident,.cast,style,fields⟩ := by
  have hu : declared.fields≠.unnamed [] := by
    intro he
    rw [he] at hall hser
    obtain ⟨hnil,rfl⟩:=Prod.mk.inj hall
    obtain rfl : fields=[]:=map_eq_nil_iff.mp hnil.symm
    cases hser
  obtain ⟨scope,payloads,hs,hp,hfi,-⟩:=cast_packs hr ht hf hu hall
  rw [SerializeArm.run_eq _ rfl hs hp hfi] at hser
  split at hser
  · cases hser
  next hn =>
    cases hser
    obtain ⟨hna,hnp⟩:=DeserializeArm.notMem_of_run hseen rfl rfl hdes
    have hnames : ∀x∈["__data","__ptr","__args"],x∉fields.map Prod.fst := by
      simp only [forall_mem_cons]
      exact ⟨hn,hnp,hna,forall_mem_nil _⟩
    exact ⟨hu,fun field hm hx => hnames _ hx (mem_map_of_mem hm)⟩

/-- A call whose value comes back has no clashing name. -/
theorem call_hygienic (hall : declared.fields.all =
      (plainFields before++(port,.replyPort (some ty))::plainFields behind,.named))
    (hser : (genSerializeArm ⟨declared.ident,declared.ident,.call ty port before.length,.named,
      before++behind⟩).run declared.fields values=.ok wire)
    (hdes : (genDeserializeArm ⟨declared.ident,declared.ident,.call ty port before.length,.named,
      before++behind⟩).run declared.fields wire.scope=.ok ⟨declared.ident,values⟩) :
    ParsedVariant.Hygienic
      ⟨declared.ident,declared.ident,.call ty port before.length,.named,before++behind⟩ := by
  have hu : declared.fields≠.unnamed []:=fun he => by
    rw [he] at hall
    cases congrArg Prod.snd hall
  have hl : port∉portLocals:=fun hp => by
    obtain ⟨args,scope,hfin⟩:=run_finish hser
    simp [finish,genSerializeArm,hp,bind,Except.bind] at hfin
  obtain ⟨scope,payloads,valuesBefore,typed,valuesBehind,hs,hpo,hpa,hfi,-,-,hd⟩ :=
    call_packs hr ht hf hu hall
  rw [SerializeArm.run_eq _ rfl hs hpa hfi] at hser
  split at hser
  · cases hser
  next hn =>
    have hpd : before++behind≠[]→port≠"__data" := by
      rintro hne rfl
      rw [if_neg hne] at hser
      simp [finish,genSerializeArm,bind,Except.bind,portLocals] at hser
    rw [serialize_call_finish _ _ _ hl hpd hpo] at hser
    cases hser
    obtain ⟨hna,hnp⟩:=DeserializeArm.notMem_of_run hseen rfl rfl hdes
    obtain ⟨base,hba,heq⟩:=DeserializeArm.run_eq (genDeserializeArm ⟨declared.ident,
      declared.ident,.call ty port before.length,.named,before++behind⟩) rfl hna hnp hfi
        declared.fields [("__args",.bytes (payloads.flatMap lengthPrefixed)),
          ("__reply",.bytesPort typed.binary)] rfl
    simp only [Wire.scope,heq,hd] at hdes
    obtain ⟨hre,hta⟩:=finish_call_notMem ht hall hd (hba "__reply" (by decide)) hdes
    have hnames : ∀x∈["__data","__ptr","__args","__reply","__target_port"],
        x∉(before++behind).map Prod.fst := by
      simp only [forall_mem_cons]
      exact ⟨hn,hnp,hna,hre,hta,forall_mem_nil _⟩
    exact ⟨hl,hpd,fun field hm hx => hnames _ hx (mem_map_of_mem hm)⟩

end Clashes

/-- The derived codec of an enum of types that round-trip: every value comes back from its message,
a message is accepted if and only if it is well formed, and any other message is an error and never a
panic, if and only if no variant is declared as `V()` and no named field has a name of the generated
code. -/
theorem derived_codec_bijective {data : EnumData Ty} {parsed : List (ParsedVariant Ty)}
    (hparse : parseClusterMessage (.enum data)=.ok parsed) (hround : ∀ty : Ty,RoundTrips ty)
    (hseen : ∀(ty : Ty) bytes (value : Carrier ty) seen,WireTypes.fromBytes ty bytes =
      some value → WireTypes.asBytes value=some seen → seen.length≤bytes.length)
    (hvalues : ∀declared∈data.variants,∃values : List (Value Ty Reply),
      List.Forall₂ HasType (declared.fields.all.1.map Prod.snd) values ∧
        (values.flatMap Value.packed).length ≤ isizeMax) :
    ((∀message : Message Ty Reply,message.WellTyped data → message.packed.length ≤ isizeMax →
      ∃wire,(expandClusterMessage parsed).serialize data message=.ok wire ∧
        (expandClusterMessage parsed).deserialize data wire=.ok message) ∧
    ∀wire : Wire Reply,wire.bytes.length ≤ isizeMax →
      (WellFormedWire data wire → ∃message : Message Ty Reply,
        (expandClusterMessage parsed).deserialize data wire=.ok message) ∧
      (¬ WellFormedWire data wire →
        (expandClusterMessage parsed).deserialize data wire=.error .downcastErr)) ↔
      Hygienic data parsed := by
  constructor
  · rintro ⟨hback,-⟩
    have hvariant : ∀declared∈data.variants,∀variant,parseVariant declared=.ok variant →
        declared.fields≠.unnamed [] ∧ (variant.fieldStyle=.named→variant.Hygienic) := by
      intro declared hm variant hv
      obtain ⟨values,htypes,hfits⟩:=hvalues declared hm
      obtain ⟨wire,hser,hdes⟩:=hback ⟨declared.ident,values⟩ ⟨declared,hm,rfl,htypes⟩ hfits
      rw [serialize_eq hparse hm hv] at hser
      have hp:=parseVariant_parses hv
      rw [deserialize_serialized hparse hm hv hser] at hdes
      cases hp with
      | cast hall =>
        have hclean:=cast_hygienic hround hseen htypes hfits hall hser hdes
        exact ⟨hclean.1,fun _ => hclean.2⟩
      | call hall =>
        refine ⟨fun he => ?_,?_⟩
        · rw [he] at hall
          simp [Fields.all] at hall
        · rintro rfl
          exact call_hygienic hround hseen htypes hfits hall hser hdes
    refine ⟨fun declared hm => ?_,fun variant hm => ?_⟩
    · obtain ⟨variant,hv⟩:=exists_parsed hparse hm
      exact (hvariant declared hm variant hv).1
    · obtain ⟨declared,hm,hv⟩:=(mem_parsed hparse).mp hm
      exact (hvariant declared hm variant hv).2
  · intro hygienic
    refine ⟨fun message htyped hfits => ?_,fun wire hfits => ?_⟩
    · exact deserialize_serialize hparse hygienic hround htyped hfits
    · exact deserialize_spec hparse hygienic wire hfits

end Theorems

@[reducible] def byteVectors : WireTypes Unit where
  Carrier _:=List UInt8
  intoBytes bytes:=some bytes
  fromBytes _ bytes:=some bytes
  asBytes bytes:=some bytes

/-- An enum with a variant `Write` that has one named field, and a call
`Ask(Vec<u8>, RpcReplyPort<Vec<u8>>, Vec<u8>)`. -/
def fileEnum (name : Ident) : EnumData Unit where
  variants:=[⟨"Write",[],.named [(name,.plain ())] (nodup_singleton name)⟩,
    ⟨"Ask",[.path],.unnamed [.plain (),.replyPort (some ()),.plain ()]⟩]
  distinct := by simp

def fileVariants (name : Ident) : List (ParsedVariant Unit):=[
  ⟨"Write","Write",.cast,.named,[(name,())]⟩,
  ⟨"Ask","Ask",.call () "field1" 1,.tuple,[("field0",()),("field2",())]⟩]

theorem derived_codec_bijective_ask :
    letI:=Target.wide
    letI:=byteVectors
    parseClusterMessage (.enum (fileEnum "text"))=.ok (fileVariants "text") ∧
    Hygienic (fileEnum "text") (fileVariants "text") ∧
    ∀port : Port ℕ (List UInt8),∃wire,
      (expandClusterMessage (fileVariants "text")).serialize (fileEnum "text")
        ⟨"Ask",[@Value.data _ _ _ () [7],@Value.port _ _ _ () port,@Value.data _ _ _ () [8,9]]⟩ =
          .ok wire ∧
      (expandClusterMessage (fileVariants "text")).deserialize (fileEnum "text") wire =
        .ok ⟨"Ask",[@Value.data _ _ _ () [7],@Value.port _ _ _ () port,
          @Value.data _ _ _ () [8,9]]⟩ := by
  let _ := Target.wide
  let _ := byteVectors
  have hygienic : Hygienic (fileEnum "text") (fileVariants "text") := by
    simp [Hygienic,fileEnum,fileVariants,ParsedVariant.Hygienic]
  have hask (first last : List UInt8) (port : Port ℕ (List UInt8)) :
      List.Forall₂ HasType [.plain (),.replyPort (some ()),.plain ()]
        [@Value.data _ _ _ () first,@Value.port _ _ _ () port,@Value.data _ _ _ () last] :=
    .cons (.data _) (.cons (.port _) (.cons (.data _) .nil))
  refine ⟨rfl,hygienic,fun port => ((derived_codec_bijective rfl ?_ ?_ ?_).mpr hygienic).1 _ ?_ ?_⟩
  · exact fun _ value => ⟨value,rfl,rfl⟩
  · rintro _ bytes _ _ ⟨⟩ ⟨⟩
    exact Nat.le_refl _
  · intro declared hm
    rcases mem_cons.mp hm with rfl | hm
    · exact ⟨[@Value.data _ _ _ () []],.cons (.data _) .nil,Nat.le_of_ble_eq_true rfl⟩
    · obtain rfl:=mem_singleton.mp hm
      exact ⟨_,hask [] [] port,Nat.le_of_ble_eq_true rfl⟩
  · exact ⟨_,List.mem_cons_of_mem _ List.mem_cons_self,rfl,hask [7] [8,9] port⟩
  · exact Nat.le_of_ble_eq_true rfl

set_option maxRecDepth 2000 in
/-- A field `__args` hides the arguments: what its variant is serialized to is well formed and is not
accepted. -/
theorem derived_codec_hides_args :
    letI:=Target.wide
    letI:=byteVectors
    parseClusterMessage (.enum (fileEnum "__args"))=.ok (fileVariants "__args") ∧
    (∀ty : Unit,RoundTrips ty) ∧
    ∃(message : Message Unit ℕ) (wire : Wire ℕ),message.WellTyped (fileEnum "__args") ∧
      (expandClusterMessage (fileVariants "__args")).serialize (fileEnum "__args") message =
        .ok wire ∧
      WellFormedWire (fileEnum "__args") wire ∧
      (expandClusterMessage (fileVariants "__args")).deserialize (fileEnum "__args") wire =
        .error .downcastErr := by
  let _ := Target.wide
  let _ := byteVectors
  refine ⟨rfl,fun _ value => ⟨value,rfl,rfl⟩,⟨"Write",[@Value.data _ _ _ () [7]]⟩,
    .cast "Write" (lengthPrefixed [7]) none,?_,rfl,?_,rfl⟩
  · exact ⟨_,List.mem_cons_self,rfl,.cons (.data _) .nil⟩
  · exact ⟨_,List.mem_cons_self,rfl,rfl,[[7]],rfl,.cons rfl .nil⟩

end Ractor.Derive
