import Mathlib.Data.List.Nodup
import Mathlib.Data.Nat.Notation

/-!
# Parsing the input of the message derive

`parse_cluster_message` and the types it goes from and to: an enum as the compiler hands it to the
`RactorClusterMessage` derive, and the variants with their reply port taken out of the field list.
A type is known by the data type it stands for, or as a path that ends in `RpcReplyPort`. Errors are
their texts; spans, generics and the name of the enum are left out.
-/

namespace Ractor.Derive
open List

abbrev Ident:=String

/-! ### Input -/

inductive SynType (Ty : Type) where
  | plain (ty : Ty)
  /-- The generic arguments, if there are any in angle brackets. -/
  | replyPort (genericArgs : Option Ty)
  deriving DecidableEq, Repr

inductive Fields (Ty : Type) where
  | unit
  | unnamed (types : List (SynType Ty))
  | named (fields : List (Ident × SynType Ty)) (distinct : (fields.map Prod.fst).Nodup)

/-- The form of an attribute: `#[rpc]`, `#[rpc(..)]` or `#[rpc = ..]`. -/
inductive Meta where
  | path
  | list
  | nameValue
  deriving DecidableEq, Repr

structure Variant (Ty : Type) where
  ident : Ident
  rpcAttrs : List Meta
  fields : Fields Ty

/-- An enum. The compiler only accepts distinct variant names, as it does distinct field names. -/
structure EnumData (Ty : Type) where
  variants : List (Variant Ty)
  distinct : (variants.map Variant.ident).Nodup

inductive DeriveInput (Ty : Type) where
  | enum (data : EnumData Ty)
  | structOrUnion

/-! ### Intermediate representation -/

inductive FieldStyle where
  | tuple
  | named
  deriving DecidableEq, Repr

inductive VariantKind (Ty : Type) where
  | cast
  | call (replyPortGenericArgs : Ty) (replyPortFieldName : Ident) (replyPortIndex : ℕ)

structure ParsedVariant (Ty : Type) where
  ident : Ident
  variantTag : String
  kind : VariantKind Ty
  fieldStyle : FieldStyle
  dataFields : List (Ident × Ty)

/-! ### Parsing -/

variable {Ty : Type} (variant : Variant Ty)

def checkRpcAttribute : Except String Bool :=
  match variant.rpcAttrs with
  | [] => .ok false
  | [.path] => .ok true
  | [.list] => .error "`#[rpc]` attribute does not accept arguments"
  | [.nameValue] => .error "`#[rpc]` attribute does not accept a value"
  | _::_::_ => .error "Duplicate `#[rpc]` attribute on variant"

def SynType.isReplyPort : SynType Ty → Bool
  | .plain _ => false
  | .replyPort _ => true

def fieldIdent (i : ℕ) : Ident := "field"++toString i

/-- The fields of a variant with their names, and how they are written. -/
def Fields.all : Fields Ty → List (Ident × SynType Ty) × FieldStyle
  | .unit => ([],.tuple)
  | .unnamed types => (types.mapIdx fun i ty => (fieldIdent i,ty),.tuple)
  | .named fields _ => (fields,.named)

def SynType.dataType? : SynType Ty → Option Ty
  | .plain ty => some ty
  | .replyPort _ => none

variable (fields : List (Ident × SynType Ty))

def dataFieldsOf : List (Ident × Ty) :=
  fields.filterMap fun field => field.2.dataType?.map fun ty => (field.1,ty)

def parseCastVariant : Except String (ParsedVariant Ty) :=
  let (fields,fieldStyle) := variant.fields.all
  if fields.any fun field => field.2.isReplyPort then
    .error ("Variant contains an `RpcReplyPort` field but is not marked with `#[rpc]`.\n\n" ++
      "Add the `#[rpc]` attribute to this variant:\n  #[rpc]\n  " ++
      "YourVariant(..., RpcReplyPort<ReturnType>),")
  else
    .ok {
      ident:=variant.ident,variantTag:=variant.ident,kind:=.cast,fieldStyle
      dataFields:=dataFieldsOf fields}

def portMatches : List ℕ :=
  (fields.zipIdx.filter fun field => field.1.2.isReplyPort).map Prod.snd

def extractReplyPortArgs : SynType Ty → Except String Ty
  | .replyPort (some genericArgs) => .ok genericArgs
  | _ => .error ("RpcReplyPort must have generic type arguments.\n\n" ++
      "Expected: RpcReplyPort<YourReturnType>\n\n" ++
      "The generic argument specifies what type will be returned by the RPC call.")

def parseRpcVariant : Except String (ParsedVariant Ty) :=
  match variant.fields with
  | .unit => .error ("RPC calls must have at least one field: an `RpcReplyPort<T>`.\n\n" ++
      "Example:\n  #[rpc]\n  YourRpc(RpcReplyPort<YourReturnType>),")
  | fields =>
    let (allFields,fieldStyle) := fields.all
    match portMatches allFields with
    | [] => .error ("`#[rpc]` variant must contain exactly one `RpcReplyPort<T>` field.\n\n" ++
        "Example:\n  #[rpc]\n  YourRpc(YourArgs, RpcReplyPort<YourReturnType>),")
    | [portIndex] =>
      match allFields[portIndex]? with
      | none => .error "unreachable"
      | some (replyPortFieldName,ty) =>
        match extractReplyPortArgs ty with
        | .error e => .error e
        | .ok portGenericArgs =>
          .ok {
            ident:=variant.ident,variantTag:=variant.ident
            kind:=.call portGenericArgs replyPortFieldName portIndex,fieldStyle
            dataFields:=dataFieldsOf
              ((allFields.zipIdx.filter fun field => field.2≠portIndex).map Prod.fst)}
    | _::_::_ => .error ("`#[rpc]` variant must contain exactly one `RpcReplyPort<T>` field, " ++
        "but found multiple")

def parseVariant : Except String (ParsedVariant Ty) :=
  match checkRpcAttribute variant with
  | .error e => .error e
  | .ok true => parseRpcVariant variant
  | .ok false => parseCastVariant variant

def parseClusterMessage : DeriveInput Ty → Except String (List (ParsedVariant Ty))
  | .enum data => data.variants.mapM parseVariant
  | .structOrUnion =>
    .error "RactorClusterMessage can only be derived for enums, not structs or unions"

/-! ### What is accepted -/

variable (fields : List (Ident × Ty))

def plainFields : List (Ident × SynType Ty) :=
  fields.map fun field => (field.1,.plain field.2)

/-- A variant is accepted as a cast if it has no reply port, and as a call if it has one. The data
fields of a call are the ones before and behind the port. -/
inductive ParsesTo (variant : Variant Ty) : ParsedVariant Ty→Prop where
  | cast {fields : List (Ident × Ty)} {fieldStyle : FieldStyle}
      (h : variant.fields.all=(plainFields fields,fieldStyle)) :
      ParsesTo variant ⟨variant.ident,variant.ident,.cast,fieldStyle,fields⟩
  | call {before behind : List (Ident × Ty)} {port : Ident} {ty : Ty} {fieldStyle : FieldStyle}
      (h : variant.fields.all =
        (plainFields before++(port,.replyPort (some ty))::plainFields behind,fieldStyle)) :
      ParsesTo variant
        ⟨variant.ident,variant.ident,.call ty port before.length,fieldStyle,before++behind⟩

@[simp] theorem dataFieldsOf_plainFields : dataFieldsOf (plainFields fields)=fields := by
  induction fields with
  | nil => rfl
  | cons field fields ih =>
    simp only [plainFields,dataFieldsOf,map_cons,SynType.dataType?] at ih ⊢
    simp [ih]

@[simp] theorem map_fst_plainFields : (plainFields fields).map Prod.fst=fields.map Prod.fst := by
  rw [plainFields,map_map]
  rfl

theorem dataFieldsOf_append (fields fields' : List (Ident × SynType Ty)) :
    dataFieldsOf (fields++fields')=dataFieldsOf fields++dataFieldsOf fields' :=
  filterMap_append

theorem eq_plainFields {fields : List (Ident × SynType Ty)}
    (h : ∀field∈fields,field.2.isReplyPort=false) :
    fields=plainFields (dataFieldsOf fields) := by
  induction fields with
  | nil => rfl
  | cons field fields ih =>
    obtain ⟨name,ty | args⟩:=field
    · have hr:=ih fun field hm => h field (mem_cons_of_mem _ hm)
      simp only [plainFields,dataFieldsOf,SynType.dataType?] at hr ⊢
      simp [← hr]
    · simpa [SynType.isReplyPort] using h _ mem_cons_self

theorem zipIdx_portMatches {fields : List (Ident × SynType Ty)} {first k : ℕ}
    (h : ((fields.zipIdx first).filter fun field => field.1.2.isReplyPort).map Prod.snd=[k]) :
    ∃before field behind,fields=before++field::behind ∧ k=first+before.length ∧
      field.2.isReplyPort=true ∧ ∀other∈before++behind,other.2.isReplyPort=false := by
  induction fields generalizing first with
  | nil => cases h
  | cons field fields ih =>
    rw [zipIdx_cons] at h
    cases hp : field.2.isReplyPort with
    | true =>
      rw [filter_cons,if_pos hp,map_cons] at h
      obtain ⟨rfl,hn⟩:=cons.inj h
      rw [map_eq_nil_iff,filter_eq_nil_iff] at hn
      refine ⟨[],field,fields,rfl,rfl,hp,fun other hm => ?_⟩
      rw [nil_append,← zipIdx_map_fst (first+1) fields] at hm
      obtain ⟨indexed,hi,rfl⟩:=mem_map.mp hm
      simpa using hn indexed hi
    | false =>
      rw [filter_cons,if_neg (by simp [hp])] at h
      obtain ⟨before,port,behind,rfl,rfl,his,ho⟩:=ih h
      refine ⟨field::before,port,behind,rfl,by simp; omega,his,?_⟩
      rintro other (_ | ⟨_,hm⟩)
      · exact hp
      · exact ho other hm

theorem zipIdx_filter_ne (first k : ℕ) :
    ((fields.zipIdx first).filter fun field => field.2≠first+k).map Prod.fst =
      fields.eraseIdx k := by
  induction fields generalizing first k with
  | nil => simp
  | cons field fields ih =>
    rw [zipIdx_cons]
    cases k with
    | zero =>
      have hk : (fields.zipIdx (first+1)).filter (fun field => field.2≠first+0) =
          fields.zipIdx (first+1) := by
        refine filter_eq_self.mpr fun indexed hm => ?_
        have hle:=le_snd_of_mem_zipIdx hm
        simp only [decide_eq_true_eq]
        omega
      rw [filter_cons,if_neg (by simp),hk,zipIdx_map_fst,eraseIdx_cons_zero]
    | succ k =>
      rw [filter_cons,if_pos (by simp),map_cons,eraseIdx_cons_succ]
      have hn:=ih (first+1) k
      rw [Nat.add_right_comm,Nat.add_assoc] at hn
      rw [hn]

variable {variant} {parsed : ParsedVariant Ty}

theorem parseCastVariant_parses (h : parseCastVariant variant=.ok parsed) :
    ParsesTo variant parsed := by
  unfold parseCastVariant at h
  dsimp only at h
  split at h
  · cases h
  next hn =>
    cases h
    refine .cast (Prod.ext (eq_plainFields fun field hm => ?_) rfl)
    simp only [any_eq_true,not_exists,not_and,Bool.not_eq_true] at hn
    exact hn field hm

theorem extractReplyPortArgs_ok {ty : SynType Ty} {args : Ty} (h : extractReplyPortArgs ty=.ok args) :
    ty=.replyPort (some args) := by
  unfold extractReplyPortArgs at h
  split at h
  · cases h
    rfl
  · cases h

theorem parseRpcVariant_parses (h : parseRpcVariant variant=.ok parsed) :
    ParsesTo variant parsed := by
  unfold parseRpcVariant at h
  split at h
  · cases h
  dsimp only at h
  split at h
  · cases h
  next portIndex hma =>
    obtain ⟨before,field,behind,hall,hi,-,ho⟩:=zipIdx_portMatches hma
    rw [Nat.zero_add] at hi
    have he:=zipIdx_filter_ne variant.fields.all.1 0 portIndex
    rw [Nat.zero_add] at he
    rw [he] at h
    rw [hall,hi,getElem?_append_right (Nat.le_refl _),Nat.sub_self,
      eraseIdx_append_of_length_le (Nat.le_refl _),Nat.sub_self] at h
    split at h
    · cases h
    next name ty hp =>
      split at h
      · cases h
      next args ha =>
        cases h
        obtain rfl:=extractReplyPortArgs_ok ha
        obtain ⟨fieldsBefore,rfl⟩ : ∃fields,before=plainFields fields :=
          ⟨_,eq_plainFields fun other hm => ho other (mem_append_left _ hm)⟩
        obtain ⟨fieldsBehind,rfl⟩ : ∃fields,behind=plainFields fields :=
          ⟨_,eq_plainFields fun other hm => ho other (mem_append_right _ hm)⟩
        obtain rfl : field=(name,.replyPort (some args)) := by simpa using hp
        have hl : (plainFields fieldsBefore).length=fieldsBefore.length:=length_map _
        rw [hl,eraseIdx_cons_zero,dataFieldsOf_append,dataFieldsOf_plainFields,
          dataFieldsOf_plainFields]
        exact .call (Prod.ext hall rfl)
  · cases h

theorem parseVariant_parses (h : parseVariant variant=.ok parsed) : ParsesTo variant parsed := by
  unfold parseVariant at h
  split at h
  · cases h
  · exact parseRpcVariant_parses h
  · exact parseCastVariant_parses h

end Ractor.Derive
