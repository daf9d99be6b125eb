import Ractor.DeriveParsing
import Ractor.MessageDecoding
import Ractor.WireBytes

/-!
# The code that the message derive generates

The generators of `codegen.rs` as functions into a small language: statements whose operands are
identifiers, and blocks. Identifiers are resolved by lexical scoping, the generator's own ones as
well as the field names of the enum, since all of them come from the call site.

The interpreter halts with a `BoxedDowncastErr` where the code returns one through `?`, with a panic
where the code panics, and is stuck where the code would not compile.
-/

namespace Ractor.Derive

/-! ### Generated code -/

/-- What stands on the right of a `let`. The `?` behind an expression that may fail belongs to it. -/
inductive Expr (Ty : Type) where
  /-- `vec![]` -/
  | emptyVec
  /-- `0usize` -/
  | zero
  /-- `[0u8; 8]` -/
  | zeroBytes
  /-- `<ty as BytesConvertable>::into_bytes(x)` -/
  | intoBytes (ty : Ty) (x : Ident)
  /-- `u64::try_from(x.len()).map_err(..)?.to_be_bytes()` -/
  | lenBytes (x : Ident)
  /-- `size_of::<u64>().checked_add(x.len()).ok_or(..)?` -/
  | sizePlusLen (x : Ident)
  /-- `x.checked_add(size_of::<u64>()).ok_or(..)?` -/
  | plusSize (x : Ident)
  /-- `x.checked_add(y).ok_or(..)?` -/
  | checkedAdd (x y : Ident)
  /-- `x.get(lo..hi).ok_or(..)?`, borrowed or copied by `to_vec` -/
  | get (x lo hi : Ident)
  /-- `usize::try_from(u64::from_be_bytes(x)).map_err(..)?` -/
  | usizeOfBytes (x : Ident)
  /-- `catch_unwind(|| <ty as BytesConvertable>::from_bytes(x)).map_err(..)?` -/
  | fromBytes (ty : Ty) (x : Ident)
  /-- The block of `gen_serialize_port` -/
  | serializePort (port : Ident) (ty : Ty)
  /-- The block of `gen_deserialize_port` -/
  | deserializePort (port : Ident) (ty : Ty)

inductive Stmt (Ty : Type) where
  /-- `let x = e;` -/
  | bind (x : Ident) (e : Expr Ty)
  /-- `x = y;` -/
  | assign (x y : Ident)
  /-- `x.copy_from_slice(y);` -/
  | copyFromSlice (x y : Ident)
  /-- `x.try_reserve(y).map_err(..)?;` -/
  | tryReserve (x y : Ident)
  /-- `x.extend(y);` -/
  | extend (x y : Ident)

inductive Block (Ty : Type) where
  | plain (body : List (Stmt Ty))
  | bind (x : Ident) (body : List (Stmt Ty)) (result : Ident)

/-- The fields of a variant in a pattern or a constructor expression: none behind the bare path
`Self::V`, variables in the order of the fields, or each field with its variable. -/
inductive Shape where
  | path
  | tuple (names : List Ident)
  | named (names : List (Ident × Ident))

/-- An arm of `serialize`. Without data fields the arguments are `vec![]`, and otherwise `__data`. -/
structure SerializeArm (Ty : Type) where
  variant : Ident
  pattern : Shape
  variantTag : String
  packed : List (Block Ty)
  port : Option (Expr Ty)

/-- An arm of `deserialize`. Without data fields `__args` has to be empty. -/
structure DeserializeArm (Ty : Type) where
  variantTag : String
  unpacked : List (Block Ty)
  port : Option (Expr Ty)
  variant : Ident
  construct : Shape

/-! ### The generators -/

section Generators
variable {Ty : Type}

/-- The loop of `build_ordered_bindings`, with `count` rounds left at position `i`. -/
def orderedBindings (port : Ident) (portIndex : ℕ) : ℕ → ℕ → List Ident → List Ident
  | 0,_,_ => []
  | count+1,i,dataFields =>
    if i=portIndex then port::orderedBindings port portIndex count (i+1) dataFields
    else
      match dataFields with
      | [] => []
      | field::rest => field::orderedBindings port portIndex count (i+1) rest

def buildOrderedBindings (dataFields : List (Ident × Ty)) (port : Ident) (portIndex : ℕ) :
    List Ident :=
  orderedBindings port portIndex (dataFields.length+1) 0 (dataFields.map Prod.fst)

def packArgs (field : Ident × Ty) : Block Ty :=
  .plain [.bind "__arg_data" (.intoBytes field.2 field.1),
    .bind "__arg_len" (.lenBytes "__arg_data"),
    .bind "__additional" (.sizePlusLen "__arg_data"),
    .tryReserve "__data" "__additional",
    .extend "__data" "__arg_len",
    .extend "__data" "__arg_data"]

def unpackArg (field : Ident × Ty) : Block Ty :=
  .bind field.1 [.bind "__len_end" (.plusSize "__ptr"),.bind "__len_bytes" .zeroBytes,
    .bind "__encoded_len" (.get "__args" "__ptr" "__len_end"),
    .copyFromSlice "__len_bytes" "__encoded_len",
    .bind "__len" (.usizeOfBytes "__len_bytes"),
    .bind "__data_end" (.checkedAdd "__len_end" "__len"),
    .bind "__data_bytes" (.get "__args" "__len_end" "__data_end"),
    .bind "__t_result" (.fromBytes field.2 "__data_bytes"),
    .assign "__ptr" "__data_end"] "__t_result"

def ownNames (dataFields : List (Ident × Ty)) : List (Ident × Ident) :=
  dataFields.map fun field => (field.1,field.1)

/-- The fields of a cast, which are matched as they are built. -/
def castShape (style : FieldStyle) (dataFields : List (Ident × Ty)) : Shape :=
  match style with
  | .tuple => if dataFields.isEmpty then .path else .tuple (dataFields.map Prod.fst)
  | .named => .named (ownNames dataFields)

def genSerializeArm (variant : ParsedVariant Ty) : SerializeArm Ty where
  variant:=variant.ident
  variantTag:=variant.variantTag
  packed:=variant.dataFields.map packArgs
  pattern :=
    match variant.kind,variant.fieldStyle with
    | .cast,style => castShape style variant.dataFields
    | .call _ port portIndex,.tuple =>
      .tuple (buildOrderedBindings variant.dataFields port portIndex)
    | .call _ port _,.named => .named (ownNames variant.dataFields++[(port,port)])
  port :=
    match variant.kind with
    | .cast => none
    | .call genericArgs port _ => some (.serializePort port genericArgs)

/-- `gen_cast_deserialize_arm` and `gen_call_deserialize_arm`. -/
def genDeserializeArm (variant : ParsedVariant Ty) : DeserializeArm Ty where
  variantTag:=variant.variantTag
  unpacked:=variant.dataFields.map unpackArg
  variant:=variant.ident
  port :=
    match variant.kind with
    | .cast => none
    | .call genericArgs _ _ => some (.deserializePort "__reply" genericArgs)
  construct :=
    match variant.kind,variant.fieldStyle with
    | .cast,style => castShape style variant.dataFields
    | .call _ _ portIndex,.tuple =>
      .tuple (buildOrderedBindings variant.dataFields "__target_port" portIndex)
    | .call _ port _,.named => .named (ownNames variant.dataFields++[(port,"__target_port")])

def VariantKind.isCast : VariantKind Ty → Bool
  | .cast => true
  | .call _ _ _ => false

structure ClusterMessage (Ty : Type) where
  serializedVariants : List (SerializeArm Ty)
  casts : List (DeserializeArm Ty)
  calls : List (DeserializeArm Ty)

def expandClusterMessage (parsed : List (ParsedVariant Ty)) : ClusterMessage Ty where
  serializedVariants:=parsed.map genSerializeArm
  casts:=(parsed.filter fun variant => variant.kind.isCast).map genDeserializeArm
  calls:=(parsed.filter fun variant => !variant.kind.isCast).map genDeserializeArm

end Generators

/-! ### Values -/

/-- A universe of types with their `BytesConvertable` conversions, which are `none` where they
panic. `asBytes` is what the methods of a `Vec<u8>` see of a value of that type. -/
class WireTypes (Ty : Type) where
  Carrier : Ty → Type
  intoBytes {ty : Ty} : Carrier ty → Option (List UInt8)
  fromBytes (ty : Ty) : List UInt8 → Option (Carrier ty)
  asBytes {ty : Ty} : Carrier ty → Option (List UInt8)

/-- A reply port, by what reaches the caller of a value that is sent on it. -/
structure Port (Reply α : Type) where
  timeout : Option ℕ
  send : α → Option Reply

open WireTypes (Carrier)

inductive Value (Ty Reply : Type) [WireTypes Ty] where
  | usize (n : ℕ)
  | bytes (bytes : List UInt8)
  | data {ty : Ty} (value : Carrier ty)
  | port {ty : Ty} (port : Port Reply (Carrier ty))
  | bytesPort (port : Port Reply (List UInt8))

structure Message (Ty Reply : Type) [WireTypes Ty] where
  variant : Ident
  fields : List (Value Ty Reply)

/-- The innermost variable comes first. -/
abbrev Scope (Ty Reply : Type) [WireTypes Ty]:=List (Ident × Value Ty Reply)

inductive Halt where
  | downcastErr
  | panic
  | stuck
  deriving DecidableEq, Repr

/-! ### Running generated code -/

section Semantics
variable {Ty Reply : Type} [WireTypes Ty]

@[simp] def Scope.set (scope : Scope Ty Reply) (x : Ident) (value : Value Ty Reply) : Scope Ty Reply :=
  match scope with
  | [] => []
  | (y,old)::rest => if y=x then (y,value)::rest else (y,old)::Scope.set rest x value

@[simp] def Scope.get (scope : Scope Ty Reply) (x : Ident) : Except Halt (Value Ty Reply) :=
  match scope.lookup x with
  | some value => .ok value
  | none => .error .stuck

@[simp] def Scope.usize (scope : Scope Ty Reply) (x : Ident) : Except Halt ℕ :=
  match scope.lookup x with
  | some (.usize n) => .ok n
  | _ => .error .stuck

@[simp] def Scope.bytes (scope : Scope Ty Reply) (x : Ident) : Except Halt (List UInt8) :=
  match scope.lookup x with
  | some (.bytes bytes) => .ok bytes
  | some (.data value) =>
    match WireTypes.asBytes value with
    | some bytes => .ok bytes
    | none => .error .stuck
  | _ => .error .stuck

/-- An `ok_or(BoxedDowncastErr)?`. -/
@[simp] def orDowncastErr {α : Type} : Option α → Except Halt α
  | some value => .ok value
  | none => .error .downcastErr

/-- The variables of the port blocks. A reply port of such a name is hidden where it is used. -/
def portLocals : List Ident:=["tx","rx","o_timeout","timeout","result","typed_result"]

variable [Target] [DecidableEq Ty]

def addUsize (a b : ℕ) : Option ℕ:=if a+b≤usizeMax then some (a+b) else none

/-- The slice between two positions, if they are in order and within bounds. -/
def getRange (bytes : List UInt8) (lo hi : ℕ) : Option (List UInt8) :=
  if lo≤hi ∧ hi≤bytes.length then some ((bytes.take hi).drop lo) else none

@[simp] def Expr.eval (scope : Scope Ty Reply) : Expr Ty → Except Halt (Value Ty Reply)
  | .emptyVec => .ok (.bytes [])
  | .zero => .ok (.usize 0)
  | .zeroBytes => .ok (.bytes (List.replicate 8 0))
  | .intoBytes ty x =>
    match scope.lookup x with
    | some (@Value.data _ _ _ ty' value) =>
      if ty'=ty then
        match WireTypes.intoBytes value with
        | some bytes => .ok (.bytes bytes)
        | none => .error .panic
      else .error .stuck
    | _ => .error .stuck
  | .lenBytes x => do
    let bytes ← scope.bytes x
    if bytes.length<2^64 then .ok (.bytes (beBytes 8 bytes.length)) else .error .downcastErr
  | .sizePlusLen x => do
    let bytes ← scope.bytes x
    let n ← orDowncastErr (addUsize 8 bytes.length)
    .ok (.usize n)
  | .plusSize x => do
    let n ← scope.usize x
    let n ← orDowncastErr (addUsize n 8)
    .ok (.usize n)
  | .checkedAdd x y => do
    let n ← scope.usize x
    let k ← scope.usize y
    let n ← orDowncastErr (addUsize n k)
    .ok (.usize n)
  | .get x lo hi => do
    let bytes ← scope.bytes x
    let lo ← scope.usize lo
    let hi ← scope.usize hi
    let slice ← orDowncastErr (getRange bytes lo hi)
    .ok (.bytes slice)
  | .usizeOfBytes x => do
    let bytes ← scope.bytes x
    if beValue bytes≤usizeMax then .ok (.usize (beValue bytes)) else .error .downcastErr
  | .fromBytes ty x => do
    let bytes ← scope.bytes x
    let value ← orDowncastErr (WireTypes.fromBytes ty bytes)
    .ok (.data value)
  | .serializePort port ty =>
    if port∈portLocals then .error .stuck
    else
      match scope.lookup port with
      | some (@Value.port _ _ _ ty' typed) =>
        if ty'=ty then
          .ok (.bytesPort ⟨typed.timeout,fun bytes =>
            (WireTypes.fromBytes ty' bytes).bind typed.send⟩)
        else .error .stuck
      | _ => .error .stuck
  | .deserializePort port ty =>
    match scope.lookup port with
    | some (.bytesPort binary) =>
      .ok (@Value.port _ _ _ ty ⟨binary.timeout,fun value =>
        (WireTypes.intoBytes value).bind binary.send⟩)
    | _ => .error .stuck

@[simp] def Stmt.run (scope : Scope Ty Reply) : Stmt Ty → Except Halt (Scope Ty Reply)
  | .bind x e => do
    let value ← e.eval scope
    .ok ((x,value)::scope)
  | .assign x y => do
    let _ ← scope.get x
    let value ← scope.get y
    .ok (scope.set x value)
  | .copyFromSlice x y => do
    let target ← scope.bytes x
    let source ← scope.bytes y
    if target.length=source.length then .ok (scope.set x (.bytes source)) else .error .panic
  | .tryReserve x y => do
    let bytes ← scope.bytes x
    let additional ← scope.usize y
    if bytes.length+additional ≤ isizeMax then .ok scope else .error .downcastErr
  | .extend x y => do
    let bytes ← scope.bytes x
    let more ← scope.bytes y
    .ok (scope.set x (.bytes (bytes++more)))

@[simp] def Block.run (scope : Scope Ty Reply) : Block Ty → Except Halt (Scope Ty Reply)
  | .plain body => do
    let inner ← body.foldlM Stmt.run scope
    .ok (inner.drop (inner.length - scope.length))
  | .bind x body result => do
    let inner ← body.foldlM Stmt.run scope
    let value ← inner.get result
    .ok ((x,value)::inner.drop (inner.length - scope.length))

def Fields.names (fields : Fields Ty) : List Ident:=fields.all.1.map Prod.fst

omit [Target] [DecidableEq Ty] in
/-- The variables that a pattern binds, given the declared fields. A path matches a variant that is
declared without brackets, and no `V()`. -/
def Shape.bindings (declared : Fields Ty) (fields : List (Value Ty Reply)) :
    Shape → Except Halt (Scope Ty Reply)
  | .path =>
    match declared with
    | .unit => .ok []
    | _ => .error .stuck
  | .tuple names =>
    if names.length=fields.length then .ok (names.zip fields) else .error .stuck
  | .named names => names.mapM fun name => do
    let value ← Scope.get (declared.names.zip fields) name.1
    .ok (name.2,value)

omit [Target] [DecidableEq Ty] in
/-- The fields that a constructor expression gives to a value, in the order of the declaration. -/
def Shape.build (declared : Fields Ty) (scope : Scope Ty Reply) :
    Shape → Except Halt (List (Value Ty Reply))
  | .path =>
    match declared with
    | .unit => .ok []
    | _ => .error .stuck
  | .tuple names => names.mapM scope.get
  | .named names => declared.names.mapM fun field =>
    match names.lookup field with
    | some x => scope.get x
    | none => .error .stuck

abbrev Wire (Reply : Type):=SerializedMessage (Port Reply (List UInt8))

/-- The end of an arm: the port is bridged, and the message is built around the arguments. -/
def SerializeArm.finish (arm : SerializeArm Ty) (args : List UInt8) (scope : Scope Ty Reply) :
    Except Halt (Wire Reply) :=
  match arm.port with
  | none => .ok (.cast arm.variantTag args none)
  | some port => do
    match ← port.eval scope with
    | .bytesPort reply => .ok (.call arm.variantTag args reply none)
    | _ => .error .stuck

/-- `serialize` on the fields of a value of the arm's variant. -/
def SerializeArm.run (arm : SerializeArm Ty) (declared : Fields Ty)
    (fields : List (Value Ty Reply)) : Except Halt (Wire Reply) := do
  let scope ← arm.pattern.bindings declared fields
  if arm.packed.isEmpty then arm.finish [] scope
  else do
    let scope ← arm.packed.foldlM Block.run (("__data",.bytes [])::scope)
    let args ← scope.bytes "__data"
    arm.finish args scope

/-- The arguments are used up: without data fields there are none. -/
def DeserializeArm.atEnd (arm : DeserializeArm Ty) (scope : Scope Ty Reply) : Except Halt Bool := do
  let args ← scope.bytes "__args"
  if arm.unpacked.isEmpty then .ok args.isEmpty
  else do
    let ptr ← scope.usize "__ptr"
    .ok (ptr == args.length)

/-- The end of an arm: the reply port is made, and the variant is built. -/
def DeserializeArm.finish (arm : DeserializeArm Ty) (declared : Fields Ty)
    (scope : Scope Ty Reply) : Except Halt (Message Ty Reply) := do
  let scope ← match arm.port with
    | none => .ok scope
    | some port => do
      let port ← port.eval scope
      .ok (("__target_port",port)::scope)
  let fields ← arm.construct.build declared scope
  .ok ⟨arm.variant,fields⟩

def DeserializeArm.run (arm : DeserializeArm Ty) (declared : Fields Ty) (scope : Scope Ty Reply) :
    Except Halt (Message Ty Reply) := do
  let start := if arm.unpacked.isEmpty then scope else ("__ptr",.usize 0)::scope
  let scope ← arm.unpacked.foldlM Block.run start
  if ← arm.atEnd scope then arm.finish declared scope else .error .downcastErr

def EnumData.declared (data : EnumData Ty) (variant : Ident) : Fields Ty :=
  match data.variants.find? fun declared => declared.ident=variant with
  | some declared => declared.fields
  | none => .unit

def ClusterMessage.serialize (code : ClusterMessage Ty) (data : EnumData Ty)
    (message : Message Ty Reply) : Except Halt (Wire Reply) :=
  match code.serializedVariants.find? fun arm => arm.variant=message.variant with
  | some arm => arm.run (data.declared message.variant) message.fields
  | none => .error .stuck

def ClusterMessage.deserialize (code : ClusterMessage Ty) (data : EnumData Ty) :
    Wire Reply → Except Halt (Message Ty Reply)
  | .cast variant args _ =>
    match code.casts.find? fun arm => arm.variantTag=variant with
    | some arm => arm.run (data.declared arm.variant) [("__args",.bytes args)]
    | none => .error .downcastErr
  | .call variant args reply _ =>
    match code.calls.find? fun arm => arm.variantTag=variant with
    | some arm => arm.run (data.declared arm.variant)
        [("__args",.bytes args),("__reply",.bytesPort reply)]
    | none => .error .downcastErr
  | .callReply _ _ => .error .downcastErr

end Semantics
end Ractor.Derive
