import ShaderIR.Lowering.Session

/-! Lowering of method bodies. Every variable of a body lives in memory: an instruction loads
its operands from variables and stores its result into one. -/

namespace ShaderIR.Lowering

open Binary (Op Id Inst)

variable {κ : Type}

structure Variable where
  type : LoweredType
  pointer : Id
deriving Inhabited

/-- What an instruction is lowered in: its method, the variables declared for the body, how
many of them are defined so far, and its position. -/
structure Scope where
  method : Method
  returnType : LoweredType
  declared : List Variable
  defined : Nat
  index : Nat

namespace Scope

def fault {α : Type} (s : Scope) (f : BodyFault) : Pass κ α :=
  Walk.fail (.body s.method.fullName s.index f)

def mismatch {α : Type} (s : Scope) (expected found : String) : Pass κ α :=
  Walk.fail (.typeMismatch s.method.fullName s.index expected found)

def operand (s : Scope) (i : Instruction) (slot : Nat) : Pass κ Operand :=
  match i.operands[slot]? with
  | some o => pure o
  | none => s.fault (.missingOperand i.opcode slot)

/-- The variable of an operand, which has to be defined already. -/
def lookup (s : Scope) (i : Instruction) (slot : Nat) : Pass κ Variable := do
  match ← s.operand i slot with
  | .variable v =>
    match (s.declared.take s.defined)[v.toNat]? with
    | some found => return found
    | none => s.fault (.undefinedVariable v)
  | other => s.fault (.notVariable i.opcode slot other)

def methodRef (s : Scope) (i : Instruction) (slot : Nat) : Pass κ MethodRef := do
  match ← s.operand i slot with
  | .method r => return r
  | other => s.fault (.notMethod i.opcode slot other)

def field (s : Scope) (i : Instruction) (slot : Nat) : Pass κ UInt32 := do
  match ← s.operand i slot with
  | .field f => return f
  | other => s.fault (.notField i.opcode slot other)

def expect (s : Scope) (expected found : LoweredType) : Pass κ Unit :=
  if expected.same found then pure () else s.mismatch expected.name found.name

end Scope

/-- The value of a variable under a fresh id, and the instruction that loads it. -/
def loadFrom (type : LoweredType) (pointer : Id) : Pass κ (Id × Inst) := do
  let value ← fresh
  return (value, .ofIds .load [type.id, value, pointer] [])

def storeTo (pointer value : Id) : Inst :=
  .ofIds .store [pointer, value] []

/-- Instruction for an arithmetic opcode on operands of a scalar shape. -/
def arithmeticOp? (opcode : Opcode) (scalar : Shape LoweredType) : Option Op :=
  match opcode, scalar with
  | .negate, .float _ => some .fNegate
  | .negate, .int .. => some .sNegate
  | .add, .float _ => some .fAdd
  | .add, .int .. => some .iAdd
  | .subtract, .float _ => some .fSub
  | .subtract, .int .. => some .iSub
  | .multiply, .float _ => some .fMul
  | .multiply, .int .. => some .iMul
  | .divide, .float _ => some .fDiv
  | .divide, .int _ true => some .sDiv
  | .divide, .int _ false => some .uDiv
  | .modulo, .float _ => some .fMod
  | .modulo, .int _ true => some .sMod
  | .modulo, .int _ false => some .uMod
  | .remainder, .float _ => some .fRem
  | .remainder, .int _ true => some .sRem
  | .remainder, .int _ false => some .uMod
  | _, _ => none

namespace Scope

def numeric (s : Scope) (opcode : Opcode) (type : LoweredType) : Pass κ Op :=
  match arithmeticOp? opcode type.scalar with
  | some op => pure op
  | none => s.mismatch "a numeric type" type.name

def negate (s : Scope) (i : Instruction) : Pass κ (List Inst) := do
  let dst ← s.lookup i 0
  let src ← s.lookup i 1
  s.expect dst.type src.type
  let op ← s.numeric i.opcode src.type
  let (value, load) ← loadFrom src.type src.pointer
  let result ← fresh
  return [load, .ofIds op [dst.type.id, result, value] [], storeTo dst.pointer result]

def binary (s : Scope) (i : Instruction) : Pass κ (List Inst) := do
  let dst ← s.lookup i 0
  let lhs ← s.lookup i 1
  let rhs ← s.lookup i 2
  s.expect lhs.type rhs.type
  s.expect dst.type lhs.type
  let op ← s.numeric i.opcode lhs.type
  let (left, loadLeft) ← loadFrom lhs.type lhs.pointer
  let (right, loadRight) ← loadFrom rhs.type rhs.pointer
  let result ← fresh
  return [loadLeft, loadRight, .ofIds op [dst.type.id, result, left, right] [],
    storeTo dst.pointer result]

/-- The variable that receives the result of a call, if there is one. -/
def resultSlot (s : Scope) (i : Instruction) : Pass κ (Option Variable) := do
  match ← s.operand i 1 with
  | .void => return none
  | .variable _ => return some (← s.lookup i 1)
  | other => s.fault (.notResultSlot other)

/-- The argument variables from `slot` on, each of the type of its parameter. -/
def arguments (s : Scope) (i : Instruction) : Nat → List LoweredType → Pass κ (List Variable)
  | _, [] => return []
  | slot, parameter :: rest => do
    let argument ← s.lookup i slot
    s.expect parameter argument.type
    return argument :: (← s.arguments i (slot + 1) rest)

def loadAll : List Variable → Pass κ (List Id × List Inst)
  | [] => return ([], [])
  | v :: rest => do
    let (value, load) ← loadFrom v.type v.pointer
    let (values, loads) ← loadAll rest
    return (value :: values, load :: loads)

/-- Calls a method on copies of its arguments; `request` gives the function that a reference
means. -/
def call (s : Scope) (request : MethodRef → Pass κ Function) (i : Instruction) :
    Pass κ (List Inst) := do
  let callee ← request (← s.methodRef i 0)
  let slot ← s.resultSlot i
  let count := i.operands.length - 2
  if count != callee.parameters.length then
    s.mismatch (toString callee.parameters.length ++ " argument(s) to " ++ callee.method.fullName)
      (toString count)
  let (values, loads) ← loadAll (← s.arguments i 2 callee.parameters)
  match slot with
  | some v => s.expect callee.returnType v.type
  | none => pure ()
  let value ← fresh
  let invoke :=
    Inst.ofIds .functionCall [callee.returnType.id, value, callee.id] (values.map Id.val)
  return loads ++ invoke :: (slot.map fun v => storeTo v.pointer value).toList

def ret (s : Scope) : Pass κ (List Inst) :=
  if s.returnType.isVoid then return [⟨.ret, []⟩] else s.mismatch s.returnType.name "void"

def retValue (s : Scope) (i : Instruction) : Pass κ (List Inst) := do
  let value ← s.lookup i 0
  if s.returnType.isVoid then s.mismatch "void" value.type.name
  s.expect s.returnType value.type
  let (loaded, load) ← loadFrom value.type value.pointer
  return [load, .ofIds .returnValue [loaded] []]

def copy (s : Scope) (i : Instruction) : Pass κ (List Inst) := do
  let dst ← s.lookup i 0
  let src ← s.lookup i 1
  s.expect dst.type src.type
  let (value, load) ← loadFrom src.type src.pointer
  return [load, storeTo dst.pointer value]

def storeConstant (dst : Variable) (bits : UInt32) : Pass κ (List Inst) := do
  let constant ← declaring (Declarations.constant dst.type bits)
  return [storeTo dst.pointer constant]

def loadUInt32 (s : Scope) (i : Instruction) : Pass κ (List Inst) := do
  let dst ← s.lookup i 0
  match ← s.operand i 1 with
  | .uint32 value =>
    match dst.type.shape with
    | .int 32 false => storeConstant dst value
    | _ => s.mismatch "a 32-bit unsigned integer" dst.type.name
  | _ => s.fault .notUInt32

def loadFloat32 (s : Scope) (i : Instruction) : Pass κ (List Inst) := do
  let dst ← s.lookup i 0
  match ← s.operand i 1 with
  | .float32 bits =>
    match dst.type.shape with
    | .float 32 => storeConstant dst bits
    | _ => s.mismatch "a 32-bit float" dst.type.name
  | _ => s.fault .notFloat32

def component (s : Scope) (aggregate : LoweredType) : Pass κ LoweredType :=
  match aggregate.shape with
  | .vector component _ => pure component
  | _ => s.mismatch "a vector" aggregate.name

/-- A pointer to the component of a vector that an index variable selects. -/
def elementPointer (s : Scope) (aggregate : Variable) (component : LoweredType)
    (index : Variable) : Pass κ (Id × List Inst) := do
  match index.type.shape with
  | .int .. => pure ()
  | _ => s.mismatch "an integer index" index.type.name
  let pointerType ← declaring (Declarations.pointer component)
  let (position, load) ← loadFrom index.type index.pointer
  let element ← fresh
  return (element,
    [load, .ofIds .accessChain [pointerType, element, aggregate.pointer, position] []])

def loadElement (s : Scope) (i : Instruction) : Pass κ (List Inst) := do
  let dst ← s.lookup i 0
  let src ← s.lookup i 1
  let index ← s.lookup i 2
  let component ← s.component src.type
  s.expect component dst.type
  let (element, access) ← s.elementPointer src component index
  let (value, load) ← loadFrom component element
  return access ++ [load, storeTo dst.pointer value]

def setElement (s : Scope) (i : Instruction) : Pass κ (List Inst) := do
  let dst ← s.lookup i 0
  let index ← s.lookup i 1
  let value ← s.lookup i 2
  let component ← s.component dst.type
  s.expect component value.type
  let (element, access) ← s.elementPointer dst component index
  let (loaded, load) ← loadFrom value.type value.pointer
  return access ++ [load, storeTo element loaded]

def memberType (s : Scope) (aggregate : LoweredType) (field : UInt32) : Pass κ LoweredType :=
  match aggregate.shape with
  | .struct members =>
    match members[field.toNat]? with
    | some member => pure member
    | none => s.fault (.noField aggregate.name field)
  | _ => s.mismatch "a struct" aggregate.name

/-- A pointer to a member of a struct, selected by a constant. -/
def memberPointer (base : Id) (member : LoweredType) (field : UInt32) : Pass κ (Id × Inst) := do
  let pointerType ← declaring (Declarations.pointer member)
  let uint ← declaring (Declarations.int 32 false)
  let position ← declaring (Declarations.constant uint field)
  let pointer ← fresh
  return (pointer, .ofIds .accessChain [pointerType, pointer, base, position] [])

def loadField (s : Scope) (i : Instruction) : Pass κ (List Inst) := do
  let dst ← s.lookup i 0
  let src ← s.lookup i 1
  let field ← s.field i 2
  let member ← s.memberType src.type field
  s.expect member dst.type
  let (pointer, access) ← memberPointer src.pointer member field
  let (value, load) ← loadFrom member pointer
  return [access, load, storeTo dst.pointer value]

def setField (s : Scope) (i : Instruction) : Pass κ (List Inst) := do
  let dst ← s.lookup i 0
  let field ← s.field i 1
  let value ← s.lookup i 2
  let member ← s.memberType dst.type field
  s.expect member value.type
  let (pointer, access) ← memberPointer dst.pointer member field
  let (loaded, load) ← loadFrom value.type value.pointer
  return [access, load, storeTo pointer loaded]

end Scope

/-- Lowers the instructions that neither define a variable nor end the body. -/
def lowerPlain (s : Scope) (request : MethodRef → Pass κ Function) (i : Instruction) :
    Pass κ (List Inst) :=
  match i.opcode with
  | .negate => s.negate i
  | .add | .subtract | .multiply | .divide | .modulo | .remainder => s.binary i
  | .call => s.call request i
  | .load => s.copy i
  | .loadUInt32 => s.loadUInt32 i
  | .loadFloat32 => s.loadFloat32 i
  | .loadElement => s.loadElement i
  | .setElement => s.setElement i
  | .loadField => s.loadField i
  | .setField => s.setField i
  | .define | .ret | .retValue => return []

/-- Lowers the rest of a body. A return ends it; without one a body of a method that returns
nothing gets one at its end. -/
def lowerFrom (s : Scope) (request : MethodRef → Pass κ Function) :
    List Instruction → Pass κ (List Inst)
  | [] =>
    if s.returnType.isVoid then return [⟨.ret, []⟩]
    else { s with index := s.index - 1 }.fault .missingReturn
  | i :: rest => do
    let next := { s with index := s.index + 1 }
    match i.opcode with
    | .ret | .retValue =>
      let code ← if i.opcode = .ret then s.ret else s.retValue i
      if rest.isEmpty then return code else next.fault .afterReturn
    | .define =>
      if s.declared.length ≤ s.defined then s.fault (.undeclaredVariable i)
      else lowerFrom { next with defined := s.defined + 1 } request rest
    | _ =>
      let code ← lowerPlain s request i
      return code ++ (← lowerFrom next request rest)

end ShaderIR.Lowering
