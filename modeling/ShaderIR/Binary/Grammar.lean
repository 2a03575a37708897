import ShaderIR.Binary.Enumerant
import ShaderIR.Binary.Opcode

/-! The operand layouts of instructions, and the enumerants that operands can name. -/

namespace ShaderIR.Binary

/-- Operands whose value has a name. -/
inductive Enumeration where
  | capability
  | addressingModel
  | memoryModel
  | executionModel
  | executionMode
  | storageClass
  | functionControl
  | memoryAccess
deriving DecidableEq, Repr, Inhabited

namespace Enumeration

def name : Enumeration → String
  | .capability => "Capability"
  | .addressingModel => "AddressingModel"
  | .memoryModel => "MemoryModel"
  | .executionModel => "ExecutionModel"
  | .executionMode => "ExecutionMode"
  | .storageClass => "StorageClass"
  | .functionControl => "FunctionControl"
  | .memoryAccess => "MemoryAccess"

/-- The value is a set of bits. -/
def isSet : Enumeration → Bool
  | .functionControl | .memoryAccess => true
  | _ => false

/-- The values that have a name; those of a set are its bits. A bit with two names is written
with both. -/
def values : Enumeration → List (Nat × String)
  | .capability => capabilities
  | .addressingModel =>
    [(0, "Logical"), (1, "Physical32"), (2, "Physical64"), (5348, "PhysicalStorageBuffer64")]
  | .memoryModel => [(0, "Simple"), (1, "GLSL450"), (2, "OpenCL"), (3, "Vulkan")]
  | .executionModel => executionModels
  | .executionMode => executionModes
  | .storageClass => storageClasses
  | .functionControl =>
    [(1, "Inline"), (2, "DontInline"), (4, "Pure"), (8, "Const"), (0x10000, "OptNoneINTEL")]
  | .memoryAccess =>
    [(1, "Volatile"), (2, "Aligned"), (4, "Nontemporal"),
      (8, "MakePointerAvailable|MakePointerAvailableKHR"),
      (16, "MakePointerVisible|MakePointerVisibleKHR"),
      (32, "NonPrivatePointer|NonPrivatePointerKHR"),
      (0x10000, "AliasScopeINTELMask"), (0x20000, "NoAliasINTELMask")]

/-- The name of a value; a set of bits is written as the names of its bits. -/
def valueName? (e : Enumeration) (n : Nat) : Option String :=
  if e.isSet then
    let bits := e.values.filter fun b => n / b.1 % 2 == 1
    if bits.foldl (fun sum b => sum + b.1) 0 != n then none
    else if bits.isEmpty then some "None"
    else some ("|".intercalate (bits.map Prod.snd))
  else e.values.lookup n

end Enumeration

/-- What an operand holds; a scope is an id that does not count as a reference. -/
inductive OperandKind where
  | resultType
  | result
  | id
  | scope
  | literal
  | string
  | enumerant (e : Enumeration)
deriving DecidableEq, Repr

/-- Execution modes with operands. -/
def modeParameters (mode : Nat) : List OperandKind :=
  if mode ∈ [0, 26, 30, 35, 36, 4459, 4460, 4461, 4462, 4463, 5270, 5618, 5620, 5621, 5622, 5623,
    5894, 5896, 5903, 6154, 6160, 6417] then [.literal]
  else if mode ∈ [17, 18, 5893] then [.literal, .literal, .literal]
  else if mode ∈ [37, 5071, 5073] then [.id]
  else if mode ∈ [38, 39, 5072, 5077] then [.id, .id, .id]
  else []

/-- Bits of a memory access with operands. -/
def accessParameters : List (Nat × OperandKind) :=
  [(2, .literal), (8, .scope), (16, .scope), (0x10000, .id), (0x20000, .id)]

/-- The operands that belong to a value. -/
def Enumeration.parameters : Enumeration → Nat → List OperandKind
  | .executionMode, n => modeParameters n
  | .memoryAccess, n =>
    (accessParameters.filter fun bit => n / bit.1 % 2 == 1).map Prod.snd
  | _, _ => []

/-- A place for operands in a layout: exactly one, at most one, any number, or a number of the
result type. -/
inductive Slot where
  | one (kind : OperandKind)
  | optional (kind : OperandKind)
  | many (kind : OperandKind)
  | number
deriving DecidableEq, Repr

namespace Op

def layout : Op → List Slot
  | .nop | .functionEnd | .ret => []
  | .memoryModel => [.one (.enumerant .addressingModel), .one (.enumerant .memoryModel)]
  | .entryPoint => [.one (.enumerant .executionModel), .one .id, .one .string, .many .id]
  | .executionMode => [.one .id, .one (.enumerant .executionMode)]
  | .capability => [.one (.enumerant .capability)]
  | .typeVoid | .typeBool | .label => [.one .result]
  | .typeInt => [.one .result, .one .literal, .one .literal]
  | .typeFloat => [.one .result, .one .literal]
  | .typeVector => [.one .result, .one .id, .one .literal]
  | .typeStruct => [.one .result, .many .id]
  | .typePointer => [.one .result, .one (.enumerant .storageClass), .one .id]
  | .typeFunction => [.one .result, .one .id, .many .id]
  | .constant => [.one .resultType, .one .result, .number]
  | .function =>
    [.one .resultType, .one .result, .one (.enumerant .functionControl), .one .id]
  | .functionParameter => [.one .resultType, .one .result]
  | .functionCall | .accessChain => [.one .resultType, .one .result, .one .id, .many .id]
  | .variable =>
    [.one .resultType, .one .result, .one (.enumerant .storageClass), .optional .id]
  | .load =>
    [.one .resultType, .one .result, .one .id, .optional (.enumerant .memoryAccess)]
  | .store => [.one .id, .one .id, .optional (.enumerant .memoryAccess)]
  | .sNegate | .fNegate => [.one .resultType, .one .result, .one .id]
  | .iAdd | .fAdd | .iSub | .fSub | .iMul | .fMul | .uDiv | .sDiv | .fDiv | .uMod | .sRem
  | .sMod | .fRem | .fMod => [.one .resultType, .one .result, .one .id, .one .id]
  | .returnValue => [.one .id]
  | .other _ => [.many .literal]

/-- Declares a type or a constant. -/
def isDeclaration : Op → Bool
  | .typeVoid | .typeBool | .typeInt | .typeFloat | .typeVector | .typeStruct | .typePointer
  | .typeFunction | .constant => true
  | _ => false

/-- Ends a block. -/
def isTerminator : Op → Bool
  | .ret | .returnValue => true
  | _ => false

end Op

end ShaderIR.Binary
