import ShaderIR.Binary.OtherName

/-! Operations of the binary module format: those that a module here can hold, and all others
by their number. -/

namespace ShaderIR.Binary

inductive Op where
  | nop
  | memoryModel
  | entryPoint
  | executionMode
  | capability
  | typeVoid
  | typeBool
  | typeInt
  | typeFloat
  | typeVector
  | typeStruct
  | typePointer
  | typeFunction
  | constant
  | function
  | functionParameter
  | functionEnd
  | functionCall
  | variable
  | load
  | store
  | accessChain
  | sNegate
  | fNegate
  | iAdd
  | fAdd
  | iSub
  | fSub
  | iMul
  | fMul
  | uDiv
  | sDiv
  | fDiv
  | uMod
  | sRem
  | sMod
  | fRem
  | fMod
  | label
  | ret
  | returnValue
  | other (number : UInt16)
deriving DecidableEq, Repr, Inhabited

namespace Op

/-- The number in the low half of an instruction's first word. -/
def code : Op → Nat
  | .nop => 0
  | .memoryModel => 14
  | .entryPoint => 15
  | .executionMode => 16
  | .capability => 17
  | .typeVoid => 19
  | .typeBool => 20
  | .typeInt => 21
  | .typeFloat => 22
  | .typeVector => 23
  | .typeStruct => 30
  | .typePointer => 32
  | .typeFunction => 33
  | .constant => 43
  | .function => 54
  | .functionParameter => 55
  | .functionEnd => 56
  | .functionCall => 57
  | .variable => 59
  | .load => 61
  | .store => 62
  | .accessChain => 65
  | .sNegate => 126
  | .fNegate => 127
  | .iAdd => 128
  | .fAdd => 129
  | .iSub => 130
  | .fSub => 131
  | .iMul => 132
  | .fMul => 133
  | .uDiv => 134
  | .sDiv => 135
  | .fDiv => 136
  | .uMod => 137
  | .sRem => 138
  | .sMod => 139
  | .fRem => 140
  | .fMod => 141
  | .label => 248
  | .ret => 253
  | .returnValue => 254
  | .other number => number.toNat

def name : Op → String
  | .nop => "Nop"
  | .memoryModel => "MemoryModel"
  | .entryPoint => "EntryPoint"
  | .executionMode => "ExecutionMode"
  | .capability => "Capability"
  | .typeVoid => "TypeVoid"
  | .typeBool => "TypeBool"
  | .typeInt => "TypeInt"
  | .typeFloat => "TypeFloat"
  | .typeVector => "TypeVector"
  | .typeStruct => "TypeStruct"
  | .typePointer => "TypePointer"
  | .typeFunction => "TypeFunction"
  | .constant => "Constant"
  | .function => "Function"
  | .functionParameter => "FunctionParameter"
  | .functionEnd => "FunctionEnd"
  | .functionCall => "FunctionCall"
  | .variable => "Variable"
  | .load => "Load"
  | .store => "Store"
  | .accessChain => "AccessChain"
  | .sNegate => "SNegate"
  | .fNegate => "FNegate"
  | .iAdd => "IAdd"
  | .fAdd => "FAdd"
  | .iSub => "ISub"
  | .fSub => "FSub"
  | .iMul => "IMul"
  | .fMul => "FMul"
  | .uDiv => "UDiv"
  | .sDiv => "SDiv"
  | .fDiv => "FDiv"
  | .uMod => "UMod"
  | .sRem => "SRem"
  | .sMod => "SMod"
  | .fRem => "FRem"
  | .fMod => "FMod"
  | .label => "Label"
  | .ret => "Return"
  | .returnValue => "ReturnValue"
  | .other number => otherName number.toNat

/-- The operations that a module here can hold. -/
def all : List Op :=
  [.nop, .memoryModel, .entryPoint, .executionMode, .capability, .typeVoid, .typeBool, .typeInt,
    .typeFloat, .typeVector, .typeStruct, .typePointer, .typeFunction, .constant, .function,
    .functionParameter, .functionEnd, .functionCall, .variable, .load, .store, .accessChain,
    .sNegate, .fNegate, .iAdd, .fAdd, .iSub, .fSub, .iMul, .fMul, .uDiv, .sDiv, .fDiv, .uMod,
    .sRem, .sMod, .fRem, .fMod, .label, .ret, .returnValue]

def ofCode? (n : Nat) : Option Op :=
  all.find? fun op => op.code == n

theorem ofCode?_code (op : Op) (h : op ∈ all) : ofCode? op.code = some op := by
  revert op
  decide

/-- The operation with a number, whether modules here can hold it or not. -/
def ofNumber (number : UInt16) : Op :=
  (ofCode? number.toNat).getD (.other number)

end Op

end ShaderIR.Binary
