import ShaderIR.Instruction

/-! What can go wrong when declarations are built, instantiated or validated. -/

namespace ShaderIR

inductive IrError where
  | notGeneric (method : String)
  | typeNotGeneric (type : String)
  | unconstructedOwner (method : String) (owner : Ty)
  | arityMismatch (item : String) (expected found : Nat)
  | constraintViolation (parameter : String) (argument : Ty) (allowed : List Ty)
  | stillGeneric (item : String)
  | duplicateType (name : String)
  | unknownType (name : String)
  | unknownMethod (owner : Ty) (name : String) (index : Nat)
  | operandCount (opcode : Opcode) (found : Nat)
  | recursiveCall (chain : List String)
  | recursiveLayout (chain : List Ty)
  | cyclicConstruction
deriving DecidableEq

namespace IrError

def message : IrError → String
  | .notGeneric method => "method " ++ method ++ " is not generic"
  | .typeNotGeneric type => "type " ++ type ++ " is not generic"
  | .unconstructedOwner method owner =>
    "unable to construct generic method " ++ method ++ " on unconstructed generic type " ++
      owner.text
  | .arityMismatch item expected found =>
    item ++ " expects " ++ toString expected ++ " type argument(s), but " ++ toString found ++
      " were given"
  | .constraintViolation parameter argument allowed =>
    "type argument " ++ argument.text ++ " does not satisfy constraint `" ++
      GenericParam.constraintText allowed ++ "` of " ++ parameter
  | .stillGeneric item => item ++ " is still generic"
  | .duplicateType name => "duplicate type " ++ name
  | .unknownType name => "unknown type " ++ name
  | .unknownMethod owner name index =>
    "unknown method " ++ name ++ " (index " ++ toString index ++ ") on " ++ owner.text
  | .operandCount opcode found =>
    opcode.mnemonic ++ " expects " ++ opcode.arity.text ++ " operand(s), found " ++ toString found
  | .recursiveCall chain => "recursive call: " ++ " -> ".intercalate chain
  | .recursiveLayout chain => "recursive layout: " ++ " -> ".intercalate (chain.map Ty.text)
  | .cyclicConstruction => "cyclic construction"

end IrError

/-- Builds an instruction if the opcode admits that many operands. -/
def Instruction.build (opcode : Opcode) (operands : List Operand) : Except IrError Instruction :=
  if h : opcode.arity.admits operands.length then .ok ⟨opcode, operands, h⟩
  else .error (.operandCount opcode operands.length)

end ShaderIR
