import ShaderIR.Binary.Stream
import ShaderIR.Error

/-! What can go wrong when a program is lowered to a module. -/

namespace ShaderIR

open Binary (Op)

/-- What the target format cannot express. -/
inductive Unsupported where
  | builtinType (name : String)
  | nonScalarVector (component : String)
  | noRepresentation (ty : Ty)
  | placeholder (name : String) (ty : Ty)
  | voidField (field : String) (ty : Ty)
  | voidParameter (method : String)
  | voidVariable (method : String)
  | kernelSignature (method : String)
  | oversized (op : Op) (length : Nat)
deriving DecidableEq

def Unsupported.message : Unsupported → String
  | .builtinType name => "built-in type `" ++ name ++ "`"
  | .nonScalarVector component => "vector of non-scalar type " ++ component
  | .noRepresentation ty => "type " ++ ty.text ++ " has no SPIR-V representation"
  | .placeholder name ty =>
    "placeholder \x7b" ++ name ++ "\x7d in the representation of " ++ ty.text
  | .voidField field ty => "void field " ++ field ++ " in " ++ ty.text
  | .voidParameter method => "void parameter in " ++ method
  | .voidVariable method => "variable of type void in " ++ method
  | .kernelSignature method =>
    "kernel " ++ method ++ " must be static, take no parameters and return void"
  | .oversized op length =>
    "Op" ++ op.name ++ " needs " ++ toString length ++
      " words, more than the 65535 an instruction can hold"

/-- How an instruction of a body breaks the rules of bodies. -/
inductive BodyFault where
  | missingOperand (opcode : Opcode) (slot : Nat)
  | notVariable (opcode : Opcode) (slot : Nat) (found : Operand)
  | notMethod (opcode : Opcode) (slot : Nat) (found : Operand)
  | notField (opcode : Opcode) (slot : Nat) (found : Operand)
  | notResultSlot (found : Operand)
  | notUInt32
  | notFloat32
  | undefinedVariable (v : UInt32)
  | undeclaredVariable (instruction : Instruction)
  | noField (type : String) (field : UInt32)
  | afterReturn
  | missingReturn
deriving DecidableEq

namespace BodyFault

def expects (opcode : Opcode) (what : String) (slot : Nat) (found : Operand) : String :=
  opcode.mnemonic ++ " expects " ++ what ++ " in operand " ++ toString slot ++ ", found " ++
    found.text

def message : BodyFault → String
  | .missingOperand opcode slot => opcode.mnemonic ++ " is missing operand " ++ toString slot
  | .notVariable opcode slot found => expects opcode "a variable" slot found
  | .notMethod opcode slot found => expects opcode "a method" slot found
  | .notField opcode slot found => expects opcode "a field" slot found
  | .notResultSlot found => "call expects a result slot, found " ++ found.text
  | .notUInt32 => "load.u32 expects a 32-bit unsigned immediate"
  | .notFloat32 => "load.f32 expects a 32-bit float immediate"
  | .undefinedVariable v => "%" ++ toString v.toNat ++ " used before its definition"
  | .undeclaredVariable instruction => instruction.text ++ " has no declared variable"
  | .noField type field => type ++ " has no field ." ++ toString field.toNat
  | .afterReturn => "instruction after return"
  | .missingReturn => "missing return at end of non-void method"

end BodyFault

inductive LoweringError where
  | unsupported (cause : Unsupported)
  | typeMismatch (method : String) (index : Nat) (expected found : String)
  | stillGeneric (item : String)
  | body (method : String) (index : Nat) (fault : BodyFault)
  | cyclic
  | ir (error : IrError)
  | other (text : String)
deriving DecidableEq

def LoweringError.message : LoweringError → String
  | .unsupported cause => "unsupported: " ++ cause.message
  | .typeMismatch method index expected found =>
    "type mismatch in " ++ method ++ " at instruction " ++ toString index ++ ": expected " ++
      expected ++ ", found " ++ found
  | .stillGeneric item => "cannot generate code for " ++ item ++ ": method is still generic"
  | .body method index fault =>
    "internal error: " ++ method ++ " at instruction " ++ toString index ++ ": " ++ fault.message
  | .cyclic => "internal error: cyclic construction of a compiled artifact"
  | .ir error => error.message
  | .other text => text

/-- Fails if an instruction was too long to be written. -/
def Binary.Stream.check (s : Binary.Stream) : Except LoweringError Unit :=
  match s.oversized with
  | some (op, length) => .error (.unsupported (.oversized op length))
  | none => .ok ()

end ShaderIR
