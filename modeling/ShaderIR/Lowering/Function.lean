import ShaderIR.Binary.Name
import ShaderIR.Lowering.Body

/-! Lowering of types and of whole methods, each once per session. -/

namespace ShaderIR.Lowering

open Binary (Id Inst)

variable {κ : Type}

/-- Lowers the type that a representation names; `argument` gives the type of a placeholder. -/
def lowerRepresentation (name : String) (argument : String → Pass κ LoweredType) :
    Pass κ LoweredType := do
  match Representation.parse? name with
  | none => unsupported (.builtinType name)
  | some .void => declaring Declarations.void
  | some .bool => declaring Declarations.bool
  | some (.int signed) => declaring (Declarations.int 32 signed)
  | some .float => declaring (Declarations.float 32)
  | some (.vector placeholder count) =>
    let component ← argument placeholder
    if component.isScalar then declaring (Declarations.vector component count)
    else unsupported (.nonScalarVector component.name)

/-- Lowers fields in order; none of them may be void. -/
def lowerFields (lower : Ty → Pass κ LoweredType) (ty : Ty) : List Field → Pass κ (List LoweredType)
  | [] => return []
  | f :: rest => do
    let member ← lower f.ty
    if member.isVoid then unsupported (.voidField f.name ty)
    return member :: (← lowerFields lower ty rest)

/-- Declares a type: what the platform provides for it, or a struct of its fields. -/
def buildType (p : Program) (lower : Ty → Pass κ LoweredType) (ty : Ty) : Pass κ LoweredType := do
  let i ← construct p ty
  let lowered ← match i.representation? with
    | some none => unsupported (.noRepresentation ty)
    | some (some name) =>
      lowerRepresentation name fun placeholder =>
        match i.substitution.get? placeholder with
        | some argument => lower argument
        | none => unsupported (.placeholder placeholder ty)
    | none => do
      let members ← lowerFields lower ty i.fields
      declaring (Declarations.struct members)
  log (.lowered ty lowered.id)
  return { lowered with name := ty.text }

/-- The lowered form of a concrete type. -/
def lowerType (p : Program) : Nat → Ty → Pass κ LoweredType
  | 0, _ => throw .tooDeep
  | depth + 1, ty =>
    if ty.isGeneric then Walk.fail (.stillGeneric ty.text)
    else once .types ty (buildType p (lowerType p depth) ty)

def lowerReturn (lower : Ty → Pass κ LoweredType) : Option Ty → Pass κ LoweredType
  | none => declaring Declarations.void
  | some ty => lower ty

/-- The receiver of a method that is not static. -/
def lowerReceiver (lower : Ty → Pass κ LoweredType) (m : Method) : Pass κ (List LoweredType) := do
  if m.isStatic then return [] else return [← lower m.owner]

/-- Lowers parameter types in order; none of them may be void. -/
def lowerParameters (lower : Ty → Pass κ LoweredType) (method : String) :
    List Ty → Pass κ (List LoweredType)
  | [] => return []
  | ty :: rest => do
    let lowered ← lower ty
    if lowered.isVoid then unsupported (.voidParameter method)
    return lowered :: (← lowerParameters lower method rest)

def declareVariable (type : LoweredType) : Pass κ (Variable × Inst) := do
  let pointerType ← declaring (Declarations.pointer type)
  let pointer ← fresh
  return (⟨type, pointer⟩, .ofIds .variable [pointerType, pointer] [7])

def declareVariables : List LoweredType → Pass κ (List (Variable × Inst))
  | [] => return []
  | type :: rest => do
    let declared ← declareVariable type
    return declared :: (← declareVariables rest)

/-- Declares the variables that a body defines. -/
def declareLocals (lower : Ty → Pass κ LoweredType) (method : String) :
    List Instruction → Pass κ (List (Variable × Inst))
  | [] => return []
  | ⟨.define, [.type ty], _⟩ :: rest => do
    let type ← lower ty
    if type.isVoid then unsupported (.voidVariable method)
    let declared ← declareVariable type
    return declared :: (← declareLocals lower method rest)
  | _ :: rest => declareLocals lower method rest

/-- A fresh id for each parameter. -/
def freshParameters : List LoweredType → Pass κ (List (Id × Inst))
  | [] => return []
  | type :: rest => do
    let id ← fresh
    return (id, .ofIds .functionParameter [type.id, id] []) :: (← freshParameters rest)

/-- The code of a function: its header and parameters, one block with a variable for each
parameter and definition, the parameters stored into their variables, then the body. -/
def lowerBody (lower : Ty → Pass κ LoweredType) (request : MethodRef → Pass κ Function)
    (m : Method) (id functionType : Id) (returnType : LoweredType)
    (parameters : List LoweredType) : Pass κ (List Inst) := do
  let passed ← freshParameters parameters
  let label ← fresh
  let spilled ← declareVariables parameters
  let locals ← declareLocals lower m.fullName m.body
  let stores := List.zipWith (fun (v : Variable × Inst) (q : Id × Inst) =>
    storeTo v.1.pointer q.1) spilled passed
  let declared := spilled ++ locals
  let scope : Scope :=
    { method := m, returnType, declared := declared.map Prod.fst
      defined := parameters.length, index := 0 }
  let body ← lowerFrom scope request m.body
  return .ofIds .function [returnType.id, id] [0, functionType.val] :: passed.map Prod.snd ++
    .ofIds .label [label] [] :: declared.map Prod.snd ++ stores ++ body ++ [⟨.functionEnd, []⟩]

/-- Declares an entry point of the compute model with its workgroup size. -/
def declareEntryPoint (name : String) (id : Id) (size : UInt32 × UInt32 × UInt32) : Pass κ Unit :=
  modify fun s =>
    { s with
      entryPoints := s.entryPoints.push ⟨.entryPoint, 5 :: id.val :: Binary.nameWords name⟩
      modes := s.modes.push ⟨.executionMode, [id.val, 17, size.1, size.2.1, size.2.2]⟩ }

/-- Enters a finished function into the module, with its entry point if it is that of a kernel. -/
def publish (f : Function) : Pass κ Function := do
  match f.method.method.kernelSize? with
  | some size => declareEntryPoint f.method.fullName f.id size
  | none => pure ()
  log (.compiled f.method.fullName f.id (Binary.Stream.ofInsts f.code).size)
  modify fun s => { s with order := s.order.push f }
  return f

/-- Lowers a method: its signature and its body. -/
def buildFunction (lower : Ty → Pass κ LoweredType) (request : MethodRef → Pass κ Function)
    (m : LocatedMethod) : Pass κ Function := do
  let method := m.method
  let returnType ← lowerReturn lower method.returnType
  let receiver ← lowerReceiver lower method
  let others ← lowerParameters lower m.fullName method.parameterTypes
  let parameters := receiver ++ others
  if method.kernelSize?.isSome && (!returnType.isVoid || !parameters.isEmpty) then
    unsupported (.kernelSignature m.fullName)
  let functionType ← declaring (Declarations.function returnType parameters)
  let id ← fresh
  let code ← lowerBody lower request method id functionType returnType parameters
  publish ⟨id, m, returnType, parameters, code⟩

end ShaderIR.Lowering
