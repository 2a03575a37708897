import ShaderIR.Manifest.Entry
import ShaderIR.Program
import ShaderIR.Ty.Expression

/-! Programs from manifests. Every such program depends on a library of built-in types. -/

namespace ShaderIR.Manifest

inductive LoadError where
  | malformed
  | typeSyntax (expr : String) (fault : Ty.SyntaxFault)
  | unknownMethod (owner name : String)
  | ambiguousCall (owner name : String) (candidates : Nat)
  | ir (error : IrError)
deriving DecidableEq

def LoadError.message : LoadError → String
  | .malformed => "malformed JSON"
  | .typeSyntax expr fault => "malformed type expression `" ++ expr ++ "`: " ++ fault.reason
  | .unknownMethod owner name =>
    "call to " ++ owner ++ "::" ++ name ++ ": no such method is declared"
  | .ambiguousCall owner name candidates =>
    "call to " ++ owner ++ "::" ++ name ++ " matches " ++ toString candidates ++
      " overloads; list its `parameters`"
  | .ir error => error.message

/-- The scalar types of the library, with their representations. -/
def scalarTypes : List (String × String) :=
  [("System.Bool", "OpTypeBool"), ("System.Int32", "OpTypeInt 32 1"),
    ("System.UInt32", "OpTypeInt 32 0"), ("System.Float32", "OpTypeFloat 32")]

/-- A vector type, whose components are scalars. -/
def vectorType (count : String) : TypeDecl :=
  let vector := TypeDecl.builtin ("System.Vector" ++ count) ("OpTypeVector \x7bT\x7d " ++ count)
  vector.addGenericParameter
    { name := "T", constraints := [scalarTypes.map fun (name, _) => .named name []] }

/-- The built-in types that every manifest can use. -/
def coreLibrary : Program where
  name := "System"
  types :=
    .builtin "System.Void" "OpTypeVoid" ::
      scalarTypes.map (fun (name, spirv) => .builtin name spirv) ++
      ["2", "3", "4"].map vectorType

/-- Reads a type expression with parameters in scope. -/
def parseType (scope : List GenericParam) (expr : String) : Except LoadError Ty :=
  match Ty.parse scope expr with
  | .ok ty => .ok ty
  | .error fault => .error (.typeSyntax expr fault)

def parseTypes (scope : List GenericParam) : List String → Except LoadError (List Ty)
  | [] => .ok []
  | e :: es => do return (← parseType scope e) :: (← parseTypes scope es)

/-- A parameter without listed types is unconstrained. -/
def paramOf (scope : List GenericParam) (entry : ParamEntry) : Except LoadError GenericParam :=
  if entry.oneOf.isEmpty then .ok { name := entry.name }
  else do return { name := entry.name, constraints := [← parseTypes scope entry.oneOf] }

def paramsOf (scope : List GenericParam) : List ParamEntry → Except LoadError (List GenericParam)
  | [] => .ok []
  | e :: es => do return (← paramOf scope e) :: (← paramsOf scope es)

/-- A method entry with its own parameters and its signature read. -/
structure MethodHead where
  entry : MethodEntry
  own : List GenericParam
  /-- The method's parameters first, so that they shadow those of the type. -/
  scope : List GenericParam
  parameters : List Ty

/-- A type entry with its parameters and the signatures of its methods read. -/
structure TypeHead where
  entry : TypeEntry
  params : List GenericParam
  methods : List MethodHead

def MethodHead.of (params : List GenericParam) (entry : MethodEntry) :
    Except LoadError MethodHead := do
  let own ← paramsOf params entry.genericParameters
  let scope := own ++ params
  return { entry, own, scope, parameters := ← parseTypes scope entry.parameters }

def methodHeads (params : List GenericParam) : List MethodEntry → Except LoadError (List MethodHead)
  | [] => .ok []
  | e :: es => do return (← MethodHead.of params e) :: (← methodHeads params es)

def TypeHead.of (entry : TypeEntry) : Except LoadError TypeHead := do
  let params ← paramsOf [] entry.genericParameters
  return { entry, params, methods := ← methodHeads params entry.methods }

def typeHeads : List TypeEntry → Except LoadError (List TypeHead)
  | [] => .ok []
  | e :: es => do return (← TypeHead.of e) :: (← typeHeads es)

/-- The entry of a name; of entries of the same name the last. -/
def typeNamed? (heads : List TypeHead) (name : String) : Option TypeHead :=
  heads.reverse.find? fun h => h.entry.name == name

namespace TypeHead

/-- The positions of the methods that a call can mean: those of the name and, if the call
lists parameter types, with these in the method's own scope. -/
def candidates (name : String) (parameters : Option (List String)) :
    List (MethodHead × Nat) → Except LoadError (List Nat)
  | [] => .ok []
  | (m, index) :: rest =>
    if m.entry.name != name then candidates name parameters rest
    else
      match parameters with
      | none => do return index :: (← candidates name parameters rest)
      | some exprs => do
        let wanted ← parseTypes m.scope exprs
        let others ← candidates name parameters rest
        return if wanted = m.parameters then index :: others else others

/-- The position of the method that a call means. -/
def resolve (h : TypeHead) (name : String) (parameters : Option (List String)) :
    Except LoadError Nat := do
  match ← candidates name parameters h.methods.zipIdx with
  | [index] => return index
  | [] => .error (.unknownMethod h.entry.name name)
  | several => .error (.ambiguousCall h.entry.name name several.length)

end TypeHead

/-- The instruction of an entry. -/
def instructionOf (heads : List TypeHead) (scope : List GenericParam) :
    InstructionEntry → Except LoadError Instruction
  | .negate dst src => .ok (.negate dst src)
  | .add dst lhs rhs => .ok (.ofVariables .add dst lhs rhs)
  | .subtract dst lhs rhs => .ok (.ofVariables .subtract dst lhs rhs)
  | .multiply dst lhs rhs => .ok (.ofVariables .multiply dst lhs rhs)
  | .divide dst lhs rhs => .ok (.ofVariables .divide dst lhs rhs)
  | .modulo dst lhs rhs => .ok (.ofVariables .modulo dst lhs rhs)
  | .remainder dst lhs rhs => .ok (.ofVariables .remainder dst lhs rhs)
  | .ret => .ok .ret
  | .retValue value => .ok (.retValue value)
  | .define expr => do return .define (← parseType scope expr)
  | .load dst src => .ok (.load dst src)
  | .loadUInt32 dst value => .ok (.loadUInt32 dst value)
  | .loadFloat32 dst bits => .ok (.loadFloat32 dst bits)
  | .loadElement dst src index => .ok (.ofVariables .loadElement dst src index)
  | .setElement dst index value => .ok (.ofVariables .setElement dst index value)
  | .loadField dst src field => .ok (.loadField dst src field)
  | .setField dst field value => .ok (.setField dst field value)
  | .call entry => do
    let owner ← parseType scope entry.owner
    match typeNamed? heads owner.name with
    | none => .error (.unknownMethod entry.owner entry.method)
    | some target =>
      let index ← target.resolve entry.method entry.parameters
      let typeArguments ← parseTypes scope entry.typeArguments
      return .call { owner, index, name := entry.method, typeArguments } entry.result entry.arguments

def instructionsOf (heads : List TypeHead) (scope : List GenericParam) :
    List InstructionEntry → Except LoadError (List Instruction)
  | [] => .ok []
  | e :: es => do return (← instructionOf heads scope e) :: (← instructionsOf heads scope es)

def returnTypeOf (scope : List GenericParam) : Option String → Except LoadError (Option Ty)
  | none => .ok none
  | some expr => do return some (← parseType scope expr)

/-- The declaration of a method; its owner is set when it is added to its type. -/
def methodOf (heads : List TypeHead) (owner : Ty) (m : MethodHead) : Except LoadError Method := do
  let returnType ← returnTypeOf m.scope m.entry.returns
  let body ← instructionsOf heads m.scope m.entry.body
  let kernel := match m.entry.kernel with
    | some (x, y, z) => [Attribute.kernel x y z]
    | none => []
  return { owner
           name := m.entry.name
           returnType
           parameterTypes := m.parameters
           attributes := (if m.entry.isStatic then [.static] else []) ++ kernel
           genericParameters := m.own
           body }

def addFields (scope : List GenericParam) : TypeDecl → List FieldEntry → Except LoadError TypeDecl
  | d, [] => .ok d
  | d, f :: fs => do addFields scope (d.addField f.name (← parseType scope f.type)) fs

def addMethods (heads : List TypeHead) : TypeDecl → List MethodHead → Except LoadError TypeDecl
  | d, [] => .ok d
  | d, m :: ms => do addMethods heads (d.addMethod (← methodOf heads d.selfTy m)) ms

/-- The declaration of a type. -/
def declarationOf (heads : List TypeHead) (h : TypeHead) : Except LoadError TypeDecl := do
  let start := match h.entry.spirv with
    | some spirv => TypeDecl.builtin h.entry.name spirv
    | none => { fullName := h.entry.name }
  let generic := h.params.foldl TypeDecl.addGenericParameter start
  addMethods heads (← addFields h.params generic h.entry.fields) h.methods

/-- Declares types in order. -/
def addTypes (heads : List TypeHead) : Program → List TypeHead → Except LoadError Program
  | p, [] => .ok p
  | p, h :: hs => do
    match p.addType (← declarationOf heads h) with
    | .ok p => addTypes heads p hs
    | .error e => .error (.ir e)

/-- The program that a manifest describes. -/
def Entry.toProgram (entry : Entry) : Except LoadError Program := do
  let heads ← typeHeads entry.types
  let start : Program :=
    { Program.empty entry.program with
      dependencies := [coreLibrary], lookupOrder := entry.lookupOrder }
  addTypes heads start heads

/-- Reads a manifest text and builds its program. -/
def load (decode : String → Option Entry) (text : String) : Except LoadError Program :=
  match decode text with
  | none => .error .malformed
  | some entry => entry.toProgram

end ShaderIR.Manifest
