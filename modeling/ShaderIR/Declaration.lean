import ShaderIR.Error

/-! Type and method declarations and their instances. A declaration is built part by part;
an instance is the declaration with types substituted for its generic parameters. -/

namespace ShaderIR

namespace GenericParam

/-- The set admits an argument that it lists, or a parameter one of whose own sets it
contains. -/
def admits (allowed : List Ty) : Ty → Bool
  | .param _ constraints => constraints.any fun own => own.all fun t => decide (t ∈ allowed)
  | argument => decide (argument ∈ allowed)

/-- Fails with the first constraint that does not admit the argument. -/
def check (p : GenericParam) (argument : Ty) : Except IrError Unit :=
  match p.constraints.find? fun allowed => !admits allowed argument with
  | some allowed => .error (.constraintViolation p.name argument allowed)
  | none => .ok ()

/-- Checks the arguments in order and binds each to its parameter. -/
def bindAll : Substitution → List GenericParam → List Ty → Except IrError Substitution
  | s, p :: ps, a :: as =>
    match p.check a with
    | .ok () => bindAll (s.bind p.name a) ps as
    | .error e => .error e
  | s, _, _ => .ok s

end GenericParam

/-- An attribute of a type or of a method. -/
inductive Attribute where
  | static
  | kernel (x y z : UInt32)
  | representation (spirv : Option String)
  | custom (name : String) (types : List Ty)
deriving DecidableEq, Inhabited

namespace Attribute

def subst (s : Substitution) : Attribute → Attribute
  | .custom name types => .custom name (Ty.substList s types)
  | other => other

def text : Attribute → String
  | .static => "@static"
  | .kernel x y z =>
    "@kernel(" ++ toString x.toNat ++ ", " ++ toString y.toNat ++ ", " ++ toString z.toNat ++ ")"
  | .representation (some spirv) => "@repr(spirv = \"" ++ spirv ++ "\")"
  | .representation none => "@repr"
  | .custom name types =>
    "@" ++ name ++ if types.isEmpty then "" else "(" ++ Ty.textList types ++ ")"

end Attribute

structure Field where
  name : String
  ty : Ty
deriving DecidableEq, Inhabited

def Field.subst (s : Substitution) (f : Field) : Field :=
  { f with ty := f.ty.subst s }

/-- A method object that a declaration has made. A declaration makes all its methods anew when it
is given a generic parameter, so an object is told from others by the number of parameters that
there were, and its position. -/
structure DeclaredObject where
  generation : Nat
  index : Nat
deriving DecidableEq, Repr, Inhabited

/-- A method of a declared or constructed type. `outer` holds the bindings of a constructed
owner that a generic method still has to apply when it is instantiated, and `definition` points to
the declared method that this one comes from. -/
structure Method where
  owner : Ty
  name : String
  returnType : Option Ty := none
  parameterTypes : List Ty := []
  attributes : List Attribute := []
  genericParameters : List GenericParam := []
  body : List Instruction := []
  outer : Substitution := .empty
  definition : DeclaredObject := ⟨0, 0⟩
deriving DecidableEq, Inhabited

namespace Method

def fullName (m : Method) : String :=
  m.owner.text ++ "::" ++ m.name

def isGeneric (m : Method) : Bool :=
  !m.genericParameters.isEmpty

/-- Neither the method nor its owner has generic parameters left to bind. -/
def isConcrete (m : Method) : Bool :=
  !m.isGeneric && !m.owner.isGeneric

def isStatic (m : Method) : Bool :=
  decide (Attribute.static ∈ m.attributes)

/-- The workgroup size, if the method is an entry point. -/
def kernelSize? (m : Method) : Option (UInt32 × UInt32 × UInt32) :=
  m.attributes.findSome? fun
    | .kernel x y z => some (x, y, z)
    | _ => none

/-- The method on a new owner with a substitution applied; it has no parameters left. -/
def substituted (m : Method) (owner : Ty) (s : Substitution) : Method :=
  { owner
    name := m.name
    returnType := m.returnType.map (Ty.subst s)
    parameterTypes := Ty.substList s m.parameterTypes
    attributes := m.attributes.map (Attribute.subst s)
    body := m.body.map (Instruction.subst s)
    definition := m.definition }

/-- The method as a declaration makes it: owned by the declared type, with no bindings of an outer
type to apply, and its own definition. -/
def declaredAs (m : Method) (object : DeclaredObject) (owner : Ty) : Method :=
  { m with owner, outer := .empty, definition := object }

/-- Moves a declared method to a constructed owner. A generic method waits for its own
arguments and remembers the owner's bindings that its parameters do not shadow. -/
def forOwner (m : Method) (owner : Ty) (s : Substitution) : Method :=
  if m.isGeneric then { m with owner, outer := s.without m.genericParameters }
  else m.substituted owner s

/-- What instantiating a generic method gives: a method, or only its arguments while some of
them still mention parameters. -/
inductive Specialized where
  | concrete (method : Method)
  | deferred

/-- Instantiates a generic method of a constructed owner. -/
def instantiate (m : Method) (arguments : List Ty) : Except IrError Specialized :=
  if m.owner.isGeneric then .error (.unconstructedOwner m.fullName m.owner)
  else if !m.isGeneric then .error (.notGeneric m.fullName)
  else if arguments.length != m.genericParameters.length then
    .error (.arityMismatch m.fullName m.genericParameters.length arguments.length)
  else
    match GenericParam.bindAll .empty m.genericParameters arguments with
    | .error e => .error e
    | .ok s =>
      if Ty.anyGeneric arguments then .ok .deferred
      else .ok (.concrete (m.substituted m.owner (s.mergeOuter m.outer)))

end Method

/-- A declaration specialized to arguments, which may still be generic. -/
structure TypeInstance where
  ty : Ty
  attributes : List Attribute
  fields : List Field
  methods : List Method
  substitution : Substitution
deriving DecidableEq, Inhabited

/-- The platform representation of a type, if it has one: `some none` is a representation
without a name in the target format. -/
def TypeInstance.representation? (i : TypeInstance) : Option (Option String) :=
  i.attributes.findSome? fun
    | .representation spirv => some spirv
    | _ => none

/-- A type declaration. Its methods carry the declared type as their owner. -/
structure TypeDecl where
  fullName : String
  genericParameters : List GenericParam := []
  attributes : List Attribute := []
  fields : List Field := []
  methods : List Method := []
deriving DecidableEq, Inhabited

namespace TypeDecl

/-- The type as seen from inside its declaration. -/
def selfTy (d : TypeDecl) : Ty :=
  .named d.fullName (d.genericParameters.map GenericParam.ty)

def isGeneric (d : TypeDecl) : Bool :=
  !d.genericParameters.isEmpty

/-- Splits a full name at its last point into namespace and name. -/
def splitName (fullName : String) : String × String :=
  let reversed := fullName.toList.reverse
  match reversed.dropWhile (· != '.') with
  | [] => ("", fullName)
  | _ :: namespaceReversed =>
    (String.ofList namespaceReversed.reverse,
      String.ofList (reversed.takeWhile (· != '.')).reverse)

/-- The object of the method at a position. -/
def object (d : TypeDecl) (index : Nat) : DeclaredObject :=
  ⟨d.genericParameters.length, index⟩

/-- The method that an object is, as long as the declaration has it. -/
def upgrade? (d : TypeDecl) (object : DeclaredObject) : Option Method :=
  if object.generation = d.genericParameters.length then d.methods[object.index]? else none

/-- Adds a generic parameter; the methods declared so far are made anew for the widened owner. -/
def addGenericParameter (d : TypeDecl) (p : GenericParam) : TypeDecl :=
  let widened := { d with genericParameters := d.genericParameters ++ [p] }
  { widened with
    methods := d.methods.mapIdx fun index m => m.declaredAs (widened.object index) widened.selfTy }

def addAttribute (d : TypeDecl) (a : Attribute) : TypeDecl :=
  { d with attributes := d.attributes ++ [a] }

def addField (d : TypeDecl) (name : String) (ty : Ty) : TypeDecl :=
  { d with fields := d.fields ++ [⟨name, ty⟩] }

/-- Declares a method; it is owned by the type as it stands. -/
def addMethod (d : TypeDecl) (m : Method) : TypeDecl :=
  { d with methods := d.methods ++ [m.declaredAs (d.object d.methods.length) d.selfTy] }

/-- A type that the target platform provides. -/
def builtin (fullName spirv : String) : TypeDecl :=
  { fullName, attributes := [.representation (some spirv)] }

/-- The instance for the given arguments: one for each generic parameter, each admitted by
it. -/
def instantiate (d : TypeDecl) (arguments : List Ty) : Except IrError TypeInstance :=
  if !d.isGeneric && !arguments.isEmpty then .error (.typeNotGeneric d.fullName)
  else if arguments.length != d.genericParameters.length then
    .error (.arityMismatch d.fullName d.genericParameters.length arguments.length)
  else
    match GenericParam.bindAll .empty d.genericParameters arguments with
    | .error e => .error e
    | .ok s =>
      let ty := Ty.named d.fullName arguments
      if s.isEmpty then .ok ⟨ty, d.attributes, d.fields, d.methods, s⟩
      else
        .ok
          { ty
            attributes := d.attributes.map (Attribute.subst s)
            fields := d.fields.map (Field.subst s)
            methods := d.methods.map fun m => m.forOwner ty s
            substitution := s }

end TypeDecl

end ShaderIR
