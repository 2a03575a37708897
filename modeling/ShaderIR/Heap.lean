import ShaderIR.Program

/-! Constructed types and methods as objects. A generic declaration makes its instance for an
argument list when it is first asked for, with methods of its own, and so does a generic method.
Whoever asks again is given what was made then, so that a program has one object for each method
that it uses, however it comes to it. -/

namespace ShaderIR

/-- A constructed type. A declaration that is not generic has one instance, which shares its
methods. -/
inductive TypeObject where
  | declared (site : Site)
  | constructed (number : Nat)
deriving DecidableEq, Inhabited

inductive MethodObject where
  | owned (owner : TypeObject) (index : Nat)
  | specialized (number : Nat)
deriving DecidableEq, Inhabited

/-- The number of a key: a key that is known keeps its number, and a new one gets the next. -/
def numbered {κ : Type} [BEq κ] (keys : List κ) (key : κ) : Nat × List κ :=
  if keys.contains key then (keys.idxOf key, keys) else (keys.length, keys ++ [key])

/-- The objects that have been made, numbered in the order of making: instances of generic
declarations by declaration and arguments, and instances of generic methods by method and
arguments. -/
structure Heap where
  types : List (Site × List Ty) := []
  methods : List (MethodObject × List Ty) := []
deriving Inhabited

namespace Heap

/-- The instance of a declaration, which is generic if there are arguments. -/
def typeFor (h : Heap) (site : Site) : Option (List Ty) → TypeObject × Heap
  | none => (.declared site, h)
  | some arguments =>
    let (number, types) := numbered h.types (site, arguments)
    (.constructed number, { h with types })

/-- The method itself, or its instance if there are arguments. -/
def methodFor (h : Heap) (m : MethodObject) : Option (List Ty) → MethodObject × Heap
  | none => (m, h)
  | some arguments =>
    let (number, methods) := numbered h.methods (m, arguments)
    (.specialized number, { h with methods })

def construct (h : Heap) (p : Program) : Ty → Except IrError (TypeObject × TypeInstance) × Heap
  | .param name _ => (.error (.stillGeneric name), h)
  | .named name arguments =>
    match p.find? name with
    | none => (.error (.unknownType name), h)
    | some (path, d) =>
      match d.instantiate arguments with
      | .error e => (.error e, h)
      | .ok i =>
        let (object, h) :=
          h.typeFor ⟨path, d.fullName⟩ (if d.isGeneric then some arguments else none)
        (.ok (object, i), h)

/-- Finds the method that a reference means in its constructed owner. -/
def locate (h : Heap) (p : Program) (r : MethodRef) :
    Except IrError (MethodObject × LocatedMethod) × Heap :=
  match h.construct p r.owner with
  | (.error e, h) => (.error e, h)
  | (.ok (owner, _), h) => ((p.locate r).map fun m => (.owned owner r.index, m), h)

def instantiate (h : Heap) (object : MethodObject) (m : LocatedMethod) (arguments : List Ty) :
    Except IrError (MethodObject × MethodInstance) × Heap :=
  match m.instantiate arguments with
  | .error e => (.error e, h)
  | .ok i =>
    let (object, h) := h.methodFor object (some arguments)
    (.ok (object, i), h)

/-- Resolves a method reference; its type arguments, if any, instantiate the method. -/
def resolve (h : Heap) (p : Program) (r : MethodRef) :
    Except IrError (MethodObject × MethodInstance) × Heap :=
  match h.locate p r with
  | (.error e, h) => (.error e, h)
  | (.ok (object, m), h) =>
    if r.typeArguments.isEmpty then (.ok (object, .concrete m), h)
    else h.instantiate object m r.typeArguments

/-- The generic method that an instance was made of. -/
def generic? (h : Heap) : MethodObject → Option MethodObject
  | .owned .. => none
  | .specialized number => h.methods[number]?.map Prod.fst

/-- Binds parameters in the arguments that an instance was deferred with, and instantiates the
generic method with what they become. -/
def bindDeferred (h : Heap) (object : MethodObject) (m : LocatedMethod) (arguments : List Ty)
    (s : Substitution) : Except IrError (MethodObject × MethodInstance) × Heap :=
  h.instantiate ((h.generic? object).getD object) m (Ty.substList s arguments)

end Heap

end ShaderIR
