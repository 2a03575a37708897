import ShaderIR.Lowering.Module

/-! Compilation of methods by their identities. Methods are told apart by the declared method that
they come from and by the arguments bound so far, whatever objects they are. Most of the theory of
lowering is about this pass; it comes to the same as the one by objects. -/

namespace ShaderIR.Lowering

abbrev M := Pass MethodId

/-- Resolves a reference, noting the instances it needs. -/
def resolve (p : Program) (r : MethodRef) : M MethodInstance := do
  modify fun s => { s with journal := s.journal.afterResolve p r }
  ofIr (p.resolve r)

/-- The function that a reference means. -/
def callee (p : Program) (compile : LocatedMethod → M Function) (r : MethodRef) : M Function := do
  let target ← resolve p r
  match target.concrete? with
  | some m => compile m
  | none => Walk.fail (.stillGeneric target.fullName)

/-- The function of a concrete method. -/
def compileMethod (p : Program) : Nat → LocatedMethod → M Function
  | 0, _ => throw .tooDeep
  | depth + 1, m =>
    once .functions m.id (buildFunction (lowerType p depth) (callee p (compileMethod p depth)) m)

/-- The function of what a method reference resolved to. -/
def compileInstance (p : Program) (depth : Nat) (i : MethodInstance) : M Function :=
  match i.concrete? with
  | some m => compileMethod p depth m
  | none => Walk.fail (.stillGeneric i.fullName)

/-- Compiles methods in order. -/
def compileAll (p : Program) (depth : Nat) : List LocatedMethod → M Unit
  | [] => pure ()
  | m :: rest => do
    let _ ← compileMethod p depth m
    compileAll p depth rest

/-- Validates the program, compiles its concrete methods in order and assembles the module. -/
def compileWithin (depth : Nat) (p : Program) (options : Options) : M CompiledModule :=
  compileUsing p depth options (compileAll p depth)

def compile (p : Program) (options : Options) : M CompiledModule :=
  compileWithin depthLimit p options

end ShaderIR.Lowering
