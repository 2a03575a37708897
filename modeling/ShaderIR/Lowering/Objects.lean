import ShaderIR.Lowering.Function

/-! Compilation of methods as objects: a method that has been compiled is known by the object it
is. -/

namespace ShaderIR.Lowering.Objects

/-- Resolves a reference, making the instances it needs. -/
def resolve (p : Program) (r : MethodRef) : Pass MethodObject (MethodObject × MethodInstance) := do
  let answer ← modifyGet fun s =>
    ((s.journal.heap.resolve p r).1, { s with journal := s.journal.afterResolve p r })
  ofIr answer

/-- The function that a reference means. -/
def callee (p : Program) (compile : MethodObject → LocatedMethod → Pass MethodObject Function)
    (r : MethodRef) : Pass MethodObject Function := do
  let (object, target) ← resolve p r
  match target.concrete? with
  | some m => compile object m
  | none => Walk.fail (.stillGeneric target.fullName)

/-- The function of a concrete method. -/
def compileMethod (p : Program) : Nat → MethodObject → LocatedMethod → Pass MethodObject Function
  | 0, _, _ => throw .tooDeep
  | depth + 1, object, m =>
    once .functions object
      (buildFunction (lowerType p depth) (callee p (compileMethod p depth)) m)

/-- The function of a method that the program declares. -/
def compileDeclared (p : Program) (depth : Nat) (m : LocatedMethod) : Pass MethodObject Function :=
  compileMethod p depth (.owned (.declared m.id.site) m.id.index) m

/-- The function of what a method reference resolved to. -/
def compileInstance (p : Program) (depth : Nat) (object : MethodObject) (i : MethodInstance) :
    Pass MethodObject Function :=
  match i.concrete? with
  | some m => compileMethod p depth object m
  | none => Walk.fail (.stillGeneric i.fullName)

end ShaderIR.Lowering.Objects
