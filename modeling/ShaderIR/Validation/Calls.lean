import ShaderIR.Validation.Walk

/-! The call graph of the concrete methods of a program. Bodies do not branch, so a method
that is reached from one of its own instances is never left again. -/

namespace ShaderIR

/-- Finished methods and the types they mention, in the order met. -/
structure CallGraph where
  journal : Journal
  done : List MethodId := []
  types : Array Ty := #[]

namespace CallGraph

abbrev M := Walk CallGraph IrError

/-- The names from the first frame with the same declared method down to `m`. -/
def cycle? (stack : List LocatedMethod) (m : LocatedMethod) : Option (List String) :=
  match stack.dropWhile fun frame => frame.id.definition != m.id.definition with
  | [] => none
  | frames => some (frames.map LocatedMethod.fullName ++ [m.fullName])

def mention (tys : List Ty) : M Unit :=
  modify fun g => { g with types := g.types ++ tys }

/-- Resolves a reference, noting the instances it needs. -/
def resolve (p : Program) (r : MethodRef) : M MethodInstance := do
  modify fun g => { g with journal := g.journal.afterResolve p r }
  Walk.ofExcept (p.resolve r)

/-- Follows the calls of a body in order and collects the types of its variables. -/
def walkBody (p : Program) (visit : LocatedMethod → M Unit) : List Instruction → M Unit
  | [] => pure ()
  | ⟨.call, .method r :: _, _⟩ :: rest => do
    match (← resolve p r).concrete? with
    | some callee => visit callee
    | none => pure ()
    walkBody p visit rest
  | ⟨.define, .type ty :: _, _⟩ :: rest => do
    mention [ty]
    walkBody p visit rest
  | _ :: rest => walkBody p visit rest

/-- Visits a method below the methods of `stack`, the outermost first. These come from different
declared methods, so a depth that exceeds the number of those is never used up. -/
def visit (p : Program) : Nat → List LocatedMethod → LocatedMethod → M Unit
  | 0, _, _ => throw .tooDeep
  | depth + 1, stack, m => do
    if m.id ∈ (← get).done then return
    match cycle? stack m with
    | some chain => Walk.fail (.recursiveCall chain)
    | none =>
      mention (m.method.parameterTypes ++ m.method.returnType.toList)
      walkBody p (visit p depth (stack ++ [m])) m.method.body
      modify fun g => { g with done := m.id :: g.done }

/-- Visits the concrete ones of the given methods. -/
def visitAll (p : Program) (depth : Nat) : List LocatedMethod → M Unit
  | [] => pure ()
  | m :: rest => do
    if m.isConcrete then visit p depth [] m
    visitAll p depth rest

end CallGraph

end ShaderIR
