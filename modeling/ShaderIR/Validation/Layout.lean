import ShaderIR.Validation.Walk

/-! By-value layouts: no type may contain itself. The members of a type are its fields, and
its arguments if the platform represents it. -/

namespace ShaderIR

/-- Types whose layout is known to be well founded. -/
structure Layouts where
  journal : Journal
  done : List Ty := []

def TypeInstance.members (i : TypeInstance) : List Ty :=
  i.fields.map Field.ty ++ if i.representation?.isSome then i.ty.arguments else []

namespace Layouts

abbrev M := Walk Layouts IrError

def construct (p : Program) (ty : Ty) : M TypeInstance := do
  modify fun l => { l with journal := l.journal.afterConstruct p ty }
  Walk.ofExcept (p.construct ty)

def visitEach (visit : Ty → M Unit) : List Ty → M Unit
  | [] => pure ()
  | ty :: rest => do
    visit ty
    visitEach visit rest

/-- Visits a type inside the types of `stack`, the outermost first. A type that is still
generic has no layout yet. -/
def visit (p : Program) : Nat → List Ty → Ty → M Unit
  | 0, _, _ => throw .tooDeep
  | depth + 1, stack, ty => do
    if ty.isGeneric then return
    if ty ∈ (← get).done then return
    if ty ∈ stack then
      Walk.fail (.recursiveLayout (stack.dropWhile (fun t => decide (t ≠ ty)) ++ [ty]))
    let i ← construct p ty
    visitEach (visit p depth (stack ++ [ty])) i.members
    modify fun l => { l with done := ty :: l.done }

end Layouts

end ShaderIR
