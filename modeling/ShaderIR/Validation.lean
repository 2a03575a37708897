import ShaderIR.Validation.Calls
import ShaderIR.Validation.Layout

/-! Validation of a whole program before code generation: no recursive calls among its
concrete methods, no recursive layouts among the types these use. -/

namespace ShaderIR

/-- Depth to which calls and by-value members are followed. -/
def depthLimit : Nat := 1000000

namespace Program

/-- Checks the calls of the program's concrete methods, then the layouts of its own types and
of the types these methods mention. -/
def validateWithin (depth : Nat) (p : Program) : Walk Journal IrError Unit := do
  let (calls, graph) := (CallGraph.visitAll p depth p.methods).outcome { journal := ← get }
  set graph.journal
  let () ← ofExcept calls
  let own := (p.types.filter fun d => !d.isGeneric).map TypeDecl.selfTy
  let (layouts, last) :=
    (Layouts.visitEach (Layouts.visit p depth []) (own ++ graph.types.toList)).outcome
      { journal := graph.journal }
  set last.journal
  let () ← ofExcept layouts

def validate (p : Program) : Walk Journal IrError Unit :=
  p.validateWithin depthLimit

end Program

end ShaderIR
