import ShaderIR.Lowering.Objects
import ShaderIR.Lowering.Workers
import ShaderIR.Validation

/-! Compilation of a whole program to a module. -/

namespace ShaderIR.Lowering

open Binary (Inst Stream)

variable {κ : Type}

/-- Words of the module header that the caller chooses. -/
structure Options where
  version : UInt32 := 0x00010200
  generator : UInt32 := 0x1ec5712d
deriving DecidableEq, Repr, Inhabited

structure CompiledModule where
  bytes : List UInt8
  bound : UInt32
  /-- Number of functions. -/
  functions : Nat
  /-- Full names of the declared methods that are still generic. -/
  skipped : List String
deriving Inhabited

/-- The sections of the module of a session, in order. -/
def Session.sections (s : Session κ) : List Inst :=
  [⟨.capability, [1]⟩, ⟨.memoryModel, [0, 1]⟩] ++ s.entryPoints.toList ++ s.modes.toList ++
    s.declarations.code.toList ++ s.order.toList.flatMap Function.code

/-- The five words of a module header: the magic number, version, generator, bound, zero. -/
def header (options : Options) (bound : UInt32) : Stream :=
  ⟨#[0x07230203, options.version, options.generator, bound, 0], none⟩

def Session.stream (s : Session κ) (options : Options) : Stream :=
  (header options s.declarations.bound).emitAll s.sections

/-- Notes the methods that are left out, and returns their names. -/
def skipGeneric : List LocatedMethod → Pass κ (List String)
  | [] => return []
  | m :: rest =>
    if m.isConcrete then skipGeneric rest
    else do
      log (.skipping m.fullName)
      return m.fullName :: (← skipGeneric rest)

def validate (p : Program) (depth : Nat) : Pass κ Unit := do
  let outcome ← modifyGet fun s =>
    let (outcome, journal) := (p.validateWithin depth).outcome s.journal
    (outcome, { s with journal })
  match outcome with
  | .ok () => pure ()
  | .error (.failed e) => Walk.fail (.ir e)
  | .error .tooDeep => throw .tooDeep

/-- Puts the module of the session together. -/
def assemble (p : Program) (options : Options) (skipped : List String) :
    Pass κ CompiledModule := do
  let s ← get
  let stream := s.stream options
  match stream.check with
  | .error e => Walk.fail e
  | .ok () =>
    let bytes := stream.bytes
    let bound := s.declarations.bound
    log (.summary p.name s.order.size bound.toNat bytes.length)
    return ⟨bytes, bound, s.order.size, skipped⟩

/-- Validates the program, compiles its concrete methods by `run` and assembles the module. -/
def compileUsing (p : Program) (depth : Nat) (options : Options)
    (run : List LocatedMethod → Pass κ Unit) : Pass κ CompiledModule := do
  validate p depth
  let skipped ← skipGeneric p.methods
  run (p.methods.filter LocatedMethod.isConcrete)
  assemble p options skipped

/-- Compiles methods in order. -/
def compileEach (compile : LocatedMethod → Pass κ Function) : List LocatedMethod → Pass κ Unit
  | [] => pure ()
  | m :: rest => do
    let _ ← compile m
    compileEach compile rest

/-- Compiles a program with the given number of workers at most. If there is more than one, they
take turns by the schedule for their number. -/
def compileWith (jobs : Nat) (schedule : Nat → Schedule) (p : Program) (options : Options) :
    Pass MethodObject CompiledModule :=
  compileUsing p depthLimit options fun methods =>
    let compile := Objects.compileDeclared p depthLimit
    if jobs ≤ 1 ∨ methods.length ≤ 1 then compileEach compile methods
    else
      let workers := min jobs methods.length
      share compile workers (schedule workers) methods

end ShaderIR.Lowering
