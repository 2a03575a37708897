import ShaderIR.Dump
import ShaderIR.Lowering.Module

/-! Backends: what a program can be compiled to, chosen by the name of a target. -/

namespace ShaderIR

inductive Backend where
  | irDump
  | spirv (options : Lowering.Options)
deriving DecidableEq, Inhabited

inductive DiagnosticLevel where
  | warning
  | info
deriving DecidableEq, Repr

structure Diagnostic where
  level : DiagnosticLevel
  message : String
deriving DecidableEq, Repr

def Diagnostic.text (d : Diagnostic) : String :=
  (match d.level with
    | .warning => "[Warning] "
    | .info => "[Info] ") ++ d.message

inductive OutputContent where
  | text (s : String)
  | binary (bytes : List UInt8)
deriving DecidableEq

namespace OutputContent

/-- The kind of the content and its length in bytes. -/
def summary : OutputContent → String
  | .text s => "Text(" ++ toString s.utf8ByteSize ++ " chars)"
  | .binary bytes => "Binary(" ++ toString bytes.length ++ " bytes)"

end OutputContent

structure OutputFile where
  name : String
  content : OutputContent
deriving DecidableEq

structure Output where
  files : List OutputFile
  diagnostics : List Diagnostic
deriving DecidableEq

def Output.summary (o : Output) : String :=
  toString o.files.length ++ " file(s), " ++ toString o.diagnostics.length ++ " diagnostic(s)"

/-- How many workers to use; zero asks for as many as the machine has. -/
structure BackendOptions where
  jobs : Nat := 0
deriving DecidableEq, Repr

namespace BackendOptions

def text (o : BackendOptions) : String :=
  "BackendOptions \x7b jobs: " ++ toString o.jobs ++ " \x7d"

def workerCount (o : BackendOptions) (available : Nat) : Nat :=
  if o.jobs = 0 then max 1 available else o.jobs

end BackendOptions

namespace Backend

def name : Backend → String
  | .irDump => "IR Dump"
  | .spirv _ => "SPIR-V"

/-- The names under which a backend is found. -/
def targets : Backend → List String
  | .irDump => ["ir-dump", "ir"]
  | .spirv _ => ["spirv", "spv"]

def moduleDiagnostics (m : Lowering.CompiledModule) : List Diagnostic :=
  m.skipped.map (fun name => ⟨.warning, "skipped " ++ name ++ ": method is still generic"⟩) ++
    [⟨.info, toString m.functions ++ " function(s), bound " ++ toString m.bound.toNat ++ ", " ++
      toString m.bytes.length ++ " bytes"⟩]

/-- Compiles a program with a number of workers at most, which take turns by the schedule for their
number. -/
def compile (b : Backend) (p : Program) (workers : Nat) (schedule : Nat → Lowering.Schedule) :
    Lowering.Pass MethodObject Output :=
  match b with
  | .irDump => return ⟨[⟨"program.ir", .text p.dump⟩], []⟩
  | .spirv options => do
    let m ← Lowering.compileWith workers schedule p options
    return ⟨[⟨p.name ++ ".spv", .binary m.bytes⟩], moduleDiagnostics m⟩

end Backend

/-- Backends in the order in which they are asked. -/
structure Registry where
  backends : List Backend := []
deriving Inhabited

namespace Registry

def builtin : Registry := ⟨[.irDump]⟩

def register (r : Registry) (b : Backend) : Registry :=
  ⟨r.backends ++ [b]⟩

/-- All backends with their usual options. -/
def standard : Registry :=
  builtin.register (.spirv {})

def find? (r : Registry) (target : String) : Option Backend :=
  r.backends.find? fun b => decide (target ∈ b.targets)

def targets (r : Registry) : List String :=
  r.backends.flatMap Backend.targets

end Registry

end ShaderIR
