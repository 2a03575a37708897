import ShaderIR.Backend
import ShaderIR.Binary.Disassembly
import ShaderIR.Manifest.Load

/-! The command line: what the arguments ask for, and what a run prints and writes. -/

namespace ShaderIR

structure Arguments where
  input : String
  target : String := "spirv"
  output : Option String := none
  jobs : Nat := 1
  emitIr : Bool := false
  disassemble : Bool := false
  dryRun : Bool := false
deriving DecidableEq, Repr

namespace CommandLine

/-- An option that takes a value. -/
inductive ValueOption where
  | target
  | output
  | jobs
deriving DecidableEq, Repr

inductive Flag where
  | emitIr
  | disassemble
  | dryRun
deriving DecidableEq, Repr

/-- What an argument gives. -/
inductive Item where
  | input (path : String)
  | value (option : ValueOption) (text : String)
  | flag (f : Flag)
deriving DecidableEq, Repr

/-- How an argument reads: complete, with its value to come, or as a question about the
program. -/
inductive Form where
  | complete (item : Item)
  | opening (option : ValueOption)
  | help
  | version
deriving DecidableEq, Repr

def longOption? : String → Option ValueOption
  | "target" => some .target
  | "output" => some .output
  | "jobs" => some .jobs
  | _ => none

def shortOption? : Char → Option ValueOption
  | 't' => some .target
  | 'o' => some .output
  | 'j' => some .jobs
  | _ => none

def flag? : String → Option Flag
  | "emit-ir" => some .emitIr
  | "disassemble" => some .disassemble
  | "dry-run" => some .dryRun
  | _ => none

/-- Starts with a dash and is more than that. -/
def isOption (argument : String) : Bool :=
  match argument.toList with
  | '-' :: _ :: _ => true
  | _ => false

/-- Splits at the first equals sign. -/
def splitEquals (cs : List Char) : String × Option String :=
  match cs.dropWhile (· != '=') with
  | _ :: value => (String.ofList (cs.takeWhile (· != '=')), some (String.ofList value))
  | [] => (String.ofList cs, none)

/-- The form of an argument, unless it is an option that does not exist. A letter may be followed
by its value, with or without an equals sign. -/
def form? (argument : String) : Option Form :=
  match argument.toList with
  | '-' :: '-' :: cs =>
    match splitEquals cs with
    | (name, some value) => (longOption? name).map fun option => .complete (.value option value)
    | ("help", none) => some .help
    | ("version", none) => some .version
    | (name, none) =>
      match flag? name with
      | some f => some (.complete (.flag f))
      | none => (longOption? name).map .opening
  | '-' :: 'h' :: _ => some .help
  | '-' :: 'V' :: _ => some .version
  | '-' :: c :: cs =>
    (shortOption? c).map fun option =>
      match cs with
      | [] => .opening option
      | '=' :: value => .complete (.value option (String.ofList value))
      | value => .complete (.value option (String.ofList value))
  | _ => some (.complete (.input argument))

/-- A number of 64 bits in decimal, with an optional plus sign. -/
def count? (text : String) : Option Nat :=
  let digits := match text.toList with
    | '+' :: rest => rest
    | rest => rest
  let n := digits.foldl (fun n c => 10 * n + (c.toNat - '0'.toNat)) 0
  if digits.isEmpty || !digits.all Char.isDigit || 0x10000000000000000 ≤ n then none else some n

/-- What was given so far. -/
structure Draft where
  input : Option String := none
  target : Option String := none
  output : Option String := none
  jobs : Option Nat := none
  flags : List Flag := []
deriving DecidableEq, Repr

namespace Draft

/-- Adds an item. Everything is given at most once, and paths are not empty. -/
def add (d : Draft) : Item → Option Draft
  | .input path =>
    if d.input.isSome || path.isEmpty then none else some { d with input := some path }
  | .value .target text =>
    if d.target.isSome then none else some { d with target := some text }
  | .value .output path =>
    if d.output.isSome || path.isEmpty then none else some { d with output := some path }
  | .value .jobs text =>
    if d.jobs.isSome then none else (count? text).map fun n => { d with jobs := some n }
  | .flag f => if f ∈ d.flags then none else some { d with flags := f :: d.flags }

/-- The arguments, if there is an input. -/
def finish (d : Draft) : Option Arguments :=
  d.input.map fun input =>
    { input
      target := d.target.getD "spirv"
      output := d.output
      jobs := d.jobs.getD 1
      emitIr := decide (.emitIr ∈ d.flags)
      disassemble := decide (.disassemble ∈ d.flags)
      dryRun := decide (.dryRun ∈ d.flags) }

end Draft

def helpText : String :=
  "Command-line driver compiling Nesl program manifests

Usage: neslc [OPTIONS] <INPUT>

Arguments:
  <INPUT>  Input manifest (JSON)

Options:
  -t, --target <TARGET>  Target backend [default: spirv]
  -o, --output <OUTPUT>  Output path (default: stdout for text output)
  -j, --jobs <JOBS>      Worker threads for the compilation pass (0: one per core) [default: 1]
      --emit-ir          Dump IR to stderr before backend compilation
      --disassemble      Print a disassembly of binary output to stdout
      --dry-run          Load and validate without producing output
  -h, --help             Print help
  -V, --version          Print version
"

def versionText : String :=
  "nesl-cli 0.1.0\n"

/-- What the arguments ask for. -/
inductive Request where
  | run (arguments : Arguments)
  | print (text : String)
  | misuse
deriving DecidableEq, Repr

/-- What the next argument can be: anything, the value of an option, or only an input. -/
inductive Expected where
  | anything
  | value (option : ValueOption)
  | input
deriving DecidableEq, Repr

/-- Reads arguments from left to right; after `--` all are inputs. A question about the program
is answered if nothing before it is wrong. -/
def readArguments : Expected → Draft → List String → Request
  | .value _, _, [] => .misuse
  | _, d, [] => d.finish.elim .misuse .run
  | .input, d, argument :: rest =>
    match d.add (.input argument) with
    | some d => readArguments .input d rest
    | none => .misuse
  | .value option, d, argument :: rest =>
    match if isOption argument then none else d.add (.value option argument) with
    | some d => readArguments .anything d rest
    | none => .misuse
  | .anything, d, argument :: rest =>
    if argument == "--" then readArguments .input d rest
    else
      match form? argument with
      | some (.complete item) =>
        match d.add item with
        | some d => readArguments .anything d rest
        | none => .misuse
      | some (.opening option) => readArguments (.value option) d rest
      | some .help => .print helpText
      | some .version => .print versionText
      | none => .misuse

def parse (arguments : List String) : Request :=
  readArguments .anything {} arguments

/-- Why a run fails. -/
inductive Failure where
  | unreadable (path : String)
  | invalidManifest (path : String) (error : Manifest.LoadError)
  | invalidProgram (error : IrError)
  | unknownTarget (target : String)
  | compilation (error : LoweringError)
  | disassembly (file : String) (error : Binary.ReadError Binary.MalformedCause)
  | noOutputPath
  | unwritable (path : String)
  | tooDeep

def Failure.message : Failure → String
  | .unreadable path => "failed to read " ++ path
  | .invalidManifest path error => "invalid manifest " ++ path ++ ": " ++ error.message
  | .invalidProgram error => "validation failed: " ++ error.message
  | .unknownTarget target =>
    "unknown target '" ++ target ++ "' (available: " ++
      ", ".intercalate Registry.standard.targets ++ ")"
  | .compilation error => "backend compilation failed: " ++ error.message
  | .disassembly file error => "failed to disassemble " ++ file ++ ": " ++
      error.message Binary.Library.standard.faultText
  | .noOutputPath => "backend produced binary output but no --output path was specified"
  | .unwritable path => "failed to write " ++ path
  | .tooDeep => "the program is nested too deeply"

/-- What a run prints and writes, in this order: messages, text, at most one file. -/
structure Effects where
  messages : String := ""
  text : String := ""
  file : Option (String × List UInt8) := none
  failure : Option Failure := none

namespace Effects

def failing (e : Effects) (f : Failure) : Effects :=
  { e with failure := some f }

end Effects

/-- Delivers an output file: binary content is shown and written as asked. -/
def deliver (arguments : Arguments) (e : Effects) (file : OutputFile) : Effects :=
  match file.content with
  | .text s =>
    match arguments.output with
    | some path => { e with file := some (path, Binary.utf8 s) }
    | none => { e with text := e.text ++ s }
  | .binary bytes =>
    let shown : Except Failure Effects :=
      if arguments.disassemble then
        match Binary.ParsedModule.parse .standard bytes with
        | .ok m => .ok { e with text := e.text ++ m.disassemble .standard }
        | .error error => .error (.disassembly file.name error)
      else .ok e
    match shown, arguments.output with
    | .error f, _ => e.failing f
    | .ok e, some path => { e with file := some (path, bytes) }
    | .ok e, none => if arguments.disassemble then e else e.failing .noOutputPath

def stopped (e : Effects) (fail : LoweringError → Failure) : Stop LoweringError → Effects
  | .failed error => e.failing (fail error)
  | .tooDeep => e.failing .tooDeep

/-- Compiles the program with the backend of the target and delivers what it produces. -/
def produce (arguments : Arguments) (e : Effects) (p : Program) : Effects :=
  match Registry.standard.find? arguments.target with
  | none => e.failing (.unknownTarget arguments.target)
  | some backend =>
    let workers := BackendOptions.workerCount ⟨arguments.jobs⟩ 1
    match ((backend.compile p workers Lowering.Schedule.inOrder).outcome {}).1 with
    | .error stop => stopped e .compilation stop
    | .ok output =>
      let diagnostics := String.join (output.diagnostics.map fun d => d.text ++ "\n")
      output.files.foldl (deliver arguments) { e with messages := e.messages ++ diagnostics }

/-- A run on the text of the manifest, if that could be read. -/
def run (arguments : Arguments) (source : Option String) : Effects :=
  match source with
  | none => ({} : Effects).failing (.unreadable arguments.input)
  | some text =>
    match Manifest.load Manifest.Entry.parse? text with
    | .error error => ({} : Effects).failing (.invalidManifest arguments.input error)
    | .ok p =>
      let e : Effects := { messages := if arguments.emitIr then p.dump ++ "\n" else "" }
      if arguments.dryRun then
        match (p.validate.outcome {}).1 with
        | .ok () => e
        | .error (.failed error) => e.failing (.invalidProgram error)
        | .error .tooDeep => e.failing .tooDeep
      else produce arguments e p

end CommandLine

end ShaderIR
