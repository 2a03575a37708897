import ShaderIR.CommandLine

/-! The program: reads the manifest, prints and writes what the run asks for. -/

namespace ShaderIR.CommandLine

/-- The contents of a file, if it can be read as text. -/
def readSource (path : String) : IO (Option String) := do
  try return some (← IO.FS.readFile path) catch _ => return none

def report (failure : Failure) : IO UInt32 := do
  IO.eprintln ("Error: " ++ failure.message)
  return 1

def execute (arguments : Arguments) : IO UInt32 := do
  let effects := run arguments (← readSource arguments.input)
  IO.eprint effects.messages
  IO.print effects.text
  if let some (path, bytes) := effects.file then
    try IO.FS.writeBinFile path ⟨bytes.toArray⟩
    catch _ => return ← report (.unwritable path)
  match effects.failure with
  | some failure => report failure
  | none => return 0

end ShaderIR.CommandLine

def main (arguments : List String) : IO UInt32 := do
  match ShaderIR.CommandLine.parse arguments with
  | .run parsed => ShaderIR.CommandLine.execute parsed
  | .print text =>
    IO.print text
    return 0
  | .misuse =>
    IO.eprintln "error: the arguments are not understood"
    return 2
