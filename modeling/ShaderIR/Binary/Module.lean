import ShaderIR.Binary.Decode

/-! Modules in memory: the instructions of each section, and functions as lists of blocks.
Instructions are added one by one in any order of sections. -/

namespace ShaderIR.Binary

structure ModuleFunction where
  definition : Decoded
  parameters : Array Decoded := #[]
  /-- Instructions of the finished blocks, labels included. -/
  blocks : Array Decoded := #[]
  ending : Option Decoded := none
deriving Inhabited

namespace ModuleFunction

def instructions (f : ModuleFunction) : List Decoded :=
  f.definition :: f.parameters.toList ++ f.blocks.toList ++ f.ending.toList

end ModuleFunction

structure Module where
  capabilities : Array Decoded := #[]
  memoryModel : Option Decoded := none
  entryPoints : Array Decoded := #[]
  modes : Array Decoded := #[]
  globals : Array Decoded := #[]
  functions : Array ModuleFunction := #[]
deriving Inhabited

namespace Module

/-- All instructions before the functions. -/
def globalInstructions (m : Module) : List Decoded :=
  m.capabilities.toList ++ m.memoryModel.toList ++ m.entryPoints.toList ++ m.modes.toList ++
    m.globals.toList

def functionInstructions (m : Module) : List Decoded :=
  m.functions.toList.flatMap ModuleFunction.instructions

def instructions (m : Module) : List Decoded :=
  m.globalInstructions ++ m.functionInstructions

end Module

/-- How instructions can stand in the wrong place. -/
inductive StructureFault where
  | nestedFunction
  | unclosedFunction
  | strayFunctionEnd
  | strayParameter
  | strayBlock
  | nestedBlock
  | unclosedBlock
  | strayTerminator
  | strayInstruction (op : Op)
deriving DecidableEq

def StructureFault.message : StructureFault → String
  | .nestedFunction => "found nested function"
  | .unclosedFunction => "found unclosed function"
  | .strayFunctionEnd => "found mismatched OpFunctionEnd"
  | .strayParameter => "found function OpFunctionParameter not inside function"
  | .strayBlock => "found block not inside function"
  | .nestedBlock => "found nested block"
  | .unclosedBlock => "found block without terminator"
  | .strayTerminator => "found mismatched terminator"
  | .strayInstruction op => "found instruction `\"" ++ op.name ++ "\"` not inside block"

/-- A module under construction, with the function and the block that are still open. -/
structure Builder where
  module : Module := {}
  function : Option ModuleFunction := none
  block : Option (Array Decoded) := none
deriving Inhabited

namespace Builder

/-- Puts an instruction into the open block. -/
def addToBlock (b : Builder) (i : Decoded) (stray : StructureFault) :
    Except StructureFault Builder :=
  match b.block with
  | some block => .ok { b with block := some (block.push i) }
  | none => .error stray

/-- Closes the open block with a terminator. -/
def closeBlock (b : Builder) (i : Decoded) : Except StructureFault Builder :=
  match b.block, b.function with
  | some block, some f =>
    .ok { b with block := none, function := some { f with blocks := f.blocks ++ block.push i } }
  | _, _ => .error .strayTerminator

def add (b : Builder) (i : Decoded) : Except StructureFault Builder :=
  let m := b.module
  match i.op with
  | .capability => .ok { b with module := { m with capabilities := m.capabilities.push i } }
  | .memoryModel => .ok { b with module := { m with memoryModel := some i } }
  | .entryPoint => .ok { b with module := { m with entryPoints := m.entryPoints.push i } }
  | .executionMode => .ok { b with module := { m with modes := m.modes.push i } }
  | .function =>
    if b.function.isSome then .error .nestedFunction
    else .ok { b with function := some { definition := i } }
  | .functionEnd =>
    match b.function with
    | none => .error .strayFunctionEnd
    | some f =>
      if b.block.isSome then .error .unclosedBlock
      else
        let finished := { f with ending := some i }
        .ok { b with module := { m with functions := m.functions.push finished }, function := none }
  | .functionParameter =>
    match b.function with
    | none => .error .strayParameter
    | some f => .ok { b with function := some { f with parameters := f.parameters.push i } }
  | .label =>
    if b.function.isNone then .error .strayBlock
    else if b.block.isSome then .error .nestedBlock
    else .ok { b with block := some #[i] }
  | op =>
    if op.isDeclaration || (op == .variable && b.function.isNone) then
      .ok { b with module := { m with globals := m.globals.push i } }
    else if op.isTerminator then b.closeBlock i
    else b.addToBlock i (.strayInstruction op)

/-- The module, if nothing is left open. -/
def finish (b : Builder) : Except StructureFault Module :=
  if b.block.isSome then .error .unclosedBlock
  else if b.function.isSome then .error .unclosedFunction
  else .ok b.module

end Builder

end ShaderIR.Binary
