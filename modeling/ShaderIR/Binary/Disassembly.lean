import ShaderIR.Binary.Loader
import ShaderIR.Decimal.Shortest
import ShaderIR.Text.Quoted

/-! The text form of modules. -/

namespace ShaderIR.Binary

def generatorName (generator : UInt32) : String :=
  match generator.toNat / 0x10000 with
  | 0 => "The Khronos Group"
  | 1 => "LunarG"
  | 2 => "Valve"
  | 3 => "Codeplay"
  | 4 => "NVIDIA"
  | 5 => "ARM"
  | 6 => "LLVM/SPIR-V Translator"
  | 7 => "SPIR-V Tools Assembler"
  | 8 => "Glslang"
  | 9 => "Qualcomm"
  | 10 => "AMD"
  | 11 => "Intel"
  | 12 => "Imagination"
  | 13 => "Shaderc"
  | 14 => "spiregg"
  | 15 => "rspirv"
  | _ => "Unknown"

def Header.lines (h : Header) : List String :=
  let (major, minor) := h.versionNumbers
  ["; SPIR-V", "; Version: " ++ toString major ++ "." ++ toString minor,
    "; Generator: " ++ generatorName h.generator, "; Bound: " ++ toString h.bound.toNat]

def idText (n : UInt32) : String :=
  "%" ++ toString n.toNat

def Value.text : Value → String
  | .id n | .scope n => idText n
  | .literal n => toString n.toNat
  | .wideLiteral n => toString n.toNat
  | .string s => Text.quote s
  | .enumerant e n => (e.valueName? n.toNat).getD (toString n.toNat)

/-- A number of `size` values in two's complement. -/
def signedText (n size : Nat) : String :=
  if 2 * n < size then toString n else "-" ++ toString (size - n)

/-- Text of a number that is read as its type says. -/
def NumberKind.text : NumberKind → Value → String
  | .float, .literal bits => Decimal.single.text bits.toNat
  | .float, .wideLiteral bits => Decimal.double.text bits.toNat
  | .signed, .literal bits => signedText bits.toNat 0x100000000
  | .signed, .wideLiteral bits => signedText bits.toNat 0x10000000000000000
  | _, value => value.text

def Decoded.operandTexts (i : Decoded) (types : NumberTypes) : List String :=
  match i.op, types.find? i with
  | .constant, some type => i.operands.map type.kind.text
  | _, _ => i.operands.map Value.text

def Decoded.line (i : Decoded) (types : NumberTypes) : String :=
  let operands := i.operandTexts types
  let space := if operands.isEmpty then "" else " "
  let result := match i.result with
    | some id => idText id ++ " = "
    | none => ""
  let resultType := match i.resultType with
    | some id => "  " ++ idText id ++ space
    | none => ""
  result ++ "Op" ++ i.op.name ++ resultType ++ space ++ " ".intercalate operands

def Module.disassemble (header : Header) (m : Module) : String :=
  let types := NumberTypes.ofDeclarations m.globals.toList
  "\n".intercalate (header.lines ++ m.instructions.map fun i => i.line types)

/-- The library of this project. -/
def Library.standard : Library MalformedCause Decoded Module where
  load := loadWords
  newHeader := Header.ofBound
  instructions := Module.instructions
  functionInstructions := Module.functionInstructions
  view := id
  disassemble := Module.disassemble
  faultText := MalformedCause.text

end ShaderIR.Binary
