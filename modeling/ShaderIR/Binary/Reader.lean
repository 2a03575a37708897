import ShaderIR.Binary.Decode

/-! Reading of modules from bytes. A module may be written in either byte order; its magic
number tells which. Instructions are decoded by a library, which is given the words of the module
in the right order. -/

namespace ShaderIR.Binary

structure Header where
  version : UInt32
  generator : UInt32
  bound : UInt32
  reserved : UInt32
deriving DecidableEq, Repr, Inhabited

/-- Major and minor version. -/
def Header.versionNumbers (h : Header) : Nat × Nat :=
  (h.version.toNat / 0x10000 % 256, h.version.toNat / 0x100 % 256)

/-- A library that loads modules: what it makes of the words of a module, with the header that it
keeps of them; the header that it makes for a bound alone; the instructions of a module and those
of its functions, in module order; what can be seen of an instruction; the text of a module with
its header; and the texts of its faults. -/
structure Library (ε ι μ : Type) where
  load : List UInt32 → Except ε (Option Header × μ)
  newHeader : UInt32 → Header
  instructions : μ → List ι
  functionInstructions : μ → List ι
  view : ι → Decoded
  disassemble : Header → μ → String
  faultText : ε → String

inductive ReadError (ε : Type) where
  | unaligned (length : Nat)
  | truncated
  | badMagic (word : UInt32)
  | malformed (cause : ε)
deriving DecidableEq

structure ParsedModule (μ : Type) where
  header : Header
  module : μ
deriving Inhabited

/-- Eight lower-case hexadecimal digits. -/
def hexWord (w : UInt32) : String :=
  let digits := Nat.toDigits 16 w.toNat
  String.ofList (List.replicate (8 - digits.length) '0' ++ digits)

def ReadError.message {ε : Type} (faultText : ε → String) : ReadError ε → String
  | .unaligned length => "module length " ++ toString length ++ " is not a multiple of 4"
  | .truncated => "module is shorter than its 5-word header"
  | .badMagic word => "bad magic number 0x" ++ hexWord word
  | .malformed cause => "malformed module: " ++ faultText cause

/-- Four bytes as a word, the first byte highest. -/
def highFirst (a b c d : UInt8) : UInt32 :=
  packBytes d c b a

/-- Groups bytes into words; bytes that do not fill a word are dropped. -/
def wordsOfBytes : List UInt8 → List UInt32
  | a :: b :: c :: d :: rest => highFirst a b c d :: wordsOfBytes rest
  | _ => []

/-- Reverses the bytes of a word. -/
def swapWord (w : UInt32) : UInt32 :=
  packBytes (w >>> 24).toUInt8 (w >>> 16).toUInt8 (w >>> 8).toUInt8 w.toUInt8

def magic : UInt32 := 0x07230203

namespace ParsedModule

variable {ε ι μ : Type} (lib : Library ε ι μ)

/-- Loads a module from its words. The generator and the reserved word are those of the module,
whatever the library keeps of the header. -/
def ofWords (words : List UInt32) : Except (ReadError ε) (ParsedModule μ) :=
  match lib.load words with
  | .error e => .error (.malformed e)
  | .ok (kept, module) =>
    let header := kept.getD (lib.newHeader (words.getD 3 0))
    .ok ⟨{ header with generator := words.getD 2 0, reserved := words.getD 4 0 }, module⟩

/-- Reads a module in either byte order. -/
def parse (bytes : List UInt8) : Except (ReadError ε) (ParsedModule μ) :=
  if bytes.length % 4 != 0 then .error (.unaligned bytes.length)
  else if bytes.length < 20 then .error .truncated
  else
    let words := wordsOfBytes bytes
    let first := words.headD 0
    if first == magic then ofWords lib words
    else if swapWord first == magic then ofWords lib (words.map swapWord)
    else .error (.badMagic first)

/-- Every instruction in module order. -/
def instructions (m : ParsedModule μ) : List ι :=
  lib.instructions m.module

def count (m : ParsedModule μ) (op : Op) : Nat :=
  (m.instructions lib).countP fun i => decide ((lib.view i).op = op)

/-- How often each operation of the grammar occurs, those that do not occur left out. -/
def counts (m : ParsedModule μ) : List (Op × Nat) :=
  (Op.all.map fun op => (op, m.count lib op)).filter fun count => count.2 != 0

/-- The instructions from the first function on. -/
def functionSection (m : ParsedModule μ) : List ι :=
  lib.functionInstructions m.module

def disassemble (m : ParsedModule μ) : String :=
  lib.disassemble m.header m.module

end ParsedModule

end ShaderIR.Binary
