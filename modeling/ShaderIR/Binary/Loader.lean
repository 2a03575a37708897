import ShaderIR.Binary.Module
import ShaderIR.Binary.Reader

/-! Loading of modules from words, instruction by instruction. -/

namespace ShaderIR.Binary

inductive MalformedCause where
  | decoding (fault : DecodeFault)
  | structural (fault : StructureFault)
deriving DecidableEq

def MalformedCause.text : MalformedCause → String
  | .decoding fault => fault.message
  | .structural fault => "consumer error: " ++ fault.message

/-- Decodes instructions and adds them to the module until the words end. Every instruction
takes at least one of the `fuel` words. -/
def readInsts : Nat → NumberTypes → (index offset : Nat) → Builder → List UInt32 →
    Except MalformedCause Builder
  | fuel + 1, types, index, offset, b, w :: rest =>
    match decodeInst types index offset w rest with
    | .error e => .error (.decoding e)
    | .ok (i, rest, offset) =>
      match b.add i with
      | .error e => .error (.structural e)
      | .ok b => readInsts fuel (types.track i) (index + 1) offset b rest
  | _, _, _, _, b, _ => .ok b

/-- The part of a version word that holds the major and the minor version. -/
def versionMask : UInt32 := 0x00ffff00

/-- The header that is made for a bound alone. -/
def Header.ofBound (bound : UInt32) : Header :=
  ⟨0x00010600, 0x000f0000, bound, 0⟩

/-- Loads a module. Of the header, the version numbers and the bound are kept. -/
def loadWords (words : List UInt32) : Except MalformedCause (Option Header × Module) :=
  match words with
  | _ :: version :: _ :: bound :: _ :: code =>
    match readInsts code.length [] 1 20 {} code with
    | .error e => .error e
    | .ok b =>
      match b.finish with
      | .error e => .error (.structural e)
      | .ok module =>
        .ok (some { Header.ofBound bound with version := version &&& versionMask }, module)
  | _ => .ok (none, {})

end ShaderIR.Binary
