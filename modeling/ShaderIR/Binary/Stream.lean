import ShaderIR.Binary.Opcode

/-! Streams of 32-bit words. An instruction is written as a word that holds its length and
opcode, followed by its operands; one whose length does not fit in 16 bits is left out and
remembered. -/

namespace ShaderIR.Binary

/-- A result id of a module. -/
structure Id where
  val : UInt32
deriving DecidableEq, Repr, Inhabited

def Id.text (id : Id) : String :=
  "%" ++ toString id.val.toNat

/-- An instruction before encoding. -/
structure Inst where
  op : Op
  operands : List UInt32
deriving DecidableEq, Inhabited

namespace Inst

/-- Number of words of the encoded instruction. -/
def length (i : Inst) : Nat :=
  i.operands.length + 1

/-- The length fits in the upper half of a word. -/
def fits (i : Inst) : Bool :=
  i.length < 0x10000

def words (i : Inst) : List UInt32 :=
  UInt32.ofNat (i.length * 0x10000 + i.op.code) :: i.operands

/-- An instruction whose operands are ids followed by literals. -/
def ofIds (op : Op) (ids : List Id) (literals : List UInt32) : Inst :=
  ⟨op, ids.map Id.val ++ literals⟩

end Inst

/-- Words written so far and the first instruction that was too long to write. -/
structure Stream where
  words : Array UInt32 := #[]
  oversized : Option (Op × Nat) := none
deriving DecidableEq, Inhabited

namespace Stream

def empty : Stream := {}

/-- Appends a raw word, such as a field of a header. -/
def word (s : Stream) (w : UInt32) : Stream :=
  { s with words := s.words.push w }

def emit (s : Stream) (i : Inst) : Stream :=
  if i.fits then { s with words := s.words ++ i.words }
  else { s with oversized := s.oversized.or (some (i.op, i.length)) }

def emitAll (s : Stream) (is : List Inst) : Stream :=
  is.foldl emit s

def extend (s other : Stream) : Stream :=
  ⟨s.words ++ other.words, s.oversized.or other.oversized⟩

def ofInsts (is : List Inst) : Stream :=
  empty.emitAll is

def size (s : Stream) : Nat :=
  s.words.size

end Stream

/-- The bytes of a word, most significant first. -/
def wordBytes (w : UInt32) : List UInt8 :=
  [(w >>> 24).toUInt8, (w >>> 16).toUInt8, (w >>> 8).toUInt8, w.toUInt8]

def Stream.bytes (s : Stream) : List UInt8 :=
  s.words.toList.flatMap wordBytes

end ShaderIR.Binary
