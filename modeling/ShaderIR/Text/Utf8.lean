/-! Where a sequence of bytes stops to be the UTF-8 form of a text. -/

namespace ShaderIR.Text

/-- The first bytes that are no character, and how many of them are wrong. Without a number the
bytes end within a character. -/
structure Utf8Fault where
  start : Nat
  wrong : Option Nat
deriving DecidableEq, Repr

def Utf8Fault.message (f : Utf8Fault) : String :=
  match f.wrong with
  | some n =>
    "invalid utf-8 sequence of " ++ toString n ++ " bytes from index " ++ toString f.start
  | none => "incomplete utf-8 byte sequence from index " ++ toString f.start

namespace Utf8

/-- Both ends belong to the range. -/
structure ByteRange where
  first : UInt8
  last : UInt8
deriving DecidableEq, Repr

def ByteRange.holds (r : ByteRange) (b : UInt8) : Bool :=
  r.first ≤ b && b ≤ r.last

def continuation : ByteRange := ⟨0x80, 0xbf⟩

/-- The well-formed sequences: a range for the first byte and one for each byte after it. -/
def forms : List (ByteRange × List ByteRange) :=
  [(⟨0x00, 0x7f⟩, []),
    (⟨0xc2, 0xdf⟩, [continuation]),
    (⟨0xe0, 0xe0⟩, [⟨0xa0, 0xbf⟩, continuation]),
    (⟨0xe1, 0xec⟩, [continuation, continuation]),
    (⟨0xed, 0xed⟩, [⟨0x80, 0x9f⟩, continuation]),
    (⟨0xee, 0xef⟩, [continuation, continuation]),
    (⟨0xf0, 0xf0⟩, [⟨0x90, 0xbf⟩, continuation, continuation]),
    (⟨0xf1, 0xf3⟩, [continuation, continuation, continuation]),
    (⟨0xf4, 0xf4⟩, [⟨0x80, 0x8f⟩, continuation, continuation])]

/-- What stands at the front of a sequence: a character of some length, a start of one that a
wrong byte follows, or a start of one that ends early. -/
inductive Front where
  | character (length : Nat)
  | wrong (length : Nat)
  | incomplete
deriving DecidableEq, Repr

/-- Compares bytes with their ranges; `n` bytes of the character stand before them. -/
def follow : List ByteRange → Nat → List UInt8 → Front
  | [], n, _ => .character n
  | _ :: _, _, [] => .incomplete
  | r :: rs, n, b :: bs => if r.holds b then follow rs (n + 1) bs else .wrong n

def front (b : UInt8) (bs : List UInt8) : Front :=
  match forms.find? fun form => form.1.holds b with
  | some (_, rs) => follow rs 1 bs
  | none => .wrong 1

/-- Looks for a fault from byte `start` on. Every character takes at least one of the `fuel`
bytes. -/
def faultFrom : Nat → Nat → List UInt8 → Option Utf8Fault
  | fuel + 1, start, b :: bs =>
    match front b bs with
    | .character n => faultFrom fuel (start + n) (bs.drop (n - 1))
    | .wrong n => some ⟨start, some n⟩
    | .incomplete => some ⟨start, none⟩
  | _, _, _ => none

def fault? (bytes : List UInt8) : Option Utf8Fault :=
  faultFrom bytes.length 0 bytes

end Utf8

end ShaderIR.Text
