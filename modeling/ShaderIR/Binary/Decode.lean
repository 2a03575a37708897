import ShaderIR.Binary.Grammar
import ShaderIR.Binary.Name
import ShaderIR.Text.Utf8

/-! Decoding of single instructions. A cursor stands in the words of a module and may not go
past the words of the instruction it is in. -/

namespace ShaderIR.Binary

/-- An operand of a decoded instruction. -/
inductive Value where
  | id (n : UInt32)
  | scope (n : UInt32)
  | literal (n : UInt32)
  | wideLiteral (n : UInt64)
  | string (s : String)
  | enumerant (e : Enumeration) (n : UInt32)
deriving DecidableEq, Inhabited

/-- An operand of one word. -/
def Value.ofWord : OperandKind → UInt32 → Value
  | .id, w => .id w
  | .scope, w => .scope w
  | _, w => .literal w

structure Decoded where
  op : Op
  resultType : Option UInt32 := none
  result : Option UInt32 := none
  operands : List Value := []
deriving DecidableEq, Inhabited

namespace Decoded

/-- The ids an instruction uses, its own result not counted. -/
def references (i : Decoded) : List UInt32 :=
  i.resultType.toList ++ i.operands.filterMap fun
    | .id n => some n
    | _ => none

end Decoded

/-- How the bits of a number are read. -/
inductive NumberKind where
  | float
  | signed
  | unsigned
deriving DecidableEq, Repr

structure NumberType where
  kind : NumberKind
  width : UInt32
deriving DecidableEq, Repr

/-- In how many words numbers of the type are written, for the widths there are. -/
def NumberType.wordCount? (t : NumberType) : Option Nat :=
  if t.width = 64 then some 2
  else if t.width = 32 || t.width = 16 || (t.width = 8 && t.kind != .float) then some 1
  else none

/-- The number types that ids stand for, the latest declaration first. -/
abbrev NumberTypes := List (UInt32 × NumberType)

namespace NumberTypes

def find? (types : NumberTypes) (i : Decoded) : Option NumberType :=
  i.resultType.bind fun id => types.lookup id

/-- A number type is known by its id, and a value has the type it is declared with. -/
def track (types : NumberTypes) (i : Decoded) : NumberTypes :=
  match i.op, i.result, i.operands with
  | .typeInt, some id, [.literal width, .literal signedness] =>
    (id, ⟨if signedness == 1 then .signed else .unsigned, width⟩) :: types
  | .typeFloat, some id, [.literal width] => (id, ⟨.float, width⟩) :: types
  | _, some id, _ =>
    match types.find? i with
    | some type => (id, type) :: types
    | none => types
  | _, none, _ => types

/-- The types after all declarations. A constant may stand before its type, and of two types
with one id the later counts. -/
def ofDeclarations (is : List Decoded) : NumberTypes :=
  is.foldl track []

/-- In how many words the number in a constant is written; one if its type is not known. -/
def wordCount? (types : NumberTypes) (i : Decoded) : Option Nat :=
  match types.find? i with
  | some type => type.wordCount?
  | none => some 1

end NumberTypes

/-- Why the operands of an instruction cannot be decoded. Positions are byte offsets. -/
inductive OperandFault where
  | endOfStream (offset : Nat)
  | wordLimit (offset : Nat)
  | unknownValue (value : UInt32) (e : Enumeration) (offset : Nat)
  | badString (offset : Nat) (fault : Option Text.Utf8Fault)
deriving DecidableEq

def OperandFault.message : OperandFault → String
  | .endOfStream offset => "expected more bytes in the stream at index " ++ toString offset
  | .wordLimit offset => "reached word limit at index " ++ toString offset
  | .unknownValue value e offset =>
    "unknown value " ++ toString value.toNat ++ " for operand kind " ++ e.name ++ " at index " ++
      toString offset
  | .badString offset fault =>
    "cannot decode string at index " ++ toString offset ++
      (fault.elim "" fun f => ": " ++ f.message)

/-- Why the next instruction cannot be decoded; instructions are counted from 1. -/
inductive DecodeFault where
  | zeroLength (index offset : Nat)
  | unknownOpcode (code index offset : Nat)
  | missingOperand (index offset : Nat)
  | extraOperand (index offset : Nat)
  | unsupportedType (index offset : Nat)
  | operand (fault : OperandFault)
deriving DecidableEq

namespace DecodeFault

def place (index offset : Nat) : String :=
  "instruction #" ++ toString index ++ " at offset " ++ toString offset

def message : DecodeFault → String
  | .zeroLength index offset => "zero word count found for " ++ place index offset
  | .unknownOpcode code index offset =>
    "unknown opcode (" ++ toString code ++ ") for " ++ place index offset
  | .missingOperand index offset => "expected more operands for " ++ place index offset
  | .extraOperand index offset => "found extra operands for " ++ place index offset
  | .unsupportedType index offset => "unsupported type for " ++ place index offset
  | .operand fault => "operand decoding error: " ++ fault.message

end DecodeFault

/-- The words that follow, how many of them belong to the instruction, and the byte offset. -/
structure Cursor where
  rest : List UInt32
  limit : Nat
  offset : Nat
deriving DecidableEq

namespace Cursor

def next (c : Cursor) : Except OperandFault (UInt32 × Cursor) :=
  if c.limit = 0 then .error (.wordLimit c.offset)
  else
    match c.rest with
    | [] => .error (.endOfStream c.offset)
    | w :: rest => .ok (w, ⟨rest, c.limit - 1, c.offset + 4⟩)

/-- The bytes of a word, least significant first. -/
def lowFirst (w : UInt32) : List UInt8 :=
  [w.toUInt8, (w >>> 8).toUInt8, (w >>> 16).toUInt8, (w >>> 24).toUInt8]

/-- A literal string: the bytes up to the first zero byte, and the word that holds it. -/
def string (c : Cursor) : Except OperandFault (String × Cursor) :=
  if c.rest.length < c.limit then .error (.endOfStream c.offset)
  else
    let bytes := (c.rest.take c.limit).flatMap lowFirst
    let text := bytes.takeWhile (· != 0)
    if text.length = bytes.length then .error (.wordLimit (c.offset + 4 * c.limit))
    else
      match String.fromUTF8? ⟨text.toArray⟩ with
      | none => .error (.badString c.offset (Text.Utf8.fault? text))
      | some s =>
        let used := text.length / 4 + 1
        .ok (s, ⟨c.rest.drop used, c.limit - used, c.offset + 4 * used⟩)

/-- The operands that belong to a named value, each of one word. -/
def parameters : List OperandKind → Cursor → Except OperandFault (List Value × Cursor)
  | [], c => .ok ([], c)
  | kind :: kinds, c => do
    let (w, c) ← c.next
    let (rest, c) ← parameters kinds c
    return (.ofWord kind w :: rest, c)

/-- A number of one or two words, the low word first. -/
def number (words : Nat) (c : Cursor) : Except OperandFault (Value × Cursor) := do
  let (low, c) ← c.next
  if words < 2 then return (.literal low, c)
  let (high, c) ← c.next
  return (.wideLiteral (high.toUInt64 <<< 32 ||| low.toUInt64), c)

/-- A named value and the operands that belong to it. -/
def enumerant (e : Enumeration) (c : Cursor) : Except OperandFault (List Value × Cursor) := do
  let (w, after) ← c.next
  if (e.valueName? w.toNat).isNone then throw (.unknownValue w e c.offset)
  let (rest, after) ← parameters (e.parameters w.toNat) after
  return (.enumerant e w :: rest, after)

/-- Reads an operand of the given kind into a partly decoded instruction. -/
def operand (i : Decoded) (kind : OperandKind) (c : Cursor) :
    Except OperandFault (Decoded × Cursor) := do
  match kind with
  | .resultType => let (w, c) ← c.next; return ({ i with resultType := some w }, c)
  | .result => let (w, c) ← c.next; return ({ i with result := some w }, c)
  | .id | .scope | .literal =>
    let (w, c) ← c.next
    return ({ i with operands := i.operands ++ [.ofWord kind w] }, c)
  | .string => let (s, c) ← c.string; return ({ i with operands := i.operands ++ [.string s] }, c)
  | .enumerant e =>
    let (values, c) ← c.enumerant e
    return ({ i with operands := i.operands ++ values }, c)

def ofOperand {α : Type} : Except OperandFault α → Except DecodeFault α
  | .ok a => .ok a
  | .error e => .error (.operand e)

/-- Reads operands of a kind until the words of the instruction are used up; each takes at
least one of the `fuel` words. -/
def operands (kind : OperandKind) : Nat → Decoded → Cursor → Except DecodeFault (Decoded × Cursor)
  | 0, i, c => .ok (i, c)
  | fuel + 1, i, c =>
    if c.limit = 0 then .ok (i, c)
    else do
      let (i, c) ← ofOperand (operand i kind c)
      operands kind fuel i c

/-- Fills the places of a layout in order. -/
def fill (types : NumberTypes) (index : Nat) :
    List Slot → Decoded → Cursor → Except DecodeFault (Decoded × Cursor)
  | [], i, c => .ok (i, c)
  | .one kind :: rest, i, c =>
    if c.limit = 0 then .error (.missingOperand index c.offset)
    else do
      let (i, c) ← ofOperand (operand i kind c)
      fill types index rest i c
  | .optional kind :: rest, i, c =>
    if c.limit = 0 then .ok (i, c)
    else do
      let (i, c) ← ofOperand (operand i kind c)
      fill types index rest i c
  | .many kind :: _, i, c => operands kind c.limit i c
  | .number :: rest, i, c =>
    if c.limit = 0 then .error (.missingOperand index c.offset)
    else
      match types.wordCount? i with
      | none => .error (.unsupportedType index c.offset)
      | some words => do
        let (value, c) ← ofOperand (number words c)
        fill types index rest { i with operands := i.operands ++ [value] } c

end Cursor

/-- Decodes the instruction that starts with word `w` at a byte offset; `rest` follows it. -/
def decodeInst (types : NumberTypes) (index offset : Nat) (w : UInt32) (rest : List UInt32) :
    Except DecodeFault (Decoded × List UInt32 × Nat) := do
  let length := w.toNat / 0x10000
  let code := w.toNat % 0x10000
  if length = 0 then throw (.zeroLength index offset)
  match Op.ofCode? code with
  | none => throw (.unknownOpcode code index offset)
  | some op =>
    let (i, c) ← Cursor.fill types index op.layout { op } ⟨rest, length - 1, offset + 4⟩
    if c.limit != 0 then throw (.extraOperand index c.offset)
    return (i, c.rest, c.offset)

end ShaderIR.Binary
