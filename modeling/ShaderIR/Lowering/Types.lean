import ShaderIR.Lowering.Error
import ShaderIR.Text.Blank

/-! The type and constant section of a module. Declarations of equal structure are made once;
structs are always declared anew. Ids are handed out in order from 1. -/

namespace ShaderIR.Lowering

open Binary (Op Id Inst)

/-- How a lowered type behaves in instructions. -/
inductive Shape (τ : Type) where
  | void
  | bool
  | int (width : UInt32) (signed : Bool)
  | float (width : UInt32)
  | vector (component : τ) (count : UInt32)
  | struct (members : List τ)
deriving Inhabited

/-- A type declared in a module. Types are the same iff their ids are; the name is for
messages. -/
structure LoweredType where
  id : Id
  name : String
  shape : Shape LoweredType
deriving Inhabited

namespace LoweredType

def isVoid (t : LoweredType) : Bool :=
  match t.shape with
  | .void => true
  | _ => false

/-- The shape that arithmetic depends on: that of the component for a vector. -/
def scalar (t : LoweredType) : Shape LoweredType :=
  match t.shape with
  | .vector component _ => component.shape
  | shape => shape

def isScalar (t : LoweredType) : Bool :=
  match t.shape with
  | .bool | .int .. | .float _ => true
  | _ => false

def same (a b : LoweredType) : Bool :=
  a.id == b.id

end LoweredType

/-- What identifies a shared declaration: all of it but its result id. -/
structure DeclarationKey where
  op : Op
  resultType : Option Id
  operands : List UInt32
deriving DecidableEq, Inhabited

/-- The declaration with the given result id. -/
def DeclarationKey.inst (k : DeclarationKey) (id : Id) : Inst :=
  ⟨k.op, (k.resultType.map Id.val).toList ++ id.val :: k.operands⟩

/-- The number of ids handed out, the shared declarations, and all declarations in order. -/
structure Declarations where
  issued : Nat := 0
  shared : List (DeclarationKey × Id) := []
  code : Array Inst := #[]
deriving Inhabited

namespace Declarations

/-- One more than the largest id handed out. -/
def bound (d : Declarations) : UInt32 :=
  UInt32.ofNat (d.issued + 1)

abbrev M := StateM Declarations

def fresh : M Id := do
  let d ← get
  set { d with issued := d.issued + 1 }
  return ⟨UInt32.ofNat (d.issued + 1)⟩

/-- Declares something that stays apart from equal declarations. -/
def declare (op : Op) (operands : List UInt32) : M Id := do
  let id ← fresh
  modify fun d => { d with code := d.code.push (DeclarationKey.inst ⟨op, none, operands⟩ id) }
  return id

/-- The id of an equal declaration, which is made if there is none. -/
def intern (key : DeclarationKey) : M Id := do
  match (← get).shared.lookup key with
  | some id => return id
  | none =>
    let id ← fresh
    modify fun d => { d with shared := (key, id) :: d.shared, code := d.code.push (key.inst id) }
    return id

def void : M LoweredType := do
  return ⟨← intern ⟨.typeVoid, none, []⟩, "void", .void⟩

def bool : M LoweredType := do
  return ⟨← intern ⟨.typeBool, none, []⟩, "bool", .bool⟩

def int (width : UInt32) (signed : Bool) : M LoweredType := do
  let id ← intern ⟨.typeInt, none, [width, if signed then 1 else 0]⟩
  return ⟨id, (if signed then "i" else "u") ++ toString width.toNat, .int width signed⟩

def float (width : UInt32) : M LoweredType := do
  return ⟨← intern ⟨.typeFloat, none, [width]⟩, "f" ++ toString width.toNat, .float width⟩

def vector (component : LoweredType) (count : UInt32) : M LoweredType := do
  let id ← intern ⟨.typeVector, none, [component.id.val, count]⟩
  return ⟨id, "vec" ++ toString count.toNat ++ "<" ++ component.name ++ ">",
    .vector component count⟩

def struct (members : List LoweredType) : M LoweredType := do
  return ⟨← declare .typeStruct (members.map fun m => m.id.val), "", .struct members⟩

/-- A pointer to a variable of a function, storage class 7. -/
def pointer (pointee : LoweredType) : M Id :=
  intern ⟨.typePointer, none, [7, pointee.id.val]⟩

def function (returnType : LoweredType) (parameters : List LoweredType) : M Id :=
  intern ⟨.typeFunction, none, returnType.id.val :: parameters.map fun t => t.id.val⟩

/-- A 32-bit constant given by its bits. -/
def constant (type : LoweredType) (bits : UInt32) : M Id :=
  intern ⟨.constant, some type.id, [bits]⟩

end Declarations

/-- What the name of a platform representation asks for. -/
inductive Representation where
  | void
  | bool
  | int (signed : Bool)
  | float
  | vector (placeholder : String) (count : UInt32)
deriving DecidableEq, Repr

namespace Representation

def digitValue (c : Char) : Nat :=
  c.toNat - '0'.toNat

/-- A decimal number, with an optional plus sign, as the length of a vector. -/
def vectorLength? (cs : List Char) : Option UInt32 :=
  let digits := match cs with
    | '+' :: rest => rest
    | rest => rest
  if digits.isEmpty || !digits.all Char.isDigit then none
  else
    let n := digits.foldl (fun n c => 10 * n + digitValue c) 0
    if 2 ≤ n && n ≤ 4 then some (UInt32.ofNat n) else none

/-- The name between braces. -/
def placeholder? : List Char → Option String
  | '\x7b' :: rest =>
    match rest.reverse with
    | '\x7d' :: inner => some (String.ofList inner.reverse)
    | _ => none
  | _ => none

/-- Reads names such as `OpTypeFloat 32` or `OpTypeVector {T} 4`. -/
def parse? (name : String) : Option Representation :=
  match (Text.words name.toList).map String.ofList with
  | ["OpTypeVoid"] => some .void
  | ["OpTypeBool"] => some .bool
  | ["OpTypeInt", "32", "0"] => some (.int false)
  | ["OpTypeInt", "32", "1"] => some (.int true)
  | ["OpTypeFloat", "32"] => some .float
  | ["OpTypeVector", component, count] =>
    match vectorLength? count.toList, placeholder? component.toList with
    | some n, some p => some (.vector p n)
    | _, _ => none
  | _ => none

end Representation

end ShaderIR.Lowering
