import ShaderIR.Decimal.Shortest
import ShaderIR.Ty.Substitution

/-! Instructions of a method body: an opcode and its operands. The variables of a body are
numbered: the receiver and the parameters first, then one for every `def`. -/

namespace ShaderIR

inductive Opcode where
  | negate
  | add
  | subtract
  | multiply
  | divide
  | modulo
  | remainder
  | call
  | ret
  | retValue
  | define
  | load
  | loadUInt32
  | loadFloat32
  | loadElement
  | setElement
  | loadField
  | setField
deriving DecidableEq, Repr, Inhabited

/-- How many operands an opcode takes. -/
inductive Arity where
  | exactly (n : Nat)
  | atLeast (n : Nat)
deriving DecidableEq, Repr

namespace Arity

def admits : Arity → Nat → Bool
  | .exactly n, count => count == n
  | .atLeast n, count => n ≤ count

def text : Arity → String
  | .exactly n => toString n
  | .atLeast n => "at least " ++ toString n

end Arity

namespace Opcode

/-- A call takes the callee, the result slot and one operand per argument. -/
def arity : Opcode → Arity
  | .ret => .exactly 0
  | .retValue | .define => .exactly 1
  | .negate | .load | .loadUInt32 | .loadFloat32 => .exactly 2
  | .add | .subtract | .multiply | .divide | .modulo | .remainder
  | .loadElement | .setElement | .loadField | .setField => .exactly 3
  | .call => .atLeast 2

def mnemonic : Opcode → String
  | .negate => "neg"
  | .add => "add"
  | .subtract => "sub"
  | .multiply => "mul"
  | .divide => "div"
  | .modulo => "mod"
  | .remainder => "rem"
  | .call => "call"
  | .ret => "ret"
  | .retValue => "ret.val"
  | .define => "def"
  | .load => "load"
  | .loadUInt32 => "load.u32"
  | .loadFloat32 => "load.f32"
  | .loadElement => "load.elem"
  | .setElement => "set.elem"
  | .loadField => "load.field"
  | .setField => "set.field"

end Opcode

/-- A symbolic reference to a method: its owner, its position among the owner's methods, and
the type arguments it is instantiated with. -/
structure MethodRef where
  owner : Ty
  index : Nat
  name : String
  typeArguments : List Ty := []
deriving DecidableEq, Inhabited

namespace MethodRef

def subst (s : Substitution) (r : MethodRef) : MethodRef :=
  { r with owner := r.owner.subst s, typeArguments := Ty.substList s r.typeArguments }

/-- Written `Owner::Name#index`, with `<A, B>` after it if there are type arguments. -/
def text (r : MethodRef) : String :=
  r.owner.text ++ "::" ++ r.name ++ "#" ++ toString r.index ++
    if r.typeArguments.isEmpty then "" else "<" ++ Ty.textList r.typeArguments ++ ">"

end MethodRef

/-- An operand; a float is given by its bits, `void` is an unused result slot. -/
inductive Operand where
  | variable (v : UInt32)
  | type (ty : Ty)
  | method (ref : MethodRef)
  | uint32 (value : UInt32)
  | float32 (bits : UInt32)
  | field (index : UInt32)
  | void
deriving DecidableEq, Inhabited

namespace Operand

def subst (s : Substitution) : Operand → Operand
  | .type ty => .type (ty.subst s)
  | .method r => .method (r.subst s)
  | other => other

def text : Operand → String
  | .variable v => "%" ++ toString v.toNat
  | .type ty => ty.text
  | .method r => r.text
  | .uint32 v => toString v.toNat ++ "u"
  | .float32 bits => Decimal.single.text bits.toNat ++ "f"
  | .field i => "." ++ toString i.toNat
  | .void => "_"

end Operand

/-- An opcode with as many operands as it takes. -/
structure Instruction where
  opcode : Opcode
  operands : List Operand
  counted : opcode.arity.admits operands.length = true := by exact of_decide_eq_true rfl
deriving DecidableEq

namespace Instruction

abbrev negate (dst src : UInt32) : Instruction :=
  .mk .negate [.variable dst, .variable src]

abbrev ret : Instruction :=
  .mk .ret []

abbrev retValue (value : UInt32) : Instruction :=
  .mk .retValue [.variable value]

/-- Declares a variable of the type. -/
abbrev define (ty : Ty) : Instruction :=
  .mk .define [.type ty]

abbrev load (dst src : UInt32) : Instruction :=
  .mk .load [.variable dst, .variable src]

abbrev loadUInt32 (dst value : UInt32) : Instruction :=
  .mk .loadUInt32 [.variable dst, .uint32 value]

abbrev loadFloat32 (dst bits : UInt32) : Instruction :=
  .mk .loadFloat32 [.variable dst, .float32 bits]

abbrev loadField (dst src field : UInt32) : Instruction :=
  .mk .loadField [.variable dst, .variable src, .field field]

abbrev setField (dst field value : UInt32) : Instruction :=
  .mk .setField [.variable dst, .field field, .variable value]

instance : Inhabited Instruction := ⟨.ret⟩

/-- Replaces each operand by another one. -/
def mapOperands (f : Operand → Operand) (i : Instruction) : Instruction :=
  ⟨i.opcode, i.operands.map f, by rw [List.length_map]; exact i.counted⟩

@[simp] theorem opcode_mapOperands (f : Operand → Operand) (i : Instruction) :
    (i.mapOperands f).opcode = i.opcode := rfl

@[simp] theorem operands_mapOperands (f : Operand → Operand) (i : Instruction) :
    (i.mapOperands f).operands = i.operands.map f := rfl

/-- The count follows from the opcode and the operands. -/
@[ext] theorem eq_of_operands {i j : Instruction} (hopcode : i.opcode = j.opcode)
    (hoperands : i.operands = j.operands) : i = j := by
  cases i
  cases j
  cases hopcode
  cases hoperands
  rfl

def subst (s : Substitution) (i : Instruction) : Instruction :=
  i.mapOperands (Operand.subst s)

/-- An instruction on three variables, for an opcode that takes three operands. -/
def ofVariables (opcode : Opcode) (dst lhs rhs : UInt32)
    (h : opcode.arity = .exactly 3 := by rfl) : Instruction :=
  ⟨opcode, [.variable dst, .variable lhs, .variable rhs], by rw [h]; rfl⟩

/-- Calls a method and stores its result, if that is asked for. -/
def call (method : MethodRef) (result : Option UInt32) (arguments : List UInt32) : Instruction :=
  ⟨.call, .method method :: (result.elim .void .variable) :: arguments.map .variable,
    by simp [Opcode.arity, Arity.admits]⟩

def text (i : Instruction) : String :=
  if i.operands.isEmpty then i.opcode.mnemonic
  else i.opcode.mnemonic ++ " " ++ ", ".intercalate (i.operands.map Operand.text)

end Instruction

end ShaderIR
