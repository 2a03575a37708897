import ShaderIR.Proofs.WellTyped

/-! What bodies and modules compute. A body works on a store of typed variables; the code of a
module works on named values and on the variables of the function that runs. Both take the meaning
of arithmetic, and the contents of variables before they are written, as parameters. -/

namespace ShaderIR

namespace Semantics

open Binary (NumberKind)

inductive Value where
  | bool (b : Bool)
  | word (bits : UInt32)
  | composite (parts : List Value)
deriving Inhabited

namespace Value

/-- A component or member. -/
def part? : Value → Nat → Option Value
  | .composite parts, k => parts[k]?
  | _, _ => none

/-- The value with exactly one component or member replaced. -/
def setPart? : Value → Nat → Value → Option Value
  | .composite parts, k, new =>
    if k < parts.length then some (.composite (parts.set k new)) else none
  | _, _, _ => none

/-- The value at the end of a path of positions. -/
def at? (v : Value) : List Nat → Option Value
  | [] => some v
  | k :: path => (v.part? k).bind fun part => part.at? path

/-- The value with what is at the end of a path replaced. -/
def setAt? (v : Value) : List Nat → Value → Option Value
  | [], new => some new
  | k :: path, new =>
    (v.part? k).bind fun part => (part.setAt? path new).bind fun part' => v.setPart? k part'

end Value

/-- A result is undefined, or it was not reached within the depth of calls allowed. -/
inductive Fault where
  | undefined
  | tooDeep
deriving DecidableEq

abbrev Result := Except Fault

def defined {α : Type} : Option α → Result α
  | some a => .ok a
  | none => .error .undefined

@[simp] theorem defined_none_bind {α β : Type} (f : α → Result β) :
    (defined none >>= f) = .error .undefined := rfl

@[simp] theorem defined_some_bind {α β : Type} (a : α) (f : α → Result β) :
    (defined (some a) >>= f) = f a := rfl

/-- An interpretation of the arithmetic on values. It may leave results undefined. -/
structure Arithmetic where
  floatNegate : Value → Option Value
  integerNegate : Value → Option Value
  floatAdd : Value → Value → Option Value
  integerAdd : Value → Value → Option Value
  floatSubtract : Value → Value → Option Value
  integerSubtract : Value → Value → Option Value
  floatMultiply : Value → Value → Option Value
  integerMultiply : Value → Value → Option Value
  floatDivide : Value → Value → Option Value
  signedDivide : Value → Value → Option Value
  unsignedDivide : Value → Value → Option Value
  floatModulo : Value → Value → Option Value
  signedModulo : Value → Value → Option Value
  unsignedModulo : Value → Value → Option Value
  floatRemainder : Value → Value → Option Value
  signedRemainder : Value → Value → Option Value

namespace Arithmetic

/-- What an opcode computes on numbers of a kind. Remainder and modulo of unsigned numbers
agree. -/
def ofOpcode (a : Arithmetic) : Opcode → NumberKind → List Value → Option Value
  | .negate, .float, [x] => a.floatNegate x
  | .negate, _, [x] => a.integerNegate x
  | .add, .float, [x, y] => a.floatAdd x y
  | .add, _, [x, y] => a.integerAdd x y
  | .subtract, .float, [x, y] => a.floatSubtract x y
  | .subtract, _, [x, y] => a.integerSubtract x y
  | .multiply, .float, [x, y] => a.floatMultiply x y
  | .multiply, _, [x, y] => a.integerMultiply x y
  | .divide, .float, [x, y] => a.floatDivide x y
  | .divide, .signed, [x, y] => a.signedDivide x y
  | .divide, .unsigned, [x, y] => a.unsignedDivide x y
  | .modulo, .float, [x, y] => a.floatModulo x y
  | .modulo, .signed, [x, y] => a.signedModulo x y
  | .modulo, .unsigned, [x, y] => a.unsignedModulo x y
  | .remainder, .float, [x, y] => a.floatRemainder x y
  | .remainder, .signed, [x, y] => a.signedRemainder x y
  | .remainder, .unsigned, [x, y] => a.unsignedModulo x y
  | _, _, _ => none

/-- What an operation of a module computes. -/
def ofOp (a : Arithmetic) : Binary.Op → List Value → Option Value
  | .fNegate, [x] => a.floatNegate x
  | .sNegate, [x] => a.integerNegate x
  | .fAdd, [x, y] => a.floatAdd x y
  | .iAdd, [x, y] => a.integerAdd x y
  | .fSub, [x, y] => a.floatSubtract x y
  | .iSub, [x, y] => a.integerSubtract x y
  | .fMul, [x, y] => a.floatMultiply x y
  | .iMul, [x, y] => a.integerMultiply x y
  | .fDiv, [x, y] => a.floatDivide x y
  | .sDiv, [x, y] => a.signedDivide x y
  | .uDiv, [x, y] => a.unsignedDivide x y
  | .fMod, [x, y] => a.floatModulo x y
  | .sMod, [x, y] => a.signedModulo x y
  | .uMod, [x, y] => a.unsignedModulo x y
  | .fRem, [x, y] => a.floatRemainder x y
  | .sRem, [x, y] => a.signedRemainder x y
  | _, _ => none

end Arithmetic

/-- The meaning of arithmetic, and what a variable holds before it is written: it depends on the
call it belongs to, given by the positions of the calls that lead there, and on its number. -/
structure Setting where
  arithmetic : Arithmetic
  initial : List Nat → Nat → Value

/-- The kind of the numbers of a scalar representation. -/
def representedKind? : Lowering.Representation → Option NumberKind
  | .int signed => some (if signed then .signed else .unsigned)
  | .float => some .float
  | _ => none

/-- The representation that the platform has for a type, and the bindings of its parameters. -/
def representation? (p : Program) (ty : Ty) : Option (Lowering.Representation × Substitution) :=
  match p.construct ty with
  | .ok i =>
    match i.representation? with
    | some (some name) => (Lowering.Representation.parse? name).map fun r => (r, i.substitution)
    | _ => none
  | .error _ => none

/-- The kind of the numbers of a type, or of its components if it is a vector. -/
def numberKind? (p : Program) (ty : Ty) : Option NumberKind :=
  match representation? p ty with
  | some (.vector placeholder _, bindings) =>
    (bindings.get? placeholder).bind fun component =>
      (representation? p component).bind fun r => representedKind? r.1
  | some (r, _) => representedKind? r
  | none => none

/-- The variables of a body in order, and the number of calls made so far. -/
structure Store where
  cells : List (Ty × Value)
  calls : Nat

namespace Store

/-- The variable that an operand names. -/
def read? (st : Store) : Option Operand → Option (Ty × Value)
  | some (.variable n) => st.cells[n.toNat]?
  | _ => none

def write? (st : Store) (o : Option Operand) (v : Value) : Option Store :=
  match o with
  | some (.variable n) =>
    st.cells[n.toNat]?.map fun old =>
      { st with cells := st.cells.set n.toNat (old.1, v) }
  | _ => none

/-- A new variable with its initial contents. -/
def define (st : Store) (ty : Ty) (v : Value) : Store :=
  { st with cells := st.cells ++ [(ty, v)] }

def called (st : Store) : Store :=
  { st with calls := st.calls + 1 }

end Store

/-- The position that a value selects. -/
def position? : Value → Option Nat
  | .word n => some n.toNat
  | _ => none

abbrev operand? (i : Instruction) (slot : Nat) : Option Operand :=
  i.operands[slot]?

/-- An instruction that is not a call and does not end the body. -/
def plainStep? (σ : Setting) (p : Program) (path : List Nat) (i : Instruction) (st : Store) :
    Option Store :=
  match i.opcode with
  | .negate => do
    let x ← st.read? (operand? i 1)
    let kind ← numberKind? p x.1
    st.write? (operand? i 0) (← σ.arithmetic.ofOpcode i.opcode kind [x.2])
  | .add | .subtract | .multiply | .divide | .modulo | .remainder => do
    let x ← st.read? (operand? i 1)
    let y ← st.read? (operand? i 2)
    let kind ← numberKind? p x.1
    st.write? (operand? i 0) (← σ.arithmetic.ofOpcode i.opcode kind [x.2, y.2])
  | .define =>
    match operand? i 0 with
    | some (.type ty) => some (st.define ty (σ.initial path st.cells.length))
    | _ => none
  | .load => do
    let x ← st.read? (operand? i 1)
    st.write? (operand? i 0) x.2
  | .loadUInt32 =>
    match operand? i 1 with
    | some (.uint32 bits) => st.write? (operand? i 0) (.word bits)
    | _ => none
  | .loadFloat32 =>
    match operand? i 1 with
    | some (.float32 bits) => st.write? (operand? i 0) (.word bits)
    | _ => none
  | .loadElement => do
    let x ← st.read? (operand? i 1)
    let index ← st.read? (operand? i 2)
    st.write? (operand? i 0) (← x.2.part? (← position? index.2))
  | .setElement => do
    let old ← st.read? (operand? i 0)
    let index ← st.read? (operand? i 1)
    let x ← st.read? (operand? i 2)
    st.write? (operand? i 0) (← old.2.setPart? (← position? index.2) x.2)
  | .loadField =>
    match operand? i 2 with
    | some (.field n) => do
      let x ← st.read? (operand? i 1)
      st.write? (operand? i 0) (← x.2.part? n.toNat)
    | _ => none
  | .setField =>
    match operand? i 1 with
    | some (.field n) => do
      let old ← st.read? (operand? i 0)
      let x ← st.read? (operand? i 2)
      st.write? (operand? i 0) (← old.2.setPart? n.toNat x.2)
    | _ => none
  | .call | .ret | .retValue => none

/-- The method that a call runs. -/
def callee? (p : Program) : Option Operand → Option Method
  | some (.method r) =>
    match p.resolve r with
    | .ok target => target.concrete?.map LocatedMethod.method
    | .error _ => none
  | _ => none

/-- The result of a call goes to its slot, if there is one. -/
def receive? (st : Store) (slot : Option Operand) (result : Option Value) : Option Store :=
  match slot, result with
  | some .void, _ => some st
  | some (.variable n), some v => st.write? (some (.variable n)) v
  | _, _ => none

/-- How methods are called: on a path, with copies of the arguments. -/
abbrev Caller (κ : Type) := List Nat → κ → List Value → Result (Option Value)

def callStep (p : Program) (path : List Nat) (call : Caller Method) (i : Instruction)
    (st : Store) : Result Store := do
  let m ← defined (callee? p (operand? i 0))
  let arguments ← defined ((i.operands.drop 2).mapM fun o => (st.read? (some o)).map Prod.snd)
  let result ← call (st.calls :: path) m arguments
  defined (receive? st.called (operand? i 1) result)

/-- An instruction that does not end the body. -/
def bodyStep (σ : Setting) (p : Program) (path : List Nat) (call : Caller Method)
    (i : Instruction) (st : Store) : Result Store :=
  match i.opcode with
  | .call => callStep p path call i st
  | _ => defined (plainStep? σ p path i st)

/-- Runs the rest of a body. A return ends it, and so does its end. -/
def runBody (σ : Setting) (p : Program) (path : List Nat) (call : Caller Method) :
    List Instruction → Store → Result (Option Value)
  | [], _ => .ok none
  | i :: rest, st =>
    match i.opcode with
    | .ret => .ok none
    | .retValue => (defined (st.read? (operand? i 0))).map fun x => some x.2
    | _ => bodyStep σ p path call i st >>= runBody σ p path call rest

/-- Runs a method on its receiver, if it has one, and its parameters. -/
def runMethod (σ : Setting) (p : Program) : Nat → Caller Method
  | 0, _, _, _ => .error .tooDeep
  | depth + 1, path, m, arguments =>
    if arguments.length = (Lowering.receivedTypes m).length then
      runBody σ p path (runMethod σ p depth) m.body
        ⟨(Lowering.receivedTypes m).zip arguments, 0⟩
    else .error .undefined

/-! The code of a module. -/

open Binary (Inst Op definition?)

/-- What an id stands for while a function runs; the result of a call may be nothing. -/
inductive Datum where
  | value (v : Value)
  | pointer (cell : Nat) (path : List Nat)
  | nothing

def Datum.ofResult : Option Value → Datum
  | some v => .value v
  | none => .nothing

/-- The ids bound so far, the latest first, the variables of the function, the arguments that are
not bound to a parameter yet, and the number of calls made so far. -/
structure Frame where
  names : List (UInt32 × Datum)
  memory : List Value
  arguments : List Value
  calls : Nat

def constant? (code : List Inst) (x : UInt32) : Option Datum :=
  match definition? code x with
  | some ⟨.constant, [_, _, bits]⟩ => some (.value (.word bits))
  | _ => none

namespace Frame

def datum? (fr : Frame) (code : List Inst) (x : UInt32) : Option Datum :=
  (fr.names.lookup x).or (constant? code x)

def value? (fr : Frame) (code : List Inst) (x : UInt32) : Option Value :=
  match fr.datum? code x with
  | some (.value v) => some v
  | _ => none

def bind (fr : Frame) (x : UInt32) (d : Datum) : Frame :=
  { fr with names := (x, d) :: fr.names }

/-- What a pointer points to. -/
def load? (fr : Frame) (code : List Inst) (x : UInt32) : Option Value :=
  match fr.datum? code x with
  | some (.pointer cell path) => fr.memory[cell]?.bind fun v => v.at? path
  | _ => none

def store? (fr : Frame) (code : List Inst) (x : UInt32) (new : Value) : Option Frame :=
  match fr.datum? code x with
  | some (.pointer cell path) =>
    fr.memory[cell]?.bind fun v =>
      (v.setAt? path new).map fun v' => { fr with memory := fr.memory.set cell v' }
  | _ => none

/-- A pointer to a part of what a pointer points to. -/
def access? (fr : Frame) (code : List Inst) (base index : UInt32) : Option Datum :=
  match fr.datum? code base with
  | some (.pointer cell path) =>
    ((fr.value? code index).bind position?).map fun k => .pointer cell (path ++ [k])
  | _ => none

def called (fr : Frame) : Frame :=
  { fr with calls := fr.calls + 1 }

end Frame

/-- An instruction that neither computes numbers, nor calls, nor ends the function. -/
def memoryStep? (σ : Setting) (code : List Inst) (path : List Nat) (i : Inst) (fr : Frame) :
    Option Frame :=
  match i.op, i.operands with
  | .functionParameter, [_, x] =>
    match fr.arguments with
    | a :: rest => some { fr.bind x (.value a) with arguments := rest }
    | [] => none
  | .label, [_] => if fr.arguments.isEmpty then some fr else none
  | .variable, [_, x, _] =>
    some { fr.bind x (.pointer fr.memory.length []) with
      memory := fr.memory ++ [σ.initial path fr.memory.length] }
  | .load, [_, x, pointer] => (fr.load? code pointer).map fun v => fr.bind x (.value v)
  | .store, [pointer, x] => (fr.value? code x).bind fun v => fr.store? code pointer v
  | .accessChain, [_, x, base, index] => (fr.access? code base index).map fun d => fr.bind x d
  | _, _ => none

def arithmeticStep? (σ : Setting) (code : List Inst) (i : Inst) (fr : Frame) : Option Frame :=
  match i.operands with
  | _ :: x :: operands => do
    let values ← operands.mapM (fr.value? code)
    let v ← σ.arithmetic.ofOp i.op values
    return fr.bind x (.value v)
  | _ => none

/-- Calls a function on the values of its arguments. -/
def functionCallStep (code : List Inst) (path : List Nat) (call : Caller UInt32) (i : Inst)
    (fr : Frame) : Result Frame :=
  match i.operands with
  | _ :: x :: callee :: arguments => do
    let values ← defined (arguments.mapM (fr.value? code))
    let result ← call (fr.calls :: path) callee values
    return fr.called.bind x (.ofResult result)
  | _ => .error .undefined

/-- Runs instructions up to the first return. -/
def runCode (σ : Setting) (code : List Inst) (path : List Nat) (call : Caller UInt32) :
    List Inst → Frame → Result (Option Value)
  | [], _ => .error .undefined
  | i :: rest, fr =>
    match i.op with
    | .ret => .ok none
    | .returnValue => (defined (i.operands.head?.bind (fr.value? code))).map some
    | .functionCall => functionCallStep code path call i fr >>= runCode σ code path call rest
    | op =>
      if op.kinds.isEmpty then
        defined (memoryStep? σ code path i fr) >>= runCode σ code path call rest
      else defined (arithmeticStep? σ code i fr) >>= runCode σ code path call rest

/-- The instructions between the first and the last of a function. -/
def functionBody? (code : List Inst) (x : UInt32) : Option (List Inst) :=
  match code.dropWhile fun i => !(i.op == .function && i.result? == some x) with
  | _ :: rest => some (rest.takeWhile fun i => i.op != .functionEnd)
  | [] => none

/-- Runs a function of a module. -/
def runFunction (σ : Setting) (code : List Inst) : Nat → Caller UInt32
  | 0, _, _, _ => .error .tooDeep
  | depth + 1, path, x, arguments =>
    match functionBody? code x with
    | some body => runCode σ code path (runFunction σ code depth) body ⟨[], [], arguments, 0⟩
    | none => .error .undefined

end Semantics

end ShaderIR
