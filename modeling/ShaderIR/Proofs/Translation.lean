import ShaderIR.Proofs.LoweredTypes

/-! The code that stands for an instruction, a body and a function, as a relation. It depends on
the session only through the declarations of the module and the functions built before, and holds
on as these grow. -/

namespace ShaderIR

namespace Program

/-- A call of the body resolves to the method. -/
def CalledIn (p : Program) (body : List Instruction) (callee : LocatedMethod) : Prop :=
  ∃ i ∈ body, ∃ r target, i.opcode = .call ∧ i.operands[0]? = some (.method r) ∧
    p.resolve r = .ok target ∧ target.concrete? = some callee

/-- The edges of the call graph. -/
def Calls (p : Program) (m callee : LocatedMethod) : Prop :=
  p.CalledIn m.method.body callee

theorem CalledIn.mono {p : Program} {body body' : List Instruction} {callee : LocatedMethod}
    (h : p.CalledIn body callee) (hsub : body ⊆ body') : p.CalledIn body' callee := by
  obtain ⟨i, hi, hcall⟩ := h
  exact ⟨i, hsub hi, hcall⟩

end Program

namespace Lowering

open Binary (Op Id Inst results)

/-- The instruction that loads a value. -/
def loadInst (type : LoweredType) (value pointer : Id) : Inst :=
  .ofIds .load [type.id, value, pointer] []

/-- The declaration of a pointer to variables of a function. -/
def pointerInst (pointer pointee : Id) : Inst :=
  ⟨.typePointer, [pointer.val, 7, pointee.val]⟩

def constantInst (type constant : Id) (bits : UInt32) : Inst :=
  ⟨.constant, [type.val, constant.val, bits]⟩

def accessInst (pointerType pointer base index : Id) : Inst :=
  .ofIds .accessChain [pointerType, pointer, base, index] []

@[simp] theorem result?_loadInst (type : LoweredType) (value pointer : Id) :
    (loadInst type value pointer).result? = some value.val := rfl

@[simp] theorem result?_storeTo (pointer value : Id) : (storeTo pointer value).result? = none := rfl

@[simp] theorem result?_accessInst (pointerType pointer base index : Id) :
    (accessInst pointerType pointer base index).result? = some pointer.val := rfl

@[simp] theorem result?_functionCall (type result callee : Id) (arguments : List UInt32) :
    (Inst.ofIds .functionCall [type, result, callee] arguments).result? = some result.val := rfl

/-- The operands of an arithmetic instruction: one for a negation, else two. -/
theorem layout_of_arithmeticOp? {opcode : Opcode} {shape : Shape LoweredType} {op : Op}
    (h : arithmeticOp? opcode shape = some op) :
    op.layout = .one .resultType :: .one .result ::
      if opcode = .negate then [.one .id] else [.one .id, .one .id] := by
  unfold arithmeticOp? at h
  split at h <;> simp_all [Op.layout] <;> subst h <;> rfl

theorem result?_of_arithmeticOp? {opcode : Opcode} {shape : Shape LoweredType} {op : Op}
    (h : arithmeticOp? opcode shape = some op) (type result : Id) (operands : List Id) :
    (Inst.ofIds op (type :: result :: operands) []).result? = some result.val := by
  simp [Inst.result?, Inst.ofIds, layout_of_arithmeticOp? h]

/-- The loads of several variables under the given ids. -/
def loadInsts (vs : List Variable) (values : List Id) : List Inst :=
  List.zipWith (fun v value => loadInst v.type value v.pointer) vs values

theorem results_loadInsts {vs : List Variable} {values : List Id}
    (h : values.length = vs.length) : results (loadInsts vs values) = values.map Id.val := by
  induction vs generalizing values with
  | nil =>
    have he : values = [] := List.length_eq_zero_iff.mp h
    simp [he, loadInsts]
  | cons v vs ih =>
    cases values with
    | nil => simp at h
    | cons value values =>
      have hh := ih (show values.length = vs.length by simpa using h)
      simp only [loadInsts] at hh
      simp [loadInsts, hh]

/-- The operand names a variable that is defined. -/
def Scope.Reads (c : Scope) (i : Instruction) (slot : Nat) (v : Variable) : Prop :=
  ∃ n, i.operands[slot]? = some (.variable n) ∧ (c.declared.take c.defined)[n.toNat]? = some v

/-- The place of a call's result: none, or a variable. -/
def Scope.Receives (c : Scope) (i : Instruction) : Option Variable → Prop
  | none => i.operands[1]? = some .void
  | some v => c.Reads i 1 v

/-- The operands from `slot` on name the given variables, of the types of the parameters. -/
def Scope.Passes (c : Scope) (i : Instruction) : Nat → List LoweredType → List Variable → Prop
  | _, [], [] => True
  | slot, parameter :: parameters, v :: vs =>
    c.Reads i slot v ∧ parameter.id = v.type.id ∧ c.Passes i (slot + 1) parameters vs
  | _, _, _ => False

/-- The immediate operand of a constant load and the shape it is loaded into. -/
inductive Immediate (i : Instruction) : Shape LoweredType → UInt32 → Prop
  | uint32 {bits : UInt32} (ho : i.opcode = .loadUInt32)
      (hi : i.operands[1]? = some (.uint32 bits)) : Immediate i (.int 32 false) bits
  | float32 {bits : UInt32} (ho : i.opcode = .loadFloat32)
      (hi : i.operands[1]? = some (.float32 bits)) : Immediate i (.float 32) bits

/-- The code of an instruction that neither defines a variable nor ends its body. -/
inductive Translates (p : Program) (code : List Inst) (earlier : List Function) (c : Scope)
    (i : Instruction) : List Inst → Prop
  | negate {dst src : Variable} {op : Op} {value result : Id} (ho : i.opcode = .negate)
      (hd : c.Reads i 0 dst) (hs : c.Reads i 1 src) (ht : dst.type.id = src.type.id)
      (hop : arithmeticOp? i.opcode src.type.scalar = some op) :
      Translates p code earlier c i
        [loadInst src.type value src.pointer, .ofIds op [dst.type.id, result, value] [],
          storeTo dst.pointer result]
  | binary {dst lhs rhs : Variable} {op : Op} {left right result : Id} (ho : i.opcode ≠ .negate)
      (hd : c.Reads i 0 dst) (hl : c.Reads i 1 lhs) (hr : c.Reads i 2 rhs)
      (ht : lhs.type.id = rhs.type.id) (ht' : dst.type.id = lhs.type.id)
      (hop : arithmeticOp? i.opcode lhs.type.scalar = some op) :
      Translates p code earlier c i
        [loadInst lhs.type left lhs.pointer, loadInst rhs.type right rhs.pointer,
          .ofIds op [dst.type.id, result, left, right] [], storeTo dst.pointer result]
  | call {r : MethodRef} {target : MethodInstance} {m : LocatedMethod} {f : Function}
      {slot : Option Variable} {arguments : List Variable} {values : List Id} {result : Id}
      (ho : i.opcode = .call) (hr : i.operands[0]? = some (.method r))
      (ht : p.resolve r = .ok target) (hm : target.concrete? = some m) (hf : f ∈ earlier)
      (hid : f.method.id = m.id) (hs : c.Receives i slot)
      (hn : i.operands.length - 2 = f.parameters.length) (ha : c.Passes i 2 f.parameters arguments)
      (hv : values.length = arguments.length)
      (hret : ∀ v, slot = some v → f.returnType.id = v.type.id) :
      Translates p code earlier c i
        (loadInsts arguments values ++
          .ofIds .functionCall [f.returnType.id, result, f.id] (values.map Id.val) ::
            (slot.map fun v => storeTo v.pointer result).toList)
  | copy {dst src : Variable} {value : Id} (ho : i.opcode = .load) (hd : c.Reads i 0 dst)
      (hs : c.Reads i 1 src) (ht : dst.type.id = src.type.id) :
      Translates p code earlier c i
        [loadInst src.type value src.pointer, storeTo dst.pointer value]
  | constant {dst : Variable} {bits : UInt32} {constant : Id} (hd : c.Reads i 0 dst)
      (hi : Immediate i dst.type.shape bits) (hk : constantInst dst.type.id constant bits ∈ code) :
      Translates p code earlier c i [storeTo dst.pointer constant]
  | loadElement {dst src index : Variable} {component : LoweredType} {count width : UInt32}
      {signed : Bool} {pointerType position element value : Id} (ho : i.opcode = .loadElement)
      (hd : c.Reads i 0 dst) (hs : c.Reads i 1 src) (hi : c.Reads i 2 index)
      (hv : src.type.shape = .vector component count) (ht : component.id = dst.type.id)
      (hw : index.type.shape = .int width signed)
      (hp : pointerInst pointerType component.id ∈ code) :
      Translates p code earlier c i
        [loadInst index.type position index.pointer,
          accessInst pointerType element src.pointer position,
          loadInst component value element, storeTo dst.pointer value]
  | setElement {dst src index : Variable} {component : LoweredType} {count width : UInt32}
      {signed : Bool} {pointerType position element value : Id} (ho : i.opcode = .setElement)
      (hd : c.Reads i 0 dst) (hi : c.Reads i 1 index) (hs : c.Reads i 2 src)
      (hv : dst.type.shape = .vector component count) (ht : component.id = src.type.id)
      (hw : index.type.shape = .int width signed)
      (hp : pointerInst pointerType component.id ∈ code) :
      Translates p code earlier c i
        [loadInst index.type position index.pointer,
          accessInst pointerType element dst.pointer position,
          loadInst src.type value src.pointer, storeTo element value]
  | loadField {dst src : Variable} {field : UInt32} {members : List LoweredType}
      {member : LoweredType} {pointerType uint position pointer value : Id}
      (ho : i.opcode = .loadField) (hd : c.Reads i 0 dst) (hs : c.Reads i 1 src)
      (hf : i.operands[2]? = some (.field field)) (hv : src.type.shape = .struct members)
      (hm : members[field.toNat]? = some member) (ht : member.id = dst.type.id)
      (hp : pointerInst pointerType member.id ∈ code)
      (hu : (Shape.int 32 false).key.inst uint ∈ code)
      (hk : constantInst uint position field ∈ code) :
      Translates p code earlier c i
        [accessInst pointerType pointer src.pointer position, loadInst member value pointer,
          storeTo dst.pointer value]
  | setField {dst src : Variable} {field : UInt32} {members : List LoweredType}
      {member : LoweredType} {pointerType uint position pointer value : Id}
      (ho : i.opcode = .setField) (hd : c.Reads i 0 dst) (hs : c.Reads i 2 src)
      (hf : i.operands[1]? = some (.field field)) (hv : dst.type.shape = .struct members)
      (hm : members[field.toNat]? = some member) (ht : member.id = src.type.id)
      (hp : pointerInst pointerType member.id ∈ code)
      (hu : (Shape.int 32 false).key.inst uint ∈ code)
      (hk : constantInst uint position field ∈ code) :
      Translates p code earlier c i
        [accessInst pointerType pointer dst.pointer position,
          loadInst src.type value src.pointer, storeTo pointer value]

theorem Translates.mono {p : Program} {code code' : List Inst} {earlier earlier' : List Function}
    {c : Scope} {i : Instruction} {out : List Inst} (hc : code ⊆ code')
    (he : earlier ⊆ earlier') (h : Translates p code earlier c i out) :
    Translates p code' earlier' c i out := by
  cases h with
  | negate ho hd hs ht hop => exact .negate ho hd hs ht hop
  | binary ho hd hl hr ht ht' hop => exact .binary ho hd hl hr ht ht' hop
  | call ho hr ht hm hf hid hs hn ha hv hret =>
    exact .call ho hr ht hm (he hf) hid hs hn ha hv hret
  | copy ho hd hs ht => exact .copy ho hd hs ht
  | constant hd hi hk => exact .constant hd hi (hc hk)
  | loadElement ho hd hs hi hv ht hw hp => exact .loadElement ho hd hs hi hv ht hw (hc hp)
  | setElement ho hd hi hs hv ht hw hp => exact .setElement ho hd hi hs hv ht hw (hc hp)
  | loadField ho hd hs hf hv hm ht hp hu hk =>
    exact .loadField ho hd hs hf hv hm ht (hc hp) (hc hu) (hc hk)
  | setField ho hd hs hf hv hm ht hp hu hk =>
    exact .setField ho hd hs hf hv hm ht (hc hp) (hc hu) (hc hk)

theorem Translates.opcode_ne {p : Program} {code : List Inst} {earlier : List Function} {c : Scope}
    {i : Instruction} {out : List Inst} (h : Translates p code earlier c i out) :
    i.opcode ≠ .define ∧ i.opcode ≠ .ret ∧ i.opcode ≠ .retValue := by
  cases h with
  | binary _ _ _ _ _ _ hop =>
    refine ⟨?_, ?_, ?_⟩ <;>
    · intro ho
      simp [ho, arithmeticOp?] at hop
  | @constant dst _ _ _ hi _ =>
    generalize dst.type.shape = shape at hi
    cases hi <;> simp_all
  | negate ho | call ho | copy ho | loadElement ho | setElement ho | loadField ho | setField ho =>
    simp [ho]

/-- The code of a body from some instruction on. A definition has no code of its own. -/
inductive TranslatesBody (p : Program) (code : List Inst) (earlier : List Function) :
    Scope → List Instruction → List Inst → Prop
  | fallThrough {c : Scope} (hv : c.returnType.isVoid = true) :
      TranslatesBody p code earlier c [] [⟨.ret, []⟩]
  | ret {c : Scope} {i : Instruction} (ho : i.opcode = .ret) (hv : c.returnType.isVoid = true) :
      TranslatesBody p code earlier c [i] [⟨.ret, []⟩]
  | retValue {c : Scope} {i : Instruction} {v : Variable} {value : Id} (ho : i.opcode = .retValue)
      (hr : c.Reads i 0 v) (hv : c.returnType.isVoid = false)
      (ht : c.returnType.id = v.type.id) :
      TranslatesBody p code earlier c [i]
        [loadInst v.type value v.pointer, .ofIds .returnValue [value] []]
  | define {c : Scope} {i : Instruction} {rest : List Instruction} {out : List Inst}
      (ho : i.opcode = .define) (hd : c.defined < c.declared.length)
      (hr : TranslatesBody p code earlier
        { c with defined := c.defined + 1, index := c.index + 1 } rest out) :
      TranslatesBody p code earlier c (i :: rest) out
  | plain {c : Scope} {i : Instruction} {rest : List Instruction} {out outs : List Inst}
      (hi : Translates p code earlier c i out)
      (hr : TranslatesBody p code earlier { c with index := c.index + 1 } rest outs) :
      TranslatesBody p code earlier c (i :: rest) (out ++ outs)

theorem TranslatesBody.mono {p : Program} {code code' : List Inst}
    {earlier earlier' : List Function} {c : Scope} {is : List Instruction} {out : List Inst}
    (hc : code ⊆ code') (he : earlier ⊆ earlier') (h : TranslatesBody p code earlier c is out) :
    TranslatesBody p code' earlier' c is out := by
  induction h with
  | fallThrough hv => exact .fallThrough hv
  | ret ho hv => exact .ret ho hv
  | retValue ho hr hv ht => exact .retValue ho hr hv ht
  | define ho hd _ ih => exact .define ho hd ih
  | plain hi _ ih => exact .plain (hi.mono hc he) ih

/-- The variables that the definitions of a body ask for, in order. -/
inductive Locals (p : Program) : List Instruction → List Variable → Prop
  | nil : Locals p [] []
  | define {ty : Ty} {v : Variable} {rest : List Instruction} {vs : List Variable}
      (ht : Lowers p ty v.type) (hr : Locals p rest vs) :
      Locals p (.define ty :: rest) (v :: vs)
  | skip {i : Instruction} {rest : List Instruction} {vs : List Variable}
      (hi : ∀ ty, i ≠ .define ty) (hr : Locals p rest vs) : Locals p (i :: rest) vs

/-- The types of the variables that a body defines, in order. -/
def definedTypes : List Instruction → List Ty
  | [] => []
  | ⟨.define, [.type ty], _⟩ :: rest => ty :: definedTypes rest
  | _ :: rest => definedTypes rest

theorem definedTypes_cons_of_ne {i : Instruction} (hi : ∀ ty, i ≠ .define ty)
    (rest : List Instruction) : definedTypes (i :: rest) = definedTypes rest := by
  rw [definedTypes.eq_def]
  split
  · rename_i heq
    simp at heq
  · rename_i ty _ _ heq
    exact absurd (List.cons.inj heq).1 (hi ty)
  · rename_i heq
    rw [(List.cons.inj heq).2]

theorem locals_of_forall₂ {p : Program} {is : List Instruction} {vs : List Variable}
    (h : List.Forall₂ (fun ty v => Lowers p ty (Variable.type v)) (definedTypes is) vs) :
    Locals p is vs := by
  induction is generalizing vs with
  | nil =>
    cases h
    exact .nil
  | cons i rest ih =>
    rw [definedTypes.eq_def] at h
    split at h
    · rename_i heq
      simp at heq
    · rename_i ty _ rest' heq
      obtain ⟨rfl, rfl⟩ := List.cons.inj heq
      cases h with
      | cons hty hrest => exact .define hty (ih hrest)
    · rename_i j rest' hne heq
      obtain ⟨rfl, rfl⟩ := List.cons.inj heq
      exact .skip (fun ty hi => hne ty rfl hi) (ih h)

/-- The types of the values that a method is run on: that of the receiver, if it has one, and
those of the parameters. -/
def receivedTypes (m : Method) : List Ty :=
  (if m.isStatic then [] else [m.owner]) ++ m.parameterTypes

/-- What the code of a function consists of besides its signature. Each variable stands with the
id of its pointer type. -/
structure FunctionParts where
  functionType : Id
  passed : List Id
  label : Id
  slots : List (Variable × Id)
  body : List Inst

namespace FunctionParts

def declared (q : FunctionParts) : List Variable :=
  q.slots.map Prod.fst

def parameterInsts (q : FunctionParts) (f : Function) : List Inst :=
  List.zipWith (fun t id => .ofIds .functionParameter [LoweredType.id t, id] []) f.parameters
    q.passed

def variableInsts (q : FunctionParts) : List Inst :=
  q.slots.map fun v => .ofIds .variable [v.2, v.1.pointer] [7]

/-- The stores of the parameters into their variables. -/
def storeInsts (q : FunctionParts) : List Inst :=
  List.zipWith (fun v id => storeTo (Variable.pointer v) id) q.declared q.passed

def headInst (q : FunctionParts) (f : Function) : Inst :=
  .ofIds .function [f.returnType.id, f.id] [0, q.functionType.val]

def labelInst (q : FunctionParts) : Inst :=
  .ofIds .label [q.label] []

/-- The instructions between the first and the last of the function. -/
def inner (q : FunctionParts) (f : Function) : List Inst :=
  q.parameterInsts f ++ (q.labelInst :: (q.variableInsts ++ (q.storeInsts ++ q.body)))

/-- The scope in which the first instruction of the body is lowered. -/
def scope (q : FunctionParts) (f : Function) : Scope :=
  { method := f.method.method, returnType := f.returnType, declared := q.declared
    defined := f.parameters.length, index := 0 }

end FunctionParts

/-- The code of a function is put together from the given parts. -/
structure Function.Built (p : Program) (code : List Inst) (earlier : List Function) (f : Function)
    (q : FunctionParts) : Prop where
  code_eq : f.code = q.headInst f :: (q.inner f ++ [⟨.functionEnd, []⟩])
  returnType : f.returnType.Declared code
  returnLowers : LowersReturn p f.method.method.returnType f.returnType
  parameters : ∀ t ∈ f.parameters, t.Declared code
  parameterLowers : List.Forall₂ (Lowers p) (receivedTypes f.method.method) f.parameters
  functionType :
    ⟨.typeFunction, q.functionType.val :: f.returnType.id.val :: f.parameters.map fun t => t.id.val⟩
      ∈ code
  passed : q.passed.length = f.parameters.length
  slots : ∀ v ∈ q.slots, v.1.type.Declared code ∧ pointerInst v.2 v.1.type.id ∈ code
  spilled : (q.declared.take f.parameters.length).map Variable.type = f.parameters
  locals : Locals p f.method.method.body (q.declared.drop f.parameters.length)
  body : TranslatesBody p code earlier (q.scope f) f.method.method.body q.body

theorem Function.Built.mono {p : Program} {code code' : List Inst}
    {earlier earlier' : List Function} {f : Function} {q : FunctionParts} (hc : code ⊆ code')
    (he : earlier ⊆ earlier') (h : f.Built p code earlier q) : f.Built p code' earlier' q where
  code_eq := h.code_eq
  returnType := h.returnType.mono hc
  returnLowers := h.returnLowers
  parameters := fun t ht => (h.parameters t ht).mono hc
  parameterLowers := h.parameterLowers
  functionType := hc h.functionType
  passed := h.passed
  slots := fun v hv => ⟨(h.slots v hv).1.mono hc, hc (h.slots v hv).2⟩
  spilled := h.spilled
  locals := h.locals
  body := h.body.mono hc he

/-- The types of a function are the lowered forms of those that its method asks for. Parameters and
variables have values, and a kernel has neither parameters nor a result. -/
structure Function.Sourced (lowered : Ty → LoweredType → Prop) (f : Function) (q : FunctionParts) :
    Prop where
  returnType : ∀ ty, f.method.method.returnType = some ty → lowered ty f.returnType
  parameters : ∃ receiver others, f.parameters = receiver ++ others ∧
    List.Forall₂ lowered (if f.method.method.isStatic then [] else [f.method.method.owner])
      receiver ∧
    List.Forall₂ (fun ty t => lowered ty t ∧ t.isVoid = false) f.method.method.parameterTypes others
  locals : List.Forall₂ (fun ty v => lowered ty (Variable.type v) ∧ v.type.isVoid = false)
    (definedTypes f.method.method.body) (q.declared.drop f.parameters.length)
  kernel : f.method.method.kernelSize?.isSome = true →
    f.returnType.isVoid = true ∧ f.parameters = []

theorem Function.Sourced.mono {lowered lowered' : Ty → LoweredType → Prop} {f : Function}
    {q : FunctionParts} (hl : ∀ ty t, lowered ty t → lowered' ty t) (h : f.Sourced lowered q) :
    f.Sourced lowered' q where
  returnType := fun ty hty => hl _ _ (h.returnType ty hty)
  parameters := by
    obtain ⟨receiver, others, he, hreceiver, hothers⟩ := h.parameters
    exact ⟨receiver, others, he, hreceiver.imp hl, hothers.imp fun ty t ht => ⟨hl ty t ht.1, ht.2⟩⟩
  locals := h.locals.imp fun ty v hv => ⟨hl ty v.type hv.1, hv.2⟩
  kernel := h.kernel

end Lowering

end ShaderIR
