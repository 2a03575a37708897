import ShaderIR.Proofs.Declaring
import ShaderIR.Proofs.ModuleReading

/-! Code that is read back: the declarations that lowering makes, the instructions that it puts
into blocks, and functions of one block. -/

namespace ShaderIR

namespace Binary

/-- The instruction is the written form of one that can be read back. -/
def Inst.Readable (i : Inst) : Prop :=
  ∃ d : Decoded, d.Readable ∧ d.inst = i

theorem exists_decoded {is : List Inst} (h : ∀ i ∈ is, i.Readable) :
    ∃ ds : List Decoded, (∀ d ∈ ds, d.Readable) ∧ ds.map Decoded.inst = is := by
  induction is with
  | nil => exact ⟨[], by simp, rfl⟩
  | cons i is ih =>
    obtain ⟨⟨d, hd, rfl⟩, his⟩ := List.forall_mem_cons.mp h
    obtain ⟨ds, hds, rfl⟩ := ih his
    exact ⟨d :: ds, List.forall_mem_cons.mpr ⟨hd, hds⟩, rfl⟩

/-- An instruction that declares no number type is read back if its operands fill its layout. -/
theorem readable_of_fits (op : Op) (resultType result : Option UInt32) {slots : List Slot}
    {values : List Value}
    (hlayout : op.layout = Decoded.resultSlots ⟨op, resultType, result, []⟩ ++ slots)
    (h : Fits slots values) (hop : op ∈ Op.all ∧ op ≠ .typeInt ∧ op ≠ .typeFloat) :
    Inst.Readable ⟨op, resultType.toList ++ result.toList ++ values.flatMap Value.words⟩ := by
  refine ⟨⟨op, resultType, result, values⟩, ⟨⟨slots, hlayout, h⟩, ?_, hop.1⟩, rfl⟩
  rintro (hint | hfloat)
  · exact absurd hint hop.2.1
  · exact absurd hfloat hop.2.2

/-- The instruction is read back, into the block that is open. -/
structure Inst.InBlock (i : Inst) : Prop where
  op : i.op.inBlock = true
  readable : i.Readable

end Binary

namespace Lowering

open Binary (Op Id Inst IsFunction readable_of_fits)

theorem Declares.readable {i : Inst} (h : Declares i) : i.Readable := by
  cases h with
  | void id => exact readable_of_fits .typeVoid none (some id) rfl .nil (by decide)
  | bool id => exact readable_of_fits .typeBool none (some id) rfl .nil (by decide)
  | int id signedness =>
    exact ⟨⟨.typeInt, none, some id, [.literal 32, .literal signedness]⟩,
      ⟨⟨_, rfl, .word rfl 32 (.word rfl signedness .nil)⟩, fun _ => rfl, Op.mem_all (by simp)⟩,
      rfl⟩
  | float id =>
    exact ⟨⟨.typeFloat, none, some id, [.literal 32]⟩,
      ⟨⟨_, rfl, .word rfl 32 .nil⟩, fun _ => rfl, Op.mem_all (by simp)⟩, rfl⟩
  | vector id component count =>
    exact readable_of_fits .typeVector none (some id) rfl
      (.word rfl component (.word rfl count .nil)) (by decide)
  | struct id members =>
    have hread := readable_of_fits .typeStruct none (some id) rfl (.many rfl members) (by decide)
    rwa [Binary.Value.flatMap_words_ofWord] at hread
  | pointer id pointee =>
    exact readable_of_fits .typePointer none (some id) rfl
      (.enumerant (by decide) [] rfl (.word rfl pointee .nil)) (by decide)
  | function id returnType parameters =>
    have hread := readable_of_fits .typeFunction none (some id) rfl
      (.word rfl returnType (.many rfl parameters)) (by decide)
    rwa [List.flatMap_cons, Binary.Value.flatMap_words_ofWord] at hread
  | constant type id bits =>
    exact readable_of_fits .constant (some type) (some id) rfl (.number bits .nil) (by decide)

/-! The instructions of blocks. -/

theorem inBlock_loadInst (type : LoweredType) (value pointer : Id) :
    (loadInst type value pointer).InBlock :=
  ⟨rfl, readable_of_fits .load (some type.id.val) (some value.val) rfl
    (.word rfl pointer.val (.absent _)) (by decide)⟩

theorem inBlock_storeTo (pointer value : Id) : (storeTo pointer value).InBlock :=
  ⟨rfl, readable_of_fits .store none none rfl
    (.word rfl pointer.val (.word rfl value.val (.absent _))) (by decide)⟩

theorem inBlock_accessInst (pointerType pointer base index : Id) :
    (accessInst pointerType pointer base index).InBlock :=
  ⟨rfl, readable_of_fits .accessChain (some pointerType.val) (some pointer.val) rfl
    (.word rfl base.val (.many rfl [index.val])) (by decide)⟩

theorem inBlock_functionCall (type result callee : Id) (arguments : List UInt32) :
    (Inst.ofIds .functionCall [type, result, callee] arguments).InBlock := by
  refine ⟨rfl, ?_⟩
  have hread := readable_of_fits .functionCall (some type.val) (some result.val) rfl
    (.word rfl callee.val (.many rfl arguments)) (by decide)
  rwa [List.flatMap_cons, Binary.Value.flatMap_words_ofWord] at hread

theorem inBlock_variable (type pointer : Id) :
    (Inst.ofIds .variable [type, pointer] [7]).InBlock :=
  ⟨rfl, readable_of_fits .variable (some type.val) (some pointer.val) rfl
    (.enumerant (by decide) [] rfl (.absent _)) (by decide)⟩

theorem inBlock_of_arithmeticOp? {opcode : Opcode} {shape : Shape LoweredType} {op : Op}
    (h : arithmeticOp? opcode shape = some op) :
    op.inBlock = true ∧ op ∈ Op.all ∧ op ≠ .typeInt ∧ op ≠ .typeFloat := by
  unfold arithmeticOp? at h
  split at h <;> simp_all <;> subst h <;> decide

theorem inBlock_negate {shape : Shape LoweredType} {op : Op}
    (h : arithmeticOp? .negate shape = some op) (type result value : Id) :
    (Inst.ofIds op [type, result, value] []).InBlock := by
  obtain ⟨hblock, hop⟩ := inBlock_of_arithmeticOp? h
  exact ⟨hblock, readable_of_fits op (some type.val) (some result.val)
    (layout_of_arithmeticOp? h) (.word rfl value.val .nil) hop⟩

theorem inBlock_binary {opcode : Opcode} {shape : Shape LoweredType} {op : Op}
    (ho : opcode ≠ .negate) (h : arithmeticOp? opcode shape = some op)
    (type result left right : Id) :
    (Inst.ofIds op [type, result, left, right] []).InBlock := by
  obtain ⟨hblock, hop⟩ := inBlock_of_arithmeticOp? h
  have hlayout := layout_of_arithmeticOp? h
  rw [if_neg ho] at hlayout
  exact ⟨hblock, readable_of_fits op (some type.val) (some result.val) hlayout
    (.word rfl left.val (.word rfl right.val .nil)) hop⟩

theorem inBlock_loadInsts (vs : List Variable) (values : List Id) :
    ∀ i ∈ loadInsts vs values, i.InBlock := by
  intro i hi
  rw [loadInsts, ← List.map_uncurry_zip_eq_zipWith] at hi
  obtain ⟨v, _, rfl⟩ := List.mem_map.mp hi
  exact inBlock_loadInst v.1.type v.2 v.1.pointer

/-- Code for a block that is open. -/
def InBlocks (code : List Inst) : Prop :=
  ∀ i ∈ code, i.InBlock

theorem inBlocks_append {code rest : List Inst} (h : InBlocks code) (hrest : InBlocks rest) :
    InBlocks (code ++ rest) :=
  List.forall_mem_append.mpr ⟨h, hrest⟩

/-- Code that ends the block that it stands in, and not before its last instruction. -/
def ClosesBlock (code : List Inst) : Prop :=
  ∃ block terminator, code = block ++ [terminator] ∧ InBlocks block ∧
    terminator.op.isTerminator = true ∧ terminator.Readable

theorem closesBlock_append {code rest : List Inst} (h : InBlocks code) (hrest : ClosesBlock rest) :
    ClosesBlock (code ++ rest) := by
  obtain ⟨block, terminator, rfl, hblock, hterminator⟩ := hrest
  exact ⟨code ++ block, terminator, (List.append_assoc ..).symm, inBlocks_append h hblock,
    hterminator⟩

theorem closesBlock_ret : ClosesBlock [⟨.ret, []⟩] :=
  ⟨[], _, rfl, by simp [InBlocks], rfl, readable_of_fits .ret none none rfl .nil (by decide)⟩

theorem closesBlock_returnValue (value : Id) : ClosesBlock [.ofIds .returnValue [value] []] :=
  ⟨[], _, rfl, by simp [InBlocks], rfl,
    readable_of_fits .returnValue none none rfl (.word rfl value.val .nil) (by decide)⟩

/-- Code that is read back as a function. -/
structure ReadsAsFunction (code : List Inst) : Prop where
  isFunction : IsFunction (code.map Inst.op)
  readable : ∀ i ∈ code, i.Readable

/-- A head, parameters, a label and one block. -/
theorem readsAsFunction (returnType id functionType label : Id) {parameters body : List Inst}
    (hparameters : ∀ i ∈ parameters, i.op = .functionParameter ∧ i.Readable)
    (hbody : ClosesBlock body) :
    ReadsAsFunction (.ofIds .function [returnType, id] [0, functionType.val] :: parameters ++
      .ofIds .label [label] [] :: body ++ [⟨.functionEnd, []⟩]) := by
  obtain ⟨block, terminator, rfl, hblock, hterminator, hreadable⟩ := hbody
  have hhead : (Inst.ofIds .function [returnType, id] [0, functionType.val]).Readable :=
    readable_of_fits .function (some returnType.val) (some id.val) rfl
      (.enumerant (by decide) [] rfl (.word rfl functionType.val .nil)) (by decide)
  have hlabel : (Inst.ofIds .label [label] []).Readable :=
    readable_of_fits .label none (some label.val) rfl .nil (by decide)
  have hend : Inst.Readable ⟨.functionEnd, []⟩ :=
    readable_of_fits .functionEnd none none rfl .nil (by decide)
  constructor
  · simp only [List.cons_append, List.map_cons, List.map_append, List.map_nil, List.append_assoc]
    refine .intro ?_ ?_ hterminator
    · intro op hop
      obtain ⟨i, hi, rfl⟩ := List.mem_map.mp hop
      exact (hparameters i hi).1
    · intro op hop
      obtain ⟨i, hi, rfl⟩ := List.mem_map.mp hop
      exact (hblock i hi).op
  · intro i hi
    simp only [List.cons_append, List.append_assoc, List.mem_cons, List.mem_append,
      List.not_mem_nil, or_false, false_or] at hi
    rcases hi with rfl | hi | rfl | hi | rfl | rfl
    · exact hhead
    · exact (hparameters i hi).2
    · exact hlabel
    · exact (hblock i hi).readable
    · exact hreadable
    · exact hend

/-! Declarations. -/

/-- All declarations are of the known forms. -/
def Declarations.Forms (d : Declarations) : Prop :=
  ∀ i ∈ d.code.toList, Declares i

/-- The action keeps to the known forms. -/
def Declarations.Emits {α : Type} (action : Declarations.M α) : Prop :=
  ∀ d : Declarations, d.Forms → (action.run d).2.Forms

namespace Declarations

theorem Forms.push {d : Declarations} (hd : d.Forms) {i : Inst} (hi : Declares i) (n : Nat)
    (shared : List (DeclarationKey × Id)) : Forms ⟨n, shared, d.code.push i⟩ := by
  intro j hj
  rw [Array.toList_push, List.mem_append, List.mem_singleton] at hj
  rcases hj with hj | rfl
  · exact hd j hj
  · exact hi

theorem emits_fresh : Emits fresh :=
  fun _ hd => hd

theorem emits_declare (op : Op) (operands : List UInt32)
    (h : ∀ id, Declares (DeclarationKey.inst ⟨op, none, operands⟩ id)) :
    Emits (declare op operands) :=
  fun _ hd => hd.push (h _) _ _

theorem emits_intern (key : DeclarationKey) (h : ∀ id, Declares (key.inst id)) :
    Emits (intern key) := by
  intro d hd
  rw [intern_run]
  cases d.shared.lookup key with
  | some id => exact hd
  | none => exact hd.push (h _) _ _

theorem emits_void : Emits void :=
  emits_intern ⟨.typeVoid, none, []⟩ fun _ => .void _

theorem emits_bool : Emits bool :=
  emits_intern ⟨.typeBool, none, []⟩ fun _ => .bool _

theorem emits_int (signed : Bool) : Emits (int 32 signed) :=
  emits_intern ⟨.typeInt, none, [32, if signed then 1 else 0]⟩ fun _ => .int _ _

theorem emits_float : Emits (float 32) :=
  emits_intern ⟨.typeFloat, none, [32]⟩ fun _ => .float _

theorem emits_vector (component : LoweredType) (count : UInt32) : Emits (vector component count) :=
  emits_intern ⟨.typeVector, none, [component.id.val, count]⟩ fun _ => .vector _ _ _

theorem emits_struct (members : List LoweredType) : Emits (struct members) :=
  emits_declare .typeStruct (members.map fun m : LoweredType => m.id.val) fun _ => .struct _ _

theorem emits_pointer (pointee : LoweredType) : Emits (pointer pointee) :=
  emits_intern _ fun _ => .pointer _ _

theorem emits_function (returnType : LoweredType) (parameters : List LoweredType) :
    Emits (function returnType parameters) :=
  emits_intern _ fun _ => .function _ _ _

theorem emits_constant (type : LoweredType) (bits : UInt32) : Emits (constant type bits) :=
  emits_intern _ fun _ => .constant _ _ _

end Declarations

end Lowering

end ShaderIR
