import ShaderIR.Proofs.Declaring

/-! The code that each instruction of a body is lowered to. The results of the code are the ids
that were handed out for it. -/

namespace ShaderIR.Lowering

open Binary (Op Id Inst results)

variable {p : Program} {known : LocatedMethod → Prop} {s : Session} {held : List UInt32}

/-- The types of the variables of a scope are declared. -/
def Scope.Fits (c : Scope) (code : List Inst) : Prop :=
  ∀ v ∈ c.declared, v.type.Declared code

theorem Scope.Reads.mem {c : Scope} {i : Instruction} {slot : Nat} {v : Variable}
    (h : c.Reads i slot v) : v ∈ c.declared := by
  obtain ⟨n, _, hn⟩ := h
  exact List.mem_of_mem_take (List.mem_of_getElem? hn)

theorem Scope.Fits.reads {c : Scope} {code : List Inst} (h : c.Fits code) {i : Instruction}
    {slot : Nat} {v : Variable} (hv : c.Reads i slot v) : v.type.Declared code :=
  h v hv.mem

/-- The types of the variables of a scope have been lowered, and the variables carry values. -/
def Scope.Holds (c : Scope) (known : LocatedMethod → Prop) (s : Session) : Prop :=
  ∀ v ∈ c.declared, s.Carries known v.type ∧ ∃ ty, s.Lowered ty v.type

variable {c : Scope} {i : Instruction}

namespace Scope.Holds

theorem mono {t : Session} (h : c.Holds known s) (hg : s.Grows t) : c.Holds known t := by
  intro v hv
  obtain ⟨hcarries, ty, hty⟩ := h v hv
  exact ⟨hcarries.grow hg, ty, hg.types.ready ty v.type hty⟩

theorem reads (h : c.Holds known s) {slot : Nat} {v : Variable} (hv : c.Reads i slot v) :
    s.Carries known v.type :=
  (h v hv.mem).1

theorem component (h : c.Holds known s) (hs : s.Sound p known held) {slot : Nat} {v : Variable}
    (hv : c.Reads i slot v) {component : LoweredType} {count : UInt32}
    (hshape : v.type.shape = .vector component count) : s.Carries known component := by
  obtain ⟨hcarries, ty, hty⟩ := h v hv.mem
  refine ⟨hcarries.declared.component hshape, .inl ?_⟩
  cases (hs.types ty v.type hty).layer with
  | @scalar _ _ r _ _ _ hscalar =>
    rw [hshape] at hscalar
    cases r <;> simp [Representation.scalarShape?] at hscalar
  | vector _ _ _ _ _ hscalar ht =>
    rw [hshape] at ht
    cases ht
    exact LoweredType.isVoid_of_isScalar hscalar
  | struct _ _ ht =>
    rw [hshape] at ht
    cases ht

theorem member (h : c.Holds known s) (hs : s.Sound p known held) {slot : Nat} {v : Variable}
    (hv : c.Reads i slot v) {member : LoweredType} {members : List LoweredType}
    (hshape : v.type.shape = .struct members) (hm : member ∈ members) :
    s.Carries known member := by
  obtain ⟨hcarries, ty, hty⟩ := h v hv.mem
  refine ⟨hcarries.declared.member hshape hm, .inl ?_⟩
  cases (hs.types ty v.type hty).layer with
  | @scalar _ _ r _ _ _ hscalar =>
    rw [hshape] at hscalar
    cases r <;> simp [Representation.scalarShape?] at hscalar
  | vector _ _ _ _ _ _ ht =>
    rw [hshape] at ht
    cases ht
  | struct _ _ ht hmembers =>
    rw [hshape] at ht
    cases ht
    obtain ⟨_, _, _, hvalue⟩ := exists_of_forall₂ hmembers hm
    exact hvalue

end Scope.Holds

theorem lands_operand (hs : s.Sound p known held) (slot : Nat) :
    Lands p known (c.operand i slot) s fun o t => t = s ∧ i.operands[slot]? = some o := by
  unfold Scope.operand
  cases h : i.operands[slot]? with
  | some o => exact lands_pure ⟨rfl, rfl⟩
  | none => exact lands_fail hs _

theorem lands_lookup (hs : s.Sound p known held) (slot : Nat) :
    Lands p known (c.lookup i slot) s fun v t => t = s ∧ c.Reads i slot v := by
  refine (lands_operand hs slot).bind ?_
  rintro o t _ ⟨rfl, ho⟩
  cases o with
  | «variable» n =>
    dsimp only
    cases hv : (c.declared.take c.defined)[n.toNat]? with
    | some v => exact lands_pure ⟨rfl, n, ho, hv⟩
    | none => exact lands_fail hs _
  | _ => exact lands_fail hs _

theorem lands_methodRef (hs : s.Sound p known held) (slot : Nat) :
    Lands p known (c.methodRef i slot) s fun r t =>
      t = s ∧ i.operands[slot]? = some (.method r) := by
  refine (lands_operand hs slot).bind ?_
  rintro o t _ ⟨rfl, ho⟩
  cases o with
  | method r => exact lands_pure ⟨rfl, ho⟩
  | _ => exact lands_fail hs _

theorem lands_field (hs : s.Sound p known held) (slot : Nat) :
    Lands p known (c.field i slot) s fun f t => t = s ∧ i.operands[slot]? = some (.field f) := by
  refine (lands_operand hs slot).bind ?_
  rintro o t _ ⟨rfl, ho⟩
  cases o with
  | field f => exact lands_pure ⟨rfl, ho⟩
  | _ => exact lands_fail hs _

theorem lands_expect (hs : s.Sound p known held) (expected found : LoweredType) :
    Lands p known (c.expect expected found) s fun _ t => t = s ∧ expected.id = found.id := by
  unfold Scope.expect
  by_cases h : expected.same found = true
  · simp only [h, if_true]
    exact lands_pure ⟨rfl, by simpa [LoweredType.same] using h⟩
  · simp only [h]
    exact lands_fail hs _

theorem lands_numeric (hs : s.Sound p known held) (opcode : Opcode) (type : LoweredType) :
    Lands p known (c.numeric opcode type) s fun op t =>
      t = s ∧ arithmeticOp? opcode type.scalar = some op := by
  unfold Scope.numeric
  cases h : arithmeticOp? opcode type.scalar with
  | some op => exact lands_pure ⟨rfl, rfl⟩
  | none => exact lands_fail hs _

theorem lands_loadFrom (hs : s.Sound p known held) (type : LoweredType) (pointer : Id) :
    Lands p known (loadFrom type pointer) s fun r t =>
      ∃ value, r = (value, loadInst type value pointer) ∧ t.Sound p known (value.val :: held) := by
  refine (lands_fresh hs).bind ?_
  intro value t _ ht
  exact lands_pure ⟨value, rfl, ht⟩

/-- What lowering an instruction promises. -/
def LandsCode (p : Program) (known : LocatedMethod → Prop) (c : Scope) (i : Instruction)
    (w : M (List Inst)) (s : Session) (held : List UInt32) : Prop :=
  Lands p known w s fun out t =>
    t.Sound p known (results out ++ held) ∧ Translates p t.code t.functionList c i out

theorem lands_negate (hs : s.Sound p known held) (ho : i.opcode = .negate) :
    LandsCode p known c i (c.negate i) s held := by
  refine (lands_lookup hs 0).bind ?_
  rintro dst _ _ ⟨rfl, hd⟩
  refine (lands_lookup hs 1).bind ?_
  rintro src _ _ ⟨rfl, hsrc⟩
  refine (lands_expect hs dst.type src.type).bind ?_
  rintro _ _ _ ⟨rfl, ht⟩
  refine (lands_numeric hs i.opcode src.type).bind ?_
  rintro op _ _ ⟨rfl, hop⟩
  refine (lands_loadFrom hs src.type src.pointer).bind ?_
  rintro _ t _ ⟨value, rfl, hload⟩
  refine (lands_fresh hload).bind ?_
  intro result u _ hu
  exact lands_pure ⟨hu.emitted [value.val, result.val] (by simp [result?_of_arithmeticOp? hop]),
    .negate ho hd hsrc ht hop⟩

theorem lands_binary (hs : s.Sound p known held) (ho : i.opcode ≠ .negate) :
    LandsCode p known c i (c.binary i) s held := by
  refine (lands_lookup hs 0).bind ?_
  rintro dst _ _ ⟨rfl, hd⟩
  refine (lands_lookup hs 1).bind ?_
  rintro lhs _ _ ⟨rfl, hl⟩
  refine (lands_lookup hs 2).bind ?_
  rintro rhs _ _ ⟨rfl, hr⟩
  refine (lands_expect hs lhs.type rhs.type).bind ?_
  rintro _ _ _ ⟨rfl, ht⟩
  refine (lands_expect hs dst.type lhs.type).bind ?_
  rintro _ _ _ ⟨rfl, ht'⟩
  refine (lands_numeric hs i.opcode lhs.type).bind ?_
  rintro op _ _ ⟨rfl, hop⟩
  refine (lands_loadFrom hs lhs.type lhs.pointer).bind ?_
  rintro _ t _ ⟨left, rfl, hleft⟩
  refine (lands_loadFrom hleft rhs.type rhs.pointer).bind ?_
  rintro _ u _ ⟨right, rfl, hright⟩
  refine (lands_fresh hright).bind ?_
  intro result v _ hv
  exact lands_pure ⟨hv.emitted [left.val, right.val, result.val]
      (by simp [result?_of_arithmeticOp? hop]),
    .binary ho hd hl hr ht ht' hop⟩

theorem lands_copy (hs : s.Sound p known held) (ho : i.opcode = .load) :
    LandsCode p known c i (c.copy i) s held := by
  refine (lands_lookup hs 0).bind ?_
  rintro dst _ _ ⟨rfl, hd⟩
  refine (lands_lookup hs 1).bind ?_
  rintro src _ _ ⟨rfl, hsrc⟩
  refine (lands_expect hs dst.type src.type).bind ?_
  rintro _ _ _ ⟨rfl, ht⟩
  refine (lands_loadFrom hs src.type src.pointer).bind ?_
  rintro _ t _ ⟨value, rfl, hload⟩
  exact lands_pure ⟨hload, .copy ho hd hsrc ht⟩

theorem lands_storeConstant (hs : s.Sound p known held) (hc : c.Holds known s) {dst : Variable}
    {bits : UInt32} (hd : c.Reads i 0 dst) (hi : Immediate i dst.type.shape bits) :
    LandsCode p known c i (Scope.storeConstant dst bits) s held := by
  refine (lands_constant hs (hc.reads hd) bits).bind ?_
  rintro constant t _ ⟨ht, hk⟩
  exact lands_pure ⟨ht, .constant hd hi hk⟩

theorem lands_loadUInt32 (hs : s.Sound p known held) (hc : c.Holds known s)
    (ho : i.opcode = .loadUInt32) : LandsCode p known c i (c.loadUInt32 i) s held := by
  refine (lands_lookup hs 0).bind ?_
  rintro dst _ _ ⟨rfl, hd⟩
  refine (lands_operand hs 1).bind ?_
  rintro o _ _ ⟨rfl, hi⟩
  cases o with
  | uint32 bits =>
    dsimp only
    split
    · rename_i hshape
      exact lands_storeConstant hs hc hd (hshape ▸ .uint32 ho hi)
    · exact lands_fail hs _
  | _ => exact lands_fail hs _

theorem lands_loadFloat32 (hs : s.Sound p known held) (hc : c.Holds known s)
    (ho : i.opcode = .loadFloat32) : LandsCode p known c i (c.loadFloat32 i) s held := by
  refine (lands_lookup hs 0).bind ?_
  rintro dst _ _ ⟨rfl, hd⟩
  refine (lands_operand hs 1).bind ?_
  rintro o _ _ ⟨rfl, hi⟩
  cases o with
  | float32 bits =>
    dsimp only
    split
    · rename_i hshape
      exact lands_storeConstant hs hc hd (hshape ▸ .float32 ho hi)
    · exact lands_fail hs _
  | _ => exact lands_fail hs _

theorem lands_component (hs : s.Sound p known held) (aggregate : LoweredType) :
    Lands p known (c.component aggregate) s fun component t =>
      t = s ∧ ∃ count, aggregate.shape = .vector component count := by
  unfold Scope.component
  split
  · rename_i component count h
    exact lands_pure ⟨rfl, count, h⟩
  · exact lands_fail hs _

theorem lands_memberType (hs : s.Sound p known held) (aggregate : LoweredType) (field : UInt32) :
    Lands p known (c.memberType aggregate field) s fun member t =>
      t = s ∧ ∃ members, aggregate.shape = .struct members ∧
        members[field.toNat]? = some member := by
  unfold Scope.memberType
  split
  · rename_i members h
    cases hm : members[field.toNat]? with
    | some member => exact lands_pure ⟨rfl, members, h, hm⟩
    | none => exact lands_fail hs _
  · exact lands_fail hs _

theorem lands_elementPointer (hs : s.Sound p known held) {aggregate index : Variable}
    {component : LoweredType} (hc : s.Carries known component) :
    Lands p known (c.elementPointer aggregate component index) s fun r t =>
      ∃ width signed pointerType position element, index.type.shape = .int width signed ∧
        pointerInst pointerType component.id ∈ t.code ∧
        t.Sound p known (element.val :: position.val :: held) ∧
        r = (element, [loadInst index.type position index.pointer,
          accessInst pointerType element aggregate.pointer position]) := by
  unfold Scope.elementPointer
  split
  · rename_i width signed hw
    refine (lands_pointer hs hc).bind ?_
    rintro pointerType t _ ⟨ht, hp⟩
    refine (lands_loadFrom ht index.type index.pointer).bind ?_
    rintro _ u hgu ⟨position, rfl, hu⟩
    refine (lands_fresh hu).bind ?_
    intro element v hgv hv
    exact lands_pure ⟨width, signed, pointerType, position, element, hw,
      (hgu.trans hgv).code.subset hp, hv, rfl⟩
  · exact lands_fail_bind hs _

theorem lands_loadElement (hs : s.Sound p known held) (hc : c.Holds known s)
    (ho : i.opcode = .loadElement) : LandsCode p known c i (c.loadElement i) s held := by
  refine (lands_lookup hs 0).bind ?_
  rintro dst _ _ ⟨rfl, hd⟩
  refine (lands_lookup hs 1).bind ?_
  rintro src _ _ ⟨rfl, hsrc⟩
  refine (lands_lookup hs 2).bind ?_
  rintro index _ _ ⟨rfl, hi⟩
  refine (lands_component hs src.type).bind ?_
  rintro component _ _ ⟨rfl, count, hv⟩
  refine (lands_expect hs component dst.type).bind ?_
  rintro _ _ _ ⟨rfl, ht⟩
  refine (lands_elementPointer hs (hc.component hs hsrc hv)).bind ?_
  rintro _ t _ ⟨width, signed, pointerType, position, element, hw, hp, hel, rfl⟩
  refine (lands_loadFrom hel component element).bind ?_
  rintro _ u hgu ⟨value, rfl, hu⟩
  exact lands_pure ⟨hu.emitted [position.val, element.val, value.val] rfl,
    .loadElement ho hd hsrc hi hv ht hw (hgu.code.subset hp)⟩

theorem lands_setElement (hs : s.Sound p known held) (hc : c.Holds known s)
    (ho : i.opcode = .setElement) : LandsCode p known c i (c.setElement i) s held := by
  refine (lands_lookup hs 0).bind ?_
  rintro dst _ _ ⟨rfl, hd⟩
  refine (lands_lookup hs 1).bind ?_
  rintro index _ _ ⟨rfl, hi⟩
  refine (lands_lookup hs 2).bind ?_
  rintro src _ _ ⟨rfl, hsrc⟩
  refine (lands_component hs dst.type).bind ?_
  rintro component _ _ ⟨rfl, count, hv⟩
  refine (lands_expect hs component src.type).bind ?_
  rintro _ _ _ ⟨rfl, ht⟩
  refine (lands_elementPointer hs (hc.component hs hd hv)).bind ?_
  rintro _ t _ ⟨width, signed, pointerType, position, element, hw, hp, hel, rfl⟩
  refine (lands_loadFrom hel src.type src.pointer).bind ?_
  rintro _ u hgu ⟨value, rfl, hu⟩
  exact lands_pure ⟨hu.emitted [position.val, element.val, value.val] rfl,
    .setElement ho hd hi hsrc hv ht hw (hgu.code.subset hp)⟩

theorem lands_memberPointer (hs : s.Sound p known held) (base : Id) {member : LoweredType}
    (hm : s.Carries known member) (field : UInt32) :
    Lands p known (Scope.memberPointer base member field) s fun r t =>
      ∃ pointerType uint position pointer, pointerInst pointerType member.id ∈ t.code ∧
        (Shape.int 32 false).key.inst uint ∈ t.code ∧
        constantInst uint position field ∈ t.code ∧ t.Sound p known (pointer.val :: held) ∧
        r = (pointer, accessInst pointerType pointer base position) := by
  refine (lands_pointer hs hm).bind ?_
  rintro pointerType t _ ⟨ht, hp⟩
  have hparts : ∀ part ∈ (Shape.int 32 false).parts, t.Carries known part := by simp [Shape.parts]
  refine (lands_shape ht hparts (fun _ => .int _ _) (by simp [Shape.key]) _).bind ?_
  rintro uint u hgu ⟨hu, hd, hshape⟩
  refine (lands_constant hu ⟨hd, .inl (by simp [LoweredType.isVoid, hshape])⟩ field).bind ?_
  rintro position v hgv ⟨hv, hk⟩
  refine (lands_fresh hv).bind ?_
  intro pointer w hgw hw
  have hint : (Shape.int 32 false).key.inst uint.id ∈ u.code := hshape ▸ hd.here
  exact lands_pure ⟨pointerType, uint.id, position, pointer,
    (hgu.trans (hgv.trans hgw)).code.subset hp, (hgv.trans hgw).code.subset hint,
    hgw.code.subset hk, hw, rfl⟩

theorem lands_loadField (hs : s.Sound p known held) (hc : c.Holds known s)
    (ho : i.opcode = .loadField) : LandsCode p known c i (c.loadField i) s held := by
  refine (lands_lookup hs 0).bind ?_
  rintro dst _ _ ⟨rfl, hd⟩
  refine (lands_lookup hs 1).bind ?_
  rintro src _ _ ⟨rfl, hsrc⟩
  refine (lands_field hs 2).bind ?_
  rintro field _ _ ⟨rfl, hf⟩
  refine (lands_memberType hs src.type field).bind ?_
  rintro member _ _ ⟨rfl, members, hv, hm⟩
  refine (lands_expect hs member dst.type).bind ?_
  rintro _ _ _ ⟨rfl, ht⟩
  have hmd := hc.member hs hsrc hv (List.mem_of_getElem? hm)
  refine (lands_memberPointer hs src.pointer hmd field).bind ?_
  rintro _ t _ ⟨pointerType, uint, position, pointer, hp, hu, hk, hpt, rfl⟩
  refine (lands_loadFrom hpt member pointer).bind ?_
  rintro _ u hg ⟨value, rfl, hload⟩
  exact lands_pure ⟨hload.emitted [pointer.val, value.val] rfl,
    .loadField ho hd hsrc hf hv hm ht (hg.code.subset hp) (hg.code.subset hu) (hg.code.subset hk)⟩

theorem lands_setField (hs : s.Sound p known held) (hc : c.Holds known s)
    (ho : i.opcode = .setField) : LandsCode p known c i (c.setField i) s held := by
  refine (lands_lookup hs 0).bind ?_
  rintro dst _ _ ⟨rfl, hd⟩
  refine (lands_field hs 1).bind ?_
  rintro field _ _ ⟨rfl, hf⟩
  refine (lands_lookup hs 2).bind ?_
  rintro src _ _ ⟨rfl, hsrc⟩
  refine (lands_memberType hs dst.type field).bind ?_
  rintro member _ _ ⟨rfl, members, hv, hm⟩
  refine (lands_expect hs member src.type).bind ?_
  rintro _ _ _ ⟨rfl, ht⟩
  have hmd := hc.member hs hd hv (List.mem_of_getElem? hm)
  refine (lands_memberPointer hs dst.pointer hmd field).bind ?_
  rintro _ t _ ⟨pointerType, uint, position, pointer, hp, hu, hk, hpt, rfl⟩
  refine (lands_loadFrom hpt src.type src.pointer).bind ?_
  rintro _ u hg ⟨value, rfl, hload⟩
  exact lands_pure ⟨hload.emitted [pointer.val, value.val] rfl,
    .setField ho hd hsrc hf hv hm ht (hg.code.subset hp) (hg.code.subset hu) (hg.code.subset hk)⟩

end ShaderIR.Lowering
