import Mathlib.Data.List.Induction
import ShaderIR.Proofs.Requests

/-! Every id that a function refers to is defined by the declarations, by an earlier function or
earlier in the function itself. -/

namespace ShaderIR

/-- The operation stands inside functions only. -/
def Binary.Op.isInner : Binary.Op → Bool
  | .functionParameter | .label | .variable | .functionCall | .load | .store | .accessChain
  | .sNegate | .fNegate | .iAdd | .fAdd | .iSub | .fSub | .iMul | .fMul | .uDiv | .sDiv | .fDiv
  | .uMod | .sRem | .sMod | .fRem | .fMod | .ret | .returnValue => true
  | _ => false

theorem Binary.Op.not_isDeclaration_of_isInner {op : Binary.Op} (h : op.isInner = true) :
    op.isDeclaration = false := by
  cases op <;> simp_all [isInner, isDeclaration]

namespace Lowering

open Binary (Op Id Inst results Closed closed_append)

@[simp] theorem uses_loadInst (type : LoweredType) (value pointer : Id) :
    (loadInst type value pointer).uses = [type.id.val, pointer.val] := rfl

@[simp] theorem uses_storeTo (pointer value : Id) :
    (storeTo pointer value).uses = [pointer.val, value.val] := rfl

@[simp] theorem uses_accessInst (pointerType pointer base index : Id) :
    (accessInst pointerType pointer base index).uses =
      [pointerType.val, base.val, index.val] := rfl

@[simp] theorem uses_functionCall (type result callee : Id) (arguments : List UInt32) :
    (Inst.ofIds .functionCall [type, result, callee] arguments).uses =
      type.val :: callee.val :: arguments := rfl

theorem isInner_of_arithmeticOp? {opcode : Opcode} {shape : Shape LoweredType} {op : Op}
    (h : arithmeticOp? opcode shape = some op) : op.isInner = true := by
  unfold arithmeticOp? at h
  split at h <;> simp_all <;> subst h <;> rfl

theorem uses_of_arithmeticOp? {opcode : Opcode} {shape : Shape LoweredType} {op : Op}
    (h : arithmeticOp? opcode shape = some op) (type result : Id) (operands : List Id)
    (hn : operands.length = if opcode = .negate then 1 else 2) :
    (Inst.ofIds op (type :: result :: operands) []).uses =
      type.val :: operands.map Id.val := by
  simp only [Inst.uses, Inst.ofIds, layout_of_arithmeticOp? h]
  by_cases ho : opcode = .negate
  · obtain ⟨a, rfl⟩ := List.length_eq_one_iff.mp (by simpa [ho] using hn)
    simp [ho, Binary.idsOfLayout]
  · obtain ⟨a, b, rfl⟩ := List.length_eq_two.mp (by simpa [ho] using hn)
    simp [ho, Binary.idsOfLayout]

/-- What the code of a body may refer to. -/
structure Scope.Knows (c : Scope) (code : List Inst) (earlier : List Function)
    (ids : List UInt32) : Prop where
  declarations : results code ⊆ ids
  types : c.Fits code
  pointers : ∀ v ∈ c.declared, v.pointer.val ∈ ids
  functions : ∀ f ∈ earlier, f.id.val ∈ ids ∧ f.returnType.id.val ∈ ids

namespace Scope.Knows

variable {c : Scope} {code : List Inst} {earlier : List Function} {ids : List UInt32}
  {i : Instruction} {slot : Nat} {v : Variable}

theorem more (h : c.Knows code earlier ids) (others : List UInt32) :
    c.Knows code earlier (ids ++ others) where
  declarations := fun _ hx => List.mem_append_left _ (h.declarations hx)
  types := h.types
  pointers := fun v hv => List.mem_append_left _ (h.pointers v hv)
  functions := fun f hf => ⟨List.mem_append_left _ (h.functions f hf).1,
    List.mem_append_left _ (h.functions f hf).2⟩

theorem pointer (h : c.Knows code earlier ids) (hv : c.Reads i slot v) : v.pointer.val ∈ ids :=
  h.pointers v hv.mem

theorem type (h : c.Knows code earlier ids) (hv : c.Reads i slot v) : v.type.id.val ∈ ids :=
  h.declarations (h.types.reads hv).id_mem

theorem pointerType (h : c.Knows code earlier ids) {pointer pointee : Id}
    (hp : pointerInst pointer pointee ∈ code) : pointer.val ∈ ids :=
  h.declarations (Binary.result_mem hp rfl)

theorem constant (h : c.Knows code earlier ids) {type constant : Id} {bits : UInt32}
    (hk : constantInst type constant bits ∈ code) : constant.val ∈ ids :=
  h.declarations (Binary.result_mem hk rfl)

end Scope.Knows

theorem Scope.Passes.mem {c : Scope} {i : Instruction} {slot : Nat} {parameters : List LoweredType}
    {vs : List Variable} (h : c.Passes i slot parameters vs) : ∀ v ∈ vs, v ∈ c.declared := by
  induction vs generalizing slot parameters with
  | nil => simp
  | cons v vs ih =>
    cases parameters with
    | nil => exact h.elim
    | cons parameter parameters =>
      obtain ⟨hv, _, hrest⟩ := h
      intro w hw
      rcases List.mem_cons.mp hw with rfl | hw
      · exact hv.mem
      · exact ih hrest w hw

theorem Scope.Passes.length_eq {c : Scope} {i : Instruction} {slot : Nat}
    {parameters : List LoweredType} {vs : List Variable} (h : c.Passes i slot parameters vs) :
    parameters.length = vs.length := by
  induction vs generalizing slot parameters with
  | nil =>
    cases parameters with
    | nil => rfl
    | cons _ _ => exact h.elim
  | cons v vs ih =>
    cases parameters with
    | nil => exact h.elim
    | cons parameter parameters => simp [ih h.2.2]

theorem closed_loadInsts {c : Scope} {code : List Inst} {earlier : List Function}
    {ids : List UInt32} {vs : List Variable} (h : c.Knows code earlier ids)
    (hv : ∀ v ∈ vs, v ∈ c.declared) (values : List Id) : Closed ids (loadInsts vs values) := by
  induction vs generalizing ids values with
  | nil => simp [loadInsts, Closed]
  | cons v vs ih =>
    cases values with
    | nil => simp [loadInsts, Closed]
    | cons value values =>
      have hmem := hv v (by simp)
      refine ⟨?_, ih (h.more _) (fun w hw => hv w (by simp [hw])) values⟩
      simp [h.pointers v hmem, h.declarations (h.types v hmem).id_mem]

theorem Translates.closed {p : Program} {code : List Inst} {earlier : List Function} {c : Scope}
    {i : Instruction} {out : List Inst} {ids : List UInt32}
    (h : Translates p code earlier c i out) (hk : c.Knows code earlier ids) : Closed ids out := by
  cases h with
  | negate ho hd hs ht hop =>
    simp [Closed, uses_of_arithmeticOp? hop, result?_of_arithmeticOp? hop, ho, hk.type hs,
      hk.type hd, hk.pointer hs, hk.pointer hd]
  | binary ho hd hl hr ht ht' hop =>
    simp [Closed, uses_of_arithmeticOp? hop, result?_of_arithmeticOp? hop, ho, hk.type hl,
      hk.type hr, hk.type hd, hk.pointer hl, hk.pointer hr, hk.pointer hd]
  | @call r target m f slot arguments values result ho hr ht hm hf hid hs hn ha hv hret =>
    refine closed_append.mpr ⟨closed_loadInsts hk ha.mem values, ?_, ?_⟩
    · rw [results_loadInsts hv]
      have hcallee := hk.functions f hf
      intro x hx
      rw [uses_functionCall] at hx
      rcases List.mem_cons.mp hx with rfl | hx
      · exact List.mem_append_left _ hcallee.2
      rcases List.mem_cons.mp hx with rfl | hx
      · exact List.mem_append_left _ hcallee.1
      · exact List.mem_append_right _ hx
    · cases slot with
      | none => trivial
      | some v =>
        have hp : v.pointer.val ∈ ids := hk.pointer (show c.Reads i 1 v from hs)
        simp [Closed, hp]
  | copy ho hd hs ht =>
    simp [Closed, hk.type hs, hk.pointer hs, hk.pointer hd]
  | constant hd hi hc =>
    simp [Closed, hk.pointer hd, hk.constant hc]
  | loadElement ho hd hs hi hv ht hw hp =>
    have hc := hk.declarations ((hk.types.reads hs).component hv).id_mem
    simp [Closed, hc, hk.type hi, hk.pointer hi, hk.pointer hs, hk.pointer hd, hk.pointerType hp]
  | setElement ho hd hi hs hv ht hw hp =>
    simp [Closed, hk.type hi, hk.type hs, hk.pointer hi, hk.pointer hs, hk.pointer hd,
      hk.pointerType hp]
  | loadField ho hd hs hf hv hm ht hp hu hc =>
    have hmember :=
      hk.declarations ((hk.types.reads hs).member hv (List.mem_of_getElem? hm)).id_mem
    simp [Closed, hmember, hk.pointer hs, hk.pointer hd, hk.pointerType hp, hk.constant hc]
  | setField ho hd hs hf hv hm ht hp hu hc =>
    simp [Closed, hk.type hs, hk.pointer hs, hk.pointer hd, hk.pointerType hp, hk.constant hc]

theorem Translates.isInner {p : Program} {code : List Inst} {earlier : List Function} {c : Scope}
    {i : Instruction} {out : List Inst} (h : Translates p code earlier c i out) :
    ∀ j ∈ out, j.op.isInner = true := by
  have hload : ∀ t v q, (loadInst t v q).op.isInner = true := fun _ _ _ => rfl
  have hstore : ∀ q v, (storeTo q v).op.isInner = true := fun _ _ => rfl
  have haccess : ∀ t q b n, (accessInst t q b n).op.isInner = true := fun _ _ _ _ => rfl
  have harith : ∀ {opcode : Opcode} {shape : Shape LoweredType} {op : Op}
      (_ : arithmeticOp? opcode shape = some op) (ids : List Id),
      (Inst.ofIds op ids []).op.isInner = true := fun hop _ => isInner_of_arithmeticOp? hop
  cases h with
  | negate ho hd hs ht hop => simp [hload, hstore, harith hop]
  | binary ho hd hl hr ht ht' hop => simp [hload, hstore, harith hop]
  | @call r target m f slot arguments values result ho hr ht hm hf hid hs hn ha hv hret =>
    intro j hj
    rcases List.mem_append.mp hj with hj | hj
    · rw [loadInsts, ← List.map_uncurry_zip_eq_zipWith] at hj
      obtain ⟨v, _, rfl⟩ := List.mem_map.mp hj
      exact hload _ _ _
    rcases List.mem_cons.mp hj with rfl | hj
    · rfl
    · obtain ⟨v, _, rfl⟩ := Option.map_eq_some_iff.mp (Option.mem_toList.mp hj)
      exact hstore _ _
  | _ => simp [hload, hstore, haccess]

theorem TranslatesBody.closed {p : Program} {code : List Inst} {earlier : List Function}
    {c : Scope} {is : List Instruction} {out : List Inst} {ids : List UInt32}
    (h : TranslatesBody p code earlier c is out) (hk : c.Knows code earlier ids) :
    Closed ids out := by
  induction h generalizing ids with
  | fallThrough hv => simp [Closed, Inst.uses, Op.layout, Binary.idsOfLayout]
  | ret ho hv => simp [Closed, Inst.uses, Op.layout, Binary.idsOfLayout]
  | @retValue c i v value ho hr hv ht =>
    refine ⟨by simp [hk.type hr, hk.pointer hr], ?_, trivial⟩
    intro x hx
    have he : x = value.val := by
      simpa [Inst.uses, Inst.ofIds, Op.layout, Binary.idsOfLayout] using hx
    simp [he]
  | define ho hd _ ih => exact ih ⟨hk.declarations, hk.types, hk.pointers, hk.functions⟩
  | @plain c i rest out outs hi _ ih =>
    have hk' := hk.more (results out)
    exact closed_append.mpr
      ⟨hi.closed hk, ih ⟨hk'.declarations, hk'.types, hk'.pointers, hk'.functions⟩⟩

theorem TranslatesBody.isInner {p : Program} {code : List Inst} {earlier : List Function}
    {c : Scope} {is : List Instruction} {out : List Inst}
    (h : TranslatesBody p code earlier c is out) : ∀ j ∈ out, j.op.isInner = true := by
  induction h with
  | fallThrough hv => simp [Op.isInner]
  | ret ho hv => simp [Op.isInner]
  | retValue ho hr hv ht => simp [loadInst, Inst.ofIds, Op.isInner]
  | define ho hd _ ih => exact ih
  | plain hi _ ih =>
    intro j hj
    rcases List.mem_append.mp hj with hj | hj
    · exact hi.isInner j hj
    · exact ih j hj

namespace Function.Built

variable {p : Program} {code : List Inst} {earlier : List Function} {f : Function}
  {q : FunctionParts}

theorem id_mem (h : f.Built p code earlier q) : f.id.val ∈ results f.code := by
  rw [h.code_eq]
  exact Binary.result_mem List.mem_cons_self rfl

theorem isInner (h : f.Built p code earlier q) : ∀ j ∈ q.inner f, j.op.isInner = true := by
  intro j hj
  simp only [FunctionParts.inner, List.mem_append, List.mem_cons] at hj
  rcases hj with hj | rfl | hj | hj | hj
  · rw [FunctionParts.parameterInsts, ← List.map_uncurry_zip_eq_zipWith] at hj
    obtain ⟨_, _, rfl⟩ := List.mem_map.mp hj
    rfl
  · rfl
  · obtain ⟨_, _, rfl⟩ := List.mem_map.mp hj
    rfl
  · rw [FunctionParts.storeInsts, ← List.map_uncurry_zip_eq_zipWith] at hj
    obtain ⟨_, _, rfl⟩ := List.mem_map.mp hj
    rfl
  · exact h.body.isInner j hj

end Function.Built

theorem closed_of_uses {ids : List UInt32} {code : List Inst}
    (hu : ∀ i ∈ code, ∀ x ∈ i.uses, x ∈ ids) : Closed ids code := by
  induction code generalizing ids with
  | nil => trivial
  | cons i rest ih =>
    refine ⟨hu i (by simp), ih ?_⟩
    intro j hj x hx
    exact List.mem_append_left _ (hu j (by simp [hj]) x hx)

namespace FunctionParts

variable {q : FunctionParts} {f : Function}

theorem pointer_mem {v : Variable} (hv : v ∈ q.declared) :
    v.pointer.val ∈ results q.variableInsts := by
  obtain ⟨slot, hslot, rfl⟩ := List.mem_map.mp hv
  exact Binary.result_mem (List.mem_map.mpr ⟨slot, hslot, rfl⟩) rfl

theorem closed_parameterInsts {ids : List UInt32} (h : ∀ t ∈ f.parameters, t.id.val ∈ ids) :
    Closed ids (q.parameterInsts f) := by
  refine closed_of_uses fun i hi x hx => ?_
  rw [parameterInsts, ← List.map_uncurry_zip_eq_zipWith] at hi
  obtain ⟨⟨t, id⟩, ht, rfl⟩ := List.mem_map.mp hi
  have he : x = t.id.val := by
    simpa [Inst.uses, Inst.ofIds, Op.layout, Binary.idsOfLayout] using hx
  exact he ▸ h t (List.of_mem_zip ht).1

theorem closed_variableInsts {ids : List UInt32} (h : ∀ v ∈ q.slots, v.2.val ∈ ids) :
    Closed ids q.variableInsts := by
  refine closed_of_uses fun i hi x hx => ?_
  obtain ⟨v, hv, rfl⟩ := List.mem_map.mp hi
  have he : x = v.2.val := by
    simpa [Inst.uses, Inst.ofIds, Op.layout, Binary.idsOfLayout] using hx
  exact he ▸ h v hv

theorem closed_storeInsts {ids : List UInt32} (hv : ∀ v ∈ q.declared, v.pointer.val ∈ ids)
    (hp : ∀ id ∈ q.passed, id.val ∈ ids) : Closed ids q.storeInsts := by
  refine closed_of_uses fun i hi x hx => ?_
  rw [storeInsts, ← List.map_uncurry_zip_eq_zipWith] at hi
  obtain ⟨⟨v, id⟩, hmem, rfl⟩ := List.mem_map.mp hi
  obtain ⟨hv', hid⟩ := List.of_mem_zip hmem
  have he : x = v.pointer.val ∨ x = id.val := by simpa using hx
  rcases he with rfl | rfl
  · exact hv v hv'
  · exact hp id hid

end FunctionParts

/-- A function refers to the declarations, to itself and to the functions before it. -/
theorem Function.Built.closed {p : Program} {code : List Inst} {earlier : List Function}
    {f : Function} {q : FunctionParts} {ids : List UInt32} (h : f.Built p code earlier q)
    (hcode : results code ⊆ ids)
    (hearlier : ∀ g ∈ earlier, g.id.val ∈ ids ∧ g.returnType.id.val ∈ ids) :
    Closed ids f.code := by
  have hmore : ∀ others : List UInt32, ids ⊆ ids ++ others :=
    fun others x hx => List.mem_append_left _ hx
  rw [h.code_eq, FunctionParts.inner]
  refine ⟨?_, closed_append.mpr ⟨closed_append.mpr ⟨?_, ?_, closed_append.mpr
    ⟨?_, closed_append.mpr ⟨?_, ?_⟩⟩⟩, by simp [Closed, Inst.uses, Op.layout, Binary.idsOfLayout]⟩⟩
  · have hf : q.functionType.val ∈ ids := hcode (Binary.result_mem h.functionType rfl)
    have hr : f.returnType.id.val ∈ ids := hcode h.returnType.id_mem
    simp [FunctionParts.headInst, Inst.uses, Inst.ofIds, Op.layout, Binary.idsOfLayout, hf, hr]
  · exact FunctionParts.closed_parameterInsts fun t ht =>
      hmore _ (hcode (h.parameters t ht).id_mem)
  · simp [FunctionParts.labelInst, Inst.uses, Inst.ofIds, Op.layout, Binary.idsOfLayout]
  · refine FunctionParts.closed_variableInsts fun v hv => ?_
    have hp : v.2.val ∈ ids := hcode (Binary.result_mem (h.slots v hv).2 rfl)
    simp [hp]
  · refine FunctionParts.closed_storeInsts (fun v hv => ?_) (fun id hid => ?_)
    · exact List.mem_append_right _ (FunctionParts.pointer_mem hv)
    · have hid' : id.val ∈ results (q.parameterInsts f) := by
        rw [FunctionParts.results_parameterInsts h.passed]
        exact List.mem_map_of_mem hid
      simp [hid']
  · refine h.body.closed ⟨fun x hx => ?_, ?_, fun v hv => ?_, fun g hg => ?_⟩
    · simp [hcode hx]
    · intro v hv
      obtain ⟨slot, hslot, rfl⟩ := List.mem_map.mp hv
      exact (h.slots slot hslot).1
    · have hp := FunctionParts.pointer_mem hv
      simp [hp]
    · have hg' := hearlier g hg
      simp [hg'.1, hg'.2]

/-- The declarations and functions of a session refer backwards only. -/
theorem Session.Sound.closed {p : Program} {known : LocatedMethod → Prop} {s : Session}
    {held : List UInt32} (hs : s.Sound p known held) :
    Closed [] (s.code ++ s.functionList.flatMap Function.code) := by
  -- The functions are closed one after another, in the order in which they were finished.
  suffices h : ∀ pre post, s.functionList = pre ++ post →
      Closed [] (s.code ++ pre.flatMap Function.code) from
    h s.functionList [] (List.append_nil _).symm
  intro pre
  induction pre using List.reverseRecOn with
  | nil =>
    intro post _
    simpa [Session.code] using hs.declarations.closed
  | append_singleton pre f ih =>
    intro post hsplit
    have hsplit' : s.functionList = pre ++ f :: post := by simpa using hsplit
    obtain ⟨q, hq⟩ := hs.order pre f post hsplit'
    rw [List.flatMap_append, ← List.append_assoc, List.flatMap_singleton]
    refine closed_append.mpr ⟨ih (f :: post) hsplit', ?_⟩
    rw [List.nil_append, Binary.results_append]
    refine hq.closed (List.subset_append_left _ _) fun g hg => ?_
    obtain ⟨before, after, hg'⟩ := List.append_of_mem hg
    obtain ⟨r, hr⟩ := hs.order before g (after ++ f :: post) (by rw [hsplit', hg']; simp)
    constructor
    · refine List.mem_append_right _ (Binary.results_subset ?_ hr.id_mem)
      exact fun i hi => List.mem_flatMap.mpr ⟨g, hg, hi⟩
    · exact List.mem_append_left _ hr.returnType.id_mem

end Lowering

end ShaderIR
