import ShaderIR.Proofs.InstructionLowering
import ShaderIR.Proofs.TypeLowering

/-! The code that bodies and whole methods are lowered to. A function that is built calls only
functions built before it. -/

namespace ShaderIR.Lowering

open Binary (Op Id Inst results)

variable {p : Program} {known : LocatedMethod → Prop} {s : Session} {held : List UInt32}
variable {c : Scope} {i : Instruction}

theorem lands_resultSlot (hs : s.Sound p known held) :
    Lands p known (c.resultSlot i) s fun slot t => t = s ∧ c.Receives i slot := by
  refine (lands_operand hs 1).bind ?_
  rintro o _ _ ⟨rfl, ho⟩
  cases o with
  | void => exact lands_pure ⟨rfl, ho⟩
  | «variable» n =>
    refine (lands_lookup hs 1).bind ?_
    rintro v _ _ ⟨rfl, hv⟩
    exact lands_pure ⟨rfl, hv⟩
  | _ => exact lands_fail hs _

theorem lands_arguments (hs : s.Sound p known held) (slot : Nat) (parameters : List LoweredType) :
    Lands p known (c.arguments i slot parameters) s fun vs t =>
      t = s ∧ c.Passes i slot parameters vs := by
  induction parameters generalizing slot with
  | nil => exact lands_pure ⟨rfl, trivial⟩
  | cons parameter rest ih =>
    refine (lands_lookup hs slot).bind ?_
    rintro v _ _ ⟨rfl, hv⟩
    refine (lands_expect hs parameter v.type).bind ?_
    rintro _ _ _ ⟨rfl, ht⟩
    refine (ih (slot + 1)).bind ?_
    rintro vs _ _ ⟨rfl, hvs⟩
    exact lands_pure ⟨rfl, hv, ht, hvs⟩

theorem lands_loadAll (hs : s.Sound p known held) (vs : List Variable) :
    Lands p known (Scope.loadAll vs) s fun r t =>
      ∃ values, r = (values, loadInsts vs values) ∧ values.length = vs.length ∧
        t.Sound p known (values.map Id.val ++ held) := by
  induction vs generalizing s held with
  | nil => exact lands_pure ⟨[], rfl, rfl, hs⟩
  | cons v vs ih =>
    refine (lands_loadFrom hs v.type v.pointer).bind ?_
    rintro _ t _ ⟨value, rfl, ht⟩
    refine (ih ht).bind ?_
    rintro _ u _ ⟨values, rfl, hn, hu⟩
    refine lands_pure ⟨value :: values, rfl, by simp [hn], hu.of_count ?_⟩
    intro x
    simp only [List.map_cons, List.cons_append, List.count_append, List.count_cons]
    omega

/-- What a request for the function of a method promises. -/
def CompilesWell (p : Program) (known : LocatedMethod → Prop)
    (compile : LocatedMethod → M Function) : Prop :=
  ∀ s held, s.Sound p known held → ∀ m, known m → Lands p known (compile m) s fun f t =>
    t.Sound p known held ∧ f ∈ t.functionList ∧ f.method.id = m.id

/-- Calls of known methods resolve to known methods. -/
def Resolves (p : Program) (known : LocatedMethod → Prop) : Prop :=
  ∀ m callee, known m → p.Calls m callee → known callee

/-- The last step of a call, when its arguments are loaded and all types agree. -/
theorem lands_invoke {r : MethodRef} {target : MethodInstance} {m : LocatedMethod} {f : Function}
    {slot : Option Variable} {arguments : List Variable} {values : List Id}
    (hs : s.Sound p known (values.map Id.val ++ held)) (ho : i.opcode = .call)
    (hr : i.operands[0]? = some (.method r)) (ht : p.resolve r = .ok target)
    (hm : target.concrete? = some m) (hf : f ∈ s.functionList) (hid : f.method.id = m.id)
    (hslot : c.Receives i slot) (hn : i.operands.length - 2 = f.parameters.length)
    (hpass : c.Passes i 2 f.parameters arguments) (hvalues : values.length = arguments.length)
    (hret : ∀ v, slot = some v → f.returnType.id = v.type.id) :
    LandsCode p known c i
      (do
        let value ← fresh
        return loadInsts arguments values ++
          .ofIds .functionCall [f.returnType.id, value, f.id] (values.map Id.val) ::
            (slot.map fun v => storeTo v.pointer value).toList) s held := by
  refine (lands_fresh hs).bind ?_
  intro result t hg h
  have hstore : results (slot.map fun v => storeTo v.pointer result).toList = [] := by
    cases slot <;> simp
  refine lands_pure ⟨h.of_count ?_, .call ho hr ht hm (hg.functionList.subset hf) hid hslot hn
    hpass hvalues hret⟩
  intro x
  simp only [Binary.results_append, Binary.results_cons, result?_functionCall, hstore,
    results_loadInsts hvalues, Option.toList_some, List.count_append, List.count_cons,
    List.count_nil]
  omega

/-- A reference is answered with the function of the method that it resolves to. -/
theorem lands_callee {compile : LocatedMethod → M Function} {r : MethodRef}
    (hk : ∀ target m, p.resolve r = .ok target → target.concrete? = some m → known m)
    (hcompile : CompilesWell p known compile) (hs : s.Sound p known held) :
    Lands p known (callee p compile r) s fun f t => t.Sound p known held ∧
      ∃ target m, p.resolve r = .ok target ∧ target.concrete? = some m ∧ f ∈ t.functionList ∧
        f.method.id = m.id := by
  refine (lands_resolve hs r).bind ?_
  rintro target t₁ _ ⟨htarget, h₁⟩
  cases hm : target.concrete? with
  | none => exact lands_fail h₁ _
  | some m =>
    refine (hcompile t₁ held h₁ m (hk target m htarget hm)).mono ?_
    rintro f t₂ _ ⟨h₂, hf, hid⟩
    exact ⟨h₂, target, m, htarget, hm, hf, hid⟩

theorem lands_call {compile : LocatedMethod → M Function}
    (hk : ∀ callee, p.CalledIn [i] callee → known callee)
    (hcompile : CompilesWell p known compile) (hs : s.Sound p known held) (ho : i.opcode = .call) :
    LandsCode p known c i (c.call (callee p compile) i) s held := by
  refine (lands_methodRef hs 0).bind ?_
  rintro r _ _ ⟨rfl, hr⟩
  have hknown : ∀ target m, p.resolve r = .ok target → target.concrete? = some m → known m :=
    fun target m ht hm => hk m ⟨i, List.mem_singleton_self i, r, target, ho, hr, ht, hm⟩
  refine (lands_callee hknown hcompile hs).bind ?_
  rintro f t₂ _ ⟨h₂, target, m, htarget, hm, hf, hid⟩
  refine (lands_resultSlot h₂).bind ?_
  rintro slot _ _ ⟨rfl, hslot⟩
  dsimp only
  by_cases hn : (i.operands.length - 2 != f.parameters.length) = true
  · simp only [hn, if_true]
    exact lands_fail_bind h₂ _
  · simp only [hn]
    have hn' : i.operands.length - 2 = f.parameters.length := by simpa using hn
    refine (lands_arguments h₂ 2 f.parameters).bind ?_
    rintro arguments _ _ ⟨rfl, hpass⟩
    refine (lands_loadAll h₂ arguments).bind ?_
    rintro _ t₃ hg ⟨values, rfl, hvalues, h₃⟩
    have hf' := hg.functionList.subset hf
    cases slot with
    | none => exact lands_invoke h₃ ho hr htarget hm hf' hid hslot hn' hpass hvalues (by simp)
    | some v =>
      refine (lands_expect h₃ f.returnType v.type).bind ?_
      rintro _ _ _ ⟨rfl, hret⟩
      refine lands_invoke h₃ ho hr htarget hm hf' hid hslot hn' hpass hvalues ?_
      intro w hw
      exact Option.some.inj hw ▸ hret

theorem lands_lowerPlain {compile : LocatedMethod → M Function}
    (hk : ∀ callee, p.CalledIn [i] callee → known callee)
    (hcompile : CompilesWell p known compile) (hs : s.Sound p known held) (hc : c.Holds known s)
    (hd : i.opcode ≠ .define) (hr : i.opcode ≠ .ret) (hv : i.opcode ≠ .retValue) :
    LandsCode p known c i (lowerPlain c (callee p compile) i) s held := by
  unfold lowerPlain
  cases ho : i.opcode with
  | negate => exact lands_negate hs ho
  | add | subtract | multiply | divide | modulo | remainder =>
    exact lands_binary hs (by simp [ho])
  | call => exact lands_call hk hcompile hs ho
  | load => exact lands_copy hs ho
  | loadUInt32 => exact lands_loadUInt32 hs hc ho
  | loadFloat32 => exact lands_loadFloat32 hs hc ho
  | loadElement => exact lands_loadElement hs hc ho
  | setElement => exact lands_setElement hs hc ho
  | loadField => exact lands_loadField hs hc ho
  | setField => exact lands_setField hs hc ho
  | define => exact absurd ho hd
  | ret => exact absurd ho hr
  | retValue => exact absurd ho hv

/-- What lowering the rest of a body promises. -/
def LandsBody (p : Program) (known : LocatedMethod → Prop) (c : Scope) (is : List Instruction)
    (w : M (List Inst)) (s : Session) (held : List UInt32) : Prop :=
  Lands p known w s fun out t =>
    t.Sound p known (results out ++ held) ∧ TranslatesBody p t.code t.functionList c is out

theorem lands_ret (hs : s.Sound p known held) (ho : i.opcode = .ret) :
    LandsBody p known c [i] c.ret s held := by
  unfold Scope.ret
  by_cases hv : c.returnType.isVoid = true
  · simp only [hv, if_true]
    exact lands_pure ⟨hs, .ret ho hv⟩
  · simp only [hv]
    exact lands_fail hs _

theorem lands_retValue (hs : s.Sound p known held) (ho : i.opcode = .retValue) :
    LandsBody p known c [i] (c.retValue i) s held := by
  refine (lands_lookup hs 0).bind ?_
  rintro v _ _ ⟨rfl, hr⟩
  dsimp only
  by_cases hv : c.returnType.isVoid = true
  · simp only [hv, if_true]
    exact lands_fail_bind hs _
  · simp only [hv]
    refine (lands_expect hs c.returnType v.type).bind ?_
    rintro _ _ _ ⟨rfl, ht⟩
    refine (lands_loadFrom hs v.type v.pointer).bind ?_
    rintro _ t _ ⟨value, rfl, hload⟩
    exact lands_pure ⟨hload, .retValue ho hr (by simpa using hv) ht⟩

theorem lands_lowerFrom {compile : LocatedMethod → M Function}
    (hcompile : CompilesWell p known compile) (hs : s.Sound p known held) (hc : c.Holds known s)
    (is : List Instruction) (hk : ∀ callee, p.CalledIn is callee → known callee) :
    LandsBody p known c is (lowerFrom c (callee p compile) is) s held := by
  induction is generalizing c s held with
  | nil =>
    rw [lowerFrom]
    by_cases hv : c.returnType.isVoid = true
    · simp only [hv, if_true]
      exact lands_pure ⟨hs, .fallThrough hv⟩
    · simp only [hv]
      exact lands_fail hs _
  | cons i rest ih =>
    have hkrest : ∀ callee, p.CalledIn rest callee → known callee :=
      fun callee h => hk callee (h.mono (List.subset_cons_self i rest))
    -- a return is the last instruction, so nothing is left to lower after it
    have hreturn : ∀ w : M (List Inst), LandsBody p known c [i] w s held →
        LandsBody p known c (i :: rest)
          (do
            let code ← w
            if rest.isEmpty then return code
            else Scope.fault { c with index := c.index + 1 } .afterReturn) s held := by
      intro w hw
      refine Lands.bind hw ?_
      rintro out t _ ⟨ht, hout⟩
      cases rest with
      | nil => exact lands_pure ⟨ht, hout⟩
      | cons j js => exact lands_fail ht _
    have hplain : i.opcode ≠ .define → i.opcode ≠ .ret → i.opcode ≠ .retValue →
        LandsBody p known c (i :: rest)
          (do
            let code ← lowerPlain c (callee p compile) i
            return code ++ (← lowerFrom { c with index := c.index + 1 } (callee p compile) rest))
          s held := by
      intro hd hr hv
      have hki : ∀ callee, p.CalledIn [i] callee → known callee :=
        fun callee h => hk callee (h.mono (by simp))
      refine Lands.bind (lands_lowerPlain hki hcompile hs hc hd hr hv) ?_
      rintro out t hg ⟨ht, hout⟩
      refine Lands.bind (ih ht (hc.mono hg) hkrest) ?_
      rintro outs u hg' ⟨hu, houts⟩
      refine lands_pure ⟨hu.of_count ?_, .plain
        (hout.mono hg'.code.subset hg'.functionList.subset) houts⟩
      intro x
      simp only [Binary.results_append, List.count_append]
      omega
    rw [lowerFrom]
    cases ho : i.opcode with
    | ret => exact hreturn _ (lands_ret hs ho)
    | retValue => exact hreturn _ (lands_retValue hs ho)
    | define =>
      dsimp only
      by_cases hd : c.declared.length ≤ c.defined
      · simp only [hd, if_true]
        exact lands_fail hs _
      · simp only [hd, if_false]
        refine Lands.mono (ih hs hc hkrest) ?_
        rintro out t _ ⟨ht, hout⟩
        exact ⟨ht, .define ho (Nat.lt_of_not_le hd) hout⟩
    | _ => exact hplain (by simp [ho]) (by simp [ho]) (by simp [ho])

end ShaderIR.Lowering
