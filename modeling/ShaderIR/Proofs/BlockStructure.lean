import ShaderIR.Proofs.FunctionEntry
import ShaderIR.Proofs.KernelEntries
import ShaderIR.Proofs.ReadableCode

/-! The shape of a compiled function: its parameters, one block that declares all variables before
it does anything else, and one instruction that ends the block. The variables are declared for the
definitions of the body that have the right form, while the body counts the definitions it comes to
in any form. A body that compiles has only definitions of the right form, since each of them takes
one of the declared variables. -/

namespace ShaderIR.Lowering

open Binary (Op Id Inst Stream results)

variable {p : Program} {code : List Inst} {earlier : List Function} {c : Scope}
  {i : Instruction} {is : List Instruction} {out : List Inst}

theorem op_ne_variable_of_arithmeticOp? {opcode : Opcode} {shape : Shape LoweredType} {op : Op}
    (h : arithmeticOp? opcode shape = some op) : op ≠ .variable := by
  unfold arithmeticOp? at h
  split at h <;> simp_all <;> subst h <;> decide

theorem Translates.op_ne_variable (h : Translates p code earlier c i out) :
    ∀ j ∈ out, j.op ≠ .variable := by
  have hload : ∀ (t : LoweredType) (value pointer : Id),
      (loadInst t value pointer).op ≠ .variable := by simp [loadInst, Inst.ofIds]
  have hstore : ∀ pointer value : Id, (storeTo pointer value).op ≠ .variable := by
    simp [storeTo, Inst.ofIds]
  have haccess : ∀ a b d e : Id, (accessInst a b d e).op ≠ .variable := by
    simp [accessInst, Inst.ofIds]
  cases h with
  | negate _ _ _ _ hop =>
    have hne := op_ne_variable_of_arithmeticOp? hop
    simp [hload, hstore, Inst.ofIds, hne]
  | binary _ _ _ _ _ _ hop =>
    have hne := op_ne_variable_of_arithmeticOp? hop
    simp [hload, hstore, Inst.ofIds, hne]
  | @call _ _ _ f slot arguments values result =>
    intro j hj
    rcases List.mem_append.mp hj with hj | hj
    · rw [loadInsts, ← List.map_uncurry_zip_eq_zipWith] at hj
      obtain ⟨v, _, rfl⟩ := List.mem_map.mp hj
      exact hload v.1.type v.2 v.1.pointer
    rcases List.mem_cons.mp hj with rfl | hj
    · simp [Inst.ofIds]
    · obtain ⟨v, _, rfl⟩ := Option.map_eq_some_iff.mp (Option.mem_toList.mp hj)
      exact hstore v.pointer result
  | copy | constant | loadElement | setElement | loadField | setField =>
    simp [hload, hstore, haccess]

theorem Translates.inBlock (h : Translates p code earlier c i out) : InBlocks out := by
  cases h with
  | negate ho hd hs ht hop =>
    rw [ho] at hop
    simp [InBlocks, inBlock_loadInst, inBlock_storeTo, inBlock_negate hop]
  | binary ho hd hl hr ht ht' hop =>
    simp [InBlocks, inBlock_loadInst, inBlock_storeTo, inBlock_binary ho hop]
  | @call _ _ _ f slot arguments values result =>
    refine inBlocks_append (inBlock_loadInsts arguments values) ?_
    simp [InBlocks, inBlock_functionCall, inBlock_storeTo]
  | copy | constant | loadElement | setElement | loadField | setField =>
    simp [InBlocks, inBlock_loadInst, inBlock_storeTo, inBlock_accessInst]

/-- How a block ends: with a value exactly if the function returns one. -/
inductive EndsBlock (returnType : LoweredType) : Inst → Prop
  | void (hv : returnType.isVoid = true) : EndsBlock returnType ⟨.ret, []⟩
  | value (hv : returnType.isVoid = false) (value : Id) :
      EndsBlock returnType ⟨.returnValue, [value.val]⟩

/-- The code of a body is plain instructions and then one that ends the block. -/
theorem TranslatesBody.exists_last (h : TranslatesBody p code earlier c is out) :
    ∃ plain last, out = plain ++ [last] ∧
      (∀ j ∈ plain, j.op.inBlock = true ∧ j.op ≠ .variable) ∧ EndsBlock c.returnType last := by
  induction h with
  | fallThrough hv => exact ⟨[], _, rfl, by simp, .void hv⟩
  | ret ho hv => exact ⟨[], _, rfl, by simp, .void hv⟩
  | @retValue c i v value ho hr hv ht =>
    exact ⟨[loadInst v.type value v.pointer], _, rfl, by simp [loadInst, Inst.ofIds]; decide,
      .value hv value⟩
  | define ho hd _ ih => exact ih
  | @plain c i rest out outs hi _ ih =>
    obtain ⟨plain, last, rfl, hplain, hlast⟩ := ih
    refine ⟨out ++ plain, last, by simp, fun j hj => ?_, hlast⟩
    rcases List.mem_append.mp hj with hj | hj
    · exact ⟨(hi.inBlock j hj).op, hi.op_ne_variable j hj⟩
    · exact hplain j hj

/-- Every definition has the form that a variable is declared for. -/
def WellDefined (is : List Instruction) : Prop :=
  ∀ i ∈ is, i.opcode = .define → ∃ ty, i = .define ty

theorem Locals.wellDefined {vs : List Variable} (h : Locals p is vs)
    (hlength : definitions is ≤ vs.length) : WellDefined is := by
  induction h with
  | nil => simp [WellDefined]
  | @define ty v rest vs ht _ ih =>
    have hrest := ih (by simpa [definitions] using hlength)
    intro j hj ho
    rcases List.mem_cons.mp hj with rfl | hj
    · exact ⟨ty, rfl⟩
    · exact hrest j hj ho
  | @skip i rest vs hi hr ih =>
    have hle := hr.length_le
    have hplain : i.opcode ≠ .define := by
      intro ho
      simp only [definitions, List.countP_cons, ho] at hlength hle
      simp at hlength
      omega
    have hrest := ih (by simpa [definitions, hplain] using hlength)
    intro j hj ho
    rcases List.mem_cons.mp hj with rfl | hj
    · exact absurd ho hplain
    · exact hrest j hj ho

/-! Variables are defined before they are used. -/

theorem Scope.Reads.lt {slot : Nat} {v : Variable} {n : UInt32} (h : c.Reads i slot v)
    (hn : i.operands[slot]? = some (.variable n)) : n.toNat < c.defined := by
  obtain ⟨n', hn', hv⟩ := h
  obtain rfl : n' = n := by simpa using hn'.symm.trans hn
  have hlt := (List.getElem?_eq_some_iff.mp hv).1
  rw [List.length_take] at hlt
  omega

theorem Scope.Receives.lt {slot : Option Variable} {n : UInt32} (h : c.Receives i slot)
    (hn : i.operands[1]? = some (.variable n)) : n.toNat < c.defined := by
  cases slot with
  | none => simp [Receives, hn] at h
  | some v => exact Reads.lt h hn

theorem Scope.Passes.lt {first : Nat} {parameters : List LoweredType} {vs : List Variable}
    (h : c.Passes i first parameters vs) {slot : Nat} (hle : first ≤ slot)
    (hlt : slot < first + parameters.length) {n : UInt32}
    (hn : i.operands[slot]? = some (.variable n)) : n.toNat < c.defined := by
  induction parameters generalizing first vs with
  | nil => simp at hlt; omega
  | cons parameter parameters ih =>
    cases vs with
    | nil => exact h.elim
    | cons v vs =>
      obtain ⟨hr, -, hrest⟩ := h
      by_cases hfirst : slot = first
      · exact (hfirst ▸ hr).lt hn
      · exact ih hrest (by omega) (by simp at hlt; omega)

theorem Immediate.slots {shape : Shape LoweredType} {bits : UInt32} (h : Immediate i shape bits) :
    i.opcode.arity = .exactly 2 ∧ ∀ n, i.operands[1]? ≠ some (.variable n) := by
  cases h with
  | uint32 ho hi => simp [ho, hi, Opcode.arity]
  | float32 ho hi => simp [ho, hi, Opcode.arity]

/-- The variables of a plain instruction are defined. -/
theorem Translates.variable_lt (h : Translates p code earlier c i out) {n : UInt32}
    (hmem : .variable n ∈ i.operands) : n.toNat < c.defined := by
  obtain ⟨slot, hn⟩ := List.mem_iff_getElem?.mp hmem
  have hslot : slot < i.operands.length := (List.getElem?_eq_some_iff.mp hn).1
  have hlength : ∀ k, i.opcode.arity = .exactly k → slot < k := by
    intro k hk
    have hcount : i.operands.length = k := by simpa [hk, Arity.admits] using i.counted
    omega
  cases h with
  | negate ho hd hs =>
    have hlt := hlength 2 (by simp [ho, Opcode.arity])
    obtain rfl | rfl : slot = 0 ∨ slot = 1 := by omega
    · exact hd.lt hn
    · exact hs.lt hn
  | binary ho hd hl hr _ _ hop =>
    have hthree : i.opcode.arity = .exactly 3 := by
      cases hopcode : i.opcode <;> simp_all [arithmeticOp?, Opcode.arity]
    have hlt := hlength 3 hthree
    obtain rfl | rfl | rfl : slot = 0 ∨ slot = 1 ∨ slot = 2 := by omega
    · exact hd.lt hn
    · exact hl.lt hn
    · exact hr.lt hn
  | call ho hr _ _ _ _ hs hcount ha =>
    by_cases hzero : slot = 0
    · simp [hzero, hr] at hn
    by_cases hone : slot = 1
    · exact hs.lt (hone ▸ hn)
    · exact ha.lt (by omega) (by omega) hn
  | copy ho hd hs =>
    have hlt := hlength 2 (by simp [ho, Opcode.arity])
    obtain rfl | rfl : slot = 0 ∨ slot = 1 := by omega
    · exact hd.lt hn
    · exact hs.lt hn
  | constant hd hi =>
    obtain ⟨htwo, hne⟩ := hi.slots
    have hlt := hlength 2 htwo
    obtain rfl | rfl : slot = 0 ∨ slot = 1 := by omega
    · exact hd.lt hn
    · exact absurd hn (hne n)
  | loadElement ho hd hs hi =>
    have hlt := hlength 3 (by simp [ho, Opcode.arity])
    obtain rfl | rfl | rfl : slot = 0 ∨ slot = 1 ∨ slot = 2 := by omega
    · exact hd.lt hn
    · exact hs.lt hn
    · exact hi.lt hn
  | setElement ho hd hi hs =>
    have hlt := hlength 3 (by simp [ho, Opcode.arity])
    obtain rfl | rfl | rfl : slot = 0 ∨ slot = 1 ∨ slot = 2 := by omega
    · exact hd.lt hn
    · exact hi.lt hn
    · exact hs.lt hn
  | loadField ho hd hs hf =>
    have hlt := hlength 3 (by simp [ho, Opcode.arity])
    obtain rfl | rfl | rfl : slot = 0 ∨ slot = 1 ∨ slot = 2 := by omega
    · exact hd.lt hn
    · exact hs.lt hn
    · simp [hf] at hn
  | setField ho hd hs hf =>
    have hlt := hlength 3 (by simp [ho, Opcode.arity])
    obtain rfl | rfl | rfl : slot = 0 ∨ slot = 1 ∨ slot = 2 := by omega
    · exact hd.lt hn
    · simp [hf] at hn
    · exact hs.lt hn

/-- A variable of an instruction is among those defined at the start and by the definitions before
the instruction. -/
theorem TranslatesBody.variable_lt (h : TranslatesBody p code earlier c is out)
    (hdefs : WellDefined is) {pre post : List Instruction} (hsplit : is = pre ++ i :: post)
    {n : UInt32} (hmem : .variable n ∈ i.operands) : n.toNat < c.defined + definitions pre := by
  induction h generalizing pre with
  | fallThrough hv => simp at hsplit
  | @ret c j ho hv =>
    obtain ⟨rfl, rfl, rfl⟩ : pre = [] ∧ j = i ∧ post = [] := by
      cases pre <;> simp_all
    have hnone : j.operands = [] := by simpa [ho, Opcode.arity, Arity.admits] using j.counted
    simp [hnone] at hmem
  | @retValue c j v value ho hr hv ht =>
    obtain ⟨rfl, rfl, rfl⟩ : pre = [] ∧ j = i ∧ post = [] := by
      cases pre <;> simp_all
    obtain ⟨slot, hn⟩ := List.mem_iff_getElem?.mp hmem
    have hlength : j.operands.length = 1 := by
      simpa [ho, Opcode.arity, Arity.admits] using j.counted
    obtain rfl : slot = 0 := by have := (List.getElem?_eq_some_iff.mp hn).1; omega
    exact hr.lt hn
  | @define c j rest out ho hd _ ih =>
    cases pre with
    | nil =>
      obtain ⟨rfl, rfl⟩ := List.cons.inj hsplit
      obtain ⟨ty, rfl⟩ := hdefs j (by simp) ho
      simp at hmem
    | cons j' pre =>
      obtain ⟨rfl, hrest⟩ := List.cons.inj hsplit
      have hlt := ih (fun x hx => hdefs x (by simp [hx])) hrest
      have hcount : definitions (j :: pre) = definitions pre + 1 := by simp [definitions, ho]
      simp only at hlt
      omega
  | @plain c j rest out outs hj _ ih =>
    cases pre with
    | nil =>
      obtain ⟨rfl, rfl⟩ := List.cons.inj hsplit
      exact hj.variable_lt hmem
    | cons j' pre =>
      obtain ⟨rfl, hrest⟩ := List.cons.inj hsplit
      have hlt := ih (fun x hx => hdefs x (by simp [hx])) hrest
      have hcount : definitions (j :: pre) = definitions pre := by
        simp [definitions, hj.opcode_ne.1]
      simp only at hlt
      omega

/-- The definition with the given number among those of a body. -/
theorem exists_definition {k : Nat} (h : k < definitions is) :
    ∃ before i after, is = before ++ i :: after ∧ i.opcode = .define ∧ definitions before = k := by
  induction is generalizing k with
  | nil => simp [definitions] at h
  | cons i rest ih =>
    by_cases ho : i.opcode = .define
    · have hcount : definitions (i :: rest) = definitions rest + 1 := by simp [definitions, ho]
      cases k with
      | zero => exact ⟨[], i, rest, rfl, ho, rfl⟩
      | succ k =>
        obtain ⟨before, j, after, rfl, hj, hk⟩ := ih (k := k) (by omega)
        exact ⟨i :: before, j, after, rfl, hj, by simpa [definitions, ho] using hk⟩
    · have hcount : definitions (i :: rest) = definitions rest := by simp [definitions, ho]
      obtain ⟨before, j, after, rfl, hj, hk⟩ := ih (k := k) (by omega)
      exact ⟨i :: before, j, after, rfl, hj, by simpa [definitions, ho] using hk⟩

namespace Function.Built

variable {f : Function} {q : FunctionParts}

theorem definitions_le (h : f.Built p code earlier q) :
    f.parameters.length + definitions f.method.method.body ≤ q.declared.length :=
  h.body.definitions_le (Semantics.parameters_le h)

/-- There is one variable for each parameter and for each definition of the body. -/
theorem length_declared (h : f.Built p code earlier q) :
    q.declared.length = f.parameters.length + definitions f.method.method.body := by
  have hle := h.definitions_le
  have hlocals := h.locals.length_le
  rw [List.length_drop] at hlocals
  omega

theorem wellDefined (h : f.Built p code earlier q) : WellDefined f.method.method.body := by
  refine h.locals.wellDefined ?_
  have hle := h.definitions_le
  rw [List.length_drop]
  omega

/-- A variable of an instruction is a parameter, or an earlier instruction defines it. -/
theorem defined_before (h : f.Built p code earlier q) {pre post : List Instruction}
    (hsplit : f.method.method.body = pre ++ i :: post) {n : UInt32}
    (hmem : .variable n ∈ i.operands) :
    n.toNat < f.parameters.length ∨
      ∃ before d after, pre = before ++ d :: after ∧ d.opcode = .define ∧
        n.toNat = f.parameters.length + definitions before := by
  have hlt : n.toNat < f.parameters.length + definitions pre :=
    h.body.variable_lt h.wellDefined hsplit hmem
  by_cases hparameter : n.toNat < f.parameters.length
  · exact .inl hparameter
  · obtain ⟨before, d, after, hpre, hd, hcount⟩ :=
      exists_definition (show n.toNat - f.parameters.length < definitions pre by omega)
    exact .inr ⟨before, d, after, hpre, hd, by omega⟩

end Function.Built

/-- The code of a function in one block. Each variable stands with its pointer type before it. -/
def oneBlock (f : Function) (functionType label : UInt32) (passed : List UInt32)
    (slots : List (UInt32 × UInt32)) (plain : List Inst) (last : Inst) : List Inst :=
  ⟨.function, [f.returnType.id.val, f.id.val, 0, functionType]⟩ ::
    (List.zipWith (fun t id => ⟨.functionParameter, [LoweredType.id t |>.val, id]⟩) f.parameters
        passed ++
      ⟨.label, [label]⟩ ::
        (slots.map (fun v => ⟨.variable, [v.1, v.2, 7]⟩) ++
          (List.zipWith (fun v id => ⟨.store, [v.2, id]⟩) slots passed ++
            (plain ++ [last, ⟨.functionEnd, []⟩]))))

namespace FunctionParts

/-- The ids of the variables, each after its pointer type. -/
def slotWords (q : FunctionParts) : List (UInt32 × UInt32) :=
  q.slots.map fun v => (v.2.val, v.1.pointer.val)

theorem map_snd_slotWords (q : FunctionParts) :
    q.slotWords.map Prod.snd = q.declared.map fun v => v.pointer.val := by
  simp [slotWords, declared]

end FunctionParts

theorem Function.Built.code_eq_oneBlock {f : Function} {q : FunctionParts}
    (h : f.Built p code earlier q) {plain : List Inst} {last : Inst}
    (hbody : q.body = plain ++ [last]) :
    f.code = oneBlock f q.functionType.val q.label.val (q.passed.map Id.val) q.slotWords plain
      last := by
  have hparameters : q.parameterInsts f = List.zipWith
      (fun t id => ⟨.functionParameter, [LoweredType.id t |>.val, id]⟩) f.parameters
        (q.passed.map Id.val) := by
    rw [List.zipWith_map_right]
    rfl
  have hstores : q.storeInsts =
      List.zipWith (fun v id => ⟨.store, [Prod.snd v, id]⟩) q.slotWords (q.passed.map Id.val) := by
    rw [FunctionParts.slotWords, List.zipWith_map, FunctionParts.storeInsts,
      FunctionParts.declared, List.zipWith_map_left]
    rfl
  have hvariables : q.variableInsts = q.slotWords.map fun v => ⟨.variable, [v.1, v.2, 7]⟩ := by
    rw [FunctionParts.slotWords, List.map_map]
    rfl
  rw [h.code_eq, oneBlock, FunctionParts.inner, hparameters, hvariables, hstores, hbody]
  simp [FunctionParts.headInst, FunctionParts.labelInst, Inst.ofIds]

/-- The variables of a function have ids of their own. -/
theorem Session.Sound.nodup_slots {known : LocatedMethod → Prop} {s : Session} {held : List UInt32}
    (hs : s.Sound p known held) (hn : s.declarations.issued < 0xFFFFFFFF) {f : Function}
    (hf : f ∈ s.functionList) {q : FunctionParts} (hq : f.Built p code earlier q) :
    (q.slotWords.map Prod.snd).Nodup := by
  obtain ⟨pre, post, hsplit⟩ := List.append_of_mem hf
  have hcode : f.code <:+: s.sections :=
    ⟨s.preamble ++ (s.code ++ pre.flatMap Function.code), post.flatMap Function.code,
      by simp [s.sections_split hsplit]⟩
  have hresults : (results f.code).Nodup :=
    (hs.nodup_sections hn).sublist (hcode.sublist.filterMap _)
  rw [q.map_snd_slotWords]
  exact (Semantics.nodup_entry hq hresults).2.1

/-- The code of a compiled method reads as one block, with different variables unless the ids have
run out. Every variable in its body is a parameter or has its definition before it. -/
theorem compileMethod_oneBlock {s t : Session} (hs : s.Reachable p p.Locates) {depth : Nat}
    {m : LocatedMethod} (hm : p.Locates m) {f : Function}
    (ho : (compileMethod p depth m).outcome s = (.ok f, t))
    (hfits : (Stream.ofInsts f.code).oversized = none) :
    f.method = m ∧ LowersReturn p m.method.returnType f.returnType ∧
      List.Forall₂ (Lowers p) (receivedTypes m.method) f.parameters ∧
      (∃ functionType label passed slots plain last,
        (Stream.ofInsts f.code).insts? =
          some (oneBlock f functionType label passed slots plain last) ∧
        ⟨.typeFunction, functionType :: f.returnType.id.val ::
          f.parameters.map fun t => t.id.val⟩ ∈ t.code ∧
        passed.length = f.parameters.length ∧
        slots.length = f.parameters.length + definitions m.method.body ∧
        (t.declarations.issued < 0xFFFFFFFF → (slots.map Prod.snd).Nodup) ∧
        (∀ j ∈ plain, j.op ≠ .variable ∧ j.op ≠ .label ∧ j.op ≠ .functionParameter ∧
          j.op.isTerminator = false ∧ j.op.isInner = true) ∧
        EndsBlock f.returnType last) ∧
      ∀ pre i post, m.method.body = pre ++ i :: post → ∀ n, .variable n ∈ i.operands →
        n.toNat < f.parameters.length ∨
          ∃ before d after, pre = before ++ d :: after ∧ d.opcode = .define ∧
            n.toNat = f.parameters.length + definitions before := by
  obtain ⟨held, hsound⟩ := hs.sound (Program.resolves_locates p)
  obtain ⟨-, ht, hf, hid⟩ :=
    (compilesWell_compileMethod (Program.resolves_locates p) depth s held hsound m hm).of_ok ho
  have hmethod : f.method = m := (ht.known f hf).eq_of_id_eq hm hid
  obtain ⟨_, _, q, _, hq⟩ := ht.built hf
  obtain ⟨plain, last, hbody, hplain, hlast⟩ := hq.body.exists_last
  have hread : (Stream.ofInsts f.code).insts? = some f.code := by
    exact Stream.insts?_ofInsts
      (fun i hi => ht.op_mem (Session.functionCode_subset_sections hf hi)) hfits
  subst hmethod
  refine ⟨rfl, hq.returnLowers, hq.parameterLowers,
    ⟨q.functionType.val, q.label.val, q.passed.map Id.val, q.slotWords, plain, last, ?_,
      hq.functionType, ?_, ?_, fun hn => ht.nodup_slots hn hf hq, ?_, hlast⟩, ?_⟩
  · rw [hread, ← hq.code_eq_oneBlock hbody]
  · rw [List.length_map, hq.passed]
  · have hlength := hq.length_declared
    rw [FunctionParts.declared, List.length_map] at hlength
    rw [FunctionParts.slotWords, List.length_map, hlength]
  · intro j hj
    obtain ⟨hblock, hvariable⟩ := hplain j hj
    simp only [Op.inBlock, Bool.and_eq_true, Bool.not_eq_true', bne_iff_ne] at hblock
    obtain ⟨⟨⟨hinner, hterminator⟩, hparameter⟩, hlabel⟩ := hblock
    exact ⟨hvariable, hlabel, hparameter, hterminator, hinner⟩
  · intro pre i post hsplit n hn
    exact hq.defined_before hsplit hn

/-- The method of the probe with a receiver and a parameter. -/
def Probe.located : LocatedMethod :=
  ⟨⟨⟨[], "Probe"⟩, 0, none, none⟩, Probe.pick⟩

theorem compileMethod_oneBlock_probe :
    ∃ f t, (compileMethod Probe.program 9 Probe.located).outcome {} = (.ok f, t) ∧
      f.parameters.length = 2 ∧
      (∃ functionType label passed slots plain last,
        (Stream.ofInsts f.code).insts? =
          some (oneBlock f functionType label passed slots plain last) ∧
        passed.length = 2 ∧ slots.length = 4 ∧ (slots.map Prod.snd).Nodup ∧
        EndsBlock f.returnType last) ∧
      ∀ pre i post, Probe.pick.body = pre ++ i :: post → ∀ n, .variable n ∈ i.operands →
        n.toNat < 2 ∨ ∃ before d after, pre = before ++ d :: after ∧ d.opcode = .define ∧
          n.toNat = 2 + definitions before := by
  have hempty : Session.Reachable Probe.program Probe.program.Locates {} := .empty
  have hm : Probe.program.Locates Probe.located := by
    unfold Program.Locates
    decide +kernel
  have hok : ((compileMethod Probe.program 9 Probe.located).outcome {}).1.isOk = true := by
    decide +kernel
  have hissued : ((compileMethod Probe.program 9 Probe.located).outcome {}).2.declarations.issued <
      0xFFFFFFFF := by
    decide +kernel
  have hrun : ∀ f ∈ ((compileMethod Probe.program 9 Probe.located).outcome {}).1.toOption,
      f.parameters.length = 2 ∧ (Stream.ofInsts f.code).oversized = none := by
    decide +kernel
  rcases ho : (compileMethod Probe.program 9 Probe.located).outcome {} with ⟨e | f, t⟩
  · rw [ho] at hok
    cases hok
  · rw [ho] at hrun hissued
    obtain ⟨htwo, hfits⟩ := hrun f rfl
    obtain ⟨-, -, -, ⟨functionType, label, passed, slots, plain, last, hread, -, hpassed, hslots,
      hnodup, -, hlast⟩, hbefore⟩ := compileMethod_oneBlock hempty hm ho hfits
    rw [htwo] at hpassed hslots hbefore
    exact ⟨f, t, rfl, htwo, ⟨functionType, label, passed, slots, plain, last, hread, hpassed,
      hslots, hnodup hissued, hlast⟩, hbefore⟩

end ShaderIR.Lowering
