import ShaderIR.Proofs.FunctionEntry

/-! Compiled modules compute what the methods of their program compute. -/

namespace ShaderIR.Semantics

open Binary (Op Id Inst Image results)
open Lowering (Function FunctionParts Session Scope Translates TranslatesBody Options
  CompiledModule compile)

variable {p : Program} {known : LocatedMethod → Prop} {s : Session} {held : List UInt32}

section Place

variable {pre post : List Function} {f : Function} {q : FunctionParts}

theorem nodup_code (hnd : (results s.sections).Nodup)
    (hsplit : s.functionList = pre ++ f :: post) :
    (results f.code).Nodup ∧ ∀ x ∈ results f.code, x ∉ results s.code := by
  rw [Session.sections_split hsplit, Binary.results_append, Binary.results_append] at hnd
  obtain ⟨_, hrest, hdisjoint⟩ := List.nodup_append.mp hnd
  rw [Binary.results_append] at hrest
  refine ⟨(List.nodup_append.mp hrest).1, fun x hx hx' => ?_⟩
  exact hdisjoint x (by simp [hx']) x (by simp [hx]) rfl

theorem functionBody?_eq (hnd : (results s.sections).Nodup)
    (hsplit : s.functionList = pre ++ f :: post) (hq : f.Built p s.code pre q) :
    functionBody? s.sections f.id.val = some (q.inner f) := by
  rw [Session.sections_split hsplit] at hnd ⊢
  have hbefore : ∀ i ∈ s.preamble ++ (s.code ++ pre.flatMap Function.code),
      (!(i.op == .function && i.result? == some f.id.val)) = true := by
    intro i hi
    rw [Binary.results_append] at hnd
    have hdisjoint := (List.nodup_append.mp hnd).2.2
    have hmem : f.id.val ∈ results (f.code ++ post.flatMap Function.code) := by
      rw [Binary.results_append]
      exact List.mem_append_left _ hq.id_mem
    have hne : i.result? ≠ some f.id.val := by
      intro hr
      exact hdisjoint _ (Binary.result_mem hi hr) _ hmem rfl
    simp [hne]
  have hhead : (!((q.headInst f).op == .function &&
      (q.headInst f).result? == some f.id.val)) = false := by
    have hop : (q.headInst f).op = .function := rfl
    have hresult : (q.headInst f).result? = some f.id.val := rfl
    simp [hop, hresult]
  have hinner : ∀ i ∈ q.inner f, (i.op != .functionEnd) = true := by
    intro i hi
    have hi' := hq.isInner i hi
    cases hop : i.op <;> simp_all [Op.isInner]
  rw [functionBody?, List.dropWhile_append_of_pos hbefore, hq.code_eq, List.cons_append,
    List.dropWhile_cons_of_neg (by simp [hhead])]
  dsimp only
  rw [List.append_assoc, List.takeWhile_append_of_pos hinner]
  simp

end Place

/-- Every function computes what its method computes, to any depth of calls. -/
theorem agrees_functions (hs : s.Sound p p.Locates held) (hn : s.declarations.issued < 0xFFFFFFFF)
    (σ : Setting) (depth : Nat) :
    Agrees s.functionList (runFunction σ s.sections depth) (runMethod σ p depth) := by
  have hnd := hs.nodup_sections hn
  induction depth with
  | zero => exact fun f _ path arguments => rfl
  | succ depth ih =>
    intro f hf path arguments
    obtain ⟨pre, post, q, hsplit, hq⟩ := hs.built hf
    obtain ⟨hcode, hapart⟩ := nodup_code hnd hsplit
    have hpre : ∀ g ∈ pre, g ∈ s.functionList := fun g hg => by simp [hsplit, hg]
    have hreceived := hq.parameterLowers.length_eq
    rw [runFunction, functionBody?_eq hnd hsplit hq]
    dsimp only
    rw [runCode_inner hq hcode, runMethod, hreceived]
    by_cases hlength : arguments.length = f.parameters.length
    · rw [if_pos hlength, if_pos hlength]
      obtain ⟨_, _, _, hbody, hpointers⟩ := nodup_entry hq hcode
      have hinner : ∀ x ∈ results q.body, x ∈ results f.code := by
        intro x hx
        rw [hq.code_eq]
        simp [FunctionParts.inner, hx]
      exact runCode_eq_runBody hq.body (related_entry hq hcode hapart hlength) hq.locals hnd
        s.code_subset_sections hbody (fun x hx => ⟨hapart x (hinner x hx), hpointers x hx⟩)
        (fun g hg => ih g (hpre g hg)) (fun g hg => hs.known g (hpre g hg))
    · rw [if_neg hlength, if_neg hlength]

/-! Functions call only functions that stand before them, so that no run is cut off at a depth of
calls greater than their number. -/

theorem defined_ne_tooDeep {α : Type} (o : Option α) : defined o ≠ .error .tooDeep := by
  cases o <;> simp [defined]

theorem bind_ne_tooDeep {α β : Type} {x : Result α} {f : α → Result β}
    (hx : x ≠ .error .tooDeep) (hf : ∀ a, f a ≠ .error .tooDeep) :
    (x >>= f) ≠ .error .tooDeep := by
  cases x with
  | error e =>
    intro he
    exact hx (congrArg Except.error (Except.error.inj he))
  | ok a => exact hf a

section Halting

variable {σ : Setting} {code out : List Inst} {path : List Nat} {c : Scope}
  {earlier : List Function} {call : Caller Method}

theorem callee_of_translates {i : Instruction} (ht : Translates p code earlier c i out)
    (hlocates : ∀ f ∈ earlier, p.Locates f.method) (ho : i.opcode = .call) :
    ∃ f ∈ earlier, callee? p (operand? i 0) = some f.method.method := by
  cases ht with
  | call _ hr ht hm hf hid => exact ⟨_, hf, callee?_eq hlocates hr ht hm hf hid⟩
  | binary _ _ _ _ _ _ hop => exact absurd ho (ne_call_of_arithmeticOp? hop)
  | constant _ hi _ => rcases opcode_of_immediate hi with he | he <;> simp [he] at ho
  | negate he | copy he | loadElement he | setElement he | loadField he | setField he =>
    simp [he] at ho

theorem bodyStep_ne_tooDeep {i : Instruction} (ht : Translates p code earlier c i out)
    (hlocates : ∀ f ∈ earlier, p.Locates f.method)
    (hcalls : ∀ f ∈ earlier, ∀ path arguments,
      call path f.method.method arguments ≠ .error .tooDeep) (st : Store) :
    bodyStep σ p path call i st ≠ .error .tooDeep := by
  by_cases ho : i.opcode = .call
  · obtain ⟨f, hf, hcallee⟩ := callee_of_translates ht hlocates ho
    have hstep : bodyStep σ p path call i st = callStep p path call i st := by
      simp [bodyStep, ho]
    rw [hstep, callStep, hcallee, defined_some_bind]
    refine bind_ne_tooDeep (defined_ne_tooDeep _) fun arguments => ?_
    exact bind_ne_tooDeep (hcalls f hf _ arguments) fun _ => defined_ne_tooDeep _
  · rw [bodyStep_plain ho]
    exact defined_ne_tooDeep _

theorem runBody_ne_tooDeep {is : List Instruction} (hb : TranslatesBody p code earlier c is out)
    (hlocates : ∀ f ∈ earlier, p.Locates f.method)
    (hcalls : ∀ f ∈ earlier, ∀ path arguments,
      call path f.method.method arguments ≠ .error .tooDeep) (st : Store) :
    runBody σ p path call is st ≠ .error .tooDeep := by
  induction hb generalizing st with
  | fallThrough hv => simp [runBody]
  | ret ho hv => simp [runBody, ho]
  | @retValue c i v value ho hr hv ht =>
    cases hread : st.read? (operand? i 0) <;> simp [runBody, ho, hread, defined, Except.map]
  | define ho hd hr ih =>
    rw [runBody_step (by simp [ho]) (by simp [ho]), bodyStep_plain (by simp [ho])]
    exact bind_ne_tooDeep (defined_ne_tooDeep _) ih
  | plain hi hr ih =>
    rw [runBody_step hi.opcode_ne.2.1 hi.opcode_ne.2.2]
    exact bind_ne_tooDeep (bodyStep_ne_tooDeep hi hlocates hcalls st) ih

end Halting

/-- A method runs to its end when calls may be as deep as its function has functions before it. -/
theorem runMethod_ne_tooDeep (hs : s.Sound p p.Locates held) (σ : Setting) (depth : Nat)
    {pre post : List Function} {f : Function} (hsplit : s.functionList = pre ++ f :: post)
    (hdepth : pre.length < depth) (path : List Nat) (arguments : List Value) :
    runMethod σ p depth path f.method.method arguments ≠ .error .tooDeep := by
  induction depth generalizing pre f post path arguments with
  | zero => exact absurd hdepth (Nat.not_lt_zero _)
  | succ depth ih =>
    obtain ⟨q, hq⟩ := hs.order pre f post hsplit
    have hlocates : ∀ g ∈ pre, p.Locates g.method := fun g hg =>
      hs.known g (by simp [hsplit, hg])
    have hcalls : ∀ g ∈ pre, ∀ path arguments,
        runMethod σ p depth path g.method.method arguments ≠ .error .tooDeep := by
      intro g hg path arguments
      obtain ⟨before, after, rfl⟩ := List.append_of_mem hg
      have hsplit' : s.functionList = before ++ g :: (after ++ f :: post) := by simp [hsplit]
      have hdepth' : before.length < depth := by
        simp only [List.length_append, List.length_cons] at hdepth
        omega
      exact ih hsplit' hdepth' path arguments
    rw [runMethod]
    split
    · exact runBody_ne_tooDeep hq.body hlocates hcalls _
    · simp

theorem function_of_op (hs : s.Sound p known held) {i : Inst} (hi : i ∈ s.sections)
    (hop : i.op = .function) : ∃ f ∈ s.functionList, i.result? = some f.id.val := by
  rcases hs.sections_cases hi with hi | hi | ⟨f, hf, q, rfl⟩ | hi | rfl
  · rcases hs.preamble_cases hi with rfl | rfl | ⟨f, _, ⟨words, rfl⟩ | ⟨x, y, z, rfl⟩⟩ <;>
      cases hop
  · rw [hop] at hi
    cases hi
  · exact ⟨f, hf, rfl⟩
  · rw [hop] at hi
    cases hi
  · cases hop

/-- The functions of a module are those of the methods that were compiled, the concrete methods of
the program among them, and each returns what its method returns. -/
theorem compile_preserves_meaning {s₀ : Session} {options : Options} {m : CompiledModule}
    (hp : p.Distinct) (h₀ : s₀.Reachable p p.Locates)
    (h : (compile p options).outcome s₀ = (.ok m, s))
    (hn : s.declarations.issued < 0xFFFFFFFF) :
    ∃ image, Image.read? m.bytes = some image ∧
      (∀ lm ∈ p.methods, lm.isConcrete = true → ∃ f ∈ s.functionList, f.method = lm) ∧
      (∀ i ∈ image.code, i.op = .function →
        ∃ f ∈ s.functionList, i.result? = some f.id.val) ∧
      ∀ f ∈ s.functionList, p.Locates f.method ∧
        ∀ (σ : Setting) (path : List Nat) (arguments : List Value),
          (∀ depth, runFunction σ image.code depth path f.id.val arguments =
            runMethod σ p depth path f.method.method arguments) ∧
          ∀ depth, s.functionList.length ≤ depth →
            runMethod σ p depth path f.method.method arguments ≠ .error .tooDeep := by
  obtain ⟨held, hs₀⟩ := h₀.sound (Program.resolves_locates p)
  obtain ⟨hs, hm, hmethods⟩ := Lowering.compile_sound (Program.resolves_locates p)
    (Program.locates_methods hp) hs₀ h
  refine ⟨_, hm.image hs, ?_, fun i hi hop => function_of_op hs hi hop, ?_⟩
  · intro lm hlm hc
    obtain ⟨f, hf, hid⟩ := hmethods lm hlm hc
    exact ⟨f, hf, (hs.known f hf).eq_of_id_eq (Program.locates_methods hp lm hlm) hid⟩
  · intro f hf
    refine ⟨hs.known f hf, fun σ path arguments => ⟨?_, ?_⟩⟩
    · exact fun depth => agrees_functions hs hn σ depth f hf path arguments
    · intro depth hdepth
      obtain ⟨pre, post, hsplit⟩ := List.append_of_mem hf
      have hlt : pre.length < depth := by
        rw [hsplit, List.length_append, List.length_cons] at hdepth
        omega
      exact runMethod_ne_tooDeep hs σ depth hsplit hlt path arguments

theorem runMethod_pick (σ : Setting) {r : Value} (w x y z t : Value)
    (h : σ.arithmetic.floatAdd z z = some r) :
    runMethod σ Lowering.Probe.program 1 [] Lowering.Probe.pick
      [.composite [w, .composite [x, y, z, t]], .word 2] = .ok (some r) := by
  have hkind : numberKind? Lowering.Probe.program Lowering.Probe.float = some .float := by
    decide +kernel
  simp [runMethod, runBody, bodyStep, plainStep?, Lowering.Probe.pick, Lowering.receivedTypes,
    Method.isStatic, Store.define, Store.read?, Store.write?, Value.part?, Value.setPart?,
    position?, Arithmetic.ofOpcode, defined, h, hkind, bind, Except.bind, Except.map, Option.bind]

theorem compile_preserves_meaning_probe :
    Lowering.Probe.program.Distinct ∧
      Lowering.Probe.session.Reachable Lowering.Probe.program Lowering.Probe.program.Locates ∧
      (∃ m s, (compile Lowering.Probe.program {}).outcome Lowering.Probe.session = (.ok m, s) ∧
        s.declarations.issued < 0xFFFFFFFF ∧
        ∃ image, Image.read? m.bytes = some image ∧
          (∀ lm ∈ Lowering.Probe.program.methods, lm.isConcrete = true →
            ∃ f ∈ s.functionList, f.method = lm) ∧
          (∀ i ∈ image.code, i.op = .function →
            ∃ f ∈ s.functionList, i.result? = some f.id.val) ∧
          ∀ f ∈ s.functionList, Lowering.Probe.program.Locates f.method ∧
            ∀ (σ : Setting) (path : List Nat) (arguments : List Value),
              (∀ depth, runFunction σ image.code depth path f.id.val arguments =
                runMethod σ Lowering.Probe.program depth path f.method.method arguments) ∧
              ∀ depth, s.functionList.length ≤ depth →
                runMethod σ Lowering.Probe.program depth path f.method.method arguments ≠
                  .error .tooDeep) ∧
      ∀ (σ : Setting) (w x y z t r : Value), σ.arithmetic.floatAdd z z = some r →
        runMethod σ Lowering.Probe.program 1 [] Lowering.Probe.pick
          [.composite [w, .composite [x, y, z, t]], .word 2] = .ok (some r) := by
  have hp : Lowering.Probe.program.Distinct := by
    unfold Program.Distinct
    decide
  have h₀ := Lowering.Probe.reachable_session Lowering.Probe.program.Locates
  obtain ⟨m, s, h, hn⟩ := Lowering.Probe.compiles_session
  refine ⟨hp, h₀, ⟨m, s, h, hn, compile_preserves_meaning hp h₀ h hn⟩, ?_⟩
  exact fun σ w x y z t r hr => runMethod_pick σ w x y z t hr

end ShaderIR.Semantics
