import ShaderIR.Proofs.TypeSection

/-! The entry points of a session. A session may serve any requests for functions, and some of them
may fail; whatever became of them, it has one entry point and one mode for each kernel that it has
built, in the order of its functions. -/

namespace ShaderIR

/-- Kernels have entry points. -/
def LocatedMethod.isKernel (m : LocatedMethod) : Bool :=
  m.method.kernelSize?.isSome

namespace Lowering

open Binary (Op Inst Stream results)

/-- The session after requests for the functions of the given instances, one after the other.
A request that fails leaves its session to the next one. -/
def Session.serve (p : Program) (depth : Nat) (s : Session) (requests : List MethodInstance) :
    Session :=
  requests.foldl (fun s i => ((compileInstance p depth i).outcome s).2) s

/-- The function returns nothing and takes nothing: its type is that of such functions, and its
first block follows its head. -/
structure Function.Bare (code : List Inst) (f : Function) : Prop where
  parameters : f.parameters = []
  returnType : ⟨.typeVoid, [f.returnType.id.val]⟩ ∈ code
  head : ∃ functionType label rest,
    f.code = ⟨.function, [f.returnType.id.val, f.id.val, 0, functionType]⟩ ::
      ⟨.label, [label]⟩ :: rest ∧
    ⟨.typeFunction, [functionType, f.returnType.id.val]⟩ ∈ code

variable {p : Program} {known : LocatedMethod → Prop} {s s₀ t : Session} {held : List UInt32}
  {depth : Nat}

theorem Session.Reachable.compileInstance (h : s.Reachable p fun _ => True) (depth : Nat)
    (i : MethodInstance) :
    ((compileInstance p depth i).outcome s).2.Reachable p fun _ => True := by
  unfold Lowering.compileInstance
  cases i.concrete? with
  | none => exact h
  | some m => exact h.method depth trivial

theorem Session.Reachable.serve (h : s.Reachable p fun _ => True) (depth : Nat)
    (requests : List MethodInstance) : (s.serve p depth requests).Reachable p fun _ => True := by
  induction requests generalizing s with
  | nil => exact h
  | cons i rest ih => exact ih (h.compileInstance depth i)

theorem Session.Sound.lands_compileInstance (hs : s.Sound p (fun _ => True) held) (depth : Nat)
    (i : MethodInstance) :
    Lands p (fun _ => True) (compileInstance p depth i) s fun f t =>
      f ∈ t.functionList ∧ ∃ m, i.concrete? = some m ∧ f.method.id = m.id := by
  unfold compileInstance
  cases hi : i.concrete? with
  | none => exact lands_fail hs _
  | some m =>
    refine (compilesWell_compileMethod (resolves_any p) depth s held hs m trivial).mono ?_
    rintro f t _ ⟨_, hf, hid⟩
    exact ⟨hf, m, rfl, hid⟩

/-- Requests never take a function off the list. -/
theorem Session.Reachable.functionList_serve (h : s.Reachable p fun _ => True) (depth : Nat)
    (requests : List MethodInstance) :
    s.functionList <+: (s.serve p depth requests).functionList := by
  induction requests generalizing s with
  | nil => exact List.prefix_rfl
  | cons i rest ih =>
    obtain ⟨held, hs⟩ := h.sound (resolves_any p)
    have hstep := (hs.lands_compileInstance depth i).last (fun _ _ h => h.1.functionList)
      (fun _ _ h => h.1.functionList)
    exact hstep.trans (ih (h.compileInstance depth i))

theorem Session.serve_append (p : Program) (depth : Nat) (s : Session)
    (before after : List MethodInstance) :
    s.serve p depth (before ++ after) = (s.serve p depth before).serve p depth after :=
  List.foldl_append

/-- A function that some request returned stays on the list. -/
theorem Session.Reachable.mem_serve (h : s.Reachable p fun _ => True)
    {before after : List MethodInstance} {i : MethodInstance} {f : Function}
    (hf : (Lowering.compileInstance p depth i).outcome (s.serve p depth before) = (.ok f, t)) :
    f ∈ (s.serve p depth (before ++ i :: after)).functionList ∧
      ∃ m, i.concrete? = some m ∧ f.method.id = m.id := by
  have hbefore := h.serve depth before
  obtain ⟨held, hs⟩ := hbefore.sound (resolves_any p)
  obtain ⟨_, hmem, hm⟩ := (hs.lands_compileInstance depth i).of_ok hf
  refine ⟨?_, hm⟩
  have ht : t.Reachable p fun _ => True := by
    have hreached := hbefore.compileInstance depth i
    rwa [hf] at hreached
  have hafter : s.serve p depth (before ++ i :: after) = t.serve p depth after := by
    rw [serve_append]
    exact congrArg (fun r => Session.serve p depth (Prod.snd r) after) hf
  rw [hafter]
  exact (ht.functionList_serve depth after).subset hmem

namespace Session.Sound

theorem bare (hs : s.Sound p known held) {f : Function} (hf : f ∈ s.functionList)
    (hkernel : f.method.isKernel = true) : f.Bare s.code := by
  obtain ⟨pre, post, hsplit⟩ := List.append_of_mem hf
  obtain ⟨q, hq, hsourced⟩ := hs.lowered pre f post hsplit
  obtain ⟨hvoid, hparameters⟩ := hsourced.kernel hkernel
  have hshape : f.returnType.shape = .void := by
    cases hshape : f.returnType.shape <;> simp_all [LoweredType.isVoid]
  refine ⟨hparameters, ?_, q.functionType.val, q.label.val,
    q.variableInsts ++ (q.storeInsts ++ q.body) ++ [⟨.functionEnd, []⟩], ?_, ?_⟩
  · have hhere := hq.returnType.here
    rw [hshape] at hhere
    exact hhere
  · rw [hq.code_eq, FunctionParts.inner, FunctionParts.parameterInsts, hparameters]
    rfl
  · have htype := hq.functionType
    rw [hparameters] at htype
    exact htype

theorem nodup_functions (hs : s.Sound p known held) (hn : s.declarations.issued < 0xFFFFFFFF) :
    (s.functionList.map fun f => f.id.val).Nodup := by
  have hdefined : s.defined.Nodup := hs.results_sections ▸ hs.nodup_sections hn
  refine (List.nodup_append.mp hdefined).2.1.sublist ?_
  have hall : ∀ fs : List Function, (∀ f ∈ fs, f.id.val ∈ (results f.code).head?) →
      (fs.map fun f => f.id.val).Sublist (results (fs.flatMap Function.code)) := by
    intro fs hfs
    induction fs with
    | nil => exact .slnil
    | cons f fs ih =>
      obtain ⟨rest, hrest⟩ := List.head?_eq_some_iff.mp (hfs f List.mem_cons_self)
      rw [List.map_cons, List.flatMap_cons, Binary.results_append, hrest, List.cons_append]
      refine .cons_cons _ ((ih fun g hg => hfs g (List.mem_cons_of_mem f hg)).trans ?_)
      exact List.sublist_append_right ..
  refine hall _ fun f hf => ?_
  obtain ⟨_, _, q, _, hq⟩ := hs.built hf
  rw [hq.code_eq, FunctionParts.results_code hq.passed]
  rfl

theorem insts?_entryPoints (hs : s.Sound p known held)
    (hfits : (Stream.ofInsts s.entryPoints.toList).oversized = none) :
    (Stream.ofInsts s.entryPoints.toList).insts? =
      some (s.functionList.filterMap Function.entryPoint?) := by
  rw [← hs.entryPoints]
  refine Stream.insts?_ofInsts (fun i hi => ?_) hfits
  exact hs.op_mem (by simp [sections_eq, preamble, hi])

/-- The instructions of modes are short enough always. -/
theorem insts?_modes (hs : s.Sound p known held) :
    (Stream.ofInsts s.modes.toList).insts? = some (s.functionList.filterMap Function.mode?) := by
  rw [← hs.modes]
  refine Stream.insts?_ofInsts (fun i hi => ?_) (Stream.oversized_emitAll rfl fun i hi => ?_)
  · exact hs.op_mem (by simp [sections_eq, preamble, hi])
  · rw [hs.modes] at hi
    obtain ⟨f, _, hmode⟩ := List.mem_filterMap.mp hi
    obtain ⟨size, _, rfl⟩ := Option.map_eq_some_iff.mp hmode
    rfl

end Session.Sound

/-- Whatever requests a session has served, its entry points are those of the kernels among its
functions, in the order of the functions, and so are its modes. Kernels return nothing and take
nothing. The functions have ids of their own, and what a request returned is one of them. -/
theorem Session.serve_entries_kernels (h₀ : s₀.Reachable p fun _ => True) (depth : Nat)
    (requests : List MethodInstance) (hs : s₀.serve p depth requests = s)
    (hfits : (Stream.ofInsts s.entryPoints.toList).oversized = none) :
    (Stream.ofInsts s.entryPoints.toList).insts? =
        some (s.functionList.filterMap Function.entryPoint?) ∧
      (Stream.ofInsts s.modes.toList).insts? = some (s.functionList.filterMap Function.mode?) ∧
      (∀ f ∈ s.functionList, f.method.isKernel = true → f.Bare s.code) ∧
      (s.declarations.issued < 0xFFFFFFFF → (s.functionList.map fun f => f.id.val).Nodup) ∧
      (∀ id f, s.functions.get? id = some f → f ∈ s.functionList ∧ f.method.id = id) ∧
      ∀ before i after f t, requests = before ++ i :: after →
        (compileInstance p depth i).outcome (s₀.serve p depth before) = (.ok f, t) →
        f ∈ s.functionList ∧ ∃ m, i.concrete? = some m ∧ f.method.id = m.id := by
  subst hs
  obtain ⟨held, hs⟩ := (h₀.serve depth requests).sound (resolves_any p)
  refine ⟨hs.insts?_entryPoints hfits, hs.insts?_modes, fun f hf hk => hs.bare hf hk,
    hs.nodup_functions, hs.functions, ?_⟩
  rintro before i after f t rfl hf
  exact h₀.mem_serve hf

namespace Relay

def shader : Ty := .named "Shader" []

/-- A kernel that calls another one and then reads a variable that it does not have. -/
def broken : Method where
  owner := shader
  name := "broken"
  attributes := [.static, .kernel 1 1 1]
  body :=
    [.mk .call [.method ⟨shader, 1, "step", []⟩, .void], .mk .load [.variable 0, .variable 1]]

def step : Method where
  owner := shader
  name := "step"
  attributes := [.static, .kernel 8 4 2]

def main : Method where
  owner := shader
  name := "main"
  attributes := [.static, .kernel 64 1 1]

def program : Program where
  name := "relay"
  types := [{ fullName := "Shader", methods := [broken, step, main] }]

/-- A request for each method, and then again one for each. -/
def requests : List MethodInstance :=
  (program.methods ++ program.methods).map .concrete

/-- The session that the requests leave. -/
def served : Session :=
  Session.serve program 9 {} requests

end Relay

theorem Session.serve_entries_kernels_relay :
    (∀ m ∈ Relay.program.methods.head?,
      ((compileInstance Relay.program 9 (.concrete m)).outcome {}).1.isOk = false) ∧
    Relay.served.functionList.map (fun f => f.method.fullName) = ["Shader::step", "Shader::main"] ∧
    (Stream.ofInsts Relay.served.entryPoints.toList).insts? =
      some (Relay.served.functionList.filterMap Function.entryPoint?) ∧
    (Stream.ofInsts Relay.served.modes.toList).insts? =
      some (Relay.served.functionList.filterMap Function.mode?) ∧
    ∀ f ∈ Relay.served.functionList, f.method.isKernel = true →
      f.Bare Relay.served.code := by
  have hfits : (Stream.ofInsts Relay.served.entryPoints.toList).oversized = none := by
    decide +kernel
  have hempty : Session.Reachable Relay.program (fun _ => True) {} := .empty
  obtain ⟨hentries, hmodes, hkernels, _⟩ :=
    Session.serve_entries_kernels hempty 9 Relay.requests (s := Relay.served) rfl hfits
  exact ⟨by decide +kernel, by decide +kernel, hentries, hmodes, hkernels⟩

end Lowering

end ShaderIR
