import ShaderIR.Proofs.EmittedFunctions
import ShaderIR.Proofs.InstructionCoding
import ShaderIR.Proofs.KernelEntries

/-! Two rules of the target format about entry points: no two of them have the same model and name,
and none of them is called. A compiled module obeys them exactly if the kernels of its program have
different names and are not called. -/

namespace ShaderIR

namespace Binary

/-- The bytes of the literal string that words start with: those before the first zero byte. -/
def literalBytes (words : List UInt32) : List UInt8 :=
  (words.flatMap Cursor.lowFirst).takeWhile (· != 0)

theorem literalBytes_nameWords (s : String) :
    literalBytes (nameWords s) = (utf8 s).takeWhile (· != 0) := by
  obtain ⟨⟨k, hbytes⟩, _⟩ := packName_bytes (utf8 s)
  rw [literalBytes, nameWords, hbytes, List.takeWhile_append]
  split
  · rename_i hall
    have hself : (utf8 s).takeWhile (· != 0) = utf8 s :=
      (List.takeWhile_prefix _).eq_of_length hall
    simp [hself]
  · rfl

/-- The execution model and the name of an entry point. -/
def Inst.entryName (i : Inst) : Option UInt32 × List UInt8 :=
  (i.operands.head?, literalBytes (i.operands.drop 2))

/-- No two entry points have the same model and name. -/
def EntryNamesDistinct (code : List Inst) : Prop :=
  ((code.filter fun i => i.op = .entryPoint).map Inst.entryName).Nodup

instance (code : List Inst) : Decidable (EntryNamesDistinct code) :=
  inferInstanceAs (Decidable (List.Nodup _))

/-- No call is one of the function of an entry point. -/
def EntryPointsUncalled (code : List Inst) : Prop :=
  ∀ call ∈ code, call.op = .functionCall → ∀ entry ∈ code, entry.op = .entryPoint →
    call.operands[2]? ≠ entry.operands[1]?

instance (code : List Inst) : Decidable (EntryPointsUncalled code) :=
  inferInstanceAs (Decidable (∀ _ ∈ _, _ → ∀ _ ∈ _, _ → _ ≠ _))

end Binary

/-- The name of a method as a literal string, which ends before a zero byte. -/
def LocatedMethod.literalName (m : LocatedMethod) : List UInt8 :=
  (Binary.utf8 m.fullName).takeWhile (· != 0)

namespace Program

/-- Different kernels that are reached have different names. -/
def KernelNamesDistinct (p : Program) : Prop :=
  ∀ m m', p.Reached m → p.Reached m' → m.isKernel = true → m'.isKernel = true →
    m.literalName = m'.literalName → m = m'

/-- No method that is reached calls a kernel. -/
def KernelsUncalled (p : Program) : Prop :=
  ∀ m callee, p.Reached m → p.Calls m callee → callee.isKernel = false

end Program

namespace Lowering

open Binary (Op Inst Image EntryNamesDistinct EntryPointsUncalled)

/-- The entry point of a function as a kernel. -/
def Function.entryInst (f : Function) : Inst :=
  ⟨.entryPoint, 5 :: f.id.val :: Binary.nameWords f.method.fullName⟩

theorem filterMap_entryPoint? (fs : List Function) :
    fs.filterMap Function.entryPoint? =
      (fs.filter fun f => f.method.isKernel).map Function.entryInst := by
  induction fs with
  | nil => rfl
  | cons f fs ih =>
    cases hk : f.method.method.kernelSize? with
    | none => simpa [Function.entryPoint?, LocatedMethod.isKernel, hk] using ih
    | some size => simpa [Function.entryPoint?, LocatedMethod.isKernel, hk] using ⟨rfl, ih⟩

theorem Function.entryName_entryInst (f : Function) :
    f.entryInst.entryName = (some 5, f.method.literalName) :=
  congrArg (Prod.mk (some 5)) (Binary.literalBytes_nameWords f.method.fullName)

variable {p : Program} {known : LocatedMethod → Prop} {s : Session} {held : List UInt32}

namespace Session.Sound

/-- The entry points of a module are those of the kernels among its functions. -/
theorem filter_sections (hs : s.Sound p known held) :
    (s.sections.filter fun i => i.op = .entryPoint) =
      (s.functionList.filter fun f => f.method.isKernel).map Function.entryInst := by
  have hnone : ∀ code : List Inst, (∀ i ∈ code, i.op ≠ .entryPoint) →
      (code.filter fun i => i.op = .entryPoint) = [] := by
    intro code hcode
    exact List.filter_eq_nil_iff.mpr (by simpa using hcode)
  have hmodes : ∀ i ∈ s.modes.toList, i.op ≠ .entryPoint := by
    intro i hi
    rw [hs.modes] at hi
    obtain ⟨f, _, hi⟩ := List.mem_filterMap.mp hi
    obtain ⟨_, _, rfl⟩ := Option.map_eq_some_iff.mp hi
    simp
  have hcode : ∀ i ∈ s.code, i.op ≠ .entryPoint := by
    intro i hi hop
    have hdeclares := hs.declarations.declares i hi
    rw [hop] at hdeclares
    cases hdeclares
  have hfunctions : ∀ i ∈ s.functionList.flatMap Function.code, i.op ≠ .entryPoint := by
    intro i hi hop
    obtain ⟨f, hf, hi⟩ := List.mem_flatMap.mp hi
    obtain ⟨_, _, q, _, hq⟩ := hs.built hf
    rw [hq.code_eq, List.mem_cons, List.mem_append, List.mem_singleton] at hi
    rcases hi with rfl | hi | rfl
    · cases hop
    · have hinner := hq.isInner i hi
      rw [hop] at hinner
      cases hinner
    · cases hop
  rw [sections_eq, preamble, hs.entryPoints, filterMap_entryPoint?]
  simp only [List.filter_append, hnone _ hmodes, hnone _ hcode, hnone _ hfunctions,
    List.append_nil]
  simp [List.filter_map, Function.comp_def, Function.entryInst]

theorem mem_entryPoint_iff (hs : s.Sound p known held) {i : Inst} :
    i ∈ s.sections ∧ i.op = .entryPoint ↔
      ∃ f ∈ s.functionList, f.method.isKernel = true ∧ f.entryInst = i := by
  have hmem : i ∈ s.sections ∧ i.op = .entryPoint ↔
      i ∈ s.sections.filter fun i => i.op = .entryPoint := by
    simp [List.mem_filter]
  rw [hmem, hs.filter_sections, List.mem_map]
  simp only [List.mem_filter, and_assoc]

theorem entryNamesDistinct_iff (hs : s.Sound p p.Reached held)
    (hlisted : ∀ lm, p.Reached lm → ∃ f ∈ s.functionList, f.method = lm)
    (hdistinct : (s.functionList.map fun f => f.method.id).Nodup) :
    EntryNamesDistinct s.sections ↔ p.KernelNamesDistinct := by
  have hnodup : (s.functionList.filter fun f => f.method.isKernel).Nodup :=
    hdistinct.of_map.filter _
  have hname : Inst.entryName ∘ Function.entryInst = fun f => (some 5, f.method.literalName) :=
    funext Function.entryName_entryInst
  rw [EntryNamesDistinct, hs.filter_sections, List.map_map, hname,
    List.nodup_map_iff_inj_on hnodup]
  constructor
  · intro hinj m m' hm hm' hk hk' he
    obtain ⟨f, hf, rfl⟩ := hlisted m hm
    obtain ⟨f', hf', rfl⟩ := hlisted m' hm'
    have hsame := hinj f (List.mem_filter.mpr ⟨hf, hk⟩) f' (List.mem_filter.mpr ⟨hf', hk'⟩)
      (congrArg (Prod.mk _) he)
    rw [hsame]
  · intro hnames f hf f' hf' he
    obtain ⟨hf, hk⟩ := List.mem_filter.mp hf
    obtain ⟨hf', hk'⟩ := List.mem_filter.mp hf'
    have hsame := hnames f.method f'.method (hs.known f hf) (hs.known f' hf') hk hk'
      (Prod.mk.inj he).2
    exact List.inj_on_of_nodup_map hdistinct hf hf' (by rw [hsame])

/-- The calls of a module are those that the methods of its functions make. -/
theorem callee_of_call (hs : s.Sound p p.Reached held) (hp : p.Distinct) {i : Inst}
    (hi : i ∈ s.sections) (hop : i.op = .functionCall) :
    ∃ m, p.Reached m ∧ ∃ g ∈ s.functionList, p.Calls m g.method ∧
      i.operands[2]? = some g.id.val := by
  obtain ⟨pre, post, hsplit⟩ := List.append_of_mem hi
  obtain ⟨before, f, after, q, inner, rest, hlist, hq, hinner, _⟩ :=
    hs.inner_place hsplit (by rw [hop]; rfl)
  obtain ⟨g, hg, hoperand, callee, hcall, hid⟩ :=
    hq.callee (show i ∈ q.inner f by simp [hinner]) hop
  have hg' : g ∈ s.functionList := by simp [hlist, hg]
  have hf : p.Reached f.method := hs.known f (by simp [hlist])
  have hsame : g.method = callee :=
    ((hs.known g hg').locates hp).eq_of_id_eq ((Program.Reached.call hf hcall).locates hp) hid
  exact ⟨f.method, hf, g, hg', hsame ▸ hcall, hoperand⟩

theorem exists_call (hs : s.Sound p p.Reached held) (hp : p.Distinct)
    (hlisted : ∀ lm, p.Reached lm → ∃ f ∈ s.functionList, f.method = lm)
    {m callee : LocatedMethod} (hm : p.Reached m) (hcall : p.Calls m callee) :
    ∃ g ∈ s.functionList, g.method = callee ∧
      ∃ i ∈ s.sections, i.op = .functionCall ∧ i.operands[2]? = some g.id.val := by
  obtain ⟨f, hf, rfl⟩ := hlisted m hm
  obtain ⟨pre, post, q, hsplit, hq⟩ := hs.built hf
  obtain ⟨g, hg, hid, i, hi, hop, hoperand⟩ := hq.body.called hcall
  have hg' : g ∈ s.functionList := by simp [hsplit, hg]
  have hsame : g.method = callee :=
    ((hs.known g hg').locates hp).eq_of_id_eq ((Program.Reached.call hm hcall).locates hp) hid
  refine ⟨g, hg', hsame, i, ?_, hop, hoperand⟩
  exact functionCode_subset_sections hf (by simp [hq.code_eq, FunctionParts.inner, hi])

theorem entryPointsUncalled_iff (hs : s.Sound p p.Reached held) (hp : p.Distinct)
    (hn : s.declarations.issued < 0xFFFFFFFF)
    (hlisted : ∀ lm, p.Reached lm → ∃ f ∈ s.functionList, f.method = lm) :
    EntryPointsUncalled s.sections ↔ p.KernelsUncalled := by
  constructor
  · intro huncalled m callee hm hcall
    obtain ⟨g, hg, rfl, i, hi, hop, hoperand⟩ := hs.exists_call hp hlisted hm hcall
    by_contra hkernel
    have hk : g.method.isKernel = true := by simpa using hkernel
    obtain ⟨hentry, hentryOp⟩ := hs.mem_entryPoint_iff.mpr ⟨g, hg, hk, rfl⟩
    exact huncalled i hi hop g.entryInst hentry hentryOp hoperand
  · intro huncalled i hi hop entry hentry hentryOp he
    obtain ⟨m, hm, g, hg, hcall, hoperand⟩ := hs.callee_of_call hp hi hop
    obtain ⟨f, hf, hk, rfl⟩ := hs.mem_entryPoint_iff.mp ⟨hentry, hentryOp⟩
    have hid : g.id.val = f.id.val := Option.some.inj (hoperand.symm.trans he)
    obtain rfl := List.inj_on_of_nodup_map (hs.nodup_functions hn) hg hf hid
    exact absurd (huncalled m g.method hm hcall) (by simp [hk])

end Session.Sound

/-- The entry points of a fresh module have different names just when the kernels that are reached
do, and none of them is called just when no method that is reached calls a kernel. -/
theorem compile_entryPoints_iff (hp : p.Distinct) {options : Options} {m : CompiledModule}
    (h : (compile p options).outcome {} = (.ok m, s))
    (hn : s.declarations.issued < 0xFFFFFFFF) :
    ∃ image, Image.read? m.bytes = some image ∧
      (EntryNamesDistinct image.code ↔ p.KernelNamesDistinct) ∧
      (EntryPointsUncalled image.code ↔ p.KernelsUncalled) := by
  obtain ⟨hs, hshows, hlisted, hdistinct⟩ := compile_functions hp h
  exact ⟨_, hshows.image hs, hs.entryNamesDistinct_iff hlisted hdistinct,
    hs.entryPointsUncalled_iff hp hn hlisted⟩

theorem compile_entryPoints_iff_probe :
    Probe.program.Distinct ∧ ∃ m s, (compile Probe.program {}).outcome {} = (.ok m, s) ∧
      s.declarations.issued < 0xFFFFFFFF ∧
      ∃ image, Image.read? m.bytes = some image ∧
        EntryNamesDistinct image.code ∧ Probe.program.KernelNamesDistinct ∧
        EntryPointsUncalled image.code ∧ Probe.program.KernelsUncalled := by
  have hrules : (freshCode? Probe.program {}).map (fun code =>
      (decide (EntryNamesDistinct code), decide (EntryPointsUncalled code))) =
      some (true, true) := by decide +kernel
  obtain ⟨code, hcode, hrules⟩ := Option.map_eq_some_iff.mp hrules
  obtain ⟨hnames, huncalled⟩ := Prod.mk.inj hrules
  obtain ⟨m, s, h, hn⟩ := Probe.outcome_ok {} (by decide +kernel) (by decide +kernel)
  obtain ⟨image, himage, hdistinct, hcalled⟩ := compile_entryPoints_iff Probe.distinct h hn
  obtain rfl : image.code = code := by
    simpa [freshCode?, h, himage, Except.toOption] using hcode
  have hnames := of_decide_eq_true hnames
  have huncalled := of_decide_eq_true huncalled
  exact ⟨Probe.distinct, m, s, h, hn, image, himage, hnames, hdistinct.mp hnames, huncalled,
    hcalled.mp huncalled⟩

namespace Rerun

def shader : Ty := .named "Demo.Shader" []

def kernel (name : String) : Method where
  owner := shader
  name := name
  attributes := [.static, .kernel 1 1 1]

/-- A method that calls a kernel. -/
def run : Method where
  owner := shader
  name := "Run"
  attributes := [.static]
  body := [.mk .call [.method ⟨shader, 2, "Step", []⟩, .void]]

/-- Two kernels have the same name, and a third one is called. -/
def program : Program where
  name := "Demo"
  types :=
    [{ fullName := "Demo.Shader"
       methods := [kernel "Main", kernel "Main", kernel "Step", run] }]

end Rerun

/-- Overloads may both be kernels, and kernels may be called: neither is refused. -/
theorem compile_entryPoints_rerun :
    ∃ m s image, (compile Rerun.program {}).outcome {} = (.ok m, s) ∧
      Image.read? m.bytes = some image ∧ ¬ EntryNamesDistinct image.code ∧
      ¬ EntryPointsUncalled image.code := by
  have hrules : (freshCode? Rerun.program {}).map (fun code =>
      (decide (EntryNamesDistinct code), decide (EntryPointsUncalled code))) =
      some (false, false) := by decide +kernel
  obtain ⟨code, hcode, hrules⟩ := Option.map_eq_some_iff.mp hrules
  obtain ⟨m, s, image, h, himage, rfl⟩ := exists_of_freshCode? hcode
  obtain ⟨hnames, huncalled⟩ := Prod.mk.inj hrules
  exact ⟨m, s, image, h, himage, of_decide_eq_false hnames, of_decide_eq_false huncalled⟩

end Lowering

end ShaderIR
