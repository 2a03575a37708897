import ShaderIR.Proofs.ModuleIds
import ShaderIR.Proofs.SharedPass

/-! Compiled modules are read back. Every instruction that lowering writes conforms to the grammar,
and every function it writes is one block, so a reader recovers the header and the instructions of
a module, whoever of the workers wrote them. -/

namespace ShaderIR.Lowering

open Binary (Inst Decoded InSections Grammatical Library ParsedModule moduleBytes readable_of_fits
  exists_decoded)

theorem exists_decodedFunctions {fs : List Function} (h : ∀ f ∈ fs, ReadsAsFunction f.code) :
    ∃ dss : List (List Decoded), (∀ ds ∈ dss, Binary.IsFunction (ds.map Decoded.op)) ∧
      (∀ d ∈ dss.flatten, d.Readable) ∧
      dss.flatten.map Decoded.inst = fs.flatMap Function.code := by
  induction fs with
  | nil => exact ⟨[], by simp, by simp, rfl⟩
  | cons f fs ih =>
    obtain ⟨hf, hfs⟩ := List.forall_mem_cons.mp h
    obtain ⟨ds, hds, hcode⟩ := exists_decoded hf.readable
    obtain ⟨dss, hfunctions, hdss, hcodes⟩ := ih hfs
    have hops : ds.map Decoded.op = f.code.map Inst.op := by
      rw [← hcode, List.map_map]
      rfl
    refine ⟨ds :: dss, List.forall_mem_cons.mpr ⟨hops ▸ hf.isFunction, hfunctions⟩, ?_, ?_⟩
    · rw [List.flatten_cons]
      exact List.forall_mem_append.mpr ⟨hds, hdss⟩
    · rw [List.flatten_cons, List.map_append, hcode, hcodes, List.flatMap_cons]

/-- Everything that the session has for a module is read back, and stands in the section that it
belongs to. -/
structure Session.Reads {κ : Type} (s : Session κ) : Prop where
  entryPoints : ∀ i ∈ s.entryPoints.toList, i.op = .entryPoint ∧ i.Readable
  modes : ∀ i ∈ s.modes.toList, i.op = .executionMode ∧ i.Readable
  declarations : s.declarations.Forms
  functions : ∀ f ∈ s.functionList, ReadsAsFunction f.code

namespace Session.Reads

/-- The sections of a session are those of a module that a reader builds. -/
theorem exists_instructions {κ : Type} {s : Session κ} (hs : s.Reads) :
    ∃ ds : List Decoded, InSections ds ∧ (∀ d ∈ ds, d.Readable) ∧
      ds.map Decoded.inst = s.sections := by
  have hcapability : Inst.Readable ⟨.capability, [1]⟩ :=
    readable_of_fits .capability none none rfl (.enumerant (by decide) [] rfl .nil) (by decide)
  have hmemoryModel : Inst.Readable ⟨.memoryModel, [0, 1]⟩ :=
    readable_of_fits .memoryModel none none rfl
      (.enumerant (by decide) [] rfl (.enumerant (by decide) [] rfl .nil)) (by decide)
  obtain ⟨capability, hc, hcinst⟩ := hcapability
  obtain ⟨memoryModel, hm, hminst⟩ := hmemoryModel
  obtain ⟨entryPoints, hes, hesinst⟩ := exists_decoded fun i hi => (hs.entryPoints i hi).2
  obtain ⟨modes, hms, hmsinst⟩ := exists_decoded fun i hi => (hs.modes i hi).2
  obtain ⟨globals, hgs, hgsinst⟩ := exists_decoded fun i hi => (hs.declarations i hi).readable
  obtain ⟨dss, hops, hds, hdsinst⟩ := exists_decodedFunctions hs.functions
  have hcop : capability.op = .capability := congrArg Inst.op hcinst
  have hmop : memoryModel.op = .memoryModel := congrArg Inst.op hminst
  refine ⟨capability :: memoryModel :: (entryPoints ++ (modes ++ (globals ++ dss.flatten))),
    .intro hcop hmop
      (fun d hd => (hs.entryPoints _ (hesinst ▸ List.mem_map_of_mem hd)).1)
      (fun d hd => (hs.modes _ (hmsinst ▸ List.mem_map_of_mem hd)).1)
      (fun d hd => (hs.declarations _ (hgsinst ▸ List.mem_map_of_mem hd)).isDeclaration) hops,
    ?_, ?_⟩
  · simp only [List.forall_mem_cons, List.forall_mem_append]
    exact ⟨hc, hm, hes, hms, hgs, hds⟩
  · simp [sections, functionList, hcinst, hminst, hesinst, hmsinst, hgsinst, hdsinst]

end Session.Reads

section Steps

variable {p : Program} {known : LocatedMethod → Prop}

/-- No kernel among the methods has a name with the character that ends strings. -/
def PlainNames (known : LocatedMethod → Prop) : Prop :=
  ∀ m, known m → m.method.kernelSize?.isSome = true → '\x00' ∉ m.fullName.toList

theorem along_declareEntryPoint {name : String} (hname : '\x00' ∉ name.toList) (id : Binary.Id)
    (size : UInt32 × UInt32 × UInt32) :
    (declareEntryPoint name id size : Pass MethodObject Unit).Along Session.Reads
      fun _ => True := by
  refine Walk.along_modify fun s hs => ⟨?_, ?_, hs.declarations, hs.functions⟩
  · have hread := readable_of_fits .entryPoint none none rfl
      (.enumerant (w := 5) (by decide) [] rfl
        (.word rfl id.val (.string hname (.many rfl [])))) (by decide)
    have hentry : Inst.Readable ⟨.entryPoint, 5 :: id.val :: Binary.nameWords name⟩ := by
      simpa [Binary.Value.words, Binary.Value.ofWord] using hread
    rw [Array.toList_push, List.forall_mem_append, List.forall_mem_singleton]
    exact ⟨hs.entryPoints, rfl, hentry⟩
  · rw [Array.toList_push, List.forall_mem_append, List.forall_mem_singleton]
    exact ⟨hs.modes, rfl, readable_of_fits .executionMode none none rfl
      (.word rfl id.val (.enumerant (by decide) [size.1, size.2.1, size.2.2] rfl .nil))
      (by decide)⟩

theorem robust_reads : Session.Robust fun s : Session MethodObject => s.Reads := by
  intro s t hs hst
  refine ⟨?_, ?_, hst.forms hs.declarations, ?_⟩
  · rw [hst.entryPoints]
    exact hs.entryPoints
  · rw [hst.modes]
    exact hs.modes
  · rw [Session.functionList, hst.order]
    exact hs.functions

theorem along_publish {f : Function} (hcode : ReadsAsFunction f.code)
    (hname : f.method.method.kernelSize?.isSome = true → '\x00' ∉ f.method.fullName.toList) :
    (publish f : Pass MethodObject Function).Along Session.Reads fun _ => True := by
  have hpush : (modify fun s => { s with order := s.order.push f } :
      Pass MethodObject PUnit).Along Session.Reads fun _ => True := by
    refine Walk.along_modify fun s hs => ⟨hs.entryPoints, hs.modes, hs.declarations, ?_⟩
    simp only [Session.functionList, Array.toList_push, List.forall_mem_append,
      List.forall_mem_singleton]
    exact ⟨hs.functions, hcode⟩
  have hrest : (do
      log (.compiled f.method.fullName f.id (Binary.Stream.ofInsts f.code).size)
      modify fun s => { s with order := s.order.push f }
      return f : Pass MethodObject Function).Along Session.Reads fun _ => True :=
    ((inert_log _).along robust_reads).bind fun _ _ => hpush.bind fun _ _ => Walk.along_pure trivial
  unfold publish
  cases hkernel : f.method.method.kernelSize? with
  | none => exact hrest
  | some size =>
    exact (along_declareEntryPoint (hname (by simp [hkernel])) f.id size).bind fun _ _ => hrest

theorem maintains_reads (hk : Resolves p known) (hnames : PlainNames known) :
    Maintains p known Session.Reads where
  robust := robust_reads
  types := fun _ _ hs => ⟨hs.entryPoints, hs.modes, hs.declarations, hs.functions⟩
  functions := fun _ _ hs => ⟨hs.entryPoints, hs.modes, hs.declarations, hs.functions⟩
  publish := fun f hf hcode => along_publish hcode (hnames f.method hf)
  resolves := hk

end Steps

/-- The sessions that requests lead to, whether they succeed or fail: requests for a type, where
`none` is the type of no value, for the function of an instance, for an id, and for the module of
the program. Objects can be made and things noted in between. -/
inductive Session.Served (p : Program) (known : LocatedMethod → Prop) :
    Session MethodObject → Prop
  | empty : Served p known {}
  | type {s : Session MethodObject} (h : Served p known s) (depth : Nat) (ty : Option Ty) :
      Served p known ((lowerReturn (lowerType p depth) ty).outcome s).2
  | method {s : Session MethodObject} (h : Served p known s) (depth : Nat)
      (object : MethodObject) (i : MethodInstance) (hi : ∀ m ∈ i.concrete?, known m) :
      Served p known ((Objects.compileInstance p depth object i).outcome s).2
  | id {s : Session MethodObject} (h : Served p known s) : Served p known (fresh.outcome s).2
  | module {s : Session MethodObject} (h : Served p known s) (jobs : Nat)
      (schedule : Nat → Schedule) (options : Options) :
      Served p known ((compileWith jobs schedule p options).outcome s).2
  | journal {s : Session MethodObject} (h : Served p known s) (journal : Journal)
      (hj : s.journal.heap.Grows journal.heap) : Served p known { s with journal }

section

variable {p : Program} {known : LocatedMethod → Prop}

theorem Session.Served.reads {s : Session MethodObject} (h : s.Served p known)
    (hk : Resolves p known) (hp : ∀ m ∈ p.methods, m.isConcrete = true → known m)
    (hnames : PlainNames known) : s.Reads := by
  have hmaintains := maintains_reads hk hnames
  induction h with
  | empty => exact ⟨by simp, by simp, by simp [Declarations.Forms], by simp [functionList]⟩
  | type _ depth ty ih =>
    have hlower := along_lowerType hmaintains.robust hmaintains.types p depth
    have hreturn := hmaintains.robust.comparison.lowerReturn fun t (_ : ty = some t) =>
      hmaintains.robust.compares (hlower t)
    exact Walk.Along.last hreturn ih
  | method _ depth object i hi ih =>
    exact (Objects.along_compileInstance hmaintains depth object i hi).last ih
  | id _ ih => exact (inert_fresh.along hmaintains.robust).last ih
  | module _ jobs schedule options ih =>
    exact (ends_compileWith hmaintains hp jobs schedule options ih).last (fun _ _ h => h.1)
      fun _ _ h => h
  | journal _ journal hj ih => exact robust_reads _ _ ih (.withJournal _ hj)

/-- A version word is kept by readers if it holds a major and a minor version and nothing else. -/
theorem version_masked (major minor : UInt8) :
    (major.toUInt32 <<< 16 ||| minor.toUInt32 <<< 8) &&& Binary.versionMask =
      major.toUInt32 <<< 16 ||| minor.toUInt32 <<< 8 := by
  have hmask : ∀ i < 32, Binary.versionMask.toBitVec.getLsbD i = decide (8 ≤ i ∧ i < 24) := by
    decide
  apply UInt32.toBitVec_inj.mp
  apply BitVec.eq_of_getLsbD_eq
  intro i hi
  have hmajor : 8 ≤ i - 16 → major.toBitVec.getLsbD (i - 16) = false :=
    BitVec.getLsbD_of_ge _ _
  have hminor : 8 ≤ i - 8 → minor.toBitVec.getLsbD (i - 8) = false :=
    BitVec.getLsbD_of_ge _ _
  have hsixteen : (UInt32.toBitVec 16 % 32).toNat = 16 := rfl
  have height : (UInt32.toBitVec 8 % 32).toNat = 8 := rfl
  simp only [UInt32.toBitVec_and, UInt32.toBitVec_or, UInt32.toBitVec_shiftLeft,
    UInt8.toBitVec_toUInt32, BitVec.getLsbD_and, BitVec.getLsbD_or, BitVec.getLsbD_shiftLeft,
    BitVec.getLsbD_setWidth, BitVec.shiftLeft_eq', hmask i hi, hsixteen, height]
  grind

/-- Reading undoes compilation, however many workers compile and in whatever order they take
turns, and whatever library reads if it follows the grammar: the header and the instructions that
were written are read back, in their order and with the operands that the grammar gives them, and
written again they are the same bytes. -/
theorem compile_reads_back {ε ι μ : Type} {lib : Library ε ι μ} (hlib : lib.FollowsGrammar)
    {p : Program} {known : LocatedMethod → Prop} {s₀ s : Session MethodObject} {jobs : Nat}
    {schedule : Nat → Schedule} {options : Options} {m : CompiledModule}
    (h₀ : s₀.Served p known)
    (h : (compileWith jobs schedule p options).outcome s₀ = (.ok m, s))
    (hk : Resolves p known) (hp : ∀ m ∈ p.methods, m.isConcrete = true → known m)
    (hversion : ∃ major minor : UInt8,
      options.version = major.toUInt32 <<< 16 ||| minor.toUInt32 <<< 8)
    (hnames : PlainNames known) :
    ∃ parsed, ParsedModule.parse lib m.bytes = .ok parsed ∧
      parsed.header = ⟨options.version, options.generator, m.bound, 0⟩ ∧
      (∀ i ∈ parsed.instructions lib, (lib.view i).Conforms) ∧
      (parsed.instructions lib).map (fun i => (lib.view i).inst) = s.sections ∧
      moduleBytes parsed.header ((parsed.instructions lib).map lib.view) = m.bytes := by
  obtain ⟨hs, hm⟩ := (ends_compileWith (maintains_reads hk hnames) hp jobs schedule options
    (h₀.reads hk hp hnames)).of_ok h
  obtain ⟨major, minor, hversion⟩ := hversion
  obtain ⟨ds, hin, hreadable, hsections⟩ := hs.exists_instructions
  obtain ⟨_, _, hfits⟩ := Binary.Stream.emitAll_words hm.fits
  let header : Binary.Header := ⟨options.version, options.generator, m.bound, 0⟩
  have hgrammatical : Grammatical header ds := by
    refine ⟨?_, hreadable, ?_, hin⟩
    · change options.version &&& Binary.versionMask = options.version
      rw [hversion, version_masked]
    · intro d hd
      exact hfits d.inst (hsections ▸ List.mem_map_of_mem hd)
  have hcode : (ds.flatMap fun d => d.inst.words) = s.sections.flatMap Inst.words := by
    rw [← hsections, List.flatMap_map]
  have hbytes : moduleBytes header ds = m.bytes := by
    rw [hm.bytes, Binary.Stream.bytes, hm.words, ← hcode]
    rfl
  obtain ⟨module, hparse, hview⟩ := ParsedModule.parse_moduleBytes hlib hgrammatical
  refine ⟨⟨header, module⟩, hbytes ▸ hparse, rfl, ?_, ?_, ?_⟩
  · intro i hi
    exact (hreadable _ (hview ▸ List.mem_map_of_mem hi)).conforms
  · rw [← hsections, ← hview, List.map_map]
    rfl
  · exact (congrArg (moduleBytes header) hview).trans hbytes

end

namespace Probe

/-- Two workers take turns, one step each. -/
def alternating (_ : Nat) : Schedule :=
  (List.replicate 80 [(0, 1), (1, 1)]).flatten

/-- A shared session in which a type and an id have been asked for. -/
def shared : Session MethodObject :=
  (fresh.outcome ((lowerReturn (lowerType program 9) (some vec)).outcome {}).2).2

/-- The calls of the program stay inside it. -/
theorem mem_methods_of_reached {m : LocatedMethod} (h : program.Reached m) :
    m ∈ program.methods := by
  have hcalls : ∀ m ∈ program.methods, ∀ i ∈ m.method.body, i.opcode = .call →
      i.operands[0]? = some (.method ⟨self, 0, "pick", []⟩) := by decide +kernel
  have hpick : (program.resolve ⟨self, 0, "pick", []⟩).toOption.bind MethodInstance.concrete? =
      program.methods[0]? := by decide +kernel
  induction h with
  | declared hm _ => exact hm
  | @call m callee _ hcall ih =>
    obtain ⟨i, hi, r, target, ho, hr, htarget, hcallee⟩ := hcall
    obtain rfl : r = ⟨self, 0, "pick", []⟩ := by
      simpa [hr] using hcalls m ih i hi ho
    rw [htarget] at hpick
    exact List.mem_of_getElem? (hpick.symm.trans hcallee)

theorem plainNames_reached : PlainNames program.Reached := by
  have hnames : ∀ m ∈ program.methods, '\x00' ∉ m.fullName.toList := by decide +kernel
  exact fun m hm _ => hnames m (mem_methods_of_reached hm)

end Probe

/-- Two workers write a module that is not the one that a worker by itself writes. -/
theorem compile_reads_back_probe :
    ∃ m s, (compileWith 2 Probe.alternating Probe.program {}).outcome Probe.shared = (.ok m, s) ∧
      (∀ m' s', (compileWith 1 Schedule.inOrder Probe.program {}).outcome Probe.shared =
        (.ok m', s') → m.bytes ≠ m'.bytes) ∧
      ∃ parsed, ParsedModule.parse .standard m.bytes = .ok parsed ∧
        parsed.header = ⟨0x00010200, 0x1ec5712d, m.bound, 0⟩ ∧
        (parsed.instructions .standard).map Decoded.inst = s.sections := by
  have hrun : ((compileWith 2 Probe.alternating Probe.program {}).outcome
      Probe.shared).1.toOption.any (fun m =>
        ((compileWith 1 Schedule.inOrder Probe.program {}).outcome Probe.shared).1.toOption.all
          fun m' => m.bytes != m'.bytes) = true := by decide +kernel
  rcases h : (compileWith 2 Probe.alternating Probe.program {}).outcome Probe.shared with ⟨e | m, s⟩
  · rw [h] at hrun
    cases hrun
  rw [h] at hrun
  have hserved : Probe.shared.Served Probe.program Probe.program.Reached :=
    .id (.type .empty 9 (some Probe.vec))
  obtain ⟨parsed, hparse, hheader, _, hsections, _⟩ :=
    compile_reads_back Library.standard_followsGrammar hserved h (Program.resolves_reached _)
      (fun _ hm hc => .declared hm hc) ⟨1, 2, by decide⟩ Probe.plainNames_reached
  refine ⟨m, s, rfl, fun m' s' h' => ?_, parsed, hparse, hheader, hsections⟩
  rw [h'] at hrun
  simpa [Except.toOption] using hrun

end ShaderIR.Lowering
