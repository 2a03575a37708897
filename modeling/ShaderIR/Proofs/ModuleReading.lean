import ShaderIR.Proofs.InstructionCoding

/-! Reading of whole modules. The instructions of a module in the order of its sections, with
functions of one block each, are read back in that order by every library that decodes modules by
the grammar, and the library of this project is one. -/

namespace ShaderIR.Binary

/-- The instruction is one that a reader recovers from its words. -/
structure Decoded.Readable (d : Decoded) : Prop where
  conforms : d.Conforms
  narrow : d.Narrow
  known : d.op ∈ Op.all

/-- Reading words is decoding each instruction and adding it to the module. -/
theorem readInsts_words {ds : List Decoded} (hds : ∀ d ∈ ds, d.Readable)
    (hfits : ∀ d ∈ ds, d.inst.fits = true) {types : NumberTypes} (htypes : types.OneWord)
    {fuel : Nat} (hfuel : ds.length ≤ fuel) (index offset : Nat) {b b' : Builder}
    (hb : ds.foldlM Builder.add b = .ok b') :
    readInsts fuel types index offset b (ds.flatMap fun d => d.inst.words) = .ok b' := by
  induction ds generalizing types fuel index offset b with
  | nil =>
    cases hb
    cases fuel <;> rfl
  | cons d ds ih =>
    obtain ⟨hd, hds⟩ := List.forall_mem_cons.mp hds
    obtain ⟨hfit, hfits⟩ := List.forall_mem_cons.mp hfits
    obtain ⟨hlength, hcode⟩ := Inst.firstWord hfit
    cases fuel with
    | zero => simp at hfuel
    | succ fuel =>
      rw [List.foldlM_cons] at hb
      cases hadd : b.add d with
      | error e =>
        rw [hadd] at hb
        cases hb
      | ok b₁ =>
        rw [hadd] at hb
        have hdecode := decodeInst_words htypes hd.conforms hd.known hlength hcode index offset
          (ds.flatMap fun d => d.inst.words)
        have hrest := ih hds hfits (htypes.track hd.narrow)
          (show ds.length ≤ fuel by simpa using hfuel) (index + 1) (offset + 4 * d.inst.length) hb
        rw [List.flatMap_cons, Inst.words, List.cons_append, readInsts, hdecode]
        simp only [hadd, hrest]

/-- The operation stands in blocks and does not end them. -/
def Op.inBlock (op : Op) : Bool :=
  op.isInner && !op.isTerminator && op != .functionParameter && op != .label

/-- The operations are those of a function with one block. -/
inductive IsFunction : List Op → Prop
  | intro {parameters block : List Op} {terminator : Op}
      (hparameters : ∀ op ∈ parameters, op = .functionParameter)
      (hblock : ∀ op ∈ block, op.inBlock = true) (hterminator : terminator.isTerminator = true) :
      IsFunction (.function :: (parameters ++ .label :: (block ++ [terminator, .functionEnd])))

theorem IsFunction.parts {ds : List Decoded} (h : IsFunction (ds.map Decoded.op)) :
    ∃ head parameters label block terminator ending,
      ds = head :: (parameters ++ label :: (block ++ [terminator, ending])) ∧
      head.op = .function ∧ (∀ d ∈ parameters, d.op = .functionParameter) ∧ label.op = .label ∧
      (∀ d ∈ block, d.op.inBlock = true) ∧ terminator.op.isTerminator = true ∧
      ending.op = .functionEnd := by
  generalize hops : ds.map Decoded.op = ops at h
  cases h with
  | intro hparameters hblock hterminator =>
    obtain ⟨head, tail, rfl, hhead, htail⟩ := List.map_eq_cons_iff.mp hops
    obtain ⟨parameters, others, rfl, rfl, hothers⟩ := List.map_eq_append_iff.mp htail
    obtain ⟨label, body, rfl, hlabel, hbody⟩ := List.map_eq_cons_iff.mp hothers
    obtain ⟨block, last, rfl, rfl, hlast⟩ := List.map_eq_append_iff.mp hbody
    obtain ⟨terminator, endings, rfl, rfl, hendings⟩ := List.map_eq_cons_iff.mp hlast
    obtain ⟨ending, others, rfl, hending, hnone⟩ := List.map_eq_cons_iff.mp hendings
    obtain rfl := List.map_eq_nil_iff.mp hnone
    exact ⟨head, parameters, label, block, terminator, ending, rfl, hhead,
      fun d hd => hparameters d.op (List.mem_map_of_mem hd), hlabel,
      fun d hd => hblock d.op (List.mem_map_of_mem hd), hterminator, hending⟩

/-- The instructions stand in the order of the sections of a module. -/
inductive InSections : List Decoded → Prop
  | intro {capability memoryModel : Decoded} {entryPoints modes globals : List Decoded}
      {functions : List (List Decoded)} (hcapability : capability.op = .capability)
      (hmemoryModel : memoryModel.op = .memoryModel)
      (hentryPoints : ∀ d ∈ entryPoints, d.op = .entryPoint)
      (hmodes : ∀ d ∈ modes, d.op = .executionMode)
      (hglobals : ∀ d ∈ globals, d.op.isDeclaration = true)
      (hfunctions : ∀ ds ∈ functions, IsFunction (ds.map Decoded.op)) :
      InSections (capability :: memoryModel ::
        (entryPoints ++ (modes ++ (globals ++ functions.flatten))))

namespace Builder

/-- Instructions that go to one section, one after the other. -/
theorem foldlM_add (update : Array Decoded → Builder) {ds : List Decoded}
    (hadd : ∀ a, ∀ d ∈ ds, add (update a) d = .ok (update (a.push d))) (a : Array Decoded) :
    ds.foldlM add (update a) = .ok (update (a ++ ds.toArray)) := by
  induction ds generalizing a with
  | nil => simp [pure, Except.pure]
  | cons d ds ih =>
    have hd := hadd a d List.mem_cons_self
    have hrest := ih (fun a d hd => hadd a d (List.mem_cons_of_mem _ hd)) (a.push d)
    rw [List.foldlM_cons, hd]
    simpa [bind, Except.bind] using hrest

theorem add_entryPoint {b : Builder} {d : Decoded} (h : d.op = .entryPoint) :
    b.add d = .ok { b with
      module := { b.module with entryPoints := b.module.entryPoints.push d } } := by
  simp [add, h]

theorem add_mode {b : Builder} {d : Decoded} (h : d.op = .executionMode) :
    b.add d = .ok { b with module := { b.module with modes := b.module.modes.push d } } := by
  simp [add, h]

theorem add_global {b : Builder} {d : Decoded} (h : d.op.isDeclaration = true) :
    b.add d = .ok { b with module := { b.module with globals := b.module.globals.push d } } := by
  unfold add
  cases hop : d.op <;> simp_all [Op.isDeclaration]

theorem add_parameter {m : Module} {f : ModuleFunction} {d : Decoded}
    (h : d.op = .functionParameter) :
    add ⟨m, some f, none⟩ d =
      .ok ⟨m, some { f with parameters := f.parameters.push d }, none⟩ := by
  simp [add, h]

theorem add_inBlock {m : Module} {f : ModuleFunction} {block : Array Decoded} {d : Decoded}
    (h : d.op.inBlock = true) :
    add ⟨m, some f, some block⟩ d = .ok ⟨m, some f, some (block.push d)⟩ := by
  unfold add
  cases hop : d.op <;>
    simp_all [Op.inBlock, Op.isInner, Op.isTerminator, Op.isDeclaration, addToBlock]

theorem add_terminator {m : Module} {f : ModuleFunction} {block : Array Decoded} {d : Decoded}
    (h : d.op.isTerminator = true) :
    add ⟨m, some f, some block⟩ d =
      .ok ⟨m, some { f with blocks := f.blocks ++ block.push d }, none⟩ := by
  unfold add
  cases hop : d.op <;> simp_all [Op.isTerminator, Op.isDeclaration, closeBlock]

theorem foldlM_function {ds : List Decoded} (h : IsFunction (ds.map Decoded.op)) (m : Module) :
    ∃ f : ModuleFunction, f.instructions = ds ∧
      ds.foldlM add ⟨m, none, none⟩ =
        .ok ⟨{ m with functions := m.functions.push f }, none, none⟩ := by
  obtain ⟨head, parameters, label, block, terminator, ending, rfl, hhead, hparameters, hlabel,
    hblock, hterminator, hending⟩ := h.parts
  refine ⟨⟨head, parameters.toArray, (label :: (block ++ [terminator])).toArray, some ending⟩,
    by simp [ModuleFunction.instructions], ?_⟩
  have hopen : add ⟨m, none, none⟩ head = .ok ⟨m, some { definition := head }, none⟩ := by
    simp [add, hhead]
  have hpassed : parameters.foldlM add ⟨m, some { definition := head }, none⟩ =
      .ok ⟨m, some { definition := head, parameters := #[] ++ parameters.toArray }, none⟩ :=
    foldlM_add (fun a => ⟨m, some { definition := head, parameters := a }, none⟩)
      (fun a d hd => add_parameter (hparameters d hd)) #[]
  have hstart : ∀ f, add ⟨m, some f, none⟩ label = .ok ⟨m, some f, some #[label]⟩ := by
    simp [add, hlabel]
  have hbody : ∀ f, block.foldlM add ⟨m, some f, some #[label]⟩ =
      .ok ⟨m, some f, some (#[label] ++ block.toArray)⟩ := fun f =>
    foldlM_add (fun a => ⟨m, some f, some a⟩) (fun a d hd => add_inBlock (hblock d hd)) #[label]
  have hclose : ∀ f, add ⟨m, some f, none⟩ ending =
      .ok ⟨{ m with functions := m.functions.push { f with ending := some ending } }, none,
        none⟩ := by
    simp [add, hending]
  simp only [List.foldlM_cons, List.foldlM_append, List.foldlM_nil, bind, Except.bind, hopen,
    hpassed, hstart, hbody, add_terminator hterminator, hclose]
  simp [pure, Except.pure]

theorem foldlM_functions {dss : List (List Decoded)}
    (h : ∀ ds ∈ dss, IsFunction (ds.map Decoded.op)) (m : Module) :
    ∃ fs : List ModuleFunction, fs.flatMap ModuleFunction.instructions = dss.flatten ∧
      dss.flatten.foldlM add ⟨m, none, none⟩ =
        .ok ⟨{ m with functions := m.functions ++ fs.toArray }, none, none⟩ := by
  induction dss generalizing m with
  | nil => exact ⟨[], rfl, by simp [pure, Except.pure]⟩
  | cons ds dss ih =>
    obtain ⟨hds, hdss⟩ := List.forall_mem_cons.mp h
    obtain ⟨f, hf, hfirst⟩ := foldlM_function hds m
    obtain ⟨fs, hfs, hrest⟩ := ih hdss { m with functions := m.functions.push f }
    refine ⟨f :: fs, by simp [hf, hfs], ?_⟩
    rw [List.flatten_cons, List.foldlM_append, hfirst]
    simpa [bind, Except.bind] using hrest

/-- Sections that come in order are kept in order. -/
theorem foldlM_sections {ds : List Decoded} (h : InSections ds) :
    ∃ m : Module, ds.foldlM add {} = .ok ⟨m, none, none⟩ ∧ m.instructions = ds := by
  obtain ⟨hcapability, hmemoryModel, hentryPoints, hmodes, hglobals, hdss⟩ := h
  rename_i capability memoryModel entryPoints modes globals dss
  obtain ⟨fs, hfs, hfunctions⟩ := foldlM_functions hdss
    ⟨#[capability], some memoryModel, entryPoints.toArray, modes.toArray, globals.toArray, #[]⟩
  refine ⟨⟨#[capability], some memoryModel, entryPoints.toArray, modes.toArray, globals.toArray,
    fs.toArray⟩, ?_, ?_⟩
  · have hfirst : add {} capability = .ok ⟨{ capabilities := #[capability] }, none, none⟩ := by
      simp [add, hcapability]
    have hsecond : add ⟨{ capabilities := #[capability] }, none, none⟩ memoryModel =
        .ok ⟨{ capabilities := #[capability], memoryModel := some memoryModel }, none, none⟩ := by
      simp [add, hmemoryModel]
    have hthird := foldlM_add
      (fun a => ⟨⟨#[capability], some memoryModel, a, #[], #[], #[]⟩, none, none⟩)
      (fun a d hd => add_entryPoint (hentryPoints d hd)) #[]
    have hfourth := foldlM_add
      (fun a => ⟨⟨#[capability], some memoryModel, entryPoints.toArray, a, #[], #[]⟩, none, none⟩)
      (fun a d hd => add_mode (hmodes d hd)) #[]
    have hfifth := foldlM_add
      (fun a => ⟨⟨#[capability], some memoryModel, entryPoints.toArray, modes.toArray, a, #[]⟩,
        none, none⟩)
      (fun a d hd => add_global (hglobals d hd)) #[]
    simp only [Array.empty_append] at hthird hfourth hfifth hfunctions
    simp only [List.foldlM_cons, List.foldlM_append, bind, Except.bind, hfirst, hsecond, hthird,
      hfourth, hfifth, hfunctions]
  · simp [Module.instructions, Module.globalInstructions, Module.functionInstructions, hfs]

end Builder

/-- The words of a module, header first. -/
def moduleWords (header : Header) (ds : List Decoded) : List UInt32 :=
  magic :: header.version :: header.generator :: header.bound :: header.reserved ::
    ds.flatMap fun d => d.inst.words

def moduleBytes (header : Header) (ds : List Decoded) : List UInt8 :=
  (moduleWords header ds).flatMap wordBytes

/-- A module that the grammar allows: its version word holds a major and a minor version and
nothing else, its instructions conform and can be counted, and they stand in their sections. -/
structure Grammatical (header : Header) (ds : List Decoded) : Prop where
  version : header.version &&& versionMask = header.version
  readable : ∀ d ∈ ds, d.Readable
  fits : ∀ d ∈ ds, d.inst.fits = true
  sections : InSections ds

/-- The library decodes what the grammar allows: it accepts such modules, keeps the version and the
bound of their headers, and shows their instructions in the order of the sections, each with its
opcode and its operands. -/
structure Library.FollowsGrammar {ε ι μ : Type} (lib : Library ε ι μ) : Prop where
  accepts : ∀ {header ds}, Grammatical header ds →
    ∃ kept m, lib.load (moduleWords header ds) = .ok (kept, m)
  keepsHeader : ∀ {header ds kept m}, Grammatical header ds →
    lib.load (moduleWords header ds) = .ok (kept, m) →
      ∃ h, kept = some h ∧ h.version = header.version ∧ h.bound = header.bound
  keepsOrder : ∀ {header ds kept m}, Grammatical header ds →
    lib.load (moduleWords header ds) = .ok (kept, m) → (lib.instructions m).map lib.view = ds

theorem loadWords_moduleWords {header : Header} {ds : List Decoded} (h : Grammatical header ds) :
    ∃ m : Module, loadWords (moduleWords header ds) =
        .ok (some { Header.ofBound header.bound with version := header.version }, m) ∧
      m.instructions = ds := by
  obtain ⟨m, hfold, hm⟩ := Builder.foldlM_sections h.sections
  have hfuel : ds.length ≤ (ds.flatMap fun d => d.inst.words).length := by
    have hlength := length_le_words (ds.map Decoded.inst)
    rwa [List.length_map, List.flatMap_map] at hlength
  have htypes : NumberTypes.OneWord [] := by simp [NumberTypes.OneWord]
  have hinsts := readInsts_words h.readable h.fits htypes hfuel 1 20 hfold
  refine ⟨m, ?_, hm⟩
  simp only [moduleWords, loadWords, hinsts, h.version]
  rfl

theorem Library.standard_followsGrammar : Library.standard.FollowsGrammar where
  accepts h := by
    obtain ⟨m, hload, _⟩ := loadWords_moduleWords h
    exact ⟨_, m, hload⟩
  keepsHeader h hload := by
    obtain ⟨m, hload', _⟩ := loadWords_moduleWords h
    cases hload.symm.trans hload'
    exact ⟨_, rfl, rfl, rfl⟩
  keepsOrder h hload := by
    obtain ⟨m, hload', hm⟩ := loadWords_moduleWords h
    cases hload.symm.trans hload'
    exact (List.map_id _).trans hm

/-- Reading undoes writing. -/
theorem ParsedModule.parse_moduleBytes {ε ι μ : Type} {lib : Library ε ι μ}
    (hlib : lib.FollowsGrammar) {header : Header} {ds : List Decoded} (h : Grammatical header ds) :
    ∃ m, parse lib (moduleBytes header ds) = .ok ⟨header, m⟩ ∧
      (lib.instructions m).map lib.view = ds := by
  obtain ⟨kept, m, hload⟩ := hlib.accepts h
  obtain ⟨k, rfl, hversion, hbound⟩ := hlib.keepsHeader h hload
  have hwords : ofWords lib (moduleWords header ds) = .ok ⟨header, m⟩ := by
    rw [ofWords, hload]
    simp [moduleWords, hversion, hbound]
  have haligned : ((moduleBytes header ds).length % 4 != 0) = false := by
    rw [moduleBytes, length_wordBytes]
    simp
  have hlong : ¬(moduleBytes header ds).length < 20 := by
    rw [moduleBytes, length_wordBytes, moduleWords]
    simp only [List.length_cons]
    omega
  have hfirst : ((moduleWords header ds).headD 0 == magic) = true := rfl
  refine ⟨m, ?_, hlib.keepsOrder h hload⟩
  rw [parse, haligned, if_neg Bool.false_ne_true, if_neg hlong, moduleBytes,
    wordsOfBytes_wordBytes]
  simp only [hfirst, if_true, hwords]

end ShaderIR.Binary
