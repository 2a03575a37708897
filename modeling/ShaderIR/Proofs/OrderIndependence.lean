import ShaderIR.Proofs.Rearrangement

/-! The order in which the declared methods of a program are compiled does not matter: it decides
neither whether there is a module nor, up to ids and the order of its parts, which one. -/

namespace ShaderIR.Lowering

open Binary (Op Inst Image results)

/-- The parts of the code of a module, told apart by their operations. -/
structure Layout (code : List Inst) where
  entryPoints : List Inst
  modes : List Inst
  declarations : List Inst
  entryPoints_op : ∀ i ∈ entryPoints, i.op = .entryPoint
  modes_op : ∀ i ∈ modes, i.op = .executionMode
  declarations_op : ∀ i ∈ declarations, i.op.isDeclaration = true
  code_eq : code = [⟨.capability, [1]⟩, ⟨.memoryModel, [0, 1]⟩] ++ entryPoints ++ modes ++
    declarations ++ (functionBodies code).flatten

/-- The modules are the same up to a renaming of ids and the order of their entry points, modes,
declarations and functions. -/
structure Rearranged (ρ : UInt32 → UInt32) (a b : Image) (l : Layout a.code) (l' : Layout b.code) :
    Prop where
  header : a.header = b.header
  ids : Set.BijOn ρ {x | x ∈ results a.code} {x | x ∈ results b.code}
  entryPoints : (l.entryPoints.map (Inst.rename ρ)).Perm l'.entryPoints
  modes : (l.modes.map (Inst.rename ρ)).Perm l'.modes
  declarations : (l.declarations.map (Inst.rename ρ)).Perm l'.declarations
  functions : ((functionBodies a.code).map (List.map (Inst.rename ρ))).Perm (functionBodies b.code)

variable {p : Program} {known : LocatedMethod → Prop} {s t : Session} {held names : List UInt32}
variable {options : Options} {skipped : List String}

def Session.Sound.layout (hs : s.Sound p known held) : Layout s.sections where
  entryPoints := s.entryPoints.toList
  modes := s.modes.toList
  declarations := s.code
  entryPoints_op := by
    intro i hi
    rw [hs.entryPoints] at hi
    obtain ⟨f, _, hi⟩ := List.mem_filterMap.mp hi
    obtain ⟨size, _, rfl⟩ := Option.map_eq_some_iff.mp hi
    rfl
  modes_op := by
    intro i hi
    rw [hs.modes] at hi
    obtain ⟨f, _, hi⟩ := List.mem_filterMap.mp hi
    obtain ⟨size, _, rfl⟩ := Option.map_eq_some_iff.mp hi
    rfl
  declarations_op := hs.declarations.declares
  code_eq := by
    rw [hs.functionBodies_sections, ← List.flatMap_def]
    rfl

theorem Session.Twins.rearranged (h : s.Twins p names t) {header header' : Binary.Header}
    (hheader : header = header') :
    Rearranged (counterpart names) ⟨header, t.sections⟩ ⟨header', s.sections⟩
      h.right.sound.layout h.left.sound.layout where
  header := hheader
  ids := h.bijOn_counterpart
  entryPoints := h.entryPoints_perm
  modes := h.modes_perm
  declarations := h.code_perm
  functions := by
    rw [h.right.sound.functionBodies_sections, h.left.sound.functionBodies_sections]
    exact h.bodies_perm

/-- The modules have the same bound, length, number of functions and number of instructions of each
operation, and one is the other rearranged. -/
structure CompiledModule.Agrees (m m' : CompiledModule) : Prop where
  bound : m.bound = m'.bound
  length : m.bytes.length = m'.bytes.length
  functions : m.functions = m'.functions
  skipped : m.skipped = m'.skipped
  images : ∃ image image' : Image, Image.read? m.bytes = some image ∧
    Image.read? m'.bytes = some image' ∧
    (∀ op, image.code.countP (fun i => i.op = op) = image'.code.countP fun i => i.op = op) ∧
    ∃ ρ l l', Rearranged ρ image image' l l'

theorem CompiledModule.Shows.length_bytes {m : CompiledModule} (h : m.Shows s options) :
    m.bytes.length = 4 * (5 + (s.sections.flatMap Inst.words).length) := by
  rw [h.bytes, Binary.Stream.bytes, Binary.length_wordBytes, h.words]
  simp only [List.length_cons]
  omega

theorem Session.Twins.agrees (h : s.Twins p names t) {m m' : CompiledModule}
    (hm : m.Shows t options) (hm' : m'.Shows s options) (hskipped : m.skipped = m'.skipped) :
    m.Agrees m' := by
  have hbound : m.bound = m'.bound := by
    rw [hm.bound, hm'.bound, Declarations.bound, Declarations.bound, h.issued_eq]
  refine ⟨hbound, ?_, ?_, hskipped, _, _, hm.image h.right.sound, hm'.image h.left.sound,
    h.countP_op, counterpart names, h.right.sound.layout, h.left.sound.layout,
    h.rearranged (by rw [hbound])⟩
  · rw [hm.length_bytes, hm'.length_bytes, h.length_words]
  · rw [hm.functions, hm'.functions]
    simpa using h.functions_perm.length_eq

theorem Session.Twins.symm (h : s.Twins p names t) : ∃ names', t.Twins p names' s := by
  obtain ⟨names', hback⟩ := h.back
  exact ⟨names', h.right, h.left, hback, names, h.copies⟩

/-- Compiles the methods in the given order and assembles the module. -/
def compileListed (p : Program) (options : Options) (skipped : List String) (depth : Nat)
    (ms : List LocatedMethod) : M CompiledModule := do
  compileAll p depth ms
  assemble p options skipped

/-- A program is compiled in the order of its declarations. -/
theorem compileWithin_eq_compileListed (depth : Nat) (p : Program) (options : Options) :
    compileWithin depth p options = (do
      validate p depth
      let skipped ← skipGeneric p.methods
      compileListed p options skipped depth (p.methods.filter LocatedMethod.isConcrete)) :=
  rfl

theorem ends_assemble (p : Program) (options : Options) (skipped : List String) (t : Session) :
    (assemble p options skipped).Ends t
      (fun m s => m.Shows t options ∧ m.skipped = skipped ∧ s.declarations = t.declarations)
      fun _ _ => (t.stream options).oversized ≠ none := by
  unfold Walk.Ends
  rw [outcome_assemble]
  unfold Binary.Stream.check
  cases ho : (t.stream options).oversized with
  | none => exact ⟨⟨rfl, rfl, rfl, ho⟩, rfl, rfl⟩
  | some cause => simp

theorem compileListed_split {depth : Nat} {ms : List LocatedMethod} {m : CompiledModule}
    (h : (compileListed p options skipped depth ms).outcome {} = (.ok m, s)) :
    ∃ t, (compileAll p depth ms).outcome {} = (.ok (), t) ∧ m.Shows t options ∧
      m.skipped = skipped ∧ s.declarations = t.declarations := by
  unfold compileListed at h
  rw [Walk.outcome_bind] at h
  rcases ho : (compileAll p depth ms).outcome {} with ⟨e | _, t⟩
  · rw [ho] at h
    cases h
  · rw [ho] at h
    exact ⟨t, rfl, (ends_assemble p options skipped t).of_ok h⟩

theorem finished_of_compileAll (hp : p.Distinct) {ms : List LocatedMethod}
    (hms : ∀ m ∈ ms, p.Reached m) {depth : Nat}
    (h : (compileAll p depth ms).outcome {} = (.ok (), s))
    (hn : s.declarations.issued < 0xFFFFFFFF) :
    s.Finished p ∧ ∀ m ∈ ms, ∃ f ∈ s.functionList, f.method = m := by
  have hlands := lands_compileAll (Program.resolves_locates p) (Session.sound_empty p p.Locates)
    depth ms fun m hm => (hms m hm).locates hp
  obtain ⟨_, hs, hall⟩ := hlands.of_ok h
  have htracks := (keeps_compileAll (admits_all p) hp depth hms {}
    (Session.rests_empty p fun _ => True)).of_ok h
  refine ⟨⟨hs, hn, htracks.distinct⟩, ?_⟩
  intro m hm
  obtain ⟨f, hf, hid⟩ := hall m hm
  exact ⟨f, hf, (hs.known f hf).eq_of_id_eq ((hms m hm).locates hp) hid⟩

/-- Once the methods have been compiled in one order, they are compiled in any other if the depth
suffices, and to a session that repeats the work. -/
theorem ends_compileAll_of_perm (hp : p.Distinct) {ms ms' : List LocatedMethod}
    (hms : ∀ m ∈ ms, p.Reached m) (hperm : ms.Perm ms') {depth : Nat}
    (h : (compileAll p depth ms).outcome {} = (.ok (), s))
    (hn : s.declarations.issued < 0xFFFFFFFF) :
    ∃ enough, ∀ depth', (compileAll p depth' ms').Ends {} (fun _ t => ∃ names, s.Twins p names t)
      fun e _ => e = .tooDeep ∧ ¬ enough ≤ depth' := by
  obtain ⟨hs, hall⟩ := finished_of_compileAll hp hms h hn
  obtain ⟨bound, hbound⟩ := s.exists_typesBelow
  refine ⟨bound + s.functionList.length, fun depth' => ?_⟩
  have hrepeats := repeats_compileAll hs hbound depth' (fun m hm => hall m (hperm.mem_iff.mpr hm))
    s.copies_empty
  rcases ho : (compileAll p depth' ms').outcome {} with ⟨e | _, t⟩
  · exact .error ho (by simpa [ho] using hrepeats.of_error (congrArg Prod.fst ho))
  · refine .ok ho ?_
    obtain ⟨names, _, hcopies⟩ := hrepeats.of_ok ho
    have hn' : t.declarations.issued < 0xFFFFFFFF := hcopies.issued ▸ hcopies.few hs
    obtain ⟨ht, hall'⟩ := finished_of_compileAll hp
      (fun m hm => hms m (hperm.mem_iff.mpr hm)) ho hn'
    -- the run in the first order is now one that repeats the work of the second
    obtain ⟨bound', hbound'⟩ := t.exists_typesBelow
    obtain ⟨names', _, hback⟩ := (repeats_compileAll ht hbound' depth
      (fun m hm => hall' m (hperm.mem_iff.mp hm)) t.copies_empty).of_ok h
    exact ⟨names, hs, ht, hcopies, names', hback⟩

/-- The methods can be compiled in this order, with fewer than `2 ^ 32 - 1` ids. -/
def Compiles (p : Program) (options : Options) (skipped : List String) (ms : List LocatedMethod) :
    Prop :=
  ∃ depth m s, (compileListed p options skipped depth ms).outcome {} = (.ok m, s) ∧
    s.declarations.issued < 0xFFFFFFFF

theorem ends_compileListed_of_perm (hp : p.Distinct) {ms ms' : List LocatedMethod}
    (hms : ∀ m ∈ ms, p.Reached m) (hperm : ms.Perm ms') {depth : Nat} {m : CompiledModule}
    (h : (compileListed p options skipped depth ms).outcome {} = (.ok m, s))
    (hn : s.declarations.issued < 0xFFFFFFFF) :
    ∃ u enough, m.Shows u options ∧ m.skipped = skipped ∧ ∀ depth',
      (compileListed p options skipped depth' ms').Ends {}
        (fun m' t => t.declarations.issued < 0xFFFFFFFF ∧ m'.skipped = skipped ∧
          ∃ v names, v.Twins p names u ∧ m'.Shows v options)
        fun e _ => e = .tooDeep ∧ depth' < enough := by
  obtain ⟨u, hu, hshows, hskipped, hdeclarations⟩ := compileListed_split h
  rw [hdeclarations] at hn
  obtain ⟨enough, hends⟩ := ends_compileAll_of_perm hp hms hperm hu hn
  refine ⟨u, enough, hshows, hskipped, fun depth' => .bind ((hends depth').mono ?_ ?_)⟩
  · intro _ v hv
    obtain ⟨names, htwins⟩ := hv
    obtain ⟨names', hback⟩ := htwins.symm
    refine (ends_assemble p options skipped v).mono ?_ ?_
    · intro m' t ht
      obtain ⟨hshows', hskipped', hdeclarations'⟩ := ht
      refine ⟨?_, hskipped', v, names', hback, hshows'⟩
      rw [hdeclarations']
      exact htwins.right.few
    · intro e t ht
      exact absurd (htwins.fits hshows.fits) ht
  · intro e v he
    exact ⟨he.1, Nat.lt_of_not_le he.2⟩

theorem compiles_of_perm (hp : p.Distinct) {ms ms' : List LocatedMethod}
    (hms : ∀ m ∈ ms, p.Reached m) (hperm : ms.Perm ms') (h : Compiles p options skipped ms) :
    Compiles p options skipped ms' := by
  obtain ⟨depth, m, s, hrun, hn⟩ := h
  obtain ⟨_, enough, _, _, hends⟩ := ends_compileListed_of_perm hp hms hperm hrun hn
  rcases ho : (compileListed p options skipped enough ms').outcome {} with ⟨e | m', t⟩
  · have hstop := (hends enough).of_error (congrArg Prod.fst ho)
    exact absurd hstop.2 (by omega)
  · exact ⟨enough, m', t, ho, ((hends enough).of_ok ho).1⟩

/-- Of two orders in which the concrete declared methods are compiled, either both lead to a module
or none does. The modules agree up to ids and the order of their parts. Once one order has led to
a module, the other one stops for no reason but that it may not go deep enough. -/
theorem compileListed_order_independent (hp : p.Distinct) {ms ms' : List LocatedMethod}
    (hms : ms.Perm (p.methods.filter LocatedMethod.isConcrete))
    (hms' : ms'.Perm (p.methods.filter LocatedMethod.isConcrete)) (options : Options)
    (skipped : List String) :
    (Compiles p options skipped ms ↔ Compiles p options skipped ms') ∧
      ∀ depth m s, (compileListed p options skipped depth ms).outcome {} = (.ok m, s) →
        s.declarations.issued < 0xFFFFFFFF → ∃ enough, ∀ depth',
          (compileListed p options skipped depth' ms').Ends {} (fun m' _ => m.Agrees m')
            fun e _ => e = .tooDeep ∧ depth' < enough := by
  have hreached : ∀ {ms : List LocatedMethod},
      ms.Perm (p.methods.filter LocatedMethod.isConcrete) → ∀ m ∈ ms, p.Reached m := by
    intro ms hms m hm
    obtain ⟨hm, hc⟩ := List.mem_filter.mp (hms.mem_iff.mp hm)
    exact .declared hm hc
  refine ⟨⟨compiles_of_perm hp (hreached hms) (hms.trans hms'.symm),
    compiles_of_perm hp (hreached hms') (hms'.trans hms.symm)⟩, ?_⟩
  intro depth m s h hn
  obtain ⟨u, enough, hshows, hskipped, hends⟩ :=
    ends_compileListed_of_perm hp (hreached hms) (hms.trans hms'.symm) h hn
  refine ⟨enough, fun depth' => (hends depth').mono ?_ fun _ _ he => he⟩
  intro m' t hm'
  obtain ⟨_, hskipped', v, names, htwins, hshows'⟩ := hm'
  exact htwins.agrees hshows hshows' (hskipped.trans hskipped'.symm)

namespace Probe

def calleeFirst : List LocatedMethod :=
  program.methods.filter LocatedMethod.isConcrete

def callerFirst : List LocatedMethod :=
  calleeFirst.reverse

def run (ms : List LocatedMethod) : Except (Stop LoweringError) CompiledModule × Session :=
  (compileListed program {} [] 9 ms).outcome {}

/-- The two orders lead to modules with different bytes. -/
theorem runs_differ : ∃ m s m' s', run calleeFirst = (.ok m, s) ∧ run callerFirst = (.ok m', s') ∧
    s.declarations.issued < 0xFFFFFFFF ∧ m.bytes ≠ m'.bytes := by
  have hbytes : (run calleeFirst).1.toOption.any (fun m =>
      (run callerFirst).1.toOption.any fun m' => m.bytes != m'.bytes) = true := by
    decide +kernel
  have hn : (run calleeFirst).2.declarations.issued < 0xFFFFFFFF := by decide +kernel
  rcases h : run calleeFirst with ⟨e | m, s⟩
  · rw [h] at hbytes
    cases hbytes
  rcases h' : run callerFirst with ⟨e' | m', s'⟩
  · rw [h, h'] at hbytes
    cases hbytes
  rw [h] at hn
  rw [h, h'] at hbytes
  refine ⟨m, s, m', s', rfl, rfl, hn, ?_⟩
  simpa [Except.toOption] using hbytes

end Probe

theorem compileListed_order_independent_probe :
    Compiles Probe.program {} [] Probe.calleeFirst ∧
      Compiles Probe.program {} [] Probe.callerFirst ∧
      ∃ m s m' s', Probe.run Probe.calleeFirst = (.ok m, s) ∧
        Probe.run Probe.callerFirst = (.ok m', s') ∧ m.bytes ≠ m'.bytes ∧ m.Agrees m' := by
  have hperm : Probe.callerFirst.Perm Probe.calleeFirst := List.reverse_perm Probe.calleeFirst
  obtain ⟨hiff, hagrees⟩ := compileListed_order_independent Probe.distinct
    (List.Perm.refl Probe.calleeFirst) hperm {} []
  obtain ⟨m, s, m', s', h, h', hn, hne⟩ := Probe.runs_differ
  have hcompiles : Compiles Probe.program {} [] Probe.calleeFirst := ⟨9, m, s, h, hn⟩
  obtain ⟨_, hends⟩ := hagrees 9 m s h hn
  exact ⟨hcompiles, hiff.mp hcompiles, m, s, m', s', h, h', hne, (hends _).of_ok h'⟩

end ShaderIR.Lowering
