import ShaderIR.Proofs.MethodLowering

/-! Requests to a session, and the compilation of a whole program in a session that has served
requests before. -/

namespace ShaderIR.Lowering

open Binary (Id Inst)

variable {p : Program} {known : LocatedMethod → Prop} {s t : Session} {held : List UInt32}

theorem compilesWell_compileMethod (hk : Resolves p known) (depth : Nat) :
    CompilesWell p known (compileMethod p depth) := by
  induction depth with
  | zero =>
    intro s held hs m _
    exact lands_throw hs _
  | succ depth ih =>
    intro s held hs m hm
    rw [compileMethod]
    exact lands_once_functions hs fun t ht =>
      lands_buildFunction (lowersWell_lowerType p known depth) hk ih ht hm

/-- The sessions that requests lead to, whether they succeed or fail: requests for a type, where
`none` is the type of no value, for the function of a known method, and for an id. -/
inductive Session.Reachable (p : Program) (known : LocatedMethod → Prop) : Session → Prop
  | empty : Reachable p known {}
  | type {s : Session} (h : Reachable p known s) (depth : Nat) (ty : Option Ty) :
      Reachable p known ((lowerReturn (lowerType p depth) ty).outcome s).2
  | method {s : Session} (h : Reachable p known s) (depth : Nat) {m : LocatedMethod}
      (hm : known m) : Reachable p known ((compileMethod p depth m).outcome s).2
  | id {s : Session} (h : Reachable p known s) : Reachable p known (fresh.outcome s).2

theorem Session.Reachable.sound (hk : Resolves p known) (h : s.Reachable p known) :
    ∃ held, s.Sound p known held := by
  induction h with
  | empty => exact ⟨[], sound_empty p known⟩
  | type h depth ty ih =>
    obtain ⟨held, hs⟩ := ih
    exact (lands_lowerReturn (lowersWell_lowerType p known depth) hs ty).last
      (fun _ _ h => ⟨held, h.2.1⟩) (fun _ _ h => h.2)
  | method h depth hm ih =>
    obtain ⟨held, hs⟩ := ih
    exact (compilesWell_compileMethod hk depth _ held hs _ hm).last
      (fun _ _ h => ⟨held, h.2.1⟩) (fun _ _ h => h.2)
  | id h ih =>
    obtain ⟨held, hs⟩ := ih
    exact (lands_fresh hs).last (fun id _ h => ⟨id.val :: held, h.2⟩) (fun _ _ h => h.2)

theorem lands_compileAll (hk : Resolves p known) (hs : s.Sound p known held) (depth : Nat)
    (ms : List LocatedMethod) (hms : ∀ m ∈ ms, known m) :
    Lands p known (compileAll p depth ms) s fun _ t =>
      t.Sound p known held ∧ ∀ m ∈ ms, ∃ f ∈ t.functionList, f.method.id = m.id := by
  induction ms generalizing s with
  | nil => exact lands_pure ⟨hs, by simp⟩
  | cons m rest ih =>
    refine (compilesWell_compileMethod hk depth s held hs m (hms m (by simp))).bind ?_
    rintro f t _ ⟨ht, hf, hid⟩
    refine (ih ht fun m' hm' => hms m' (by simp [hm'])).mono ?_
    rintro _ u hg ⟨hu, hrest⟩
    refine ⟨hu, fun m' hm' => ?_⟩
    rcases List.mem_cons.mp hm' with rfl | hm'
    · exact ⟨f, hg.functionList.subset hf, hid⟩
    · exact hrest m' hm'

theorem lands_skipGeneric (hs : s.Sound p known held) (ms : List LocatedMethod) :
    Lands p known (skipGeneric ms) s fun _ t => t.Sound p known held := by
  induction ms generalizing s with
  | nil => exact lands_pure hs
  | cons m rest ih =>
    rw [skipGeneric]
    by_cases hm : m.isConcrete = true
    · simp only [hm, if_true]
      exact ih hs
    · simp only [hm]
      refine (lands_log hs _).bind ?_
      rintro _ t _ ⟨ht, _⟩
      refine (ih ht).bind ?_
      intro names u _ hu
      exact lands_pure hu

theorem lands_validate (hs : s.Sound p known held) (depth : Nat) :
    Lands p known (validate p depth) s fun _ t => t.Sound p known held := by
  unfold validate Lands Walk.Ends
  rw [Walk.outcome_bind, Walk.outcome_modifyGet]
  dsimp only
  rcases (p.validateWithin depth).outcome s.journal with ⟨r | u, journal⟩
  · cases r with
    | failed e => exact ⟨.withJournal s journal, held, hs.withJournal journal⟩
    | tooDeep => exact ⟨.withJournal s journal, held, hs.withJournal journal⟩
  · exact ⟨.withJournal s journal, hs.withJournal journal⟩

/-- A module is the written form of the session it was made in. -/
structure CompiledModule.Shows {κ : Type} (m : CompiledModule) (s : Session κ) (options : Options) :
    Prop where
  bytes : m.bytes = (s.stream options).bytes
  bound : m.bound = s.declarations.bound
  functions : m.functions = s.functionList.length
  fits : (s.stream options).oversized = none

theorem lands_assemble (hs : s.Sound p known held) (options : Options) (skipped : List String) :
    Lands p known (assemble p options skipped) s fun m t =>
      t.Sound p known held ∧ m.Shows t options ∧ m.skipped = skipped := by
  unfold assemble Lands Walk.Ends
  rw [Walk.outcome_bind, Walk.outcome_get]
  dsimp only
  rcases ho : (s.stream options).oversized with _ | ⟨op, length⟩
  · have hcheck : (s.stream options).check = .ok () := by simp [Binary.Stream.check, ho]
    rw [hcheck]
    exact ⟨.withJournal s _, hs.withJournal _, ⟨rfl, rfl, rfl, ho⟩, rfl⟩
  · have hcheck : (s.stream options).check = .error (.unsupported (.oversized op length)) := by
      simp [Binary.Stream.check, ho]
    rw [hcheck]
    exact ⟨.refl s, held, hs⟩

theorem lands_compile (hk : Resolves p known)
    (hp : ∀ m ∈ p.methods, m.isConcrete = true → known m) (hs : s.Sound p known held)
    (options : Options) :
    Lands p known (compile p options) s fun m t =>
      t.Sound p known held ∧ m.Shows t options ∧
        ∀ m ∈ p.methods, m.isConcrete = true → ∃ f ∈ t.functionList, f.method.id = m.id := by
  refine (lands_validate hs depthLimit).bind ?_
  intro _ t _ ht
  refine (lands_skipGeneric ht p.methods).bind ?_
  intro skipped u _ hu
  refine (lands_compileAll hk hu depthLimit _ fun m hm =>
    hp m (List.mem_of_mem_filter hm) (List.mem_filter.mp hm).2).bind ?_
  rintro _ v _ ⟨hv, hall⟩
  refine (lands_assemble hv options skipped).mono ?_
  rintro m w hg ⟨hw, hm, _⟩
  refine ⟨hw, hm, fun m' hm' hc => ?_⟩
  obtain ⟨f, hf, hid⟩ := hall m' (List.mem_filter.mpr ⟨hm', hc⟩)
  exact ⟨f, hg.functionList.subset hf, hid⟩

end ShaderIR.Lowering
