import ShaderIR.Proofs.WrittenModule

/-! The ids of a compiled module: which there are, and where they are defined. -/

namespace ShaderIR.Lowering

open Binary (Op Id Inst Image results firstIds)

variable {p : Program} {known : LocatedMethod → Prop} {s : Session} {held : List UInt32}

theorem resolves_any (p : Program) : Resolves p fun _ => True :=
  fun _ _ _ _ => trivial

/-- A module compiled in a session that has served any requests before is the image of a session
that satisfies the invariant. -/
theorem compile_sound {s₀ : Session} {options : Options} {m : CompiledModule}
    (hk : Resolves p known) (hp : ∀ m ∈ p.methods, known m) (hs : s₀.Sound p known held)
    (h : (compile p options).outcome s₀ = (.ok m, s)) :
    s.Sound p known held ∧ m.Shows s options ∧
      ∀ m ∈ p.methods, m.isConcrete = true → ∃ f ∈ s.functionList, f.method.id = m.id :=
  ((lands_compile hk (fun m hm _ => hp m hm) hs options).of_ok h).2

theorem Session.Reachable.any (h : s.Reachable p known) : s.Reachable p fun _ => True := by
  induction h with
  | empty => exact .empty
  | type _ depth ty ih => exact .type ih depth ty
  | method _ depth _ ih => exact .method ih depth trivial
  | id _ ih => exact .id ih

theorem compile_reachable {s₀ : Session} {options : Options} {m : CompiledModule}
    (h₀ : s₀.Reachable p known) (h : (compile p options).outcome s₀ = (.ok m, s)) :
    ∃ held, s.Sound p (fun _ => True) held ∧ m.Shows s options := by
  obtain ⟨held, hs⟩ := h₀.any.sound (resolves_any p)
  obtain ⟨ht, hm, _⟩ := compile_sound (resolves_any p) (fun _ _ => trivial) hs h
  exact ⟨held, ht, hm⟩

namespace Session.Sound

theorem results_preamble (hs : s.Sound p known held) : results s.preamble = [] := by
  refine List.filterMap_eq_nil_iff.mpr fun i hi => ?_
  rcases hs.preamble_cases hi with rfl | rfl | ⟨f, _, ⟨words, rfl⟩ | ⟨x, y, z, rfl⟩⟩
  all_goals rfl

theorem results_sections (hs : s.Sound p known held) : results s.sections = s.defined := by
  rw [sections_eq, Binary.results_append, hs.results_preamble, Binary.results_append]
  rfl

theorem nodup_sections (hs : s.Sound p known held) (hn : s.declarations.issued < 0xFFFFFFFF) :
    (results s.sections).Nodup := by
  rw [hs.results_sections, List.nodup_iff_count_le_one]
  intro x
  have hx := hs.ids x
  have hone := List.nodup_iff_count_le_one.mp (Binary.nodup_firstIds hn) x
  omega

/-- With no id held back, exactly the ids handed out are defined. -/
theorem mem_sections (hs : s.Sound p known []) (hn : s.declarations.issued < 0xFFFFFFFF)
    (x : UInt32) : x ∈ results s.sections ↔ 1 ≤ x.toNat ∧ x.toNat < s.declarations.bound.toNat := by
  have hbound : s.declarations.bound.toNat = s.declarations.issued + 1 := by
    rw [Declarations.bound, UInt32.toNat_ofNat_of_lt']
    change s.declarations.issued + 1 < 0x100000000
    omega
  have hx := hs.ids x
  rw [List.count_nil, Nat.add_zero] at hx
  rw [hs.results_sections, ← List.count_pos_iff, hx, List.count_pos_iff,
    Binary.mem_firstIds hn, hbound]
  omega

theorem function_mem (hs : s.Sound p known held) {f : Function} (hf : f ∈ s.functionList) :
    f.id.val ∈ results s.sections := by
  obtain ⟨pre, post, q, _, hq⟩ := hs.built hf
  rw [hs.results_sections]
  refine List.mem_append_right _ (Binary.results_subset ?_ hq.id_mem)
  exact fun i hi => List.mem_flatMap.mpr ⟨f, hf, hi⟩

theorem uses_preamble (hs : s.Sound p known held) {i : Inst} (hi : i ∈ s.preamble) :
    (i.op = .capability ∨ i.op = .memoryModel) ∧ i.uses = [] ∨
      (i.op = .entryPoint ∨ i.op = .executionMode) ∧
        ∃ f ∈ s.functionList, i.uses = [f.id.val] := by
  rcases hs.preamble_cases hi with rfl | rfl | ⟨f, hf, ⟨words, rfl⟩ | ⟨x, y, z, rfl⟩⟩
  · exact .inl ⟨.inl rfl, rfl⟩
  · exact .inl ⟨.inr rfl, rfl⟩
  · exact .inr ⟨.inl rfl, f, hf, rfl⟩
  · exact .inr ⟨.inr rfl, f, hf, rfl⟩

theorem uses_sections (hs : s.Sound p known held) {i : Inst} (hi : i ∈ s.sections) {x : UInt32}
    (hx : x ∈ i.uses) : x ∈ results s.sections := by
  have hi' := hi
  rw [sections_eq, List.mem_append] at hi'
  rcases hi' with hi' | hi'
  · rcases hs.uses_preamble hi' with ⟨_, hu⟩ | ⟨_, f, hf, hu⟩
    · rw [hu] at hx
      cases hx
    · rw [hu, List.mem_singleton] at hx
      exact hx ▸ hs.function_mem hf
  · obtain ⟨pre, post, he⟩ := List.append_of_mem hi'
    have hclosed := hs.closed
    rw [he] at hclosed
    rcases hclosed.at hx with hx | hx
    · cases hx
    · rw [sections_eq, he]
      simp [hx]

end Session.Sound

theorem CompiledModule.Shows.boundBytes {m : CompiledModule} {options : Options}
    (h : m.Shows s options) : (m.bytes.drop 12).take 4 = Binary.wordBytes m.bound := by
  obtain ⟨hw, _, _⟩ := Binary.Stream.emitAll_words h.fits
  have hwords : (s.stream options).words.toList =
      Binary.magic :: options.version :: options.generator :: s.declarations.bound :: 0 ::
        s.sections.flatMap Inst.words := hw
  rw [h.bytes, h.bound, Binary.Stream.bytes, hwords]
  rfl

/-- A fresh compilation defines exactly the ids below the bound, each once, and refers only to
these. -/
theorem compile_fresh_ids_dense {options : Options} {m : CompiledModule}
    (h : (compile p options).outcome {} = (.ok m, s))
    (hn : s.declarations.issued < 0xFFFFFFFF) :
    ∃ image, Image.read? m.bytes = some image ∧ image.header.bound = m.bound ∧
      (m.bytes.drop 12).take 4 = Binary.wordBytes m.bound ∧ (results image.code).Nodup ∧
      (∀ x : UInt32, x ∈ results image.code ↔ 1 ≤ x.toNat ∧ x.toNat < m.bound.toNat) ∧
      ∀ i ∈ image.code, ∀ x ∈ i.uses, x ∈ results image.code := by
  obtain ⟨hs, hm, _⟩ := compile_sound (resolves_any p) (fun _ _ => trivial)
    (Session.sound_empty p fun _ => True) h
  refine ⟨_, hm.image hs, rfl, hm.boundBytes, hs.nodup_sections hn, ?_, ?_⟩
  · rw [hm.bound]
    exact hs.mem_sections hn
  · exact fun i hi x hx => hs.uses_sections hi hx

namespace Probe

def float : Ty := .named "Float" []

def uint : Ty := .named "UInt" []

def vec : Ty := .named "Vec" [float]

def self : Ty := .named "Probe" []

/-- A method with a receiver and a parameter that copies between members and components. -/
def pick : Method where
  owner := self
  name := "pick"
  returnType := some float
  parameterTypes := [uint]
  body :=
    [.define vec, .define float,
      .mk .loadField [.variable 2, .variable 0, .field 1],
      .mk .loadElement [.variable 3, .variable 2, .variable 1],
      .mk .add [.variable 3, .variable 3, .variable 3],
      .mk .setElement [.variable 2, .variable 1, .variable 3],
      .mk .setField [.variable 0, .field 1, .variable 2],
      .mk .retValue [.variable 3]]

/-- A kernel that calls the method. -/
def main : Method where
  owner := self
  name := "main"
  attributes := [.static, .kernel 1 1 1]
  body :=
    [.define self, .define uint, .define float,
      .mk .loadUInt32 [.variable 1, .uint32 2],
      .mk .call [.method ⟨self, 0, "pick", []⟩, .variable 2, .variable 0, .variable 1], .ret]

/-- A program with numbers, a generic vector and a struct. -/
def program : Program where
  name := "probe"
  types :=
    [{ fullName := "Float", attributes := [.representation (some "OpTypeFloat 32")] },
      { fullName := "UInt", attributes := [.representation (some "OpTypeInt 32 0")] },
      { fullName := "Vec", genericParameters := [⟨"T", []⟩]
        attributes := [.representation (some "OpTypeVector \x7bT\x7d 4")] },
      { fullName := "Probe", fields := [⟨"weight", float⟩, ⟨"samples", vec⟩]
        methods := [pick, main] }]

/-- A session in which a type and an id have been asked for. -/
def session : Session :=
  (fresh.outcome ((lowerReturn (lowerType program 9) (some vec)).outcome {}).2).2

theorem reachable_session (known : LocatedMethod → Prop) : session.Reachable program known :=
  .id (.type .empty 9 (some vec))

theorem outcome_ok (s₀ : Session) (hok : ((compile program {}).outcome s₀).1.isOk = true)
    (hn : ((compile program {}).outcome s₀).2.declarations.issued < 0xFFFFFFFF) :
    ∃ m s, (compile program {}).outcome s₀ = (.ok m, s) ∧ s.declarations.issued < 0xFFFFFFFF := by
  rcases h : (compile program {}).outcome s₀ with ⟨r, s⟩
  rw [h] at hok hn
  cases r with
  | error e => cases hok
  | ok m => exact ⟨m, s, rfl, hn⟩

theorem compiles_session : ∃ m s, (compile program {}).outcome session = (.ok m, s) ∧
    s.declarations.issued < 0xFFFFFFFF :=
  outcome_ok session (by decide +kernel) (by decide +kernel)

end Probe

theorem compile_fresh_ids_dense_probe :
    ∃ m s, (compile Probe.program {}).outcome {} = (.ok m, s) ∧
      s.declarations.issued < 0xFFFFFFFF ∧
      ∃ image, Image.read? m.bytes = some image ∧ image.header.bound = m.bound ∧
        (m.bytes.drop 12).take 4 = Binary.wordBytes m.bound ∧ (results image.code).Nodup ∧
        (∀ x : UInt32, x ∈ results image.code ↔ 1 ≤ x.toNat ∧ x.toNat < m.bound.toNat) ∧
        ∀ i ∈ image.code, ∀ x ∈ i.uses, x ∈ results image.code := by
  obtain ⟨m, s, h, hn⟩ := Probe.outcome_ok {} (by decide +kernel) (by decide +kernel)
  exact ⟨m, s, h, hn, compile_fresh_ids_dense h hn⟩

/-- The whole code of the function with the given id. -/
def IsFunctionCode (id : UInt32) (code : List Inst) : Prop :=
  ∃ head inner, code = head :: (inner ++ [⟨.functionEnd, []⟩]) ∧ head.op = .function ∧
    head.result? = some id ∧ ∀ i ∈ inner, i.op.isInner = true

theorem Function.Built.isFunctionCode {code : List Inst} {earlier : List Function} {f : Function}
    {q : FunctionParts} (h : f.Built p code earlier q) : IsFunctionCode f.id.val f.code :=
  ⟨q.headInst f, q.inner f, h.code_eq, rfl, rfl, h.isInner⟩

theorem append_split {α : Type} {a b pre post : List α} {x : α} (h : a ++ b = pre ++ x :: post) :
    (∃ post', a = pre ++ x :: post') ∨ ∃ pre', pre = a ++ pre' ∧ b = pre' ++ x :: post := by
  rcases List.append_eq_append_iff.mp h with ⟨pre', hpre, hb⟩ | ⟨rest, ha, hrest⟩
  · exact .inr ⟨pre', hpre, hb⟩
  · cases rest with
    | nil => exact .inr ⟨[], by simpa using ha.symm, by simpa using hrest.symm⟩
    | cons y rest =>
      obtain ⟨rfl, _⟩ := List.cons.inj hrest
      exact .inl ⟨rest, ha⟩

/-- A place in the code of functions is a place in one of them, after all of those before it. -/
theorem flatMap_code_split {fs : List Function} {pre post : List Inst} {i : Inst}
    (h : fs.flatMap Function.code = pre ++ i :: post) :
    ∃ before f after u v, fs = before ++ f :: after ∧ f.code = u ++ i :: v ∧
      pre = before.flatMap Function.code ++ u := by
  induction fs generalizing pre with
  | nil => simp at h
  | cons g fs ih =>
    rw [List.flatMap_cons] at h
    rcases append_split h with ⟨v, hg⟩ | ⟨pre', rfl, h'⟩
    · exact ⟨[], g, fs, pre, v, rfl, hg, by simp⟩
    · obtain ⟨before, f, after, u, v, hfs, hf, hpre⟩ := ih h'
      exact ⟨g :: before, f, after, u, v, by simp [hfs], hf, by simp [hpre]⟩

/-- A call in the code of an instruction is one that the instruction makes. -/
theorem Translates.callee {code : List Inst} {earlier : List Function} {c : Scope}
    {i : Instruction} {out : List Inst} (h : Translates p code earlier c i out) :
    ∀ j ∈ out, j.op = .functionCall → ∃ g ∈ earlier, j.operands[2]? = some g.id.val ∧
      ∃ callee, p.CalledIn [i] callee ∧ g.method.id = callee.id := by
  have harith : ∀ {opcode : Opcode} {shape : Shape LoweredType} {op : Op}
      (_ : arithmeticOp? opcode shape = some op), op ≠ .functionCall := by
    intro opcode shape op hop he
    have hlayout := layout_of_arithmeticOp? hop
    subst he
    by_cases ho : opcode = .negate <;> simp [Op.layout, ho] at hlayout
  cases h with
  | negate ho hd hs ht hop => simp [loadInst, storeTo, Inst.ofIds, harith hop]
  | binary ho hd hl hr ht ht' hop => simp [loadInst, storeTo, Inst.ofIds, harith hop]
  | @call r target m f slot arguments values result ho hr ht hm hf hid hs hn ha hv hret =>
    intro j hj hop
    rcases List.mem_append.mp hj with hj | hj
    · rw [loadInsts, ← List.map_uncurry_zip_eq_zipWith] at hj
      obtain ⟨v, _, rfl⟩ := List.mem_map.mp hj
      cases hop
    rcases List.mem_cons.mp hj with rfl | hj
    · have hcall : p.CalledIn [i] m := ⟨i, List.mem_singleton_self i, r, target, ho, hr, ht, hm⟩
      exact ⟨f, hf, rfl, m, hcall, hid⟩
    · obtain ⟨v, _, rfl⟩ := Option.map_eq_some_iff.mp (Option.mem_toList.mp hj)
      cases hop
  | _ => simp [loadInst, storeTo, accessInst, Inst.ofIds]

theorem TranslatesBody.callee {code : List Inst} {earlier : List Function} {c : Scope}
    {is : List Instruction} {out : List Inst} (h : TranslatesBody p code earlier c is out) :
    ∀ j ∈ out, j.op = .functionCall → ∃ g ∈ earlier, j.operands[2]? = some g.id.val ∧
      ∃ callee, p.CalledIn is callee ∧ g.method.id = callee.id := by
  induction h with
  | fallThrough hv => simp
  | ret ho hv => simp
  | retValue ho hr hv ht => simp [loadInst, Inst.ofIds]
  | define ho hd _ ih =>
    intro j hj hop
    obtain ⟨g, hg, hoperand, callee, hcall, hid⟩ := ih j hj hop
    exact ⟨g, hg, hoperand, callee, hcall.mono (List.subset_cons_self ..), hid⟩
  | plain hi _ ih =>
    intro j hj hop
    rcases List.mem_append.mp hj with hj | hj
    · obtain ⟨g, hg, hoperand, callee, hcall, hid⟩ := hi.callee j hj hop
      exact ⟨g, hg, hoperand, callee, hcall.mono (by simp), hid⟩
    · obtain ⟨g, hg, hoperand, callee, hcall, hid⟩ := ih j hj hop
      exact ⟨g, hg, hoperand, callee, hcall.mono (List.subset_cons_self ..), hid⟩

theorem Function.Built.callee {code : List Inst} {earlier : List Function} {f : Function}
    {q : FunctionParts} (h : f.Built p code earlier q) {j : Inst} (hj : j ∈ q.inner f)
    (hop : j.op = .functionCall) : ∃ g ∈ earlier, j.operands[2]? = some g.id.val ∧
      ∃ callee, p.Calls f.method callee ∧ g.method.id = callee.id := by
  simp only [FunctionParts.inner, List.mem_append, List.mem_cons] at hj
  rcases hj with hj | rfl | hj | hj | hj
  · rw [FunctionParts.parameterInsts, ← List.map_uncurry_zip_eq_zipWith] at hj
    obtain ⟨_, _, rfl⟩ := List.mem_map.mp hj
    cases hop
  · cases hop
  · obtain ⟨_, _, rfl⟩ := List.mem_map.mp hj
    cases hop
  · rw [FunctionParts.storeInsts, ← List.map_uncurry_zip_eq_zipWith] at hj
    obtain ⟨_, _, rfl⟩ := List.mem_map.mp hj
    cases hop
  · exact h.body.callee j hj hop

/-- A place inside a function: its first instruction stands before, its last one does not. -/
theorem Function.Built.inner_split {code : List Inst} {earlier : List Function} {f : Function}
    {q : FunctionParts} (h : f.Built p code earlier q) {u v : List Inst} {i : Inst}
    (hi : i.op ≠ .function) (hi' : i.op ≠ .functionEnd) (hsplit : f.code = u ++ i :: v) :
    ∃ u' v', u = q.headInst f :: u' ∧ q.inner f = u' ++ i :: v' := by
  rw [h.code_eq] at hsplit
  cases u with
  | nil =>
    obtain ⟨rfl, _⟩ := List.cons.inj hsplit
    exact absurd rfl hi
  | cons head u' =>
    obtain ⟨rfl, hrest⟩ := List.cons.inj hsplit
    rcases append_split hrest with ⟨v', hv'⟩ | ⟨u'', _, hlast⟩
    · exact ⟨u', v', rfl, hv'⟩
    · cases u'' with
      | nil =>
        obtain ⟨rfl, _⟩ := List.cons.inj hlast
        exact absurd rfl hi'
      | cons _ _ => simp at hlast

namespace Session.Sound

/-- What an instruction refers to stands before it, entry points and their modes excepted. -/
theorem defined_before (hs : s.Sound p known held) {pre post : List Inst} {i : Inst}
    (hsplit : s.sections = pre ++ i :: post) (he : i.op ≠ .entryPoint)
    (hm : i.op ≠ .executionMode) {x : UInt32} (hx : x ∈ i.uses) : x ∈ results pre := by
  rw [sections_eq] at hsplit
  rcases append_split hsplit with ⟨post', hpre⟩ | ⟨pre', rfl, hrest⟩
  · have hi : i ∈ s.preamble := by simp [hpre]
    rcases hs.uses_preamble hi with ⟨_, hu⟩ | ⟨hop, _⟩
    · rw [hu] at hx
      cases hx
    · exact absurd hop (by simp [he, hm])
  · have hclosed := hs.closed
    rw [hrest] at hclosed
    rcases hclosed.at hx with hx | hx
    · cases hx
    · simp [hx]

theorem inner_place (hs : s.Sound p known held) {pre post : List Inst} {i : Inst}
    (hsplit : s.sections = pre ++ i :: post) (hi : i.op.isInner = true) :
    ∃ before f after q inner rest, s.functionList = before ++ f :: after ∧
      f.Built p s.code before q ∧ q.inner f = inner ++ i :: rest ∧
      pre = s.preamble ++ (s.code ++ before.flatMap Function.code) ++ q.headInst f :: inner := by
  rw [sections_eq] at hsplit
  rcases append_split hsplit with ⟨post', hpre⟩ | ⟨pre₁, rfl, hrest⟩
  · have hmem : i ∈ s.preamble := by simp [hpre]
    rcases hs.uses_preamble hmem with ⟨hop | hop, _⟩ | ⟨hop | hop, _⟩ <;>
      rw [hop] at hi <;> cases hi
  rcases append_split hrest with ⟨post', hpre⟩ | ⟨pre₂, rfl, hfunctions⟩
  · have hdecl := hs.declarations.declares i (show i ∈ s.code by simp [hpre])
    exact absurd hdecl (by simp [Binary.Op.not_isDeclaration_of_isInner hi])
  obtain ⟨before, f, after, u, v, hlist, hcode, rfl⟩ := flatMap_code_split hfunctions
  obtain ⟨q, hq⟩ := hs.order before f after hlist
  have hfunction : i.op ≠ .function := by
    intro hop
    rw [hop] at hi
    cases hi
  have hend : i.op ≠ .functionEnd := by
    intro hop
    rw [hop] at hi
    cases hi
  obtain ⟨inner, rest, rfl, hinner⟩ := hq.inner_split hfunction hend hcode
  exact ⟨before, f, after, q, inner, rest, hlist, hq, hinner, by simp⟩

theorem callee_before (hs : s.Sound p known held) {pre post : List Inst} {i : Inst}
    (hsplit : s.sections = pre ++ i :: post) (hi : i.op = .functionCall) :
    ∃ callee before body between head inner, i.operands[2]? = some callee ∧
      pre = before ++ body ++ between ++ head :: inner ∧ IsFunctionCode callee body ∧
      head.op = .function ∧ ∀ j ∈ inner, j.op.isInner = true := by
  obtain ⟨earlier, f, after, q, inner, rest, hlist, hq, hinner, rfl⟩ :=
    hs.inner_place hsplit (by rw [hi]; rfl)
  obtain ⟨g, hg, hcallee, _⟩ := hq.callee (show i ∈ q.inner f by simp [hinner]) hi
  obtain ⟨first, second, rfl⟩ := List.append_of_mem hg
  obtain ⟨r, hr⟩ := hs.order first g (second ++ f :: after) (by simp [hlist])
  refine ⟨g.id.val, s.preamble ++ (s.code ++ first.flatMap Function.code), g.code,
    second.flatMap Function.code, q.headInst f, inner, hcallee, ?_, hr.isFunctionCode, rfl, ?_⟩
  · simp
  · exact fun j hj => hq.isInner j (by simp [hinner, hj])

theorem entry_function (hs : s.Sound p known held) {i : Inst} (hi : i ∈ s.sections)
    (hop : i.op = .entryPoint ∨ i.op = .executionMode) :
    ∃ x body, i.uses = [x] ∧ body <:+: s.sections ∧ IsFunctionCode x body := by
  have hpreamble : i ∈ s.preamble := by
    rcases hs.sections_cases hi with hi | hi | ⟨f, _, q, rfl⟩ | hi | rfl
    · exact hi
    · rcases hop with hop | hop <;> rw [hop] at hi <;> cases hi
    · rcases hop with hop | hop <;> cases hop
    · rcases hop with hop | hop <;> rw [hop] at hi <;> cases hi
    · rcases hop with hop | hop <;> cases hop
  rcases hs.uses_preamble hpreamble with ⟨hop' | hop', _⟩ | ⟨_, f, hf, hu⟩
  · rcases hop with hop | hop <;> rw [hop] at hop' <;> cases hop'
  · rcases hop with hop | hop <;> rw [hop] at hop' <;> cases hop'
  · obtain ⟨pre, post, q, he, hq⟩ := hs.built hf
    refine ⟨f.id.val, f.code, hu, ?_, hq.isFunctionCode⟩
    rw [sections_split he]
    exact ⟨_, post.flatMap Function.code, List.append_assoc ..⟩

end Session.Sound

/-- Only entry points and their modes refer to ids that are defined later, and these are
functions of the module. -/
theorem compile_defines_before_use {s₀ : Session} {options : Options} {m : CompiledModule}
    (h₀ : s₀.Reachable p known) (h : (compile p options).outcome s₀ = (.ok m, s)) :
    ∃ image, Image.read? m.bytes = some image ∧
      (∀ pre i post, image.code = pre ++ i :: post → i.op ≠ .entryPoint →
        i.op ≠ .executionMode → ∀ x ∈ i.uses, x ∈ results pre) ∧
      (∀ pre i post, image.code = pre ++ i :: post → i.op = .functionCall →
        ∃ callee before body between head inner, i.operands[2]? = some callee ∧
          pre = before ++ body ++ between ++ head :: inner ∧ IsFunctionCode callee body ∧
          head.op = .function ∧ ∀ j ∈ inner, j.op.isInner = true) ∧
      ∀ i ∈ image.code, i.op = .entryPoint ∨ i.op = .executionMode →
        ∃ x body, i.uses = [x] ∧ body <:+: image.code ∧ IsFunctionCode x body := by
  obtain ⟨held, hs, hm⟩ := compile_reachable h₀ h
  refine ⟨_, hm.image hs, ?_, ?_, ?_⟩
  · exact fun pre i post hsplit he hmode x hx => hs.defined_before hsplit he hmode hx
  · exact fun pre i post hsplit hi => hs.callee_before hsplit hi
  · exact fun i hi hop => hs.entry_function hi hop

theorem compile_defines_before_use_probe :
    Probe.session.Reachable Probe.program (fun _ => True) ∧
      ∃ m s, (compile Probe.program {}).outcome Probe.session = (.ok m, s) ∧
        ∃ image, Image.read? m.bytes = some image ∧
          (∀ pre i post, image.code = pre ++ i :: post → i.op ≠ .entryPoint →
            i.op ≠ .executionMode → ∀ x ∈ i.uses, x ∈ results pre) ∧
          (∀ pre i post, image.code = pre ++ i :: post → i.op = .functionCall →
            ∃ callee before body between head inner, i.operands[2]? = some callee ∧
              pre = before ++ body ++ between ++ head :: inner ∧ IsFunctionCode callee body ∧
              head.op = .function ∧ ∀ j ∈ inner, j.op.isInner = true) ∧
          ∀ i ∈ image.code, i.op = .entryPoint ∨ i.op = .executionMode →
            ∃ x body, i.uses = [x] ∧ body <:+: image.code ∧ IsFunctionCode x body := by
  have h₀ := Probe.reachable_session fun _ => True
  obtain ⟨m, s, h, _⟩ := Probe.compiles_session
  exact ⟨h₀, m, s, h, compile_defines_before_use h₀ h⟩

end ShaderIR.Lowering
