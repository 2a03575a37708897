import Mathlib.Tactic.IntervalCases
import ShaderIR.Binary.Reader
import ShaderIR.Proofs.DefinitionOrder

/-! The module that bytes stand for: a header and instructions, cut by the lengths in their first
words. A written module reads back as what was written. -/

namespace ShaderIR

namespace Binary

/-- Cuts words into instructions. Every instruction takes at least one of the `fuel` words. -/
def instsOfWords : Nat → List UInt32 → Option (List Inst)
  | _, [] => some []
  | 0, _ :: _ => none
  | fuel + 1, w :: rest => do
    let length := w.toNat / 0x10000
    let op ← Op.ofCode? (w.toNat % 0x10000)
    if length = 0 ∨ rest.length + 1 < length then none
    else return ⟨op, rest.take (length - 1)⟩ :: (← instsOfWords fuel (rest.drop (length - 1)))

/-- A header and the instructions after it. -/
structure Image where
  header : Header
  code : List Inst
deriving DecidableEq, Inhabited

def Image.ofWords : List UInt32 → Option Image
  | first :: version :: generator :: bound :: reserved :: words => do
    if first = magic then
      return ⟨⟨version, generator, bound, reserved⟩, ← instsOfWords words.length words⟩
    else none
  | _ => none

/-- Reads a module whose words are written with the most significant byte first. -/
def Image.read? (bytes : List UInt8) : Option Image :=
  if bytes.length % 4 = 0 then ofWords (wordsOfBytes bytes) else none

theorem highFirst_wordBytes (w : UInt32) :
    highFirst (w >>> 24).toUInt8 (w >>> 16).toUInt8 (w >>> 8).toUInt8 w.toUInt8 = w := by
  apply UInt32.toBitVec_inj.mp
  ext i hi
  simp only [highFirst, packBytes, UInt32.toBitVec_or, UInt32.toBitVec_shiftLeft,
    UInt8.toBitVec_toUInt32, UInt32.toBitVec_toUInt8, UInt32.toBitVec_shiftRight]
  interval_cases i <;> simp

theorem wordsOfBytes_wordBytes (words : List UInt32) :
    wordsOfBytes (words.flatMap wordBytes) = words := by
  induction words with
  | nil => rfl
  | cons w words ih =>
    rw [List.flatMap_cons]
    simp only [wordBytes, List.cons_append, List.nil_append, wordsOfBytes]
    rw [highFirst_wordBytes, ih]

theorem length_wordBytes (words : List UInt32) :
    (words.flatMap wordBytes).length = 4 * words.length := by
  induction words with
  | nil => rfl
  | cons w words ih =>
    rw [List.flatMap_cons, List.length_append, ih, List.length_cons]
    simp only [wordBytes, List.length_cons, List.length_nil]
    omega

theorem Op.code_lt (op : Op) : op.code < 0x10000 := by
  cases op with
  | other number => exact number.toNat_lt
  | _ => decide

/-- The first word of an instruction holds its length and the code of its operation. -/
theorem Inst.firstWord {i : Inst} (hf : i.fits = true) :
    (UInt32.ofNat (i.length * 0x10000 + i.op.code)).toNat / 0x10000 = i.length ∧
      (UInt32.ofNat (i.length * 0x10000 + i.op.code)).toNat % 0x10000 = i.op.code := by
  have hc := i.op.code_lt
  have hl : i.length < 0x10000 := by simpa [Inst.fits] using hf
  have hn : (UInt32.ofNat (i.length * 0x10000 + i.op.code)).toNat =
      i.length * 0x10000 + i.op.code := by
    rw [UInt32.toNat_ofNat_of_lt']
    change i.length * 0x10000 + i.op.code < 0x100000000
    omega
  rw [hn]
  omega

theorem instsOfWords_words {code : List Inst} (hf : ∀ i ∈ code, i.fits = true)
    (ho : ∀ i ∈ code, i.op ∈ Op.all) {fuel : Nat} (hn : code.length ≤ fuel) :
    instsOfWords fuel (code.flatMap Inst.words) = some code := by
  induction code generalizing fuel with
  | nil => cases fuel <;> rfl
  | cons i rest ih =>
    cases fuel with
    | zero => simp at hn
    | succ fuel =>
      obtain ⟨hlength, hcode⟩ := Inst.firstWord (hf i (by simp))
      have hrest := ih (fun j hj => hf j (by simp [hj])) (fun j hj => ho j (by simp [hj]))
        (show rest.length ≤ fuel by simpa using hn)
      simp only [List.flatMap_cons, Inst.words, List.cons_append, instsOfWords, hlength, hcode,
        Op.ofCode?_code _ (ho i (by simp))]
      have hi : i.length - 1 = i.operands.length := rfl
      rw [hi, List.take_left, List.drop_left, hrest]
      simp [Inst.length]

theorem length_le_words (code : List Inst) : code.length ≤ (code.flatMap Inst.words).length := by
  induction code with
  | nil => simp
  | cons i rest ih =>
    simp only [List.flatMap_cons, List.length_append, List.length_cons, Inst.words]
    omega

namespace Stream

theorem emit_oversized {s : Stream} {i : Inst} (h : (s.emit i).oversized = none) :
    s.oversized = none ∧ i.fits = true := by
  unfold emit at h
  by_cases hf : i.fits = true
  · simp only [hf, if_true] at h
    exact ⟨h, hf⟩
  · simp [hf] at h

/-- A stream that has left nothing out holds the words of all that was written to it. -/
theorem emitAll_words {s : Stream} {code : List Inst} (h : (s.emitAll code).oversized = none) :
    (s.emitAll code).words.toList = s.words.toList ++ code.flatMap Inst.words ∧
      s.oversized = none ∧ ∀ i ∈ code, i.fits = true := by
  induction code generalizing s with
  | nil => exact ⟨by simp [emitAll], h, by simp⟩
  | cons i rest ih =>
    obtain ⟨hw, hs, hf⟩ := ih (show ((s.emit i).emitAll rest).oversized = none from h)
    obtain ⟨hs, hi⟩ := emit_oversized hs
    refine ⟨?_, hs, ?_⟩
    · have he : (s.emitAll (i :: rest)).words = ((s.emit i).emitAll rest).words := rfl
      rw [he, hw]
      simp [emit, hi]
    · intro j hj
      rcases List.mem_cons.mp hj with rfl | hj
      · exact hi
      · exact hf j hj

theorem oversized_emitAll {s : Stream} {code : List Inst} (hs : s.oversized = none)
    (h : ∀ i ∈ code, i.fits = true) : (s.emitAll code).oversized = none := by
  induction code generalizing s with
  | nil => exact hs
  | cons i code ih =>
    have hi : (s.emit i).oversized = none := by simp [emit, h i List.mem_cons_self, hs]
    exact ih hi fun j hj => h j (List.mem_cons_of_mem _ hj)

end Stream

theorem Op.mem_all {op : Op} (h : ∀ number, op ≠ .other number) : op ∈ Op.all := by
  cases op with
  | other number => exact absurd rfl (h number)
  | _ => decide

theorem Op.mem_all_of_isDeclaration {op : Op} (h : op.isDeclaration = true) : op ∈ Op.all := by
  refine mem_all ?_
  rintro number rfl
  simp [isDeclaration] at h

theorem Op.mem_all_of_isInner {op : Op} (h : op.isInner = true) : op ∈ Op.all := by
  refine mem_all ?_
  rintro number rfl
  simp [isInner] at h

end Binary

namespace Lowering

open Binary (Op Inst Image results)

variable {p : Program} {known : LocatedMethod → Prop} {s : Session} {held : List UInt32}

/-- What stands before the declarations of a module. -/
def Session.preamble (s : Session) : List Inst :=
  [⟨.capability, [1]⟩, ⟨.memoryModel, [0, 1]⟩] ++ s.entryPoints.toList ++ s.modes.toList

theorem Session.sections_eq (s : Session) :
    s.sections = s.preamble ++ (s.code ++ s.functionList.flatMap Function.code) := by
  simp [sections, preamble, code, functionList]

theorem Session.code_subset_sections (s : Session) : s.code ⊆ s.sections := by
  intro i hi
  simp [sections_eq, hi]

theorem Session.functionCode_subset_sections {f : Function} (hf : f ∈ s.functionList) :
    f.code ⊆ s.sections := by
  intro i hi
  rw [sections_eq]
  exact List.mem_append_right _ (List.mem_append_right _ (List.mem_flatMap.mpr ⟨f, hf, hi⟩))

theorem Session.sections_split {pre post : List Function} {f : Function}
    (hsplit : s.functionList = pre ++ f :: post) :
    s.sections = s.preamble ++ (s.code ++ pre.flatMap Function.code) ++
      (f.code ++ post.flatMap Function.code) := by
  simp [sections_eq, hsplit]

theorem Session.Sound.preamble_cases (hs : s.Sound p known held) {i : Inst}
    (hi : i ∈ s.preamble) :
    i = ⟨.capability, [1]⟩ ∨ i = ⟨.memoryModel, [0, 1]⟩ ∨
      ∃ f ∈ s.functionList, (∃ words, i = ⟨.entryPoint, 5 :: f.id.val :: words⟩) ∨
        ∃ x y z, i = ⟨.executionMode, [f.id.val, 17, x, y, z]⟩ := by
  simp only [preamble, List.mem_append, List.mem_cons, List.not_mem_nil, or_false] at hi
  rcases hi with ((rfl | rfl) | hi) | hi
  · exact .inl rfl
  · exact .inr (.inl rfl)
  · rw [hs.entryPoints] at hi
    obtain ⟨f, hf, hi⟩ := List.mem_filterMap.mp hi
    obtain ⟨size, _, rfl⟩ := Option.map_eq_some_iff.mp hi
    exact .inr (.inr ⟨f, hf, .inl ⟨_, rfl⟩⟩)
  · rw [hs.modes] at hi
    obtain ⟨f, hf, hi⟩ := List.mem_filterMap.mp hi
    obtain ⟨size, _, rfl⟩ := Option.map_eq_some_iff.mp hi
    exact .inr (.inr ⟨f, hf, .inr ⟨_, _, _, rfl⟩⟩)

theorem Session.Sound.built (hs : s.Sound p known held) {f : Function}
    (hf : f ∈ s.functionList) :
    ∃ pre post q, s.functionList = pre ++ f :: post ∧ f.Built p s.code pre q := by
  obtain ⟨pre, post, he⟩ := List.append_of_mem hf
  obtain ⟨q, hq⟩ := hs.order pre f post he
  exact ⟨pre, post, q, he, hq⟩

/-- Where an instruction of a module stands, by its operation. -/
theorem Session.Sound.sections_cases (hs : s.Sound p known held) {i : Inst}
    (hi : i ∈ s.sections) :
    i ∈ s.preamble ∨ i.op.isDeclaration = true ∨
      (∃ f ∈ s.functionList, ∃ q : FunctionParts, i = q.headInst f) ∨ i.op.isInner = true ∨
      i = ⟨.functionEnd, []⟩ := by
  rw [sections_eq, List.mem_append, List.mem_append] at hi
  rcases hi with hi | hi | hi
  · exact .inl hi
  · exact .inr (.inl (hs.declarations.declares i hi))
  · obtain ⟨f, hf, hi⟩ := List.mem_flatMap.mp hi
    obtain ⟨pre, post, q, _, hq⟩ := hs.built hf
    rw [hq.code_eq, List.mem_cons, List.mem_append, List.mem_singleton] at hi
    rcases hi with hi | hi | hi
    · exact .inr (.inr (.inl ⟨f, hf, q, hi⟩))
    · exact .inr (.inr (.inr (.inl (hq.isInner i hi))))
    · exact .inr (.inr (.inr (.inr hi)))

theorem Session.Sound.op_mem (hs : s.Sound p known held) {i : Inst} (hi : i ∈ s.sections) :
    i.op ∈ Op.all := by
  rcases hs.sections_cases hi with hi | hi | ⟨f, _, q, rfl⟩ | hi | rfl
  · rcases hs.preamble_cases hi with rfl | rfl | ⟨f, _, ⟨words, rfl⟩ | ⟨x, y, z, rfl⟩⟩
    all_goals exact Binary.Op.mem_all (by simp)
  · exact Binary.Op.mem_all_of_isDeclaration hi
  · exact Binary.Op.mem_all (by simp [FunctionParts.headInst, Inst.ofIds])
  · exact Binary.Op.mem_all_of_isInner hi
  · exact Binary.Op.mem_all (by simp)

theorem CompiledModule.Shows.words {κ : Type} {s : Session κ} {m : CompiledModule}
    {options : Options} (h : m.Shows s options) :
    (s.stream options).words.toList =
      Binary.magic :: options.version :: options.generator :: m.bound :: 0 ::
        s.sections.flatMap Inst.words := by
  rw [h.bound]
  exact (Binary.Stream.emitAll_words h.fits).1

/-- The bytes of a module are those of its header and of the sections of its session. -/
theorem CompiledModule.Shows.image {m : CompiledModule} {options : Options}
    (h : m.Shows s options) (hs : s.Sound p known held) :
    Image.read? m.bytes =
      some ⟨⟨options.version, options.generator, m.bound, 0⟩, s.sections⟩ := by
  obtain ⟨_, _, hf⟩ := Binary.Stream.emitAll_words h.fits
  have hinsts := Binary.instsOfWords_words hf (fun i hi => hs.op_mem hi)
    (Binary.length_le_words s.sections)
  rw [Image.read?, h.bytes, Binary.Stream.bytes, Binary.length_wordBytes, h.words,
    Binary.wordsOfBytes_wordBytes]
  rw [if_pos (Nat.mul_mod_right 4 _)]
  simp only [Image.ofWords, if_true, hinsts]
  rfl

end Lowering

end ShaderIR
