import Mathlib.Data.List.TakeWhile
import ShaderIR.Proofs.EntryPointRules

/-! The names of entry points as a reader of the module sees them. A literal string ends before the
first zero byte and is filled up with zero bytes to the end of its last word; reading words in this
way accepts exactly what is written for names without a zero character. So the entry point of a
kernel gives back the name of the method just if that name has no such character. -/

namespace ShaderIR

namespace Binary

/-- The literal string that words start with, and the words that follow it. -/
def readLiteral? (words : List UInt32) : Option (String × List UInt32) :=
  let bytes := literalBytes words
  let size := bytes.length / 4 + 1
  let padding := ((words.take size).flatMap Cursor.lowFirst).drop bytes.length
  if size ≤ words.length && padding.all (· == 0) then
    (String.fromUTF8? ⟨bytes.toArray⟩).map (·, words.drop size)
  else none

theorem length_flatMap_lowFirst (words : List UInt32) :
    (words.flatMap Cursor.lowFirst).length = 4 * words.length := by
  simp [Cursor.lowFirst, List.length_flatMap, Nat.mul_comm]

theorem packBytes_lowFirst (w : UInt32) :
    packBytes w.toUInt8 (w >>> 8).toUInt8 (w >>> 16).toUInt8 (w >>> 24).toUInt8 = w := by
  apply UInt32.toBitVec_inj.mp
  ext i hi
  simp only [packBytes, UInt32.toBitVec_or, UInt32.toBitVec_shiftLeft,
    UInt8.toBitVec_toUInt32, UInt32.toBitVec_toUInt8, UInt32.toBitVec_shiftRight]
  interval_cases i <;> simp

theorem flatMap_lowFirst_injective : Function.Injective (List.flatMap Cursor.lowFirst) := by
  intro words words' h
  induction words generalizing words' with
  | nil =>
    cases words' with
    | nil => rfl
    | cons w' rest' => simp [Cursor.lowFirst] at h
  | cons w rest ih =>
    cases words' with
    | nil => simp [Cursor.lowFirst] at h
    | cons w' rest' =>
      simp only [List.flatMap_cons, Cursor.lowFirst, List.cons_append, List.nil_append,
        List.cons.injEq] at h
      obtain ⟨h₀, h₁, h₂, h₃, hrest⟩ := h
      rw [ih hrest, ← packBytes_lowFirst w, h₀, h₁, h₂, h₃, packBytes_lowFirst w']

theorem zero_mem_utf8 {s : String} (hs : '\x00' ∈ s.toList) : (0 : UInt8) ∈ utf8 s :=
  List.mem_flatMap.mpr ⟨'\x00', hs, by decide⟩

theorem zero_not_mem_literalBytes (words : List UInt32) : (0 : UInt8) ∉ literalBytes words := by
  intro h
  simpa using List.mem_takeWhile_imp h

theorem utf8_of_fromUTF8? {bytes : List UInt8} {s : String}
    (h : String.fromUTF8? ⟨bytes.toArray⟩ = some s) : utf8 s = bytes := by
  unfold String.fromUTF8? at h
  split at h
  · have hbytes : s.toByteArray = ⟨bytes.toArray⟩ := by
      rw [← Option.some.inj h]
      rfl
    have hs : (⟨(utf8 s).toArray⟩ : ByteArray) = s.toByteArray := by
      rw [← String.utf8Encode_toList]
      exact ByteArray.ext List.data_toByteArray.symm
    exact List.toArray_inj (ByteArray.mk.inj (hs.trans hbytes))
  · cases h

/-- What is written for a name is read as the name, whatever words follow. -/
theorem readLiteral?_nameWords {s : String} (hs : '\x00' ∉ s.toList) (rest : List UInt32) :
    readLiteral? (nameWords s ++ rest) = some (s, rest) := by
  obtain ⟨⟨k, hbytes⟩, hlength⟩ := packName_bytes (utf8 s)
  have htake : (nameWords s ++ rest).take ((utf8 s).length / 4 + 1) = nameWords s := by
    rw [← hlength]
    exact List.take_left
  have hdrop : (nameWords s ++ rest).drop ((utf8 s).length / 4 + 1) = rest := by
    rw [← hlength]
    exact List.drop_left
  have hpadding : ((nameWords s).flatMap Cursor.lowFirst).drop (utf8 s).length =
      0 :: List.replicate k 0 := by
    rw [nameWords, hbytes, List.drop_left]
  have hsize : (utf8 s).length / 4 + 1 ≤ (nameWords s ++ rest).length := by
    rw [← hlength, List.length_append]
    exact Nat.le_add_right ..
  have hzeros : (0 :: List.replicate k (0 : UInt8)).all (· == 0) = true := by simp
  unfold readLiteral?
  simp only [literalBytes, takeWhile_nameWords hs, htake, hdrop, hpadding, hsize, hzeros,
    fromUTF8?_utf8]
  rfl

theorem take_flatMap_lowFirst (words : List UInt32) (n : Nat) :
    (words.take n).flatMap Cursor.lowFirst = (words.flatMap Cursor.lowFirst).take (4 * n) := by
  induction n generalizing words with
  | zero => simp
  | succ n ih =>
    cases words with
    | nil => simp
    | cons w rest => simp [ih, Cursor.lowFirst, Nat.mul_succ]

/-- What is read as a name has been written for it. -/
theorem eq_nameWords_of_readLiteral? {words rest : List UInt32} {s : String}
    (h : readLiteral? words = some (s, rest)) :
    '\x00' ∉ s.toList ∧ words = nameWords s ++ rest := by
  unfold readLiteral? at h
  dsimp only at h
  split at h
  · rename_i hguard
    simp only [Bool.and_eq_true, decide_eq_true_eq, List.all_eq_true, beq_iff_eq] at hguard
    obtain ⟨hsize, hzeros⟩ := hguard
    obtain ⟨t, ht, hpair⟩ := Option.map_eq_some_iff.mp h
    obtain ⟨rfl, hrest⟩ := Prod.mk.inj hpair
    have hbytes := utf8_of_fromUTF8? ht
    refine ⟨fun hmem => zero_not_mem_literalBytes words (hbytes ▸ zero_mem_utf8 hmem), ?_⟩
    rw [← hbytes] at hsize hzeros hrest
    obtain ⟨⟨k, hname⟩, hlength⟩ := packName_bytes (utf8 t)
    have htext : ((words.take ((utf8 t).length / 4 + 1)).flatMap Cursor.lowFirst).take
        (utf8 t).length = utf8 t := by
      have hprefix : literalBytes words <+: words.flatMap Cursor.lowFirst :=
        List.takeWhile_prefix _
      rw [← hbytes, List.prefix_iff_eq_take] at hprefix
      rw [take_flatMap_lowFirst, List.take_take, Nat.min_eq_left (by omega)]
      exact hprefix.symm
    have hfull : ((words.take ((utf8 t).length / 4 + 1)).flatMap Cursor.lowFirst).length =
        (utf8 t).length + (k + 1) := by
      have hwritten := congrArg List.length hname
      rw [length_flatMap_lowFirst, hlength] at hwritten
      rw [length_flatMap_lowFirst, List.length_take_of_le hsize, hwritten]
      simp
    have hpadding : ((words.take ((utf8 t).length / 4 + 1)).flatMap Cursor.lowFirst).drop
        (utf8 t).length = List.replicate (k + 1) 0 := by
      refine List.eq_replicate_iff.mpr ⟨?_, hzeros⟩
      rw [List.length_drop, hfull, Nat.add_sub_cancel_left]
    have hsame : (words.take ((utf8 t).length / 4 + 1)).flatMap Cursor.lowFirst =
        (nameWords t).flatMap Cursor.lowFirst := by
      rw [← List.take_append_drop (utf8 t).length (List.flatMap _ (words.take _)), htext, hpadding,
        nameWords, hname, List.replicate_succ]
    rw [← hrest, ← flatMap_lowFirst_injective hsame, List.take_append_drop]
  · cases h

theorem readLiteral?_nameWords_iff (s : String) :
    readLiteral? (nameWords s) = some (s, []) ↔ '\x00' ∉ s.toList := by
  constructor
  · exact fun h => (eq_nameWords_of_readLiteral? h).1
  · intro hs
    simpa using readLiteral?_nameWords hs []

end Binary

namespace Lowering

open Binary (Op Inst Image readLiteral?)

variable {p : Program} {known : LocatedMethod → Prop} {s : Session}

/-- The entry points of a module are those of the kernels among its functions. What follows the
model and the function in one of them is read as the name of the method, with nothing left, just if
the name has no zero character. -/
theorem compile_entryPoint_names {s₀ : Session} {options : Options} {m : CompiledModule}
    (h₀ : s₀.Reachable p known) (h : (compile p options).outcome s₀ = (.ok m, s)) :
    ∃ image, Image.read? m.bytes = some image ∧
      (∀ i ∈ image.code, i.op = .entryPoint → ∃ f ∈ s.functionList, f.method.isKernel = true ∧
        i.operands.take 2 = [5, f.id.val] ∧
        (readLiteral? (i.operands.drop 2) = some (f.method.fullName, []) ↔
          '\x00' ∉ f.method.fullName.toList)) ∧
      ∀ f ∈ s.functionList, f.method.isKernel = true → ∃ i ∈ image.code, i.op = .entryPoint ∧
        i.operands.take 2 = [5, f.id.val] ∧
        (readLiteral? (i.operands.drop 2) = some (f.method.fullName, []) ↔
          '\x00' ∉ f.method.fullName.toList) := by
  obtain ⟨held, hs, hm⟩ := compile_reachable h₀ h
  refine ⟨_, hm.image hs, ?_, ?_⟩
  · intro i hi hop
    obtain ⟨f, hf, hk, rfl⟩ := hs.mem_entryPoint_iff.mp ⟨hi, hop⟩
    exact ⟨f, hf, hk, rfl, Binary.readLiteral?_nameWords_iff _⟩
  · intro f hf hk
    obtain ⟨hi, hop⟩ := hs.mem_entryPoint_iff.mpr ⟨f, hf, hk, rfl⟩
    exact ⟨f.entryInst, hi, hop, rfl, Binary.readLiteral?_nameWords_iff _⟩

namespace Plate

def shader : Ty := .named "Demo.Shader" []

def kernel (name : String) : Method where
  owner := shader
  name := name
  attributes := [.static, .kernel 1 1 1]

/-- A program whose only method is a kernel of the given name. -/
def program (name : String) : Program where
  name := "Demo"
  types := [{ fullName := "Demo.Shader", methods := [kernel name] }]

theorem distinct (name : String) : (program name).Distinct := by
  have hnames : ["Demo.Shader"].Nodup := by decide
  exact hnames

theorem reached (name : String) :
    (program name).Reached ⟨⟨⟨[], "Demo.Shader"⟩, 0, none, none⟩, kernel name⟩ := by
  have hmethods : (program name).methods =
      [⟨⟨⟨[], "Demo.Shader"⟩, 0, none, none⟩, kernel name⟩] := rfl
  exact .declared (hmethods ▸ List.mem_singleton_self _) rfl

end Plate

theorem compile_entryPoint_names_plate :
    ∃ m s image, (compile (Plate.program "Größe😀") {}).outcome {} = (.ok m, s) ∧
      Image.read? m.bytes = some image ∧ ∃ i ∈ image.code, i.op = .entryPoint ∧
        readLiteral? (i.operands.drop 2) = some ("Demo.Shader::Größe😀", []) := by
  have hsome : (freshCode? (Plate.program "Größe😀") {}).isSome = true := by decide +kernel
  obtain ⟨code, hcode⟩ := Option.isSome_iff_exists.mp hsome
  obtain ⟨m, s, image, h, himage, _⟩ := exists_of_freshCode? hcode
  obtain ⟨_, _, hlisted, _⟩ := compile_functions (Plate.distinct _) h
  obtain ⟨f, hf, hmethod⟩ := hlisted _ (Plate.reached _)
  have hname : f.method.fullName = "Demo.Shader::Größe😀" := by
    rw [hmethod]
    decide +kernel
  have hkernel : f.method.isKernel = true := by
    rw [hmethod]
    rfl
  have h₀ : Session.Reachable (Plate.program "Größe😀") (fun _ => True) {} := .empty
  obtain ⟨image', himage', _, hkernels⟩ := compile_entryPoint_names h₀ h
  obtain rfl : image' = image := Option.some.inj (himage'.symm.trans himage)
  obtain ⟨i, hi, hop, _, hread⟩ := hkernels f hf hkernel
  rw [hname] at hread
  exact ⟨m, s, image', h, himage, i, hi, hop, hread.mpr (by decide)⟩

/-- A zero character in the name of a kernel is not refused. A reader sees a shorter name and takes
what follows for the id of an interface variable. -/
theorem compile_entryPoint_names_severed :
    ∃ m s image, (compile (Plate.program "Ma\x00in") {}).outcome {} = (.ok m, s) ∧
      Image.read? m.bytes = some image ∧ ∃ i ∈ image.code, i.op = .entryPoint ∧
        readLiteral? (i.operands.drop 2) = some ("Demo.Shader::Ma", [28265]) := by
  have hread : (freshCode? (Plate.program "Ma\x00in") {}).map (fun code => code.any fun i =>
      i.op = .entryPoint ∧
        readLiteral? (i.operands.drop 2) = some ("Demo.Shader::Ma", [28265])) =
      some true := by decide +kernel
  obtain ⟨code, hcode, hany⟩ := Option.map_eq_some_iff.mp hread
  obtain ⟨m, s, image, h, himage, rfl⟩ := exists_of_freshCode? hcode
  obtain ⟨i, hi, hname⟩ := List.any_eq_true.mp hany
  exact ⟨m, s, image, h, himage, i, hi, of_decide_eq_true hname⟩

end Lowering

end ShaderIR
