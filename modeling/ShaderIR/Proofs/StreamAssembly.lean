import ShaderIR.Lowering.Error
import ShaderIR.Proofs.WrittenModule

/-! Streams put together from instructions and from other streams. The words can be cut into the
instructions again, in one way, and an instruction that is too long to be written is reported
however the streams are joined. -/

namespace ShaderIR.Binary

/-- What the words of an instruction show: the number of its operation, and its operands. -/
def Inst.shown (i : Inst) : UInt16 × List UInt32 :=
  (UInt16.ofNat i.op.code, i.operands)

/-- The instruction that words show. -/
def Inst.ofShown (r : UInt16 × List UInt32) : Inst :=
  ⟨Op.ofNumber r.1, r.2⟩

/-- Cuts words into instructions, each as long as the upper half of its first word says. -/
def cut? : List UInt32 → Option (List (UInt16 × List UInt32))
  | [] => some []
  | w :: rest =>
    let length := (w >>> 16).toNat
    if length = 0 ∨ rest.length + 1 < length then none
    else (cut? (rest.drop (length - 1))).map ((w.toUInt16, rest.take (length - 1)) :: ·)
termination_by words => words.length
decreasing_by
  simp only [List.length_drop, List.length_cons]
  omega

theorem Inst.fits_iff {i : Inst} : i.fits = true ↔ i.length ≤ 65535 := by
  rw [fits, decide_eq_true_iff, Nat.lt_succ_iff]

theorem cut?_words_append {i : Inst} (hi : i.fits = true) (rest : List UInt32) :
    cut? (i.words ++ rest) = (cut? rest).map (i.shown :: ·) := by
  obtain ⟨hlength, hcode⟩ := Inst.firstWord hi
  rw [Inst.words, List.cons_append, cut?]
  generalize UInt32.ofNat (i.length * 0x10000 + i.op.code) = w at hlength hcode
  have hhigh : (w >>> 16).toNat = i.operands.length + 1 := by
    rw [UInt32.toNat_shiftRight]
    exact (Nat.shiftRight_eq_div_pow _ _).trans hlength
  have hlow : w.toUInt16 = UInt16.ofNat i.op.code := by
    apply UInt16.toNat_inj.mp
    rw [UInt32.toNat_toUInt16, ← hcode, UInt16.toNat_ofNat', Nat.mod_mod]
  have hroom : ¬(i.operands.length + 1 = 0 ∨
      (i.operands ++ rest).length + 1 < i.operands.length + 1) := by
    rw [List.length_append]
    omega
  simp only [hhigh, hlow, if_neg hroom, Nat.add_sub_cancel, List.drop_left, List.take_left]
  rfl

/-- Cutting undoes writing. -/
theorem cut?_flatMap_words {code : List Inst} (h : ∀ i ∈ code, i.fits = true) :
    cut? (code.flatMap Inst.words) = some (code.map Inst.shown) := by
  induction code with
  | nil => rw [List.flatMap_nil, cut?, List.map_nil]
  | cons i code ih =>
    obtain ⟨hi, hcode⟩ := List.forall_mem_cons.mp h
    rw [List.flatMap_cons, cut?_words_append hi, ih hcode, Option.map_some, List.map_cons]

namespace Stream

/-- The stream came from these instructions: it has the words of those that fit, and remembers the
first one that does not. -/
structure Holds (s : Stream) (code : List Inst) : Prop where
  words : s.words.toList = (code.filter Inst.fits).flatMap Inst.words
  oversized : s.oversized = (code.find? fun i => !i.fits).map fun i => (i.op, i.length)

theorem holds_empty : empty.Holds [] :=
  ⟨rfl, rfl⟩

theorem Holds.extend {s t : Stream} {code more : List Inst} (hs : s.Holds code)
    (ht : t.Holds more) : (s.extend t).Holds (code ++ more) where
  words := by
    rw [Stream.extend, Array.toList_append, hs.words, ht.words, List.filter_append,
      List.flatMap_append]
  oversized := by
    rw [Stream.extend, hs.oversized, ht.oversized, List.find?_append, Option.map_or]

/-- Writing one instruction is joining the stream that holds it alone. -/
theorem emit_eq_extend (s : Stream) (i : Inst) : s.emit i = s.extend (ofInsts [i]) := by
  cases hi : i.fits with
  | true =>
    simp only [emit, extend, ofInsts, emitAll, List.foldl_cons, List.foldl_nil, empty, hi, if_true,
      Option.or_none, mk.injEq, and_true]
    apply Array.ext'
    simp
  | false => simp [emit, extend, ofInsts, emitAll, empty, hi]

theorem holds_singleton (i : Inst) : (ofInsts [i]).Holds [i] := by
  cases hi : i.fits <;> constructor <;> simp [ofInsts, emitAll, emit, empty, hi]

theorem Holds.emit {s : Stream} {code : List Inst} (hs : s.Holds code) (i : Inst) :
    (s.emit i).Holds (code ++ [i]) := by
  rw [emit_eq_extend]
  exact hs.extend (holds_singleton i)

namespace Holds

variable {s : Stream} {code : List Inst} (h : s.Holds code)

include h

theorem cut?_eq : cut? s.words.toList = some ((code.filter Inst.fits).map Inst.shown) := by
  rw [h.words]
  exact cut?_flatMap_words fun i hi => (List.mem_filter.mp hi).2

/-- No other instructions have these words. -/
theorem shown_eq {other : List Inst} (hother : ∀ i ∈ other, i.fits = true)
    (hwords : other.flatMap Inst.words = s.words.toList) :
    other.map Inst.shown = (code.filter Inst.fits).map Inst.shown := by
  have hcut := h.cut?_eq
  rw [← hwords, cut?_flatMap_words hother] at hcut
  exact Option.some.inj hcut

theorem check_eq : s.check =
    match code.find? fun i => !i.fits with
    | some i => .error (.unsupported (.oversized i.op i.length))
    | none => .ok () := by
  rw [check, h.oversized]
  cases code.find? fun i => !i.fits <;> rfl

theorem check_eq_ok_iff : s.check = .ok () ↔ ∀ i ∈ code, i.length ≤ 65535 := by
  simp only [← Inst.fits_iff]
  rw [h.check_eq]
  cases hfind : code.find? fun i => !i.fits with
  | none => simpa using hfind
  | some i =>
    have hlong : i.fits = false := by simpa using List.find?_some hfind
    simpa using ⟨i, List.mem_of_find?_eq_some hfind, hlong⟩

theorem check_of_first {before after : List Inst} {i : Inst} (hcode : code = before ++ i :: after)
    (hbefore : ∀ j ∈ before, j.length ≤ 65535) (hi : 65535 < i.length) :
    s.check = .error (.unsupported (.oversized i.op i.length)) := by
  have hlong : i.fits = false := by
    rw [Bool.eq_false_iff, ne_eq, Inst.fits_iff]
    omega
  have hfind : code.find? (fun i => !i.fits) = some i := by
    rw [hcode, List.find?_append, List.find?_eq_none.mpr, Option.none_or, List.find?_cons_of_pos]
    · simp [hlong]
    · intro j hj
      simpa using Inst.fits_iff.mpr (hbefore j hj)
  rw [h.check_eq, hfind]

end Holds

end Stream

/-- How a stream is put together: instructions are written to it, and other streams are joined to
its end. -/
inductive Assembly where
  | empty
  | emit (a : Assembly) (i : Inst)
  | emitIds (a : Assembly) (op : Op) (ids : List Id) (literals : List UInt32)
  | extend (a other : Assembly)

namespace Assembly

def stream : Assembly → Stream
  | .empty => .empty
  | .emit a i => a.stream.emit i
  | .emitIds a op ids literals => a.stream.emit (.ofIds op ids literals)
  | .extend a other => a.stream.extend other.stream

/-- All instructions that were to be written, in the order of their places in the stream. -/
def emitted : Assembly → List Inst
  | .empty => []
  | .emit a i => a.emitted ++ [i]
  | .emitIds a op ids literals => a.emitted ++ [.ofIds op ids literals]
  | .extend a other => a.emitted ++ other.emitted

/-- The instructions that are written: those that the length field has room for. -/
def written (a : Assembly) : List Inst :=
  a.emitted.filter fun i => i.length ≤ 65535

theorem written_eq (a : Assembly) : a.written = a.emitted.filter Inst.fits :=
  List.filter_congr fun i _ => by rw [Bool.eq_iff_iff, decide_eq_true_iff, Inst.fits_iff]

theorem holds (a : Assembly) : a.stream.Holds a.emitted := by
  induction a with
  | empty => exact Stream.holds_empty
  | emit a i ih => exact ih.emit i
  | emitIds a op ids literals ih => exact ih.emit _
  | extend a other ih ihother => exact ih.extend ihother

/-- However a stream is put together, cutting its words gives the instructions that are written, in
order, and no other instructions have the same words; of an operation the words show the number. The
check passes just when every instruction is written, and else reports the first one that is not. -/
theorem cut?_stream (a : Assembly) :
    cut? a.stream.words.toList = some (a.written.map Inst.shown) ∧
    ((∀ i ∈ a.written, Op.ofNumber (UInt16.ofNat i.op.code) = i.op) →
      (cut? a.stream.words.toList).map (List.map Inst.ofShown) = some a.written) ∧
    (∀ code : List Inst, (∀ i ∈ code, i.length ≤ 65535) →
      code.flatMap Inst.words = a.stream.words.toList →
        code.map Inst.shown = a.written.map Inst.shown) ∧
    (a.stream.check = .ok () ↔ ∀ i ∈ a.emitted, i.length ≤ 65535) ∧
    ∀ before i after, a.emitted = before ++ i :: after → (∀ j ∈ before, j.length ≤ 65535) →
      65535 < i.length → a.stream.check = .error (.unsupported (.oversized i.op i.length)) := by
  have hcut := a.holds.cut?_eq
  rw [← a.written_eq] at hcut
  refine ⟨hcut, fun hnamed => ?_, fun code hcode hwords => ?_, a.holds.check_eq_ok_iff,
    fun before i after => a.holds.check_of_first⟩
  · rw [hcut, Option.map_some, List.map_map]
    refine congrArg some ((List.map_congr_left fun i hi => ?_).trans (List.map_id _))
    exact congrArg (Inst.mk · i.operands) (hnamed i hi)
  · rw [a.written_eq]
    exact a.holds.shown_eq (fun i hi => Inst.fits_iff.mpr (hcode i hi)) hwords

/-- The first instruction that is too long stands in the middle of a stream that is joined to
another; the second one misses the limit by a word. -/
theorem cut?_stream_joined :
    let name : Inst := ⟨.entryPoint, List.replicate 70000 0⟩
    let filler : Inst := ⟨.nop, List.replicate 65535 0⟩
    let part : Assembly := (Assembly.empty.emit name).emitIds .label [⟨7⟩] []
    let a : Assembly := ((Assembly.empty.emit ⟨.capability, [1]⟩).extend part).emit filler
    cut? a.stream.words.toList = some [(17, [1]), (248, [7])] ∧
    (cut? a.stream.words.toList).map (List.map Inst.ofShown) =
      some [⟨.capability, [1]⟩, ⟨.label, [7]⟩] ∧
    part.stream.check ≠ .ok () ∧
    a.stream.check = .error (.unsupported (.oversized .entryPoint 70001)) := by
  intro name filler part a
  have hname : name.operands.length = 70000 := List.length_replicate
  have hfiller : filler.operands.length = 65535 := List.length_replicate
  have hwritten : a.written = [⟨.capability, [1]⟩, ⟨.label, [7]⟩] := by
    simp [a, part, written, emitted, hname, hfiller, Inst.length, Inst.ofIds]
  obtain ⟨hcut, hnamed, _, _, hfirst⟩ := a.cut?_stream
  rw [hwritten] at hcut hnamed
  refine ⟨hcut, hnamed ?_, fun hok => ?_, ?_⟩
  · simp only [List.forall_mem_cons]
    exact ⟨rfl, rfl, by simp⟩
  · have hshort := part.cut?_stream.2.2.2.1.mp hok name (by simp [part, emitted])
    rw [Inst.length, hname] at hshort
    omega
  · have hlong : name.length = 70001 := by rw [Inst.length, hname]
    rw [← hlong]
    exact hfirst [⟨.capability, [1]⟩] name _ rfl (by simp [Inst.length]) (by omega)

end Assembly

end ShaderIR.Binary
