import ShaderIR.Binary.Disassembly
import ShaderIR.Proofs.WrittenModule

/-! Instructions and their words. A decoded instruction conforms to the grammar if its operands
fill the layout of its operation; decoding the words of such an instruction gives it back, whatever
words follow. -/

namespace ShaderIR.Binary

/-! Literal strings. -/

theorem lowFirst_packBytes (a b c d : UInt8) :
    Cursor.lowFirst (packBytes a b c d) = [a, b, c, d] := by
  simp only [Cursor.lowFirst, List.cons.injEq, and_true]
  refine ⟨?_, ?_, ?_, ?_⟩ <;>
  · apply UInt8.toBitVec_inj.mp
    ext i hi
    simp only [packBytes, UInt32.toBitVec_or, UInt32.toBitVec_shiftLeft,
      UInt8.toBitVec_toUInt32, UInt32.toBitVec_toUInt8, UInt32.toBitVec_shiftRight]
    interval_cases i <;> simp

/-- The words of a name hold its bytes and then zero bytes, at least one and up to the end of the
word. -/
theorem packName_bytes (bs : List UInt8) :
    (∃ k, (packName bs).flatMap Cursor.lowFirst = bs ++ 0 :: List.replicate k 0) ∧
      (packName bs).length = bs.length / 4 + 1 := by
  induction bs using packName.induct with
  | case1 a b c d rest ih =>
    obtain ⟨⟨k, hk⟩, hlength⟩ := ih
    refine ⟨⟨k, ?_⟩, ?_⟩
    · simp [packName, lowFirst_packBytes, hk]
    · simp only [packName, List.length_cons, hlength]
      omega
  | case2 a b c => exact ⟨⟨0, by simp [packName, lowFirst_packBytes]⟩, by simp [packName]⟩
  | case3 a b => exact ⟨⟨1, by simp [packName, lowFirst_packBytes]⟩, by simp [packName]⟩
  | case4 a => exact ⟨⟨2, by simp [packName, lowFirst_packBytes]⟩, by simp [packName]⟩
  | case5 => exact ⟨⟨3, by decide⟩, rfl⟩

theorem zero_not_mem_utf8EncodeChar {c : Char} (hc : c ≠ '\x00') :
    (0 : UInt8) ∉ String.utf8EncodeChar c := by
  have hval : c.val.toNat ≠ 0 := fun h => hc (Char.toNat_inj.mp h)
  have hbyte : ∀ n, 0 = UInt8.ofNat n → n % 256 = 0 := by
    intro n h
    have hnat := congrArg UInt8.toNat h
    simpa using hnat.symm
  unfold String.utf8EncodeChar
  intro hmem
  dsimp only at hmem
  split_ifs at hmem <;> simp only [List.mem_cons, List.not_mem_nil, or_false] at hmem
  · have hn := hbyte _ hmem
    omega
  · rcases hmem with h | h <;> have hn := hbyte _ h <;> omega
  · rcases hmem with h | h | h <;> have hn := hbyte _ h <;> omega
  · rcases hmem with h | h | h | h <;> have hn := hbyte _ h <;> omega

theorem zero_not_mem_utf8 {s : String} (hs : '\x00' ∉ s.toList) : (0 : UInt8) ∉ utf8 s := by
  intro hmem
  obtain ⟨c, hc, hzero⟩ := List.mem_flatMap.mp hmem
  refine zero_not_mem_utf8EncodeChar ?_ hzero
  rintro rfl
  exact hs hc

theorem takeWhile_nameWords {s : String} (hs : '\x00' ∉ s.toList) (rest : List UInt32) :
    ((nameWords s ++ rest).flatMap Cursor.lowFirst).takeWhile (· != 0) = utf8 s := by
  obtain ⟨⟨k, hbytes⟩, _⟩ := packName_bytes (utf8 s)
  have hzero := zero_not_mem_utf8 hs
  rw [List.flatMap_append, nameWords, hbytes, List.append_assoc, List.cons_append,
    List.takeWhile_append_of_pos]
  · simp
  · intro b hb
    simpa using fun h : b = 0 => hzero (h ▸ hb)

theorem fromUTF8?_utf8 (s : String) : String.fromUTF8? ⟨(utf8 s).toArray⟩ = some s := by
  have hbytes : (⟨(utf8 s).toArray⟩ : ByteArray) = s.toByteArray := by
    rw [← String.utf8Encode_toList]
    exact ByteArray.ext List.data_toByteArray.symm
  have hvalid : (⟨(utf8 s).toArray⟩ : ByteArray).IsValidUTF8 := hbytes ▸ s.isValidUTF8
  rw [String.fromUTF8?, dif_pos hvalid, Option.some.injEq]
  exact String.toByteArray_inj.mp hbytes

/-! Operands and layouts. -/

def Value.words : Value → List UInt32
  | .id n | .scope n | .literal n | .enumerant _ n => [n]
  | .wideLiteral n => [n.toUInt32, (n >>> 32).toUInt32]
  | .string s => nameWords s

@[simp]
theorem Value.words_ofWord (kind : OperandKind) (w : UInt32) :
    (Value.ofWord kind w).words = [w] := by
  cases kind <;> rfl

theorem Value.flatMap_words_ofWord (kind : OperandKind) (ws : List UInt32) :
    (ws.map (Value.ofWord kind)).flatMap Value.words = ws := by
  simp [List.flatMap_map]

theorem Value.flatMap_words_zipWith {kinds : List OperandKind} {ws : List UInt32}
    (h : ws.length = kinds.length) :
    (List.zipWith Value.ofWord kinds ws).flatMap Value.words = ws := by
  induction kinds generalizing ws with
  | nil =>
    obtain rfl := List.length_eq_zero_iff.mp h
    rfl
  | cons kind kinds ih =>
    cases ws with
    | nil => rfl
    | cons w ws => simp [ih (show ws.length = kinds.length by simpa using h)]

/-- The operand is a single word without a name. -/
def OperandKind.isWord : OperandKind → Bool
  | .id | .scope | .literal => true
  | _ => false

/-- The operands fill the places of a layout. A string holds no zero character, since one would end
it, and numbers are of one word. -/
inductive Fits : List Slot → List Value → Prop
  | nil : Fits [] []
  | word {kind : OperandKind} {slots : List Slot} {values : List Value} (hk : kind.isWord = true)
      (w : UInt32) (h : Fits slots values) :
      Fits (.one kind :: slots) (.ofWord kind w :: values)
  | string {slots : List Slot} {values : List Value} {s : String} (hs : '\x00' ∉ s.toList)
      (h : Fits slots values) : Fits (.one .string :: slots) (.string s :: values)
  | enumerant {e : Enumeration} {w : UInt32} {slots : List Slot} {values : List Value}
      (hname : (e.valueName? w.toNat).isSome = true) (ws : List UInt32)
      (hparameters : ws.length = (e.parameters w.toNat).length) (h : Fits slots values) :
      Fits (.one (.enumerant e) :: slots)
        (.enumerant e w :: (List.zipWith .ofWord (e.parameters w.toNat) ws ++ values))
  | absent (kind : OperandKind) : Fits [.optional kind] []
  | present {kind : OperandKind} {slots : List Slot} {values : List Value}
      (h : Fits (.one kind :: slots) values) : Fits (.optional kind :: slots) values
  | many {kind : OperandKind} (hk : kind.isWord = true) (ws : List UInt32) :
      Fits [.many kind] (ws.map (Value.ofWord kind))
  | number {slots : List Slot} {values : List Value} (w : UInt32) (h : Fits slots values) :
      Fits (.number :: slots) (.literal w :: values)

namespace Decoded

/-- The instruction as it is written. -/
def inst (d : Decoded) : Inst :=
  ⟨d.op, d.resultType.toList ++ d.result.toList ++ d.operands.flatMap Value.words⟩

/-- The places that the result type and the result take in a layout. -/
def resultSlots (d : Decoded) : List Slot :=
  (d.resultType.map fun _ => Slot.one .resultType).toList ++
    (d.result.map fun _ => Slot.one .result).toList

/-- The instruction follows the layout of its operation. -/
def Conforms (d : Decoded) : Prop :=
  ∃ slots, d.op.layout = d.resultSlots ++ slots ∧ Fits slots d.operands

end Decoded

/-! Reading operands. The cursor stands before words of the instruction, which others follow. -/

namespace Cursor

def before (words rest : List UInt32) (offset : Nat) : Cursor :=
  ⟨words ++ rest, words.length, offset⟩

variable {rest : List UInt32} {offset : Nat}

theorem limit_before_nil : (before [] rest offset).limit = 0 := rfl

theorem limit_before_cons (w : UInt32) (ws : List UInt32) :
    (before (w :: ws) rest offset).limit ≠ 0 :=
  Nat.succ_ne_zero _

theorem next_before (w : UInt32) (ws : List UInt32) :
    (before (w :: ws) rest offset).next = .ok (w, before ws rest (offset + 4)) := by
  simp [before, next]

theorem string_before {s : String} (hs : '\x00' ∉ s.toList) (ws : List UInt32) :
    (before (nameWords s ++ ws) rest offset).string =
      .ok (s, before ws rest (offset + 4 * (nameWords s).length)) := by
  obtain ⟨⟨k, hbytes⟩, hlength⟩ := packName_bytes (utf8 s)
  have htake : (nameWords s ++ ws ++ rest).take (nameWords s ++ ws).length = nameWords s ++ ws :=
    List.take_left
  have htext := takeWhile_nameWords hs ws
  have hshort : (utf8 s).length ≠ ((nameWords s ++ ws).flatMap lowFirst).length := by
    rw [List.flatMap_append, nameWords, hbytes]
    simp only [List.length_append, List.length_cons]
    omega
  have hdrop : (nameWords s ++ ws ++ rest).drop ((utf8 s).length / 4 + 1) = ws ++ rest := by
    rw [← hlength, List.append_assoc]
    exact List.drop_left
  have hnot : ¬(nameWords s ++ ws ++ rest).length < (nameWords s ++ ws).length := by simp
  have hlimit : (nameWords s ++ ws).length - ((utf8 s).length / 4 + 1) = ws.length := by
    rw [← hlength, List.length_append]
    exact Nat.add_sub_cancel_left ..
  unfold string before
  simp only [htake, htext, hshort, hnot, if_false, fromUTF8?_utf8, hdrop, hlimit]
  rw [nameWords, hlength]

theorem parameters_before {kinds : List OperandKind} {ps : List UInt32}
    (hlength : ps.length = kinds.length) (ws : List UInt32) (offset : Nat) :
    parameters kinds (before (ps ++ ws) rest offset) =
      .ok (List.zipWith .ofWord kinds ps, before ws rest (offset + 4 * ps.length)) := by
  induction kinds generalizing ps offset with
  | nil =>
    obtain rfl := List.length_eq_zero_iff.mp hlength
    rfl
  | cons kind kinds ih =>
    cases ps with
    | nil => simp at hlength
    | cons p ps =>
      have hrest := ih (show ps.length = kinds.length by simpa using hlength) (offset + 4)
      rw [parameters, List.cons_append, next_before]
      simp only [bind, Except.bind, hrest, List.zipWith_cons_cons, List.length_cons]
      have hoffset : offset + 4 + 4 * ps.length = offset + 4 * (ps.length + 1) := by omega
      rw [hoffset]
      rfl

theorem enumerant_before {e : Enumeration} {w : UInt32}
    (hname : (e.valueName? w.toNat).isSome = true) {ps : List UInt32}
    (hlength : ps.length = (e.parameters w.toNat).length) (ws : List UInt32) :
    (before (w :: ps ++ ws) rest offset).enumerant e =
      .ok (.enumerant e w :: List.zipWith .ofWord (e.parameters w.toNat) ps,
        before ws rest (offset + 4 * (ps.length + 1))) := by
  have hoffset : offset + 4 + 4 * ps.length = offset + 4 * (ps.length + 1) := by omega
  have hsome : (e.valueName? w.toNat).isNone = false := by simpa using hname
  rw [enumerant, List.cons_append, next_before]
  simp only [bind, Except.bind, hsome, parameters_before hlength, hoffset]
  rfl

theorem operand_word {kind : OperandKind} (hk : kind.isWord = true) (i : Decoded) (w : UInt32)
    (ws : List UInt32) :
    operand i kind (before (w :: ws) rest offset) =
      .ok ({ i with operands := i.operands ++ [.ofWord kind w] }, before ws rest (offset + 4)) := by
  cases kind with
  | id | scope | literal => rw [operand, next_before]; rfl
  | _ => cases hk

theorem operand_string {s : String} (hs : '\x00' ∉ s.toList) (i : Decoded) (ws : List UInt32) :
    operand i .string (before (nameWords s ++ ws) rest offset) =
      .ok ({ i with operands := i.operands ++ [.string s] },
        before ws rest (offset + 4 * (nameWords s).length)) := by
  rw [operand, string_before hs]
  rfl

theorem operand_enumerant {e : Enumeration} {w : UInt32}
    (hname : (e.valueName? w.toNat).isSome = true) {ps : List UInt32}
    (hlength : ps.length = (e.parameters w.toNat).length) (i : Decoded) (ws : List UInt32) :
    operand i (.enumerant e) (before (w :: ps ++ ws) rest offset) =
      .ok ({ i with operands := i.operands ++
          .enumerant e w :: List.zipWith .ofWord (e.parameters w.toNat) ps },
        before ws rest (offset + 4 * (ps.length + 1))) := by
  rw [operand, enumerant_before hname hlength]
  rfl

theorem operands_before {kind : OperandKind} (hk : kind.isWord = true) {fuel : Nat} (i : Decoded)
    {ws : List UInt32} (hfuel : ws.length ≤ fuel) (offset : Nat) :
    operands kind fuel i (before ws rest offset) =
      .ok ({ i with operands := i.operands ++ ws.map (Value.ofWord kind) },
        before [] rest (offset + 4 * ws.length)) := by
  induction fuel generalizing ws i offset with
  | zero =>
    obtain rfl := List.length_eq_zero_iff.mp (Nat.le_zero.mp hfuel)
    simp [operands]
  | succ fuel ih =>
    cases ws with
    | nil => simp [operands, limit_before_nil]
    | cons w ws =>
      have hrest := ih { i with operands := i.operands ++ [.ofWord kind w] }
        (show ws.length ≤ fuel by simpa using hfuel) (offset + 4)
      have hoffset : offset + 4 + 4 * ws.length = offset + 4 * (ws.length + 1) := by omega
      rw [operands, if_neg (limit_before_cons w ws), operand_word hk]
      simp only [ofOperand, bind, Except.bind, hrest, hoffset, List.length_cons, List.map_cons,
        List.append_assoc, List.singleton_append]

end Cursor

/-! Number types. -/

/-- Every number of a known type is written in one word. -/
def NumberTypes.OneWord (types : NumberTypes) : Prop :=
  ∀ e ∈ types, e.2.wordCount? = some 1

/-- Number types that the instruction declares have 32 bits. -/
def Decoded.Narrow (d : Decoded) : Prop :=
  d.op = .typeInt ∨ d.op = .typeFloat → d.operands.head? = some (.literal 32)

namespace NumberTypes.OneWord

variable {types : NumberTypes} {d : Decoded}

theorem of_find? (h : types.OneWord) {type : NumberType} (hd : types.find? d = some type) :
    type.wordCount? = some 1 := by
  obtain ⟨id, _, hlookup⟩ := Option.bind_eq_some_iff.mp hd
  obtain ⟨before, after, hlist, _⟩ := List.lookup_eq_some_iff.mp hlookup
  exact h (id, type) (by simp [hlist])

theorem wordCount? (h : types.OneWord) (d : Decoded) : types.wordCount? d = some 1 := by
  unfold NumberTypes.wordCount?
  split
  · exact h.of_find? (by assumption)
  · rfl

theorem track (h : types.OneWord) (hd : d.Narrow) : (types.track d).OneWord := by
  have hcons : ∀ id type, NumberType.wordCount? type = some 1 →
      NumberTypes.OneWord ((id, type) :: types) :=
    fun id type htype => List.forall_mem_cons.mpr ⟨htype, h⟩
  unfold NumberTypes.track
  split
  · rename_i id width signedness hop _ hoperands
    have hwidth := hd (.inl hop)
    obtain rfl : width = 32 := by simpa [hoperands] using hwidth
    refine hcons _ _ ?_
    simp [NumberType.wordCount?]
  · rename_i id width hop _ hoperands
    have hwidth := hd (.inr hop)
    obtain rfl : width = 32 := by simpa [hoperands] using hwidth
    refine hcons _ _ ?_
    simp [NumberType.wordCount?]
  · split
    · exact hcons _ _ (h.of_find? (by assumption))
    · exact h
  · exact h

end NumberTypes.OneWord

namespace Cursor

variable {rest : List UInt32} {offset : Nat} {types : NumberTypes} {index : Nat}

/-- One operand is read from the words it takes, the other places from the words after it. -/
theorem fill_one {kind : OperandKind} {slots : List Slot} {i i' : Decoded} {ws more : List UInt32}
    {c : Cursor} {r : Decoded × Cursor} (hws : ws ≠ [])
    (hoperand : operand i kind (before (ws ++ more) rest offset) = .ok (i', c))
    (hfill : fill types index slots i' c = .ok r) :
    fill types index (.one kind :: slots) i (before (ws ++ more) rest offset) = .ok r := by
  have hlimit : (before (ws ++ more) rest offset).limit ≠ 0 := by
    simp [before, hws]
  rw [fill, if_neg hlimit, hoperand]
  exact hfill

/-- Operands that fill a layout are read back from their words. -/
theorem fill_before (htypes : types.OneWord) {slots : List Slot} {values : List Value}
    (h : Fits slots values) (i : Decoded) (offset : Nat) :
    fill types index slots i (before (values.flatMap Value.words) rest offset) =
      .ok ({ i with operands := i.operands ++ values },
        before [] rest (offset + 4 * (values.flatMap Value.words).length)) := by
  induction h generalizing i offset with
  | nil => simp [fill, before]
  | @word kind slots values hk w h ih =>
    rw [List.flatMap_cons, Value.words_ofWord]
    refine fill_one (by simp) (operand_word hk i w _) ((ih _ _).trans ?_)
    simp only [List.append_assoc, List.singleton_append, List.length_cons]
    congr 3
    omega
  | @string slots values s hs h ih =>
    have hname : nameWords s ≠ [] := by
      intro hnil
      have hlength := (packName_bytes (utf8 s)).2
      rw [← nameWords, hnil] at hlength
      simp at hlength
    rw [List.flatMap_cons]
    refine fill_one hname (operand_string hs i _) ((ih _ _).trans ?_)
    simp only [List.append_assoc, List.singleton_append, List.length_append, Value.words]
    congr 3
    omega
  | @enumerant e w slots values hname ps hlength h ih =>
    have hwords : (Value.enumerant e w :: (List.zipWith .ofWord (e.parameters w.toNat) ps ++
        values)).flatMap Value.words = w :: ps ++ values.flatMap Value.words := by
      rw [List.flatMap_cons, List.flatMap_append, Value.flatMap_words_zipWith hlength]
      rfl
    rw [hwords]
    refine fill_one (by simp) (operand_enumerant hname hlength i _) ((ih _ _).trans ?_)
    simp only [List.append_assoc, List.cons_append, List.length_append, List.length_cons]
    congr 3
    omega
  | absent kind => simp [fill, before]
  | @present kind slots values h ih =>
    have hone := ih i offset
    rw [fill] at hone
    rw [fill]
    split at hone
    · cases hone
    · rename_i hlimit
      rw [if_neg hlimit]
      exact hone
  | @many kind hk ws =>
    rw [Value.flatMap_words_ofWord, fill]
    exact operands_before hk i (Nat.le_refl _) offset
  | @number slots values w h ih =>
    have hlimit : (before (w :: values.flatMap Value.words) rest offset).limit ≠ 0 :=
      limit_before_cons w _
    have hnumber : Cursor.number 1 (before (w :: values.flatMap Value.words) rest offset) =
        .ok (.literal w, before (values.flatMap Value.words) rest (offset + 4)) := by
      rw [Cursor.number, next_before]
      rfl
    have hrest := ih { i with operands := i.operands ++ [.literal w] } (offset + 4)
    have hoffset : offset + 4 + 4 * (values.flatMap Value.words).length =
        offset + 4 * ((values.flatMap Value.words).length + 1) := by omega
    rw [List.flatMap_cons, Value.words, List.singleton_append, fill, if_neg hlimit,
      htypes.wordCount? i]
    simp only [ofOperand, bind, Except.bind, hnumber, hrest, hoffset, List.append_assoc,
      List.singleton_append, List.length_cons]

/-- The result type and the result come first in their layouts. -/
theorem fill_results (d : Decoded) (slots : List Slot) (ws : List UInt32) (offset : Nat) :
    fill types index (d.resultSlots ++ slots) { op := d.op }
        (before (d.resultType.toList ++ d.result.toList ++ ws) rest offset) =
      fill types index slots { op := d.op, resultType := d.resultType, result := d.result }
        (before ws rest (offset + 4 * (d.resultType.toList ++ d.result.toList).length)) := by
  have hnext : ∀ (w : UInt32) (ws : List UInt32) (offset : Nat),
      (before (w :: ws) rest offset).limit ≠ 0 := fun w ws offset => limit_before_cons w ws
  obtain ⟨op, resultType, result, operands⟩ := d
  cases resultType <;> cases result <;>
    simp [Decoded.resultSlots, fill, hnext, operand, next_before, bind, Except.bind, ofOperand,
      pure, Except.pure]

end Cursor

/-- Decoding undoes writing: the words of an instruction that conforms to the grammar give it
back. -/
theorem decodeInst_words {types : NumberTypes} (htypes : types.OneWord) {d : Decoded}
    (hd : d.Conforms) (hop : d.op ∈ Op.all) {w : UInt32}
    (hlength : w.toNat / 0x10000 = d.inst.length)
    (hcode : w.toNat % 0x10000 = d.op.code) (index offset : Nat) (rest : List UInt32) :
    decodeInst types index offset w (d.inst.operands ++ rest) =
      .ok (d, rest, offset + 4 * d.inst.length) := by
  obtain ⟨slots, hlayout, hvalues⟩ := hd
  have hfill : Cursor.fill types index d.op.layout { op := d.op }
      ⟨d.inst.operands ++ rest, d.inst.length - 1, offset + 4⟩ =
        .ok (d, .before [] rest (offset + 4 * d.inst.length)) := by
    change Cursor.fill _ _ _ _ (.before d.inst.operands rest (offset + 4)) = _
    rw [hlayout, Decoded.inst, Cursor.fill_results, Cursor.fill_before htypes hvalues]
    simp only [Inst.length, List.nil_append, List.length_append, Except.ok.injEq, Prod.mk.injEq,
      true_and]
    congr 1
    omega
  have hpositive : ¬d.inst.length = 0 := Nat.succ_ne_zero _
  simp only [decodeInst, hlength, hcode, hpositive, if_false, Op.ofCode?_code _ hop, hfill, bind,
    Except.bind, Cursor.limit_before_nil]
  rfl

end ShaderIR.Binary
