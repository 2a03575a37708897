import ShaderIR.Proofs.InstructionCoding

/-! Byte order. All words of a module are brought into one order before any of them is read, so a
module and its copy in the other order are read alike. -/

namespace ShaderIR.Binary

/-- Reverses the bytes of every word. -/
def swapBytes : List UInt8 → List UInt8
  | a :: b :: c :: d :: rest => d :: c :: b :: a :: swapBytes rest
  | rest => rest

theorem length_swapBytes (bytes : List UInt8) : (swapBytes bytes).length = bytes.length := by
  fun_induction swapBytes bytes with
  | case1 a b c d rest ih => simp [ih]
  | case2 => rfl

theorem swapWord_highFirst (a b c d : UInt8) :
    swapWord (highFirst a b c d) = highFirst d c b a := by
  have hbytes := lowFirst_packBytes d c b a
  simp only [Cursor.lowFirst, List.cons.injEq, and_true] at hbytes
  obtain ⟨hd, hc, hb, ha⟩ := hbytes
  simp only [swapWord, highFirst, ha, hb, hc, hd]

theorem swapWord_swapWord (w : UInt32) : swapWord (swapWord w) = w := by
  have hw := highFirst_wordBytes w
  rw [← hw, swapWord_highFirst, swapWord_highFirst]

theorem wordsOfBytes_swapBytes (bytes : List UInt8) :
    wordsOfBytes (swapBytes bytes) = (wordsOfBytes bytes).map swapWord := by
  fun_induction swapBytes bytes with
  | case1 a b c d rest ih =>
    rw [wordsOfBytes, wordsOfBytes, ih, List.map_cons, swapWord_highFirst]
  | case2 rest hshort =>
    have hnil : wordsOfBytes rest = [] := by
      unfold wordsOfBytes
      split
      · exact absurd rfl (hshort _ _ _ _ _)
      · rfl
    rw [hnil, List.map_nil]

theorem length_wordsOfBytes (bytes : List UInt8) :
    (wordsOfBytes bytes).length = bytes.length / 4 := by
  fun_induction wordsOfBytes bytes with
  | case1 a b c d rest ih =>
    simp only [List.length_cons, ih]
    omega
  | case2 rest hshort =>
    rcases rest with _ | ⟨a, _ | ⟨b, _ | ⟨c, _ | ⟨d, rest⟩⟩⟩⟩
    case cons.cons.cons.cons => exact absurd rfl (hshort a b c d rest)
    all_goals simp

/-- The words in the order in which they begin with the magic number. -/
def orderedWords? (words : List UInt32) : Option (List UInt32) :=
  if words.head? = some magic then some words
  else if (words.map swapWord).head? = some magic then some (words.map swapWord)
  else none

theorem orderedWords?_swap (words : List UInt32) :
    orderedWords? (words.map swapWord) = orderedWords? words := by
  have hback : (words.map swapWord).map swapWord = words := by
    simp [Function.comp_def, swapWord_swapWord]
  have hone : words.head? = some magic → (words.map swapWord).head? ≠ some magic := by
    intro h
    rw [List.head?_map, h]
    decide
  unfold orderedWords?
  rw [hback]
  by_cases h : words.head? = some magic
  · rw [if_neg (hone h), if_pos h, if_pos h]
  · rw [if_neg h, if_neg h]

section

variable {ε ι μ : Type} (lib : Library ε ι μ)

/-- Nothing but the magic number is looked at before the order is settled. -/
theorem ParsedModule.parse_eq (bytes : List UInt8) (haligned : bytes.length % 4 = 0)
    (hlong : 20 ≤ bytes.length) :
    parse lib bytes = match orderedWords? (wordsOfBytes bytes) with
      | some words => ofWords lib words
      | none => .error (.badMagic ((wordsOfBytes bytes).headD 0)) := by
  have hlength := length_wordsOfBytes bytes
  rw [parse, if_neg (by simpa using haligned), if_neg (by omega)]
  cases hwords : wordsOfBytes bytes with
  | nil =>
    rw [hwords] at hlength
    simp only [List.length_nil] at hlength
    omega
  | cons w words =>
    by_cases hw : w = magic
    · simp [orderedWords?, hw]
    · by_cases hs : swapWord w = magic <;> simp [orderedWords?, hw, hs]

theorem ParsedModule.ofWords_cases (words : List UInt32) :
    (∃ m, ofWords lib words = .ok m) ∨ ∃ cause, ofWords lib words = .error (.malformed cause) := by
  unfold ofWords
  cases lib.load words with
  | error cause => exact .inr ⟨cause, rfl⟩
  | ok loaded => exact .inl ⟨_, rfl⟩

end

theorem head?_wordsOfBytes {bytes : List UInt8} (hlong : 4 ≤ bytes.length) (w : UInt32) :
    (wordsOfBytes bytes).head? = some w ↔ wordBytes w <+: bytes := by
  rcases bytes with _ | ⟨a, _ | ⟨b, _ | ⟨c, _ | ⟨d, rest⟩⟩⟩⟩
  case cons.cons.cons.cons =>
    simp only [wordsOfBytes, List.head?_cons, Option.some.injEq, wordBytes, List.cons_prefix_cons,
      List.nil_prefix, and_true]
    constructor
    · rintro rfl
      have hbytes := lowFirst_packBytes d c b a
      simp only [Cursor.lowFirst, List.cons.injEq, and_true] at hbytes
      obtain ⟨hd, hc, hb, ha⟩ := hbytes
      exact ⟨ha, hb, hc, hd⟩
    · rintro ⟨rfl, rfl, rfl, rfl⟩
      exact highFirst_wordBytes w
  all_goals simp at hlong

theorem orderedWords?_eq_none {bytes : List UInt8} (hlong : 4 ≤ bytes.length) :
    orderedWords? (wordsOfBytes bytes) = none ↔
      ¬wordBytes magic <+: bytes ∧ ¬wordBytes magic <+: swapBytes bytes := by
  rw [← head?_wordsOfBytes hlong, ← head?_wordsOfBytes ((length_swapBytes bytes).symm ▸ hlong),
    wordsOfBytes_swapBytes, orderedWords?]
  by_cases h : (wordsOfBytes bytes).head? = some magic
  · simp [h]
  · by_cases h' : ((wordsOfBytes bytes).map swapWord).head? = some magic
    · rw [if_neg h, if_pos h']
      exact iff_of_false (by simp) fun hnone => hnone.2 h'
    · rw [if_neg h, if_neg h']
      exact iff_of_true rfl ⟨h, h'⟩

/-- Whatever library decodes the words, a module and its copy with the bytes of each word reversed
are read as the same module, and so with one header, the same instructions and one disassembly, or
are rejected with the same fault. Where neither of them begins with the magic number, each is
rejected with its own first word. -/
theorem ParsedModule.parse_swapBytes {ε ι μ : Type} (lib : Library ε ι μ) (bytes : List UInt8)
    (haligned : bytes.length % 4 = 0) (hlong : 20 ≤ bytes.length) :
    ((∃ m, parse lib bytes = .ok m ∧ parse lib (swapBytes bytes) = .ok m) ∨
      (∃ cause, parse lib bytes = .error (.malformed cause) ∧
        parse lib (swapBytes bytes) = .error (.malformed cause)) ∨
      ∃ w, parse lib bytes = .error (.badMagic w) ∧
        parse lib (swapBytes bytes) = .error (.badMagic (swapWord w)) ∧
        swapWord (swapWord w) = w) ∧
    ((∃ w, parse lib bytes = .error (.badMagic w)) ↔
      ¬wordBytes magic <+: bytes ∧ ¬wordBytes magic <+: swapBytes bytes) := by
  have hlength := length_swapBytes bytes
  have hparse := parse_eq lib bytes haligned hlong
  have hswapped := parse_eq lib (swapBytes bytes) (by omega) (by omega)
  rw [wordsOfBytes_swapBytes, orderedWords?_swap] at hswapped
  rw [← orderedWords?_eq_none (by omega)]
  cases hordered : orderedWords? (wordsOfBytes bytes) with
  | none =>
    rw [hordered] at hparse hswapped
    obtain ⟨w, words, hwords⟩ : ∃ w words, wordsOfBytes bytes = w :: words := by
      refine List.exists_cons_of_length_pos ?_
      rw [length_wordsOfBytes]
      omega
    rw [hwords] at hparse hswapped
    exact ⟨.inr (.inr ⟨w, hparse, hswapped, swapWord_swapWord w⟩), by simp [hparse]⟩
  | some words =>
    rw [hordered] at hparse hswapped
    rcases ofWords_cases lib words with ⟨m, hm⟩ | ⟨cause, hcause⟩
    · exact ⟨.inl ⟨m, hparse.trans hm, hswapped.trans hm⟩, by simp [hparse, hm]⟩
    · exact ⟨.inr (.inl ⟨cause, hparse.trans hcause, hswapped.trans hcause⟩),
        by simp [hparse, hcause]⟩

/-- A module with one instruction, in both orders, and a copy that breaks off inside it. -/
theorem ParsedModule.parse_swapBytes_void :
    let header : List UInt8 := [7, 35, 2, 3, 0, 1, 2, 0, 0, 8, 0, 0, 0, 0, 0, 2, 0, 0, 0, 0]
    let bytes : List UInt8 := header ++ [0, 2, 0, 19, 0, 0, 0, 1]
    let torn : List UInt8 := header ++ [0, 2, 0, 19]
    (∃ m, parse .standard bytes = .ok m ∧ parse .standard (swapBytes bytes) = .ok m ∧
      m.header = ⟨0x10200, 0x80000, 2, 0⟩ ∧ (m.instructions .standard).map Decoded.op = [.typeVoid]) ∧
    ∃ cause, parse .standard torn = .error (.malformed cause) ∧
      parse .standard (swapBytes torn) = .error (.malformed cause) := by
  intro header bytes torn
  constructor
  · have hread : (parse .standard bytes).map
        (fun m => (m.header, (m.instructions .standard).map Decoded.op)) =
        .ok (⟨0x10200, 0x80000, 2, 0⟩, [.typeVoid]) := by decide +kernel
    rcases (parse_swapBytes .standard bytes (by decide) (by decide)).1 with
      ⟨m, hparse, hswapped⟩ | ⟨_, hparse, _⟩ | ⟨_, hparse, _⟩ <;> rw [hparse] at hread
    · obtain ⟨hheader, hops⟩ := Prod.mk.inj (Except.ok.inj hread)
      exact ⟨m, hparse, hswapped, hheader, hops⟩
    · cases hread
    · cases hread
  · have hread : (parse .standard torn).map (fun _ => ()) =
        .error (.malformed (.decoding (.operand (.endOfStream 24)))) := by decide +kernel
    rcases (parse_swapBytes .standard torn (by decide) (by decide)).1 with
      ⟨_, hparse, _⟩ | hboth | ⟨_, hparse, _⟩
    · rw [hparse] at hread
      cases hread
    · exact hboth
    · rw [hparse] at hread
      cases hread

end ShaderIR.Binary
