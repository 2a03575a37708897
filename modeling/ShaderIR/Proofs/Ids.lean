import Mathlib.Data.List.Nodup
import ShaderIR.Binary.Grammar
import ShaderIR.Binary.Stream

/-! The ids of instructions: the one an instruction defines and those it refers to, read off the
operand layout of its operation. A list of instructions is closed over known ids if each refers
only to these and to results that stand before it. -/

namespace ShaderIR.Binary

/-- The id that an instruction defines. -/
def Inst.result? (i : Inst) : Option UInt32 :=
  match i.op.layout with
  | .one .result :: _ => i.operands[0]?
  | .one .resultType :: .one .result :: _ => i.operands[1]?
  | _ => none

/-- The words of a layout that are ids, the result not counted. A name reaches to the end of its
instruction. -/
def idsOfLayout : List Slot → List UInt32 → List UInt32
  | .one .resultType :: slots, w :: ws => w :: idsOfLayout slots ws
  | .one .id :: slots, w :: ws => w :: idsOfLayout slots ws
  | .optional .id :: slots, w :: ws => w :: idsOfLayout slots ws
  | .many .id :: _, ws => ws
  | .one .string :: _, _ => []
  | .one _ :: slots, _ :: ws => idsOfLayout slots ws
  | _, _ => []

/-- The ids that an instruction refers to: its result type and its operands. -/
def Inst.uses (i : Inst) : List UInt32 :=
  idsOfLayout i.op.layout i.operands

/-- The ids that a list of instructions defines, in order. -/
def results (code : List Inst) : List UInt32 :=
  code.filterMap Inst.result?

@[simp] theorem results_nil : results [] = [] := rfl

@[simp] theorem results_append (a b : List Inst) : results (a ++ b) = results a ++ results b :=
  List.filterMap_append

@[simp] theorem results_cons (i : Inst) (code : List Inst) :
    results (i :: code) = i.result?.toList ++ results code := by
  cases h : i.result? <;> simp [results, h]

theorem mem_results {x : UInt32} {code : List Inst} :
    x ∈ results code ↔ ∃ i ∈ code, i.result? = some x :=
  List.mem_filterMap

theorem result_mem {i : Inst} {x : UInt32} {code : List Inst} (hi : i ∈ code)
    (hr : i.result? = some x) : x ∈ results code :=
  mem_results.mpr ⟨i, hi, hr⟩

theorem results_subset {a b : List Inst} (h : a ⊆ b) : results a ⊆ results b := by
  intro x hx
  obtain ⟨i, hi, hr⟩ := mem_results.mp hx
  exact result_mem (h hi) hr

/-- Distinct results make an instruction the only one with its result. -/
theorem eq_of_result_eq {code : List Inst} (hnd : (results code).Nodup) {i j : Inst} {x : UInt32}
    (hi : i ∈ code) (hj : j ∈ code) (hx : i.result? = some x) (hy : j.result? = some x) :
    i = j := by
  induction code with
  | nil => simp at hi
  | cons head rest ih =>
    rw [results_cons] at hnd
    have hrest : (results rest).Nodup := (List.nodup_append.mp hnd).2.1
    have hdis : ∀ k ∈ rest, k.result? = some x → head.result? ≠ some x := by
      intro k hk hkx hhx
      have hmem : x ∈ head.result?.toList := by simp [hhx]
      exact (List.nodup_append.mp hnd).2.2 x hmem x (result_mem hk hkx) rfl
    rcases List.mem_cons.mp hi with hi' | hi' <;> rcases List.mem_cons.mp hj with hj' | hj'
    · exact hi'.trans hj'.symm
    · exact absurd (hi' ▸ hx) (hdis j hj' hy)
    · exact absurd (hj' ▸ hy) (hdis i hi' hx)
    · exact ih hrest hi' hj'

/-- The first `n` ids that are handed out. -/
def firstIds (n : Nat) : List UInt32 :=
  (List.range n).map fun k => UInt32.ofNat (k + 1)

@[simp] theorem firstIds_zero : firstIds 0 = [] := rfl

theorem firstIds_succ (n : Nat) : firstIds (n + 1) = firstIds n ++ [UInt32.ofNat (n + 1)] := by
  simp [firstIds, List.range_succ]

theorem toNat_ofNat_succ {n k : Nat} (hn : n < 0xFFFFFFFF) (hk : k < n) :
    (UInt32.ofNat (k + 1)).toNat = k + 1 := by
  rw [UInt32.toNat_ofNat_of_lt']
  change k + 1 < 0x100000000
  omega

theorem mem_firstIds {n : Nat} (hn : n < 0xFFFFFFFF) {x : UInt32} :
    x ∈ firstIds n ↔ 1 ≤ x.toNat ∧ x.toNat ≤ n := by
  constructor
  · intro hx
    obtain ⟨k, hk, rfl⟩ := List.mem_map.mp hx
    have hk := List.mem_range.mp hk
    have he := toNat_ofNat_succ hn hk
    omega
  · rintro ⟨h1, h2⟩
    refine List.mem_map.mpr ⟨x.toNat - 1, List.mem_range.mpr (by omega), ?_⟩
    have he : x.toNat - 1 + 1 = x.toNat := by omega
    rw [he, UInt32.ofNat_toNat]

theorem nodup_firstIds {n : Nat} (hn : n < 0xFFFFFFFF) : (firstIds n).Nodup := by
  refine List.Nodup.map_on ?_ List.nodup_range
  intro a ha b hb he
  have hh := congrArg UInt32.toNat he
  rw [toNat_ofNat_succ hn (List.mem_range.mp ha), toNat_ofNat_succ hn (List.mem_range.mp hb)] at hh
  omega

/-- Every instruction refers only to known ids and to results that stand before it. -/
def Closed (known : List UInt32) : List Inst → Prop
  | [] => True
  | i :: rest => (∀ x ∈ i.uses, x ∈ known) ∧ Closed (known ++ i.result?.toList) rest

theorem Closed.mono {known known' : List UInt32} {code : List Inst} (h : Closed known code)
    (hsub : known ⊆ known') : Closed known' code := by
  induction code generalizing known known' with
  | nil => trivial
  | cons i rest ih =>
    refine ⟨fun x hx => hsub (h.1 x hx), ih h.2 ?_⟩
    intro x hx
    rcases List.mem_append.mp hx with hx | hx
    · exact List.mem_append_left _ (hsub hx)
    · exact List.mem_append_right _ hx

theorem closed_append {known : List UInt32} {a b : List Inst} :
    Closed known (a ++ b) ↔ Closed known a ∧ Closed (known ++ results a) b := by
  induction a generalizing known with
  | nil => simp [Closed]
  | cons i rest ih => simp [Closed, ih, and_assoc, List.append_assoc]

theorem Closed.at {known : List UInt32} {pre post : List Inst} {i : Inst}
    (h : Closed known (pre ++ i :: post)) {x : UInt32} (hx : x ∈ i.uses) :
    x ∈ known ∨ x ∈ results pre :=
  List.mem_append.mp ((closed_append.mp h).2.1 x hx)

end ShaderIR.Binary
