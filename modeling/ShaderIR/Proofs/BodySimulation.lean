import ShaderIR.Proofs.StepSimulation

/-! A whole body against its code. The variables that its definitions ask for are declared in the
order of the definitions, so that each definition finds the next one untouched. -/

namespace ShaderIR.Lowering

open Binary (Inst)

/-- How many variables a body defines. -/
def definitions (is : List Instruction) : Nat :=
  is.countP fun i => i.opcode == .define

theorem TranslatesBody.definitions_le {p : Program} {code : List Inst} {earlier : List Function}
    {c : Scope} {is : List Instruction} {out : List Inst}
    (h : TranslatesBody p code earlier c is out) (hd : c.defined ≤ c.declared.length) :
    c.defined + definitions is ≤ c.declared.length := by
  induction h with
  | fallThrough hv => simpa [definitions] using hd
  | ret ho hv => simpa [definitions, ho] using hd
  | retValue ho hr hv ht => simpa [definitions, ho] using hd
  | @define c i rest out ho hlt _ ih =>
    have hrest := ih (show c.defined + 1 ≤ c.declared.length from hlt)
    have hcount : definitions (i :: rest) = definitions rest + 1 := by simp [definitions, ho]
    simp only at hrest
    omega
  | @plain c i rest out outs hi _ ih =>
    have hcount : definitions (i :: rest) = definitions rest := by
      simp [definitions, hi.opcode_ne.1]
    rw [hcount]
    exact ih hd

theorem Locals.length_le {p : Program} {is : List Instruction} {vs : List Variable}
    (h : Locals p is vs) : vs.length ≤ definitions is := by
  induction h with
  | nil => simp [definitions]
  | define ht _ ih => simpa [definitions] using ih
  | @skip i rest vs hi _ ih =>
    have hcount : definitions rest ≤ definitions (i :: rest) := by
      simp only [definitions, List.countP_cons]
      omega
    omega

end ShaderIR.Lowering

namespace ShaderIR.Semantics

open Binary (Op Id Inst results)
open Lowering (LoweredType Variable Scope Function FunctionParts Lowers Locals TranslatesBody
  loadInst storeTo definitions)

variable {σ : Setting} {p : Program} {code all : List Inst} {path : List Nat} {c : Scope}
  {st : Store} {fr : Frame}

theorem Related.reindex (h : Related σ p code all path c st fr) (index : Nat) :
    Related σ p code all path { c with index } st fr :=
  ⟨h.count, h.enough, h.size, h.values, h.untouched, h.types, h.pointers, h.constants, h.calls⟩

/-- A definition takes the next declared variable, which nothing has written yet. -/
theorem Related.define (h : Related σ p code all path c st fr) {v : Variable} {ty : Ty}
    (hv : c.declared[c.defined]? = some v) (ht : Lowers p ty v.type) (index : Nat) :
    Related σ p code all path { c with defined := c.defined + 1, index }
      (st.define ty (σ.initial path st.cells.length)) fr := by
  have hlt : c.defined < c.declared.length := (List.getElem?_eq_some_iff.mp hv).1
  have hcount := h.count
  -- A cell of the new store is an old one or the new one.
  have hcells : ∀ (k : Nat) (x : Ty × Value),
      (st.define ty (σ.initial path st.cells.length)).cells[k]? = some x →
        st.cells[k]? = some x ∨ k = c.defined ∧ x = (ty, σ.initial path c.defined) := by
    intro k x hx
    by_cases hk : k < st.cells.length
    · left
      simpa [Store.define, List.getElem?_append_left hk] using hx
    · right
      have hk' : k = st.cells.length := by
        have hlength := (List.getElem?_eq_some_iff.mp hx).1
        simp only [Store.define, List.length_append, List.length_singleton] at hlength
        omega
      subst hk'
      have he : (ty, σ.initial path st.cells.length) = x := by simpa [Store.define] using hx
      exact ⟨hcount, by rw [← he, hcount]⟩
  constructor
  · simp [Store.define, hcount]
  · exact hlt
  · exact h.size
  · intro k x hx
    rcases hcells k x hx with hx | ⟨rfl, rfl⟩
    · exact h.values k x hx
    · exact h.untouched c.defined (Nat.le_refl _) hlt
  · intro k hk hk'
    exact h.untouched k (Nat.le_of_succ_le hk) hk'
  · intro k x w hx hw
    rcases hcells k x hx with hx | ⟨rfl, rfl⟩
    · exact h.types k x w hx hw
    · have he : v = w := Option.some.inj (hv.symm.trans hw)
      exact he ▸ ht
  · exact h.pointers
  · exact h.constants
  · exact h.calls

theorem runBody_step {callMethod : Caller Method} {i : Instruction} {rest : List Instruction}
    (hr : i.opcode ≠ .ret) (hv : i.opcode ≠ .retValue) :
    runBody σ p path callMethod (i :: rest) st =
      bodyStep σ p path callMethod i st >>= runBody σ p path callMethod rest := by
  rw [runBody]
  split
  · exact absurd ‹_› hr
  · exact absurd ‹_› hv
  · rfl

/-- The next variable to define is the one that the next definition asks for. -/
theorem define_of_locals {earlier : List Function} {i : Instruction} {rest : List Instruction}
    {out : List Inst} {index : Nat} (hd : c.defined < c.declared.length)
    (hr : TranslatesBody p code earlier { c with defined := c.defined + 1, index } rest out)
    (hl : Locals p (i :: rest) (c.declared.drop c.defined)) :
    ∃ ty v, i = .define ty ∧ c.declared[c.defined]? = some v ∧ Lowers p ty v.type ∧
      Locals p rest (c.declared.drop (c.defined + 1)) := by
  generalize hvs : c.declared.drop c.defined = vs at hl
  cases hl with
  | @define ty v _ vs' ht hrest =>
    have hdrop := List.drop_eq_getElem_cons hd
    rw [hvs] at hdrop
    obtain ⟨rfl, rfl⟩ := List.cons.inj hdrop
    exact ⟨ty, _, rfl, List.getElem?_eq_getElem hd, ht, hrest⟩
  | skip hi hrest =>
    -- Then some later definition would be left without a variable.
    have hmore := hr.definitions_le (show c.defined + 1 ≤ c.declared.length from hd)
    have hless := hrest.length_le
    rw [← hvs, List.length_drop] at hless
    simp only at hmore
    omega

theorem locals_of_ne {i : Instruction} {rest : List Instruction} {vs : List Variable}
    (hi : i.opcode ≠ .define) (h : Locals p (i :: rest) vs) : Locals p rest vs := by
  cases h with
  | define ht hr => exact absurd rfl hi
  | skip _ hr => exact hr

/-- The code of a body computes what the body computes. -/
theorem runCode_eq_runBody {earlier : List Function} {is : List Instruction} {out : List Inst}
    {call : Caller UInt32} {callMethod : Caller Method}
    (hb : TranslatesBody p code earlier c is out) (h : Related σ p code all path c st fr)
    (hl : Locals p is (c.declared.drop c.defined)) (hnd : (results all).Nodup)
    (hsub : code ⊆ all) (hout : (results out).Nodup)
    (hapart : ∀ x ∈ results out, Apart code c x) (hagrees : Agrees earlier call callMethod)
    (hlocates : ∀ f ∈ earlier, p.Locates f.method) :
    runCode σ all path call out fr = runBody σ p path callMethod is st := by
  induction hb generalizing st fr with
  | fallThrough hv => rfl
  | @ret c i ho hv => simp [runCode, runBody, ho]
  | @retValue c i v value ho hr hv ht =>
    obtain ⟨a, hread, _, hload⟩ := h.load hr
    rw [hload]
    simp only [runCode, runBody, ho, hread, Inst.ofIds, List.map_cons, List.cons_append,
      List.head?_cons, Option.bind_some, Frame.value?_bind_self]
    rfl
  | @define c i rest out ho hd hr ih =>
    obtain ⟨ty, v, rfl, hv, ht, hrest⟩ := define_of_locals hd hr hl
    have hstep : bodyStep σ p path callMethod (.define ty) st =
        .ok (st.define ty (σ.initial path st.cells.length)) := rfl
    rw [runBody_step (by simp) (by simp), hstep]
    exact ih (h.define hv ht _) hrest hout hapart
  | @plain c i rest out outs hi hr ih =>
    obtain ⟨hdefine, hret, hvalue⟩ := hi.opcode_ne
    rw [Binary.results_append] at hout hapart
    have hfollows : Follows (bodyStep σ p path callMethod i st)
        (runCode σ all path call (out ++ outs) fr) (runCode σ all path call outs)
        (Related σ p code all path c) :=
      follows_translates hi h hnd hsub (List.nodup_append.mp hout).1
        (fun x hx => hapart x (List.mem_append_left _ hx)) hagrees hlocates
    rw [runBody_step hret hvalue]
    cases hstep : bodyStep σ p path callMethod i st with
    | error e =>
      rw [hstep] at hfollows
      exact hfollows
    | ok st' =>
      rw [hstep] at hfollows
      obtain ⟨fr', hrun, hrel⟩ := hfollows
      rw [hrun]
      exact ih (hrel.reindex _) (locals_of_ne hdefine hl) (List.nodup_append.mp hout).2.1
        (fun x hx => hapart x (List.mem_append_right _ hx))

end ShaderIR.Semantics
