import ShaderIR.Proofs.MethodIdentity
import ShaderIR.Proofs.Semantics

/-! The code of an instruction does to the variables of a function what the instruction does to
the store. -/

namespace ShaderIR.Semantics

open Binary (Op Id Inst results definition? NumberKind)
open Lowering (LoweredType Shape Variable Scope Function Lowers Translates arithmeticOp? loadInst
  storeTo accessInst pointerInst constantInst loadInsts)

/-! Kinds of numbers on both sides. -/

theorem representation?_eq {p : Program} {ty : Ty} {i : TypeInstance} {name : String}
    (hc : p.construct ty = .ok i) (hr : i.representation? = some (some name)) :
    representation? p ty =
      (Lowering.Representation.parse? name).map fun r => (r, i.substitution) := by
  simp [representation?, hc, hr]

theorem representedKind?_eq {r : Lowering.Representation} {shape : Shape LoweredType}
    (h : r.scalarShape? = some shape) : representedKind? r = shape.kind? := by
  cases r <;> simp_all [Lowering.Representation.scalarShape?] <;> subst h <;> rfl

theorem scalar_of_scalarShape? {r : Lowering.Representation} {t : LoweredType}
    (h : r.scalarShape? = some t.shape) : t.scalar = t.shape := by
  unfold LoweredType.scalar
  cases r <;> simp_all [Lowering.Representation.scalarShape?] <;> rw [← h]

theorem numberKind?_of_lowers {p : Program} {ty : Ty} {t : LoweredType} (h : Lowers p ty t) :
    numberKind? p ty = t.scalar.kind? := by
  cases h with
  | @scalar _ i name r _ hc hr hp hs =>
    rw [numberKind?, representation?_eq hc hr, hp, scalar_of_scalarShape? hs]
    have hk := representedKind?_eq hs
    cases r with
    | vector _ _ => cases hs
    | _ => exact hk
  | @vector _ argument i name placeholder count _ component hc hr hp ha hl hs ht =>
    have hscalar : t.scalar = component.shape := by simp [LoweredType.scalar, ht]
    rw [numberKind?, representation?_eq hc hr, hp, hscalar]
    cases hl with
    | @scalar _ i' name' r' _ hc' hr' hp' hs' =>
      simp [ha, representation?_eq hc' hr', hp', representedKind?_eq hs']
    | vector _ _ _ _ _ _ ht' => simp [LoweredType.isScalar, ht'] at hs
    | struct _ _ ht' => simp [LoweredType.isScalar, ht'] at hs
  | struct hc hr ht =>
    simp [numberKind?, representation?, hc, hr, LoweredType.scalar, ht, Shape.kind?]

/-- The operation chosen for an opcode computes what the opcode means. -/
theorem ofOp_eq_ofOpcode (a : Arithmetic) {opcode : Opcode} {shape : Shape LoweredType} {op : Op}
    {kind : NumberKind} (hop : arithmeticOp? opcode shape = some op)
    (hk : shape.kind? = some kind) (values : List Value) :
    a.ofOp op values = a.ofOpcode opcode kind values := by
  have hvalues : (∃ x, values = [x]) ∨ (∃ x y, values = [x, y]) ∨
      values = [] ∨ ∃ x y z rest, values = x :: y :: z :: rest := by
    rcases values with _ | ⟨x, _ | ⟨y, _ | ⟨z, rest⟩⟩⟩ <;> simp
  cases shape with
  | float width =>
    cases hk
    cases opcode <;> cases hop <;>
      rcases hvalues with ⟨x, rfl⟩ | ⟨x, y, rfl⟩ | rfl | ⟨x, y, z, rest, rfl⟩ <;> rfl
  | int width signed =>
    cases signed <;> cases hk <;> cases opcode <;> cases hop <;>
      rcases hvalues with ⟨x, rfl⟩ | ⟨x, y, rfl⟩ | rfl | ⟨x, y, z, rest, rfl⟩ <;> rfl
  | _ => cases hk

/-! What ids stand for after a binding. -/

namespace Frame

variable {fr : Frame} {code : List Inst} {x y : UInt32} {d : Datum} {v : Value}

@[simp] theorem memory_bind : (fr.bind x d).memory = fr.memory := rfl

@[simp] theorem calls_bind : (fr.bind x d).calls = fr.calls := rfl

@[simp] theorem arguments_bind : (fr.bind x d).arguments = fr.arguments := rfl

@[simp] theorem datum?_bind_self : (fr.bind x d).datum? code x = some d := by
  simp [datum?, bind]

theorem datum?_bind_ne (h : x ≠ y) : (fr.bind y d).datum? code x = fr.datum? code x := by
  have hb : (x == y) = false := by simpa using h
  simp [datum?, bind, List.lookup_cons, hb]

@[simp] theorem value?_bind_self : (fr.bind x (.value v)).value? code x = some v := by
  simp [value?]

theorem value?_bind_ne (h : x ≠ y) : (fr.bind y d).value? code x = fr.value? code x := by
  simp [value?, datum?_bind_ne h]

end Frame

@[simp] theorem at?_singleton (v : Value) (k : Nat) : v.at? [k] = v.part? k := by
  simp [Value.at?]

@[simp] theorem setAt?_singleton (v : Value) (k : Nat) (new : Value) :
    v.setAt? [k] new = v.setPart? k new := by
  cases v with
  | composite parts =>
    by_cases hk : k < parts.length <;> simp [Value.setAt?, Value.part?, Value.setPart?, hk]
  | _ => rfl

/-! One instruction of a module at a time. -/

section Steps

variable {σ : Setting} {code : List Inst} {path : List Nat} {call : Caller UInt32}
  {rest : List Inst} {fr : Frame}

theorem runCode_load (t : LoweredType) (x pointer : Id) :
    runCode σ code path call (loadInst t x pointer :: rest) fr =
      defined ((fr.load? code pointer.val).map fun v => fr.bind x.val (.value v)) >>=
        runCode σ code path call rest := rfl

theorem runCode_store (pointer x : Id) :
    runCode σ code path call (storeTo pointer x :: rest) fr =
      defined ((fr.value? code x.val).bind fun v => fr.store? code pointer.val v) >>=
        runCode σ code path call rest := rfl

theorem runCode_access (t x base index : Id) :
    runCode σ code path call (accessInst t x base index :: rest) fr =
      defined ((fr.access? code base.val index.val).map fun d => fr.bind x.val d) >>=
        runCode σ code path call rest := rfl

theorem runCode_call (t x callee : Id) (arguments : List UInt32) :
    runCode σ code path call (.ofIds .functionCall [t, x, callee] arguments :: rest) fr =
      functionCallStep code path call (.ofIds .functionCall [t, x, callee] arguments) fr >>=
        runCode σ code path call rest := rfl

theorem runCode_arithmetic {opcode : Opcode} {shape : Shape LoweredType} {op : Op}
    (hop : arithmeticOp? opcode shape = some op) (t x : Id) (operands : List Id) :
    runCode σ code path call (.ofIds op (t :: x :: operands) [] :: rest) fr =
      defined (((operands.map Id.val).mapM (fr.value? code)).bind fun values =>
        (σ.arithmetic.ofOp op values).map fun v => fr.bind x.val (.value v)) >>=
          runCode σ code path call rest := by
  have hstep : arithmeticStep? σ code (.ofIds op (t :: x :: operands) []) fr =
      ((operands.map Id.val).mapM (fr.value? code)).bind fun values =>
        (σ.arithmetic.ofOp op values).map fun v => fr.bind x.val (.value v) := by
    simp [arithmeticStep?, Inst.ofIds, Option.map_eq_bind]
  rw [← hstep]
  unfold arithmeticOp? at hop
  split at hop <;> cases hop <;> rfl

end Steps

/-! Store and frame. -/

/-- The frame of a function holds the store of its body: each variable stands in a cell that its
pointer points to, and cells of variables not defined yet have their initial contents. -/
structure Related (σ : Setting) (p : Program) (code all : List Inst) (path : List Nat) (c : Scope)
    (st : Store) (fr : Frame) : Prop where
  count : st.cells.length = c.defined
  enough : c.defined ≤ c.declared.length
  size : fr.memory.length = c.declared.length
  values : ∀ (k : Nat) (x : Ty × Value), st.cells[k]? = some x → fr.memory[k]? = some x.2
  untouched : ∀ k : Nat, c.defined ≤ k → k < c.declared.length →
    fr.memory[k]? = some (σ.initial path k)
  types : ∀ (k : Nat) (x : Ty × Value) (v : Variable), st.cells[k]? = some x →
    c.declared[k]? = some v → Lowers p x.1 v.type
  pointers : ∀ (k : Nat) (v : Variable), c.declared[k]? = some v →
    fr.datum? all v.pointer.val = some (.pointer k [])
  constants : ∀ x ∈ results code, fr.names.lookup x = none
  calls : fr.calls = st.calls

/-- The id can be bound without hiding a declaration or a variable. -/
def Apart (code : List Inst) (c : Scope) (x : UInt32) : Prop :=
  x ∉ results code ∧ ∀ v ∈ c.declared, v.pointer.val ≠ x

/-- The rest of a run follows a step: it fails as the step does, or goes on from a frame that is
related to the store after it. -/
def Follows (step : Result Store) (run : Result (Option Value))
    (next : Frame → Result (Option Value)) (rel : Store → Frame → Prop) : Prop :=
  match step with
  | .error e => run = .error e
  | .ok st => ∃ fr, run = next fr ∧ rel st fr

section Relation

variable {σ : Setting} {p : Program} {code all : List Inst} {path : List Nat} {c : Scope}
  {st : Store} {fr : Frame} {i : Instruction} {slot : Nat} {v : Variable}

namespace Related

theorem bind (h : Related σ p code all path c st fr) {x : UInt32} (hx : Apart code c x)
    (d : Datum) : Related σ p code all path c st (fr.bind x d) where
  count := h.count
  enough := h.enough
  size := h.size
  values := h.values
  untouched := h.untouched
  types := h.types
  pointers := by
    intro k v hv
    rw [Frame.datum?_bind_ne (hx.2 v (List.mem_of_getElem? hv))]
    exact h.pointers k v hv
  constants := by
    intro y hy
    have hne : y ≠ x := fun he => hx.1 (he ▸ hy)
    have hb : (y == x) = false := by simpa using hne
    simpa [Frame.bind, List.lookup_cons, hb] using h.constants y hy
  calls := h.calls

theorem called (h : Related σ p code all path c st fr) :
    Related σ p code all path c st.called fr.called where
  count := h.count
  enough := h.enough
  size := h.size
  values := h.values
  untouched := h.untouched
  types := h.types
  pointers := h.pointers
  constants := h.constants
  calls := congrArg (· + 1) h.calls

theorem cell (h : Related σ p code all path c st fr) (hv : c.Reads i slot v) :
    ∃ n x, operand? i slot = some (.variable n) ∧ st.cells[n.toNat]? = some x ∧
      c.declared[n.toNat]? = some v := by
  obtain ⟨n, hn, htake⟩ := hv
  obtain ⟨hlt, _⟩ := List.getElem?_eq_some_iff.mp htake
  rw [List.length_take, Nat.min_eq_left h.enough] at hlt
  rw [List.getElem?_take_of_lt hlt] at htake
  have hcell : n.toNat < st.cells.length := by
    rw [h.count]
    exact hlt
  exact ⟨n, st.cells[n.toNat], hn, List.getElem?_eq_getElem hcell, htake⟩

theorem read (h : Related σ p code all path c st fr) (hv : c.Reads i slot v) :
    ∃ x, st.read? (operand? i slot) = some x ∧ fr.load? all v.pointer.val = some x.2 ∧
      Lowers p x.1 v.type := by
  obtain ⟨n, x, hn, hx, hd⟩ := h.cell hv
  refine ⟨x, by rw [hn]; exact hx, ?_, h.types _ x v hx hd⟩
  simp [Frame.load?, h.pointers _ v hd, h.values _ x hx, Value.at?]

theorem write (h : Related σ p code all path c st fr) {n : Nat} {x : Ty × Value}
    (hx : st.cells[n]? = some x) (new : Value) :
    Related σ p code all path c { st with cells := st.cells.set n (x.1, new) }
      { fr with memory := fr.memory.set n new } := by
  have hlt : n < st.cells.length := (List.getElem?_eq_some_iff.mp hx).1
  have hdefined := h.count
  have hmem : n < fr.memory.length := by
    have henough := h.enough
    have hsize := h.size
    omega
  constructor
  · simpa using h.count
  · exact h.enough
  · simpa using h.size
  · intro k y hy
    by_cases hk : n = k
    · subst hk
      have hy' : (x.1, new) = y := by simpa [List.getElem?_set_self hlt] using hy
      simp [List.getElem?_set_self hmem, ← hy']
    · rw [List.getElem?_set_ne hk] at hy ⊢
      exact h.values k y hy
  · intro k hk hk'
    have hne : n ≠ k := by omega
    simpa [List.getElem?_set_ne hne] using h.untouched k hk hk'
  · intro k y w hy hw
    by_cases hk : n = k
    · subst hk
      have hy' : (x.1, new) = y := by simpa [List.getElem?_set_self hlt] using hy
      rw [← hy']
      exact h.types _ x w hx hw
    · rw [List.getElem?_set_ne hk] at hy
      exact h.types k y w hy hw
  · exact h.pointers
  · exact h.constants
  · exact h.calls

/-- A constant is known by its id, which a function does not bind. -/
theorem constant (h : Related σ p code all path c st fr) (hnd : (results all).Nodup)
    (hsub : code ⊆ all) {type constant : Id} {bits : UInt32}
    (hk : constantInst type constant bits ∈ code) :
    fr.value? all constant.val = some (.word bits) := by
  have hnone := h.constants constant.val (Binary.result_mem hk rfl)
  have hdef : definition? all constant.val = some (constantInst type constant bits) :=
    Binary.definition?_eq hnd (hsub hk) rfl
  simp [Frame.value?, Frame.datum?, hnone, constant?, hdef, constantInst]

variable {call : Caller UInt32} {rest : List Inst} {x y z : Id} {new : Value}

theorem store (h : Related σ p code all path c st fr) (hv : c.Reads i slot v)
    (hx : fr.value? all x.val = some new) :
    Follows (defined (st.write? (operand? i slot) new))
      (runCode σ all path call (storeTo v.pointer x :: rest) fr)
      (runCode σ all path call rest) (Related σ p code all path c) := by
  obtain ⟨n, old, hn, hold, hd⟩ := h.cell hv
  have hwrite : st.write? (operand? i slot) new =
      some { st with cells := st.cells.set n.toNat (old.1, new) } := by
    rw [hn]
    simp [Store.write?, hold]
  have hstore : fr.store? all v.pointer.val new =
      some { fr with memory := fr.memory.set n.toNat new } := by
    simp [Frame.store?, h.pointers _ v hd, h.values _ old hold, Value.setAt?]
  rw [hwrite, runCode_store, hx, Option.bind_some, hstore]
  exact ⟨_, rfl, h.write hold new⟩

/-- A store through a pointer to a part of a variable replaces that part. -/
theorem storePart (h : Related σ p code all path c st fr) (hv : c.Reads i slot v) {n k : Nat}
    (hn : fr.datum? all v.pointer.val = some (.pointer n []))
    (hy : fr.datum? all y.val = some (.pointer n [k])) (hx : fr.value? all x.val = some new) :
    Follows
      (defined ((st.read? (operand? i slot)).bind fun old =>
        (old.2.setPart? k new).bind fun w => st.write? (operand? i slot) w))
      (runCode σ all path call (storeTo y x :: rest) fr)
      (runCode σ all path call rest) (Related σ p code all path c) := by
  obtain ⟨m, old, hm, hold, hd⟩ := h.cell hv
  have hnm : n = m.toNat := by
    have hp := h.pointers _ v hd
    rw [hn] at hp
    cases hp
    rfl
  subst hnm
  have hread : st.read? (operand? i slot) = some old := by
    rw [hm]
    exact hold
  have hstore : fr.store? all y.val new = (old.2.setPart? k new).map fun w =>
      { fr with memory := fr.memory.set m.toNat w } := by
    simp [Frame.store?, hy, h.values _ old hold]
  rw [hread, Option.bind_some, runCode_store, hx, Option.bind_some, hstore]
  cases hpart : old.2.setPart? k new with
  | none => rfl
  | some w =>
    have hwrite : st.write? (operand? i slot) w =
        some { st with cells := st.cells.set m.toNat (old.1, w) } := by
      rw [hm]
      simp [Store.write?, hold]
    rw [Option.bind_some, hwrite]
    exact ⟨_, rfl, h.write hold w⟩

theorem load (h : Related σ p code all path c st fr) (hv : c.Reads i slot v) :
    ∃ a, st.read? (operand? i slot) = some a ∧ Lowers p a.1 v.type ∧
      runCode σ all path call (loadInst v.type x v.pointer :: rest) fr =
        runCode σ all path call rest (fr.bind x.val (.value a.2)) := by
  obtain ⟨a, hread, hload, ht⟩ := h.read hv
  refine ⟨a, hread, ht, ?_⟩
  rw [runCode_load, hload]
  rfl

/-- An access selects a part of a variable, if its index is a position. -/
theorem access (h : Related σ p code all path c st fr) (hv : c.Reads i slot v) {index : Value}
    (hy : fr.value? all y.val = some index) (t : Id) :
    ∃ n a, st.read? (operand? i slot) = some a ∧
      fr.datum? all v.pointer.val = some (.pointer n []) ∧ fr.memory[n]? = some a.2 ∧
      runCode σ all path call (accessInst t x v.pointer y :: rest) fr =
        Semantics.defined (position? index) >>= fun k =>
          runCode σ all path call rest (fr.bind x.val (.pointer n [k])) := by
  obtain ⟨n, a, hn, ha, hd⟩ := h.cell hv
  refine ⟨n.toNat, a, by rw [hn]; exact ha, h.pointers _ v hd, h.values _ a ha, ?_⟩
  rw [runCode_access, Frame.access?, h.pointers _ v hd, hy]
  cases hk : position? index with
  | none => simp [hk]
  | some k => simp [hk]

theorem loadPart {n k : Nat} {a : Value} (hy : fr.datum? all y.val = some (.pointer n [k]))
    (ha : fr.memory[n]? = some a) (t : LoweredType) :
    runCode σ all path call (loadInst t x y :: rest) fr =
      Semantics.defined (a.part? k) >>= fun w =>
        runCode σ all path call rest (fr.bind x.val (.value w)) := by
  rw [runCode_load, Frame.load?, hy]
  cases hpart : a.part? k with
  | none => simp [ha, hpart]
  | some w => simp [ha, hpart]

end Related

end Relation

end ShaderIR.Semantics
