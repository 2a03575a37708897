import Mathlib.Data.List.Forall2
import ShaderIR.Proofs.SessionInvariant

/-! Renaming of ids. The operand layout of an instruction says which of its words are ids; a
renaming changes those and nothing else. Instructions, types and functions that refer to ids match
along a relation of ids if they are the same but for related ids. -/

namespace ShaderIR

namespace Binary

def OperandKind.isId : OperandKind → Bool
  | .resultType | .result | .id | .scope => true
  | _ => false

/-- The word at a position of a layout is an id. A name reaches to the end of its instruction. -/
def idAt : List Slot → Nat → Bool
  | [], _ => false
  | .one .string :: _, _ => false
  | .one kind :: _, 0 => kind.isId
  | .one _ :: slots, k + 1 => idAt slots k
  | .optional kind :: _, 0 => kind.isId
  | .optional _ :: slots, k + 1 => idAt slots k
  | .many kind :: _, _ => kind.isId
  | .number :: _, _ => false

/-- The instruction with its ids renamed. -/
def Inst.rename (ρ : UInt32 → UInt32) (i : Inst) : Inst :=
  ⟨i.op, i.operands.mapIdx fun k w => if idAt i.op.layout k then ρ w else w⟩

/-- Words are the same, or related if they are ids. -/
def SameWord (r : UInt32 → UInt32 → Prop) (isId : Bool) (x y : UInt32) : Prop :=
  bif isId then r x y else x = y

/-- Lists of words are the same but for the ids among them, which are related. -/
def SameWords (r : UInt32 → UInt32 → Prop) (isId : Nat → Bool) :
    List UInt32 → List UInt32 → Prop
  | [], [] => True
  | x :: xs, y :: ys => SameWord r (isId 0) x y ∧ SameWords r (fun k => isId (k + 1)) xs ys
  | _, _ => False

variable {r r' : UInt32 → UInt32 → Prop} {isId : Nat → Bool} {xs ys ys' : List UInt32}

theorem SameWord.of_id {isId : Bool} (hid : isId = true) {x y : UInt32} (h : r x y) :
    SameWord r isId x y := by
  rw [hid]
  exact h

theorem SameWord.mono (hr : ∀ x y, r x y → r' x y) {isId : Bool} {x y : UInt32}
    (h : SameWord r isId x y) : SameWord r' isId x y := by
  cases isId with
  | true => exact hr x y h
  | false => exact h

theorem SameWord.flip {isId : Bool} {x y : UInt32} (h : SameWord r isId x y) :
    SameWord (flip r) isId y x := by
  cases isId with
  | true => exact h
  | false => exact Eq.symm h

theorem SameWord.right_unique (hr : ∀ x y y', r x y → r x y' → y = y') {isId : Bool}
    {x y y' : UInt32} (h : SameWord r isId x y) (h' : SameWord r isId x y') : y = y' := by
  cases isId with
  | true => exact hr x y y' h h'
  | false => exact (Eq.symm h).trans h'

theorem SameWord.rename_eq {ρ : UInt32 → UInt32} (hr : ∀ x y, r x y → ρ x = y) {isId : Bool}
    {x y : UInt32} (h : SameWord r isId x y) : (if isId then ρ x else x) = y := by
  cases isId with
  | true => exact hr x y h
  | false => exact h

theorem SameWords.mono (hr : ∀ x y, r x y → r' x y) (h : SameWords r isId xs ys) :
    SameWords r' isId xs ys := by
  fun_induction SameWords r isId xs ys with
  | case1 => trivial
  | case2 isId x xs y ys ih => exact ⟨h.1.mono hr, ih h.2⟩
  | case3 => exact h.elim

theorem SameWords.mapIdx_eq {ρ : UInt32 → UInt32} (hr : ∀ x y, r x y → ρ x = y)
    (h : SameWords r isId xs ys) : (xs.mapIdx fun k w => if isId k then ρ w else w) = ys := by
  fun_induction SameWords r isId xs ys with
  | case1 => rfl
  | case2 isId x xs y ys ih => rw [List.mapIdx_cons, h.1.rename_eq hr, ih h.2]
  | case3 => exact h.elim

theorem SameWords.flip (h : SameWords r isId xs ys) : SameWords (flip r) isId ys xs := by
  fun_induction SameWords r isId xs ys with
  | case1 => trivial
  | case2 isId x xs y ys ih => exact ⟨h.1.flip, ih h.2⟩
  | case3 => exact h.elim

theorem SameWords.right_unique (hr : ∀ x y y', r x y → r x y' → y = y')
    (h : SameWords r isId xs ys) (h' : SameWords r isId xs ys') : ys = ys' := by
  fun_induction SameWords r isId xs ys generalizing ys' with
  | case1 =>
    cases ys' with
    | nil => rfl
    | cons => exact h'.elim
  | case2 isId x xs y ys ih =>
    cases ys' with
    | nil => exact h'.elim
    | cons y' ys' => rw [h.1.right_unique hr h'.1, ih h.2 h'.2]
  | case3 => exact h.elim

theorem sameWords_of_forall₂ (hid : ∀ k, isId k = true) (h : List.Forall₂ r xs ys) :
    SameWords r isId xs ys := by
  induction h generalizing isId with
  | nil => trivial
  | cons hxy _ ih => exact ⟨.of_id (hid 0) hxy, ih fun k => hid (k + 1)⟩

/-- The instructions are the same but for related ids. -/
structure Inst.Matches (r : UInt32 → UInt32 → Prop) (i j : Inst) : Prop where
  op : i.op = j.op
  operands : SameWords r (idAt i.op.layout) i.operands j.operands

namespace Inst.Matches

variable {i j : Inst}

theorem mono (hr : ∀ x y, r x y → r' x y) (h : i.Matches r j) : i.Matches r' j :=
  ⟨h.op, h.operands.mono hr⟩

theorem rename_eq {ρ : UInt32 → UInt32} (hr : ∀ x y, r x y → ρ x = y) (h : i.Matches r j) :
    i.rename ρ = j := by
  obtain ⟨op, words⟩ := j
  obtain rfl : i.op = op := h.op
  rw [rename, h.operands.mapIdx_eq hr]

end Inst.Matches

end Binary

namespace Lowering

open Binary (Id Inst SameWord SameWords idAt)

variable {r r' : UInt32 → UInt32 → Prop}

/-- The declarations have the same structure but for related ids. -/
structure DeclarationKey.Matches (r : UInt32 → UInt32 → Prop) (k k' : DeclarationKey) : Prop where
  op : k.op = k'.op
  resultType : Option.Rel (fun x y => r (Id.val x) y.val) k.resultType k'.resultType
  operands : SameWords r (fun n => idAt k.op.layout (n + (k.resultType.toList.length + 1)))
    k.operands k'.operands

/-- The first words of a declaration are ids. -/
theorem idAt_of_declaration? {k : DeclarationKey} {id : Id}
    (h : declaration? (k.inst id) = some (k, id)) :
    idAt k.op.layout 0 = true ∧ (k.resultType.isSome = true → idAt k.op.layout 1 = true) := by
  unfold declaration? at h
  split at h
  · rename_i hlayout _
    have hnone : k.resultType = none := by
      have hkey := (Prod.mk.inj (Option.some.inj h)).1
      rw [← hkey]
    change k.op.layout = _ at hlayout
    simp [hlayout, hnone, idAt, Binary.OperandKind.isId]
  · rename_i hlayout _
    change k.op.layout = _ at hlayout
    simp [hlayout, idAt, Binary.OperandKind.isId]
  · cases h

namespace DeclarationKey.Matches

variable {k k' k'' : DeclarationKey}

theorem mono (hr : ∀ x y, r x y → r' x y) (h : k.Matches r k') : k.Matches r' k' := by
  obtain ⟨op, resultType, operands⟩ := k
  obtain ⟨op', resultType', operands'⟩ := k'
  obtain ⟨rfl, hresult, hoperands⟩ := h
  cases hresult with
  | some hxy => exact ⟨rfl, .some (hr _ _ hxy), hoperands.mono hr⟩
  | none => exact ⟨rfl, .none, hoperands.mono hr⟩

theorem flip (h : k.Matches r k') : k'.Matches (flip r) k := by
  obtain ⟨op, resultType, operands⟩ := k
  obtain ⟨op', resultType', operands'⟩ := k'
  obtain ⟨rfl, hresult, hoperands⟩ := h
  cases hresult with
  | some hxy => exact ⟨rfl, .some hxy, hoperands.flip⟩
  | none => exact ⟨rfl, .none, hoperands.flip⟩

theorem right_unique (hr : ∀ x y y', r x y → r x y' → y = y') (h : k.Matches r k')
    (h' : k.Matches r k'') : k' = k'' := by
  obtain ⟨op, resultType, operands⟩ := k
  obtain ⟨op', resultType', operands'⟩ := k'
  obtain ⟨op'', resultType'', operands''⟩ := k''
  obtain ⟨rfl, hresult, hoperands⟩ := h
  obtain ⟨rfl, hresult', hoperands'⟩ := h'
  obtain rfl := hoperands.right_unique hr hoperands'
  cases hresult with
  | @some x y hxy =>
    cases hresult' with
    | @some _ y' hxy' =>
      obtain rfl : y = y' := congrArg Id.mk (hr _ _ _ hxy hxy')
      rfl
  | none =>
    cases hresult' with
    | none => rfl

/-- Declarations that define related ids match. -/
theorem inst (h : k.Matches r k') {x y : Id} (hxy : r x.val y.val)
    (hd : declaration? (k'.inst y) = some (k', y)) : (k.inst x).Matches r (k'.inst y) := by
  have hids := idAt_of_declaration? hd
  obtain ⟨op, resultType, operands⟩ := k
  obtain ⟨op', resultType', operands'⟩ := k'
  obtain ⟨rfl, hresult, hoperands⟩ := h
  cases hresult with
  | some hab => exact ⟨rfl, .of_id hids.1 hab, .of_id (hids.2 rfl) hxy, hoperands⟩
  | none => exact ⟨rfl, .of_id hids.1 hxy, hoperands⟩

end DeclarationKey.Matches

/-- The shape without its parts. -/
def Shape.outline : Shape LoweredType → Shape Unit
  | .void => .void
  | .bool => .bool
  | .int width signed => .int width signed
  | .float width => .float width
  | .vector _ count => .vector () count
  | .struct members => .struct (members.map fun _ => ())

/-- A shape without parts is its outline. -/
theorem Shape.eq_of_outline_eq {s s' : Shape LoweredType} (h : s.outline = s'.outline)
    (hparts : s'.parts = []) : s = s' := by
  cases s <;> cases s' <;> simp_all [outline, parts]

theorem arithmeticOp?_eq_of_outline_eq {s s' : Shape LoweredType} (h : s.outline = s'.outline)
    (opcode : Opcode) : arithmeticOp? opcode s = arithmeticOp? opcode s' := by
  cases hs : s' with
  | vector component count =>
    rw [hs] at h
    cases s <;> cases h
    cases opcode <;> rfl
  | struct members =>
    rw [hs] at h
    cases s with
    | struct members' => cases opcode <;> rfl
    | _ => cases h
  | _ => rw [Shape.eq_of_outline_eq h (by rw [hs]; rfl), hs]

/-- Parts of types match by their ids and their outlines. -/
structure LoweredType.MatchesPart (r : UInt32 → UInt32 → Prop) (a b : LoweredType) : Prop where
  id : r a.id.val b.id.val
  outline : a.shape.outline = b.shape.outline

theorem LoweredType.MatchesPart.mono {a b : LoweredType} (hr : ∀ x y, r x y → r' x y)
    (h : a.MatchesPart r b) : a.MatchesPart r' b :=
  ⟨hr _ _ h.id, h.outline⟩

/-- The types are declared under related ids, have the same outline and matching parts. -/
structure LoweredType.Matches (r : UInt32 → UInt32 → Prop) (a b : LoweredType) : Prop
    extends a.MatchesPart r b where
  parts : List.Forall₂ (MatchesPart r) a.shape.parts b.shape.parts

namespace LoweredType.Matches

variable {a b : LoweredType}

theorem mono (hr : ∀ x y, r x y → r' x y) (h : a.Matches r b) : a.Matches r' b :=
  ⟨h.toMatchesPart.mono hr, h.parts.imp fun _ _ hxy => hxy.mono hr⟩

theorem isVoid_eq (h : a.Matches r b) : a.isVoid = b.isVoid := by
  have ho := h.outline
  unfold isVoid
  cases ha : a.shape <;> cases hb : b.shape <;> simp_all [Shape.outline]

theorem isScalar_eq (h : a.Matches r b) : a.isScalar = b.isScalar := by
  have ho := h.outline
  unfold isScalar
  cases ha : a.shape <;> cases hb : b.shape <;> simp_all [Shape.outline]

theorem shape_eq (h : a.Matches r b) (hb : b.shape.parts = []) : a.shape = b.shape :=
  Shape.eq_of_outline_eq h.outline hb

theorem vector (h : a.Matches r b) {component : LoweredType} {count : UInt32}
    (hb : b.shape = .vector component count) :
    ∃ component', a.shape = .vector component' count ∧ component'.MatchesPart r component := by
  have ho := h.outline
  have hp := h.parts
  rw [hb] at ho hp
  cases ha : a.shape <;> simp_all [Shape.outline, Shape.parts]

theorem struct (h : a.Matches r b) {members : List LoweredType} (hb : b.shape = .struct members) :
    ∃ members', a.shape = .struct members' ∧ List.Forall₂ (MatchesPart r) members' members := by
  have ho := h.outline
  have hp := h.parts
  rw [hb] at ho hp
  cases ha : a.shape <;> simp_all [Shape.outline, Shape.parts]

theorem arithmeticOp?_eq (h : a.Matches r b) (opcode : Opcode) :
    arithmeticOp? opcode a.scalar = arithmeticOp? opcode b.scalar := by
  apply arithmeticOp?_eq_of_outline_eq
  unfold scalar
  cases hb : b.shape with
  | vector component count =>
    obtain ⟨component', ha, hc⟩ := h.vector hb
    simp [ha, hc.outline]
  | struct members =>
    obtain ⟨members', ha, hm⟩ := h.struct hb
    have ho := h.outline
    rw [ha, hb] at ho
    simpa [ha] using ho
  | _ =>
    have ha := h.shape_eq (by simp [hb, Shape.parts])
    simp [ha, hb]

end LoweredType.Matches

/-- The declarations of shapes whose parts match. -/
theorem DeclarationKey.Matches.key {s s' : Shape LoweredType} (ho : s.outline = s'.outline)
    (hp : List.Forall₂ (LoweredType.MatchesPart r) s.parts s'.parts) : s.key.Matches r s'.key := by
  cases s' with
  | vector component count =>
    cases s <;> cases ho
    cases hp with
    | cons hc _ => exact ⟨rfl, .none, hc.id, rfl, trivial⟩
  | struct members =>
    cases s with
    | struct members' =>
      have hids : List.Forall₂ r (members'.map fun m => m.id.val)
          (members.map fun m => m.id.val) := by
        rw [List.forall₂_map_left_iff, List.forall₂_map_right_iff]
        exact hp.imp fun _ _ hm => hm.id
      exact ⟨rfl, .none, Binary.sameWords_of_forall₂ (fun k => rfl) hids⟩
    | _ => cases ho
  | void | bool =>
    obtain rfl := Shape.eq_of_outline_eq ho rfl
    exact ⟨rfl, .none, trivial⟩
  | int width signed =>
    obtain rfl := Shape.eq_of_outline_eq ho rfl
    exact ⟨rfl, .none, rfl, rfl, trivial⟩
  | float width =>
    obtain rfl := Shape.eq_of_outline_eq ho rfl
    exact ⟨rfl, .none, rfl, trivial⟩

structure Variable.Matches (r : UInt32 → UInt32 → Prop) (v w : Variable) : Prop where
  type : v.type.Matches r w.type
  pointer : r v.pointer.val w.pointer.val

/-- The scopes match in what the code of an instruction depends on. -/
structure Scope.Matches (r : UInt32 → UInt32 → Prop) (c d : Scope) : Prop where
  returnType : c.returnType.Matches r d.returnType
  declared : List.Forall₂ (Variable.Matches r) c.declared d.declared
  defined : c.defined = d.defined

structure Function.Matches (r : UInt32 → UInt32 → Prop) (f g : Function) : Prop where
  id : r f.id.val g.id.val
  method : f.method = g.method
  returnType : f.returnType.Matches r g.returnType
  parameters : List.Forall₂ (LoweredType.Matches r) f.parameters g.parameters
  code : List.Forall₂ (Inst.Matches r) f.code g.code

end Lowering

end ShaderIR
