import Mathlib.Data.List.Forall2
import ShaderIR.Lowering.Function
import ShaderIR.Proofs.Ids

/-! Lowered types against the declarations of a module, and against the types they come from. -/

namespace ShaderIR.Lowering

open Binary (Op Id Inst results)

theorem getElem?_of_forall₂ {α β : Type} {q : α → β → Prop} {as : List α} {bs : List β}
    (h : List.Forall₂ q as bs) {k : Nat} {b : β} (hb : bs[k]? = some b) :
    ∃ a, as[k]? = some a ∧ q a b := by
  induction h generalizing k with
  | nil => simp at hb
  | @cons a b' as bs hab _ ih =>
    cases k with
    | zero =>
      obtain rfl : b' = b := by simpa using hb
      exact ⟨a, rfl, hab⟩
    | succ k => exact ih (by simpa using hb)

theorem exists_of_forall₂ {α β : Type} {r : α → β → Prop} {as : List α} {bs : List β}
    (h : List.Forall₂ r as bs) {b : β} (hb : b ∈ bs) : ∃ a ∈ as, r a b := by
  obtain ⟨k, hk⟩ := List.getElem?_of_mem hb
  obtain ⟨a, ha, hab⟩ := getElem?_of_forall₂ h hk
  exact ⟨a, List.mem_of_getElem? ha, hab⟩

/-- The structure of a declaration and the id it defines. -/
def declaration? (i : Inst) : Option (DeclarationKey × Id) :=
  match i.op.layout, i.operands with
  | .one .result :: _, id :: operands => some (⟨i.op, none, operands⟩, ⟨id⟩)
  | .one .resultType :: .one .result :: _, type :: id :: operands =>
    some (⟨i.op, some ⟨type⟩, operands⟩, ⟨id⟩)
  | _, _ => none

/-- The structure and the id of a declaration that is shared, as all are but those of structs. -/
def sharedDeclaration? (i : Inst) : Option (DeclarationKey × Id) :=
  if i.op = .typeStruct then none else declaration? i

namespace Shape

/-- The declaration of a type of the shape, but for its result id. -/
def key : Shape LoweredType → DeclarationKey
  | .void => ⟨.typeVoid, none, []⟩
  | .bool => ⟨.typeBool, none, []⟩
  | .int width signed => ⟨.typeInt, none, [width, if signed then 1 else 0]⟩
  | .float width => ⟨.typeFloat, none, [width]⟩
  | .vector component count => ⟨.typeVector, none, [component.id.val, count]⟩
  | .struct members => ⟨.typeStruct, none, members.map fun m => m.id.val⟩

/-- The types that a declaration of the shape refers to. -/
def parts : Shape LoweredType → List LoweredType
  | .vector component _ => [component]
  | .struct members => members
  | _ => []

theorem key_result (shape : Shape LoweredType) (id : Id) :
    (shape.key.inst id).result? = some id.val := by
  cases shape <;> rfl

theorem key_uses (shape : Shape LoweredType) (id : Id) :
    (shape.key.inst id).uses = shape.parts.map fun t => t.id.val := by
  cases shape <;> rfl

theorem key_declaration (shape : Shape LoweredType) (id : Id) :
    declaration? (shape.key.inst id) = some (shape.key, id) := by
  cases shape <;> rfl

end Shape

/-- The declarations of a list hold the type under its id, and the types it is made of. -/
inductive LoweredType.Declared (code : List Inst) : LoweredType → Prop
  | intro {t : LoweredType} (here : t.shape.key.inst t.id ∈ code)
      (parts : ∀ part ∈ t.shape.parts, Declared code part) : Declared code t

namespace LoweredType.Declared

theorem here {code : List Inst} {t : LoweredType} (h : t.Declared code) :
    t.shape.key.inst t.id ∈ code := by
  cases h with
  | intro here _ => exact here

theorem part {code : List Inst} {t part : LoweredType} (h : t.Declared code)
    (hp : part ∈ t.shape.parts) : part.Declared code := by
  cases h with
  | intro _ parts => exact parts part hp

theorem mono {code code' : List Inst} (hsub : code ⊆ code') {t : LoweredType}
    (h : t.Declared code) : t.Declared code' := by
  induction h with
  | intro here _ ih => exact ⟨hsub here, ih⟩

theorem id_mem {code : List Inst} {t : LoweredType} (h : t.Declared code) :
    t.id.val ∈ results code :=
  Binary.result_mem h.here (t.shape.key_result t.id)

theorem component {code : List Inst} {t component : LoweredType} {count : UInt32}
    (h : t.Declared code) (hv : t.shape = .vector component count) : component.Declared code :=
  h.part (by simp [hv, Shape.parts])

theorem member {code : List Inst} {t member : LoweredType} {members : List LoweredType}
    (h : t.Declared code) (hs : t.shape = .struct members) (hm : member ∈ members) :
    member.Declared code :=
  h.part (by simpa [hs, Shape.parts] using hm)

end LoweredType.Declared

theorem LoweredType.isVoid_of_isScalar {t : LoweredType} (h : t.isScalar = true) :
    t.isVoid = false := by
  unfold isScalar at h
  unfold isVoid
  split at h <;> simp_all

/-- The shape of a representation without parts. -/
def Representation.scalarShape? : Representation → Option (Shape LoweredType)
  | .void => some .void
  | .bool => some .bool
  | .int signed => some (.int 32 signed)
  | .float => some (.float 32)
  | .vector .. => none

/-- The words that a representation without parts is spelled with: the opcode of the declaration and
its operands. -/
def DeclarationKey.spelling (k : DeclarationKey) : List String :=
  ("Op" ++ k.op.name) :: k.operands.map fun w => toString w.toNat

namespace Representation

/-- A name asks for a shape without parts just when it spells the declaration of that shape, with
its width and its sign. -/
theorem parse?_scalar_iff {name : String} {r : Representation} {shape : Shape LoweredType}
    (hs : r.scalarShape? = some shape) :
    parse? name = some r ↔ (Text.words name.toList).map String.ofList = shape.key.spelling := by
  have hsigns : ∀ signed, (Shape.int 32 signed).key.spelling =
      ["OpTypeInt", "32", if signed then "1" else "0"] := by
    intro signed
    cases signed <;> rfl
  rw [parse?]
  constructor
  · intro h
    split at h
    case h_6 =>
      split at h
      · cases h
        cases hs
      · cases h
    all_goals cases h
    all_goals
      cases hs
      assumption
  · intro h
    cases r with
    | int signed =>
      cases hs
      rw [hsigns] at h
      cases signed <;> simp [h]
    | vector placeholder count => cases hs
    | _ =>
      cases hs
      rw [h]
      rfl

theorem placeholder?_eq_some {cs : List Char} {placeholder : String} :
    placeholder? cs = some placeholder ↔ cs = '\x7b' :: (placeholder.toList ++ ['\x7d']) := by
  unfold placeholder?
  split
  · rename_i rest
    split
    · rename_i inner hinner
      have hrest : rest = inner.reverse ++ ['\x7d'] := by
        rw [← List.reverse_reverse rest, hinner, List.reverse_cons]
      rw [hrest]
      simp [String.ext_iff]
    · rename_i hother
      refine iff_of_false (by simp) fun h => ?_
      obtain ⟨_, rfl⟩ := List.cons.inj h
      exact hother placeholder.toList.reverse (by simp)
  · rename_i hother
    refine iff_of_false (by simp) fun h => ?_
    exact hother _ h

/-- A vector is spelled with the parameter that its components have the type of, and its length. -/
theorem parse?_vector_iff {name placeholder : String} {count : UInt32} :
    parse? name = some (.vector placeholder count) ↔ ∃ component digits,
      (Text.words name.toList).map String.ofList = ["OpTypeVector", component, digits] ∧
      component.toList = '\x7b' :: (placeholder.toList ++ ['\x7d']) ∧
      vectorLength? digits.toList = some count := by
  simp only [← placeholder?_eq_some]
  rw [parse?]
  constructor
  · intro h
    split at h
    case h_6 component digits hwords =>
      split at h
      · rename_i hcount hplaceholder
        cases h
        exact ⟨component, digits, hwords, hplaceholder, hcount⟩
      · cases h
    all_goals cases h
  · rintro ⟨component, digits, hwords, hplaceholder, hcount⟩
    simp [hwords, hplaceholder, hcount]

theorem vectorLength?_bounds {cs : List Char} {count : UInt32} (h : vectorLength? cs = some count) :
    2 ≤ count.toNat ∧ count.toNat ≤ 4 := by
  simp only [vectorLength?, Option.ite_none_left_eq_some, Option.ite_none_right_eq_some,
    Bool.and_eq_true, decide_eq_true_eq] at h
  obtain ⟨_, hbounds, hcount⟩ := h
  cases hcount
  rw [UInt32.toNat_ofNat_of_lt' (by simp only [UInt32.size]; omega)]
  exact hbounds

example : parse? " OpTypeInt  32 1" = some (.int true) := by decide
example : parse? "OpTypeInt 32 0" = some (.int false) := by decide
example : parse? "OpTypeVector \x7bT\x7d +03" = some (.vector "T" 3) := by decide
example : parse? "OpTypeFloat 64" = none ∧ parse? "OpTypeVector T 3" = none ∧
    parse? "OpTypeVector \x7bT\x7d 5" = none := by decide

end Representation

/-- A lowered type has the shape that a type asks for: that of its platform representation, or a
struct of its fields. -/
inductive Lowers (p : Program) : Ty → LoweredType → Prop
  | scalar {ty : Ty} {i : TypeInstance} {name : String} {r : Representation} {t : LoweredType}
      (hc : p.construct ty = .ok i) (hr : i.representation? = some (some name))
      (hp : Representation.parse? name = some r) (hs : r.scalarShape? = some t.shape) :
      Lowers p ty t
  | vector {ty argument : Ty} {i : TypeInstance} {name placeholder : String} {count : UInt32}
      {t component : LoweredType} (hc : p.construct ty = .ok i)
      (hr : i.representation? = some (some name))
      (hp : Representation.parse? name = some (.vector placeholder count))
      (ha : i.substitution.get? placeholder = some argument) (hl : Lowers p argument component)
      (hs : component.isScalar = true) (ht : t.shape = .vector component count) : Lowers p ty t
  | struct {ty : Ty} {i : TypeInstance} {members : List LoweredType} {t : LoweredType}
      (hc : p.construct ty = .ok i) (hr : i.representation? = none)
      (ht : t.shape = .struct members) (hn : members.length = i.fields.length)
      (hm : ∀ (k : Nat) (f : Field) (m : LoweredType), i.fields[k]? = some f →
        members[k]? = some m → Lowers p f.ty m) : Lowers p ty t

/-- One layer of `Lowers`: the parts of the lowered type stand in a given relation to the types of
the parts, and no member of a struct is void. -/
inductive LoweredFrom (p : Program) (part : Ty → LoweredType → Prop) (ty : Ty) (t : LoweredType) :
    Prop
  | scalar {i : TypeInstance} {name : String} {r : Representation} (hc : p.construct ty = .ok i)
      (hr : i.representation? = some (some name)) (hp : Representation.parse? name = some r)
      (hs : r.scalarShape? = some t.shape) : LoweredFrom p part ty t
  | vector {argument : Ty} {i : TypeInstance} {name placeholder : String} {count : UInt32}
      {component : LoweredType} (hc : p.construct ty = .ok i)
      (hr : i.representation? = some (some name))
      (hp : Representation.parse? name = some (.vector placeholder count))
      (ha : i.substitution.get? placeholder = some argument) (hl : part argument component)
      (hs : component.isScalar = true) (ht : t.shape = .vector component count) :
      LoweredFrom p part ty t
  | struct {i : TypeInstance} {members : List LoweredType} (hc : p.construct ty = .ok i)
      (hr : i.representation? = none) (ht : t.shape = .struct members)
      (hm : List.Forall₂ (fun f m => part (Field.ty f) m ∧ m.isVoid = false) i.fields members) :
      LoweredFrom p part ty t

namespace LoweredFrom

variable {p : Program} {part part' : Ty → LoweredType → Prop} {ty : Ty} {t t' : LoweredType}

theorem mono (hpart : ∀ ty t, part ty t → part' ty t) (h : LoweredFrom p part ty t) :
    LoweredFrom p part' ty t := by
  cases h with
  | scalar hc hr hp hs => exact .scalar hc hr hp hs
  | vector hc hr hp ha hl hs ht => exact .vector hc hr hp ha (hpart _ _ hl) hs ht
  | struct hc hr ht hm =>
    exact .struct hc hr ht (hm.imp fun f m hfm => ⟨hpart f.ty m hfm.1, hfm.2⟩)

theorem of_shape (h : LoweredFrom p part ty t) (hs : t'.shape = t.shape) :
    LoweredFrom p part ty t' := by
  cases h with
  | scalar hc hr hp ht => exact .scalar hc hr hp (hs ▸ ht)
  | vector hc hr hp ha hl hv ht => exact .vector hc hr hp ha hl hv (hs.trans ht)
  | struct hc hr ht hm => exact .struct hc hr (hs.trans ht) hm

theorem lowers (h : LoweredFrom p (Lowers p) ty t) : Lowers p ty t := by
  cases h with
  | scalar hc hr hp hs => exact .scalar hc hr hp hs
  | vector hc hr hp ha hl hs ht => exact .vector hc hr hp ha hl hs ht
  | struct hc hr ht hm =>
    refine .struct hc hr ht hm.length_eq.symm ?_
    intro k f m hf hk
    have hpair := (List.forall₂_iff_get.mp hm).2
    obtain ⟨hlt, rfl⟩ := List.getElem?_eq_some_iff.mp hf
    obtain ⟨hlt', rfl⟩ := List.getElem?_eq_some_iff.mp hk
    exact (hpair k hlt hlt').1

end LoweredFrom

/-- What a method returns: nothing, or a value of its return type. -/
def LowersReturn (p : Program) (ty : Option Ty) (t : LoweredType) : Prop :=
  match ty with
  | none => t.shape = .void
  | some ty => Lowers p ty t

end ShaderIR.Lowering
