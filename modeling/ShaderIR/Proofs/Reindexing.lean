import Mathlib.Logic.Equiv.Defs
import ShaderIR.Proofs.SiblingInstances

/-! Methods at other positions. A reference gives the position of a method in its type, so when
methods change places the references to them change too. An instance of a method with changed
references refers to the same methods as the instance of the method itself, provided that the owners
are named: a generic parameter stands for types whose methods may change places differently. -/

namespace ShaderIR

/-- For each type, the new positions of its methods. -/
abbrev Arrangement := String → Nat ≃ Nat

def Arrangement.inverse (a : Arrangement) : Arrangement :=
  fun name => (a name).symm

variable {a : Arrangement}

/-- The reference to the same method at its new position. -/
def MethodRef.reindex (a : Arrangement) (r : MethodRef) : MethodRef :=
  { r with index := a r.owner.name r.index }

def Operand.reindex (a : Arrangement) : Operand → Operand
  | .method r => .method (r.reindex a)
  | other => other

def Instruction.reindex (a : Arrangement) (i : Instruction) : Instruction :=
  i.mapOperands (Operand.reindex a)

/-- The method at its new position, which its definition follows. -/
def Method.reindex (a : Arrangement) (m : Method) : Method :=
  { m with
    body := m.body.map (Instruction.reindex a)
    definition := { m.definition with index := a m.owner.name m.definition.index } }

@[simp]
theorem MethodRef.reindex_reindex_inverse (r : MethodRef) :
    (r.reindex a.inverse).reindex a = r := by
  simp [reindex, Arrangement.inverse]

theorem MethodRef.reindex_injective : Function.Injective (MethodRef.reindex a) := by
  intro r r' h
  have hback := congrArg (MethodRef.reindex a.inverse) h
  have hinverse : ∀ r : MethodRef, (r.reindex a).reindex a.inverse = r :=
    fun r => r.reindex_reindex_inverse (a := a.inverse)
  rwa [hinverse, hinverse] at hback

/-- A substitution does not change the type that a reference names. -/
theorem MethodRef.subst_reindex {r : MethodRef}
    (hr : ∃ name arguments, r.owner = .named name arguments) (s : Substitution) :
    (r.reindex a).subst s = (r.subst s).reindex a := by
  obtain ⟨name, arguments, howner⟩ := hr
  simp [subst, reindex, howner, Ty.subst, Ty.name]

theorem Method.reindex_reindex_inverse (m : Method) : (m.reindex a.inverse).reindex a = m := by
  have hoperand : Operand.reindex a ∘ Operand.reindex a.inverse = id := by
    funext o
    cases o <;> simp [Operand.reindex]
  have hinstruction : Instruction.reindex a ∘ Instruction.reindex a.inverse = id := by
    funext i
    exact Instruction.eq_of_operands rfl (by simp [Instruction.reindex, hoperand])
  simp [reindex, hinstruction, Arrangement.inverse]

theorem Method.refers_reindex {m : Method} {r : MethodRef} :
    (m.reindex a).Refers r ↔ ∃ written, m.Refers written ∧ r = written.reindex a := by
  refine refers_map rfl fun o r => ?_
  cases o <;> simp [Operand.reindex, eq_comm]

namespace Method

/-- The methods have the same signature as far as calls of them go, and refer to the same methods. -/
structure Counterpart (a : Arrangement) (m m' : Method) : Prop where
  owner : m'.owner = m.owner
  name : m'.name = m.name
  parameters : m'.genericParameters = m.genericParameters
  outer : m'.outer = m.outer
  refers : ∀ r, m'.Refers (r.reindex a) ↔ m.Refers r

variable {m m' : Method}

theorem counterpart_reindex (a : Arrangement) (m : Method) : m.Counterpart a (m.reindex a) where
  owner := rfl
  name := rfl
  parameters := rfl
  outer := rfl
  refers r := by
    rw [refers_reindex]
    constructor
    · rintro ⟨written, hwritten, he⟩
      exact MethodRef.reindex_injective he ▸ hwritten
    · exact fun hr => ⟨r, hr, rfl⟩

namespace Counterpart

variable (h : m.Counterpart a m')

include h

theorem isGeneric_eq : m'.isGeneric = m.isGeneric := by
  rw [isGeneric, isGeneric, h.parameters]

theorem isConcrete_eq : m'.isConcrete = m.isConcrete := by
  rw [isConcrete, isConcrete, h.isGeneric_eq, h.owner]

theorem symm : m'.Counterpart a.inverse m where
  owner := h.owner.symm
  name := h.name.symm
  parameters := h.parameters.symm
  outer := h.outer.symm
  refers r := by
    rw [← h.refers, MethodRef.reindex_reindex_inverse]

theorem namesOwners (hm : m.NamesOwners) : m'.NamesOwners := by
  intro r hr
  obtain ⟨name, arguments, howner⟩ := hm _ ((h.symm.refers r).mpr hr)
  exact ⟨name, arguments, howner⟩

/-- Only references that name their owners are the same before and after a substitution. -/
theorem substituted (hm : m.NamesOwners) (owner : Ty) (s : Substitution) :
    (m.substituted owner s).Counterpart a (m'.substituted owner s) where
  owner := rfl
  name := h.name
  parameters := rfl
  outer := rfl
  refers r := by
    rw [refers_of_body rfl, refers_of_body rfl]
    constructor
    · rintro ⟨written, hwritten, he⟩
      rw [← written.reindex_reindex_inverse (a := a)] at hwritten he
      have hback := (h.refers _).mp hwritten
      rw [MethodRef.subst_reindex (hm _ hback)] at he
      exact ⟨_, hback, MethodRef.reindex_injective he⟩
    · rintro ⟨written, hwritten, rfl⟩
      exact ⟨_, (h.refers written).mpr hwritten, (MethodRef.subst_reindex (hm _ hwritten) s).symm⟩

theorem forOwner (hm : m.NamesOwners) (owner : Ty) (s : Substitution) :
    (m.forOwner owner s).Counterpart a (m'.forOwner owner s) := by
  cases hg : m.isGeneric with
  | false =>
    have hg' := h.isGeneric_eq.trans hg
    rw [forOwner_of_isGeneric_eq_false hg, forOwner_of_isGeneric_eq_false hg']
    exact h.substituted hm owner s
  | true =>
    have hg' := h.isGeneric_eq.trans hg
    rw [forOwner_of_isGeneric_eq_true hg, forOwner_of_isGeneric_eq_true hg', h.parameters]
    exact ⟨rfl, h.name, rfl, rfl, h.refers⟩

end Counterpart

theorem NamesOwners.substituted (hm : m.NamesOwners) (owner : Ty) (s : Substitution) :
    (m.substituted owner s).NamesOwners := by
  intro r hr
  obtain ⟨written, hwritten, rfl⟩ := (refers_of_body rfl).mp hr
  obtain ⟨name, arguments, howner⟩ := hm written hwritten
  exact ⟨name, Ty.substList s arguments, by simp [MethodRef.subst, howner, Ty.subst]⟩

theorem NamesOwners.forOwner (hm : m.NamesOwners) (owner : Ty) (s : Substitution) :
    (m.forOwner owner s).NamesOwners := by
  unfold Method.forOwner
  split
  · exact hm
  · exact hm.substituted owner s

end Method

namespace TypeDecl

/-- The declarations declare the same methods at other positions. -/
structure Rearranged (a : Arrangement) (d d' : TypeDecl) : Prop where
  fullName : d'.fullName = d.fullName
  parameters : d'.genericParameters = d.genericParameters
  methods : ∀ k, d'.methods[a d.fullName k]? = (d.methods[k]?).map (Method.reindex a)

variable {d d' : TypeDecl} {arguments : List Ty} {i i' : TypeInstance}

theorem exists_instantiate {s : Substitution}
    (harity : arguments.length = d.genericParameters.length)
    (hbound : GenericParam.bindAll .empty d.genericParameters arguments = .ok s) :
    ∃ i, d.instantiate arguments = .ok i := by
  have hempty : (!d.isGeneric && !arguments.isEmpty) = false := by
    cases hp : d.genericParameters with
    | nil => simp [List.length_eq_zero_iff.mp (hp ▸ harity)]
    | cons => simp [isGeneric, hp]
  unfold instantiate
  rw [hempty]
  simp only [harity, hbound]
  by_cases hs : s.isEmpty = true <;> simp [hs]

namespace Rearranged

theorem symm (h : d.Rearranged a d') : d'.Rearranged a.inverse d where
  fullName := h.fullName.symm
  parameters := h.parameters.symm
  methods k := by
    have hk := h.methods (a.inverse d.fullName k)
    rw [Arrangement.inverse, Equiv.apply_symm_apply] at hk
    have hback : Method.reindex a.inverse ∘ Method.reindex a = id :=
      funext fun m => m.reindex_reindex_inverse (a := a.inverse)
    rw [hk, Option.map_map, hback, Option.map_id, h.fullName]
    rfl

theorem isGeneric_eq (h : d.Rearranged a d') : d'.isGeneric = d.isGeneric := by
  rw [isGeneric, isGeneric, h.parameters]

theorem selfTy_eq (h : d.Rearranged a d') : d'.selfTy = d.selfTy := by
  rw [selfTy, selfTy, h.parameters, h.fullName]

theorem reindex_mem (h : d.Rearranged a d') {m : Method} (hm : m ∈ d.methods) :
    m.reindex a ∈ d'.methods := by
  obtain ⟨k, hk⟩ := List.getElem?_of_mem hm
  refine List.mem_of_getElem? (i := a d.fullName k) ?_
  rw [h.methods, hk, Option.map_some]

theorem exists_instance (h : d.Rearranged a d') (hi : d.instantiate arguments = .ok i) :
    ∃ i', d'.instantiate arguments = .ok i' ∧ i'.ty = i.ty ∧ i'.substitution = i.substitution := by
  obtain ⟨harity, hty, hbound, _⟩ := Program.constructs_of_instantiate hi
  rw [← h.parameters] at harity hbound
  obtain ⟨i', hi'⟩ := exists_instantiate harity hbound
  obtain ⟨_, hty', hbound', _⟩ := Program.constructs_of_instantiate hi'
  refine ⟨i', hi', by rw [hty, hty', h.fullName], ?_⟩
  rw [hbound] at hbound'
  exact (Except.ok.inj hbound').symm

theorem moved (h : d.Rearranged a d') (hty : i'.ty = i.ty)
    (hs : i'.substitution = i.substitution) {m : Method} (hm : m.NamesOwners) :
    (d.moved i m).Counterpart a (d'.moved i' (m.reindex a)) := by
  have hcounterpart := m.counterpart_reindex a
  rw [TypeDecl.moved, TypeDecl.moved, h.isGeneric_eq, hty, hs]
  split
  · exact hcounterpart.forOwner hm i.ty i.substitution
  · exact hcounterpart

end Rearranged

theorem namesOwners_moved {m : Method} (hm : m.NamesOwners) : (d.moved i m).NamesOwners := by
  unfold moved
  split
  · exact hm.forOwner i.ty i.substitution
  · exact hm

end TypeDecl

end ShaderIR
