import ShaderIR.Proofs.Resolution
import ShaderIR.Proofs.Substitution

/-! What tells instances of methods apart. An instance that a program needs is determined by the
declared method it comes from, its owner and its type arguments. -/

namespace ShaderIR

/-- Declared methods belong to the type that declares them. -/
def TypeDecl.Owned (d : TypeDecl) : Prop :=
  ∀ m ∈ d.methods, m.owner = d.selfTy

namespace TypeDecl.Owned

variable {d : TypeDecl}

theorem addMethod (h : d.Owned) (m : Method) : (d.addMethod m).Owned := by
  intro m' hm'
  simp only [TypeDecl.addMethod, List.mem_append, List.mem_singleton] at hm'
  rcases hm' with hm' | rfl
  · exact h m' hm'
  · rfl

theorem addGenericParameter (q : GenericParam) : (d.addGenericParameter q).Owned := by
  intro m hm
  obtain ⟨k, hk, rfl⟩ := List.mem_mapIdx.mp hm
  rfl

theorem addField (h : d.Owned) (name : String) (ty : Ty) : (d.addField name ty).Owned := h

end TypeDecl.Owned

/-- The declared method, the owner and the type arguments of an instance. -/
def LocatedMethod.identity (m : LocatedMethod) : (Site × Nat) × Ty × List Ty :=
  (m.id.definition, m.method.owner, m.id.typeArguments.getD [])

/-- Constructing a generic type moves its methods to the constructed type. -/
theorem TypeDecl.owner_of_instantiate {d : TypeDecl} {arguments : List Ty} {i : TypeInstance}
    (hd : d.isGeneric = true) (h : d.instantiate arguments = .ok i) :
    ∀ m ∈ i.methods, m.owner = i.ty := by
  obtain ⟨harity, _, hbound, hmethods⟩ := Program.constructs_of_instantiate h
  have hne : i.substitution.isEmpty = false := by
    rw [GenericParam.isEmpty_of_bindAll harity hbound]
    simpa [TypeDecl.isGeneric] using hd
  intro m hm
  simp only [hmethods, hne, Bool.false_eq_true, if_false] at hm
  obtain ⟨m', _, rfl⟩ := List.mem_map.mp hm
  unfold Method.forOwner
  split <;> rfl

namespace Program

variable {p : Program}

/-- The identity of the method holds the arguments of its owner just when this was constructed
from a generic declaration. -/
def Identified (p : Program) (m : LocatedMethod) : Prop :=
  ∃ home d, p.atPath? m.id.site.path = some home ∧
    findLocal? home.types m.id.site.name = some d ∧
    m.id.ownerArguments = (if d.isGeneric then some m.method.owner.arguments else none) ∧
    m.id.typeArguments ≠ some []

theorem Identified.id_eq {m m' : LocatedMethod} (h : p.Identified m) (h' : p.Identified m')
    (he : m.identity = m'.identity) : m.id = m'.id := by
  obtain ⟨home, d, hhome, hd, howner, htype⟩ := h
  obtain ⟨home', d', hhome', hd', howner', htype'⟩ := h'
  simp only [LocatedMethod.identity, MethodId.definition, Prod.mk.injEq] at he
  obtain ⟨⟨hsite, hindex⟩, hsame, harguments⟩ := he
  rw [hsite, hhome'] at hhome
  cases hhome
  rw [hsite, hd'] at hd
  cases hd
  rw [hsame, ← howner'] at howner
  have htypes : m.id.typeArguments = m'.id.typeArguments := by
    cases ha : m.id.typeArguments <;> cases ha' : m'.id.typeArguments <;> simp_all
  cases hm : m.id
  cases hm' : m'.id
  simp_all

theorem identified_of_locate {r : MethodRef} {m : LocatedMethod} (h : p.locate r = .ok m) :
    p.Identified m := by
  obtain ⟨name, arguments, path, d, i, ⟨_, hfind, hi⟩, hmethod, _, hid⟩ := locate_eq_ok_iff.mp h
  obtain ⟨home, hhome, hd⟩ := atPath?_of_find? p hfind
  have hname := fullName_of_findLocal? hd
  rw [Identified, hid]
  refine ⟨home, d, hhome, by simpa [hname] using hd, ?_, by simp⟩
  cases hg : d.isGeneric with
  | true =>
    have howner := TypeDecl.owner_of_instantiate hg hi m.method (List.mem_of_getElem? hmethod)
    simp [howner]
  | false => simp

theorem Identified.instantiate {m m' : LocatedMethod} {arguments : List Ty}
    (h : p.Identified m) (hne : arguments ≠ [])
    (hm : m.instantiate arguments = .ok (.concrete m')) : p.Identified m' := by
  obtain ⟨home, d, hhome, hd, howner, _⟩ := h
  unfold LocatedMethod.instantiate at hm
  split at hm
  · cases hm
  · cases hm
  rename_i method hmethod
  cases hm
  have hsame : method.owner = m.method.owner := by
    unfold Method.instantiate at hmethod
    split at hmethod
    · cases hmethod
    split at hmethod
    · cases hmethod
    split at hmethod
    · cases hmethod
    split at hmethod
    · cases hmethod
    split at hmethod
    · cases hmethod
    · cases hmethod
      rfl
  exact ⟨home, d, hhome, hd, by rw [hsame]; exact howner, by simpa using hne⟩

theorem CalledIn.identified {body : List Instruction} {callee : LocatedMethod}
    (h : p.CalledIn body callee) : p.Identified callee := by
  obtain ⟨_, _, r, target, _, _, hr, hc⟩ := h
  obtain ⟨rfl, _⟩ := eq_concrete_of_concrete? hc
  unfold resolve at hr
  split at hr
  · cases hr
  rename_i m hl
  have hm := identified_of_locate hl
  split at hr
  · cases hr
    exact hm
  · rename_i hne
    exact hm.instantiate (by simpa using hne) hr

theorem Reached.identified (hp : p.Distinct) (ho : ∀ d ∈ p.types, d.Owned) {m : LocatedMethod}
    (h : p.Reached m) : p.Identified m := by
  cases h with
  | call _ hc => exact hc.identified
  | declared hm hc =>
    obtain ⟨d, hd, hm⟩ := List.mem_flatMap.mp hm
    obtain ⟨k, hk⟩ := List.getElem?_of_mem hm
    simp only [declaredMethods, List.getElem?_map, List.getElem?_zipIdx, Option.map_map,
      Option.map_eq_some_iff] at hk
    obtain ⟨method, hmethod, rfl⟩ := hk
    have howner := ho d hd method (List.mem_of_getElem? hmethod)
    -- a declared method of a generic type has a generic owner
    have hgeneric : d.isGeneric = false := by
      cases hparameters : d.genericParameters with
      | nil => simp [TypeDecl.isGeneric, hparameters]
      | cons q ps =>
        simp [LocatedMethod.isConcrete, Method.isConcrete, howner, TypeDecl.selfTy, hparameters,
          GenericParam.ty, Ty.isGeneric, Ty.anyGeneric] at hc
    exact ⟨p, d, rfl, findLocal?_of_mem hp hd, by simp [hgeneric], by simp⟩

theorem Reached.eq_of_identity_eq (hp : p.Distinct) (ho : ∀ d ∈ p.types, d.Owned)
    {m m' : LocatedMethod} (h : p.Reached m) (h' : p.Reached m')
    (he : m.identity = m'.identity) : m = m' := by
  have hid := (h.identified hp ho).id_eq (h'.identified hp ho) he
  exact (h.locates hp).eq_of_id_eq (h'.locates hp) hid

end Program

end ShaderIR
