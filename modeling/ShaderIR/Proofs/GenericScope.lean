import ShaderIR.Proofs.InstanceIdentity

/-! Scopes of generic parameters. In a scoped declaration every parameter that occurs is one of
the method's own or of its owner's, and those of the method shadow those of the owner. A method
that is resolved in such a program with nothing left to bind mentions no parameter at all. -/

namespace ShaderIR

/-- Every generic parameter in the type is the first of its name in the scope. -/
def Ty.ScopedBy (scope : List GenericParam) (t : Ty) : Prop :=
  ∀ q ∈ t.parameters, scope.find? (fun p => p.name == q.name) = some q

/-- The types that the constraints of a parameter list mention only parameters in scope. -/
def GenericParam.ScopedBy (scope : List GenericParam) (p : GenericParam) : Prop :=
  ∀ allowed ∈ p.constraints, ∀ t ∈ allowed, t.ScopedBy scope

/-- The method mentions only its own parameters and, where it does not shadow them, those of
its owner. -/
structure Method.ScopedIn (outer : List GenericParam) (m : Method) : Prop where
  constraints : ∀ q ∈ m.genericParameters, q.ScopedBy outer
  types : ∀ t ∈ m.types, t.ScopedBy (m.genericParameters ++ outer)

structure TypeDecl.Scoped (d : TypeDecl) : Prop where
  constraints : ∀ q ∈ d.genericParameters, q.ScopedBy []
  attributes : ∀ a ∈ d.attributes, ∀ t ∈ a.types, t.ScopedBy d.genericParameters
  fields : ∀ f ∈ d.fields, f.ty.ScopedBy d.genericParameters
  methods : ∀ m ∈ d.methods, m.ScopedIn d.genericParameters

/-- Every name in the scope is bound to a type without parameters. -/
def Substitution.Closes (s : Substitution) (scope : List GenericParam) : Prop :=
  ∀ q ∈ scope, ∃ a, s.get? q.name = some a ∧ a.isGeneric = false

theorem Ty.ScopedBy.isGeneric_subst {s : Substitution} {scope : List GenericParam} {t : Ty}
    (ht : t.ScopedBy scope) (hs : s.Closes scope) : (t.subst s).isGeneric = false :=
  Ty.isGeneric_subst_eq_false_iff.mpr fun q hq => hs q (List.mem_of_find?_eq_some (ht q hq))

theorem Ty.ScopedBy.isGeneric_of_nil {t : Ty} (ht : t.ScopedBy []) : t.isGeneric = false := by
  rw [Ty.isGeneric_eq_false_iff, List.eq_nil_iff_forall_not_mem]
  intro q hq
  have hfind := ht q hq
  simp at hfind

theorem Substitution.Closes.mergeOuter {s : Substitution} {ps : List GenericParam}
    (hs : s.Closes ps) (outer : Substitution) : (s.mergeOuter outer).Closes ps := by
  intro q hq
  obtain ⟨a, ha, hfree⟩ := hs q hq
  exact ⟨a, by rw [get?_mergeOuter, ha, Option.some_or], hfree⟩

section

variable {ps : List GenericParam} {as : List Ty} {s : Substitution}
  (hlength : as.length = ps.length) (has : ∀ a ∈ as, a.isGeneric = false)
  (hs : GenericParam.bindAll .empty ps as = .ok s)

include hlength has hs

theorem GenericParam.closes_of_bindAll : s.Closes ps := by
  intro q hq
  obtain ⟨a, ha⟩ := exists_argument? hlength hq
  refine ⟨a, ?_, has a (mem_of_argument? ha)⟩
  rw [get?_of_bindAll hs, ha, Option.some_or]

/-- The method's own bindings close its parameters; the owner's, as far as they are kept, close
the parameters of the owner that are not shadowed. -/
theorem GenericParam.closes_mergeOuter {outer : Substitution} {qs : List GenericParam}
    (houter : outer.Closes qs) : (s.mergeOuter (outer.without ps)).Closes (ps ++ qs) := by
  intro q hq
  by_cases hshadow : q.name ∈ ps.map GenericParam.name
  · obtain ⟨p, hp, hname⟩ := List.mem_map.mp hshadow
    rw [← hname]
    exact (closes_of_bindAll hlength has hs).mergeOuter _ p hp
  · have hq : q ∈ qs := by
      refine (List.mem_append.mp hq).resolve_left fun hp => hshadow ?_
      exact List.mem_map_of_mem hp
    rw [Substitution.get?_mergeOuter, Substitution.get?_without, if_neg hshadow]
    cases hget : s.get? q.name with
    | none => simpa using houter q hq
    | some a =>
      rw [get?_of_bindAll hs, Option.or_eq_some_iff] at hget
      rcases hget with hget | ⟨_, hget⟩
      · exact ⟨a, rfl, has a (mem_of_argument? hget)⟩
      · cases hget

end

theorem Method.concrete_of_instantiate {m m' : Method} {as : List Ty}
    (h : m.instantiate as = .ok (.concrete m')) :
    m.isGeneric = true ∧ as.length = m.genericParameters.length ∧
      ∃ s, GenericParam.bindAll .empty m.genericParameters as = .ok s ∧
        m' = m.substituted m.owner (s.mergeOuter m.outer) := by
  unfold instantiate at h
  split at h
  · cases h
  split at h
  · cases h
  rename_i hgeneric
  split at h
  · cases h
  rename_i hlength
  split at h
  · cases h
  rename_i s hs
  split at h
  · cases h
  · cases h
    exact ⟨by simpa using hgeneric, by simpa using hlength, s, hs, rfl⟩

namespace TypeDecl

variable {d : TypeDecl} {arguments : List Ty} {i : TypeInstance} {m : Method}

/-- A method of an instance is a declared one, moved to the instance if there is anything to
bind. -/
theorem exists_declared (h : d.instantiate arguments = .ok i) (hm : m ∈ i.methods) :
    ∃ m' ∈ d.methods, d.genericParameters = [] ∧ m = m' ∨
      m = m'.forOwner i.ty i.substitution := by
  obtain ⟨harity, _, hbound, hmethods⟩ := Program.constructs_of_instantiate h
  rw [hmethods, GenericParam.isEmpty_of_bindAll harity hbound] at hm
  by_cases he : d.genericParameters.isEmpty = true
  · rw [if_pos he] at hm
    exact ⟨m, hm, .inl ⟨List.isEmpty_iff.mp he, rfl⟩⟩
  · rw [if_neg he] at hm
    obtain ⟨m', hm', rfl⟩ := List.mem_map.mp hm
    exact ⟨m', hm', .inr rfl⟩

namespace Scoped

variable (hd : d.Scoped) (h : d.instantiate arguments = .ok i)
  (harguments : ∀ a ∈ arguments, a.isGeneric = false) (hm : m ∈ i.methods)

include hd h harguments hm

theorem isGeneric_of_mem (hgeneric : m.isGeneric = false) : ∀ t ∈ m.types, t.isGeneric = false := by
  obtain ⟨harity, _, hbound, _⟩ := Program.constructs_of_instantiate h
  obtain ⟨m', hm', hdeclared⟩ := exists_declared h hm
  have hgeneric' : m'.isGeneric = false := by
    rcases hdeclared with ⟨_, rfl⟩ | rfl
    · exact hgeneric
    · rwa [Method.isGeneric_forOwner] at hgeneric
  have hown : m'.genericParameters = [] := by simpa [Method.isGeneric] using hgeneric'
  have hscope : ∀ t ∈ m'.types, t.ScopedBy d.genericParameters := by
    simpa [hown] using (hd.methods m' hm').types
  rcases hdeclared with ⟨hparameters, rfl⟩ | rfl
  · rw [hparameters] at hscope
    exact fun t ht => (hscope t ht).isGeneric_of_nil
  · rw [Method.forOwner_of_isGeneric_eq_false hgeneric', Method.types_substituted]
    intro t ht
    obtain ⟨t', ht', rfl⟩ := List.mem_map.mp ht
    exact (hscope t' ht').isGeneric_subst
      (GenericParam.closes_of_bindAll harity harguments hbound)

/-- Instantiating a generic method binds the parameters that it still mentions: its own by the
type arguments, the owner's by the bindings it remembers. -/
theorem isGeneric_of_specialized {as : List Ty} {m' : Method}
    (has : ∀ a ∈ as, a.isGeneric = false) (hspecial : m.instantiate as = .ok (.concrete m')) :
    ∀ t ∈ m'.types, t.isGeneric = false := by
  obtain ⟨harity, _, hbound, _⟩ := Program.constructs_of_instantiate h
  obtain ⟨hgeneric, hlength, s, hs, rfl⟩ := Method.concrete_of_instantiate hspecial
  obtain ⟨declared, hmem, hdeclared⟩ := exists_declared h hm
  have hcloses : m.types = declared.types ∧
      (s.mergeOuter m.outer).Closes (declared.genericParameters ++ d.genericParameters) := by
    rcases hdeclared with ⟨hparameters, rfl⟩ | rfl
    · rw [hparameters, List.append_nil]
      exact ⟨rfl, (GenericParam.closes_of_bindAll hlength has hs).mergeOuter _⟩
    · rw [Method.isGeneric_forOwner] at hgeneric
      rw [Method.forOwner_of_isGeneric_eq_true hgeneric] at hs hlength ⊢
      exact ⟨rfl, GenericParam.closes_mergeOuter hlength has hs
        (GenericParam.closes_of_bindAll harity harguments hbound)⟩
  obtain ⟨htypes, hcloses⟩ := hcloses
  rw [Method.types_substituted, htypes]
  intro t ht
  obtain ⟨t', ht', rfl⟩ := List.mem_map.mp ht
  exact ((hd.methods declared hmem).types t' ht').isGeneric_subst hcloses

end Scoped

end TypeDecl

namespace Program

variable {p : Program}

/-- Every declaration that a reference can name is scoped. -/
def Scoped (p : Program) : Prop :=
  ∀ name path d, p.find? name = some (path, d) → d.Scoped

theorem exists_instance_of_locate {r : MethodRef} {m : LocatedMethod} (h : p.locate r = .ok m) :
    ∃ name arguments path d i, r.owner = .named name arguments ∧ p.find? name = some (path, d) ∧
      d.instantiate arguments = .ok i ∧ m.method ∈ i.methods := by
  obtain ⟨name, arguments, path, d, i, ⟨howner, hfind, hi⟩, hmethod, _⟩ := locate_eq_ok_iff.mp h
  exact ⟨name, arguments, path, d, i, howner, hfind, hi, List.mem_of_getElem? hmethod⟩

theorem exists_locate_of_resolve {r : MethodRef} {m : LocatedMethod}
    (h : p.resolve r = .ok (.concrete m)) :
    ∃ found, p.locate r = .ok found ∧
      (m = found ∨ found.method.instantiate r.typeArguments = .ok (.concrete m.method)) := by
  obtain ⟨found, hfound, ⟨_, he⟩ | ⟨_, he⟩⟩ := resolve_eq_ok_iff.mp h
  · cases he
    exact ⟨m, hfound, .inl rfl⟩
  · unfold LocatedMethod.instantiate at he
    split at he <;> cases he
    rename_i hmethod
    exact ⟨found, hfound, .inr hmethod⟩

/-- A reference without parameters that resolves to a method with nothing left to bind resolves
to one that mentions no parameter. -/
theorem Scoped.isGeneric_of_resolve (hp : p.Scoped) {r : MethodRef} {i : MethodInstance}
    (howner : r.owner.isGeneric = false) (htypes : ∀ t ∈ r.typeArguments, t.isGeneric = false)
    (hr : p.resolve r = .ok i) (hi : i.isGeneric = false) :
    ∃ m, i = .concrete m ∧ ∀ t ∈ m.method.owner :: m.method.types, t.isGeneric = false := by
  obtain ⟨m, rfl, hconcrete⟩ : ∃ m, i = .concrete m ∧ m.method.isConcrete = true := by
    cases i with
    | deferred => cases hi
    | concrete m =>
      refine ⟨m, rfl, ?_⟩
      have hsome : m.isConcrete = true := by
        simpa [MethodInstance.isGeneric, MethodInstance.concrete?] using hi
      exact hsome
  have hfree : m.method.isGeneric = false ∧ m.method.owner.isGeneric = false := by
    simpa [Method.isConcrete] using hconcrete
  obtain ⟨found, hfound, hm⟩ := exists_locate_of_resolve hr
  obtain ⟨name, arguments, path, d, ty, hnamed, hfind, hty, hmem⟩ :=
    exists_instance_of_locate hfound
  have harguments : ∀ a ∈ arguments, a.isGeneric = false := by
    rw [hnamed, Ty.isGeneric, Ty.anyGeneric_eq_any] at howner
    simpa using howner
  have hd := hp name path d hfind
  refine ⟨m, rfl, List.forall_mem_cons.mpr ⟨hfree.2, ?_⟩⟩
  rcases hm with rfl | hspecial
  · exact hd.isGeneric_of_mem hty harguments hmem hfree.1
  · exact hd.isGeneric_of_specialized hty harguments hmem htypes hspecial

end Program

end ShaderIR
