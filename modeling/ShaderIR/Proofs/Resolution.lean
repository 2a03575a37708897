import ShaderIR.Proofs.CallGraph

/-! What references resolve to. The name of its owner and its position say which declared method a
reference means; the arguments of the owner and its own say which instance of that method. -/

namespace ShaderIR

/-- A call of the method names its target by the reference. -/
def Method.Refers (m : Method) (r : MethodRef) : Prop :=
  ∃ i ∈ m.body, i.opcode = .call ∧ i.operands[0]? = some (.method r)

/-- When instantiating a located method succeeds, and what it gives. -/
theorem LocatedMethod.instantiate_eq_ok_iff {m : LocatedMethod} {arguments : List Ty}
    {target : MethodInstance} :
    m.instantiate arguments = .ok target ↔
      m.method.owner.isGeneric = false ∧ m.method.isGeneric = true ∧
        arguments.length = m.method.genericParameters.length ∧
        ∃ s, GenericParam.bindAll .empty m.method.genericParameters arguments = .ok s ∧
          target = if Ty.anyGeneric arguments then .deferred m arguments else
            .concrete ⟨{ m.id with typeArguments := some arguments },
              m.method.substituted m.method.owner (s.mergeOuter m.method.outer)⟩ := by
  unfold LocatedMethod.instantiate Method.instantiate
  by_cases howner : m.method.owner.isGeneric = true
  · simp [howner]
  by_cases hgeneric : m.method.isGeneric = true
  swap
  · simp [howner, hgeneric]
  by_cases hlength : arguments.length = m.method.genericParameters.length
  swap
  · simp [howner, hgeneric, hlength]
  cases hs : GenericParam.bindAll .empty m.method.genericParameters arguments with
  | error e => simp [howner, hgeneric, hlength]
  | ok s =>
    by_cases hany : Ty.anyGeneric arguments = true <;>
      simp [howner, hgeneric, hlength, hany, eq_comm]

/-- The instance is concrete if the arguments are closed. -/
theorem LocatedMethod.concrete?_of_instantiate {m : LocatedMethod} {arguments : List Ty}
    {target : MethodInstance} (h : m.instantiate arguments = .ok target) :
    ∃ s, GenericParam.bindAll .empty m.method.genericParameters arguments = .ok s ∧
      target.concrete? = if Ty.anyGeneric arguments then none else
        some ⟨{ m.id with typeArguments := some arguments },
          m.method.substituted m.method.owner (s.mergeOuter m.method.outer)⟩ := by
  obtain ⟨howner, _, _, s, hs, rfl⟩ := instantiate_eq_ok_iff.mp h
  refine ⟨s, hs, ?_⟩
  split
  · rfl
  · simp [MethodInstance.concrete?, isConcrete, Method.isConcrete, Method.isGeneric,
      Method.substituted, howner]

namespace Program

variable {p : Program} {r : MethodRef} {m : LocatedMethod}

theorem calls_iff {callee : LocatedMethod} :
    p.Calls m callee ↔
      ∃ r target, m.method.Refers r ∧ p.resolve r = .ok target ∧
        target.concrete? = some callee := by
  constructor
  · rintro ⟨i, hi, r, target, ho, hr, ht, hc⟩
    exact ⟨r, target, ⟨i, hi, ho, hr⟩, ht, hc⟩
  · rintro ⟨r, target, ⟨i, hi, ho, hr⟩, ht, hc⟩
    exact ⟨i, hi, r, target, ho, hr, ht, hc⟩

theorem getElem?_methodsOf_eq_some {path : List Nat} {d : TypeDecl} {i : TypeInstance} {k : Nat} :
    (methodsOf path d i)[k]? = some m ↔
      i.methods[k]? = some m.method ∧
        m.id = ⟨⟨path, d.fullName⟩, k, if d.isGeneric then some i.ty.arguments else none, none⟩ := by
  simp only [methodsOf, List.getElem?_map, List.getElem?_zipIdx, Option.map_map,
    Option.map_eq_some_iff]
  constructor
  · rintro ⟨method, hmethod, rfl⟩
    exact ⟨hmethod, by simp⟩
  · rintro ⟨hmethod, hid⟩
    refine ⟨m.method, hmethod, ?_⟩
    cases m
    simpa using hid.symm

/-- What a reference means: the type that its owner constructs, and the method in it. -/
structure Means (p : Program) (r : MethodRef) (name : String) (arguments : List Ty)
    (path : List Nat) (d : TypeDecl) (i : TypeInstance) : Prop where
  owner : r.owner = .named name arguments
  found : p.find? name = some (path, d)
  constructed : d.instantiate arguments = .ok i

theorem locate_eq_ok_iff :
    p.locate r = .ok m ↔
      ∃ name arguments path d i, p.Means r name arguments path d i ∧
        i.methods[r.index]? = some m.method ∧ m.method.name = r.name ∧
        m.id = ⟨⟨path, d.fullName⟩, r.index, if d.isGeneric then some i.ty.arguments else none,
          none⟩ := by
  constructor
  · intro h
    unfold locate at h
    split at h
    · cases h
    rename_i name arguments howner
    split at h
    · cases h
    rename_i path d hfind
    split at h
    · cases h
    rename_i i hi
    split at h
    swap
    · cases h
    rename_i m' hm'
    split at h
    swap
    · cases h
    rename_i hname
    cases h
    obtain ⟨hmethod, hid⟩ := getElem?_methodsOf_eq_some.mp hm'
    exact ⟨name, arguments, path, d, i, ⟨howner, hfind, hi⟩, hmethod, by simpa using hname, hid⟩
  · rintro ⟨name, arguments, path, d, i, ⟨howner, hfind, hi⟩, hmethod, hname, hid⟩
    have hm := getElem?_methodsOf_eq_some.mpr ⟨hmethod, hid⟩
    simp [locate, howner, hfind, hi, hm, hname]

theorem resolve_eq_ok_iff {target : MethodInstance} :
    p.resolve r = .ok target ↔
      ∃ m, p.locate r = .ok m ∧ (r.typeArguments = [] ∧ target = .concrete m ∨
        r.typeArguments ≠ [] ∧ m.instantiate r.typeArguments = .ok target) := by
  unfold resolve
  cases p.locate r with
  | error e => simp
  | ok m =>
    by_cases he : r.typeArguments = []
    · simp [he, eq_comm]
    · simp [he]

end Program

end ShaderIR
