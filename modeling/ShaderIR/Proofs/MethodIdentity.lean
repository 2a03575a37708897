import ShaderIR.Proofs.FunctionLowering

/-! The identity of a method determines the method: a declared one in a program without two
declarations of one name, and every one that a reference resolves to. -/

namespace ShaderIR.Program

/-- The methods of a declaration, or of its instance for the given arguments. -/
def methodsFor? (d : TypeDecl) : Option (List Ty) → Option (List Method)
  | none => some d.methods
  | some arguments => (d.instantiate arguments).toOption.map TypeInstance.methods

/-- The method itself, or its instance for the given arguments. -/
def methodFor? (m : Method) : Option (List Ty) → Option Method
  | none => some m
  | some arguments =>
    match m.instantiate arguments with
    | .ok (.concrete method) => some method
    | _ => none

/-- The method that an identity stands for. -/
def instance? (p : Program) (id : MethodId) : Option Method := do
  let home ← p.atPath? id.site.path
  let d ← findLocal? home.types id.site.name
  let methods ← methodsFor? d id.ownerArguments
  methodFor? (← methods[id.index]?) id.typeArguments

/-- The method is the one that its identity stands for. -/
def Locates (p : Program) (m : LocatedMethod) : Prop :=
  p.instance? m.id = some m.method

/-- No two declarations of the program itself have the same name. -/
def Distinct (p : Program) : Prop :=
  (p.types.map TypeDecl.fullName).Nodup

theorem Locates.eq_of_id_eq {p : Program} {m m' : LocatedMethod} (h : p.Locates m)
    (h' : p.Locates m') (he : m.id = m'.id) : m = m' := by
  have hm : some m.method = some m'.method := by rw [← h, ← h', he]
  cases m
  cases m'
  simp_all

theorem fullName_of_findLocal? {types : List TypeDecl} {name : String} {d : TypeDecl}
    (h : findLocal? types name = some d) : d.fullName = name := by
  have hd := List.find?_some h
  simpa using hd

mutual

theorem atPath?_of_find? (p : Program) {name : String} {path : List Nat} {d : TypeDecl}
    (h : p.find? name = some (path, d)) :
    ∃ home, p.atPath? path = some home ∧ findLocal? home.types name = some d := by
  match p with
  | ⟨n, types, index, hindex, dependencies, order⟩ =>
    have hcases : (findLocal? types name = some d ∧ path = []) ∨
        findAmong? dependencies 0 name = some (path, d) := by
      rw [find?_eq] at h
      cases order <;> cases hlocal : findLocal? types name <;>
        cases hamong : findAmong? dependencies 0 name <;> simp_all
    rcases hcases with ⟨hlocal, rfl⟩ | hamong
    · exact ⟨_, rfl, hlocal⟩
    · obtain ⟨k, rest, dependency, home, rfl, hk, hhome, hd⟩ :=
        atPath?_of_findAmong? dependencies 0 hamong
      refine ⟨home, ?_, hd⟩
      simp [atPath?, hk, hhome]
termination_by structural p

theorem atPath?_of_findAmong? (ps : List Program) (position : Nat) {name : String}
    {path : List Nat} {d : TypeDecl} (h : findAmong? ps position name = some (path, d)) :
    ∃ k rest dependency home, path = (position + k) :: rest ∧ ps[k]? = some dependency ∧
      dependency.atPath? rest = some home ∧ findLocal? home.types name = some d := by
  match ps with
  | [] => simp [findAmong?] at h
  | p :: ps =>
    cases hp : p.find? name with
    | some found =>
      obtain ⟨rest, d'⟩ := found
      simp only [findAmong?, hp, Option.some.injEq, Prod.mk.injEq] at h
      obtain ⟨rfl, rfl⟩ := h
      obtain ⟨home, hhome, hd⟩ := atPath?_of_find? p hp
      exact ⟨0, rest, p, home, rfl, rfl, hhome, hd⟩
    | none =>
      simp only [findAmong?, hp] at h
      obtain ⟨k, rest, dependency, home, rfl, hk, hhome, hd⟩ :=
        atPath?_of_findAmong? ps (position + 1) h
      refine ⟨k + 1, rest, dependency, home, ?_, by simpa using hk, hhome, hd⟩
      congr 1
      omega
termination_by structural ps

end

/-- What constructing a declared type gives. -/
structure Constructs (d : TypeDecl) (arguments : List Ty) (i : TypeInstance) : Prop where
  arity : arguments.length = d.genericParameters.length
  ty : i.ty = .named d.fullName arguments
  bound : GenericParam.bindAll .empty d.genericParameters arguments = .ok i.substitution
  methods : i.methods = if i.substitution.isEmpty then d.methods else
    d.methods.map fun m => m.forOwner i.ty i.substitution

theorem constructs_of_instantiate {d : TypeDecl} {arguments : List Ty} {i : TypeInstance}
    (h : d.instantiate arguments = .ok i) : Constructs d arguments i := by
  unfold TypeDecl.instantiate at h
  split at h
  · cases h
  split at h
  · cases h
  rename_i hlength
  split at h
  · cases h
  rename_i s hs
  have harity : arguments.length = d.genericParameters.length := by simpa using hlength
  dsimp only at h
  by_cases he : s.isEmpty = true
  · rw [if_pos he] at h
    cases h
    exact ⟨harity, rfl, hs, by simp [he]⟩
  · rw [if_neg he] at h
    cases h
    exact ⟨harity, rfl, hs, by simp [he]⟩

theorem instantiate_methods {d : TypeDecl} {arguments : List Ty} {i : TypeInstance}
    (hd : d.isGeneric = false) (h : d.instantiate arguments = .ok i) : i.methods = d.methods := by
  have hparameters : d.genericParameters = [] := by simpa [TypeDecl.isGeneric] using hd
  have harguments : arguments = [] := by
    by_contra hne
    simp [TypeDecl.instantiate, hd, hne] at h
  subst harguments
  simp only [TypeDecl.instantiate, hd, hparameters] at h
  cases h
  rfl

theorem locates_methodsOf {p : Program} {name : String} {path : List Nat} {d : TypeDecl}
    {arguments : List Ty} {i : TypeInstance} (hfind : p.find? name = some (path, d))
    (hi : d.instantiate arguments = .ok i) {k : Nat} {m : LocatedMethod}
    (hm : (methodsOf path d i)[k]? = some m) : p.Locates m ∧ m.id.typeArguments = none := by
  obtain ⟨home, hhome, hd⟩ := atPath?_of_find? p hfind
  have hname := fullName_of_findLocal? hd
  have harguments : i.ty.arguments = arguments := by
    rw [(constructs_of_instantiate hi).ty]
    rfl
  obtain ⟨method, hmethod, rfl⟩ : ∃ method, i.methods[k]? = some method ∧
      m = ⟨⟨⟨path, d.fullName⟩, k, if d.isGeneric then some i.ty.arguments else none, none⟩,
        method⟩ := by
    simp only [methodsOf, List.getElem?_map, List.getElem?_zipIdx, Option.map_map,
      Option.map_eq_some_iff] at hm
    obtain ⟨method, hmethod, rfl⟩ := hm
    exact ⟨method, hmethod, by simp⟩
  refine ⟨?_, rfl⟩
  by_cases hgeneric : d.isGeneric = true
  · simp [Locates, instance?, methodsFor?, methodFor?, hhome, hname, hd, hgeneric, harguments, hi,
      Except.toOption, hmethod]
  · have hmethods := instantiate_methods (Bool.eq_false_iff.mpr hgeneric) hi
    rw [hmethods] at hmethod
    simp [Locates, instance?, methodsFor?, methodFor?, hhome, hname, hd, hgeneric, hmethod]

theorem locates_of_locate {p : Program} {r : MethodRef} {m : LocatedMethod}
    (h : p.locate r = .ok m) : p.Locates m ∧ m.id.typeArguments = none := by
  unfold locate at h
  split at h
  · cases h
  split at h
  · cases h
  rename_i path d hfind
  split at h
  · cases h
  rename_i i hi
  split at h
  · rename_i m' hm'
    split at h
    · cases h
      exact locates_methodsOf hfind hi hm'
    · cases h
  · cases h

/-- What a reference resolves to is the method of its identity. -/
theorem locates_of_resolve {p : Program} {r : MethodRef} {target : MethodInstance}
    {m : LocatedMethod} (hr : p.resolve r = .ok target) (hm : target.concrete? = some m) :
    p.Locates m := by
  have hconcrete : target = .concrete m := by
    cases target with
    | concrete m' =>
      simp only [MethodInstance.concrete?] at hm
      split at hm <;> simp_all
    | deferred _ _ => cases hm
  unfold resolve at hr
  cases hl : p.locate r with
  | error e => simp [hl] at hr
  | ok generic =>
    obtain ⟨hgeneric, htype⟩ := locates_of_locate hl
    rw [hl] at hr
    dsimp only at hr
    by_cases hempty : r.typeArguments.isEmpty = true
    · simp only [hempty, if_true, hconcrete] at hr
      cases hr
      exact hgeneric
    · simp only [hempty, hconcrete] at hr
      cases hi : generic.method.instantiate r.typeArguments with
      | error e => simp [LocatedMethod.instantiate, hi] at hr
      | ok specialized =>
        cases specialized with
        | deferred => simp [LocatedMethod.instantiate, hi] at hr
        | concrete method =>
          obtain rfl : (⟨{ generic.id with typeArguments := some r.typeArguments }, method⟩ :
              LocatedMethod) = m := by simpa [LocatedMethod.instantiate, hi] using hr
          have hbase : p.instance? generic.id = some generic.method := hgeneric
          simp only [instance?, htype, bind, Option.bind_eq_some_iff] at hbase
          obtain ⟨home, hhome, d, hd, methods, hmethods, found, hfound, he⟩ := hbase
          obtain rfl : found = generic.method := by simpa [methodFor?] using he
          simp [Locates, instance?, methodFor?, hhome, hd, hmethods, hfound, hi]

theorem CalledIn.locates {p : Program} {body : List Instruction} {callee : LocatedMethod}
    (h : p.CalledIn body callee) : p.Locates callee := by
  obtain ⟨i, _, r, target, _, _, hr, ht⟩ := h
  exact locates_of_resolve hr ht

theorem resolves_locates (p : Program) : Lowering.Resolves p p.Locates :=
  fun _ _ _ hc => hc.locates

theorem findLocal?_of_mem {types : List TypeDecl} (hn : (types.map TypeDecl.fullName).Nodup)
    {d : TypeDecl} (hd : d ∈ types) : findLocal? types d.fullName = some d := by
  induction types with
  | nil => simp at hd
  | cons other types ih =>
    rw [List.map_cons, List.nodup_cons] at hn
    rcases List.mem_cons.mp hd with rfl | hd
    · simp [findLocal?]
    · have hne : other.fullName ≠ d.fullName := by
        intro he
        exact hn.1 (he ▸ List.mem_map_of_mem hd)
      have hrest := ih hn.2 hd
      simpa [findLocal?, List.find?_cons, hne] using hrest

theorem locates_methods {p : Program} (hp : p.Distinct) : ∀ m ∈ p.methods, p.Locates m := by
  intro m hm
  obtain ⟨d, hd, hm⟩ := List.mem_flatMap.mp hm
  obtain ⟨k, hk⟩ := List.getElem?_of_mem hm
  simp only [declaredMethods, List.getElem?_map, List.getElem?_zipIdx, Option.map_map,
    Option.map_eq_some_iff] at hk
  obtain ⟨method, hmethod, rfl⟩ := hk
  simp [Locates, instance?, methodsFor?, methodFor?, atPath?, findLocal?_of_mem hp hd, hmethod]

/-- Programs are put together by adding declarations, which keeps their names distinct. -/
theorem distinct_addType {p q : Program} {d : TypeDecl} (hp : p.Distinct)
    (h : p.addType d = .ok q) : q.Distinct := by
  unfold addType at h
  split at h
  · cases h
  · rename_i hnew
    cases h
    have hfresh : d.fullName ∉ p.types.map TypeDecl.fullName := by
      rw [p.indexed, List.findIdx?_eq_none_iff] at hnew
      simpa [List.mem_map] using hnew
    unfold Distinct at hp ⊢
    rw [List.map_append, List.nodup_append]
    refine ⟨hp, by simp, ?_⟩
    intro a ha b hb he
    have hb' : b = d.fullName := by simpa using hb
    exact hfresh (hb' ▸ he ▸ ha)

end ShaderIR.Program
