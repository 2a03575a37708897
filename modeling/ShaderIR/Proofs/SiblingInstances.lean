import ShaderIR.Proofs.GenericScope
import ShaderIR.Proofs.Resolution
import ShaderIR.Proofs.StagedConstruction

/-! Instances of one declared method. Their bodies are the declared body under substitutions that
bind the same names. So where the declaration names the owner of a method that it calls, all its
instances call instances of one declared method, and concrete ones if one of them does. -/

namespace ShaderIR

/-- The substitutions bind the same names, and to types that are generic only together. -/
def Substitution.Alike (s s' : Substitution) : Prop :=
  ∀ n, (s.get? n).map Ty.isGeneric = (s'.get? n).map Ty.isGeneric

namespace Substitution.Alike

variable {s s' : Substitution} (h : s.Alike s')

include h

theorem isGeneric_subst (t : Ty) : (t.subst s).isGeneric = (t.subst s').isGeneric := by
  induction t using Ty.induct with
  | named n args ih =>
    simp only [Ty.subst, Ty.isGeneric, Ty.anyGeneric_eq_any, Ty.substList_eq_map, List.any_map]
    rw [Bool.eq_iff_iff, List.any_eq_true, List.any_eq_true]
    constructor
    · rintro ⟨a, ha, hg⟩
      exact ⟨a, ha, (ih a ha).symm.trans hg⟩
    · rintro ⟨a, ha, hg⟩
      exact ⟨a, ha, (ih a ha).trans hg⟩
  | param n cs =>
    have hn := h n
    cases hs : s.get? n with
    | none =>
      rw [hs, Option.map_none, eq_comm, Option.map_eq_none_iff] at hn
      simp [Ty.subst, hs, hn]
    | some a =>
      rw [hs, Option.map_some, eq_comm, Option.map_eq_some_iff] at hn
      obtain ⟨a', ha', hg⟩ := hn
      simp [Ty.subst, hs, ha', hg]

theorem anyGeneric_substList (ts : List Ty) :
    Ty.anyGeneric (Ty.substList s ts) = Ty.anyGeneric (Ty.substList s' ts) := by
  have hnamed := h.isGeneric_subst (.named "" ts)
  simpa only [Ty.subst, Ty.isGeneric] using hnamed

end Substitution.Alike

/-- The owners of the methods that are called are named, rather than generic parameters. -/
def Method.NamesOwners (m : Method) : Prop :=
  ∀ r, m.Refers r → ∃ name arguments, r.owner = .named name arguments

/-- Mapping the operands of a body maps the references of its calls. -/
theorem Method.refers_map {m m' : Method} {f : Operand → Operand} {g : MethodRef → MethodRef}
    (hbody : m'.body = m.body.map (Instruction.mapOperands f))
    (hf : ∀ o r, f o = .method r ↔ ∃ written, o = .method written ∧ r = g written)
    {r : MethodRef} : m'.Refers r ↔ ∃ written, m.Refers written ∧ r = g written := by
  simp only [Refers, hbody, List.mem_map]
  constructor
  · rintro ⟨_, ⟨i, hi, rfl⟩, hop, hr⟩
    obtain ⟨o, ho, hmapped⟩ : ∃ o, i.operands[0]? = some o ∧ f o = .method r := by simpa using hr
    obtain ⟨written, rfl, hwritten⟩ := (hf o r).mp hmapped
    exact ⟨written, ⟨i, hi, hop, ho⟩, hwritten⟩
  · rintro ⟨written, ⟨i, hi, hop, hr⟩, hwritten⟩
    have hmapped := (hf (.method written) r).mpr ⟨written, rfl, hwritten⟩
    exact ⟨_, ⟨i, hi, rfl⟩, hop, by simp [hr, hmapped]⟩

theorem Method.refers_of_body {m m' : Method} {s : Substitution}
    (h : m'.body = m.body.map (Instruction.subst s)) {r : MethodRef} :
    m'.Refers r ↔ ∃ written, m.Refers written ∧ r = written.subst s := by
  refine refers_map h fun o r => ?_
  cases o <;> simp [Operand.subst, eq_comm]

theorem Method.owner_forOwner (m : Method) (owner : Ty) (s : Substitution) :
    (m.forOwner owner s).owner = owner := by
  unfold forOwner
  split <;> rfl

namespace TypeDecl

variable {d : TypeDecl} {arguments : List Ty} {i : TypeInstance}

/-- A declared method as a method of an instance of the type. -/
def moved (d : TypeDecl) (i : TypeInstance) (m : Method) : Method :=
  if d.isGeneric then m.forOwner i.ty i.substitution else m

theorem moved_of_isGeneric_eq_true (hd : d.isGeneric = true) (m : Method) :
    d.moved i m = m.forOwner i.ty i.substitution :=
  if_pos hd

theorem moved_of_isGeneric_eq_false (hd : d.isGeneric = false) (m : Method) : d.moved i m = m := by
  simp [moved, hd]

theorem isGeneric_moved (m : Method) : (d.moved i m).isGeneric = m.isGeneric := by
  unfold moved
  split
  · exact m.isGeneric_forOwner _ _
  · rfl

/-- A generic method keeps its body and its parameters. -/
theorem parts_moved {m : Method} (hm : m.isGeneric = true) :
    (d.moved i m).body = m.body ∧ (d.moved i m).genericParameters = m.genericParameters := by
  unfold moved
  split
  · rw [Method.forOwner_of_isGeneric_eq_true hm]
    exact ⟨rfl, rfl⟩
  · exact ⟨rfl, rfl⟩

theorem getElem?_methods (h : d.instantiate arguments = .ok i) (k : Nat) :
    i.methods[k]? = (d.methods[k]?).map (d.moved i) := by
  obtain ⟨harity, _, hbound, hmethods⟩ := Program.constructs_of_instantiate h
  have hempty : i.substitution.isEmpty = !d.isGeneric := by
    rw [GenericParam.isEmpty_of_bindAll harity hbound, isGeneric, Bool.not_not]
  cases hd : d.isGeneric with
  | false =>
    have hmoved : d.moved i = id := funext (moved_of_isGeneric_eq_false hd)
    simp [hmethods, hempty, hd, hmoved]
  | true =>
    have hmoved := funext (moved_of_isGeneric_eq_true (i := i) hd)
    simp [hmethods, hempty, hd, hmoved]

/-- What the instances of a declared method bind a name to: whether it is bound at all, and whether
to a generic type. The parameters of the method and of its owner are bound to closed types. -/
def scope? (d : TypeDecl) (m : Method) (n : String) : Option Bool :=
  if n ∈ m.genericParameters.map GenericParam.name then some false
  else if d.isGeneric then
    if n ∈ d.genericParameters.map GenericParam.name then some false else none
  else if m.isGeneric then (m.outer.get? n).map Ty.isGeneric
  else none

theorem scope?_of_isGeneric_eq_false {m : Method} (hd : d.isGeneric = false)
    (hm : m.isGeneric = false) (n : String) : d.scope? m n = none := by
  have hown : m.genericParameters = [] := by simpa [Method.isGeneric] using hm
  simp [scope?, hown, hd, hm]

end TypeDecl

/-- Binding parameters to closed types binds their names and no others. -/
theorem GenericParam.map_isGeneric_get? {ps : List GenericParam} {as : List Ty} {s : Substitution}
    (hlength : as.length = ps.length) (has : ∀ a ∈ as, a.isGeneric = false)
    (hs : bindAll .empty ps as = .ok s) (n : String) :
    (s.get? n).map Ty.isGeneric = if n ∈ ps.map name then some false else none := by
  by_cases hn : n ∈ ps.map name
  · obtain ⟨q, hq, rfl⟩ := List.mem_map.mp hn
    obtain ⟨a, ha, hfree⟩ := closes_of_bindAll hlength has hs q hq
    rw [ha, if_pos hn, Option.map_some, hfree]
  · have hnone : argument? ps as n = none := by
      refine List.lookup_eq_none_iff.mpr fun entry hentry => ?_
      have hname := (List.of_mem_zip (List.mem_reverse.mp hentry)).1
      simpa using fun he : n = entry.1 => hn (he ▸ hname)
    rw [get?_of_bindAll hs, hnone, if_neg hn]
    rfl

namespace TypeDecl

variable {d : TypeDecl} {arguments : List Ty} {i : TypeInstance} {declared : Method}

section

variable (hi : d.instantiate arguments = .ok i)
  (howner : (d.moved i declared).owner.isGeneric = false)

include hi howner

/-- The owner of a concrete method of a generic type has been constructed of closed types. -/
theorem map_isGeneric_get?_substitution (hd : d.isGeneric = true) (n : String) :
    (i.substitution.get? n).map Ty.isGeneric =
      if n ∈ d.genericParameters.map GenericParam.name then some false else none := by
  obtain ⟨harity, hty, hbound, _⟩ := Program.constructs_of_instantiate hi
  rw [moved_of_isGeneric_eq_true hd, Method.owner_forOwner, hty, Ty.isGeneric,
    Ty.anyGeneric_eq_any, List.any_eq_false] at howner
  exact GenericParam.map_isGeneric_get? harity
    (fun a ha => Bool.eq_false_iff.mpr (howner a ha)) hbound n

theorem exists_scope (hgeneric : declared.isGeneric = false) :
    ∃ s, (d.moved i declared).body = declared.body.map (Instruction.subst s) ∧
      ∀ n, (s.get? n).map Ty.isGeneric = d.scope? declared n := by
  have hown : declared.genericParameters = [] := by simpa [Method.isGeneric] using hgeneric
  cases hd : d.isGeneric with
  | false =>
    exact ⟨.empty, by simp [moved_of_isGeneric_eq_false hd],
      fun n => (scope?_of_isGeneric_eq_false hd hgeneric n).symm⟩
  | true =>
    have hscope := map_isGeneric_get?_substitution hi howner hd
    refine ⟨i.substitution, ?_, fun n => ?_⟩
    · rw [moved_of_isGeneric_eq_true hd, Method.forOwner_of_isGeneric_eq_false hgeneric]
      rfl
    · simp [scope?, hown, hd, hscope]

/-- Instantiating a generic method binds its own parameters; what its owner has bound is taken where
they do not shadow it. -/
theorem scope_of_instance (hgeneric : declared.isGeneric = true) {as : List Ty} {u : Substitution}
    (has : ∀ a ∈ as, a.isGeneric = false)
    (hlength : as.length = (d.moved i declared).genericParameters.length)
    (hu : GenericParam.bindAll .empty (d.moved i declared).genericParameters as = .ok u)
    (n : String) :
    ((u.mergeOuter (d.moved i declared).outer).get? n).map Ty.isGeneric =
      d.scope? declared n := by
  have hbound := GenericParam.map_isGeneric_get? hlength has hu n
  rw [(parts_moved hgeneric).2] at hbound
  rw [Substitution.get?_mergeOuter, Option.map_or, hbound, scope?]
  by_cases hn : n ∈ declared.genericParameters.map GenericParam.name
  · rw [if_pos hn, if_pos hn, Option.some_or]
  rw [if_neg hn, if_neg hn, Option.none_or]
  cases hd : d.isGeneric with
  | false => simp [moved_of_isGeneric_eq_false hd, hgeneric]
  | true =>
    rw [moved_of_isGeneric_eq_true hd, Method.forOwner_of_isGeneric_eq_true hgeneric,
      Substitution.get?_without, if_neg hn, if_pos rfl]
    exact map_isGeneric_get?_substitution hi howner hd n

end

end TypeDecl

namespace Program

variable {p : Program}

/-- References that differ only in substitutions that are alike mean one declared method, with and
without parameters together. -/
theorem locate_alike {s s' : Substitution} (hs : s.Alike s') {r : MethodRef}
    (hr : ∃ name arguments, r.owner = .named name arguments) {m m' : LocatedMethod}
    (h : p.locate (r.subst s) = .ok m) (h' : p.locate (r.subst s') = .ok m') :
    m'.id.definition = m.id.definition ∧ m'.isConcrete = m.isConcrete := by
  obtain ⟨name, arguments, howner⟩ := hr
  obtain ⟨_, _, path, d, i, ⟨hnamed, hfind, hi⟩, hmethod, _, hid⟩ := locate_eq_ok_iff.mp h
  obtain ⟨_, _, path', d', i', ⟨hnamed', hfind', hi'⟩, hmethod', _, hid'⟩ :=
    locate_eq_ok_iff.mp h'
  rw [MethodRef.subst, howner, Ty.subst] at hnamed hnamed'
  obtain ⟨rfl, rfl⟩ := Ty.named.inj hnamed
  obtain ⟨rfl, rfl⟩ := Ty.named.inj hnamed'
  rw [hfind] at hfind'
  obtain ⟨rfl, rfl⟩ := Prod.mk.inj (Option.some.inj hfind')
  refine ⟨by simp [MethodId.definition, hid, hid', MethodRef.subst], ?_⟩
  rw [TypeDecl.getElem?_methods hi] at hmethod
  rw [TypeDecl.getElem?_methods hi'] at hmethod'
  obtain ⟨declared, hdeclared, hm⟩ := Option.map_eq_some_iff.mp hmethod
  obtain ⟨declared', hdeclared', hm'⟩ := Option.map_eq_some_iff.mp hmethod'
  obtain rfl : declared = declared' := Option.some.inj (hdeclared.symm.trans hdeclared')
  have howner : m'.method.owner.isGeneric = m.method.owner.isGeneric := by
    rw [← hm, ← hm', TypeDecl.moved, TypeDecl.moved]
    split
    · rw [Method.owner_forOwner, Method.owner_forOwner, (constructs_of_instantiate hi).ty,
        (constructs_of_instantiate hi').ty]
      exact (hs.isGeneric_subst (.named d.fullName arguments)).symm
    · rfl
  rw [LocatedMethod.isConcrete, LocatedMethod.isConcrete, Method.isConcrete, Method.isConcrete,
    howner, ← hm, ← hm', TypeDecl.isGeneric_moved, TypeDecl.isGeneric_moved]

/-- So they resolve to instances of one declared method, and to concrete ones together. -/
theorem resolve_alike {s s' : Substitution} (hs : s.Alike s') {r : MethodRef}
    (hr : ∃ name arguments, r.owner = .named name arguments) {target target' : MethodInstance}
    (h : p.resolve (r.subst s) = .ok target) (h' : p.resolve (r.subst s') = .ok target')
    {m : LocatedMethod} (hm : target.concrete? = some m) :
    ∃ m', target'.concrete? = some m' ∧ m'.id.definition = m.id.definition := by
  obtain ⟨found, hfound, hcases⟩ := resolve_eq_ok_iff.mp h
  obtain ⟨found', hfound', hcases'⟩ := resolve_eq_ok_iff.mp h'
  obtain ⟨hdefinition, hsame⟩ := locate_alike hs hr hfound hfound'
  have hempty : (r.subst s).typeArguments = [] ↔ (r.subst s').typeArguments = [] := by
    simp [MethodRef.subst, Ty.substList_eq_map]
  rcases hcases with ⟨hnone, rfl⟩ | ⟨hsome, he⟩
  · obtain ⟨rfl, _⟩ : target' = .concrete found' ∧ _ :=
      (hcases'.resolve_right fun h => h.1 (hempty.mp hnone)).symm
    obtain ⟨he, hconcrete⟩ := eq_concrete_of_concrete? hm
    cases he
    rw [hconcrete] at hsame
    exact ⟨found', by simp [MethodInstance.concrete?, hsame], hdefinition⟩
  · obtain ⟨_, he'⟩ := hcases'.resolve_left fun h => hsome (hempty.mpr h.1)
    obtain ⟨_, _, hc⟩ := LocatedMethod.concrete?_of_instantiate he
    obtain ⟨_, _, hc'⟩ := LocatedMethod.concrete?_of_instantiate he'
    rw [hc, Option.ite_none_left_eq_some] at hm
    obtain ⟨hany, hm⟩ := hm
    cases hm
    have hany' : Ty.anyGeneric (r.subst s').typeArguments = Ty.anyGeneric (r.subst s).typeArguments :=
      (hs.anyGeneric_substList r.typeArguments).symm
    rw [hany', if_neg hany] at hc'
    exact ⟨_, hc', hdefinition⟩

/-- The declared method that an instance comes from, and the substitution that makes the body of
the instance out of the declared one. -/
structure Origin (p : Program) (m : LocatedMethod) (d : TypeDecl) (declared : Method)
    (s : Substitution) : Prop where
  stands : ∃ home, p.atPath? m.id.site.path = some home ∧
    findLocal? home.types m.id.site.name = some d
  position : d.methods[m.id.index]? = some declared
  body : m.method.body = declared.body.map (Instruction.subst s)
  scope : ∀ n, (s.get? n).map Ty.isGeneric = d.scope? declared n

theorem exists_origin_of_resolve {r : MethodRef} {target : MethodInstance} {m : LocatedMethod}
    (h : p.resolve r = .ok target) (hm : target.concrete? = some m) :
    ∃ d declared s, p.Origin m d declared s := by
  obtain ⟨found, hfound, hcases⟩ := resolve_eq_ok_iff.mp h
  obtain ⟨name, arguments, path, d, i, ⟨_, hfind, hi⟩, hmethod, _, hid⟩ :=
    locate_eq_ok_iff.mp hfound
  obtain ⟨home, hhome, hd⟩ := atPath?_of_find? p hfind
  have hname := fullName_of_findLocal? hd
  rw [TypeDecl.getElem?_methods hi] at hmethod
  obtain ⟨declared, hdeclared, hmoved⟩ := Option.map_eq_some_iff.mp hmethod
  have hstands : ∃ home, p.atPath? found.id.site.path = some home ∧
      findLocal? home.types found.id.site.name = some d := by
    exact ⟨home, by rw [hid]; exact hhome, by rw [hid]; exact hname.symm ▸ hd⟩
  have hposition : d.methods[found.id.index]? = some declared := by
    rw [hid]
    exact hdeclared
  rcases hcases with ⟨_, rfl⟩ | ⟨_, he⟩
  · obtain ⟨he, hconcrete⟩ := eq_concrete_of_concrete? hm
    cases he
    obtain ⟨hgeneric, howner⟩ : m.method.isGeneric = false ∧ m.method.owner.isGeneric = false := by
      simpa [LocatedMethod.isConcrete, Method.isConcrete] using hconcrete
    rw [← hmoved] at howner
    rw [← hmoved, TypeDecl.isGeneric_moved] at hgeneric
    obtain ⟨s, hbody, hscope⟩ := TypeDecl.exists_scope hi howner hgeneric
    exact ⟨d, declared, s, hstands, hposition, hmoved ▸ hbody, hscope⟩
  · obtain ⟨howner, hgeneric, hlength, _⟩ := LocatedMethod.instantiate_eq_ok_iff.mp he
    obtain ⟨u, hu, hc⟩ := LocatedMethod.concrete?_of_instantiate he
    rw [hc, Option.ite_none_left_eq_some] at hm
    obtain ⟨hany, hm⟩ := hm
    cases hm
    rw [← hmoved] at howner hlength hu
    rw [← hmoved, TypeDecl.isGeneric_moved] at hgeneric
    rw [Ty.anyGeneric_eq_any, Bool.not_eq_true, List.any_eq_false] at hany
    have hbody := (TypeDecl.parts_moved (d := d) (i := i) hgeneric).1
    have hscope := TypeDecl.scope_of_instance hi howner hgeneric
      (fun a ha => Bool.eq_false_iff.mpr (hany a ha)) hlength hu
    rw [hmoved] at hbody hscope
    exact ⟨d, declared, _, hstands, hposition, congrArg _ hbody, hscope⟩

theorem Reached.exists_origin (hp : p.Distinct) (ho : ∀ d ∈ p.types, d.Owned) {m : LocatedMethod}
    (h : p.Reached m) : ∃ d declared s, p.Origin m d declared s := by
  have hidentified := h.identified hp ho
  cases h with
  | call _ hc =>
    obtain ⟨_, _, _, hr, ht⟩ := calls_iff.mp hc
    exact exists_origin_of_resolve hr ht
  | declared hm hc =>
    obtain ⟨d, hd, hm⟩ := List.mem_flatMap.mp hm
    obtain ⟨⟨method, index⟩, hmem, rfl⟩ := List.mem_map.mp hm
    obtain ⟨home, d', hhome, hd', hnone, _⟩ := hidentified
    cases hhome
    obtain rfl : d = d' := Option.some.inj ((findLocal?_of_mem hp hd).symm.trans hd')
    have hgeneric : d.isGeneric = false := by
      by_contra hg
      simp [Bool.eq_true_of_not_eq_false hg] at hnone
    have hmethod : method.isGeneric = false := by
      simp only [LocatedMethod.isConcrete, Method.isConcrete, Bool.and_eq_true] at hc
      simpa using hc.1
    refine ⟨d, method, .empty, ⟨p, rfl, hd'⟩, ?_, by simp, fun n => ?_⟩
    · exact List.mk_mem_zipIdx_iff_getElem?.mp hmem
    · exact (TypeDecl.scope?_of_isGeneric_eq_false hgeneric hmethod n).symm

/-- Instances of one declared method differ in nothing but what they bind its parameters to. -/
theorem Origin.alike {m m' : LocatedMethod} {d d' : TypeDecl} {declared declared' : Method}
    {s s' : Substitution} (h : p.Origin m d declared s) (h' : p.Origin m' d' declared' s')
    (he : m.id.definition = m'.id.definition) : declared = declared' ∧ s.Alike s' := by
  obtain ⟨hsite, hindex⟩ := Prod.mk.inj he
  obtain ⟨home, hhome, hd⟩ := h.stands
  obtain ⟨home', hhome', hd'⟩ := h'.stands
  rw [hsite, hhome'] at hhome
  cases hhome
  rw [hsite, hd'] at hd
  cases hd
  have hposition := h.position
  rw [hindex, h'.position] at hposition
  cases hposition
  exact ⟨rfl, fun n => (h.scope n).trans (h'.scope n).symm⟩

/-- If an instance of a declared method calls an instance of another one, then so do its siblings,
provided that the owner of what is called is named. -/
theorem Origin.exists_call {m m' callee : LocatedMethod} {d d' : TypeDecl}
    {declared declared' : Method} {s s' : Substitution} (h : p.Origin m d declared s)
    (h' : p.Origin m' d' declared' s') (he : m.id.definition = m'.id.definition)
    (hnames : declared.NamesOwners) (hcall : p.Calls m callee)
    (hresolved : ∀ r, m'.method.Refers r → ∃ target, p.resolve r = .ok target) :
    ∃ callee', p.Calls m' callee' ∧ callee'.id.definition = callee.id.definition := by
  obtain ⟨rfl, hs⟩ := h.alike h' he
  obtain ⟨r, target, hr, htarget, hcallee⟩ := calls_iff.mp hcall
  obtain ⟨written, hwritten, rfl⟩ := (Method.refers_of_body h.body).mp hr
  have hr' := (Method.refers_of_body h'.body).mpr ⟨written, hwritten, rfl⟩
  obtain ⟨target', htarget'⟩ := hresolved _ hr'
  obtain ⟨callee', hcallee', hsame⟩ :=
    resolve_alike hs (hnames written hwritten) htarget htarget' hcallee
  exact ⟨callee', calls_iff.mpr ⟨_, target', hr', htarget', hcallee'⟩, hsame⟩

end Program

end ShaderIR
