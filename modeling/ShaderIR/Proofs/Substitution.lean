import ShaderIR.Declaration

/-! Generic parameters of types and what substitutions make of them. Binding the parameters of
a declaration gives each name the last argument of that name, and two substitutions in a row
agree with a third on a type as soon as they agree on the parameters that occur in it. -/

namespace ShaderIR

namespace Ty

/-- Induction on a type reference; constraint sets are not entered. -/
theorem induct {motive : Ty → Prop}
    (named : ∀ name arguments, (∀ a ∈ arguments, motive a) → motive (.named name arguments))
    (param : ∀ name constraints, motive (.param name constraints)) (t : Ty) : motive t :=
  @Ty.rec motive (fun ts => ∀ a ∈ ts, motive a) (fun _ => True) named
    (fun name constraints _ => param name constraints) (by simp)
    (fun _ _ ha has => List.forall_mem_cons.mpr ⟨ha, has⟩) trivial (fun _ _ _ _ => trivial) t

theorem substList_eq_map (s : Substitution) (ts : List Ty) : substList s ts = ts.map (subst s) := by
  induction ts with
  | nil => rfl
  | cons t ts ih => rw [substList, ih, List.map_cons]

theorem anyGeneric_eq_any (ts : List Ty) : anyGeneric ts = ts.any isGeneric := by
  induction ts with
  | nil => rfl
  | cons t ts ih => rw [anyGeneric, ih, List.any_cons]

mutual

/-- The generic parameters that occur in a type, constraint sets not counted. -/
def parameters : Ty → List GenericParam
  | .named _ args => parametersList args
  | .param n cs => [⟨n, cs⟩]

def parametersList : List Ty → List GenericParam
  | [] => []
  | t :: ts => t.parameters ++ parametersList ts

end

theorem parametersList_eq_flatMap (ts : List Ty) : parametersList ts = ts.flatMap parameters := by
  induction ts with
  | nil => rfl
  | cons t ts ih => rw [parametersList, ih, List.flatMap_cons]

theorem mem_parameters_named {q : GenericParam} {n : String} {args : List Ty} :
    q ∈ (named n args).parameters ↔ ∃ a ∈ args, q ∈ a.parameters := by
  rw [parameters, parametersList_eq_flatMap, List.mem_flatMap]

theorem isGeneric_eq_false_iff {t : Ty} : t.isGeneric = false ↔ t.parameters = [] := by
  induction t using induct with
  | named n args ih =>
    rw [isGeneric, anyGeneric_eq_any, List.any_eq_false, parameters, parametersList_eq_flatMap,
      List.flatMap_eq_nil_iff]
    constructor
    · intro h a ha
      exact (ih a ha).mp (Bool.eq_false_iff.mpr (h a ha))
    · intro h a ha
      exact Bool.eq_false_iff.mp ((ih a ha).mpr (h a ha))
  | param n cs => simp [isGeneric, parameters]

/-- Two substitutions in a row agree with a third on every type on whose parameters they
agree. -/
theorem subst_subst {s u r : Substitution} {t : Ty}
    (h : ∀ q ∈ t.parameters, (q.ty.subst s).subst u = q.ty.subst r) :
    (t.subst s).subst u = t.subst r := by
  induction t using induct with
  | named n args ih =>
    simp only [subst, substList_eq_map, List.map_map]
    congr 1
    apply List.map_congr_left
    intro a ha
    exact ih a ha fun q hq => h q (mem_parameters_named.mpr ⟨a, ha, hq⟩)
  | param n cs => exact h ⟨n, cs⟩ (by simp [parameters])

@[simp]
theorem subst_empty (t : Ty) : t.subst .empty = t := by
  induction t using induct with
  | named n args ih =>
    rw [subst, substList_eq_map]
    exact congrArg (named n) ((List.map_congr_left ih).trans (List.map_id args))
  | param n cs => rfl

/-- A substitution that binds none of its parameters leaves a type as it is. -/
theorem subst_eq_self {s : Substitution} {t : Ty}
    (h : ∀ q ∈ t.parameters, q.ty.subst s = q.ty) : t.subst s = t := by
  have hs : (t.subst .empty).subst s = t.subst .empty := subst_subst fun q hq => by
    simpa using h q hq
  simpa using hs

/-- No parameter is left just when every parameter of the type is bound to a type without
parameters. -/
theorem isGeneric_subst_eq_false_iff {s : Substitution} {t : Ty} :
    (t.subst s).isGeneric = false ↔
      ∀ q ∈ t.parameters, ∃ a, s.get? q.name = some a ∧ a.isGeneric = false := by
  induction t using induct with
  | named n args ih =>
    rw [subst, substList_eq_map, isGeneric, anyGeneric_eq_any, List.any_map, List.any_eq_false]
    constructor
    · intro h q hq
      obtain ⟨a, ha, hqa⟩ := mem_parameters_named.mp hq
      exact (ih a ha).mp (Bool.eq_false_iff.mpr (h a ha)) q hqa
    · intro h a ha
      have hfree := (ih a ha).mpr fun q hq => h q (mem_parameters_named.mpr ⟨a, ha, hq⟩)
      simpa using hfree
  | param n cs =>
    -- a parameter without a binding stays
    cases hget : s.get? n <;> simp [subst, parameters, hget, isGeneric]

end Ty

namespace Substitution

theorem lookup_cons_eq_ite (b : String × Ty) (bs : List (String × Ty)) (n : String) :
    (b :: bs).lookup n = if n = b.1 then some b.2 else bs.lookup n := by
  obtain ⟨m, t⟩ := b
  by_cases h : n = m
  · simp [h]
  · simp only [List.lookup_cons, beq_eq_false_iff_ne.mpr h, if_neg h]

theorem lookup_map_snd (f : Ty → Ty) (bs : List (String × Ty)) (n : String) :
    (bs.map fun b => (b.1, f b.2)).lookup n = (bs.lookup n).map f := by
  induction bs with
  | nil => rfl
  | cons b bs ih =>
    rw [List.map_cons, lookup_cons_eq_ite, lookup_cons_eq_ite, ih]
    by_cases h : n = b.1 <;> simp [h]

theorem lookup_bindIn (name : String) (ty : Ty) (bs : List (String × Ty)) (n : String) :
    (bindIn name ty bs).lookup n = if n = name then some ty else bs.lookup n := by
  induction bs with
  | nil => simp [bindIn, lookup_cons_eq_ite]
  | cons b rest ih =>
    rw [bindIn]
    by_cases hb : b.1 = name
    · rw [if_pos hb, lookup_cons_eq_ite, lookup_cons_eq_ite, hb]
      by_cases h : n = name <;> simp [h]
    · rw [if_neg hb, lookup_cons_eq_ite, lookup_cons_eq_ite, ih]
      by_cases h : n = b.1
      · simp [h, hb]
      · simp [h]

theorem get?_bind (s : Substitution) (name : String) (ty : Ty) (n : String) :
    (s.bind name ty).get? n = if n = name then some ty else s.get? n :=
  lookup_bindIn name ty s.bindings n

/-- The bindings of the inner substitution come first. -/
theorem get?_mergeOuter (s outer : Substitution) (n : String) :
    (s.mergeOuter outer).get? n = (s.get? n).or (outer.get? n) := by
  obtain ⟨bs⟩ := outer
  rw [mergeOuter]
  induction bs generalizing s with
  | nil => simp [get?]
  | cons b bs ih =>
    have hcons : get? ⟨b :: bs⟩ n = if n = b.1 then some b.2 else get? ⟨bs⟩ n :=
      lookup_cons_eq_ite b bs n
    rw [List.foldl_cons, ih, hcons]
    cases hb : s.get? b.1 with
    | some a => by_cases h : n = b.1 <;> simp [h, hb]
    | none =>
      have happend : get? ⟨s.bindings ++ [b]⟩ n = (s.get? n).or ([b].lookup n) :=
        List.lookup_append
      simp only [Option.isSome_none, Bool.false_eq_true, if_false, happend, lookup_cons_eq_ite]
      by_cases h : n = b.1 <;> simp [h, hb]

theorem get?_without (s : Substitution) (ps : List GenericParam) (n : String) :
    (s.without ps).get? n = if n ∈ ps.map GenericParam.name then none else s.get? n := by
  obtain ⟨bs⟩ := s
  induction bs with
  | nil => simp [without, get?]
  | cons b bs ih =>
    simp only [without, get?, List.filter_cons] at ih ⊢
    by_cases hb : b.1 ∈ ps.map GenericParam.name
    · have hall : (ps.all fun p => p.name != b.1) = false := by
        obtain ⟨q, hq, hname⟩ := List.mem_map.mp hb
        exact List.all_eq_false.mpr ⟨q, hq, by simp [hname]⟩
      rw [hall, if_neg (by simp), ih, lookup_cons_eq_ite]
      by_cases h : n = b.1 <;> simp [h, hb]
    · have hall : (ps.all fun p => p.name != b.1) = true := by
        refine List.all_eq_true.mpr fun q hq => ?_
        have hne : q.name ≠ b.1 := fun h => hb (List.mem_map.mpr ⟨q, hq, h⟩)
        simpa using hne
      rw [hall, if_pos rfl, lookup_cons_eq_ite, lookup_cons_eq_ite, ih]
      by_cases h : n = b.1 <;> simp [h, hb]

end Substitution

namespace GenericParam

variable {s s' u : Substitution} {ps : List GenericParam} {as : List Ty}

/-- The argument given for a parameter name: of several parameters of one name, the last. -/
def argument? (ps : List GenericParam) (as : List Ty) (n : String) : Option Ty :=
  ((ps.map name).zip as).reverse.lookup n

theorem get?_of_bindAll (h : bindAll s ps as = .ok s') (n : String) :
    s'.get? n = (argument? ps as n).or (s.get? n) := by
  induction ps generalizing s as with
  | nil =>
    cases h
    simp [argument?]
  | cons p ps ih =>
    cases as with
    | nil =>
      cases h
      simp [argument?]
    | cons a as =>
      rw [bindAll] at h
      split at h
      · have hrest := ih h
        rw [hrest, Substitution.get?_bind, argument?, argument?, List.map_cons, List.zip_cons_cons,
          List.reverse_cons, List.lookup_append, Option.or_assoc]
        congr 1
        by_cases hn : n = p.name
        · simp [hn]
        · simp [hn, Substitution.lookup_cons_eq_ite]
      · cases h

theorem mem_of_argument? {n : String} {a : Ty} (h : argument? ps as n = some a) : a ∈ as := by
  obtain ⟨before, after, hlist, _⟩ := List.lookup_eq_some_iff.mp h
  have hmem : (n, a) ∈ ((ps.map name).zip as).reverse := by simp [hlist]
  exact (List.of_mem_zip (List.mem_reverse.mp hmem)).2

/-- With as many arguments as parameters, every parameter has one. -/
theorem exists_argument? (hlength : as.length = ps.length) {q : GenericParam} (hq : q ∈ ps) :
    ∃ a, argument? ps as q.name = some a := by
  have hname : q.name ∈ (((ps.map name).zip as).reverse).map Prod.fst := by
    rw [List.map_reverse, List.mem_reverse, List.map_fst_zip (by simp [hlength])]
    exact List.mem_map_of_mem hq
  obtain ⟨⟨_, b⟩, hb, rfl⟩ := List.mem_map.mp hname
  exact Option.isSome_iff_exists.mp (List.lookup_isSome_iff.mpr ⟨_, hb, by simp⟩)

theorem argument?_map (ps : List GenericParam) (as : List Ty) (f : Ty → Ty) (n : String) :
    argument? ps (as.map f) n = (argument? ps as n).map f := by
  rw [argument?, argument?, List.zip_map_right, ← List.map_reverse]
  exact Substitution.lookup_map_snd f _ n

/-- Substituting in the arguments before they are bound, or in the types they are bound to, is
the same on every parameter that has an argument. -/
theorem subst_subst_of_bindAll {r : Substitution} (hlength : as.length = ps.length)
    (hs : bindAll .empty ps as = .ok s) (hr : bindAll .empty ps (as.map (Ty.subst u)) = .ok r)
    {q : GenericParam} (hq : q.name ∈ ps.map name) : (q.ty.subst s).subst u = q.ty.subst r := by
  obtain ⟨p, hp, hname⟩ := List.mem_map.mp hq
  obtain ⟨a, ha⟩ := exists_argument? hlength hp
  have hget : s.get? q.name = some a := by
    rw [get?_of_bindAll hs, ← hname, ha, Option.some_or]
  have hget' : r.get? q.name = some (a.subst u) := by
    rw [get?_of_bindAll hr, argument?_map, ← hname, ha, Option.map_some, Option.some_or]
  simp [ty, Ty.subst, hget, hget']

theorem isEmpty_of_bindAll (hlength : as.length = ps.length)
    (h : bindAll .empty ps as = .ok s) : s.isEmpty = ps.isEmpty := by
  cases ps with
  | nil =>
    cases h
    rfl
  | cons q ps =>
    obtain ⟨a, ha⟩ := exists_argument? hlength (List.mem_cons_self (a := q))
    have hget : s.get? q.name = some a := by rw [get?_of_bindAll h, ha, Option.some_or]
    obtain ⟨bs⟩ := s
    cases bs with
    | nil => simp [Substitution.get?] at hget
    | cons b bs => rfl

end GenericParam

/-- The types written in an attribute. -/
def Attribute.types : Attribute → List Ty
  | .custom _ types => types
  | _ => []

/-- The types written in an operand. -/
def Operand.types : Operand → List Ty
  | .type ty => [ty]
  | .method ref => ref.owner :: ref.typeArguments
  | _ => []

def Instruction.types (i : Instruction) : List Ty :=
  i.operands.flatMap Operand.types

/-- The types written in the signature, the attributes and the body of a method. -/
def Method.types (m : Method) : List Ty :=
  m.returnType.toList ++ m.parameterTypes ++ m.attributes.flatMap Attribute.types ++
    m.body.flatMap Instruction.types

theorem Attribute.types_subst (s : Substitution) (a : Attribute) :
    (a.subst s).types = a.types.map (Ty.subst s) := by
  cases a <;> simp [subst, types, Ty.substList_eq_map]

theorem Instruction.types_subst (s : Substitution) (i : Instruction) :
    (i.subst s).types = i.types.map (Ty.subst s) := by
  have hoperand : ∀ o : Operand, (o.subst s).types = o.types.map (Ty.subst s) := by
    intro o
    cases o <;> simp [Operand.subst, Operand.types, MethodRef.subst, Ty.substList_eq_map]
  simp [subst, types, List.flatMap_map, List.map_flatMap, hoperand]

namespace Method

variable {m : Method}

theorem types_substituted (m : Method) (owner : Ty) (s : Substitution) :
    (m.substituted owner s).types = m.types.map (Ty.subst s) := by
  simp [substituted, types, Ty.substList_eq_map, List.flatMap_map, List.map_flatMap,
    Attribute.types_subst, Instruction.types_subst, Option.toList_map]

theorem forOwner_of_isGeneric_eq_true (h : m.isGeneric = true) (owner : Ty) (s : Substitution) :
    m.forOwner owner s = { m with owner, outer := s.without m.genericParameters } :=
  if_pos h

theorem forOwner_of_isGeneric_eq_false (h : m.isGeneric = false) (owner : Ty) (s : Substitution) :
    m.forOwner owner s = m.substituted owner s := by
  simp [forOwner, h]

theorem name_forOwner (m : Method) (owner : Ty) (s : Substitution) :
    (m.forOwner owner s).name = m.name := by
  unfold forOwner
  split <;> rfl

theorem isGeneric_forOwner (m : Method) (owner : Ty) (s : Substitution) :
    (m.forOwner owner s).isGeneric = m.isGeneric := by
  cases h : m.isGeneric with
  | true =>
    rw [forOwner_of_isGeneric_eq_true h]
    exact h
  | false =>
    rw [forOwner_of_isGeneric_eq_false h]
    rfl

end Method

end ShaderIR
