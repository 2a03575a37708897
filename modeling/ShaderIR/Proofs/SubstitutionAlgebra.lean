import ShaderIR.Proofs.StagedConstruction

/-! The algebra of substitutions. Two in a row are one that binds what the first binds, with the
second applied, and what else the second binds; it replaces the two in types, attributes, method
references and instructions. -/

namespace ShaderIR

namespace Substitution

/-- One substitution for two in a row. -/
def andThen (s u : Substitution) : Substitution :=
  mergeOuter ⟨s.bindings.map fun b => (b.1, b.2.subst u)⟩ u

variable (s u : Substitution)

theorem get?_andThen (n : String) :
    (s.andThen u).get? n = ((s.get? n).map (Ty.subst u)).or (u.get? n) := by
  rw [andThen, get?_mergeOuter]
  exact congrArg (·.or (u.get? n)) (lookup_map_snd (Ty.subst u) s.bindings n)

theorem map_bindIn (f : Ty → Ty) (name : String) (ty : Ty) (bs : List (String × Ty)) :
    (bindIn name ty bs).map (fun b => (b.1, f b.2)) =
      bindIn name (f ty) (bs.map fun b => (b.1, f b.2)) := by
  induction bs with
  | nil => rfl
  | cons b bs ih =>
    rw [bindIn, List.map_cons, bindIn]
    by_cases hb : b.1 = name
    · rw [if_pos hb, if_pos hb, List.map_cons]
    · rw [if_neg hb, if_neg hb, List.map_cons, ih]

/-- What is bound one name after another can be substituted in before it is bound. -/
theorem map_ofList (f : Ty → Ty) (bs : List (String × Ty)) :
    (ofList bs).bindings.map (fun b => (b.1, f b.2)) =
      (ofList (bs.map fun b => (b.1, f b.2))).bindings := by
  have hfold : ∀ s r : Substitution, s.bindings.map (fun b => (b.1, f b.2)) = r.bindings →
      (bs.foldl (fun s b => s.bind b.1 b.2) s).bindings.map (fun b => (b.1, f b.2)) =
        ((bs.map fun b => (b.1, f b.2)).foldl (fun r b => r.bind b.1 b.2) r).bindings := by
    induction bs with
    | nil => exact fun s r h => h
    | cons b bs ih =>
      intro s r h
      refine ih (s.bind b.1 b.2) (r.bind b.1 (f b.2)) ?_
      rw [bind, bind, map_bindIn, h]
  exact hfold empty empty rfl

theorem andThen_ofList (bs : List (String × Ty)) :
    (ofList bs).andThen u = (ofList (bs.map fun b => (b.1, b.2.subst u))).mergeOuter u := by
  rw [andThen, map_ofList]

end Substitution

section

variable (s u : Substitution)

theorem Ty.subst_andThen (t : Ty) : t.subst (s.andThen u) = (t.subst s).subst u := by
  refine (Ty.subst_subst fun q _ => ?_).symm
  rw [GenericParam.ty, Ty.subst, Ty.subst, Substitution.get?_andThen]
  cases hget : s.get? q.name with
  | some a => rfl
  | none => rfl

theorem Attribute.subst_andThen (a : Attribute) :
    a.subst (s.andThen u) = (a.subst s).subst u :=
  (Attribute.subst_subst fun t _ => (t.subst_andThen s u).symm).symm

theorem MethodRef.subst_andThen (r : MethodRef) :
    r.subst (s.andThen u) = (r.subst s).subst u :=
  (MethodRef.subst_subst fun t _ => (t.subst_andThen s u).symm).symm

theorem Instruction.subst_andThen (i : Instruction) :
    i.subst (s.andThen u) = (i.subst s).subst u :=
  (Instruction.subst_subst fun t _ => (t.subst_andThen s u).symm).symm

end

namespace Ty

theorem subst_of_isGeneric_eq_false {t : Ty} (h : t.isGeneric = false) (s : Substitution) :
    t.subst s = t :=
  subst_eq_self fun q hq => by simp [isGeneric_eq_false_iff.mp h] at hq

mutual

/-- Substitution that returns a type without parameters as it is, without going through it. -/
def substPruned (s : Substitution) : Ty → Ty
  | .named n args =>
    if (named n args).isGeneric then .named n (substPrunedList s args) else .named n args
  | .param n cs => (s.get? n).getD (.param n cs)

def substPrunedList (s : Substitution) : List Ty → List Ty
  | [] => []
  | t :: ts => t.substPruned s :: substPrunedList s ts

end

theorem substPrunedList_eq_map (s : Substitution) (ts : List Ty) :
    substPrunedList s ts = ts.map (substPruned s) := by
  induction ts with
  | nil => rfl
  | cons t ts ih => rw [substPrunedList, ih, List.map_cons]

theorem substPruned_eq_subst (s : Substitution) (t : Ty) : t.substPruned s = t.subst s := by
  induction t using induct with
  | named n args ih =>
    rw [substPruned]
    by_cases h : (named n args).isGeneric = true
    · rw [if_pos h, substPrunedList_eq_map, List.map_congr_left ih, subst, substList_eq_map]
    · rw [if_neg h, subst_of_isGeneric_eq_false (Bool.eq_false_iff.mpr h)]
  | param n cs => rfl

end Ty

namespace Substitution

/-- Two substitutions in a row are one, in types, attributes, method references and instructions. It
binds what the first binds, with the second applied, and merges in what else the second binds; if
the first was made by binding names, so is it. Types without parameters stay, so that returning them
at once changes nothing, and no parameter is left in a type just when each of its names is bound to
a type without parameters. -/
theorem andThen_composes (s u : Substitution) :
    (∀ n, (s.andThen u).get? n = ((s.get? n).map (Ty.subst u)).or (u.get? n)) ∧
    (∀ bs, (ofList bs).andThen u =
      (ofList (bs.map fun b => (b.1, b.2.subst u))).mergeOuter u) ∧
    (∀ t : Ty, (t.subst s).subst u = t.subst (s.andThen u)) ∧
    (∀ a : Attribute, (a.subst s).subst u = a.subst (s.andThen u)) ∧
    (∀ r : MethodRef, (r.subst s).subst u = r.subst (s.andThen u)) ∧
    (∀ i : Instruction, (i.subst s).subst u = i.subst (s.andThen u)) ∧
    ∀ t : Ty, (t.isGeneric = false → t.subst s = t) ∧ t.substPruned s = t.subst s ∧
      ((t.subst s).isGeneric = false ↔
        ∀ n ∈ t.parameters.map GenericParam.name, ∃ a, s.get? n = some a ∧ a.isGeneric = false) := by
  refine ⟨get?_andThen s u, andThen_ofList u, fun t => (t.subst_andThen s u).symm,
    fun a => (a.subst_andThen s u).symm, fun r => (r.subst_andThen s u).symm,
    fun i => (i.subst_andThen s u).symm, fun t => ⟨fun h => ?_, ?_, ?_⟩⟩
  · exact Ty.subst_of_isGeneric_eq_false h s
  · exact Ty.substPruned_eq_subst s t
  · rw [Ty.isGeneric_subst_eq_false_iff, List.forall_mem_map]

/-- Both bind `T`, and the first binds it to a type that mentions what the second binds. The set of
the parameter `K` is left alone. -/
theorem andThen_composes_crossed :
    let int : Ty := .named "Int" []
    let box : Ty := .named "Box" [int]
    let listed : Ty := .param "K" [[.param "T" []]]
    let s : Substitution := .ofList [("T", .named "Box" [.param "U" []])]
    let u : Substitution := .ofList [("T", .named "Bool" []), ("U", int)]
    (s.andThen u).bindings = [("T", box), ("U", int)] ∧
    ((Ty.named "Pair" [.param "T" [], listed]).subst s).subst u = .named "Pair" [box, listed] ∧
    ((Attribute.custom "Holds" [.param "U" [], .param "T" []]).subst s).subst u =
      .custom "Holds" [int, box] ∧
    ((.mk .call [.method ⟨.param "T" [], 0, "open", [.param "U" []]⟩, .void] : Instruction).subst
      s).subst u = .mk .call [.method ⟨box, 0, "open", [int]⟩, .void] ∧
    box.isGeneric = false ∧ box.subst u = box ∧
    ((Ty.named "Pair" [.param "T" [], .param "U" []]).subst u).isGeneric = false ∧
    (listed.subst u).isGeneric ≠ false := by
  intro int box listed s u
  obtain ⟨_, hbound, hty, hattribute, _, hinstruction, _⟩ := andThen_composes s u
  obtain ⟨_, _, _, _, _, _, hclosed⟩ := andThen_composes u s
  refine ⟨by rw [hbound]; rfl, (hty _).trans rfl, (hattribute _).trans rfl,
    (hinstruction _).trans rfl, rfl, (hclosed box).1 rfl, (hclosed _).2.2.mpr ?_, fun h => ?_⟩
  · simp only [Ty.parameters, Ty.parametersList, List.append_nil, List.singleton_append,
      List.map_cons, List.map_nil, List.forall_mem_cons]
    exact ⟨⟨_, rfl, rfl⟩, ⟨int, rfl, rfl⟩, by simp⟩
  · obtain ⟨a, ha, _⟩ := (hclosed listed).2.2.mp h "K" (by decide)
    cases ha

end Substitution

end ShaderIR
