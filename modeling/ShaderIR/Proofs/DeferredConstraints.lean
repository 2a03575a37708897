import ShaderIR.Proofs.OwnerConstraints

/-! Constraints of parameters that stand in for arguments. A parameter passes the check of another
one if each set of the other contains one of its own, which is a preorder on parameters that types
respect. So a check made while an argument was still a parameter need not be repeated once the
parameter is bound to a type that passes the parameter's own check. -/

namespace ShaderIR

namespace GenericParam

variable {p q : GenericParam} {a : Ty} {allowed own : List Ty} {s : Substitution}

theorem admits_ty_iff : admits allowed q.ty = true ↔ ∃ own ∈ q.constraints, own ⊆ allowed := by
  simp [ty, admits, List.subset_def]

/-- A wider set admits more. -/
theorem admits_of_subset (hsubset : own ⊆ allowed) (ha : admits own a = true) :
    admits allowed a = true := by
  cases a with
  | named n args =>
    simp only [admits, decide_eq_true_eq] at ha ⊢
    exact hsubset ha
  | param n cs =>
    obtain ⟨narrower, hmem, hnarrower⟩ := (admits_ty_iff (q := ⟨n, cs⟩)).mp ha
    exact (admits_ty_iff (q := ⟨n, cs⟩)).mpr ⟨narrower, hmem, List.Subset.trans hnarrower hsubset⟩

theorem check_ty_self (p : GenericParam) : p.check p.ty = .ok () :=
  check_eq_ok_iff_admits.mpr fun allowed hallowed =>
    admits_ty_iff.mpr ⟨allowed, hallowed, List.Subset.refl allowed⟩

theorem check_trans (hq : p.check q.ty = .ok ()) (ha : q.check a = .ok ()) :
    p.check a = .ok () := by
  rw [check_eq_ok_iff_admits] at hq ha ⊢
  intro allowed hallowed
  obtain ⟨own, hown, hsubset⟩ := admits_ty_iff.mp (hq allowed hallowed)
  exact admits_of_subset hsubset (ha own hown)

/-- What the substitution makes of an argument can be foreseen: the parameter has no constraints, or
the argument is closed, or it is itself a parameter that becomes a type which passes its own check. A
parameter that the substitution does not bind stays, and passes its own check. -/
def Foreseen (s : Substitution) (p : GenericParam) (a : Ty) : Prop :=
  p.constraints ≠ [] →
    a.isGeneric = false ∨ ∃ q : GenericParam, a = q.ty ∧ q.check (q.ty.subst s) = .ok ()

/-- The check of such an argument still holds after the substitution. -/
theorem Foreseen.check_subst (h : p.Foreseen s a) (ha : p.check a = .ok ()) :
    p.check (a.subst s) = .ok () := by
  by_cases hp : p.constraints = []
  · simp [check_eq_ok_iff_admits, hp]
  rcases h hp with hclosed | ⟨q, rfl, hq⟩
  · have hself : a.subst s = a :=
      Ty.subst_eq_self (by simp [Ty.isGeneric_eq_false_iff.mp hclosed])
    rwa [hself]
  · exact check_trans ha hq

/-- Binding succeeds just when every argument passes the check of its parameter. -/
theorem exists_bindAll_iff {ps : List GenericParam} {as : List Ty} (s : Substitution)
    (hlength : as.length = ps.length) :
    (∃ s', bindAll s ps as = .ok s') ↔
      List.Forall₂ (fun p a => p.check a = .ok ()) ps as := by
  induction ps generalizing as s with
  | nil =>
    obtain rfl := List.length_eq_zero_iff.mp hlength
    simp [bindAll]
  | cons p ps ih =>
    cases as with
    | nil => simp at hlength
    | cons a as =>
      rw [List.forall₂_cons, bindAll]
      cases hcheck : p.check a with
      | error e => simp
      | ok u => simpa using ih (s.bind p.name a) (by simpa using hlength)

theorem Foreseen.exists_bindAll {ps : List GenericParam} {as : List Ty} {s' u : Substitution}
    (hlength : as.length = ps.length) (h : List.Forall₂ (Foreseen s) ps as)
    (hs : bindAll u ps as = .ok s') : ∃ s'', bindAll u ps (Ty.substList s as) = .ok s'' := by
  rw [Ty.substList_eq_map, exists_bindAll_iff u (by simpa using hlength),
    List.forall₂_map_right_iff]
  have hchecks := (exists_bindAll_iff u hlength).mp ⟨s', hs⟩
  obtain ⟨_, hforeseen⟩ := List.forall₂_iff_zip.mp h
  obtain ⟨hsame, hchecked⟩ := List.forall₂_iff_zip.mp hchecks
  exact List.forall₂_iff_zip.mpr
    ⟨hsame, fun hmem => (hforeseen hmem).check_subst (hchecked hmem)⟩

end GenericParam

namespace LocatedMethod

variable {m generic : LocatedMethod} {as arguments : List Ty}

theorem deferred_of_instantiate (h : m.instantiate as = .ok (.deferred generic arguments)) :
    generic = m ∧ arguments = as := by
  obtain ⟨_, _, _, s, _, htarget⟩ := instantiate_eq_ok_iff.mp h
  split at htarget
  · cases htarget
    exact ⟨rfl, rfl⟩
  · cases htarget

/-- Passing the check is a preorder: every parameter passes its own, and what passes the check of a
parameter passes the checks that this parameter passes. So a generic method that was deferred with
foreseen arguments takes what these are bound to. -/
theorem check_preorder_bindDeferred :
    (∀ p : GenericParam, p.check p.ty = .ok ()) ∧
    (∀ (p q : GenericParam) (a : Ty), p.check q.ty = .ok () → q.check a = .ok () →
      p.check a = .ok ()) ∧
    ∀ (m generic : LocatedMethod) (as arguments : List Ty) (s : Substitution),
      m.instantiate as = .ok (.deferred generic arguments) →
      List.Forall₂ (GenericParam.Foreseen s) generic.method.genericParameters arguments →
      ∃ target, generic.bindDeferred arguments s = .ok target := by
  refine ⟨GenericParam.check_ty_self, fun _ _ _ => GenericParam.check_trans, ?_⟩
  intro m generic as arguments s h hforeseen
  obtain ⟨rfl, rfl⟩ := deferred_of_instantiate h
  obtain ⟨howner, hgeneric, hlength, bound, hbound, _⟩ := instantiate_eq_ok_iff.mp h
  obtain ⟨rebound, hrebound⟩ := GenericParam.Foreseen.exists_bindAll hlength hforeseen hbound
  have hlength' : (Ty.substList s arguments).length =
      generic.method.genericParameters.length := by
    rw [Ty.substList_eq_map, List.length_map, hlength]
  exact ⟨_, instantiate_eq_ok_iff.mpr ⟨howner, hgeneric, hlength', rebound, hrebound, rfl⟩⟩

/-- A method that takes a number of any kind and any other type. -/
def scale : LocatedMethod :=
  { id := ⟨⟨[], "Math"⟩, 0, none, none⟩
    method :=
      { owner := .named "Math" []
        name := "scale"
        genericParameters :=
          [⟨"N", [[.named "Int" [], .named "Real" [], .named "Byte" []],
            [.named "Real" [], .named "Int" []]]⟩, ⟨"T", []⟩] } }

/-- The method is deferred with a parameter of narrower sets, and with a type that mentions another
one. Bound to a parameter that is narrower still, it is deferred again, and then to a type. -/
theorem check_preorder_bindDeferred_scale :
    let number : GenericParam := ⟨"K", [[.named "Int" [], .named "Real" []]]⟩
    let whole : GenericParam := ⟨"W", [[.named "Int" []], [.named "Byte" [], .named "Int" []]]⟩
    let box : Ty := .named "Box" [.param "E" []]
    ∃ target, scale.instantiate [number.ty, box] = .ok (.deferred scale [number.ty, box]) ∧
      scale.bindDeferred [number.ty, box] (.ofList [("K", whole.ty)]) =
        .ok (.deferred scale [whole.ty, box]) ∧
      scale.bindDeferred [whole.ty, box] (.ofList [("W", .named "Int" [])]) = .ok target ∧
      number.check number.ty = .ok () ∧ number.check (.named "Int" []) = .ok () := by
  intro number whole box
  obtain ⟨hrefl, htrans, hbind⟩ := check_preorder_bindDeferred
  have hdeferred : scale.instantiate [whole.ty, box] = .ok (.deferred scale [whole.ty, box]) := rfl
  obtain ⟨target, htarget⟩ := hbind scale scale _ _ (.ofList [("W", .named "Int" [])]) hdeferred
    (.cons (fun _ => .inr ⟨whole, rfl, rfl⟩) (.cons (fun h => absurd rfl h) .nil))
  exact ⟨target, rfl, rfl, htarget, hrefl number, htrans number whole _ rfl rfl⟩

end LocatedMethod

end ShaderIR
