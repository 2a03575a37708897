import Mathlib.Data.List.Forall2
import ShaderIR.Proofs.GenericScope

/-! Constraint sets of the generic methods of a constructed type. Constructing the owner leaves
the sets as they were declared, so a listed type that mentions a parameter of the owner admits no
argument at all, not even the one that the owner was constructed with. -/

namespace ShaderIR

namespace GenericParam

/-- Every constraint set of the parameter, after the substitution, lists the type. -/
def Lists (s : Substitution) (q : GenericParam) (b : Ty) : Prop :=
  ∀ allowed ∈ q.constraints, b ∈ Ty.substList s allowed

instance (s : Substitution) (q : GenericParam) (b : Ty) : Decidable (q.Lists s b) :=
  inferInstanceAs (Decidable (∀ allowed ∈ q.constraints, b ∈ Ty.substList s allowed))

variable {s : Substitution} {q : GenericParam} {b : Ty}

theorem lists_empty_iff : q.Lists .empty b ↔ ∀ allowed ∈ q.constraints, b ∈ allowed := by
  simp [Lists, Ty.substList_eq_map]

theorem admits_iff (hb : b.isGeneric = false) {allowed : List Ty} :
    admits allowed b = true ↔ b ∈ allowed := by
  cases b with
  | named n args => simp [admits]
  | param n cs => simp [Ty.isGeneric] at hb

theorem check_eq_ok_iff_admits :
    q.check b = .ok () ↔ ∀ allowed ∈ q.constraints, admits allowed b = true := by
  unfold check
  cases hfind : q.constraints.find? fun allowed => !admits allowed b with
  | none => simpa using hfind
  | some allowed =>
    have hmem := List.mem_of_find?_eq_some hfind
    have hrejects := List.find?_some hfind
    simpa using ⟨allowed, hmem, by simpa using hrejects⟩

/-- The check of an argument without parameters is membership in every set, as declared. -/
theorem check_eq_ok_iff (hb : b.isGeneric = false) : q.check b = .ok () ↔ q.Lists .empty b := by
  simp only [check_eq_ok_iff_admits, lists_empty_iff, admits_iff hb]

theorem exists_violation (hb : b.isGeneric = false) (h : ¬ q.Lists .empty b) :
    ∃ allowed ∈ q.constraints, b ∉ allowed ∧
      q.check b = .error (.constraintViolation q.name b allowed) := by
  have hcheck := (check_eq_ok_iff hb).not.mpr h
  unfold check at hcheck ⊢
  cases hfind : q.constraints.find? fun allowed => !admits allowed b with
  | none => simp [hfind] at hcheck
  | some allowed =>
    have hadmits := List.find?_some hfind
    have hrejects : b ∉ allowed := by
      intro hlisted
      simp [(admits_iff hb).mpr hlisted] at hadmits
    exact ⟨allowed, List.mem_of_find?_eq_some hfind, hrejects, rfl⟩

/-- Binding succeeds when every argument passes the check of its parameter, and fails with the
first violation otherwise. -/
theorem bindAll_cases (qs : List GenericParam) (bs : List Ty) (hlength : bs.length = qs.length)
    (hbs : ∀ b ∈ bs, b.isGeneric = false) (s : Substitution) :
    (List.Forall₂ (Lists .empty) qs bs ∧ ∃ s', bindAll s qs bs = .ok s') ∨
    (¬ List.Forall₂ (Lists .empty) qs bs ∧
      ∃ q ∈ qs, ∃ b ∈ bs, ∃ allowed ∈ q.constraints, b ∉ allowed ∧
        bindAll s qs bs = .error (.constraintViolation q.name b allowed)) := by
  induction qs generalizing bs s with
  | nil =>
    obtain rfl := List.length_eq_zero_iff.mp hlength
    exact .inl ⟨.nil, s, rfl⟩
  | cons q qs ih =>
    cases bs with
    | nil => simp at hlength
    | cons b bs =>
      have hb := hbs b List.mem_cons_self
      by_cases hlists : q.Lists .empty b
      · have hcheck := (check_eq_ok_iff hb).mpr hlists
        have hstep : bindAll s (q :: qs) (b :: bs) = bindAll (s.bind q.name b) qs bs := by
          rw [bindAll, hcheck]
        have hrest := ih bs (by simpa using hlength)
          (fun b' hb' => hbs b' (List.mem_cons_of_mem b hb')) (s.bind q.name b)
        rw [hstep, List.forall₂_cons]
        rcases hrest with ⟨hall, hok⟩ | ⟨hnot, q', hq', b', hb', hviolation⟩
        · exact .inl ⟨⟨hlists, hall⟩, hok⟩
        · exact .inr ⟨fun h => hnot h.2, q', List.mem_cons_of_mem q hq', b',
            List.mem_cons_of_mem b hb', hviolation⟩
      · obtain ⟨allowed, hallowed, hrejects, hcheck⟩ := exists_violation hb hlists
        have hstep : bindAll s (q :: qs) (b :: bs) =
            .error (.constraintViolation q.name b allowed) := by rw [bindAll, hcheck]
        have hnot : ¬ List.Forall₂ (Lists .empty) (q :: qs) (b :: bs) := by
          intro h
          exact hlists (List.forall₂_cons.mp h).1
        exact .inr ⟨hnot, q, List.mem_cons_self, b, List.mem_cons_self, allowed, hallowed,
          hrejects, hstep⟩

/-- Substituting in a set keeps the listed types without parameters. -/
theorem Lists.subst (hb : b.isGeneric = false) (h : q.Lists .empty b) : q.Lists s b := by
  intro allowed hallowed
  have hlisted := lists_empty_iff.mp h allowed hallowed
  have hself : b.subst s = b := Ty.subst_eq_self (by simp [Ty.isGeneric_eq_false_iff.mp hb])
  rw [Ty.substList_eq_map]
  exact List.mem_map.mpr ⟨b, hlisted, hself⟩

/-- A set that mentions no parameter is the same after a substitution. -/
theorem lists_iff_of_closed (hq : ∀ allowed ∈ q.constraints, ∀ t ∈ allowed, t.isGeneric = false) :
    q.Lists s b ↔ q.Lists .empty b := by
  have hsame : ∀ allowed ∈ q.constraints, Ty.substList s allowed = allowed := by
    intro allowed hallowed
    have hself : ∀ t ∈ allowed, t.subst s = t := by
      intro t ht
      have hnone := Ty.isGeneric_eq_false_iff.mp (hq allowed hallowed t ht)
      exact Ty.subst_eq_self (by simp [hnone])
    rw [Ty.substList_eq_map]
    exact (List.map_congr_left hself).trans (List.map_id allowed)
  rw [lists_empty_iff]
  constructor
  · intro h allowed hallowed
    simpa [hsame allowed hallowed] using h allowed hallowed
  · intro h allowed hallowed
    rw [hsame allowed hallowed]
    exact h allowed hallowed

end GenericParam

/-- What instantiating a method moved to a constructed owner comes down to. -/
theorem Method.instantiate_forOwner {m : Method} {owner : Ty} {s : Substitution} {bs : List Ty}
    (hgeneric : m.isGeneric = true) (howner : owner.isGeneric = false)
    (hbs : ∀ b ∈ bs, b.isGeneric = false) (hlength : bs.length = m.genericParameters.length) :
    (List.Forall₂ (GenericParam.Lists .empty) m.genericParameters bs ∧
      ∃ made, (m.forOwner owner s).instantiate bs = .ok (.concrete made)) ∨
    (¬ List.Forall₂ (GenericParam.Lists .empty) m.genericParameters bs ∧
      ∃ q ∈ m.genericParameters, ∃ b ∈ bs, ∃ allowed ∈ q.constraints, b ∉ allowed ∧
        (m.forOwner owner s).instantiate bs =
          .error (.constraintViolation q.name b allowed)) := by
  have hclosed : Ty.anyGeneric bs = false := by
    rw [Ty.anyGeneric_eq_any]
    simpa using hbs
  rw [forOwner_of_isGeneric_eq_true hgeneric]
  simp only [isGeneric] at hgeneric
  simp only [instantiate, isGeneric, howner, hgeneric, hlength, hclosed, Bool.false_eq_true,
    Bool.not_true, bne_self_eq_false, if_false]
  rcases GenericParam.bindAll_cases m.genericParameters bs hlength hbs .empty with
    ⟨hall, s', hs'⟩ | ⟨hnot, q, hq, b, hb, allowed, hallowed, hrejects, he⟩
  · rw [hs']
    exact .inl ⟨hall, _, rfl⟩
  · rw [he]
    exact .inr ⟨hnot, q, hq, b, hb, allowed, hallowed, hrejects, rfl⟩

namespace TypeDecl

variable {d : TypeDecl} {i : TypeInstance} {m : Method} {as bs : List Ty} {k : Nat}

theorem getElem?_methods_of_isGeneric (hd : d.isGeneric = true) (hi : d.instantiate as = .ok i)
    (hm : d.methods[k]? = some m) : i.methods[k]? = some (m.forOwner i.ty i.substitution) := by
  obtain ⟨harity, _, hbound, hmethods⟩ := Program.constructs_of_instantiate hi
  have hne : i.substitution.isEmpty = false := by
    rw [GenericParam.isEmpty_of_bindAll harity hbound]
    simpa [TypeDecl.isGeneric] using hd
  simp [hmethods, hne, hm]

/-- A generic method of a constructed type takes the arguments that its constraint sets list as
they are declared, and rejects all others with the violated set. Whatever it takes is also listed
after the owner's arguments are put into the sets; the converse holds where the sets mention no
parameter. -/
theorem instantiate_method_iff_lists (hd : d.isGeneric = true) (hi : d.instantiate as = .ok i)
    (has : ∀ a ∈ as, a.isGeneric = false) (hm : d.methods[k]? = some m)
    (hgeneric : m.isGeneric = true) (hbs : ∀ b ∈ bs, b.isGeneric = false)
    (hlength : bs.length = m.genericParameters.length) :
    ∃ moved, i.methods[k]? = some moved ∧
      ((∃ made, moved.instantiate bs = .ok (.concrete made)) ↔
        List.Forall₂ (GenericParam.Lists .empty) m.genericParameters bs) ∧
      ((∃ made, moved.instantiate bs = .ok (.concrete made)) ∨
        ∃ q ∈ m.genericParameters, ∃ b ∈ bs, ∃ allowed ∈ q.constraints, b ∉ allowed ∧
          moved.instantiate bs = .error (.constraintViolation q.name b allowed)) ∧
      ((∃ made, moved.instantiate bs = .ok (.concrete made)) →
        List.Forall₂ (GenericParam.Lists i.substitution) m.genericParameters bs) ∧
      ((∀ q ∈ m.genericParameters, ∀ allowed ∈ q.constraints, ∀ t ∈ allowed,
          t.isGeneric = false) →
        List.Forall₂ (GenericParam.Lists i.substitution) m.genericParameters bs →
        ∃ made, moved.instantiate bs = .ok (.concrete made)) := by
  have howner : i.ty.isGeneric = false := by
    rw [(Program.constructs_of_instantiate hi).ty, Ty.isGeneric, Ty.anyGeneric_eq_any]
    simpa using has
  have hkeeps : List.Forall₂ (GenericParam.Lists .empty) m.genericParameters bs →
      List.Forall₂ (GenericParam.Lists i.substitution) m.genericParameters bs := by
    intro h
    obtain ⟨hlen, hzip⟩ := List.forall₂_iff_zip.mp h
    apply List.forall₂_iff_zip.mpr
    exact ⟨hlen, fun hmem => (hzip hmem).subst (hbs _ (List.of_mem_zip hmem).2)⟩
  have hback : (∀ q ∈ m.genericParameters, ∀ allowed ∈ q.constraints, ∀ t ∈ allowed,
      t.isGeneric = false) →
      List.Forall₂ (GenericParam.Lists i.substitution) m.genericParameters bs →
      List.Forall₂ (GenericParam.Lists .empty) m.genericParameters bs := by
    intro hq h
    obtain ⟨hlen, hzip⟩ := List.forall₂_iff_zip.mp h
    apply List.forall₂_iff_zip.mpr
    exact ⟨hlen, fun hmem =>
      (GenericParam.lists_iff_of_closed (hq _ (List.of_mem_zip hmem).1)).mp (hzip hmem)⟩
  refine ⟨_, getElem?_methods_of_isGeneric hd hi hm, ?_⟩
  rcases Method.instantiate_forOwner (s := i.substitution) hgeneric howner hbs hlength with
    ⟨hall, hok⟩ | ⟨hnot, hviolation⟩
  · exact ⟨⟨fun _ => hall, fun _ => hok⟩, .inl hok, fun _ => hkeeps hall, fun _ _ => hok⟩
  · have hfails : ¬ ∃ made,
        (m.forOwner i.ty i.substitution).instantiate bs = .ok (.concrete made) := by
      rintro ⟨made, hmade⟩
      obtain ⟨q, _, b, _, allowed, _, _, he⟩ := hviolation
      rw [hmade] at he
      cases he
    exact ⟨⟨fun h => absurd h hfails, fun h => absurd h hnot⟩, .inr hviolation,
      fun h => absurd h hfails, fun hq h => absurd (hback hq h) hnot⟩

/-- A box with a method whose parameter has to be the content of the box or a number. -/
def picker : TypeDecl :=
  { fullName := "Box"
    genericParameters := [⟨"T", []⟩]
    methods :=
      [{ owner := .named "Box" [.param "T" []]
         name := "pick"
         parameterTypes := [.param "U" [[.param "T" [], .named "Int" []]]]
         genericParameters := [⟨"U", [[.param "T" [], .named "Int" []]]⟩] }] }

/-- The number is listed as it stands, so a box of flags takes it. -/
theorem instantiate_method_iff_lists_picker :
    ∃ i moved made, picker.instantiate [.named "Bool" []] = .ok i ∧ i.methods[0]? = some moved ∧
      moved.instantiate [.named "Int" []] = .ok (.concrete made) := by
  obtain ⟨i, hi⟩ : ∃ i, picker.instantiate [.named "Bool" []] = .ok i := ⟨_, rfl⟩
  have hnumber : ∀ b ∈ [Ty.named "Int" []], b.isGeneric = false := by decide
  obtain ⟨moved, hmoved, haccepts, _⟩ :=
    instantiate_method_iff_lists (k := 0) rfl hi (by decide) rfl rfl hnumber rfl
  obtain ⟨made, hmade⟩ := haccepts.mpr (.cons (by decide) .nil)
  exact ⟨i, moved, made, hi, hmoved, hmade⟩

/-- A box of flags rejects the flag, which its set lists once the content is put in for the
parameter. -/
theorem instantiate_method_rejects_picker :
    ∃ i moved, picker.instantiate [.named "Bool" []] = .ok i ∧ i.methods[0]? = some moved ∧
      List.Forall₂ (GenericParam.Lists i.substitution) moved.genericParameters
        [.named "Bool" []] ∧
      moved.instantiate [.named "Bool" []] =
        .error (.constraintViolation "U" (.named "Bool" [])
          [.param "T" [], .named "Int" []]) :=
  ⟨_, _, rfl, rfl, .cons (by decide) .nil, by rfl⟩

end TypeDecl

end ShaderIR
