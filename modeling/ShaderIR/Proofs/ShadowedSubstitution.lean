import ShaderIR.Proofs.OwnerConstraints
import ShaderIR.Proofs.Replacement

/-! Instances as replacements. The arguments of a method and those of its owner replace their
parameters in the declared method all at once; where both have a parameter of one name, the one of
the method counts. -/

namespace ShaderIR

/-- The type given for a name inside a method: the argument of the method's parameter of that name,
or else of its owner's. -/
def TypeDecl.given (d : TypeDecl) (as : List Ty) (m : Method) (bs : List Ty) (n : String) :
    Option Ty :=
  (GenericParam.argument? m.genericParameters bs n).or
    (GenericParam.argument? d.genericParameters as n)

namespace TypeDecl

variable {d : TypeDecl} {m : Method} {as bs : List Ty} {i : TypeInstance}
  (hi : d.instantiate as = .ok i)

include hi

theorem get?_substitution (n : String) :
    i.substitution.get? n = GenericParam.argument? d.genericParameters as n := by
  rw [GenericParam.get?_of_bindAll (Program.constructs_of_instantiate hi).bound]
  exact Option.or_none

/-- A method without parameters of its own is given what its owner is given. -/
theorem get?_eq_given_of_plain (hm : m.isGeneric = false) (n : String) :
    i.substitution.get? n = d.given as m [] n := by
  have hown : m.genericParameters = [] := by simpa [Method.isGeneric] using hm
  rw [get?_substitution hi, given, hown]
  rfl

/-- What the owner remembers for a generic method leaves out the names that the method binds, so that
it is found just where the method itself gives nothing. -/
theorem get?_eq_given_of_generic {s : Substitution} (hlength : bs.length = m.genericParameters.length)
    (hs : GenericParam.bindAll .empty m.genericParameters bs = .ok s) (n : String) :
    (s.mergeOuter (i.substitution.without m.genericParameters)).get? n = d.given as m bs n := by
  rw [Substitution.get?_mergeOuter, Substitution.get?_without, GenericParam.get?_of_bindAll hs,
    get?_substitution hi, given]
  by_cases hn : n ∈ m.genericParameters.map GenericParam.name
  · obtain ⟨q, hq, rfl⟩ := List.mem_map.mp hn
    obtain ⟨b, hb⟩ := GenericParam.exists_argument? hlength hq
    simp [hb]
  · have hnone : (Substitution.empty : Substitution).get? n = none := rfl
    rw [if_neg hn, hnone, Option.or_none]

end TypeDecl

namespace Program

variable {p : Program} {name : String} {path : List Nat} {d : TypeDecl} {m : Method} {k : Nat}
  {as bs : List Ty} {i : TypeInstance}

theorem instantiate_of_construct (hfind : p.find? name = some (path, d))
    (h : p.construct (.named name as) = .ok i) : d.instantiate as = .ok i := by
  rw [construct, hfind] at h
  exact h

/-- The instances of a declared method have that method, as declared, for their definition. -/
theorem definition?_of_find? (hfind : p.find? name = some (path, d))
    (hm : d.methods[k]? = some m) {id : MethodId} (hid : id.definition = (⟨path, d.fullName⟩, k)) :
    p.definition? id = some ⟨⟨⟨path, d.fullName⟩, k, none, none⟩, m⟩ := by
  obtain ⟨hsite, hindex⟩ := Prod.mk.inj hid
  obtain ⟨home, hhome, hd⟩ := atPath?_of_find? p hfind
  have hname := fullName_of_findLocal? hd
  rw [← hname] at hd
  simp [definition?, hsite, hindex, hhome, hd, declaredMethods, hm]

/-- The method of the constructed owner, before its own arguments are put in. -/
theorem locate_moved (hfind : p.find? name = some (path, d)) (hd : d.isGeneric = true)
    (hm : d.methods[k]? = some m) (hi : d.instantiate as = .ok i) :
    ∃ found : LocatedMethod, found.id = ⟨⟨path, d.fullName⟩, k, some as, none⟩ ∧
      found.method = m.forOwner (.named name as) i.substitution ∧
      (methodsOf path d i)[k]? = some found ∧
      ∀ bs, p.locate ⟨.named name as, k, m.name, bs⟩ = .ok found := by
  obtain ⟨home, _, hhome⟩ := atPath?_of_find? p hfind
  have hty : i.ty = .named name as := by
    rw [(constructs_of_instantiate hi).ty, fullName_of_findLocal? hhome]
  have hid : (⟨⟨path, d.fullName⟩, k, some as, none⟩ : MethodId) =
      ⟨⟨path, d.fullName⟩, k, if d.isGeneric then some i.ty.arguments else none, none⟩ := by
    rw [if_pos hd, hty]
    rfl
  have hmoved := TypeDecl.getElem?_methods_of_isGeneric hd hi hm
  rw [hty] at hmoved
  refine ⟨⟨_, _⟩, rfl, rfl, getElem?_methodsOf_eq_some.mpr ⟨hmoved, hid⟩, fun bs => ?_⟩
  exact locate_eq_ok_iff.mpr ⟨name, as, path, d, i, ⟨rfl, hfind, hi⟩, hmoved,
    m.name_forOwner _ _, hid⟩

/-- A method of a generic type, resolved with closed arguments for its owner and for itself, is the
declared method with all these arguments put in at once. The declaration stays as it is. -/
theorem resolve_replaced (hfind : p.find? name = some (path, d)) (hd : d.isGeneric = true)
    (hm : d.methods[k]? = some m) (hbs : ∀ b ∈ bs, b.isGeneric = false)
    (hi : p.construct (.named name as) = .ok i)
    (hplain : m.isGeneric = false → bs = [])
    (hmade : m.isGeneric = true → ∃ found target, (methodsOf path d i)[k]? = some found ∧
      found.instantiate bs = .ok target) :
    ∃ made, p.resolve ⟨.named name as, k, m.name, bs⟩ = .ok (.concrete made) ∧
      m.Replaced (d.given as m bs) (.named name as) made.method ∧
      p.definition? made.id = some ⟨⟨⟨path, d.fullName⟩, k, none, none⟩, m⟩ := by
  have hi := instantiate_of_construct hfind hi
  obtain ⟨found, hid, hmethod, hmethods, hlocate⟩ := locate_moved hfind hd hm hi
  cases hgeneric : m.isGeneric with
  | false =>
    obtain rfl := hplain hgeneric
    refine ⟨found, resolve_eq_ok_iff.mpr ⟨found, hlocate [], .inl ⟨rfl, rfl⟩⟩, ?_, ?_⟩
    · rw [hmethod, Method.forOwner_of_isGeneric_eq_false hgeneric]
      exact m.replaced_substituted (TypeDecl.get?_eq_given_of_plain hi hgeneric) _
    · exact definition?_of_find? hfind hm (by rw [hid]; rfl)
  | true =>
    obtain ⟨found', target, hfound', hmake⟩ := hmade hgeneric
    obtain rfl : found = found' := Option.some.inj (hmethods.symm.trans hfound')
    obtain ⟨_, _, hlength, s, hs, htarget⟩ := LocatedMethod.instantiate_eq_ok_iff.mp hmake
    have hclosed : ¬ Ty.anyGeneric bs = true := by
      rw [Ty.anyGeneric_eq_any]
      simpa using hbs
    rw [if_neg hclosed] at htarget
    rw [hmethod, Method.forOwner_of_isGeneric_eq_true hgeneric] at hlength hs
    have hsome : bs ≠ [] := by
      rintro rfl
      simp [Method.isGeneric, ← List.length_eq_zero_iff, ← hlength] at hgeneric
    refine ⟨_, resolve_eq_ok_iff.mpr ⟨found, hlocate bs, .inr ⟨hsome, htarget ▸ hmake⟩⟩, ?_, ?_⟩
    · rw [hmethod, Method.forOwner_of_isGeneric_eq_true hgeneric]
      exact m.replaced_substituted (TypeDecl.get?_eq_given_of_generic hi hlength hs) _
    · exact definition?_of_find? hfind hm (by rw [hid]; rfl)

/-- A pair with a method that has a parameter of its own by the name of one of the pair's, and
mentions it in its signature, in an attribute and in a call. -/
def shadowing : Program :=
  let first : Ty := .param "T" []
  let second : Ty := .param "V" []
  let own : Ty := .param "U" []
  { name := "Main"
    types :=
      [{ fullName := "Pair"
         genericParameters := [⟨"T", []⟩, ⟨"V", []⟩]
         methods :=
          [{ owner := .named "Pair" [first, second]
             name := "map"
             returnType := some (.named "Pair" [own, second])
             parameterTypes := [first, own]
             attributes := [.static, .custom "Holds" [first]]
             genericParameters := [⟨"U", []⟩, ⟨"T", []⟩]
             body :=
              [.mk .call [.method ⟨.named "Pair" [first, second], 0, "map", [own, first]⟩,
                .variable 0]] }] }] }

/-- The method's own argument stands for the shared name everywhere in the instance, also in the
owner of the call. -/
theorem resolve_replaced_shadowing :
    let owner : Ty := .named "Pair" [.named "Int" [], .named "Bool" []]
    let real : Ty := .named "Real" []
    let text : Ty := .named "Text" []
    ∃ d m made, shadowing.find? "Pair" = some ([], d) ∧ d.methods[0]? = some m ∧
      shadowing.resolve ⟨owner, 0, "map", [real, text]⟩ = .ok (.concrete made) ∧
      m.Replaced (d.given owner.arguments m [real, text]) owner made.method ∧
      made.method.returnType = some (.named "Pair" [real, .named "Bool" []]) ∧
      made.method.parameterTypes = [text, real] ∧
      made.method.attributes = [.static, .custom "Holds" [text]] ∧
      made.method.body = [.mk .call [.method ⟨.named "Pair" [text, .named "Bool" []], 0, "map",
        [real, text]⟩, .variable 0]] := by
  intro owner real text
  have hclosed : ∀ b ∈ [real, text], b.isGeneric = false := by decide
  obtain ⟨made, hmade, hreplaced, _⟩ := resolve_replaced (p := shadowing) (k := 0) rfl rfl rfl
    hclosed (rfl : shadowing.construct owner = .ok _) (by decide) fun _ => ⟨_, _, rfl, rfl⟩
  obtain rfl := MethodInstance.concrete.inj (Except.ok.inj hmade)
  exact ⟨_, _, _, rfl, rfl, hmade, hreplaced, rfl, rfl, rfl, rfl⟩

end Program

end ShaderIR
