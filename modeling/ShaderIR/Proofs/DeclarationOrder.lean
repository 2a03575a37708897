import ShaderIR.Proofs.RecursionVerdict
import ShaderIR.Proofs.Reindexing

/-! Declarations in another order. Each method of a program has a counterpart in the rearranged one
that makes the same calls, so where the verdict on recursion can be relied on it is the same for
both. It cannot be relied on where a call goes to a method of a generic parameter. -/

namespace ShaderIR

variable {a : Arrangement}

namespace Program

/-- The programs declare the same types, in any order and with their methods at other positions:
what one finds under a name is a rearrangement of what the other does. -/
structure Rearranges (a : Arrangement) (p p' : Program) : Prop where
  found : ∀ name path d, p.find? name = some (path, d) →
    ∃ path' d', p'.find? name = some (path', d') ∧ d.Rearranged a d'
  found_back : ∀ name path' d', p'.find? name = some (path', d') →
    ∃ path d, p.find? name = some (path, d) ∧ d.Rearranged a d'
  own : ∀ d ∈ p.types, ∃ d' ∈ p'.types, d.Rearranged a d'
  own_back : ∀ d' ∈ p'.types, ∃ d ∈ p.types, d.Rearranged a d'

variable {p p' : Program}

theorem Rearranges.symm (h : p.Rearranges a p') : p'.Rearranges a.inverse p where
  found name path' d' hfind := by
    obtain ⟨path, d, hd, hrearranged⟩ := h.found_back name path' d' hfind
    exact ⟨path, d, hd, hrearranged.symm⟩
  found_back name path d hfind := by
    obtain ⟨path', d', hd', hrearranged⟩ := h.found name path d hfind
    exact ⟨path', d', hd', hrearranged.symm⟩
  own d' hd' := by
    obtain ⟨d, hd, hrearranged⟩ := h.own_back d' hd'
    exact ⟨d, hd, hrearranged.symm⟩
  own_back d hd := by
    obtain ⟨d', hd', hrearranged⟩ := h.own d hd
    exact ⟨d', hd', hrearranged.symm⟩

section

variable (h : p.Rearranges a p') (hnames : p.NamesOwners)

include h hnames

theorem Rearranges.exists_locate {r : MethodRef} {m : LocatedMethod} (hm : p.locate r = .ok m) :
    m.method.NamesOwners ∧
      ∃ m', p'.locate (r.reindex a) = .ok m' ∧ m.method.Counterpart a m'.method := by
  obtain ⟨name, arguments, path, d, i, ⟨howner, hfind, hi⟩, hmethod, hname, _⟩ :=
    locate_eq_ok_iff.mp hm
  rw [TypeDecl.getElem?_methods hi] at hmethod
  obtain ⟨declared, hdeclared, hmoved⟩ := Option.map_eq_some_iff.mp hmethod
  have hdeclaredNames := hnames.visible name path d hfind declared (List.mem_of_getElem? hdeclared)
  obtain ⟨path', d', hfind', hd⟩ := h.found name path d hfind
  obtain ⟨i', hi', hty, hs⟩ := hd.exists_instance hi
  have hcounterpart := hd.moved hty hs hdeclaredNames
  have hposition : i'.methods[(r.reindex a).index]? = some (d'.moved i' (declared.reindex a)) := by
    obtain ⟨_, _, hfound⟩ := atPath?_of_find? p hfind
    have hindex : (r.reindex a).index = a d.fullName r.index := by
      rw [fullName_of_findLocal? hfound, MethodRef.reindex, howner]
      rfl
    rw [TypeDecl.getElem?_methods hi', hindex, hd.methods, hdeclared]
    rfl
  rw [hmoved] at hcounterpart
  have hlocate : p'.locate (r.reindex a) = .ok ⟨⟨⟨path', d'.fullName⟩, (r.reindex a).index,
      if d'.isGeneric then some i'.ty.arguments else none, none⟩,
      d'.moved i' (declared.reindex a)⟩ :=
    locate_eq_ok_iff.mpr ⟨name, arguments, path', d', i', ⟨howner, hfind', hi'⟩, hposition,
      hcounterpart.name.trans hname, rfl⟩
  exact ⟨hmoved ▸ TypeDecl.namesOwners_moved hdeclaredNames, _, hlocate, hcounterpart⟩

theorem Rearranges.exists_resolve {r : MethodRef} {target : MethodInstance}
    (hr : p.resolve r = .ok target) :
    ∃ target', p'.resolve (r.reindex a) = .ok target' ∧ ∀ m, target.concrete? = some m →
      ∃ m', target'.concrete? = some m' ∧ m.method.Counterpart a m'.method := by
  obtain ⟨found, hfound, hcases⟩ := resolve_eq_ok_iff.mp hr
  obtain ⟨hfoundNames, found', hfound', hcounterpart⟩ := h.exists_locate hnames hfound
  rcases hcases with ⟨hnone, rfl⟩ | ⟨hsome, he⟩
  · refine ⟨.concrete found', resolve_eq_ok_iff.mpr ⟨found', hfound', .inl ⟨hnone, rfl⟩⟩, ?_⟩
    intro m hm
    obtain ⟨he, hconcrete⟩ := eq_concrete_of_concrete? hm
    cases he
    have hconcrete' : found'.isConcrete = true := hcounterpart.isConcrete_eq.trans hconcrete
    exact ⟨found', by simp [MethodInstance.concrete?, hconcrete'], hcounterpart⟩
  · obtain ⟨howner, hgeneric, hlength, s, hs, _⟩ := LocatedMethod.instantiate_eq_ok_iff.mp he
    rw [← hcounterpart.owner] at howner
    rw [← hcounterpart.isGeneric_eq] at hgeneric
    rw [← hcounterpart.parameters] at hlength hs
    obtain ⟨target', he'⟩ : ∃ target', found'.instantiate r.typeArguments = .ok target' :=
      ⟨_, LocatedMethod.instantiate_eq_ok_iff.mpr ⟨howner, hgeneric, hlength, s, hs, rfl⟩⟩
    refine ⟨target', resolve_eq_ok_iff.mpr ⟨found', hfound', .inr ⟨hsome, he'⟩⟩, ?_⟩
    intro m hm
    obtain ⟨u, hu, hc⟩ := LocatedMethod.concrete?_of_instantiate he
    obtain ⟨u', hu', hc'⟩ := LocatedMethod.concrete?_of_instantiate he'
    rw [hcounterpart.parameters, hu] at hu'
    cases hu'
    rw [hc, Option.ite_none_left_eq_some] at hm
    obtain ⟨hany, hm⟩ := hm
    cases hm
    rw [if_neg hany] at hc'
    refine ⟨_, hc', ?_⟩
    rw [hcounterpart.owner, hcounterpart.outer]
    exact hcounterpart.substituted hfoundNames _ _

theorem Rearranges.exists_call {m m' callee : LocatedMethod}
    (hm : m.method.Counterpart a m'.method) (hcall : p.Calls m callee) :
    ∃ callee', p'.Calls m' callee' ∧ callee.method.Counterpart a callee'.method := by
  obtain ⟨r, target, hr, htarget, hcallee⟩ := calls_iff.mp hcall
  obtain ⟨target', htarget', hconcrete⟩ := h.exists_resolve hnames htarget
  obtain ⟨callee', hcallee', hcounterpart⟩ := hconcrete callee hcallee
  exact ⟨callee', calls_iff.mpr ⟨_, target', (hm.refers r).mpr hr, htarget', hcallee'⟩,
    hcounterpart⟩

theorem Rearranges.exists_reached {m : LocatedMethod} (hm : p.Reached m) :
    ∃ m', p'.Reached m' ∧ m.method.Counterpart a m'.method := by
  induction hm with
  | declared hm hc =>
    obtain ⟨d, hd, hm⟩ := List.mem_flatMap.mp hm
    obtain ⟨⟨method, index⟩, hmem, rfl⟩ := List.mem_map.mp hm
    obtain ⟨d', hd', hrearranged⟩ := h.own d hd
    have hposition := hrearranged.methods index
    rw [List.mk_mem_zipIdx_iff_getElem?.mp hmem, Option.map_some] at hposition
    have hcounterpart := method.counterpart_reindex a
    refine ⟨⟨⟨⟨[], d'.fullName⟩, a d.fullName index, none, none⟩, method.reindex a⟩, ?_,
      hcounterpart⟩
    refine .declared (List.mem_flatMap.mpr ⟨d', hd', ?_⟩) (hcounterpart.isConcrete_eq.trans hc)
    exact List.mem_map.mpr ⟨_, List.mk_mem_zipIdx_iff_getElem?.mpr hposition, rfl⟩
  | call _ hc ih =>
    obtain ⟨m', hm', hcounterpart⟩ := ih
    obtain ⟨callee', hcall', hcallee⟩ := h.exists_call hnames hcounterpart hc
    exact ⟨callee', .call hm' hcall', hcallee⟩

/-- A method whose counterpart only makes calls that come to an end makes only such calls too. -/
theorem Rearranges.unending {m m' : LocatedMethod} (hm : m.method.Counterpart a m'.method)
    (hunending : p.Unending m) : p'.Unending m' := by
  rw [unending_iff_not_acc] at hunending ⊢
  refine fun hacc => hunending ?_
  clear hunending
  induction hacc generalizing m with
  | intro m' _ ih =>
    refine Acc.intro m fun callee hcall => ?_
    obtain ⟨callee', hcall', hcallee⟩ := h.exists_call hnames hm hcall
    exact ih callee' hcall' hcallee

theorem Rearranges.namesOwners : p'.NamesOwners := by
  have hback : ∀ {d d' : TypeDecl}, d.Rearranged a d' → (∀ m ∈ d.methods, m.NamesOwners) →
      ∀ m ∈ d'.methods, m.NamesOwners := by
    intro d d' hd hmethods m hm
    have hcounterpart := (m.counterpart_reindex a.inverse).symm
    exact hcounterpart.namesOwners (hmethods _ (hd.symm.reindex_mem hm))
  constructor
  · intro name path' d' hfind
    obtain ⟨path, d, hd, hrearranged⟩ := h.found_back name path' d' hfind
    exact hback hrearranged (hnames.visible name path d hd)
  · intro d' hd'
    obtain ⟨d, hd, hrearranged⟩ := h.own_back d' hd'
    exact hback hrearranged (hnames.own d hd)

theorem Rearranges.resolved (hresolved : p.Resolved) : p'.Resolved := by
  intro m' r hm' hr
  obtain ⟨m, hm, hcounterpart⟩ := h.symm.exists_reached (h.namesOwners hnames) hm'
  obtain ⟨target, htarget⟩ := hresolved m _ hm ((hcounterpart.refers r).mpr hr)
  obtain ⟨target', htarget', _⟩ := h.exists_resolve hnames htarget
  exact ⟨target', by simpa using htarget'⟩

end

theorem Rearranges.owned (h : p.Rearranges a p') (ho : ∀ d ∈ p.types, d.Owned) :
    ∀ d' ∈ p'.types, d'.Owned := by
  intro d' hd' m hm
  obtain ⟨d, hd, hrearranged⟩ := h.own_back d' hd'
  have howner := ho d hd _ (hrearranged.symm.reindex_mem hm)
  rw [hrearranged.selfTy_eq]
  exact howner

theorem Rearranges.exists_unending (h : p.Rearranges a p') (hnames : p.NamesOwners)
    (hunending : ∃ m, p.Reached m ∧ p.Unending m) : ∃ m', p'.Reached m' ∧ p'.Unending m' := by
  obtain ⟨m, hm, hm'⟩ := hunending
  obtain ⟨m', hreached, hcounterpart⟩ := h.exists_reached hnames hm
  exact ⟨m', hreached, h.unending hnames hcounterpart hm'⟩

/-- A report of recursion spells out a path of calls between two instances of a declared method. If
the declared methods on the path name the owners of what they call, then the calls from there never
come to an end, except that a reference may not resolve. For a program in which all of them name
owners and all references resolve, recursion is reported just if calls go on forever, in whatever
order its types and their methods are declared. -/
theorem validateWithin_recursion_verdict (hp : p.Distinct) (ho : ∀ d ∈ p.types, d.Owned)
    (depth : Nat) (j : Journal) :
    (∀ chain, ((p.validateWithin depth).outcome j).1 = .error (.failed (.recursiveCall chain)) →
      ∃ first middle last, p.Reached first ∧ (first :: middle ++ [last]).IsChain p.Calls ∧
        first.id.definition = last.id.definition ∧
        chain = (first :: middle ++ [last]).map LocatedMethod.fullName ∧
        ((∀ m ∈ first :: middle, ∀ declared, p.definition? m.id = some declared →
          declared.method.NamesOwners) →
          p.Unending first ∨ ∃ m r e, Relation.ReflTransGen p.Calls first m ∧
            m.method.Refers r ∧ p.resolve r = .error e)) ∧
    (p.NamesOwners → p.Resolved → p.declarationCount < depth →
      (p.ReportsRecursion depth j ↔ ∃ m, p.Reached m ∧ p.Unending m) ∧
      ∀ a p' depth' j', p.Rearranges a p' → p'.Distinct → p'.declarationCount < depth' →
        (p.ReportsRecursion depth j ↔ p'.ReportsRecursion depth' j')) := by
  constructor
  · intro chain hchain
    obtain ⟨first, middle, last, hfirst, hpath, hsame, hchain⟩ :=
      callPhase_cycle hp (validateWithin_eq_recursiveCall_iff.mp hchain)
    exact ⟨first, middle, last, hfirst, hpath, hsame, hchain,
      unending_or_unresolved hp ho hfirst hpath hsame⟩
  · intro hnames hresolved hdepth
    have hverdict := reportsRecursion_iff (j := j) hp ho hnames hresolved hdepth
    refine ⟨hverdict, fun a p' depth' j' h hp' hdepth' => ?_⟩
    have hnames' := h.namesOwners hnames
    rw [hverdict, reportsRecursion_iff hp' (h.owned ho) hnames' (h.resolved hnames hresolved)
      hdepth']
    exact ⟨h.exists_unending hnames, h.symm.exists_unending hnames'⟩

theorem find?_of_dependencies_eq_nil (h : p.dependencies = []) (name : String) :
    p.find? name = (findLocal? p.types name).map fun d => ([], d) := by
  rw [find?_eq, h]
  cases p.lookupOrder <;> simp [findAmong?]

/-- Without dependencies it is enough that the declarations correspond. -/
theorem rearranges_of_own (hp : p.Distinct) (hp' : p'.Distinct) (hd : p.dependencies = [])
    (hd' : p'.dependencies = []) (own : ∀ d ∈ p.types, ∃ d' ∈ p'.types, d.Rearranged a d')
    (own_back : ∀ d' ∈ p'.types, ∃ d ∈ p.types, d.Rearranged a d') : p.Rearranges a p' where
  found name path d hfind := by
    rw [find?_of_dependencies_eq_nil hd] at hfind
    obtain ⟨d₀, hfound, he⟩ := Option.map_eq_some_iff.mp hfind
    obtain ⟨-, rfl⟩ := Prod.mk.inj he
    obtain ⟨d', hmem, hrearranged⟩ := own d₀ (List.mem_of_find?_eq_some hfound)
    refine ⟨[], d', ?_, hrearranged⟩
    rw [find?_of_dependencies_eq_nil hd', ← fullName_of_findLocal? hfound,
      ← hrearranged.fullName, findLocal?_of_mem hp' hmem]
    rfl
  found_back name path' d' hfind := by
    rw [find?_of_dependencies_eq_nil hd'] at hfind
    obtain ⟨d₀, hfound, he⟩ := Option.map_eq_some_iff.mp hfind
    obtain ⟨-, rfl⟩ := Prod.mk.inj he
    obtain ⟨d, hmem, hrearranged⟩ := own_back d₀ (List.mem_of_find?_eq_some hfound)
    refine ⟨[], d, ?_, hrearranged⟩
    rw [find?_of_dependencies_eq_nil hd, ← fullName_of_findLocal? hfound,
      hrearranged.fullName, findLocal?_of_mem hp hmem]
    rfl
  own := own
  own_back := own_back

namespace Spiral

/-- The two methods of the shader change places. -/
def exchange : Arrangement :=
  fun name => if name = "Shader" then Equiv.swap 0 1 else Equiv.refl Nat

/-- The program with its types the other way round and the methods of the shader exchanged. -/
def rearranged : Program where
  name := "spiral"
  types :=
    [{ fullName := "Shader", methods := [main.reindex exchange, (turn [outwards]).reindex exchange] },
      { fullName := "Box", genericParameters := [⟨"T", []⟩] }, { fullName := "Unit" }]

theorem distinct (body : List Instruction) : (program body).Distinct := by
  have hnames : ["Unit", "Box", "Shader"].Nodup := by decide
  exact hnames

theorem distinct_rearranged : rearranged.Distinct := by
  have hnames : ["Shader", "Box", "Unit"].Nodup := by decide
  exact hnames

theorem rearranges : (program [outwards]).Rearranges exchange rearranged := by
  have hshader : TypeDecl.Rearranged exchange
      { fullName := "Shader", methods := [turn [outwards], main] }
      { fullName := "Shader",
        methods := [main.reindex exchange, (turn [outwards]).reindex exchange] } := by
    refine ⟨rfl, rfl, fun k => ?_⟩
    rcases k with _ | _ | k
    · rfl
    · rfl
    · have hfixed : exchange "Shader" (k + 1 + 1) = k + 1 + 1 :=
        Equiv.swap_apply_of_ne_of_ne (by omega) (by omega)
      simp [hfixed]
  have hplain : ∀ d : TypeDecl, d.methods = [] → d.Rearranged exchange d :=
    fun d hd => ⟨rfl, rfl, fun k => by simp [hd]⟩
  refine rearranges_of_own (distinct _) distinct_rearranged rfl rfl ?_ ?_
  · simp only [program, rearranged, List.forall_mem_cons, List.exists_mem_cons_iff]
    exact ⟨.inr (.inr (.inl (hplain _ rfl))), .inr (.inl (hplain _ rfl)), .inl hshader, by simp⟩
  · simp only [program, rearranged, List.forall_mem_cons, List.exists_mem_cons_iff]
    exact ⟨.inr (.inr (.inl hshader)), .inr (.inl (hplain _ rfl)), .inl (hplain _ rfl), by simp⟩

/-- An instance of the generic method. -/
def instanceOf (ty : Ty) : Method :=
  (turn [outwards]).substituted shader ⟨[("T", ty)]⟩

theorem resolve_turn {ty : Ty} (hty : ty.isGeneric = false) :
    (program [outwards]).resolve ⟨shader, 0, "turn", [ty]⟩ =
      .ok (.concrete ⟨⟨⟨[], "Shader"⟩, 0, none, some [ty]⟩, instanceOf ty⟩) := by
  have hlocate : (program [outwards]).locate ⟨shader, 0, "turn", [ty]⟩ =
      .ok ⟨⟨⟨[], "Shader"⟩, 0, none, none⟩, turn [outwards]⟩ := rfl
  have hclosed : Ty.anyGeneric [ty] = false := by simp [Ty.anyGeneric, hty]
  refine resolve_eq_ok_iff.mpr ⟨_, hlocate, .inr ⟨by simp, ?_⟩⟩
  refine LocatedMethod.instantiate_eq_ok_iff.mpr ⟨rfl, rfl, rfl, ⟨[("T", ty)]⟩, rfl, ?_⟩
  rw [hclosed]
  rfl

/-- The calls of a method that is reached are calls of instances of the generic method. -/
theorem refers_of_reached {m : LocatedMethod} (h : (program [outwards]).Reached m) {r : MethodRef}
    (hr : m.method.Refers r) : ∃ ty, ty.isGeneric = false ∧ r = ⟨shader, 0, "turn", [ty]⟩ := by
  have hmain : ∀ r, main.Refers r → ∃ ty, ty.isGeneric = false ∧ r = ⟨shader, 0, "turn", [ty]⟩ := by
    intro r hr
    exact ⟨unit, rfl, by simpa [Method.Refers, main, eq_comm] using hr⟩
  have hinstance : ∀ ty r, ty.isGeneric = false → (instanceOf ty).Refers r →
      ∃ ty', ty'.isGeneric = false ∧ r = ⟨shader, 0, "turn", [ty']⟩ := by
    intro ty r hty hr
    obtain ⟨written, hwritten, rfl⟩ := (Method.refers_of_body rfl).mp hr
    obtain rfl : ⟨shader, 0, "turn", [.named "Box" [.param "T" []]]⟩ = written := by
      simpa [Method.Refers, turn, outwards] using hwritten
    exact ⟨.named "Box" [ty], by simp [Ty.isGeneric, Ty.anyGeneric, hty], rfl⟩
  induction h generalizing r with
  | declared hm hc =>
    have hmethods : (program [outwards]).methods =
        [⟨⟨⟨[], "Shader"⟩, 0, none, none⟩, turn [outwards]⟩,
          ⟨⟨⟨[], "Shader"⟩, 1, none, none⟩, main⟩] := rfl
    rw [hmethods, List.mem_pair] at hm
    rcases hm with rfl | rfl
    · cases hc
    · exact hmain r hr
  | call _ hcall ih =>
    obtain ⟨r', target, hr', htarget, hcallee⟩ := calls_iff.mp hcall
    obtain ⟨ty, hty, rfl⟩ := ih hr'
    rw [resolve_turn hty] at htarget
    cases htarget
    obtain ⟨he, _⟩ := eq_concrete_of_concrete? hcallee
    cases he
    exact hinstance ty r hty hr

theorem resolved : (program [outwards]).Resolved := by
  intro m r hm hr
  obtain ⟨ty, hty, rfl⟩ := refers_of_reached hm hr
  exact ⟨_, resolve_turn hty⟩

theorem namesOwners : (program [outwards]).NamesOwners := by
  have hturn : (turn [outwards]).NamesOwners := by
    intro r hr
    obtain rfl : ⟨shader, 0, "turn", [.named "Box" [.param "T" []]]⟩ = r := by
      simpa [Method.Refers, turn, outwards] using hr
    exact ⟨"Shader", [], rfl⟩
  have hmain : main.NamesOwners := by
    intro r hr
    obtain rfl : ⟨shader, 0, "turn", [unit]⟩ = r := by simpa [Method.Refers, main] using hr
    exact ⟨"Shader", [], rfl⟩
  have hown : ∀ d ∈ (program [outwards]).types, ∀ m ∈ d.methods, m.NamesOwners := by
    simp [program, hturn, hmain]
  refine ⟨fun name path d hfind => ?_, hown⟩
  rw [find?_of_dependencies_eq_nil rfl] at hfind
  obtain ⟨d, hfound, he⟩ := Option.map_eq_some_iff.mp hfind
  obtain ⟨-, rfl⟩ := Prod.mk.inj he
  exact hown d (List.mem_of_find?_eq_some hfound)

theorem owned : ∀ d ∈ (program [outwards]).types, d.Owned := by
  simp [program, TypeDecl.Owned, turn, main, shader, TypeDecl.selfTy]

theorem declarationCount_lt : (program [outwards]).declarationCount < depthLimit ∧
    rearranged.declarationCount < depthLimit := by
  have hle : (program [outwards]).declarationCount ≤ 2 := declarationCount_le _
  have hle' : rearranged.declarationCount ≤ 2 := declarationCount_le _
  constructor <;> unfold depthLimit <;> omega

end Spiral

theorem validateWithin_recursion_verdict_spiral :
    (((Spiral.program [Spiral.outwards]).validateWithin depthLimit).outcome {}).1 =
        .error (.failed (.recursiveCall ["Shader::turn", "Shader::turn"])) ∧
      (∃ first, (Spiral.program [Spiral.outwards]).Reached first ∧
        ((Spiral.program [Spiral.outwards]).Unending first ∨
          ∃ m r e, Relation.ReflTransGen (Spiral.program [Spiral.outwards]).Calls first m ∧
            m.method.Refers r ∧ (Spiral.program [Spiral.outwards]).resolve r = .error e)) ∧
      (∃ m, (Spiral.program [Spiral.outwards]).Reached m ∧
        (Spiral.program [Spiral.outwards]).Unending m) ∧
      Spiral.rearranged.ReportsRecursion depthLimit {} := by
  have hreport : (((Spiral.program [Spiral.outwards]).validateWithin depthLimit).outcome {}).1 =
      .error (.failed (.recursiveCall ["Shader::turn", "Shader::turn"])) := by decide +kernel
  obtain ⟨hdepth, hdepth'⟩ := Spiral.declarationCount_lt
  obtain ⟨hpath, hverdict⟩ :=
    validateWithin_recursion_verdict (Spiral.distinct _) Spiral.owned depthLimit {}
  obtain ⟨hunending, horder⟩ := hverdict Spiral.namesOwners Spiral.resolved hdepth
  obtain ⟨first, middle, last, hfirst, hchain, _, _, hcalls⟩ := hpath _ hreport
  refine ⟨hreport, ⟨first, hfirst, hcalls fun m hm declared hd => ?_⟩,
    hunending.mp ⟨_, hreport⟩, ?_⟩
  · have hreached := hfirst.of_isChain hchain m (List.mem_append_left _ hm)
    exact Spiral.namesOwners.of_definition hreached hd
  · exact (horder Spiral.exchange Spiral.rearranged depthLimit {} Spiral.rearranges
      Spiral.distinct_rearranged hdepth').mp ⟨_, hreport⟩

namespace Forwarder

def shader : Ty := .named "Shader" []

def node : Ty := .named "Node" []

def leaf : Ty := .named "Leaf" []

/-- A generic method that calls a method of its parameter. -/
def run : Method where
  owner := shader
  name := "run"
  attributes := [.static]
  genericParameters := [⟨"T", []⟩]
  body := [.mk .call [.method ⟨.param "T" [], 0, "go", []⟩, .void]]

/-- A method that runs another type. -/
def runner (owner : Ty) (name : String) (ty : Ty) : Method where
  owner := owner
  name := name
  attributes := [.static]
  body := [.mk .call [.method ⟨shader, 0, "run", [ty]⟩, .void]]

def stop : Method where
  owner := leaf
  name := "go"
  attributes := [.static]

/-- The shader runs the node, which runs the leaf, where the calls end. -/
def program : Program where
  name := "forwarder"
  types :=
    [{ fullName := "Shader", methods := [run, runner shader "main" node] },
      { fullName := "Node", methods := [runner node "go" leaf] },
      { fullName := "Leaf", methods := [stop] }]

theorem distinct : program.Distinct := by
  have hnames : ["Shader", "Node", "Leaf"].Nodup := by decide
  exact hnames

/-- A walk that starts at the leaf meets only finished methods. -/
theorem not_unending {m : LocatedMethod} (hm : program.Reached m) : ¬ program.Unending m := by
  have hwalks := CallGraph.walks_visitAll distinct (CallGraph.settled_empty program {}) 9
    (List.reverse_subset.mpr (List.Subset.refl program.methods))
  have hok : ((CallGraph.visitAll program 9 program.methods.reverse).outcome
      { journal := {} }).1 = .ok () := by decide +kernel
  rcases ho : (CallGraph.visitAll program 9 program.methods.reverse).outcome { journal := {} }
    with ⟨e | u, g⟩
  · rw [ho] at hok
    cases hok
  · obtain ⟨hg, _, hdone⟩ := hwalks.of_ok ho
    have hcomplete : g.Complete program :=
      ⟨hg, fun m hm hc => hdone m (List.mem_reverse.mpr hm) hc⟩
    rw [unending_iff_not_acc, not_not]
    exact hcomplete.wellFounded m (hm.locates distinct) (hcomplete.done distinct hm)

end Forwarder

namespace Ladder

def low : Ty := .named "Low" []

def middle : Ty := .named "Middle" []

def high : Ty := .named "High" []

def rung (x y : Ty) : Ty := .named "Rung" [x, y]

def parameters : List GenericParam := [⟨"X", [[low, middle]]⟩, ⟨"Y", []⟩]

/-- A method of a generic type that calls the method of the next instance. -/
def climb : Method where
  owner := .named "Rung" (parameters.map GenericParam.ty)
  name := "climb"
  attributes := [.static]
  body := [.mk .call [.method ⟨rung (.param "Y" []) high, 0, "climb", []⟩, .void]]

def main : Method where
  owner := .named "Shader" []
  name := "main"
  attributes := [.static]
  body := [.mk .call [.method ⟨rung low middle, 0, "climb", []⟩, .void]]

/-- The instances get to one whose first argument is not admitted. -/
def program : Program where
  name := "ladder"
  types :=
    [{ fullName := "Low" }, { fullName := "Middle" }, { fullName := "High" },
      { fullName := "Rung", genericParameters := parameters, methods := [climb] },
      { fullName := "Shader", methods := [main] }]

def instanceOf (x y : Ty) : LocatedMethod :=
  ⟨⟨⟨[], "Rung"⟩, 0, some [x, y], none⟩, climb.substituted (rung x y) ⟨[("X", x), ("Y", y)]⟩⟩

theorem refers_instanceOf {x y : Ty} {r : MethodRef} (h : (instanceOf x y).method.Refers r) :
    r = ⟨rung y high, 0, "climb", []⟩ := by
  obtain ⟨written, hwritten, rfl⟩ := (Method.refers_of_body rfl).mp h
  obtain rfl : ⟨rung (.param "Y" []) high, 0, "climb", []⟩ = written := by
    simpa [Method.Refers, climb] using hwritten
  rfl

/-- The path of calls has two steps. -/
theorem not_unending {m : LocatedMethod} (hm : program.Reached m) : ¬ program.Unending m := by
  have hsecond : Acc (fun callee caller => program.Calls caller callee)
      (instanceOf middle high) := by
    refine Acc.intro _ fun callee hcall => ?_
    obtain ⟨r, target, hr, htarget, _⟩ := calls_iff.mp hcall
    cases refers_instanceOf hr
    cases htarget
  have hfirst : Acc (fun callee caller => program.Calls caller callee)
      (instanceOf low middle) := by
    refine Acc.intro _ fun callee hcall => ?_
    obtain ⟨r, target, hr, htarget, hcallee⟩ := calls_iff.mp hcall
    cases refers_instanceOf hr
    cases htarget
    cases hcallee
    exact hsecond
  rw [unending_iff_not_acc, not_not]
  induction hm with
  | declared hm hc =>
    have hmethods : program.methods = [⟨⟨⟨[], "Rung"⟩, 0, none, none⟩, climb⟩,
        ⟨⟨⟨[], "Shader"⟩, 0, none, none⟩, main⟩] := rfl
    rw [hmethods, List.mem_pair] at hm
    rcases hm with rfl | rfl
    · cases hc
    · refine Acc.intro _ fun callee hcall => ?_
      obtain ⟨r, target, hr, htarget, hcallee⟩ := calls_iff.mp hcall
      obtain rfl : ⟨rung low middle, 0, "climb", []⟩ = r := by
        simpa [Method.Refers, main] using hr
      cases htarget
      cases hcallee
      exact hfirst
  | call _ hc ih => exact ih.inv hc

end Ladder

/-- Recursion may be reported where calls come to an end. A method of a generic parameter can be
another one in each instance, so a second instance of a method below the first need not lead to a
third; with the types declared in another order such a program passes. And a further instance may
not exist, because its arguments are not admitted. -/
theorem validateWithin_recursion_verdict_finite :
    (((Forwarder.program.validateWithin depthLimit).outcome {}).1 =
        .error (.failed (.recursiveCall ["Shader::run", "Node::go", "Shader::run"])) ∧
      (∀ m, Forwarder.program.Reached m → ¬ Forwarder.program.Unending m) ∧
      ((({ name := "forwarder", types := Forwarder.program.types.reverse } :
          Program).validateWithin depthLimit).outcome {}).1 = .ok ()) ∧
    ((Ladder.program.validateWithin depthLimit).outcome {}).1 =
        .error (.failed (.recursiveCall
          ["Rung<Low, Middle>::climb", "Rung<Middle, High>::climb"])) ∧
      ∀ m, Ladder.program.Reached m → ¬ Ladder.program.Unending m :=
  ⟨⟨by decide +kernel, fun _ => Forwarder.not_unending, by decide +kernel⟩,
    by decide +kernel, fun _ => Ladder.not_unending⟩

end Program

end ShaderIR
