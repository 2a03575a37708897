import ShaderIR.Proofs.FunctionLowering

/-! Whole methods: their signature, the variables of their body, and the function that is added to
the session. -/

namespace ShaderIR.Lowering

open Binary (Op Id Inst results)

variable {p : Program} {known : LocatedMethod → Prop} {s : Session} {held : List UInt32}
variable {lower : Ty → M LoweredType}

theorem lands_lowerReturn (hl : LowersWell p known lower) (hs : s.Sound p known held)
    (ty : Option Ty) :
    Lands p known (lowerReturn lower ty) s fun t u =>
      u.Sound p known held ∧ t.Declared u.code ∧ LowersReturn p ty t ∧
        ∀ ty', ty = some ty' → u.Lowered ty' t := by
  cases ty with
  | none =>
    have hparts : ∀ part ∈ Shape.void.parts, s.Carries known part := by simp [Shape.parts]
    refine (lands_shape hs hparts (fun _ => .void _) (by simp [Shape.key]) _).mono ?_
    rintro t u _ ⟨hu, ht, hshape⟩
    exact ⟨hu, ht, hshape, by simp⟩
  | some ty =>
    refine (hl s held hs ty).mono ?_
    rintro t u _ ⟨hu, ht⟩
    have hentry := hu.types ty t ht
    exact ⟨hu, hentry.declared, hentry.lowers, fun ty' h => Option.some.inj h ▸ ht⟩

theorem lands_lowerReceiver (hl : LowersWell p known lower) (hs : s.Sound p known held)
    (m : Method) :
    Lands p known (lowerReceiver lower m) s fun ts u =>
      u.Sound p known held ∧
        List.Forall₂ u.Lowered (if m.isStatic then [] else [m.owner]) ts := by
  unfold lowerReceiver
  by_cases hm : m.isStatic = true
  · simp only [hm, if_true]
    exact lands_pure ⟨hs, .nil⟩
  · simp only [hm]
    refine (hl s held hs m.owner).bind ?_
    rintro t u _ ⟨hu, ht⟩
    exact lands_pure ⟨hu, .cons ht .nil⟩

theorem lands_lowerParameters (hl : LowersWell p known lower) (hs : s.Sound p known held)
    (method : String) (tys : List Ty) :
    Lands p known (lowerParameters lower method tys) s fun ts u =>
      u.Sound p known held ∧
        List.Forall₂ (fun ty t => u.Lowered ty t ∧ t.isVoid = false) tys ts := by
  induction tys generalizing s with
  | nil => exact lands_pure ⟨hs, .nil⟩
  | cons ty rest ih =>
    refine (hl s held hs ty).bind ?_
    rintro t u _ ⟨hu, ht⟩
    by_cases hv : t.isVoid = true
    · simp only [hv, if_true]
      exact lands_fail_bind hu _
    · simp only [hv]
      refine (ih hu).bind ?_
      rintro ts v hg ⟨hv', hts⟩
      exact lands_pure ⟨hv', .cons ⟨hg.types.ready ty t ht, by simpa using hv⟩ hts⟩

/-- A variable with the id of its pointer type, and the instruction that declares it. -/
def slotInst (v : Variable × Id) : Variable × Inst :=
  (v.1, .ofIds .variable [v.2, v.1.pointer] [7])

/-- The type of the variable is declared, and so is its pointer type. -/
def SlotDeclared (code : List Inst) (v : Variable × Id) : Prop :=
  v.1.type.Declared code ∧ pointerInst v.2 v.1.type.id ∈ code

theorem SlotDeclared.mono {code code' : List Inst} {v : Variable × Id} (h : SlotDeclared code v)
    (hsub : code ⊆ code') : SlotDeclared code' v :=
  ⟨h.1.mono hsub, hsub h.2⟩

/-- The ids of the variables. -/
def slotIds (slots : List (Variable × Id)) : List UInt32 :=
  slots.map fun v => v.1.pointer.val

theorem lands_declareVariable (hs : s.Sound p known held) {type : LoweredType}
    (ht : s.Carries known type) :
    Lands p known (declareVariable type) s fun r t =>
      ∃ v, r = slotInst v ∧ v.1.type = type ∧ SlotDeclared t.code v ∧
        t.Sound p known (v.1.pointer.val :: held) := by
  refine (lands_pointer hs ht).bind ?_
  rintro pointerType t hg ⟨h, hp⟩
  refine (lands_fresh h).bind ?_
  intro pointer u hg' hu
  exact lands_pure ⟨(⟨type, pointer⟩, pointerType), rfl, rfl,
    ⟨ht.declared.mono (hg.trans hg').code.subset, hg'.code.subset hp⟩, hu⟩

theorem lands_declareVariables (hs : s.Sound p known held) {types : List LoweredType}
    (ht : ∀ t ∈ types, s.Carries known t) :
    Lands p known (declareVariables types) s fun r t =>
      ∃ slots, r = slots.map slotInst ∧ (slots.map fun v => v.1.type) = types ∧
        (∀ v ∈ slots, SlotDeclared t.code v) ∧ t.Sound p known (slotIds slots ++ held) := by
  induction types generalizing s held with
  | nil => exact lands_pure ⟨[], rfl, rfl, by simp, hs⟩
  | cons type rest ih =>
    refine (lands_declareVariable hs (ht type (by simp))).bind ?_
    rintro _ t hg ⟨v, rfl, rfl, hv, h⟩
    refine (ih h fun t' ht' => (ht t' (by simp [ht'])).grow hg).bind ?_
    rintro _ u hg' ⟨slots, rfl, rfl, hslots, hu⟩
    refine lands_pure ⟨v :: slots, rfl, rfl, ?_, hu.of_count ?_⟩
    · intro w hw
      rcases List.mem_cons.mp hw with rfl | hw
      · exact hv.mono hg'.code.subset
      · exact hslots w hw
    · intro x
      simp only [slotIds, List.map_cons, List.cons_append, List.count_append, List.count_cons]
      omega

theorem lands_declareLocals (hl : LowersWell p known lower) (hs : s.Sound p known held)
    (method : String) (is : List Instruction) :
    Lands p known (declareLocals lower method is) s fun r t =>
      ∃ slots, r = slots.map slotInst ∧
        List.Forall₂ (fun ty v => t.Lowered ty (Variable.type v) ∧ v.type.isVoid = false)
          (definedTypes is) (slots.map Prod.fst) ∧
        (∀ v ∈ slots, SlotDeclared t.code v) ∧ t.Sound p known (slotIds slots ++ held) := by
  induction is generalizing s held with
  | nil => exact lands_pure ⟨[], rfl, .nil, by simp, hs⟩
  | cons i rest ih =>
    rw [declareLocals.eq_def]
    split
    · rename_i heq
      simp at heq
    · rename_i ty _ rest' heq
      obtain ⟨rfl, rfl⟩ := List.cons.inj heq
      refine (hl s held hs ty).bind ?_
      rintro type t _ ⟨ht, hlow⟩
      by_cases hvoid : type.isVoid = true
      · simp only [hvoid, if_true]
        exact lands_fail_bind ht _
      · simp only [hvoid]
        have hvalue : type.isVoid = false := by simpa using hvoid
        refine (lands_declareVariable ht ⟨(ht.types ty type hlow).declared, .inl hvalue⟩).bind ?_
        rintro _ u hgu ⟨v, rfl, rfl, hv, h⟩
        refine (ih h).bind ?_
        rintro _ w hg ⟨slots, rfl, hlocals, hslots, hw⟩
        have hlow' : w.Lowered ty v.1.type := (hgu.trans hg).types.ready ty _ hlow
        refine lands_pure ⟨v :: slots, rfl, .cons ⟨hlow', hvalue⟩ hlocals, ?_, hw.of_count ?_⟩
        · intro v' hv'
          rcases List.mem_cons.mp hv' with rfl | hv'
          · exact hv.mono hg.code.subset
          · exact hslots v' hv'
        · intro x
          simp only [slotIds, List.map_cons, List.cons_append, List.count_append, List.count_cons]
          omega
    · rename_i j rest' hne heq
      obtain ⟨rfl, rfl⟩ := List.cons.inj heq
      rw [definedTypes_cons_of_ne fun ty hi => hne ty rfl hi]
      exact ih hs

/-- The instruction that declares a parameter, with its id. -/
def parameterInst (type : LoweredType) (id : Id) : Id × Inst :=
  (id, .ofIds .functionParameter [type.id, id] [])

theorem lands_freshParameters (hs : s.Sound p known held) (types : List LoweredType) :
    Lands p known (freshParameters types) s fun r t =>
      ∃ ids : List Id, r = List.zipWith parameterInst types ids ∧
        ids.length = types.length ∧ t.Sound p known (ids.map Id.val ++ held) := by
  induction types generalizing s held with
  | nil => exact lands_pure ⟨[], rfl, rfl, hs⟩
  | cons type rest ih =>
    refine (lands_fresh hs).bind ?_
    intro id t _ ht
    refine (ih ht).bind ?_
    rintro _ u _ ⟨ids, rfl, hn, hu⟩
    refine lands_pure ⟨id :: ids, rfl, by simp [hn], hu.of_count ?_⟩
    intro x
    simp only [List.map_cons, List.cons_append, List.count_append, List.count_cons]
    omega

namespace FunctionParts

theorem results_parameterInsts {q : FunctionParts} {f : Function}
    (h : q.passed.length = f.parameters.length) :
    results (q.parameterInsts f) = q.passed.map Id.val := by
  unfold parameterInsts
  generalize f.parameters = types at h
  generalize q.passed = ids at h
  induction types generalizing ids with
  | nil =>
    have he : ids = [] := List.length_eq_zero_iff.mp h
    simp [he]
  | cons type types ih =>
    cases ids with
    | nil => simp at h
    | cons id ids =>
      have hh := ih ids (by simpa using h)
      simp only [List.zipWith_cons_cons, Binary.results_cons, hh, List.map_cons]
      rfl

theorem results_variableInsts (q : FunctionParts) : results q.variableInsts = slotIds q.slots := by
  unfold variableInsts slotIds
  induction q.slots with
  | nil => rfl
  | cons v slots ih =>
    simp only [List.map_cons, Binary.results_cons, ih]
    rfl

theorem results_storeInsts (q : FunctionParts) : results q.storeInsts = [] := by
  unfold storeInsts
  generalize q.passed = ids
  induction q.declared generalizing ids with
  | nil => rfl
  | cons v vs ih =>
    cases ids with
    | nil => rfl
    | cons id ids => simp [ih]

theorem results_inner {q : FunctionParts} {f : Function}
    (h : q.passed.length = f.parameters.length) :
    results (q.inner f) =
      q.passed.map Id.val ++ q.label.val :: (slotIds q.slots ++ results q.body) := by
  have hl : q.labelInst.result? = some q.label.val := rfl
  simp [inner, results_parameterInsts h, results_variableInsts, results_storeInsts, hl]

end FunctionParts

/-- The stores of parameters stop at the last parameter. -/
theorem zipWith_storeTo {spilled : List (Variable × Id)} (locals : List (Variable × Id))
    {types : List LoweredType} {passed : List Id} (hs : spilled.length = types.length)
    (hp : passed.length = types.length) :
    List.zipWith (fun (v : Variable × Inst) (r : Id × Inst) => storeTo v.1.pointer r.1)
        (spilled.map slotInst) (List.zipWith parameterInst types passed) =
      List.zipWith (fun v id => storeTo (Variable.pointer v) id) ((spilled ++ locals).map Prod.fst)
        passed := by
  induction types generalizing spilled passed with
  | nil =>
    have he : passed = [] := List.length_eq_zero_iff.mp hp
    simp [he]
  | cons type types ih =>
    cases spilled with
    | nil => simp at hs
    | cons v spilled =>
      cases passed with
      | nil => simp at hp
      | cons id passed =>
        have hh := ih (show spilled.length = types.length by simpa using hs)
          (show passed.length = types.length by simpa using hp)
        simp only [List.map_cons, List.zipWith_cons_cons, List.cons_append, hh]
        rfl

variable {compile : LocatedMethod → M Function}

theorem FunctionParts.code_eq (f : Function) (functionType label : Id) {passed : List Id}
    {spilled : List (Variable × Id)} (locals : List (Variable × Id)) (body : List Inst)
    (hs : spilled.length = f.parameters.length) (hp : passed.length = f.parameters.length) :
    .ofIds .function [f.returnType.id, f.id] [0, functionType.val] ::
        (List.zipWith parameterInst f.parameters passed).map Prod.snd ++
      .ofIds .label [label] [] :: (spilled.map slotInst ++ locals.map slotInst).map Prod.snd ++
      List.zipWith (fun v r => storeTo v.1.pointer r.1) (spilled.map slotInst)
        (List.zipWith parameterInst f.parameters passed) ++ body ++ [⟨.functionEnd, []⟩] =
    (⟨functionType, passed, label, spilled ++ locals, body⟩ : FunctionParts).headInst f ::
      ((⟨functionType, passed, label, spilled ++ locals, body⟩ : FunctionParts).inner f ++
        [⟨.functionEnd, []⟩]) := by
  rw [zipWith_storeTo locals hs hp, List.map_zipWith]
  simp [headInst, inner, parameterInsts, labelInst, variableInsts, storeInsts, declared,
    parameterInst, slotInst, Function.comp_def]

theorem FunctionParts.results_code {q : FunctionParts} {f : Function}
    (h : q.passed.length = f.parameters.length) :
    results (q.headInst f :: (q.inner f ++ [⟨.functionEnd, []⟩])) =
      f.id.val :: (q.passed.map Id.val ++ q.label.val :: (slotIds q.slots ++ results q.body)) := by
  have hhead : (q.headInst f).result? = some f.id.val := rfl
  have hend : (⟨.functionEnd, []⟩ : Inst).result? = none := rfl
  simp [results_inner h, hhead, hend]

theorem lands_lowerBody (hl : LowersWell p known lower)
    (hcompile : CompilesWell p known compile) (f : Function) (functionType : Id)
    (hk : ∀ callee, p.Calls f.method callee → known callee)
    (hs : s.Sound p known (f.id.val :: held))
    (hp : ∀ t ∈ f.parameters, s.Carries known t ∧ ∃ ty, s.Lowered ty t) :
    Lands p known
      (lowerBody lower (callee p compile) f.method.method f.id functionType f.returnType f.parameters) s
      fun out t => t.Sound p known (results out ++ held) ∧ ∃ q : FunctionParts,
        q.functionType = functionType ∧
        out = q.headInst f :: (q.inner f ++ [⟨.functionEnd, []⟩]) ∧
        q.passed.length = f.parameters.length ∧ (∀ v ∈ q.slots, SlotDeclared t.code v) ∧
        (q.declared.take f.parameters.length).map Variable.type = f.parameters ∧
        List.Forall₂ (fun ty v => t.Lowered ty (Variable.type v) ∧ v.type.isVoid = false)
          (definedTypes f.method.method.body) (q.declared.drop f.parameters.length) ∧
        TranslatesBody p t.code t.functionList (q.scope f) f.method.method.body q.body := by
  refine (lands_freshParameters hs f.parameters).bind ?_
  rintro _ t₁ hg₁ ⟨passed, rfl, hpassed, h₁⟩
  refine (lands_fresh h₁).bind ?_
  intro label t₂ hg₂ h₂
  have hp₂ : ∀ t ∈ f.parameters, t₂.Carries known t :=
    fun t ht => (hp t ht).1.grow (hg₁.trans hg₂)
  refine (lands_declareVariables h₂ hp₂).bind ?_
  rintro _ t₃ hg₃ ⟨spilled, rfl, hspilled, hd₃, h₃⟩
  refine (lands_declareLocals hl h₃ _ _).bind ?_
  rintro _ t₄ hg₄ ⟨locals, rfl, hlocals, hd₄, h₄⟩
  have hn : spilled.length = f.parameters.length := by simp [← hspilled]
  have hdeclared : (spilled.map slotInst ++ locals.map slotInst).map Prod.fst =
      (spilled ++ locals).map Prod.fst := by
    simp [slotInst, Function.comp_def]
  have hslots : ∀ v ∈ spilled ++ locals, SlotDeclared t₄.code v := by
    intro v hv
    rcases List.mem_append.mp hv with hv | hv
    · exact (hd₃ v hv).mono hg₄.code.subset
    · exact hd₄ v hv
  have hholds : ((⟨functionType, passed, label, spilled ++ locals, []⟩ : FunctionParts).scope
      f).Holds known t₄ := by
    intro v hv
    obtain ⟨w, hw, rfl⟩ := List.mem_map.mp hv
    rcases List.mem_append.mp hw with hw | hw
    · have hmem : w.1.type ∈ f.parameters := hspilled ▸ List.mem_map_of_mem hw
      obtain ⟨hcarries, ty, hty⟩ := hp w.1.type hmem
      have hg := hg₁.trans (hg₂.trans (hg₃.trans hg₄))
      exact ⟨hcarries.grow hg, ty, hg.types.ready ty _ hty⟩
    · obtain ⟨ty, _, hty, hvalue⟩ := exists_of_forall₂ hlocals (List.mem_map_of_mem hw)
      exact ⟨⟨(hd₄ w hw).1, .inl hvalue⟩, ty, hty⟩
  dsimp only
  rw [hdeclared]
  refine Lands.bind (lands_lowerFrom hcompile h₄ hholds f.method.method.body hk) ?_
  rintro body t₅ hg₅ ⟨h₅, hbody⟩
  have hcode := FunctionParts.code_eq f functionType label locals body hn hpassed
  refine lands_pure ⟨?_, ⟨functionType, passed, label, spilled ++ locals, body⟩, rfl, hcode,
    hpassed, fun v hv => (hslots v hv).mono hg₅.code.subset, ?_, ?_, hbody⟩
  · rw [hcode]
    refine h₅.of_count ?_
    intro x
    rw [FunctionParts.results_code hpassed]
    simp only [slotIds, List.map_append, List.cons_append, List.count_append, List.count_cons]
    omega
  · have htake : ((spilled ++ locals).map Prod.fst).take f.parameters.length =
        spilled.map Prod.fst := by
      rw [List.map_append, ← hn, List.take_left' (by simp)]
    rw [FunctionParts.declared, htake, List.map_map]
    exact hspilled
  · have hdrop : ((spilled ++ locals).map Prod.fst).drop f.parameters.length =
        locals.map Prod.fst := by
      rw [List.map_append, ← hn, List.drop_left' (by simp)]
    rw [FunctionParts.declared, hdrop]
    exact hlocals.imp fun ty v hv => ⟨hg₅.types.ready ty v.type hv.1, hv.2⟩

theorem append_singleton_split {α : Type} {xs pre post : List α} {a b : α}
    (h : xs ++ [a] = pre ++ b :: post) :
    (pre = xs ∧ b = a) ∨ ∃ post', xs = pre ++ b :: post' := by
  rcases List.eq_nil_or_concat post with rfl | ⟨post', c, rfl⟩
  · have hh := List.append_inj' h rfl
    exact .inl ⟨hh.1.symm, (List.cons.inj hh.2).1.symm⟩
  · have hh := List.append_inj' (show xs ++ [a] = (pre ++ b :: post') ++ [c] by simpa using h) rfl
    exact .inr ⟨post', hh.1⟩

theorem Session.Sound.pushFunction {f : Function} {q : FunctionParts}
    (hs : s.Sound p known (results f.code ++ held)) (hb : f.Built p s.code s.functionList q)
    (hsourced : f.Sourced s.Lowered q) (hm : known f.method) (journal : Journal)
    {entryPoints modes : Array Inst}
    (he : entryPoints.toList = s.entryPoints.toList ++ f.entryPoint?.toList)
    (hmode : modes.toList = s.modes.toList ++ f.mode?.toList) :
    ({ s with journal, entryPoints, modes, order := s.order.push f } : Session).Sound p known
      held := by
  have hlist : ({ s with journal, entryPoints, modes, order := s.order.push f } :
      Session).functionList = s.functionList ++ [f] := by
    simp [Session.functionList]
  have hcode : ({ s with journal, entryPoints, modes, order := s.order.push f } :
      Session).code = s.code := rfl
  have hone : ∀ g : Function → Option Inst, [f].filterMap g = (g f).toList := by
    intro g
    cases h : g f <;> simp [h]
  constructor
  · intro x
    have hx := hs.ids x
    simp only [Session.defined, hlist, hcode, List.flatMap_append, List.flatMap_cons,
      List.flatMap_nil, List.append_nil, Binary.results_append, List.count_append] at hx ⊢
    omega
  · exact hs.declarations
  · exact hs.types
  · exact hs.structs
  · exact hs.values
  · intro id g hg
    obtain ⟨h, hid⟩ := hs.functions id g hg
    exact ⟨by rw [hlist]; exact List.mem_append_left _ h, hid⟩
  · intro pre g post hg
    rw [hlist] at hg
    rcases append_singleton_split hg with ⟨rfl, rfl⟩ | ⟨post', hg⟩
    · exact ⟨q, hb, hsourced⟩
    · exact hs.lowered pre g post' hg
  · intro g hg
    rw [hlist, List.mem_append, List.mem_singleton] at hg
    rcases hg with hg | rfl
    · exact hs.known g hg
    · exact hm
  · rw [hlist, List.filterMap_append, ← hs.entryPoints, hone]
    exact he
  · rw [hlist, List.filterMap_append, ← hs.modes, hone]
    exact hmode

theorem Session.grows_pushFunction (s : Session) (f : Function) (journal : Journal)
    (entryPoints modes : Array Inst) :
    s.Grows { s with journal, entryPoints, modes, order := s.order.push f } where
  code := List.prefix_rfl
  functionList := ⟨[f], by simp [Session.functionList]⟩
  types := .refl _
  functions := .refl _

/-- The last steps of building a function cannot fail. -/
theorem lands_publish {f : Function} {q : FunctionParts}
    (hs : s.Sound p known (results f.code ++ held)) (hb : f.Built p s.code s.functionList q)
    (hsourced : f.Sourced s.Lowered q) (hm : known f.method) :
    Lands p known (publish f) s fun g t =>
      t.Sound p known held ∧ g ∈ t.functionList ∧ g.method.id = f.method.id := by
  unfold publish
  cases hkernel : f.method.method.kernelSize? with
  | none =>
    refine ⟨s.grows_pushFunction f _ _ _, hs.pushFunction hb hsourced hm _ ?_ ?_, ?_, rfl⟩
    · simp [Function.entryPoint?, hkernel]
    · simp [Function.mode?, hkernel]
    · simp [Session.functionList]
  | some size =>
    refine ⟨s.grows_pushFunction f _ _ _, hs.pushFunction hb hsourced hm _ ?_ ?_, ?_, rfl⟩
    · simp [Function.entryPoint?, hkernel]
    · simp [Function.mode?, hkernel]
    · simp [Session.functionList]

theorem lands_buildFunction (hl : LowersWell p known lower) (hk : Resolves p known)
    (hcompile : CompilesWell p known compile) (hs : s.Sound p known held) {m : LocatedMethod}
    (hm : known m) :
    Lands p known (buildFunction lower (callee p compile) m) s fun f t =>
      t.Sound p known held ∧ f ∈ t.functionList ∧ f.method.id = m.id := by
  refine (lands_lowerReturn hl hs m.method.returnType).bind ?_
  rintro returnType t₁ hg₁ ⟨h₁, hd₁, hreturn, hreturnEntry⟩
  refine (lands_lowerReceiver hl h₁ m.method).bind ?_
  rintro receiver t₂ hg₂ ⟨h₂, hreceiver⟩
  refine (lands_lowerParameters hl h₂ m.fullName m.method.parameterTypes).bind ?_
  rintro others t₃ hg₃ ⟨h₃, hothers⟩
  dsimp only
  have hreceiver₃ := hreceiver.imp hg₃.types.ready
  have hreceived : List.Forall₂ t₃.Lowered (receivedTypes m.method) (receiver ++ others) :=
    List.rel_append hreceiver₃ (hothers.imp fun _ _ h => h.1)
  have hparameters : ∀ t ∈ receiver ++ others, t₃.Carries known t ∧ ∃ ty, t₃.Lowered ty t := by
    intro t ht
    rcases List.mem_append.mp ht with ht | ht
    · obtain ⟨ty, hmem, hty⟩ := exists_of_forall₂ hreceiver₃ ht
      obtain ⟨hstatic, rfl⟩ : m.method.isStatic = false ∧ ty = m.method.owner := by
        cases h : m.method.isStatic <;> simp_all
      exact ⟨⟨(h₃.types _ t hty).declared, .inr ⟨m, hm, hstatic, hty⟩⟩, _, hty⟩
    · obtain ⟨ty, _, hty, hvalue⟩ := exists_of_forall₂ hothers ht
      exact ⟨⟨(h₃.types ty t hty).declared, .inl hvalue⟩, ty, hty⟩
  have hdeclared : ∀ t ∈ receiver ++ others, t.Declared t₃.code :=
    fun t ht => (hparameters t ht).1.declared
  have hreturn₃ := hd₁.mono (hg₂.trans hg₃).code.subset
  by_cases hkernel : (m.method.kernelSize?.isSome &&
      (!returnType.isVoid || !(receiver ++ others).isEmpty)) = true
  · simp only [hkernel, if_true]
    exact lands_fail_bind h₃ _
  · simp only [hkernel]
    refine (lands_intern h₃ (valid_function hreturn₃ hdeclared)
      (fun _ => Session.values_of_map _ rfl fun t ht => (hparameters t ht).1) (by simp)).bind ?_
    rintro functionType t₄ hg₄ ⟨h₄, hft⟩
    refine (lands_fresh h₄).bind ?_
    intro id t₅ hg₅ h₅
    have hg₃₅ := hg₄.trans hg₅
    have hparameters₅ : ∀ t ∈ receiver ++ others, t₅.Carries known t ∧ ∃ ty, t₅.Lowered ty t := by
      intro t ht
      obtain ⟨hcarries, ty, hty⟩ := hparameters t ht
      exact ⟨hcarries.grow hg₃₅, ty, hg₃₅.types.ready ty t hty⟩
    refine (lands_lowerBody hl hcompile ⟨id, m, returnType, receiver ++ others, []⟩
      functionType (fun callee hcall => hk m callee hm hcall) h₅ hparameters₅).bind ?_
    rintro code t₆ hg₆ ⟨h₆, q, rfl, hcode, hpassed, hslots, hspilled, hlocals, hbody⟩
    have hsub := (hg₃₅.trans hg₆).code.subset
    have hready := (hg₃₅.trans hg₆).types.ready
    have hb : Function.Built p t₆.code t₆.functionList
        ⟨id, m, returnType, receiver ++ others, code⟩ q :=
      { code_eq := hcode
        returnType := hreturn₃.mono hsub
        returnLowers := hreturn
        parameters := fun t ht => (hdeclared t ht).mono hsub
        parameterLowers := hreceived.imp fun ty t h => (h₃.types ty t h).lowers
        functionType := (hg₅.trans hg₆).code.subset hft
        passed := hpassed
        slots := hslots
        spilled := hspilled
        locals := locals_of_forall₂ (hlocals.imp fun ty v h => (h₆.types ty v.type h.1).lowers)
        body := hbody }
    have hsourced : Function.Sourced t₆.Lowered ⟨id, m, returnType, receiver ++ others, code⟩ q :=
      { returnType := fun ty hty =>
          hready ty _ ((hg₂.trans hg₃).types.ready ty _ (hreturnEntry ty hty))
        parameters := ⟨receiver, others, rfl, hreceiver₃.imp hready,
          hothers.imp fun ty t h => ⟨hready ty t h.1, h.2⟩⟩
        locals := hlocals
        kernel := by
          intro hsome
          simpa [hsome] using hkernel }
    exact lands_publish (f := ⟨id, m, returnType, receiver ++ others, code⟩) h₆ hb hsourced hm

end ShaderIR.Lowering
