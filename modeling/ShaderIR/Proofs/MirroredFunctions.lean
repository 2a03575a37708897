import ShaderIR.Proofs.MirroredBodies

/-! Compiling methods again that a finished session has functions for. Each method is compiled to a
function that matches, whatever has been compiled before, as long as the depth suffices. -/

namespace ShaderIR.Lowering

open Binary (Op Id Inst results)

variable {p : Program} {s t : Session} {cells : OpenCells} {reserved names : List UInt32}
variable {enough : Prop} {lower : Ty → M LoweredType} {bound : Nat}

/-- All types of the session are smaller than the bound. -/
def Session.TypesBelow (s : Session) (bound : Nat) : Prop :=
  ∀ ty b, s.Lowered ty b → sizeOf b < bound

theorem Session.exists_typesBelow (s : Session) : ∃ bound, s.TypesBelow bound := by
  refine ⟨sizeOf s.types.cells, ?_⟩
  intro ty b hb
  have hcell : s.types.cells.lookup ty = some (.ready b) := OnceMap.get?_eq_some.mp hb
  obtain ⟨l, l', hl, _⟩ := List.lookup_eq_some_iff.mp hcell
  have hlt := List.sizeOf_lt_of_mem (show (ty, Cell.ready b) ∈ s.types.cells by simp [hl])
  simp at hlt
  omega

theorem repeats_lowerReturn (hs : s.Finished p) (hl : LowersAgain s cells enough lower bound)
    (hbound : s.TypesBelow bound) (h : s.Mirrors cells reserved names t) {ty : Option Ty}
    {b : LoweredType} (hd : b.Declared s.code) (hr : LowersReturn p ty b)
    (hb : ∀ ty', ty = some ty' → s.Lowered ty' b) :
    Repeats enough (lowerReturn lower ty) t names fun a names' u =>
      s.Mirrors cells reserved names' u ∧ a.Matches (StandsFor names') b := by
  cases ty with
  | none =>
    have hshape : b.shape = .void := hr
    have hparts : b.shape.parts = [] := by rw [hshape]; rfl
    exact repeats_shape hs h .void (by rw [hshape]) (by rw [hparts]; exact .nil) hd.here
      (by simp [hshape, Shape.key]) _
  | some ty =>
    have hlow := hb ty rfl
    exact hl hlow (hbound ty b hlow) h

theorem repeats_lowerReceiver (hl : LowersAgain s cells enough lower bound)
    (hbound : s.TypesBelow bound) (h : s.Mirrors cells reserved names t) {m : Method}
    {bs : List LoweredType}
    (hb : List.Forall₂ s.Lowered (if m.isStatic then [] else [m.owner]) bs) :
    Repeats enough (lowerReceiver lower m) t names fun as names' u =>
      s.Mirrors cells reserved names' u ∧
        List.Forall₂ (LoweredType.Matches (StandsFor names')) as bs := by
  unfold lowerReceiver
  by_cases hm : m.isStatic = true
  · simp only [hm, if_true] at hb ⊢
    cases hb
    exact .pure ⟨h, .nil⟩
  · simp only [hm] at hb ⊢
    cases hb with
    | cons hlow hnil =>
      cases hnil
      refine (hl hlow (hbound _ _ hlow) h).bind ?_
      intro a names₁ u₁ _ hu₁
      exact .pure ⟨hu₁.1, .cons hu₁.2 .nil⟩

theorem repeats_lowerParameters (hl : LowersAgain s cells enough lower bound)
    (hbound : s.TypesBelow bound) (h : s.Mirrors cells reserved names t) (method : String)
    {tys : List Ty} {bs : List LoweredType}
    (hb : List.Forall₂ (fun ty b => s.Lowered ty b ∧ b.isVoid = false) tys bs) :
    Repeats enough (lowerParameters lower method tys) t names fun as names' u =>
      s.Mirrors cells reserved names' u ∧
        List.Forall₂ (LoweredType.Matches (StandsFor names')) as bs := by
  induction hb generalizing t names with
  | nil => exact .pure ⟨h, .nil⟩
  | cons hlow _ ih =>
    refine (hl hlow.1 (hbound _ _ hlow.1) h).bind ?_
    intro a names₁ u₁ _ hu₁
    have hvoid : a.isVoid = false := hu₁.2.isVoid_eq.trans hlow.2
    simp only [hvoid]
    refine Repeats.bind (ih hu₁.1) ?_
    intro as names₂ u₂ hnames₂ hu₂
    exact .pure ⟨hu₂.1, .cons (hu₁.2.mono (StandsFor.mono hnames₂)) hu₂.2⟩

/-- The variables match, and so do their pointer types. -/
structure SlotMatches (r : UInt32 → UInt32 → Prop) (v w : Variable × Id) : Prop where
  slot : v.1.Matches r w.1
  pointerType : r v.2.val w.2.val

theorem SlotMatches.mono {r r' : UInt32 → UInt32 → Prop} {v w : Variable × Id}
    (hr : ∀ x y, r x y → r' x y) (h : SlotMatches r v w) : SlotMatches r' v w :=
  ⟨h.slot.mono hr, hr _ _ h.pointerType⟩

theorem repeats_declareVariable (hs : s.Finished p) {w : Variable × Id}
    (h : s.Mirrors cells (w.1.pointer.val :: reserved) names t) (hw : SlotDeclared s.code w)
    {type : LoweredType} (ht : type.Matches (StandsFor names) w.1.type) :
    Repeats enough (declareVariable type) t names fun result names' u =>
      ∃ v, result = slotInst v ∧ s.Mirrors cells reserved names' u ∧
        SlotMatches (StandsFor names') v w := by
  refine (repeats_pointer hs h ht.id hw.2).bind ?_
  intro pointerType names₁ u₁ hnames₁ hu₁
  refine (repeats_fresh hu₁.1).bind ?_
  intro pointer names₂ u₂ hnames₂ hu₂
  have ht₂ := ht.mono (StandsFor.mono (hnames₁.trans hnames₂))
  exact .pure ⟨(⟨type, pointer⟩, pointerType), rfl, hu₂.1, ⟨ht₂, hu₂.2⟩,
    StandsFor.mono hnames₂ _ _ hu₁.2⟩

theorem repeats_declareVariables (hs : s.Finished p) {slots : List (Variable × Id)}
    (h : s.Mirrors cells (slotIds slots ++ reserved) names t)
    (hslots : ∀ w ∈ slots, SlotDeclared s.code w) {types : List LoweredType}
    (ht : List.Forall₂ (fun a w => a.Matches (StandsFor names) (Variable.type (Prod.fst w))) types
      slots) :
    Repeats enough (declareVariables types) t names fun result names' u =>
      ∃ vs, result = vs.map slotInst ∧ s.Mirrors cells reserved names' u ∧
        List.Forall₂ (SlotMatches (StandsFor names')) vs slots := by
  induction types generalizing t names slots with
  | nil =>
    cases ht
    exact .pure ⟨[], rfl, h, .nil⟩
  | cons type types ih =>
    cases ht with
    | @cons _ w _ slots hw hrest =>
      refine (repeats_declareVariable hs h (hslots w (by simp)) hw).bind ?_
      intro _ names₁ u₁ hnames₁ hu₁
      obtain ⟨v, rfl, hu₁, hv⟩ := hu₁
      have hrest₁ := hrest.imp fun _ _ hm => hm.mono (StandsFor.mono hnames₁)
      refine Repeats.bind (ih hu₁ (fun w' hw' => hslots w' (by simp [hw'])) hrest₁) ?_
      intro _ names₂ u₂ hnames₂ hu₂
      obtain ⟨vs, rfl, hu₂, hvs⟩ := hu₂
      exact .pure ⟨v :: vs, rfl, hu₂, .cons (hv.mono (StandsFor.mono hnames₂)) hvs⟩

theorem repeats_declareLocals (hs : s.Finished p) (hl : LowersAgain s cells enough lower bound)
    (hbound : s.TypesBelow bound) {slots : List (Variable × Id)}
    (h : s.Mirrors cells (slotIds slots ++ reserved) names t)
    (hslots : ∀ w ∈ slots, SlotDeclared s.code w) (method : String) {is : List Instruction}
    (hb : List.Forall₂ (fun ty w => s.Lowered ty (Variable.type (Prod.fst w)) ∧
      w.1.type.isVoid = false) (definedTypes is) slots) :
    Repeats enough (declareLocals lower method is) t names fun result names' u =>
      ∃ vs, result = vs.map slotInst ∧ s.Mirrors cells reserved names' u ∧
        List.Forall₂ (SlotMatches (StandsFor names')) vs slots := by
  induction is generalizing t names slots with
  | nil =>
    cases hb
    exact .pure ⟨[], rfl, h, .nil⟩
  | cons i rest ih =>
    rw [declareLocals.eq_def]
    split
    · rename_i heq
      simp at heq
    · rename_i ty rest' heq
      obtain ⟨rfl, rfl⟩ := List.cons.inj heq
      cases hb with
      | @cons _ w _ slots hw hrest =>
        refine (hl hw.1 (hbound _ _ hw.1) h).bind ?_
        intro type names₀ u₀ hnames₀ hu₀
        have hvoid : type.isVoid = false := hu₀.2.isVoid_eq.trans hw.2
        simp only [hvoid]
        refine Repeats.bind (repeats_declareVariable hs hu₀.1 (hslots w (by simp)) hu₀.2) ?_
        intro _ names₁ u₁ hnames₁ hu₁
        obtain ⟨v, rfl, hu₁, hv⟩ := hu₁
        refine Repeats.bind (ih hu₁ (fun w' hw' => hslots w' (by simp [hw'])) hrest) ?_
        intro _ names₂ u₂ hnames₂ hu₂
        obtain ⟨vs, rfl, hu₂, hvs⟩ := hu₂
        exact .pure ⟨v :: vs, rfl, hu₂, .cons (hv.mono (StandsFor.mono hnames₂)) hvs⟩
    · rename_i j rest' hne heq
      obtain ⟨rfl, rfl⟩ := List.cons.inj heq
      rw [definedTypes_cons_of_ne fun ty hi => hne ty rfl hi] at hb
      exact ih h hslots hb

theorem repeats_freshParameters {types : List LoweredType} {passed : List Id}
    (hn : passed.length = types.length)
    (h : s.Mirrors cells (passed.map Id.val ++ reserved) names t) :
    Repeats enough (freshParameters types) t names fun result names' u =>
      ∃ ids, result = List.zipWith parameterInst types ids ∧ s.Mirrors cells reserved names' u ∧
        List.Forall₂ (fun x y => StandsFor names' (Id.val x) (Id.val y)) ids passed := by
  induction types generalizing t names passed with
  | nil =>
    obtain rfl : passed = [] := List.length_eq_zero_iff.mp hn
    exact .pure ⟨[], rfl, h, .nil⟩
  | cons type types ih =>
    cases passed with
    | nil => simp at hn
    | cons y passed =>
      refine (repeats_fresh h).bind ?_
      intro id names₁ u₁ hnames₁ hu₁
      refine Repeats.bind (ih (by simpa using hn) hu₁.1) ?_
      intro _ names₂ u₂ hnames₂ hu₂
      obtain ⟨ids, rfl, hu₂, hids⟩ := hu₂
      exact .pure ⟨id :: ids, rfl, hu₂, .cons (StandsFor.mono hnames₂ _ _ hu₁.2) hids⟩

theorem forall₂_zipWith {α β γ α' β' γ' : Type} {q : α → α' → Prop} {r : β → β' → Prop}
    {f : α → β → γ} {f' : α' → β' → γ'} {m : γ → γ' → Prop}
    (hf : ∀ a a' b b', q a a' → r b b' → m (f a b) (f' a' b')) {as : List α} {as' : List α'}
    {bs : List β} {bs' : List β'} (ha : List.Forall₂ q as as') (hb : List.Forall₂ r bs bs') :
    List.Forall₂ m (List.zipWith f as bs) (List.zipWith f' as' bs') := by
  induction ha generalizing bs bs' with
  | nil => exact .nil
  | cons haa _ ih =>
    cases hb with
    | nil => exact .nil
    | cons hbb hrest => exact .cons (hf _ _ _ _ haa hbb) (ih hrest)

/-- The parts of functions match. -/
structure FunctionParts.Matches (r : UInt32 → UInt32 → Prop) (q q' : FunctionParts) : Prop where
  functionType : r q.functionType.val q'.functionType.val
  passed : List.Forall₂ (fun x y => r (Id.val x) (Id.val y)) q.passed q'.passed
  label : r q.label.val q'.label.val
  slots : List.Forall₂ (SlotMatches r) q.slots q'.slots
  body : List.Forall₂ (Inst.Matches r) q.body q'.body

namespace FunctionParts.Matches

variable {r : UInt32 → UInt32 → Prop} {q q' : FunctionParts} {f g : Function}

theorem declared (h : q.Matches r q') :
    List.Forall₂ (Variable.Matches r) q.declared q'.declared := by
  unfold FunctionParts.declared
  rw [List.forall₂_map_left_iff, List.forall₂_map_right_iff]
  exact h.slots.imp fun _ _ hv => hv.slot

theorem inner (h : q.Matches r q')
    (hp : List.Forall₂ (LoweredType.Matches r) f.parameters g.parameters) :
    List.Forall₂ (Inst.Matches r) (q.inner f) (q'.inner g) := by
  have hparameters : List.Forall₂ (Inst.Matches r) (q.parameterInsts f) (q'.parameterInsts g) :=
    forall₂_zipWith (fun _ _ _ _ ht hid => ⟨rfl, ht.id, hid, trivial⟩) hp h.passed
  have hlabel : q.labelInst.Matches r q'.labelInst := ⟨rfl, h.label, trivial⟩
  have hvariables : List.Forall₂ (Inst.Matches r) q.variableInsts q'.variableInsts := by
    unfold variableInsts
    rw [List.forall₂_map_left_iff, List.forall₂_map_right_iff]
    exact h.slots.imp fun _ _ hv => ⟨rfl, hv.pointerType, hv.slot.pointer, rfl, trivial⟩
  have hstores : List.Forall₂ (Inst.Matches r) q.storeInsts q'.storeInsts := by
    apply forall₂_zipWith _ h.declared h.passed
    intro v w x y hvw hxy
    exact matches_storeTo hvw.pointer hxy
  exact List.rel_append hparameters (.cons hlabel (List.rel_append hvariables
    (List.rel_append hstores h.body)))

theorem code (h : q.Matches r q') (hid : r f.id.val g.id.val)
    (ht : f.returnType.Matches r g.returnType)
    (hp : List.Forall₂ (LoweredType.Matches r) f.parameters g.parameters) :
    List.Forall₂ (Inst.Matches r) (q.headInst f :: (q.inner f ++ [⟨.functionEnd, []⟩]))
      (q'.headInst g :: (q'.inner g ++ [⟨.functionEnd, []⟩])) := by
  have hhead : (q.headInst f).Matches r (q'.headInst g) :=
    ⟨rfl, ht.id, hid, rfl, h.functionType, trivial⟩
  have hend : Inst.Matches r ⟨.functionEnd, []⟩ ⟨.functionEnd, []⟩ := ⟨rfl, trivial⟩
  exact .cons hhead (List.rel_append (h.inner hp) (.cons hend .nil))

end FunctionParts.Matches

variable {compile : LocatedMethod → M Function} {earlier : List Function}

/-- The variables of a function are those of its parameters and those that its body defines. -/
theorem Function.Sourced.slots_split {g : Function} {q : FunctionParts}
    (hq : g.Sourced s.Lowered q) {code : List Inst} (hb : g.Built p code earlier q) :
    ∃ spilled locals, q.slots = spilled ++ locals ∧
      spilled.map (fun w => w.1.type) = g.parameters ∧
      List.Forall₂ (fun ty w => s.Lowered ty (Variable.type (Prod.fst w)) ∧
        w.1.type.isVoid = false) (definedTypes g.method.method.body) locals := by
  refine ⟨q.slots.take g.parameters.length, q.slots.drop g.parameters.length,
    (List.take_append_drop _ _).symm, ?_, ?_⟩
  · have hspilled := hb.spilled
    rw [FunctionParts.declared, ← List.map_take, List.map_map] at hspilled
    exact hspilled
  · have hlocals := hq.locals
    rw [FunctionParts.declared, ← List.map_drop, List.forall₂_map_right_iff] at hlocals
    exact hlocals

theorem repeats_lowerBody (hs : s.Finished p) (hl : LowersAgain s cells enough lower bound)
    (hbound : s.TypesBelow bound) (hcompile : CompilesAgain s cells enough compile earlier)
    (hearlier : earlier ⊆ s.functionList) {f g : Function} {functionType : Id} {q : FunctionParts}
    (hb : g.Built p s.code earlier q) (hq : g.Sourced s.Lowered q)
    (h : s.Mirrors cells (q.passed.map Id.val ++ q.label.val :: (slotIds q.slots ++
      results q.body) ++ reserved) names t)
    (hmethod : f.method = g.method) (hid : StandsFor names f.id.val g.id.val)
    (hr : f.returnType.Matches (StandsFor names) g.returnType)
    (hp : List.Forall₂ (LoweredType.Matches (StandsFor names)) f.parameters g.parameters)
    (hft : StandsFor names functionType.val q.functionType.val) :
    RepeatsCode s cells enough
      (lowerBody lower (callee p compile) f.method.method f.id functionType f.returnType f.parameters) t
      reserved names g.code := by
  obtain ⟨spilled', locals', hsplit, hspilled, hlocals⟩ := hq.slots_split hb
  have hn : q.passed.length = f.parameters.length := hb.passed.trans hp.length_eq.symm
  have hdeclared : ∀ w ∈ spilled' ++ locals', SlotDeclared s.code w :=
    fun w hw => hb.slots w (hsplit ▸ hw)
  simp only [hsplit, slotIds, List.map_append, List.append_assoc, List.cons_append] at h
  refine Repeats.bind (repeats_freshParameters hn h) ?_
  intro _ names₁ u₁ hnames₁ hu₁
  obtain ⟨passed, rfl, hu₁, hpassed⟩ := hu₁
  refine Repeats.bind (repeats_fresh hu₁) ?_
  intro label names₂ u₂ hnames₂ hu₂
  have hp₂ : List.Forall₂ (fun a w => a.Matches (StandsFor names₂) (Variable.type (Prod.fst w)))
      f.parameters spilled' := by
    have hmap := hp.imp fun _ _ hm => hm.mono (StandsFor.mono (hnames₁.trans hnames₂))
    rw [← hspilled, List.forall₂_map_right_iff] at hmap
    exact hmap
  refine Repeats.bind (repeats_declareVariables hs hu₂.1
    (fun w hw => hdeclared w (List.mem_append_left _ hw)) hp₂) ?_
  intro _ names₃ u₃ hnames₃ hu₃
  obtain ⟨spilled, rfl, hu₃, hvs₃⟩ := hu₃
  rw [← hmethod] at hlocals
  refine Repeats.bind (repeats_declareLocals hs hl hbound hu₃
    (fun w hw => hdeclared w (List.mem_append_right _ hw)) _ hlocals) ?_
  intro _ names₄ u₄ hnames₄ hu₄
  obtain ⟨locals, rfl, hu₄, hvs₄⟩ := hu₄
  have hnames₁₄ := hnames₂.trans (hnames₃.trans hnames₄)
  have hslots : List.Forall₂ (SlotMatches (StandsFor names₄)) (spilled ++ locals) q.slots := by
    rw [hsplit]
    exact List.rel_append (hvs₃.imp fun _ _ hv => hv.mono (StandsFor.mono hnames₄)) hvs₄
  have hfst : (spilled.map slotInst ++ locals.map slotInst).map Prod.fst =
      (spilled ++ locals).map Prod.fst := by
    simp [slotInst, Function.comp_def]
  have hscope : (FunctionParts.scope ⟨functionType, passed, label, spilled ++ locals, []⟩ f).Matches
      (StandsFor names₄) (q.scope g) := by
    refine ⟨hr.mono (StandsFor.mono (hnames₁.trans hnames₁₄)), ?_, hp.length_eq⟩
    change List.Forall₂ _ ((spilled ++ locals).map Prod.fst) (q.slots.map Prod.fst)
    rw [List.forall₂_map_left_iff, List.forall₂_map_right_iff]
    exact hslots.imp fun _ _ hv => hv.slot
  have hbody := hb.body
  rw [← hmethod] at hbody
  dsimp only
  rw [hfst]
  refine Repeats.bind (repeats_lowerFrom hs hcompile hearlier hbody hu₄ hscope) ?_
  intro body names₅ u₅ hnames₅ hu₅
  have hspilledLength : spilled.length = f.parameters.length := by
    rw [hvs₃.length_eq, hp.length_eq, ← hspilled, List.length_map]
  have hpassedLength : passed.length = f.parameters.length := hpassed.length_eq.trans hn
  have hmono₁ := StandsFor.mono (hnames₁₄.trans hnames₅)
  have hmono := StandsFor.mono (hnames₁.trans (hnames₁₄.trans hnames₅))
  have hparts : FunctionParts.Matches (StandsFor names₅)
      ⟨functionType, passed, label, spilled ++ locals, body⟩ q :=
    { functionType := hmono _ _ hft
      passed := hpassed.imp fun _ _ hxy => hmono₁ _ _ hxy
      label := StandsFor.mono (hnames₃.trans (hnames₄.trans hnames₅)) _ _ hu₂.2
      slots := hslots.imp fun _ _ hv => hv.mono (StandsFor.mono hnames₅)
      body := hu₅.2 }
  have hcode := FunctionParts.code_eq f functionType label locals body hspilledLength hpassedLength
  refine .pure ⟨hu₅.1, ?_⟩
  rw [hcode, hb.code_eq]
  exact hparts.code (hmono _ _ hid) (hr.mono hmono) (hp.imp fun _ _ hm => hm.mono hmono)

theorem Session.Mirrors.pushFunction (h : s.Mirrors cells reserved names t) {f g : Function}
    (hg : g ∈ s.functionList) (hf : f.Matches (StandsFor names) g) (journal : Journal)
    (entryPoints modes : Array Inst) :
    s.Mirrors cells reserved names
      { t with journal, entryPoints, modes, order := t.order.push f } where
  issued := h.issued
  distinct := h.distinct
  accounts := fun y hy => (h.accounts y hy).mono (fun _ _ hxy => hxy) (List.Subset.refl _)
    (fun _ _ ha => ha) fun _ hb => hb
  shared := h.shared
  code := h.code
  types := h.types
  functions := h.functions
  order := by
    intro f' hf'
    simp only [functionList, Array.toList_push, List.mem_append, List.mem_singleton] at hf'
    rcases hf' with hold | rfl
    · exact h.order f' hold
    · exact ⟨g, hg, hf⟩
  openTypes := h.openTypes
  openMethods := h.openMethods

theorem repeats_publish (h : s.Mirrors cells reserved names t) {f g : Function}
    (hg : g ∈ s.functionList) (hf : f.Matches (StandsFor names) g) :
    Repeats enough (publish f) t names fun f' names' u =>
      s.Mirrors cells reserved names' u ∧ f'.Matches (StandsFor names') g := by
  unfold publish
  cases f.method.method.kernelSize? with
  | none => exact ⟨names, List.prefix_rfl, h.pushFunction hg hf _ _ _, hf⟩
  | some size => exact ⟨names, List.prefix_rfl, h.pushFunction hg hf _ _ _, hf⟩

theorem repeats_buildFunction (hs : s.Finished p) (hl : LowersAgain s cells enough lower bound)
    (hbound : s.TypesBelow bound) (hcompile : CompilesAgain s cells enough compile earlier)
    {g : Function} {later : List Function} (hsplit : s.functionList = earlier ++ g :: later)
    (h : s.Mirrors cells (results g.code ++ reserved) names t) :
    Repeats enough (buildFunction lower (callee p compile) g.method) t names fun f names' u =>
      s.Mirrors cells reserved names' u ∧ f.Matches (StandsFor names') g := by
  obtain ⟨q, hb, hq⟩ := hs.sound.lowered earlier g later hsplit
  have hg : g ∈ s.functionList := by simp [hsplit]
  have hearlier : earlier ⊆ s.functionList := by simp [hsplit]
  obtain ⟨receiver', others', hparameters, hreceiver, hothers⟩ := hq.parameters
  refine (repeats_lowerReturn hs hl hbound h hb.returnType hb.returnLowers hq.returnType).bind ?_
  intro returnType names₁ u₁ hnames₁ hu₁
  refine (repeats_lowerReceiver hl hbound hu₁.1 hreceiver).bind ?_
  intro receiver names₂ u₂ hnames₂ hu₂
  refine (repeats_lowerParameters hl hbound hu₂.1 _ hothers).bind ?_
  intro others names₃ u₃ hnames₃ hu₃
  have hreturn₃ := hu₁.2.mono (StandsFor.mono (hnames₂.trans hnames₃))
  have hparameters₃ : List.Forall₂ (LoweredType.Matches (StandsFor names₃)) (receiver ++ others)
      g.parameters := by
    rw [hparameters]
    exact List.rel_append (hu₂.2.imp fun _ _ hm => hm.mono (StandsFor.mono hnames₃)) hu₃.2
  have hkernel : (g.method.method.kernelSize?.isSome &&
      (!returnType.isVoid || !(receiver ++ others).isEmpty)) = false := by
    by_cases hsome : g.method.method.kernelSize?.isSome = true
    · obtain ⟨hvoid, hnil⟩ := hq.kernel hsome
      rw [hnil] at hparameters₃
      have hempty : receiver ++ others = [] := List.forall₂_nil_right_iff.mp hparameters₃
      simp [hreturn₃.isVoid_eq, hvoid, hempty]
    · simp [hsome]
  dsimp only
  simp only [hkernel]
  refine Repeats.bind (repeats_function hs hu₃.1 hreturn₃ hparameters₃ hb.functionType) ?_
  intro functionType names₄ u₄ hnames₄ hu₄
  have hmirrors := hu₄.1
  rw [hb.code_eq, FunctionParts.results_code hb.passed, List.cons_append] at hmirrors
  refine Repeats.bind (repeats_fresh hmirrors) ?_
  intro id names₅ u₅ hnames₅ hu₅
  have hmono := StandsFor.mono (hnames₄.trans hnames₅)
  have hreturn₅ := hreturn₃.mono hmono
  have hparameters₅ := hparameters₃.imp fun _ _ hm => hm.mono hmono
  refine Repeats.bind (repeats_lowerBody (f := ⟨id, g.method, returnType, receiver ++ others, []⟩)
    hs hl hbound hcompile hearlier hb hq hu₅.1 rfl hu₅.2 hreturn₅ hparameters₅
    (StandsFor.mono hnames₅ _ _ hu₄.2)) ?_
  intro code names₆ u₆ hnames₆ hu₆
  have hmono₆ := StandsFor.mono hnames₆
  have hf : Function.Matches (StandsFor names₆) ⟨id, g.method, returnType, receiver ++ others, code⟩
      g :=
    { id := hmono₆ _ _ hu₅.2
      method := rfl
      returnType := hreturn₅.mono hmono₆
      parameters := hparameters₅.imp fun _ _ hm => hm.mono hmono₆
      code := hu₆.2 }
  exact repeats_publish hu₆.1 hg hf

/-- The method is being compiled as well. -/
def OpenCells.withMethod (cells : OpenCells) (id : MethodId) : OpenCells :=
  ⟨cells.types, fun k => k = id ∨ cells.methods k⟩

/-- The table of functions may change as long as no function that was begun is dropped. -/
theorem Session.Mirrors.withFunctions (h : s.Mirrors cells reserved names t)
    {functions : OnceMap MethodId Function} {methods : MethodId → Prop} {reserved' : List UInt32}
    (hdistinct : (names ++ reserved').Nodup)
    (haccounts : ∀ y ∈ names ++ reserved', y ∈ names ++ reserved ∨
      s.Accounts { t with functions } (StandsFor names) y)
    (hbegun : ∀ id, t.Begun id → Session.Begun { t with functions } id)
    (hfunctions : ∀ id f, functions.get? id = some f → t.functions.get? id = some f ∨
      ∃ g ∈ s.functionList, g.method.id = id ∧ f.Matches (StandsFor names) g)
    (hopen : ∀ id, functions.cell? id = some .building ↔ methods id) :
    s.Mirrors ⟨cells.types, methods⟩ reserved' names { t with functions } where
  issued := h.issued
  distinct := hdistinct
  accounts := by
    intro y hy
    rcases haccounts y hy with hold | hnew
    · exact (h.accounts y hold).mono (fun _ _ hxy => hxy) (List.Subset.refl _) (fun _ _ ha => ha)
        hbegun
    · exact hnew
  shared := h.shared
  code := h.code
  types := h.types
  functions := by
    intro id f hf
    rcases hfunctions id f hf with hold | hnew
    · exact h.functions id f hold
    · exact hnew
  order := h.order
  openTypes := h.openTypes
  openMethods := hopen

/-- No id has been taken for a function that was not asked for. -/
theorem Session.Mirrors.function_not_taken (hs : s.Finished p)
    (h : s.Mirrors cells reserved names t) {g : Function} (hg : g ∈ s.functionList)
    (hnew : ¬ t.Begun g.method.id) {y : UInt32} (hy : y ∈ results g.code) :
    y ∉ names ++ reserved := by
  intro hmem
  have haccounts := h.accounts y hmem
  cases haccounts with
  | shared _ hshared _ =>
    obtain ⟨hi, _, _, hresult⟩ := hs.declared_of_shared hshared
    exact hs.not_mem_code hg hy (Binary.result_mem hi hresult)
  | struct _ hb _ => exact hs.not_mem_code hg hy (hs.sound.types _ _ hb).declared.id_mem
  | function hg' hy' hbegun =>
    obtain rfl := hs.eq_of_mem_results hg hg' hy hy'
    exact hnew hbegun

/-- The ids of a function are reserved when it is asked for. -/
theorem Session.Mirrors.claimMethod (hs : s.Finished p) (h : s.Mirrors cells reserved names t)
    {g : Function} (hg : g ∈ s.functionList) {claimed : OnceMap MethodId Function}
    (hc : t.functions.claim g.method.id = .granted claimed) :
    s.Mirrors (cells.withMethod g.method.id) (results g.code ++ reserved) names
      { t with functions := claimed } := by
  have hget := OnceMap.get?_claimed hc
  obtain ⟨rfl, hnone, hidle⟩ := OnceMap.claim_granted hc
  have hnew : ¬ t.Begun g.method.id := by
    intro hbegun
    rcases hbegun with hbuilding | ⟨f, hf⟩
    · exact hidle hbuilding
    · exact absurd (hnone.symm.trans hf) (by simp)
  have hperm : (names ++ (results g.code ++ reserved)).Perm
      (results g.code ++ (names ++ reserved)) := List.perm_append_comm_assoc _ _ _
  refine h.withFunctions ?_ ?_ ?_ (fun id f hf => .inl ((hget id).symm.trans hf)) ?_
  · rw [hperm.nodup_iff]
    exact (hs.nodup_results hg).append h.distinct fun y hy => h.function_not_taken hs hg hnew hy
  · intro y hy
    rcases List.mem_append.mp (hperm.mem_iff.mp hy) with hresult | hold
    · exact .inr (.function hg hresult (.inl (by simp)))
    · exact .inl hold
  · intro id hbegun
    rcases hbegun with hbuilding | ⟨f, hf⟩
    · exact .inl (by by_cases hid : id = g.method.id <;> simp [hid, hbuilding])
    · exact .inr ⟨f, (hget id).trans hf⟩
  · intro id
    have hopen := h.openMethods id
    by_cases hid : id = g.method.id <;> simp [hid, hopen]

theorem Session.Mirrors.settleMethod {g f : Function}
    (h : s.Mirrors (cells.withMethod g.method.id) reserved names t)
    (hclosed : ¬ cells.methods g.method.id) (hg : g ∈ s.functionList)
    (hf : f.Matches (StandsFor names) g) :
    s.Mirrors cells reserved names
      { t with functions := t.functions.set g.method.id (.ready f) } := by
  have hnone : t.functions.get? g.method.id = none :=
    OnceMap.get?_eq_none_of_building ((h.openMethods _).mpr (.inl rfl))
  refine h.withFunctions h.distinct (fun y hy => .inl hy) ?_ ?_ ?_
  · intro id hbegun
    by_cases hid : id = g.method.id
    · exact .inr ⟨f, hid ▸ OnceMap.get?_set_ready _ _ _⟩
    · rcases hbegun with hbuilding | ⟨f', hf'⟩
      · exact .inl (by simp [hid, hbuilding])
      · exact .inr ⟨f', OnceMap.get?_set_of_get? hnone hf'⟩
  · intro id f' hf'
    rcases OnceMap.get?_of_set_ready hf' with he | hold
    · obtain ⟨rfl, rfl⟩ := he
      exact .inr ⟨g, hg, rfl, hf⟩
    · exact .inl hold
  · intro id
    have hopen := h.openMethods id
    by_cases hid : id = g.method.id
    · simp [hid, hclosed]
    · simpa [OpenCells.withMethod, hid] using hopen

theorem repeats_once_functions (hs : s.Finished p) (h : s.Mirrors cells reserved names t)
    {g : Function} (hg : g ∈ s.functionList) (hclosed : ¬ cells.methods g.method.id)
    {build : M Function}
    (hbuild : ∀ t', s.Mirrors (cells.withMethod g.method.id) (results g.code ++ reserved) names t' →
      Repeats enough build t' names fun f names' u =>
        s.Mirrors (cells.withMethod g.method.id) reserved names' u ∧
          f.Matches (StandsFor names') g) :
    Repeats enough (once .functions g.method.id build) t names fun f names' u =>
      s.Mirrors cells reserved names' u ∧ f.Matches (StandsFor names') g := by
  unfold Repeats Walk.Ends
  rw [once_outcome]
  cases hc : (Table.functions.get t).claim g.method.id with
  | found f =>
    obtain ⟨g', hg', hid, hf⟩ := h.functions _ f (OnceMap.claim_found hc)
    obtain rfl := hs.eq_of_method_id_eq hg' hg hid
    exact ⟨names, List.prefix_rfl, h, hf⟩
  | reentrant => exact absurd ((h.openMethods _).mp (OnceMap.claim_reentrant hc)) hclosed
  | granted claimed =>
    have hends := hbuild _ (h.claimMethod hs hg hc)
    unfold Repeats Walk.Ends at hends
    dsimp only
    rcases ho : build.outcome (Table.functions.set t claimed) with ⟨e | f, u⟩
    · have ho' : build.outcome { t with functions := claimed } = _ := ho
      rw [ho'] at hends
      exact hends
    · have ho' : build.outcome { t with functions := claimed } = _ := ho
      rw [ho'] at hends
      obtain ⟨names', hnames, hu, hf⟩ := hends
      exact ⟨names', hnames, hu.settleMethod hclosed hg hf, hf⟩

/-- A method can be compiled again while only methods of later functions are being compiled. -/
theorem repeats_compileMethod (hs : s.Finished p) (hbound : s.TypesBelow bound) (depth : Nat)
    {g : Function} {earlier later : List Function}
    (hsplit : s.functionList = earlier ++ g :: later)
    (htypes : ∀ ty, ¬ cells.types ty)
    (hopen : ∀ id, cells.methods id → ∃ f ∈ later, f.method.id = id)
    (h : s.Mirrors cells reserved names t) :
    Repeats (bound + earlier.length < depth) (compileMethod p depth g.method) t names
      fun f names' u => s.Mirrors cells reserved names' u ∧ f.Matches (StandsFor names') g := by
  -- the functions under construction come later in the list, so that none is asked for again
  induction depth generalizing cells g earlier later t reserved names with
  | zero => exact ⟨rfl, by omega⟩
  | succ depth ih =>
    have hg : g ∈ s.functionList := by simp [hsplit]
    have hdistinct := hs.distinct
    rw [hsplit, List.map_append, List.map_cons] at hdistinct
    have hclosed : ¬ cells.methods g.method.id := by
      intro hid
      obtain ⟨f, hf, he⟩ := hopen _ hid
      have hnot := (List.nodup_cons.mp hdistinct.of_append_right).1
      exact hnot (List.mem_map.mpr ⟨f, hf, he⟩)
    have htypes' : ∀ ty, ¬ (cells.withMethod g.method.id).types ty := htypes
    rw [compileMethod]
    refine repeats_once_functions hs h hg hclosed fun t' ht' => ?_
    refine repeats_buildFunction hs ?_ hbound ?_ hsplit ht'
    · intro ty b t'' reserved' names' hb hlt ht''
      have hty := repeats_lowerType hs depth hb (fun ty' hty' => absurd hty' (htypes' ty')) ht''
      exact hty.weaken (by omega)
    · intro g' t'' reserved' names' hg' ht''
      obtain ⟨before, after, rfl⟩ := List.append_of_mem hg'
      have hsplit' : s.functionList = before ++ g' :: (after ++ g :: later) := by simp [hsplit]
      have hopen' : ∀ id, (cells.withMethod g.method.id).methods id →
          ∃ f ∈ after ++ g :: later, f.method.id = id := by
        intro id hid
        rcases hid with rfl | hid
        · exact ⟨g, by simp, rfl⟩
        · obtain ⟨f, hf, he⟩ := hopen id hid
          exact ⟨f, by simp [hf], he⟩
      refine (ih hsplit' htypes' hopen' ht'').weaken ?_
      simp only [List.length_append, List.length_cons]
      omega

/-- A session repeats the work of a finished one and has no cell open. -/
abbrev Session.Copies (s : Session) (names : List UInt32) (t : Session) : Prop :=
  s.Mirrors ⟨fun _ => False, fun _ => False⟩ [] names t

theorem Session.copies_empty (s : Session) : s.Copies [] {} where
  issued := rfl
  distinct := List.nodup_nil
  accounts := by simp
  shared := by simp
  code := by simp [code]
  types := fun ty a ha => by cases ha
  functions := fun id f hf => by cases hf
  order := by simp [functionList]
  openTypes := fun ty => by simp [OnceMap.cell?, OnceMap.empty]
  openMethods := fun id => by simp [OnceMap.cell?, OnceMap.empty]

/-- Methods that a finished session has compiled can be compiled again in any order. -/
theorem repeats_compileAll (hs : s.Finished p) (hbound : s.TypesBelow bound) (depth : Nat)
    {ms : List LocatedMethod} (hms : ∀ m ∈ ms, ∃ g ∈ s.functionList, g.method = m)
    (h : s.Copies names t) :
    Repeats (bound + s.functionList.length ≤ depth) (compileAll p depth ms) t names
      fun _ names' u => s.Copies names' u := by
  induction ms generalizing t names with
  | nil => exact .pure h
  | cons m ms ih =>
    obtain ⟨g, hg, rfl⟩ := hms m (by simp)
    obtain ⟨earlier, later, hsplit⟩ := List.append_of_mem hg
    have hone := repeats_compileMethod hs hbound depth hsplit (fun _ hfalse => hfalse)
      (fun _ hfalse => False.elim hfalse) h
    have henough : bound + s.functionList.length ≤ depth → bound + earlier.length < depth := by
      simp only [hsplit, List.length_append, List.length_cons]
      omega
    refine (hone.weaken henough).bind ?_
    intro _ names' u _ hu
    exact ih (fun m' hm' => hms m' (by simp [hm'])) hu.1

end ShaderIR.Lowering
