import ShaderIR.Proofs.ByValueLayout
import ShaderIR.Proofs.MethodObjects
import ShaderIR.Proofs.Outcome
import ShaderIR.Proofs.ReadableCode

/-! The steps of lowering between requests. They make ids, declarations and log entries and look
at nothing else, so they are the same however methods are told apart, and what they put out can be
read back. -/

namespace ShaderIR

section Validation

variable {p : Program} {h : Heap}

theorem CallGraph.along_visit (p : Program) (h : Heap) (depth : Nat) (stack : List LocatedMethod)
    (m : LocatedMethod) :
    (visit p depth stack m).Along (fun g => h.Grows g.journal.heap) fun _ => True := by
  induction depth generalizing stack m with
  | zero => exact Walk.along_throw _
  | succ depth ih =>
    have hbody : ∀ is, (walkBody p (visit p depth (stack ++ [m])) is).Along
        (fun g => h.Grows g.journal.heap) fun _ => True := by
      intro is
      fun_induction walkBody p (visit p depth (stack ++ [m])) is with
      | case1 => exact Walk.along_pure trivial
      | case2 r operands origin rest ihrest =>
        have hresolve : (CallGraph.resolve p r).Along (fun g => h.Grows g.journal.heap)
            fun target => p.resolve r = .ok target := by
          refine Walk.Along.bind (Walk.along_modify fun g hg => ?_) fun _ _ =>
            Walk.along_ofExcept _
          exact hg.trans (Heap.grows_resolve g.journal.heap p r)
        refine hresolve.bind fun target _ => ?_
        cases target.concrete? with
        | none => exact ihrest
        | some callee => exact (ih _ callee).bind fun _ _ => ihrest
      | case3 ty operands origin rest ihrest =>
        exact Walk.Along.bind (Walk.along_modify fun _ hg => hg) fun _ _ => ihrest
      | case4 i rest _ _ ihrest => exact ihrest
    rw [visit]
    refine Walk.along_get.bind fun g _ => ?_
    split
    · exact Walk.along_pure trivial
    cases cycle? stack m with
    | some chain => exact Walk.along_throw _
    | none =>
      refine Walk.Along.bind (Walk.along_modify fun _ hg => hg) fun _ _ => ?_
      exact (hbody _).bind fun _ _ => Walk.along_modify fun _ hg => hg

theorem CallGraph.along_visitAll (p : Program) (h : Heap) (depth : Nat)
    (ms : List LocatedMethod) :
    (visitAll p depth ms).Along (fun g => h.Grows g.journal.heap) fun _ => True := by
  induction ms with
  | nil => exact Walk.along_pure trivial
  | cons m rest ih =>
    rw [visitAll]
    split
    · exact (along_visit p h depth [] m).bind fun _ _ => ih
    · exact ih

theorem Layouts.along_visitEach {visit : Ty → M Unit}
    (hvisit : ∀ ty, (visit ty).Along (fun l => h.Grows l.journal.heap) fun _ => True)
    (tys : List Ty) :
    (visitEach visit tys).Along (fun l => h.Grows l.journal.heap) fun _ => True := by
  induction tys with
  | nil => exact Walk.along_pure trivial
  | cons ty rest ih => exact (hvisit ty).bind fun _ _ => ih

theorem Layouts.along_visit (p : Program) (h : Heap) (depth : Nat) (stack : List Ty) (ty : Ty) :
    (visit p depth stack ty).Along (fun l => h.Grows l.journal.heap) fun _ => True := by
  induction depth generalizing stack ty with
  | zero => exact Walk.along_throw _
  | succ depth ih =>
    have hconstruct : (Layouts.construct p ty).Along (fun l => h.Grows l.journal.heap)
        fun i => p.construct ty = .ok i := by
      refine Walk.Along.bind (Walk.along_modify fun l hl => ?_) fun _ _ => Walk.along_ofExcept _
      exact hl.trans (Heap.grows_construct l.journal.heap p ty)
    rw [visit]
    split
    · exact Walk.along_pure trivial
    refine Walk.along_get.bind fun l _ => ?_
    split
    · exact Walk.along_pure trivial
    dsimp only
    split
    · exact Walk.along_throw _
    · refine hconstruct.bind fun i _ => ?_
      exact (along_visitEach (ih _) _).bind fun _ _ => Walk.along_modify fun _ hl => hl

/-- Validation adds objects, whatever it comes to. -/
theorem Program.heap_validateWithin (p : Program) (depth : Nat) (j : Journal) :
    j.heap.Grows ((p.validateWithin depth).outcome j).2.heap := by
  have hcalls := (CallGraph.along_visitAll p j.heap depth p.methods).last
    (s := { journal := j }) (.refl _)
  unfold validateWithin
  rw [Walk.outcome_bind, Walk.outcome_get]
  dsimp only
  rcases hg : (CallGraph.visitAll p depth p.methods).outcome { journal := j } with ⟨e | u, g⟩ <;>
    rw [hg] at hcalls
  · exact hcalls
  · let roots := (p.types.filter fun d => !d.isGeneric).map TypeDecl.selfTy ++ g.types.toList
    have hlayouts := (Layouts.along_visitEach (Layouts.along_visit p j.heap depth []) roots).last
      (s := { journal := g.journal }) hcalls
    rcases hl : (Layouts.visitEach (Layouts.visit p depth []) roots).outcome
      { journal := g.journal } with ⟨e | u, l⟩
    all_goals
      rw [hl] at hlayouts
      simpa [roots, hl, Walk.outcome_bind, ofExcept] using hlayouts

end Validation

namespace Lowering

open Binary (Op Id Inst)

variable {κ κ' α β : Type}

/-- What is left of a session without its functions, by which passes can be compared that tell
methods apart in different ways. -/
def Session.unkeyed (s : Session κ) : Session Empty :=
  { journal := s.journal
    declarations := s.declarations
    entryPoints := s.entryPoints
    modes := s.modes
    types := s.types
    order := s.order }

/-- Only ids, declarations and the journal have changed. The declarations are of the known forms
if they were, and objects are what they were. -/
structure Session.Quiet (s t : Session κ) : Prop where
  types : t.types = s.types
  functions : t.functions = s.functions
  order : t.order = s.order
  entryPoints : t.entryPoints = s.entryPoints
  modes : t.modes = s.modes
  forms : s.declarations.Forms → t.declarations.Forms
  heap : s.journal.heap.Grows t.journal.heap

theorem Session.Quiet.refl (s : Session κ) : s.Quiet s :=
  ⟨rfl, rfl, rfl, rfl, rfl, id, .refl _⟩

theorem Session.Quiet.trans {s t u : Session κ} (h : s.Quiet t) (h' : t.Quiet u) : s.Quiet u where
  types := h'.types.trans h.types
  functions := h'.functions.trans h.functions
  order := h'.order.trans h.order
  entryPoints := h'.entryPoints.trans h.entryPoints
  modes := h'.modes.trans h.modes
  forms := fun hs => h'.forms (h.forms hs)
  heap := h.heap.trans h'.heap

theorem Session.Quiet.withJournal (s : Session κ) {j : Journal} (h : s.journal.heap.Grows j.heap) :
    s.Quiet { s with journal := j } :=
  ⟨rfl, rfl, rfl, rfl, rfl, id, h⟩

/-- The two computations do the same and ask for nothing: step by step they change the same parts
of their sessions in the same way, and these parts are neither tables nor lists. They end with one
value, which satisfies `post`, or fail in the same way, and not for a cycle. -/
inductive Alike (post : α → Prop) : Pass κ α → Pass κ' α → Prop
  | value {a : α} (h : post a) : Alike post (.done (.ok a)) (.done (.ok a))
  | stop {e : Stop LoweringError} (h : e ≠ .failed .cyclic) :
      Alike post (.done (.error e)) (.done (.error e))
  | step {busy : Session κ → Bool} {next : Session κ → Session κ} {rest : Session κ → Pass κ α}
      {busy' : Session κ' → Bool} {next' : Session κ' → Session κ'}
      {rest' : Session κ' → Pass κ' α} (hquiet : ∀ s : Session κ, s.Quiet (next s))
      (hquiet' : ∀ t : Session κ', t.Quiet (next' t))
      (hnext : ∀ (s : Session κ) (t : Session κ'), s.unkeyed = t.unkeyed →
        (next s).unkeyed = (next' t).unkeyed)
      (hrest : ∀ (s : Session κ) (t : Session κ'), s.unkeyed = t.unkeyed →
        Alike post (rest s) (rest' t)) :
      Alike post (.step busy next rest) (.step busy' next' rest')

theorem Alike.bind {w : Pass κ α} {w' : Pass κ' α} {f : α → Pass κ β} {f' : α → Pass κ' β}
    {post : α → Prop} {post' : β → Prop} (h : Alike post w w')
    (hf : ∀ a, post a → Alike post' (f a) (f' a)) : Alike post' (w >>= f) (w' >>= f') := by
  induction h with
  | value h => exact hf _ h
  | stop h => exact .stop h
  | step hquiet hquiet' hnext _ ih => exact .step hquiet hquiet' hnext ih

theorem alike_modifyGet {f : Session κ → α × Session κ} {f' : Session κ' → α × Session κ'}
    {post : α → Prop} (hquiet : ∀ s : Session κ, s.Quiet (f s).2)
    (hquiet' : ∀ t : Session κ', t.Quiet (f' t).2)
    (hsame : ∀ (s : Session κ) (t : Session κ'), s.unkeyed = t.unkeyed →
      (f s).1 = (f' t).1 ∧ (f s).2.unkeyed = (f' t).2.unkeyed)
    (hpost : ∀ s : Session κ, post (f s).1) : Alike post (modifyGet f) (modifyGet f') := by
  refine .step hquiet hquiet' (fun s t hst => (hsame s t hst).2) fun s t hst => ?_
  rw [← (hsame s t hst).1]
  exact .value (hpost s)

/-- How two computations end that do the same. -/
theorem Alike.ends {w : Pass κ α} {w' : Pass κ' α} {post : α → Prop} (h : Alike post w w')
    {s : Session κ} {t : Session κ'} (hst : s.unkeyed = t.unkeyed) :
    w.Ends s (fun a u => s.Quiet u ∧ post a ∧
        ∃ v, w'.outcome t = (.ok a, v) ∧ t.Quiet v ∧ u.unkeyed = v.unkeyed)
      (fun e u => s.Quiet u ∧ e ≠ .failed .cyclic ∧
        ∃ v, w'.outcome t = (.error e, v) ∧ t.Quiet v ∧ u.unkeyed = v.unkeyed) := by
  induction h generalizing s t with
  | value h => exact ⟨.refl s, h, t, rfl, .refl t, hst⟩
  | stop h => exact ⟨.refl s, h, t, rfl, .refl t, hst⟩
  | step hquiet hquiet' hnext _ ih =>
    refine Walk.Ends.mono (ih s t hst (hnext s t hst)) ?_ ?_
    · rintro a u ⟨hu, ha, v, hv, htv, huv⟩
      exact ⟨(hquiet s).trans hu, ha, v, hv, (hquiet' t).trans htv, huv⟩
    · rintro e u ⟨hu, he, v, hv, htv, huv⟩
      exact ⟨(hquiet s).trans hu, he, v, hv, (hquiet' t).trans htv, huv⟩

/-- The computation asks for nothing, and does the same however methods are told apart. Its value
satisfies `post`. -/
def Yields (w : (κ : Type) → Pass κ α) (post : α → Prop) : Prop :=
  ∀ κ κ', Alike post (w κ) (w κ')

abbrev Inert (w : (κ : Type) → Pass κ α) : Prop :=
  Yields w fun _ => True

theorem Yields.bind {w : (κ : Type) → Pass κ α} {f : (κ : Type) → α → Pass κ β} {post : α → Prop}
    {post' : β → Prop} (h : Yields w post) (hf : ∀ a, post a → Yields (fun κ => f κ a) post') :
    Yields (fun κ => w κ >>= f κ) post' :=
  fun κ κ' => (h κ κ').bind fun a ha => hf a ha κ κ'

theorem yields_pure {a : α} {post : α → Prop} (h : post a) : Yields (fun _ => pure a) post :=
  fun _ _ => .value h

theorem inert_pure (a : α) : Inert (fun _ => pure a) :=
  yields_pure trivial

theorem yields_throw {e : Stop LoweringError} {post : α → Prop} (he : e ≠ .failed .cyclic) :
    Yields (fun _ => throw e) post :=
  fun _ _ => .stop he

theorem yields_fail {e : LoweringError} {post : α → Prop} (he : e ≠ .cyclic) :
    Yields (fun _ => Walk.fail e) post :=
  yields_throw fun h => he (Stop.failed.inj h)

theorem yields_fail_bind {e : LoweringError} {f : (κ : Type) → α → Pass κ β} {post : β → Prop}
    (he : e ≠ .cyclic) : Yields (fun κ => Walk.fail e >>= f κ) post :=
  (yields_fail he).bind fun _ (hfalse : False) => hfalse.elim

theorem inert_declaring {action : Declarations.M α} (h : Declarations.Emits action) :
    Inert (fun _ => declaring action) := by
  refine fun κ κ' => alike_modifyGet (fun s => ⟨rfl, rfl, rfl, rfl, rfl, h _, .refl _⟩)
    (fun t => ⟨rfl, rfl, rfl, rfl, rfl, h _, .refl _⟩) (fun s t hst => ?_) fun _ => trivial
  have hdeclarations : s.declarations = t.declarations := congrArg Session.declarations hst
  constructor
  · exact congrArg (fun d => (action.run d).1) hdeclarations
  · exact congrArg (fun u : Session Empty =>
      { u with declarations := (action.run u.declarations).2 }) hst

theorem inert_fresh : Inert (fun _ => fresh) :=
  inert_declaring Declarations.emits_fresh

/-- Changes of the journal that depend on nothing else. -/
theorem yields_journal (f : Journal → α × Journal) {post : α → Prop}
    (hheap : ∀ j : Journal, j.heap.Grows (f j).2.heap) (hpost : ∀ j, post (f j).1) :
    Yields (fun _ => modifyGet fun s => ((f s.journal).1, { s with journal := (f s.journal).2 }))
      post := by
  refine fun κ κ' => alike_modifyGet (fun s => .withJournal s (hheap _))
    (fun t => .withJournal t (hheap _)) (fun s t hst => ?_) fun s => hpost _
  have hjournal : s.journal = t.journal := congrArg Session.journal hst
  constructor
  · exact congrArg (fun j => (f j).1) hjournal
  · exact congrArg (fun u : Session Empty => { u with journal := (f u.journal).2 }) hst

theorem inert_note (f : Journal → Journal) (hheap : ∀ j : Journal, j.heap.Grows (f j).heap) :
    Inert (fun _ => modify fun s => { s with journal := f s.journal }) :=
  yields_journal (fun j => ((⟨⟩ : PUnit), f j)) hheap fun _ => trivial

theorem inert_log (e : LogEntry) : Inert (fun _ => log e) :=
  inert_note (fun j => j.record e) fun _ => .refl _

theorem yields_unsupported {cause : Unsupported} {post : α → Prop} :
    Yields (fun _ => unsupported cause) post :=
  yields_fail (by simp)

theorem yields_ofIr (answer : Except IrError α) :
    Yields (fun _ => ofIr answer) fun a => answer = .ok a := by
  cases answer with
  | ok a => exact yields_pure rfl
  | error e => exact yields_fail (by simp)

theorem yields_construct (p : Program) (ty : Ty) :
    Yields (fun _ => construct p ty) fun i => p.construct ty = .ok i := by
  refine (inert_note (fun j => j.afterConstruct p ty) fun j => ?_).bind fun _ _ => ?_
  · exact Heap.grows_construct j.heap p ty
  · exact yields_ofIr (p.construct ty)

section Instructions

variable (c : Scope) (i : Instruction)

theorem yields_fault {f : BodyFault} {post : α → Prop} : Yields (fun _ => c.fault f) post :=
  yields_fail (by simp)

theorem yields_mismatch {expected found : String} {post : α → Prop} :
    Yields (fun _ => c.mismatch expected found) post :=
  yields_fail (by simp)

theorem yields_operand (slot : Nat) :
    Yields (fun _ => c.operand i slot) fun o => i.operands[slot]? = some o := by
  unfold Scope.operand
  cases i.operands[slot]? with
  | some o => exact yields_pure rfl
  | none => exact yields_fault c

theorem inert_lookup (slot : Nat) : Inert (fun _ => c.lookup i slot) := by
  refine (yields_operand c i slot).bind fun o _ => ?_
  cases o with
  | «variable» v =>
    dsimp only
    cases (c.declared.take c.defined)[v.toNat]? with
    | some found => exact inert_pure found
    | none => exact yields_fault c
  | _ => exact yields_fault c

theorem yields_methodRef (slot : Nat) :
    Yields (fun _ => c.methodRef i slot) fun r => i.operands[slot]? = some (.method r) := by
  refine (yields_operand c i slot).bind fun o ho => ?_
  cases o with
  | method r => exact yields_pure ho
  | _ => exact yields_fault c

theorem inert_field (slot : Nat) : Inert (fun _ => c.field i slot) := by
  refine (yields_operand c i slot).bind fun o _ => ?_
  cases o with
  | field f => exact inert_pure f
  | _ => exact yields_fault c

theorem inert_expect (expected found : LoweredType) :
    Inert (fun _ => c.expect expected found) := by
  unfold Scope.expect
  split
  · exact inert_pure ()
  · exact yields_mismatch c

theorem yields_numeric (opcode : Opcode) (type : LoweredType) :
    Yields (fun _ => c.numeric opcode type) fun op =>
      arithmeticOp? opcode type.scalar = some op := by
  unfold Scope.numeric
  split
  · rename_i op hop
    exact yields_pure hop
  · exact yields_mismatch c

theorem yields_loadFrom (type : LoweredType) (pointer : Id) :
    Yields (fun _ => loadFrom type pointer) fun loaded => loaded.2.InBlock :=
  inert_fresh.bind fun value _ => yields_pure (inBlock_loadInst type value pointer)

theorem yields_negate (ho : i.opcode = .negate) : Yields (fun _ => c.negate i) InBlocks := by
  refine (inert_lookup c i 0).bind fun dst _ => ?_
  refine (inert_lookup c i 1).bind fun src _ => ?_
  refine (inert_expect c _ _).bind fun _ _ => ?_
  refine (yields_numeric c _ _).bind fun op hop => ?_
  refine (yields_loadFrom _ _).bind fun loaded hload => ?_
  refine inert_fresh.bind fun result _ => yields_pure ?_
  rw [ho] at hop
  simp [InBlocks, hload, inBlock_negate hop, inBlock_storeTo]

theorem yields_binary (ho : i.opcode ≠ .negate) : Yields (fun _ => c.binary i) InBlocks := by
  refine (inert_lookup c i 0).bind fun dst _ => ?_
  refine (inert_lookup c i 1).bind fun lhs _ => ?_
  refine (inert_lookup c i 2).bind fun rhs _ => ?_
  refine (inert_expect c _ _).bind fun _ _ => ?_
  refine (inert_expect c _ _).bind fun _ _ => ?_
  refine (yields_numeric c _ _).bind fun op hop => ?_
  refine (yields_loadFrom _ _).bind fun left hleft => ?_
  refine (yields_loadFrom _ _).bind fun right hright => ?_
  refine inert_fresh.bind fun result _ => yields_pure ?_
  simp [InBlocks, hleft, hright, inBlock_binary ho hop, inBlock_storeTo]

theorem yields_copy : Yields (fun _ => c.copy i) InBlocks := by
  refine (inert_lookup c i 0).bind fun dst _ => ?_
  refine (inert_lookup c i 1).bind fun src _ => ?_
  refine (inert_expect c _ _).bind fun _ _ => ?_
  refine (yields_loadFrom _ _).bind fun loaded hload => yields_pure ?_
  simp [InBlocks, hload, inBlock_storeTo]

theorem yields_storeConstant (dst : Variable) (bits : UInt32) :
    Yields (fun _ => Scope.storeConstant dst bits) InBlocks := by
  refine (inert_declaring (Declarations.emits_constant _ _)).bind fun _ _ => yields_pure ?_
  simp [InBlocks, inBlock_storeTo]

theorem yields_loadUInt32 : Yields (fun _ => c.loadUInt32 i) InBlocks := by
  refine (inert_lookup c i 0).bind fun dst _ => ?_
  refine (yields_operand c i 1).bind fun o _ => ?_
  cases o with
  | uint32 value =>
    dsimp only
    split
    · exact yields_storeConstant dst value
    · exact yields_mismatch c
  | _ => exact yields_fault c

theorem yields_loadFloat32 : Yields (fun _ => c.loadFloat32 i) InBlocks := by
  refine (inert_lookup c i 0).bind fun dst _ => ?_
  refine (yields_operand c i 1).bind fun o _ => ?_
  cases o with
  | float32 bits =>
    dsimp only
    split
    · exact yields_storeConstant dst bits
    · exact yields_mismatch c
  | _ => exact yields_fault c

theorem inert_component (aggregate : LoweredType) : Inert (fun _ => c.component aggregate) := by
  unfold Scope.component
  split
  · exact inert_pure _
  · exact yields_mismatch c

theorem yields_elementPointer (aggregate : Variable) (component : LoweredType) (index : Variable) :
    Yields (fun _ => c.elementPointer aggregate component index) fun element =>
      InBlocks element.2 := by
  unfold Scope.elementPointer
  split
  · refine (inert_declaring (Declarations.emits_pointer _)).bind fun _ _ => ?_
    refine (yields_loadFrom _ _).bind fun position hload => ?_
    refine inert_fresh.bind fun _ _ => yields_pure ?_
    have haccess := inBlock_accessInst
    simp only [accessInst] at haccess
    simp [InBlocks, hload, haccess]
  · exact yields_fail_bind (by simp)

theorem yields_loadElement : Yields (fun _ => c.loadElement i) InBlocks := by
  refine (inert_lookup c i 0).bind fun dst _ => ?_
  refine (inert_lookup c i 1).bind fun src _ => ?_
  refine (inert_lookup c i 2).bind fun index _ => ?_
  refine (inert_component c _).bind fun component _ => ?_
  refine (inert_expect c _ _).bind fun _ _ => ?_
  refine (yields_elementPointer c _ _ _).bind fun element haccess => ?_
  refine (yields_loadFrom _ _).bind fun loaded hload => yields_pure ?_
  refine inBlocks_append haccess ?_
  simp [InBlocks, hload, inBlock_storeTo]

theorem yields_setElement : Yields (fun _ => c.setElement i) InBlocks := by
  refine (inert_lookup c i 0).bind fun dst _ => ?_
  refine (inert_lookup c i 1).bind fun index _ => ?_
  refine (inert_lookup c i 2).bind fun value _ => ?_
  refine (inert_component c _).bind fun component _ => ?_
  refine (inert_expect c _ _).bind fun _ _ => ?_
  refine (yields_elementPointer c _ _ _).bind fun element haccess => ?_
  refine (yields_loadFrom _ _).bind fun loaded hload => yields_pure ?_
  refine inBlocks_append haccess ?_
  simp [InBlocks, hload, inBlock_storeTo]

theorem inert_memberType (aggregate : LoweredType) (field : UInt32) :
    Inert (fun _ => c.memberType aggregate field) := by
  unfold Scope.memberType
  split
  · split
    · exact inert_pure _
    · exact yields_fault c
  · exact yields_mismatch c

theorem yields_memberPointer (base : Id) (member : LoweredType) (field : UInt32) :
    Yields (fun _ => Scope.memberPointer base member field) fun pointer => pointer.2.InBlock := by
  refine (inert_declaring (Declarations.emits_pointer _)).bind fun _ _ => ?_
  refine (inert_declaring (Declarations.emits_int _)).bind fun _ _ => ?_
  refine (inert_declaring (Declarations.emits_constant _ _)).bind fun _ _ => ?_
  exact inert_fresh.bind fun _ _ => yields_pure (inBlock_accessInst _ _ _ _)

theorem yields_loadField : Yields (fun _ => c.loadField i) InBlocks := by
  refine (inert_lookup c i 0).bind fun dst _ => ?_
  refine (inert_lookup c i 1).bind fun src _ => ?_
  refine (inert_field c i 2).bind fun field _ => ?_
  refine (inert_memberType c _ _).bind fun member _ => ?_
  refine (inert_expect c _ _).bind fun _ _ => ?_
  refine (yields_memberPointer _ _ _).bind fun pointer haccess => ?_
  refine (yields_loadFrom _ _).bind fun loaded hload => yields_pure ?_
  simp [InBlocks, haccess, hload, inBlock_storeTo]

theorem yields_setField : Yields (fun _ => c.setField i) InBlocks := by
  refine (inert_lookup c i 0).bind fun dst _ => ?_
  refine (inert_field c i 1).bind fun field _ => ?_
  refine (inert_lookup c i 2).bind fun value _ => ?_
  refine (inert_memberType c _ _).bind fun member _ => ?_
  refine (inert_expect c _ _).bind fun _ _ => ?_
  refine (yields_memberPointer _ _ _).bind fun pointer haccess => ?_
  refine (yields_loadFrom _ _).bind fun loaded hload => yields_pure ?_
  simp [InBlocks, haccess, hload, inBlock_storeTo]

theorem inert_resultSlot : Inert (fun _ => c.resultSlot i) := by
  refine (yields_operand c i 1).bind fun o _ => ?_
  cases o with
  | void => exact inert_pure none
  | «variable» v => exact (inert_lookup c i 1).bind fun _ _ => inert_pure _
  | _ => exact yields_fault c

theorem inert_arguments (slot : Nat) (parameters : List LoweredType) :
    Inert (fun _ => c.arguments i slot parameters) := by
  induction parameters generalizing slot with
  | nil => exact inert_pure []
  | cons parameter rest ih =>
    refine (inert_lookup c i slot).bind fun argument _ => ?_
    refine (inert_expect c _ _).bind fun _ _ => ?_
    exact (ih (slot + 1)).bind fun _ _ => inert_pure _

theorem yields_loadAll (vs : List Variable) :
    Yields (fun _ => Scope.loadAll vs) fun loaded => InBlocks loaded.2 := by
  induction vs with
  | nil => exact yields_pure (by simp [InBlocks])
  | cons v rest ih =>
    refine (yields_loadFrom _ _).bind fun loaded hload => ?_
    refine ih.bind fun others hloads => yields_pure ?_
    exact List.forall_mem_cons.mpr ⟨hload, hloads⟩

theorem yields_ret : Yields (fun _ => c.ret) ClosesBlock := by
  unfold Scope.ret
  split
  · exact yields_pure closesBlock_ret
  · exact yields_mismatch c

theorem yields_retValue : Yields (fun _ => c.retValue i) ClosesBlock := by
  refine (inert_lookup c i 0).bind fun value _ => ?_
  dsimp only
  split
  · exact yields_fail_bind (by simp)
  · refine (inert_expect c _ _).bind fun _ _ => ?_
    refine (yields_loadFrom _ _).bind fun loaded hload => yields_pure ?_
    have hloaded : InBlocks [loaded.2] := by simpa [InBlocks] using hload
    exact closesBlock_append hloaded (closesBlock_returnValue loaded.1)

end Instructions

theorem yields_declareVariable (type : LoweredType) :
    Yields (fun _ => declareVariable type) fun declared => declared.2.InBlock := by
  refine (inert_declaring (Declarations.emits_pointer _)).bind fun pointerType _ => ?_
  exact inert_fresh.bind fun pointer _ => yields_pure (inBlock_variable pointerType pointer)

theorem yields_declareVariables (types : List LoweredType) :
    Yields (fun _ => declareVariables types) fun declared =>
      InBlocks (declared.map Prod.snd) := by
  induction types with
  | nil => exact yields_pure (by simp [InBlocks])
  | cons type rest ih =>
    refine (yields_declareVariable type).bind fun declared hdeclared => ?_
    refine ih.bind fun others hothers => yields_pure ?_
    exact List.forall_mem_cons.mpr ⟨hdeclared, hothers⟩

theorem yields_freshParameters (types : List LoweredType) :
    Yields (fun _ => freshParameters types) fun passed =>
      ∀ i ∈ passed.map Prod.snd, i.op = .functionParameter ∧ i.Readable := by
  induction types with
  | nil => exact yields_pure (by simp)
  | cons type rest ih =>
    refine inert_fresh.bind fun id _ => ?_
    refine ih.bind fun others hothers => yields_pure ?_
    exact List.forall_mem_cons.mpr ⟨⟨rfl, Binary.readable_of_fits .functionParameter
      (some type.id.val) (some id.val) rfl .nil (by decide)⟩, hothers⟩

/-! The steps around the compilation of methods. -/

theorem yields_validate (p : Program) (depth : Nat) :
    Yields (fun _ => validate p depth) fun _ =>
      ∃ j, ((p.validateWithin depth).outcome j).1 = .ok () := by
  have hjournal : Yields (fun _ => modifyGet fun s =>
      (((p.validateWithin depth).outcome s.journal).1,
        { s with journal := ((p.validateWithin depth).outcome s.journal).2 }))
      fun outcome => ∃ j, ((p.validateWithin depth).outcome j).1 = outcome :=
    yields_journal (p.validateWithin depth).outcome (p.heap_validateWithin depth) fun j => ⟨j, rfl⟩
  refine hjournal.bind fun outcome houtcome => ?_
  rcases outcome with (e | _) | _
  · exact yields_fail (by simp)
  · exact yields_throw (by simp)
  · exact yields_pure houtcome

theorem yields_skipGeneric (ms : List LocatedMethod) :
    Yields (fun _ => skipGeneric ms) fun names =>
      names = (ms.filter fun m => !m.isConcrete).map LocatedMethod.fullName := by
  induction ms with
  | nil => exact yields_pure rfl
  | cons m rest ih =>
    simp only [skipGeneric]
    by_cases hm : m.isConcrete = true
    · simpa [hm] using ih
    · simp only [hm, if_false, Bool.false_eq_true]
      refine (inert_log _).bind fun _ _ => ?_
      refine ih.bind fun names hnames => yields_pure ?_
      simp [hm, hnames]

theorem outcome_assemble (p : Program) (options : Options) (skipped : List String)
    (s : Session κ) :
    (assemble p options skipped).outcome s =
      match (s.stream options).check with
      | .error e => (.error (.failed e), s)
      | .ok () =>
        (.ok ⟨(s.stream options).bytes, s.declarations.bound, s.order.size, skipped⟩,
          { s with
            journal := s.journal.record (.summary p.name s.order.size s.declarations.bound.toNat
              (s.stream options).bytes.length) }) := by
  unfold assemble
  rw [Walk.outcome_bind, Walk.outcome_get]
  dsimp only
  cases (s.stream options).check <;> rfl

theorem quiet_assemble (p : Program) (options : Options) (skipped : List String)
    (s : Session κ) :
    (assemble p options skipped).Ends s (fun m t => s.Quiet t ∧ m.skipped = skipped)
      fun e t => s.Quiet t ∧ e ≠ .failed .cyclic := by
  unfold Walk.Ends
  rw [outcome_assemble]
  unfold Binary.Stream.check
  cases (s.stream options).oversized with
  | none => exact ⟨.withJournal s (.refl _), rfl⟩
  | some cause => exact ⟨.refl s, by simp⟩

end Lowering

end ShaderIR
