import ShaderIR.Proofs.IdentityPass
import ShaderIR.Proofs.LoweringSteps
import ShaderIR.Proofs.Substitution

/-! What lowering asks for. The instructions of a body touch the tables of lowered types and
compiled functions only through requests: for the functions of the methods that the body calls,
for the types that the method mentions and for its receiver. So whatever holds of these requests
and of the steps between them holds of the lowering of a method. -/

namespace ShaderIR

/-- The types that are lowered for a method: those it mentions, and its receiver. -/
def Method.Requests (m : Method) (ty : Ty) : Prop :=
  m.Mentions ty ∨ m.isStatic = false ∧ ty = m.owner

/-- An instance binds parameters to its arguments. -/
theorem TypeDecl.mem_arguments_of_get? {d : TypeDecl} {arguments : List Ty} {i : TypeInstance}
    (h : d.instantiate arguments = .ok i) {name : String} {a : Ty}
    (ha : i.substitution.get? name = some a) : a ∈ i.ty.arguments := by
  have hi := Program.constructs_of_instantiate h
  rw [GenericParam.get?_of_bindAll hi.bound, Option.or_eq_some_iff] at ha
  rw [hi.ty]
  rcases ha with ha | ⟨_, ha⟩
  · exact GenericParam.mem_of_argument? ha
  · cases ha

theorem Program.mem_arguments_of_get? {p : Program} {ty : Ty} {i : TypeInstance}
    (h : p.construct ty = .ok i) {name : String} {a : Ty}
    (ha : i.substitution.get? name = some a) : a ∈ i.ty.arguments := by
  unfold construct at h
  split at h
  · cases h
  split at h
  · cases h
  · exact TypeDecl.mem_arguments_of_get? h ha

namespace Lowering

open Binary (Id Inst)

variable {κ κ' α β : Type}

/-- A way to compare computations of two passes that goes on from one to the next, and that holds
wherever both do the same and ask for nothing. -/
structure Comparison (κ κ' : Type) where
  Holds : {α : Type} → Pass κ α → Pass κ' α → (α → Prop) → Prop
  alike : ∀ {α : Type} {w : Pass κ α} {w' : Pass κ' α} {post : α → Prop},
    Alike post w w' → Holds w w' post
  bind : ∀ {α β : Type} {w : Pass κ α} {w' : Pass κ' α} {f : α → Pass κ β} {f' : α → Pass κ' β}
    {post : α → Prop} {post' : β → Prop}, Holds w w' post →
    (∀ a, post a → Holds (f a) (f' a) post') → Holds (w >>= f) (w' >>= f') post'

namespace Comparison

variable (c : Comparison κ κ')

/-- The computations are comparable, whatever their values are. -/
abbrev Compares (w : Pass κ α) (w' : Pass κ' α) : Prop :=
  c.Holds w w' fun _ => True

variable {c}

theorem yields {w : (κ : Type) → Pass κ α} {post : α → Prop} (h : Yields w post) :
    c.Holds (w κ) (w κ') post :=
  c.alike (h κ κ')

theorem holds_pure {a : α} {post : α → Prop} (h : post a) : c.Holds (pure a) (pure a) post :=
  c.yields (yields_pure h)

theorem holds_fail_bind {e : LoweringError} {f : α → Pass κ β} {f' : α → Pass κ' β}
    {post : β → Prop} (he : e ≠ .cyclic) :
    c.Holds (Walk.fail e >>= f) (Walk.fail e >>= f') post :=
  c.bind (c.yields (yields_fail he)) fun _ (hfalse : False) => hfalse.elim

variable {lower : Ty → Pass κ LoweredType} {lower' : Ty → Pass κ' LoweredType}
variable {request : MethodRef → Pass κ Function} {request' : MethodRef → Pass κ' Function}

section Bodies

variable {scope : Scope} {i : Instruction}

/-- A call asks for the function of the reference that it names. -/
theorem call (hrequest : ∀ r, i.operands[0]? = some (.method r) →
      c.Compares (request r) (request' r)) :
    c.Holds (scope.call request i) (scope.call request' i) InBlocks := by
  refine c.bind (c.yields (yields_methodRef scope i 0)) fun r hr => ?_
  refine c.bind (hrequest r hr) fun callee _ => ?_
  refine c.bind (c.yields (inert_resultSlot scope i)) fun slot _ => ?_
  dsimp only
  split
  · exact holds_fail_bind (by simp)
  · refine c.bind (c.yields (inert_arguments scope i 2 _)) fun arguments _ => ?_
    refine c.bind (c.yields (yields_loadAll arguments)) fun loaded hloads => ?_
    have hinvoke := inBlock_functionCall callee.returnType.id
    cases slot with
    | none =>
      refine c.bind (c.yields inert_fresh) fun value _ => holds_pure ?_
      exact inBlocks_append hloads (by simp [InBlocks, hinvoke])
    | some v =>
      refine c.bind (c.yields (inert_expect scope _ _)) fun _ _ => ?_
      refine c.bind (c.yields inert_fresh) fun value _ => holds_pure ?_
      exact inBlocks_append hloads (by simp [InBlocks, hinvoke, inBlock_storeTo])

theorem lowerPlain (hrequest : ∀ r, i.opcode = .call → i.operands[0]? = some (.method r) →
      c.Compares (request r) (request' r)) :
    c.Holds (lowerPlain scope request i) (lowerPlain scope request' i) InBlocks := by
  unfold Lowering.lowerPlain
  cases ho : i.opcode with
  | negate => exact c.yields (yields_negate scope i ho)
  | add | subtract | multiply | divide | modulo | remainder =>
    exact c.yields (yields_binary scope i (by simp [ho]))
  | call => exact c.call fun r hr => hrequest r ho hr
  | load => exact c.yields (yields_copy scope i)
  | loadUInt32 => exact c.yields (yields_loadUInt32 scope i)
  | loadFloat32 => exact c.yields (yields_loadFloat32 scope i)
  | loadElement => exact c.yields (yields_loadElement scope i)
  | setElement => exact c.yields (yields_setElement scope i)
  | loadField => exact c.yields (yields_loadField scope i)
  | setField => exact c.yields (yields_setField scope i)
  | define | ret | retValue => exact holds_pure (by simp [InBlocks])

theorem lowerFrom {is : List Instruction}
    (hrequest : ∀ i ∈ is, ∀ r, i.opcode = .call → i.operands[0]? = some (.method r) →
      c.Compares (request r) (request' r)) :
    c.Holds (lowerFrom scope request is) (lowerFrom scope request' is) ClosesBlock := by
  induction is generalizing scope with
  | nil =>
    rw [Lowering.lowerFrom, Lowering.lowerFrom]
    split
    · exact holds_pure closesBlock_ret
    · exact c.yields (yields_fault _)
  | cons i rest ih =>
    obtain ⟨hhead, htail⟩ := List.forall_mem_cons.mp hrequest
    have hrest : ∀ scope, c.Holds (Lowering.lowerFrom scope request rest)
        (Lowering.lowerFrom scope request' rest) ClosesBlock := fun _ => ih htail
    have hreturn : ∀ {w : (κ : Type) → Pass κ (List Inst)}, Yields w ClosesBlock →
        Yields (fun κ => do
          let code ← w κ
          if rest.isEmpty then return code
          else Scope.fault { scope with index := scope.index + 1 } .afterReturn) ClosesBlock := by
      intro w hw
      refine hw.bind fun code hcode => ?_
      split
      · exact yields_pure hcode
      · exact yields_fault _
    have hplain : c.Holds (do
          let code ← Lowering.lowerPlain scope request i
          return code ++
            (← Lowering.lowerFrom { scope with index := scope.index + 1 } request rest))
        (do
          let code ← Lowering.lowerPlain scope request' i
          return code ++
            (← Lowering.lowerFrom { scope with index := scope.index + 1 } request' rest))
        ClosesBlock := by
      refine c.bind (c.lowerPlain hhead) fun code hcode => ?_
      refine c.bind (hrest _) fun rest hrest => holds_pure ?_
      exact closesBlock_append hcode hrest
    rw [Lowering.lowerFrom, Lowering.lowerFrom]
    cases ho : i.opcode with
    | ret => exact c.yields (hreturn (yields_ret scope))
    | retValue => exact c.yields (hreturn (yields_retValue scope i))
    | define =>
      dsimp only
      split
      · exact c.yields (yields_fault scope)
      · exact hrest _
    | _ => exact hplain

end Bodies

section Functions

theorem declareLocals {method : String} {is : List Instruction}
    (hlower : ∀ ty, .define ty ∈ is → c.Compares (lower ty) (lower' ty)) :
    c.Holds (declareLocals lower method is) (declareLocals lower' method is) fun declared =>
      InBlocks (declared.map Prod.snd) := by
  induction is with
  | nil => exact holds_pure (by simp [InBlocks])
  | cons i rest ih =>
    have hrest := ih fun ty hty => hlower ty (List.mem_cons_of_mem _ hty)
    rw [declareLocals.eq_def, declareLocals.eq_def lower']
    split
    · rename_i heq
      simp at heq
    · rename_i ty _ rest' heq
      obtain ⟨rfl, rfl⟩ := List.cons.inj heq
      refine c.bind (hlower ty List.mem_cons_self) fun type _ => ?_
      dsimp only
      split
      · exact holds_fail_bind (by simp)
      · refine c.bind (c.yields (yields_declareVariable type)) fun declared hdeclared => ?_
        refine c.bind hrest fun others hothers => holds_pure ?_
        exact List.forall_mem_cons.mpr ⟨hdeclared, hothers⟩
    · rename_i j rest' _ heq
      obtain ⟨rfl, rfl⟩ := List.cons.inj heq
      exact hrest

theorem lowerReturn {ty : Option Ty}
    (hlower : ∀ t, ty = some t → c.Compares (lower t) (lower' t)) :
    c.Compares (lowerReturn lower ty) (lowerReturn lower' ty) := by
  cases ty with
  | none => exact c.yields (inert_declaring Declarations.emits_void)
  | some ty => exact hlower ty rfl

theorem lowerReceiver {m : Method}
    (hlower : m.isStatic = false → c.Compares (lower m.owner) (lower' m.owner)) :
    c.Compares (lowerReceiver lower m) (lowerReceiver lower' m) := by
  unfold Lowering.lowerReceiver
  cases hm : m.isStatic with
  | true => exact holds_pure trivial
  | false => exact c.bind (hlower hm) fun _ _ => holds_pure trivial

theorem lowerParameters {method : String} {tys : List Ty}
    (hlower : ∀ ty ∈ tys, c.Compares (lower ty) (lower' ty)) :
    c.Compares (lowerParameters lower method tys) (lowerParameters lower' method tys) := by
  induction tys with
  | nil => exact holds_pure trivial
  | cons ty rest ih =>
    obtain ⟨hhead, htail⟩ := List.forall_mem_cons.mp hlower
    refine c.bind hhead fun lowered _ => ?_
    dsimp only
    split
    · exact holds_fail_bind (by simp)
    · exact c.bind (ih htail) fun _ _ => holds_pure trivial

theorem lowerBody {m : Method} {id functionType : Id} {returnType : LoweredType}
    {parameters : List LoweredType}
    (hlower : ∀ ty, .define ty ∈ m.body → c.Compares (lower ty) (lower' ty))
    (hrequest : ∀ r, m.Refers r → c.Compares (request r) (request' r)) :
    c.Holds (lowerBody lower request m id functionType returnType parameters)
      (lowerBody lower' request' m id functionType returnType parameters) ReadsAsFunction := by
  refine c.bind (c.yields (yields_freshParameters parameters)) fun passed hpassed => ?_
  refine c.bind (c.yields inert_fresh) fun label _ => ?_
  refine c.bind (c.yields (yields_declareVariables parameters)) fun spilled hspilled => ?_
  refine c.bind (c.declareLocals hlower) fun locals hlocals => ?_
  refine c.bind (c.lowerFrom fun i hi r ho hr => hrequest r ⟨i, hi, ho, hr⟩) fun body hbody => ?_
  refine holds_pure ?_
  have hdeclared : InBlocks ((spilled ++ locals).map Prod.snd) := by
    rw [List.map_append]
    exact inBlocks_append hspilled hlocals
  have hstores : InBlocks (List.zipWith (fun (v : Variable × Inst) (q : Id × Inst) =>
      storeTo v.1.pointer q.1) spilled passed) := by
    intro i hi
    rw [← List.map_uncurry_zip_eq_zipWith] at hi
    obtain ⟨pair, _, rfl⟩ := List.mem_map.mp hi
    exact inBlock_storeTo _ _
  have hblock := closesBlock_append (inBlocks_append hdeclared hstores) hbody
  have hcode := readsAsFunction returnType.id id functionType label hpassed hblock
  simpa only [List.cons_append, List.append_assoc] using hcode

/-- What holds of the last step holds of the lowering of a method, if it goes back over what is
compared. -/
theorem buildFunction {m : LocatedMethod} (Last : Pass κ Function → Pass κ' Function → Prop)
    (hlast : ∀ {α : Type} {w : Pass κ α} {w' : Pass κ' α} {f : α → Pass κ Function}
      {f' : α → Pass κ' Function} {post : α → Prop}, c.Holds w w' post →
      (∀ a, post a → Last (f a) (f' a)) → Last (w >>= f) (w' >>= f'))
    (hpublish : ∀ f : Function, f.method = m → ReadsAsFunction f.code →
      Last (publish f) (publish f))
    (hlower : ∀ ty, m.method.Requests ty → c.Compares (lower ty) (lower' ty))
    (hrequest : ∀ r, m.method.Refers r → c.Compares (request r) (request' r)) :
    Last (buildFunction lower request m) (buildFunction lower' request' m) := by
  have hreturn : ∀ ty, m.method.returnType = some ty → c.Compares (lower ty) (lower' ty) :=
    fun ty hty => hlower ty (.inl (.inr (.inl hty)))
  have hreceiver : m.method.isStatic = false →
      c.Compares (lower m.method.owner) (lower' m.method.owner) :=
    fun hm => hlower _ (.inr ⟨hm, rfl⟩)
  have hparameters : ∀ ty ∈ m.method.parameterTypes, c.Compares (lower ty) (lower' ty) :=
    fun ty hty => hlower ty (.inl (.inl hty))
  have hlocals : ∀ ty, .define ty ∈ m.method.body →
      c.Compares (lower ty) (lower' ty) :=
    fun ty hty => hlower ty (.inl (.inr (.inr hty)))
  refine hlast (c.lowerReturn hreturn) fun returnType _ => ?_
  refine hlast (c.lowerReceiver hreceiver) fun receiver _ => ?_
  refine hlast (c.lowerParameters hparameters) fun others _ => ?_
  dsimp only
  split
  · have hfalse : Yields (fun κ => (unsupported (.kernelSignature m.fullName) : Pass κ PUnit))
        fun _ => False := yields_unsupported
    exact hlast (c.yields hfalse) fun _ h => h.elim
  · refine hlast (c.yields (inert_declaring (Declarations.emits_function _ _)))
      fun functionType _ => ?_
    refine hlast (c.yields inert_fresh) fun id _ => ?_
    refine hlast (c.lowerBody hlocals hrequest) fun code hcode => ?_
    exact hpublish ⟨id, m, returnType, receiver ++ others, code⟩ rfl hcode

end Functions

section Types

theorem lowerFields {ty : Ty} {fields : List Field}
    (hlower : ∀ f ∈ fields, c.Compares (lower f.ty) (lower' f.ty)) :
    c.Compares (lowerFields lower ty fields) (lowerFields lower' ty fields) := by
  induction fields with
  | nil => exact holds_pure trivial
  | cons f rest ih =>
    obtain ⟨hhead, htail⟩ := List.forall_mem_cons.mp hlower
    refine c.bind hhead fun member _ => ?_
    dsimp only
    split
    · exact holds_fail_bind (by simp)
    · exact c.bind (ih htail) fun _ _ => holds_pure trivial

theorem lowerRepresentation {name : String} {argument : String → Pass κ LoweredType}
    {argument' : String → Pass κ' LoweredType}
    (hargument : ∀ placeholder, c.Compares (argument placeholder) (argument' placeholder)) :
    c.Compares (lowerRepresentation name argument) (lowerRepresentation name argument') := by
  unfold Lowering.lowerRepresentation
  cases Representation.parse? name with
  | none => exact c.yields yields_unsupported
  | some r =>
    cases r with
    | void => exact c.yields (inert_declaring Declarations.emits_void)
    | bool => exact c.yields (inert_declaring Declarations.emits_bool)
    | int signed => exact c.yields (inert_declaring (Declarations.emits_int signed))
    | float => exact c.yields (inert_declaring Declarations.emits_float)
    | vector placeholder count =>
      refine c.bind (hargument placeholder) fun component _ => ?_
      split
      · exact c.yields (inert_declaring (Declarations.emits_vector component count))
      · exact c.yields yields_unsupported

/-- Lowering a type asks for its members. -/
theorem buildType {p : Program} {ty : Ty}
    (hlower : ∀ i, p.construct ty = .ok i → ∀ member ∈ i.members,
      c.Compares (lower member) (lower' member)) :
    c.Compares (buildType p lower ty) (buildType p lower' ty) := by
  refine c.bind (c.yields (yields_construct p ty)) fun i hi => ?_
  have hfinish : ∀ lowered : LoweredType, Inert fun _ => do
      log (.lowered ty lowered.id)
      return { lowered with name := ty.text } :=
    fun lowered => (inert_log _).bind fun _ _ => inert_pure _
  cases hr : i.representation? with
  | none =>
    have hfields : ∀ f ∈ i.fields, c.Compares (lower f.ty) (lower' f.ty) := by
      intro f hf
      refine hlower i hi f.ty ?_
      simp only [TypeInstance.members, List.mem_append, List.mem_map]
      exact .inl ⟨f, hf, rfl⟩
    refine c.bind (c.lowerFields hfields) fun members _ => ?_
    exact c.bind (c.yields (inert_declaring (Declarations.emits_struct members)))
      fun lowered _ => c.yields (hfinish lowered)
  | some name? =>
    cases name? with
    | none => exact holds_fail_bind (by simp)
    | some name =>
      refine c.bind (c.lowerRepresentation fun placeholder => ?_) fun lowered _ =>
        c.yields (hfinish lowered)
      cases hget : i.substitution.get? placeholder with
      | none => exact c.yields yields_unsupported
      | some argument =>
        refine hlower i hi argument ?_
        have hargument := Program.mem_arguments_of_get? hi hget
        simp [TypeInstance.members, hr, hargument]

end Types

end Comparison

/-! Invariants of a session. -/

section Keeps

/-- The request keeps `inv`, also when it fails, and fails only with errors that are allowed. -/
def Keeps (inv : Session κ → Prop) (allowed : Stop LoweringError → Prop) (w : Pass κ α) : Prop :=
  ∀ s, inv s → w.Ends s (fun _ t => inv t) fun e t => inv t ∧ allowed e

/-- The invariant is not about ids, declarations or the journal, and all errors but cycles are
allowed. -/
structure Plain (inv : Session κ → Prop) (allowed : Stop LoweringError → Prop) : Prop where
  quiet : ∀ {s t : Session κ}, inv s → s.Quiet t → inv t
  allows : ∀ {e : Stop LoweringError}, e ≠ .failed .cyclic → allowed e

variable {inv : Session κ → Prop} {allowed : Stop LoweringError → Prop}

theorem Keeps.bind {w : Pass κ α} {f : α → Pass κ β} (h : Keeps inv allowed w)
    (hf : ∀ a, Keeps inv allowed (f a)) : Keeps inv allowed (w >>= f) :=
  fun s hs => Walk.Ends.andThen (h s hs) fun a t ht => hf a t ht

theorem Alike.keeps (hb : Plain inv allowed) {w : Pass κ α} {w' : Pass κ α} {post : α → Prop}
    (h : Alike post w w') {s : Session κ} (hs : inv s) :
    w.Ends s (fun a t => inv t ∧ post a) fun e t => inv t ∧ allowed e := by
  refine Walk.Ends.mono (h.ends (rfl : s.unkeyed = s.unkeyed)) ?_ ?_
  · rintro a t ⟨hst, ha, -⟩
    exact ⟨hb.quiet hs hst, ha⟩
  · rintro e t ⟨hst, he, -⟩
    exact ⟨hb.quiet hs hst, hb.allows he⟩

theorem Yields.ends (hb : Plain inv allowed) {w : (κ : Type) → Pass κ α} {post : α → Prop}
    (h : Yields w post) {s : Session κ} (hs : inv s) :
    (w κ).Ends s (fun a t => inv t ∧ post a) fun e t => inv t ∧ allowed e :=
  (h κ κ).keeps hb hs

/-- An invariant of one pass as a comparison of the pass with itself. -/
def Plain.comparison (hb : Plain inv allowed) : Comparison κ κ where
  Holds w _ post := ∀ s, inv s →
    w.Ends s (fun a t => inv t ∧ post a) fun e t => inv t ∧ allowed e
  alike h _ hs := h.keeps hb hs
  bind h hf s hs := Walk.Ends.andThen (h s hs) fun a t ht => hf a ht.2 t ht.1

theorem Plain.compares_iff (hb : Plain inv allowed) {w : Pass κ α} :
    hb.comparison.Compares w w ↔ Keeps inv allowed w := by
  simp [Plain.comparison, Comparison.Compares, Keeps]

theorem Inert.keeps (hb : Plain inv allowed) {w : (κ : Type) → Pass κ α} (h : Inert w) :
    Keeps inv allowed (w κ) :=
  hb.compares_iff.mp (Comparison.yields h)

variable {p : Program} {lower : Ty → Pass κ LoweredType}

theorem keeps_buildType (hb : Plain inv allowed) {ty : Ty}
    (hlower : ∀ i, p.construct ty = .ok i → ∀ member ∈ i.members,
      Keeps inv allowed (lower member)) :
    Keeps inv allowed (buildType p lower ty) := by
  refine hb.compares_iff.mp (Comparison.buildType fun i hi member hmember => ?_)
  exact hb.compares_iff.mpr (hlower i hi member hmember)

theorem keeps_lowerReturn (hb : Plain inv allowed) {ty : Option Ty}
    (hlower : ∀ t, ty = some t → Keeps inv allowed (lower t)) :
    Keeps inv allowed (lowerReturn lower ty) := by
  refine hb.compares_iff.mp (Comparison.lowerReturn fun t ht => ?_)
  exact hb.compares_iff.mpr (hlower t ht)

/-- The request adds a function of the method to the list, which it does last. -/
def Adds (inv : Session κ → Prop) (allowed : Stop LoweringError → Prop) (m : LocatedMethod)
    (w : Pass κ Function) : Prop :=
  ∀ s, inv s → w.Ends s
    (fun f t => f.method = m ∧ ∃ u, inv u ∧ t.types = u.types ∧ t.functions = u.functions ∧
      t.order = u.order.push f)
    (fun e t => inv t ∧ allowed e)

theorem adds_buildFunction (hb : Plain inv allowed) {m : LocatedMethod}
    {request : MethodRef → Pass κ Function}
    (hlower : ∀ ty, m.method.Requests ty → Keeps inv allowed (lower ty))
    (hrequest : ∀ r, m.method.Refers r → Keeps inv allowed (request r)) :
    Adds inv allowed m (buildFunction lower request m) := by
  refine hb.comparison.buildFunction (fun w _ => Adds inv allowed m w) ?_ ?_
    (fun ty hty => hb.compares_iff.mpr (hlower ty hty))
    fun r hr => hb.compares_iff.mpr (hrequest r hr)
  · intro α w w' f f' post hw hf s hs
    exact Walk.Ends.andThen (hw s hs) fun a t ht => hf a ht.2 t ht.1
  · rintro f rfl - s hs
    unfold publish
    cases f.method.method.kernelSize? with
    | none => exact ⟨rfl, s, hs, rfl, rfl, rfl⟩
    | some size => exact ⟨rfl, s, hs, rfl, rfl, rfl⟩

end Keeps

theorem alike_resolve (p : Program) (r : MethodRef) :
    Alike (fun target => p.resolve r = .ok target) (resolve p r) (resolve p r) := by
  have hnote : Inert fun _ => modify fun s => { s with journal := s.journal.afterResolve p r } :=
    inert_note (fun j => j.afterResolve p r) fun j => Heap.grows_resolve j.heap p r
  exact (hnote MethodId MethodId).bind fun _ _ => yields_ofIr (p.resolve r) MethodId MethodId

/-- A reference stands for a request for the method that it resolves to. -/
theorem keeps_callee {inv : Session → Prop} {allowed : Stop LoweringError → Prop}
    (hb : Plain inv allowed) {p : Program} {compile : LocatedMethod → M Function} {r : MethodRef}
    (hcompile : ∀ target m, p.resolve r = .ok target → target.concrete? = some m →
      Keeps inv allowed (compile m)) :
    Keeps inv allowed (callee p compile r) := by
  intro s hs
  refine Walk.Ends.andThen ((alike_resolve p r).keeps hb hs) ?_
  rintro target t ⟨ht, htarget⟩
  cases hm : target.concrete? with
  | none => exact ⟨ht, hb.allows (by simp)⟩
  | some m => exact hcompile target m htarget hm t ht

end Lowering

end ShaderIR
