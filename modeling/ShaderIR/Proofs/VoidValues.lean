import ShaderIR.Proofs.BlockStructure
import ShaderIR.Proofs.EmittedFunctions
import ShaderIR.Proofs.StagedConstruction
import ShaderIR.Proofs.WellTyped

/-! The type of no value. In a compiled module it stands only for what functions return, as long as
no method that is reached has a receiver of such a type: the types of receivers are the only ones
that are not checked. -/

namespace ShaderIR

namespace Binary

/-- The id is that of the type of no value. -/
def IsVoid (code : List Inst) (x : UInt32) : Prop :=
  (definition? code x).map Inst.op = some .typeVoid

instance (code : List Inst) (x : UInt32) : Decidable (IsVoid code x) :=
  inferInstanceAs (Decidable (_ = _))

/-- The instruction refers to the type only as what a function returns: it is a function, the type
of one, or the call of one that returns it. -/
inductive AsReturn (code : List Inst) (x : UInt32) : Inst → Prop
  | function {id control type : UInt32} (ht : x ≠ type) :
      AsReturn code x ⟨.function, [x, id, control, type]⟩
  | functionType {id : UInt32} {parameters : List UInt32} (hp : x ∉ parameters) :
      AsReturn code x ⟨.typeFunction, id :: x :: parameters⟩
  | call {id callee control type : UInt32} {arguments : List UInt32} (hc : x ≠ callee)
      (ha : x ∉ arguments)
      (hf : definition? code callee = some ⟨.function, [x, callee, control, type]⟩) :
      AsReturn code x ⟨.functionCall, x :: id :: callee :: arguments⟩

/-- No value has the type of no value, which stands only for what functions return. -/
structure VoidFree (code : List Inst) : Prop where
  parameters : ∀ type x, ⟨.functionParameter, [type, x]⟩ ∈ code → ¬ IsVoid code type
  locals : ∀ type rest held, ⟨.variable, type :: rest⟩ ∈ code →
    pointee? code type = some held → ¬ IsVoid code held
  functionTypes : ∀ x returnType parameters, ⟨.typeFunction, x :: returnType :: parameters⟩ ∈ code →
    ∀ type ∈ parameters, ¬ IsVoid code type
  members : ∀ x members, ⟨.typeStruct, x :: members⟩ ∈ code → ∀ type ∈ members, ¬ IsVoid code type
  components : ∀ x component rest, ⟨.typeVector, x :: component :: rest⟩ ∈ code →
    ¬ IsVoid code component
  loads : ∀ type rest, ⟨.load, type :: rest⟩ ∈ code → ¬ IsVoid code type
  returned : ∀ i ∈ code, ∀ x ∈ i.uses, IsVoid code x → AsReturn code x i

variable {code : List Inst} {x : UInt32}

theorem not_isVoid {i : Inst} (h : definition? code x = some i) (hop : i.op ≠ .typeVoid) :
    ¬ IsVoid code x := by
  simpa [IsVoid, h] using hop

theorem not_isVoid_of_typeOf? {type : UInt32} (h : typeOf? code x = some type) :
    ¬ IsVoid code x := by
  obtain ⟨i, hi, hresult⟩ := Option.bind_eq_some_iff.mp h
  refine not_isVoid hi fun hop => ?_
  simp [Inst.resultType?, hop, Op.layout] at hresult

/-- A pointer type is declared as such. -/
theorem exists_of_pointee? {held : UInt32} (h : pointee? code x = some held) :
    ∃ id, definition? code x = some ⟨.typePointer, [id, 7, held]⟩ := by
  unfold pointee? at h
  split at h
  · rename_i id pointee hdefinition
    cases h
    exact ⟨id, hdefinition⟩
  · cases h

theorem not_isVoid_of_pointee? {held : UInt32} (h : pointee? code x = some held) :
    ¬ IsVoid code x := by
  obtain ⟨id, hdefinition⟩ := exists_of_pointee? h
  exact not_isVoid hdefinition (by simp)

theorem not_isVoid_of_scalarKind? {kind : NumberKind} (h : scalarKind? code x = some kind) :
    ¬ IsVoid code x := by
  unfold scalarKind? at h
  split at h
  · rename_i hdefinition
    exact not_isVoid hdefinition (by simp)
  · rename_i hdefinition
    exact not_isVoid hdefinition (by simp)
  · cases h

theorem not_isVoid_of_numberKind? {kind : NumberKind} (h : numberKind? code x = some kind) :
    ¬ IsVoid code x := by
  unfold numberKind? at h
  split at h
  · rename_i hdefinition
    exact not_isVoid hdefinition (by simp)
  · exact not_isVoid_of_scalarKind? h

/-- The other rules follow from where the type may stand. -/
theorem voidFree_of_returned
    (h : ∀ i ∈ code, ∀ x ∈ i.uses, IsVoid code x → AsReturn code x i) : VoidFree code where
  parameters := by
    intro type x hi hv
    cases h _ hi type (by simp [Inst.uses, Op.layout, idsOfLayout]) hv
  locals := by
    intro type rest held hi hp hv
    obtain ⟨id, hdefinition⟩ := exists_of_pointee? hp
    cases h _ (List.mem_of_find?_eq_some hdefinition) held
      (by simp [Inst.uses, Op.layout, idsOfLayout]) hv
  functionTypes := by
    intro x returnType parameters hi type htype hv
    cases h _ hi type (by simp [Inst.uses, Op.layout, idsOfLayout, htype]) hv with
    | functionType hp => exact hp htype
  members := by
    intro x members hi type htype hv
    cases h _ hi type (by simpa [Inst.uses, Op.layout, idsOfLayout] using htype) hv
  components := by
    intro x component rest hi hv
    cases h _ hi component (by simp [Inst.uses, Op.layout, idsOfLayout]) hv
  loads := by
    intro type rest hi hv
    cases h _ hi type (by simp [Inst.uses, Op.layout, idsOfLayout]) hv
  returned := h

theorem layout_of_kinds {op : Op} {kind : NumberKind} (h : kind ∈ op.kinds) :
    ∃ n, op.layout = .one .resultType :: .one .result :: List.replicate n (.one .id) := by
  cases op <;> simp [Op.kinds] at h
  case fNegate | sNegate => exact ⟨1, rfl⟩
  all_goals exact ⟨2, rfl⟩

theorem idsOfLayout_replicate (n : Nat) (ws : List UInt32) :
    idsOfLayout (List.replicate n (.one .id)) ws ⊆ ws := by
  induction n generalizing ws with
  | zero => simp [idsOfLayout]
  | succ n ih =>
    cases ws with
    | nil => simp [List.replicate_succ, idsOfLayout]
    | cons w ws =>
      rw [List.replicate_succ, idsOfLayout]
      exact List.cons_subset_cons w (ih ws)

/-- An arithmetic instruction refers to its type and to its operands. -/
theorem uses_of_kinds {op : Op} {kind : NumberKind} (h : kind ∈ op.kinds) {type result : UInt32}
    {operands : List UInt32} (hx : x ∈ (⟨op, type :: result :: operands⟩ : Inst).uses) :
    x = type ∨ x ∈ operands := by
  obtain ⟨n, hlayout⟩ := layout_of_kinds h
  have huses : x = type ∨ x ∈ idsOfLayout (List.replicate n (.one .id)) operands := by
    simpa [Inst.uses, hlayout, idsOfLayout] using hx
  exact huses.imp_right fun hmem => idsOfLayout_replicate n operands hmem

/-- Inside functions only calls refer to the type, if parameters and what pointers point to have
values. -/
theorem WellTyped.asReturn {returnType : UInt32} {i : Inst} (h : WellTyped code returnType i)
    (hparameter : ∀ type y, i = ⟨.functionParameter, [type, y]⟩ → ¬ IsVoid code type)
    (hpointee : ∀ pointer held, pointee? code pointer = some held → ¬ IsVoid code held)
    (hx : x ∈ i.uses) (hv : IsVoid code x) : AsReturn code x i := by
  have hpoints : ∀ {pointer type : UInt32}, PointsTo code pointer type →
      ¬ IsVoid code pointer ∧ ¬ IsVoid code type := by
    intro pointer type hp
    obtain ⟨pointerType, htype, hheld⟩ := Option.bind_eq_some_iff.mp hp
    exact ⟨not_isVoid_of_typeOf? htype, hpointee pointerType type hheld⟩
  cases h with
  | @parameter type y =>
    obtain rfl : x = type := by simpa [Inst.uses, Op.layout, idsOfLayout] using hx
    exact absurd hv (hparameter x y rfl)
  | label => simp [Inst.uses, Op.layout, idsOfLayout] at hx
  | @«variable» type y held ht =>
    obtain rfl : x = type := by simpa [Inst.uses, Op.layout, idsOfLayout] using hx
    exact absurd hv (not_isVoid_of_pointee? ht)
  | @load type y pointer hp =>
    obtain ⟨hpointer, htype⟩ := hpoints hp
    have huses : x = type ∨ x = pointer := by
      simpa [Inst.uses, Op.layout, idsOfLayout] using hx
    rcases huses with rfl | rfl
    · exact absurd hv htype
    · exact absurd hv hpointer
  | @store pointer value type hp hvalue =>
    have huses : x = pointer ∨ x = value := by
      simpa [Inst.uses, Op.layout, idsOfLayout] using hx
    rcases huses with rfl | rfl
    · exact absurd hv (hpoints hp).1
    · exact absurd hv (not_isVoid_of_typeOf? hvalue)
  | @arithmetic op type y operands kind hk ho hoperands =>
    rcases uses_of_kinds ho hx with rfl | hmem
    · exact absurd hv (not_isVoid_of_numberKind? hk)
    · exact absurd hv (not_isVoid_of_typeOf? (hoperands x hmem))
  | @component type y base index vector component count indexType kind hb hvector hi hk hn ht =>
    have huses : x = type ∨ x = base ∨ x = index := by
      simpa [Inst.uses, Op.layout, idsOfLayout] using hx
    rcases huses with rfl | rfl | rfl
    · exact absurd hv (not_isVoid_of_pointee? ht)
    · exact absurd hv (hpoints hb).1
    · exact absurd hv (not_isVoid_of_typeOf? hi)
  | @member type y base index struct indexType position member members hb hstruct hi hk hm ht =>
    have huses : x = type ∨ x = base ∨ x = index := by
      simpa [Inst.uses, Op.layout, idsOfLayout] using hx
    rcases huses with rfl | rfl | rfl
    · exact absurd hv (not_isVoid_of_pointee? ht)
    · exact absurd hv (hpoints hb).1
    · exact absurd hv (not_isVoid hi (by simp))
  | @call type y callee control functionType arguments parameters hf ht ha =>
    have hcallee : ¬ IsVoid code callee := not_isVoid hf (by simp)
    have harguments : x ∉ arguments := by
      intro hmem
      have htyped : typeOf? code x ∈ parameters.map some := ha ▸ List.mem_map_of_mem hmem
      obtain ⟨parameter, _, hparameter⟩ := List.mem_map.mp htyped
      exact not_isVoid_of_typeOf? hparameter.symm hv
    have huses : x = type ∨ x = callee ∨ x ∈ arguments := by
      simpa [Inst.uses, Op.layout, idsOfLayout] using hx
    rcases huses with rfl | rfl | hmem
    · exact .call (fun he => hcallee (he ▸ hv)) harguments hf
    · exact absurd hv hcallee
    · exact absurd hmem harguments
  | ret => simp [Inst.uses, Op.layout, idsOfLayout] at hx
  | @returnValue value hvalue =>
    obtain rfl : x = value := by simpa [Inst.uses, Op.layout, idsOfLayout] using hx
    exact absurd hv (not_isVoid_of_typeOf? hvalue)

end Binary

namespace Lowering

open Binary (Op Id Inst Image results definition? pointee? IsVoid AsReturn VoidFree not_isVoid)

/-- The platform represents the type as that of no value. -/
def VoidType (p : Program) (ty : Ty) : Prop :=
  ∃ i name, p.construct ty = .ok i ∧ i.representation? = some (some name) ∧
    Representation.parse? name = some .void

/-- No method that is reached has a receiver of a type of no value. -/
def ReceiversCarry (p : Program) : Prop :=
  ∀ m, p.Reached m → m.method.isStatic = false → ¬ VoidType p m.method.owner

theorem LoweredType.isVoid_iff {t : LoweredType} : t.isVoid = true ↔ t.shape = .void := by
  unfold isVoid
  split <;> simp_all

variable {p : Program} {s : Session} {held : List UInt32}

theorem LoweredFrom.isVoid_iff {part : Ty → LoweredType → Prop} {ty : Ty} {t : LoweredType}
    (h : LoweredFrom p part ty t) : t.isVoid = true ↔ VoidType p ty := by
  rw [LoweredType.isVoid_iff]
  cases h with
  | @scalar i name r hc hr hp hs =>
    constructor
    · intro hvoid
      rw [hvoid] at hs
      refine ⟨i, name, hc, hr, ?_⟩
      cases r <;> simp_all [Representation.scalarShape?]
    · rintro ⟨i', name', hc', hr', hp'⟩
      obtain rfl : i = i' := Except.ok.inj (hc.symm.trans hc')
      obtain rfl : name = name' := by simpa [hr] using hr'
      rw [hp'] at hp
      cases hp
      exact (Option.some.inj hs).symm
  | @vector _ i name _ _ _ hc hr hp _ _ _ ht =>
    refine ⟨fun hvoid => by simp [ht] at hvoid, ?_⟩
    rintro ⟨i', name', hc', hr', hp'⟩
    obtain rfl : i = i' := Except.ok.inj (hc.symm.trans hc')
    obtain rfl : name = name' := by simpa [hr] using hr'
    rw [hp'] at hp
    cases hp
  | @struct i members hc hr ht =>
    refine ⟨fun hvoid => by simp [ht] at hvoid, ?_⟩
    rintro ⟨i', name', hc', hr', _⟩
    obtain rfl : i = i' := Except.ok.inj (hc.symm.trans hc')
    simp [hr] at hr'

theorem Function.Built.parameter_type {code : List Inst} {earlier : List Function} {f : Function}
    {q : FunctionParts} (h : f.Built p code earlier q) {type x : UInt32}
    (hi : ⟨.functionParameter, [type, x]⟩ ∈ f.code) : ∃ t ∈ f.parameters, t.id.val = type := by
  obtain ⟨plain, last, hbody, hplain, hlast⟩ := h.body.exists_last
  simp only [h.code_eq, FunctionParts.inner, hbody, List.mem_cons, List.mem_append,
    List.not_mem_nil, or_false] at hi
  rcases hi with hi | (hi | hi | hi | hi | hi | hi) | hi
  · cases hi
  · rw [FunctionParts.parameterInsts, ← List.map_uncurry_zip_eq_zipWith] at hi
    obtain ⟨⟨t, id⟩, hmem, he⟩ := List.mem_map.mp hi
    cases he
    exact ⟨t, (List.of_mem_zip hmem).1, rfl⟩
  · cases hi
  · obtain ⟨v, _, he⟩ := List.mem_map.mp hi
    cases he
  · rw [FunctionParts.storeInsts, ← List.map_uncurry_zip_eq_zipWith] at hi
    obtain ⟨v, _, he⟩ := List.mem_map.mp hi
    cases he
  · cases (hplain _ hi).1
  · subst hi
    cases hlast
  · cases hi

namespace Session.Sound

/-- The declarations are about values that there are, if receivers are. -/
theorem not_isVoid_of_valueTypes (hs : s.Sound p p.Reached held)
    (hn : s.declarations.issued < 0xFFFFFFFF) (hreceivers : ReceiversCarry p) {i : Inst}
    (hi : i ∈ s.code) {x : UInt32} (hx : x ∈ valueTypes i) : ¬ IsVoid s.sections x := by
  obtain ⟨t, rfl, hdeclared, hvalue⟩ := hs.values i hi x hx
  have hcarries : t.isVoid ≠ true := by
    rcases hvalue with hvalue | ⟨m, hm, hstatic, hlowered⟩
    · simp [hvalue]
    · rw [Ne, (hs.types _ t hlowered).layer.isVoid_iff]
      exact hreceivers m hm hstatic
  refine not_isVoid (definition?_type (hs.nodup_sections hn) s.code_subset_sections hdeclared) ?_
  intro hop
  refine hcarries (LoweredType.isVoid_iff.mpr ?_)
  cases hshape : t.shape <;> simp_all [Shape.key, DeclarationKey.inst]

theorem asReturn_code (hs : s.Sound p p.Reached held) (hn : s.declarations.issued < 0xFFFFFFFF)
    (hreceivers : ReceiversCarry p) {i : Inst} (hi : i ∈ s.code) {x : UInt32} (hx : x ∈ i.uses)
    (hv : IsVoid s.sections x) : AsReturn s.sections x i := by
  have hvalues : x ∉ valueTypes i := fun hmem =>
    hs.not_isVoid_of_valueTypes hn hreceivers hi hmem hv
  cases hs.declarations.forms i hi with
  | function id returnType parameters =>
    obtain rfl : x = returnType := by
      simpa [Inst.uses, Op.layout, Binary.idsOfLayout, show x ∉ parameters from hvalues] using hx
    exact .functionType hvalues
  | vector | struct | pointer | constant =>
    refine absurd ?_ hvalues
    simpa [Inst.uses, Op.layout, Binary.idsOfLayout, valueTypes] using hx
  | void | bool | int | float => simp [Inst.uses, Op.layout, Binary.idsOfLayout] at hx

theorem mem_code (hs : s.Sound p p.Reached held) {i : Inst} (hi : i ∈ s.sections)
    (hop : i.op.isDeclaration = true) : i ∈ s.code := by
  rw [sections_eq, List.mem_append, List.mem_append, List.mem_flatMap] at hi
  rcases hi with hi | hi | ⟨f, hf, hi⟩
  · rcases hs.uses_preamble hi with ⟨hop' | hop', _⟩ | ⟨hop' | hop', _⟩ <;>
      rw [hop'] at hop <;> cases hop
  · exact hi
  · obtain ⟨_, _, q, _, hq⟩ := hs.built hf
    rw [hq.code_eq, List.mem_cons, List.mem_append, List.mem_singleton] at hi
    rcases hi with rfl | hi | rfl
    · cases hop
    · simp [Op.not_isDeclaration_of_isInner (hq.isInner i hi)] at hop
    · cases hop

theorem not_isVoid_function (hs : s.Sound p p.Reached held)
    (hn : s.declarations.issued < 0xFFFFFFFF) {f : Function} (hf : f ∈ s.functionList) :
    ¬ IsVoid s.sections f.id.val := by
  obtain ⟨_, _, q, _, hq⟩ := hs.built hf
  exact not_isVoid (hq.functionType_eq (hs.nodup_sections hn) s.code_subset_sections
    (functionCode_subset_sections hf)).1 (by simp)

theorem not_isVoid_pointee (hs : s.Sound p p.Reached held)
    (hn : s.declarations.issued < 0xFFFFFFFF) (hreceivers : ReceiversCarry p)
    {pointer target : UInt32} (h : pointee? s.sections pointer = some target) :
    ¬ IsVoid s.sections target := by
  obtain ⟨id, hdefinition⟩ := Binary.exists_of_pointee? h
  have hmem := hs.mem_code (List.mem_of_find?_eq_some hdefinition) rfl
  exact hs.not_isVoid_of_valueTypes hn hreceivers hmem (by simp [valueTypes])

theorem asReturn_function (hs : s.Sound p p.Reached held)
    (hn : s.declarations.issued < 0xFFFFFFFF) (hreceivers : ReceiversCarry p) {f : Function}
    (hf : f ∈ s.functionList) {i : Inst} (hi : i ∈ f.code) {x : UInt32} (hx : x ∈ i.uses)
    (hv : IsVoid s.sections x) : AsReturn s.sections x i := by
  obtain ⟨pre, post, q, hsplit, hq⟩ := hs.built hf
  have hnodup := hs.nodup_sections hn
  have hcode := functionCode_subset_sections hf
  have hi' := hi
  rw [hq.code_eq, List.mem_cons, List.mem_append, List.mem_singleton] at hi'
  rcases hi' with rfl | hinner | rfl
  · have htype : ¬ IsVoid s.sections q.functionType.val :=
      not_isVoid (hq.functionType_eq hnodup s.code_subset_sections hcode).2 (by simp)
    have huses : x = f.returnType.id.val ∨ x = q.functionType.val := by
      simpa [FunctionParts.headInst, Inst.ofIds, Inst.uses, Op.layout, Binary.idsOfLayout] using hx
    rcases huses with rfl | rfl
    · exact .function fun he => htype (he ▸ hv)
    · exact absurd hv htype
  · have hearlier : ∀ g ∈ pre, g.code ⊆ s.sections ∧ ∃ before r, g.Built p s.code before r := by
      intro g hg
      have hg' : g ∈ s.functionList := by simp [hsplit, hg]
      obtain ⟨before, _, r, _, hr⟩ := hs.built hg'
      exact ⟨functionCode_subset_sections hg', before, r, hr⟩
    refine (hq.wellTyped hnodup s.code_subset_sections hcode hearlier i hinner).asReturn ?_
      (fun _ _ hp => hs.not_isVoid_pointee hn hreceivers hp) hx hv
    rintro type y rfl
    obtain ⟨t, ht, rfl⟩ := hq.parameter_type hi
    exact hs.not_isVoid_of_valueTypes hn hreceivers hq.functionType
      (List.mem_map_of_mem (f := fun t : LoweredType => t.id.val) ht)
  · simp [Inst.uses, Op.layout, Binary.idsOfLayout] at hx

/-- If receivers carry values, the type of no value is only returned. -/
theorem voidFree (hs : s.Sound p p.Reached held) (hn : s.declarations.issued < 0xFFFFFFFF)
    (hreceivers : ReceiversCarry p) : VoidFree s.sections := by
  refine Binary.voidFree_of_returned fun i hi x hx hv => ?_
  rw [sections_eq, List.mem_append, List.mem_append, List.mem_flatMap] at hi
  rcases hi with hi | hi | ⟨f, hf, hi⟩
  · rcases hs.uses_preamble hi with ⟨_, hu⟩ | ⟨_, f, hf, hu⟩
    · simp [hu] at hx
    · obtain rfl : x = f.id.val := by simpa [hu] using hx
      exact absurd hv (hs.not_isVoid_function hn hf)
  · exact hs.asReturn_code hn hreceivers hi hx hv
  · exact hs.asReturn_function hn hreceivers hf hi hx hv

/-- A receiver of a type of no value is a parameter of that type. -/
theorem receiversCarry (hs : s.Sound p p.Reached held) (hn : s.declarations.issued < 0xFFFFFFFF)
    (hlisted : ∀ lm, p.Reached lm → ∃ f ∈ s.functionList, f.method = lm)
    (hfree : VoidFree s.sections) : ReceiversCarry p := by
  intro m hm hstatic hvoid
  obtain ⟨f, hf, rfl⟩ := hlisted m hm
  obtain ⟨pre, post, hsplit⟩ := List.append_of_mem hf
  obtain ⟨q, hq, hsourced⟩ := hs.lowered pre f post hsplit
  obtain ⟨receiver, others, hparameters, hreceiver, _⟩ := hsourced.parameters
  rw [hstatic] at hreceiver
  obtain ⟨t, ht, rfl⟩ : ∃ t, s.Lowered f.method.method.owner t ∧ receiver = [t] := by
    cases hreceiver with
    | cons ht hrest =>
      cases hrest
      exact ⟨_, ht, rfl⟩
  obtain ⟨id, rest, hpassed⟩ : ∃ id rest, q.passed = id :: rest := by
    have hlength := hq.passed
    rw [hparameters] at hlength
    exact List.exists_cons_of_length_eq_add_one (by simpa using hlength)
  have hentry := hs.types _ t ht
  have hshape : t.shape = .void := LoweredType.isVoid_iff.mp (hentry.layer.isVoid_iff.mpr hvoid)
  have hinst : (⟨.functionParameter, [t.id.val, id.val]⟩ : Inst) ∈ f.code := by
    rw [hq.code_eq, FunctionParts.inner, FunctionParts.parameterInsts, hparameters, hpassed]
    simp [Inst.ofIds]
  refine hfree.parameters _ _ (functionCode_subset_sections hf hinst) ?_
  have hdefinition :=
    definition?_type (hs.nodup_sections hn) s.code_subset_sections hentry.declared
  rw [hshape] at hdefinition
  simp [IsVoid, hdefinition, Shape.key, DeclarationKey.inst]

end Session.Sound

/-- A fresh module has no values of the type of no value just when no method that is reached has
such a receiver. -/
theorem compile_voidFree_iff (hp : p.Distinct) {options : Options} {m : CompiledModule}
    (h : (compile p options).outcome {} = (.ok m, s))
    (hn : s.declarations.issued < 0xFFFFFFFF) :
    ∃ image, Image.read? m.bytes = some image ∧ (VoidFree image.code ↔ ReceiversCarry p) := by
  obtain ⟨hs, hshows, hlisted, _⟩ := compile_functions hp h
  exact ⟨_, hshows.image hs, hs.receiversCarry hn hlisted, hs.voidFree hn⟩

/-- No type of the probe is represented as that of no value. -/
theorem Probe.not_voidType (ty : Ty) : ¬ VoidType Probe.program ty := by
  rintro ⟨i, name, hc, hr, hvoid⟩
  obtain ⟨path, d, arguments, hfind, hi⟩ : ∃ path d arguments,
      Probe.program.find? ty.name = some (path, d) ∧ d.instantiate arguments = .ok i := by
    unfold Program.construct at hc
    split at hc
    · cases hc
    · split at hc
      · cases hc
      · rename_i hfind
        exact ⟨_, _, _, hfind, hc⟩
  obtain ⟨home, hhome, hlocal⟩ := Program.atPath?_of_find? _ hfind
  obtain rfl : Probe.program = home := by
    cases path with
    | nil => exact Option.some.inj hhome
    | cons position path => simp [Program.atPath?, Probe.program] at hhome
  have hd : d ∈ Probe.program.types := List.mem_of_find?_eq_some hlocal
  rw [TypeInstance.representation?, (TypeDecl.parts_of_instantiate hi).1] at hr
  simp only [Probe.program, List.mem_cons, List.not_mem_nil, or_false] at hd
  rcases hd with rfl | rfl | rfl | rfl
  case inr.inr.inr => cases hr
  all_goals
    cases hr
    revert hvoid
    decide

theorem compile_voidFree_iff_probe :
    Probe.program.Distinct ∧ ∃ m s, (compile Probe.program {}).outcome {} = (.ok m, s) ∧
      s.declarations.issued < 0xFFFFFFFF ∧
      ∃ image, Image.read? m.bytes = some image ∧
        ReceiversCarry Probe.program ∧ VoidFree image.code := by
  obtain ⟨m, s, h, hn⟩ := Probe.outcome_ok {} (by decide +kernel) (by decide +kernel)
  obtain ⟨image, himage, hiff⟩ := compile_voidFree_iff Probe.distinct h hn
  have hcarry : ReceiversCarry Probe.program := fun m _ _ => Probe.not_voidType m.method.owner
  exact ⟨Probe.distinct, m, s, h, hn, image, himage, hcarry, hiff.mpr hcarry⟩

namespace Ghost

/-- An instance method of a type that the platform represents as that of no value. -/
def touch : Method where
  owner := .named "Demo.Nothing" []
  name := "Touch"

def program : Program where
  name := "Demo"
  types :=
    [{ fullName := "Demo.Nothing"
       attributes := [.representation (some "OpTypeVoid")]
       methods := [touch] }]

end Ghost

/-- A receiver of the type of no value is not refused. -/
theorem compile_voidFree_ghost :
    ∃ m s image type x, (compile Ghost.program {}).outcome {} = (.ok m, s) ∧
      Image.read? m.bytes = some image ∧ ⟨.functionParameter, [type, x]⟩ ∈ image.code ∧
      IsVoid image.code type ∧ ¬ VoidFree image.code := by
  have hpassed : (freshCode? Ghost.program {}).map (fun code =>
      decide (⟨.functionParameter, [1, 4]⟩ ∈ code ∧ IsVoid code 1)) = some true := by
    decide +kernel
  obtain ⟨code, hcode, hpassed⟩ := Option.map_eq_some_iff.mp hpassed
  obtain ⟨m, s, image, h, himage, rfl⟩ := exists_of_freshCode? hcode
  obtain ⟨hmem, hvoid⟩ := of_decide_eq_true hpassed
  exact ⟨m, s, image, 1, 4, h, himage, hmem, hvoid,
    fun hfree => hfree.parameters 1 4 hmem hvoid⟩

end Lowering

end ShaderIR
