import ShaderIR.Proofs.MirroredTypes

/-! Lowering a body again. Every check that the finished session has passed is passed again, and the
code that comes out matches its code. -/

namespace ShaderIR.Lowering

open Binary (Op Id Inst results)

section Checks

variable {c : Scope} {i : Instruction} {slot : Nat}

theorem operand_eq {o : Operand} (h : i.operands[slot]? = some o) :
    c.operand i slot = (pure o : M Operand) := by
  rw [Scope.operand, h]

theorem lookup_eq {v : Variable} (h : c.Reads i slot v) :
    c.lookup i slot = (pure v : M Variable) := by
  obtain ⟨n, ho, hv⟩ := h
  rw [Scope.lookup, operand_eq ho, pure_bind]
  simp only [hv]

theorem methodRef_eq {r : MethodRef} (h : i.operands[slot]? = some (.method r)) :
    c.methodRef i slot = (pure r : M MethodRef) := by
  rw [Scope.methodRef, operand_eq h, pure_bind]

theorem field_eq {f : UInt32} (h : i.operands[slot]? = some (.field f)) :
    c.field i slot = (pure f : M UInt32) := by
  rw [Scope.field, operand_eq h, pure_bind]

theorem expect_eq {a b : LoweredType} (h : a.id = b.id) :
    c.expect a b = (pure () : M Unit) := by
  have hsame : a.same b = true := by simp [LoweredType.same, h]
  rw [Scope.expect, if_pos hsame]

theorem numeric_eq {opcode : Opcode} {type : LoweredType} {op : Op}
    (h : arithmeticOp? opcode type.scalar = some op) :
    c.numeric opcode type = (pure op : M Op) := by
  rw [Scope.numeric, h]

theorem component_eq {aggregate component : LoweredType} {count : UInt32}
    (h : aggregate.shape = .vector component count) :
    c.component aggregate = (pure component : M LoweredType) := by
  rw [Scope.component, h]

theorem memberType_eq {aggregate member : LoweredType} {members : List LoweredType}
    {field : UInt32} (h : aggregate.shape = .struct members)
    (hm : members[field.toNat]? = some member) :
    c.memberType aggregate field = (pure member : M LoweredType) := by
  rw [Scope.memberType, h]
  simp only [hm]

theorem resultSlot_eq {receiver : Option Variable} (h : c.Receives i receiver) :
    c.resultSlot i = (pure receiver : M (Option Variable)) := by
  cases receiver with
  | none => rw [Scope.resultSlot, operand_eq h, pure_bind]
  | some v =>
    have hread : c.Reads i 1 v := h
    obtain ⟨n, ho, _⟩ := h
    rw [Scope.resultSlot, operand_eq ho, pure_bind]
    simp only [lookup_eq hread, pure_bind]

theorem arguments_eq {parameters : List LoweredType} {vs : List Variable}
    (h : c.Passes i slot parameters vs) :
    c.arguments i slot parameters = (pure vs : M (List Variable)) := by
  induction parameters generalizing slot vs with
  | nil =>
    cases vs with
    | nil => rfl
    | cons => exact h.elim
  | cons parameter parameters ih =>
    cases vs with
    | nil => exact h.elim
    | cons v vs =>
      obtain ⟨hread, hid, hrest⟩ := h
      simp only [Scope.arguments, lookup_eq hread, expect_eq hid, ih hrest, pure_bind]

end Checks

section Matching

variable {r r' : UInt32 → UInt32 → Prop} {c d : Scope} {i : Instruction} {slot : Nat}

theorem Variable.Matches.mono {v w : Variable} (hr : ∀ x y, r x y → r' x y) (h : v.Matches r w) :
    v.Matches r' w :=
  ⟨h.type.mono hr, hr _ _ h.pointer⟩

theorem Scope.Matches.mono (hr : ∀ x y, r x y → r' x y) (h : c.Matches r d) : c.Matches r' d :=
  ⟨h.returnType.mono hr, h.declared.imp fun _ _ hv => hv.mono hr, h.defined⟩

theorem Scope.Matches.reads (h : c.Matches r d) {w : Variable} (hw : d.Reads i slot w) :
    ∃ v, c.Reads i slot v ∧ v.Matches r w := by
  obtain ⟨n, ho, hn⟩ := hw
  have htake := List.forall₂_take d.defined h.declared
  obtain ⟨v, hv, hvw⟩ := getElem?_of_forall₂ htake hn
  rw [← h.defined] at hv
  exact ⟨v, ⟨n, ho, hv⟩, hvw⟩

theorem Scope.Matches.receives (h : c.Matches r d) {receiver : Option Variable}
    (hd : d.Receives i receiver) :
    ∃ receiver', c.Receives i receiver' ∧ Option.Rel (Variable.Matches r) receiver' receiver := by
  cases receiver with
  | none => exact ⟨none, hd, .none⟩
  | some w =>
    obtain ⟨v, hv, hvw⟩ := h.reads hd
    exact ⟨some v, hv, .some hvw⟩

theorem Scope.Matches.passes (h : c.Matches r d) (hr : ∀ x x' y, r x y → r x' y → x = x')
    {parameters parameters' : List LoweredType} {ws : List Variable}
    (hp : List.Forall₂ (LoweredType.Matches r) parameters parameters')
    (hd : d.Passes i slot parameters' ws) :
    ∃ vs, c.Passes i slot parameters vs ∧ List.Forall₂ (Variable.Matches r) vs ws := by
  induction hp generalizing slot ws with
  | nil =>
    cases ws with
    | nil => exact ⟨[], trivial, .nil⟩
    | cons => exact hd.elim
  | @cons parameter parameter' parameters parameters' hpp _ ih =>
    cases ws with
    | nil => exact hd.elim
    | cons w ws =>
      obtain ⟨hw, hid, hrest⟩ := hd
      obtain ⟨v, hv, hvw⟩ := h.reads hw
      obtain ⟨vs, hvs, hmatch⟩ := ih hrest
      have hid' : parameter.id = v.type.id :=
        congrArg Id.mk (hr _ _ _ hpp.id (hid ▸ hvw.type.id))
      exact ⟨v :: vs, ⟨hv, hid', hvs⟩, .cons hvw hmatch⟩

end Matching

section Instructions

variable {r : UInt32 → UInt32 → Prop}

theorem matches_loadInst {type type' : LoweredType} {value value' pointer pointer' : Id}
    (ht : r type.id.val type'.id.val) (hv : r value.val value'.val)
    (hp : r pointer.val pointer'.val) :
    (loadInst type value pointer).Matches r (loadInst type' value' pointer') :=
  ⟨rfl, ht, hv, hp, trivial⟩

theorem matches_storeTo {pointer pointer' value value' : Id} (hp : r pointer.val pointer'.val)
    (hv : r value.val value'.val) : (storeTo pointer value).Matches r (storeTo pointer' value') :=
  ⟨rfl, hp, hv, trivial⟩

theorem matches_accessInst {pointerType pointerType' pointer pointer' base base' index index' : Id}
    (ht : r pointerType.val pointerType'.val) (hp : r pointer.val pointer'.val)
    (hb : r base.val base'.val) (hi : r index.val index'.val) :
    (accessInst pointerType pointer base index).Matches r
      (accessInst pointerType' pointer' base' index') :=
  ⟨rfl, ht, hp, hb, hi, trivial⟩

theorem matches_negation {shape : Shape LoweredType} {op : Op} {opcode : Opcode}
    (hop : arithmeticOp? opcode shape = some op) (ho : opcode = .negate)
    {type type' result result' value value' : Id} (ht : r type.val type'.val)
    (hr : r result.val result'.val) (hv : r value.val value'.val) :
    (Inst.ofIds op [type, result, value] []).Matches r
      (Inst.ofIds op [type', result', value'] []) := by
  refine ⟨rfl, ?_⟩
  have hlayout := layout_of_arithmeticOp? hop
  rw [if_pos ho] at hlayout
  change Binary.SameWords r (Binary.idAt op.layout) _ _
  rw [hlayout]
  exact ⟨ht, hr, hv, trivial⟩

theorem matches_binary {shape : Shape LoweredType} {op : Op} {opcode : Opcode}
    (hop : arithmeticOp? opcode shape = some op) (ho : opcode ≠ .negate)
    {type type' result result' left left' right right' : Id} (ht : r type.val type'.val)
    (hr : r result.val result'.val) (hl : r left.val left'.val)
    (hright : r right.val right'.val) :
    (Inst.ofIds op [type, result, left, right] []).Matches r
      (Inst.ofIds op [type', result', left', right'] []) := by
  refine ⟨rfl, ?_⟩
  have hlayout := layout_of_arithmeticOp? hop
  rw [if_neg ho] at hlayout
  change Binary.SameWords r (Binary.idAt op.layout) _ _
  rw [hlayout]
  exact ⟨ht, hr, hl, hright, trivial⟩

end Instructions

variable {p : Program} {s t : Session} {cells : OpenCells} {reserved names : List UInt32}
variable {enough : Prop} {c d : Scope} {i : Instruction}

theorem Session.Mirrors.id_eq (h : s.Mirrors cells reserved names t) {a a' b b' : Id}
    (hab : StandsFor names a.val b.val) (hab' : StandsFor names a'.val b'.val) (he : b = b') :
    a = a' := by
  subst he
  exact congrArg Id.mk (h.left_unique hab hab')

theorem repeats_loadFrom {y : Id} (h : s.Mirrors cells (y.val :: reserved) names t)
    (type : LoweredType) (pointer : Id) :
    Repeats enough (loadFrom type pointer) t names fun result names' u =>
      ∃ value, result = (value, loadInst type value pointer) ∧
        s.Mirrors cells reserved names' u ∧ StandsFor names' value.val y.val := by
  refine (repeats_fresh h).bind ?_
  intro value names' u _ hu
  exact .pure ⟨value, rfl, hu⟩

/-- The code that comes out matches given code, whose results are taken from what is reserved. -/
def RepeatsCode (s : Session) (cells : OpenCells) (enough : Prop) (w : M (List Inst)) (t : Session)
    (reserved names : List UInt32) (out : List Inst) : Prop :=
  Repeats enough w t names fun code names' u => s.Mirrors cells reserved names' u ∧
    List.Forall₂ (Inst.Matches (StandsFor names')) code out

theorem repeats_negate {dst src : Variable} {op : Op} {value result : Id}
    (h : s.Mirrors cells (value.val :: result.val :: reserved) names t)
    (hc : c.Matches (StandsFor names) d) (ho : i.opcode = .negate) (hd : d.Reads i 0 dst)
    (hs : d.Reads i 1 src) (ht : dst.type.id = src.type.id)
    (hop : arithmeticOp? i.opcode src.type.scalar = some op) :
    RepeatsCode s cells enough (c.negate i) t reserved names
      [loadInst src.type value src.pointer, .ofIds op [dst.type.id, result, value] [],
        storeTo dst.pointer result] := by
  obtain ⟨dst', hd', hdst⟩ := hc.reads hd
  obtain ⟨src', hs', hsrc⟩ := hc.reads hs
  have ht' := h.id_eq hdst.type.id hsrc.type.id ht
  have hop' := (hsrc.type.arithmeticOp?_eq i.opcode).trans hop
  unfold Scope.negate
  simp only [lookup_eq hd', lookup_eq hs', expect_eq ht', numeric_eq hop', pure_bind]
  refine (repeats_loadFrom h src'.type src'.pointer).bind ?_
  intro _ names₁ u₁ hnames₁ hu₁
  obtain ⟨value', rfl, hu₁, hvalue⟩ := hu₁
  refine (repeats_fresh hu₁).bind ?_
  intro result' names₂ u₂ hnames₂ hu₂
  have hmono := StandsFor.mono (hnames₁.trans hnames₂)
  have hvalue₂ := StandsFor.mono hnames₂ _ _ hvalue
  exact .pure ⟨hu₂.1, .cons (matches_loadInst (hmono _ _ hsrc.type.id) hvalue₂
      (hmono _ _ hsrc.pointer)) (.cons (matches_negation hop ho (hmono _ _ hdst.type.id) hu₂.2
      hvalue₂) (.cons (matches_storeTo (hmono _ _ hdst.pointer) hu₂.2) .nil))⟩

theorem repeats_binary {dst lhs rhs : Variable} {op : Op} {left right result : Id}
    (h : s.Mirrors cells (left.val :: right.val :: result.val :: reserved) names t)
    (hc : c.Matches (StandsFor names) d) (ho : i.opcode ≠ .negate) (hd : d.Reads i 0 dst)
    (hl : d.Reads i 1 lhs) (hr : d.Reads i 2 rhs) (ht : lhs.type.id = rhs.type.id)
    (hdt : dst.type.id = lhs.type.id) (hop : arithmeticOp? i.opcode lhs.type.scalar = some op) :
    RepeatsCode s cells enough (c.binary i) t reserved names
      [loadInst lhs.type left lhs.pointer, loadInst rhs.type right rhs.pointer,
        .ofIds op [dst.type.id, result, left, right] [], storeTo dst.pointer result] := by
  obtain ⟨dst', hd', hdst⟩ := hc.reads hd
  obtain ⟨lhs', hl', hlhs⟩ := hc.reads hl
  obtain ⟨rhs', hr', hrhs⟩ := hc.reads hr
  have ht' := h.id_eq hlhs.type.id hrhs.type.id ht
  have hdt' := h.id_eq hdst.type.id hlhs.type.id hdt
  have hop' := (hlhs.type.arithmeticOp?_eq i.opcode).trans hop
  unfold Scope.binary
  simp only [lookup_eq hd', lookup_eq hl', lookup_eq hr', expect_eq ht', expect_eq hdt',
    numeric_eq hop', pure_bind]
  refine (repeats_loadFrom h lhs'.type lhs'.pointer).bind ?_
  intro _ names₁ u₁ hnames₁ hu₁
  obtain ⟨left', rfl, hu₁, hleft⟩ := hu₁
  refine (repeats_loadFrom hu₁ rhs'.type rhs'.pointer).bind ?_
  intro _ names₂ u₂ hnames₂ hu₂
  obtain ⟨right', rfl, hu₂, hright⟩ := hu₂
  refine (repeats_fresh hu₂).bind ?_
  intro result' names₃ u₃ hnames₃ hu₃
  have hmono := StandsFor.mono (hnames₁.trans (hnames₂.trans hnames₃))
  have hleft₃ := StandsFor.mono (hnames₂.trans hnames₃) _ _ hleft
  have hright₃ := StandsFor.mono hnames₃ _ _ hright
  exact .pure ⟨hu₃.1, .cons (matches_loadInst (hmono _ _ hlhs.type.id) hleft₃
      (hmono _ _ hlhs.pointer)) (.cons (matches_loadInst (hmono _ _ hrhs.type.id) hright₃
      (hmono _ _ hrhs.pointer)) (.cons (matches_binary hop ho (hmono _ _ hdst.type.id) hu₃.2
      hleft₃ hright₃) (.cons (matches_storeTo (hmono _ _ hdst.pointer) hu₃.2) .nil)))⟩

/-- After code that matches, a value is loaded and stored. -/
theorem repeats_move {value : Id} (h : s.Mirrors cells (value.val :: reserved) names t)
    {code out : List Inst} (hcode : List.Forall₂ (Inst.Matches (StandsFor names)) code out)
    {type type' : LoweredType} (ht : StandsFor names type'.id.val type.id.val)
    {source source' : Id} (hs : StandsFor names source'.val source.val)
    {target target' : Id} (hd : StandsFor names target'.val target.val) :
    RepeatsCode s cells enough
      (do
        let (value, load) ← loadFrom type' source'
        return code ++ [load, storeTo target' value]) t reserved names
      (out ++ [loadInst type value source, storeTo target value]) := by
  refine (repeats_loadFrom h type' source').bind ?_
  intro _ names₁ u₁ hnames₁ hu₁
  obtain ⟨value', rfl, hu₁, hvalue⟩ := hu₁
  have hmono := StandsFor.mono hnames₁
  have hload := matches_loadInst (hmono _ _ ht) hvalue (hmono _ _ hs)
  have hstore := matches_storeTo (hmono _ _ hd) hvalue
  exact .pure ⟨hu₁, List.rel_append (hcode.imp fun _ _ hi => hi.mono hmono)
    (.cons hload (.cons hstore .nil))⟩

theorem repeats_copy {dst src : Variable} {value : Id}
    (h : s.Mirrors cells (value.val :: reserved) names t) (hc : c.Matches (StandsFor names) d)
    (hd : d.Reads i 0 dst) (hs : d.Reads i 1 src) (ht : dst.type.id = src.type.id) :
    RepeatsCode s cells enough (c.copy i) t reserved names
      [loadInst src.type value src.pointer, storeTo dst.pointer value] := by
  obtain ⟨dst', hd', hdst⟩ := hc.reads hd
  obtain ⟨src', hs', hsrc⟩ := hc.reads hs
  have ht' := h.id_eq hdst.type.id hsrc.type.id ht
  unfold Scope.copy
  simp only [lookup_eq hd', lookup_eq hs', expect_eq ht', pure_bind]
  exact repeats_move h .nil hsrc.type.id hsrc.pointer hdst.pointer

theorem repeats_storeConstant (hs : s.Finished p) (h : s.Mirrors cells reserved names t)
    {dst dst' : Variable} (hdst : dst'.Matches (StandsFor names) dst) {constant : Id}
    {bits : UInt32} (hk : constantInst dst.type.id constant bits ∈ s.code) :
    RepeatsCode s cells enough (Scope.storeConstant dst' bits) t reserved names
      [storeTo dst.pointer constant] := by
  refine (repeats_constant hs h hdst.type.id hk).bind ?_
  intro constant' names₁ u₁ hnames₁ hu₁
  exact .pure ⟨hu₁.1,
    .cons (matches_storeTo (StandsFor.mono hnames₁ _ _ hdst.pointer) hu₁.2) .nil⟩

/-- The part of an instruction for constants that depends on the type of the variable. -/
theorem lowerPlain_eq_storeConstant {dst : Variable} {bits : UInt32} (hd : c.Reads i 0 dst)
    (hi : Immediate i dst.type.shape bits) (compile : LocatedMethod → M Function) :
    lowerPlain c (callee p compile) i = Scope.storeConstant dst bits := by
  generalize hshape : dst.type.shape = shape at hi
  cases hi with
  | uint32 ho hi =>
    simp only [lowerPlain, ho, Scope.loadUInt32, lookup_eq hd, operand_eq hi, pure_bind, hshape]
  | float32 ho hi =>
    simp only [lowerPlain, ho, Scope.loadFloat32, lookup_eq hd, operand_eq hi, pure_bind, hshape]

theorem Immediate.parts_eq_nil {shape : Shape LoweredType} {bits : UInt32}
    (h : Immediate i shape bits) : shape.parts = [] := by
  cases h <;> rfl

theorem repeats_elementPointer (hs : s.Finished p) {position element pointerType : Id}
    (h : s.Mirrors cells (position.val :: element.val :: reserved) names t)
    {component component' : LoweredType}
    (hcomponent : component'.MatchesPart (StandsFor names) component)
    (hp : pointerInst pointerType component.id ∈ s.code) {aggregate aggregate' : Variable}
    (ha : aggregate'.Matches (StandsFor names) aggregate) {index index' : Variable}
    (hi : index'.Matches (StandsFor names) index) {width : UInt32} {signed : Bool}
    (hw : index.type.shape = .int width signed) :
    Repeats enough (c.elementPointer aggregate' component' index') t names fun result names' u =>
      s.Mirrors cells reserved names' u ∧ StandsFor names' result.1.val element.val ∧
        List.Forall₂ (Inst.Matches (StandsFor names')) result.2
          [loadInst index.type position index.pointer,
            accessInst pointerType element aggregate.pointer position] := by
  have hw' := (hi.type.shape_eq (by rw [hw]; rfl)).trans hw
  unfold Scope.elementPointer
  simp only [hw']
  refine (repeats_pointer hs h hcomponent.id hp).bind ?_
  intro q names₁ u₁ hnames₁ hu₁
  refine (repeats_loadFrom hu₁.1 index'.type index'.pointer).bind ?_
  intro _ names₂ u₂ hnames₂ hu₂
  obtain ⟨x, rfl, hu₂, hx⟩ := hu₂
  refine (repeats_fresh hu₂).bind ?_
  intro e names₃ u₃ hnames₃ hu₃
  have hmono := StandsFor.mono (hnames₁.trans (hnames₂.trans hnames₃))
  have hq₃ := StandsFor.mono (hnames₂.trans hnames₃) _ _ hu₁.2
  have hx₃ := StandsFor.mono hnames₃ _ _ hx
  exact .pure ⟨hu₃.1, hu₃.2,
    .cons (matches_loadInst (hmono _ _ hi.type.id) hx₃ (hmono _ _ hi.pointer))
      (.cons (matches_accessInst hq₃ hu₃.2 (hmono _ _ ha.pointer) hx₃) .nil)⟩

theorem repeats_loadElement (hs : s.Finished p) {dst src index : Variable}
    {component : LoweredType} {count width : UInt32} {signed : Bool}
    {pointerType position element value : Id}
    (h : s.Mirrors cells (position.val :: element.val :: value.val :: reserved) names t)
    (hc : c.Matches (StandsFor names) d) (hd : d.Reads i 0 dst) (hsrc : d.Reads i 1 src)
    (hi : d.Reads i 2 index) (hv : src.type.shape = .vector component count)
    (ht : component.id = dst.type.id) (hw : index.type.shape = .int width signed)
    (hp : pointerInst pointerType component.id ∈ s.code) :
    RepeatsCode s cells enough (c.loadElement i) t reserved names
      [loadInst index.type position index.pointer,
        accessInst pointerType element src.pointer position,
        loadInst component value element, storeTo dst.pointer value] := by
  obtain ⟨dst', hd', hdst⟩ := hc.reads hd
  obtain ⟨src', hsrc', hsource⟩ := hc.reads hsrc
  obtain ⟨index', hi', hindex⟩ := hc.reads hi
  obtain ⟨component', hv', hcomponent⟩ := hsource.type.vector hv
  have ht' := h.id_eq hcomponent.id hdst.type.id ht
  unfold Scope.loadElement
  simp only [lookup_eq hd', lookup_eq hsrc', lookup_eq hi', component_eq hv', expect_eq ht',
    pure_bind]
  refine (repeats_elementPointer hs h hcomponent hp hsource hindex hw).bind ?_
  intro result names₁ u₁ hnames₁ hu₁
  obtain ⟨hu₁, helement, haccess⟩ := hu₁
  have hmono := StandsFor.mono hnames₁
  exact repeats_move hu₁ haccess (hmono _ _ hcomponent.id) helement (hmono _ _ hdst.pointer)

theorem repeats_setElement (hs : s.Finished p) {dst src index : Variable}
    {component : LoweredType} {count width : UInt32} {signed : Bool}
    {pointerType position element value : Id}
    (h : s.Mirrors cells (position.val :: element.val :: value.val :: reserved) names t)
    (hc : c.Matches (StandsFor names) d) (hd : d.Reads i 0 dst) (hi : d.Reads i 1 index)
    (hsrc : d.Reads i 2 src) (hv : dst.type.shape = .vector component count)
    (ht : component.id = src.type.id) (hw : index.type.shape = .int width signed)
    (hp : pointerInst pointerType component.id ∈ s.code) :
    RepeatsCode s cells enough (c.setElement i) t reserved names
      [loadInst index.type position index.pointer,
        accessInst pointerType element dst.pointer position,
        loadInst src.type value src.pointer, storeTo element value] := by
  obtain ⟨dst', hd', hdst⟩ := hc.reads hd
  obtain ⟨index', hi', hindex⟩ := hc.reads hi
  obtain ⟨src', hsrc', hsource⟩ := hc.reads hsrc
  obtain ⟨component', hv', hcomponent⟩ := hdst.type.vector hv
  have ht' := h.id_eq hcomponent.id hsource.type.id ht
  unfold Scope.setElement
  simp only [lookup_eq hd', lookup_eq hsrc', lookup_eq hi', component_eq hv', expect_eq ht',
    pure_bind]
  refine (repeats_elementPointer hs h hcomponent hp hdst hindex hw).bind ?_
  intro result names₁ u₁ hnames₁ hu₁
  obtain ⟨hu₁, helement, haccess⟩ := hu₁
  have hmono := StandsFor.mono hnames₁
  exact repeats_move hu₁ haccess (hmono _ _ hsource.type.id) (hmono _ _ hsource.pointer) helement

theorem repeats_memberPointer (hs : s.Finished p) {pointerType uint position pointer : Id}
    (h : s.Mirrors cells (pointer.val :: reserved) names t) {member member' : LoweredType}
    (hmember : member'.MatchesPart (StandsFor names) member) {base base' : Id}
    (hb : StandsFor names base'.val base.val) {field : UInt32}
    (hp : pointerInst pointerType member.id ∈ s.code)
    (hu : (Shape.int 32 false).key.inst uint ∈ s.code)
    (hk : constantInst uint position field ∈ s.code) :
    Repeats enough (Scope.memberPointer base' member' field) t names fun result names' u =>
      s.Mirrors cells reserved names' u ∧ StandsFor names' result.1.val pointer.val ∧
        result.2.Matches (StandsFor names') (accessInst pointerType pointer base position) := by
  refine (repeats_pointer hs h hmember.id hp).bind ?_
  intro q names₁ u₁ hnames₁ hu₁
  refine (repeats_shape (b := ⟨uint, "", .int 32 false⟩) hs hu₁.1 (.int 32 false) rfl .nil hu
    (by simp [Shape.key]) _).bind ?_
  intro uint' names₂ u₂ hnames₂ hu₂
  refine (repeats_constant hs hu₂.1 hu₂.2.id hk).bind ?_
  intro x names₃ u₃ hnames₃ hu₃
  refine (repeats_fresh hu₃.1).bind ?_
  intro e names₄ u₄ hnames₄ hu₄
  have hlater := hnames₂.trans (hnames₃.trans hnames₄)
  have hq₄ := StandsFor.mono hlater _ _ hu₁.2
  have hb₄ := StandsFor.mono (hnames₁.trans hlater) _ _ hb
  exact .pure ⟨hu₄.1, hu₄.2,
    matches_accessInst hq₄ hu₄.2 hb₄ (StandsFor.mono hnames₄ _ _ hu₃.2)⟩

theorem repeats_loadField (hs : s.Finished p) {dst src : Variable} {field : UInt32}
    {members : List LoweredType} {member : LoweredType}
    {pointerType uint position pointer value : Id}
    (h : s.Mirrors cells (pointer.val :: value.val :: reserved) names t)
    (hc : c.Matches (StandsFor names) d) (hd : d.Reads i 0 dst) (hsrc : d.Reads i 1 src)
    (hf : i.operands[2]? = some (.field field)) (hv : src.type.shape = .struct members)
    (hm : members[field.toNat]? = some member) (ht : member.id = dst.type.id)
    (hp : pointerInst pointerType member.id ∈ s.code)
    (hu : (Shape.int 32 false).key.inst uint ∈ s.code)
    (hk : constantInst uint position field ∈ s.code) :
    RepeatsCode s cells enough (c.loadField i) t reserved names
      [accessInst pointerType pointer src.pointer position, loadInst member value pointer,
        storeTo dst.pointer value] := by
  obtain ⟨dst', hd', hdst⟩ := hc.reads hd
  obtain ⟨src', hsrc', hsource⟩ := hc.reads hsrc
  obtain ⟨members', hv', hmembers⟩ := hsource.type.struct hv
  obtain ⟨member', hm', hmember⟩ := getElem?_of_forall₂ hmembers hm
  have ht' := h.id_eq hmember.id hdst.type.id ht
  unfold Scope.loadField
  simp only [lookup_eq hd', lookup_eq hsrc', field_eq hf, memberType_eq hv' hm', expect_eq ht',
    pure_bind]
  refine (repeats_memberPointer hs h hmember hsource.pointer hp hu hk).bind ?_
  intro result names₁ u₁ hnames₁ hu₁
  obtain ⟨hu₁, hpointer, haccess⟩ := hu₁
  have hmono := StandsFor.mono hnames₁
  exact repeats_move hu₁ (.cons haccess .nil) (hmono _ _ hmember.id) hpointer
    (hmono _ _ hdst.pointer)

theorem repeats_setField (hs : s.Finished p) {dst src : Variable} {field : UInt32}
    {members : List LoweredType} {member : LoweredType}
    {pointerType uint position pointer value : Id}
    (h : s.Mirrors cells (pointer.val :: value.val :: reserved) names t)
    (hc : c.Matches (StandsFor names) d) (hd : d.Reads i 0 dst) (hsrc : d.Reads i 2 src)
    (hf : i.operands[1]? = some (.field field)) (hv : dst.type.shape = .struct members)
    (hm : members[field.toNat]? = some member) (ht : member.id = src.type.id)
    (hp : pointerInst pointerType member.id ∈ s.code)
    (hu : (Shape.int 32 false).key.inst uint ∈ s.code)
    (hk : constantInst uint position field ∈ s.code) :
    RepeatsCode s cells enough (c.setField i) t reserved names
      [accessInst pointerType pointer dst.pointer position,
        loadInst src.type value src.pointer, storeTo pointer value] := by
  obtain ⟨dst', hd', hdst⟩ := hc.reads hd
  obtain ⟨src', hsrc', hsource⟩ := hc.reads hsrc
  obtain ⟨members', hv', hmembers⟩ := hdst.type.struct hv
  obtain ⟨member', hm', hmember⟩ := getElem?_of_forall₂ hmembers hm
  have ht' := h.id_eq hmember.id hsource.type.id ht
  unfold Scope.setField
  simp only [lookup_eq hd', lookup_eq hsrc', field_eq hf, memberType_eq hv' hm', expect_eq ht',
    pure_bind]
  refine (repeats_memberPointer hs h hmember hdst.pointer hp hu hk).bind ?_
  intro result names₁ u₁ hnames₁ hu₁
  obtain ⟨hu₁, hpointer, haccess⟩ := hu₁
  have hmono := StandsFor.mono hnames₁
  exact repeats_move hu₁ (.cons haccess .nil) (hmono _ _ hsource.type.id)
    (hmono _ _ hsource.pointer) hpointer

theorem repeats_loadAll {vs ws : List Variable} {values : List Id}
    (hn : values.length = ws.length)
    (h : s.Mirrors cells (values.map Id.val ++ reserved) names t)
    (hvs : List.Forall₂ (Variable.Matches (StandsFor names)) vs ws) :
    Repeats enough (Scope.loadAll vs) t names fun result names' u =>
      s.Mirrors cells reserved names' u ∧
        List.Forall₂ (fun x y => StandsFor names' (Id.val x) (Id.val y)) result.1 values ∧
        List.Forall₂ (Inst.Matches (StandsFor names')) result.2 (loadInsts ws values) := by
  induction vs generalizing t names values ws with
  | nil =>
    cases hvs
    obtain rfl : values = [] := List.length_eq_zero_iff.mp hn
    exact .pure ⟨h, .nil, .nil⟩
  | cons v vs ih =>
    cases hvs with
    | @cons _ w _ ws hvw hrest =>
      cases values with
      | nil => simp at hn
      | cons value values =>
        refine (repeats_loadFrom h v.type v.pointer).bind ?_
        intro _ names₁ u₁ hnames₁ hu₁
        obtain ⟨value', rfl, hu₁, hvalue⟩ := hu₁
        have hrest₁ := hrest.imp fun _ _ hm => hm.mono (StandsFor.mono hnames₁)
        refine Repeats.bind (ih (by simpa using hn) hu₁ hrest₁) ?_
        intro result names₂ u₂ hnames₂ hu₂
        obtain ⟨hu₂, hvalues, hloads⟩ := hu₂
        have hmono := StandsFor.mono (hnames₁.trans hnames₂)
        have hvalue₂ := StandsFor.mono hnames₂ _ _ hvalue
        exact .pure ⟨hu₂, .cons hvalue₂ hvalues,
          .cons (matches_loadInst (hmono _ _ hvw.type.id) hvalue₂ (hmono _ _ hvw.pointer)) hloads⟩

/-- What compiling a method again promises, for the methods of given functions. -/
def CompilesAgain (s : Session) (cells : OpenCells) (enough : Prop)
    (compile : LocatedMethod → M Function) (earlier : List Function) : Prop :=
  ∀ {g t reserved names}, g ∈ earlier → s.Mirrors cells reserved names t →
    Repeats enough (compile g.method) t names fun f names' u =>
      s.Mirrors cells reserved names' u ∧ f.Matches (StandsFor names') g

/-- The last step of a call, when its arguments are loaded. -/
theorem repeats_invoke {f g : Function} {receiver receiver' : Option Variable}
    {loads loads' : List Inst} {values values' : List Id} {result : Id}
    (h : s.Mirrors cells (result.val :: reserved) names t)
    (hf : f.Matches (StandsFor names) g)
    (hreceiver : Option.Rel (Variable.Matches (StandsFor names)) receiver' receiver)
    (hvalues : List.Forall₂ (fun x y => StandsFor names (Id.val x) (Id.val y)) values' values)
    (hloads : List.Forall₂ (Inst.Matches (StandsFor names)) loads' loads) :
    RepeatsCode s cells enough
      (do
        let value ← fresh
        return loads' ++ .ofIds .functionCall [f.returnType.id, value, f.id] (values'.map Id.val) ::
          (receiver'.map fun v => storeTo v.pointer value).toList) t reserved names
      (loads ++ .ofIds .functionCall [g.returnType.id, result, g.id] (values.map Id.val) ::
        (receiver.map fun v => storeTo v.pointer result).toList) := by
  refine (repeats_fresh h).bind ?_
  intro value names₁ u₁ hnames₁ hu₁
  have hmono := StandsFor.mono hnames₁
  have hids : List.Forall₂ (StandsFor names₁) (values'.map Id.val) (values.map Id.val) := by
    rw [List.forall₂_map_left_iff, List.forall₂_map_right_iff]
    exact hvalues.imp fun _ _ hxy => hmono _ _ hxy
  have hcall : (Inst.ofIds .functionCall [f.returnType.id, value, f.id]
      (values'.map Id.val)).Matches (StandsFor names₁)
      (.ofIds .functionCall [g.returnType.id, result, g.id] (values.map Id.val)) :=
    ⟨rfl, hmono _ _ hf.returnType.id, hu₁.2, hmono _ _ hf.id,
      Binary.sameWords_of_forall₂ (fun _ => rfl) hids⟩
  have hstore : List.Forall₂ (Inst.Matches (StandsFor names₁))
      (receiver'.map fun v => storeTo v.pointer value).toList
      (receiver.map fun v => storeTo v.pointer result).toList := by
    cases hreceiver with
    | some hvw => exact .cons (matches_storeTo (hmono _ _ hvw.pointer) hu₁.2) .nil
    | none => exact .nil
  have hloads₁ := hloads.imp fun _ _ hm => hm.mono hmono
  exact .pure ⟨hu₁.1, List.rel_append hloads₁ (.cons hcall hstore)⟩

theorem repeats_call (hs : s.Finished p) {compile : LocatedMethod → M Function}
    {earlier : List Function} (hcompile : CompilesAgain s cells enough compile earlier)
    (hearlier : earlier ⊆ s.functionList) {r : MethodRef} {target : MethodInstance}
    {m : LocatedMethod} {g : Function} {receiver : Option Variable} {arguments : List Variable}
    {values : List Id} {result : Id}
    (h : s.Mirrors cells (values.map Id.val ++ result.val :: reserved) names t)
    (hc : c.Matches (StandsFor names) d) (hr : i.operands[0]? = some (.method r))
    (ht : p.resolve r = .ok target) (hm : target.concrete? = some m) (hg : g ∈ earlier)
    (hid : g.method.id = m.id) (hreceives : d.Receives i receiver)
    (hn : i.operands.length - 2 = g.parameters.length)
    (hpasses : d.Passes i 2 g.parameters arguments) (hv : values.length = arguments.length)
    (hret : ∀ v, receiver = some v → g.returnType.id = v.type.id) :
    RepeatsCode s cells enough (c.call (callee p compile) i) t reserved names
      (loadInsts arguments values ++
        .ofIds .functionCall [g.returnType.id, result, g.id] (values.map Id.val) ::
          (receiver.map fun v => storeTo v.pointer result).toList) := by
  have hmethod : g.method = m := (hs.sound.known g (hearlier hg)).eq_of_id_eq
    (Program.locates_of_resolve ht hm) hid
  unfold Scope.call callee
  simp only [methodRef_eq hr, pure_bind, bind_assoc]
  refine (repeats_resolve h ht).bind ?_
  intro target' names₀ u₀ _ hu₀
  obtain ⟨rfl, rfl, hu₀⟩ := hu₀
  simp only [hm, ← hmethod]
  refine (hcompile hg hu₀).bind ?_
  intro f names₁ u₁ hnames₁ hu₁
  obtain ⟨hu₁, hf⟩ := hu₁
  have hc₁ := hc.mono (StandsFor.mono hnames₁)
  obtain ⟨receiver', hreceives', hreceiver⟩ := hc₁.receives hreceives
  obtain ⟨arguments', hpasses', harguments⟩ :=
    hc₁.passes (fun _ _ _ hx hx' => hu₁.left_unique hx hx') hf.parameters hpasses
  have hn' : (i.operands.length - 2 != f.parameters.length) = false := by
    simp [hn, hf.parameters.length_eq]
  simp only [resultSlot_eq hreceives', arguments_eq hpasses', pure_bind, hn']
  refine Repeats.bind (repeats_loadAll hv hu₁ harguments) ?_
  intro loaded names₂ u₂ hnames₂ hu₂
  obtain ⟨values', loads'⟩ := loaded
  obtain ⟨hu₂, hvalues, hloads⟩ := hu₂
  have hf₂ := hf.mono (StandsFor.mono hnames₂)
  cases hreceiver with
  | none => exact repeats_invoke hu₂ hf₂ .none hvalues hloads
  | some hvw =>
    have hret' := hu₁.id_eq hf.returnType.id hvw.type.id (hret _ rfl)
    simp only [expect_eq hret', pure_bind]
    exact repeats_invoke hu₂ hf₂ (.some (hvw.mono (StandsFor.mono hnames₂))) hvalues hloads

theorem lowerPlain_eq_binary {shape : Shape LoweredType} {op : Op} (ho : i.opcode ≠ .negate)
    (hop : arithmeticOp? i.opcode shape = some op) (compile : LocatedMethod → M Function) :
    lowerPlain c (callee p compile) i = c.binary i := by
  unfold lowerPlain
  cases hi : i.opcode with
  | negate => exact absurd hi ho
  | add | subtract | multiply | divide | modulo | remainder => rfl
  | _ =>
    rw [hi] at hop
    simp [arithmeticOp?] at hop

/-- The code of an instruction is lowered again to code that matches. -/
theorem repeats_lowerPlain (hs : s.Finished p) {compile : LocatedMethod → M Function}
    {earlier : List Function} (hcompile : CompilesAgain s cells enough compile earlier)
    (hearlier : earlier ⊆ s.functionList) {out : List Inst}
    (h : s.Mirrors cells (results out ++ reserved) names t) (hc : c.Matches (StandsFor names) d)
    (hi : Translates p s.code earlier d i out) :
    RepeatsCode s cells enough (lowerPlain c (callee p compile) i) t reserved names out := by
  cases hi with
  | negate ho hd hsrc ht hop =>
    simp only [lowerPlain, ho]
    refine repeats_negate ?_ hc ho hd hsrc ht hop
    simpa [result?_of_arithmeticOp? hop] using h
  | binary ho hd hl hr ht ht' hop =>
    rw [lowerPlain_eq_binary ho hop]
    refine repeats_binary ?_ hc ho hd hl hr ht ht' hop
    simpa [result?_of_arithmeticOp? hop] using h
  | @call r target m g receiver arguments values result ho hr ht hm hg hid hreceives hn hpasses hv
      hret =>
    simp only [lowerPlain, ho]
    refine repeats_call hs hcompile hearlier ?_ hc hr ht hm hg hid hreceives hn hpasses hv hret
    have hstore : results (receiver.map fun v => storeTo v.pointer result).toList = [] := by
      cases receiver <;> simp
    simpa [results_loadInsts hv, hstore] using h
  | copy ho hd hsrc ht =>
    simp only [lowerPlain, ho]
    exact repeats_copy (by simpa using h) hc hd hsrc ht
  | constant hd hi hk =>
    obtain ⟨dst', hd', hdst⟩ := hc.reads hd
    have hshape := hdst.type.shape_eq hi.parts_eq_nil
    rw [lowerPlain_eq_storeConstant hd' (hshape ▸ hi)]
    exact repeats_storeConstant hs (by simpa using h) hdst hk
  | loadElement ho hd hsrc hi hv ht hw hp =>
    simp only [lowerPlain, ho]
    exact repeats_loadElement hs (by simpa using h) hc hd hsrc hi hv ht hw hp
  | setElement ho hd hi hsrc hv ht hw hp =>
    simp only [lowerPlain, ho]
    exact repeats_setElement hs (by simpa using h) hc hd hi hsrc hv ht hw hp
  | loadField ho hd hsrc hf hv hm ht hp hu hk =>
    simp only [lowerPlain, ho]
    exact repeats_loadField hs (by simpa using h) hc hd hsrc hf hv hm ht hp hu hk
  | setField ho hd hsrc hf hv hm ht hp hu hk =>
    simp only [lowerPlain, ho]
    exact repeats_setField hs (by simpa using h) hc hd hsrc hf hv hm ht hp hu hk

theorem lowerFrom_eq_plain (h : i.opcode ≠ .define ∧ i.opcode ≠ .ret ∧ i.opcode ≠ .retValue)
    (compile : LocatedMethod → M Function) (rest : List Instruction) :
    lowerFrom c (callee p compile) (i :: rest) = do
      let code ← lowerPlain c (callee p compile) i
      return code ++ (← lowerFrom { c with index := c.index + 1 } (callee p compile) rest) := by
  rw [lowerFrom]
  cases ho : i.opcode with
  | define => exact absurd ho h.1
  | ret => exact absurd ho h.2.1
  | retValue => exact absurd ho h.2.2
  | _ => rfl

/-- A body is lowered again to code that matches. -/
theorem repeats_lowerFrom (hs : s.Finished p) {compile : LocatedMethod → M Function}
    {earlier : List Function} (hcompile : CompilesAgain s cells enough compile earlier)
    (hearlier : earlier ⊆ s.functionList) {is : List Instruction} {out : List Inst}
    (hbody : TranslatesBody p s.code earlier d is out)
    (h : s.Mirrors cells (results out ++ reserved) names t) (hc : c.Matches (StandsFor names) d) :
    RepeatsCode s cells enough (lowerFrom c (callee p compile) is) t reserved names out := by
  have hret : ∀ r, Inst.Matches r ⟨.ret, []⟩ ⟨.ret, []⟩ := fun _ => ⟨rfl, trivial⟩
  induction hbody generalizing c t names with
  | fallThrough hv =>
    rw [lowerFrom, hc.returnType.isVoid_eq.trans hv]
    exact .pure ⟨h, .cons (hret _) .nil⟩
  | ret ho hv =>
    have hv' := hc.returnType.isVoid_eq.trans hv
    simp only [lowerFrom, ho, Scope.ret, hv', if_true, pure_bind, List.isEmpty_nil]
    exact .pure ⟨h, .cons (hret _) .nil⟩
  | @retValue d i v value ho hr hv ht =>
    obtain ⟨v', hr', hvv⟩ := hc.reads hr
    have hv' := hc.returnType.isVoid_eq.trans hv
    have ht' := h.id_eq hc.returnType.id hvv.type.id ht
    simp only [lowerFrom, ho, reduceCtorEq, if_false, Scope.retValue, lookup_eq hr', hv',
      expect_eq ht', pure_bind, bind_assoc, List.isEmpty_nil]
    refine Repeats.bind (repeats_loadFrom (y := value) (by simpa using h) v'.type v'.pointer) ?_
    intro _ names₁ u₁ hnames₁ hu₁
    obtain ⟨value', rfl, hu₁, hvalue⟩ := hu₁
    have hmono := StandsFor.mono hnames₁
    have hreturn : (Inst.ofIds .returnValue [value'] []).Matches (StandsFor names₁)
        (.ofIds .returnValue [value] []) := ⟨rfl, hvalue, trivial⟩
    exact .pure ⟨hu₁, .cons (matches_loadInst (hmono _ _ hvv.type.id) hvalue
      (hmono _ _ hvv.pointer)) (.cons hreturn .nil)⟩
  | @define d i rest out ho hd _ ih =>
    have hlt : ¬ c.declared.length ≤ c.defined := by
      rw [hc.declared.length_eq, hc.defined]
      omega
    simp only [lowerFrom, ho, hlt, if_false]
    exact ih h ⟨hc.returnType, hc.declared, congrArg (· + 1) hc.defined⟩
  | @plain d i rest out outs hi _ ih =>
    rw [lowerFrom_eq_plain hi.opcode_ne]
    have h' : s.Mirrors cells (results out ++ (results outs ++ reserved)) names t := by
      simpa using h
    refine Repeats.bind (repeats_lowerPlain hs hcompile hearlier h' hc hi) ?_
    intro code names₁ u₁ hnames₁ hu₁
    have hc₁ := hc.mono (StandsFor.mono hnames₁)
    refine Repeats.bind (ih hu₁.1 ⟨hc₁.returnType, hc₁.declared, hc₁.defined⟩) ?_
    intro codes names₂ u₂ hnames₂ hu₂
    have hcode := hu₁.2.imp fun _ _ hm => hm.mono (StandsFor.mono hnames₂)
    exact .pure ⟨hu₂.1, List.rel_append hcode hu₂.2⟩

end ShaderIR.Lowering
