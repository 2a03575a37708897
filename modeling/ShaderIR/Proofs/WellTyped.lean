import ShaderIR.Proofs.ModuleIds

/-! The types of a compiled module, read off its own declarations by id. -/

namespace ShaderIR

namespace Binary

/-- The instruction that defines an id. -/
def definition? (code : List Inst) (x : UInt32) : Option Inst :=
  code.find? fun i => i.result? == some x

/-- The type that an instruction gives its result. -/
def Inst.resultType? (i : Inst) : Option UInt32 :=
  match i.op.layout with
  | .one .resultType :: _ => i.operands[0]?
  | _ => none

/-- The type of a value. -/
def typeOf? (code : List Inst) (x : UInt32) : Option UInt32 :=
  (definition? code x).bind Inst.resultType?

/-- What a pointer type points to, if it is one to variables of a function. -/
def pointee? (code : List Inst) (type : UInt32) : Option UInt32 :=
  match definition? code type with
  | some ⟨.typePointer, [_, 7, pointee]⟩ => some pointee
  | _ => none

/-- The value is a pointer to a variable of a function that holds a value of the type. -/
def PointsTo (code : List Inst) (pointer type : UInt32) : Prop :=
  (typeOf? code pointer).bind (pointee? code) = some type

/-- The kind of the numbers that a scalar type is made of. -/
def scalarKind? (code : List Inst) (type : UInt32) : Option NumberKind :=
  match definition? code type with
  | some ⟨.typeFloat, [_, _]⟩ => some .float
  | some ⟨.typeInt, [_, _, signedness]⟩ => some (if signedness = 1 then .signed else .unsigned)
  | _ => none

/-- The kind of the numbers of a scalar type, or of the components of a vector type. -/
def numberKind? (code : List Inst) (type : UInt32) : Option NumberKind :=
  match definition? code type with
  | some ⟨.typeVector, [_, component, _]⟩ => scalarKind? code component
  | _ => scalarKind? code type

/-- The kinds of numbers that an arithmetic operation works on. -/
def Op.kinds : Op → List NumberKind
  | .fNegate | .fAdd | .fSub | .fMul | .fDiv | .fMod | .fRem => [.float]
  | .sNegate | .iAdd | .iSub | .iMul => [.signed, .unsigned]
  | .sDiv | .sMod | .sRem => [.signed]
  | .uDiv | .uMod => [.unsigned]
  | _ => []

/-- An instruction inside a function that returns values of the given type has the types that its
operation asks for. -/
inductive WellTyped (code : List Inst) (returnType : UInt32) : Inst → Prop
  | parameter {type x : UInt32} : WellTyped code returnType ⟨.functionParameter, [type, x]⟩
  | label {x : UInt32} : WellTyped code returnType ⟨.label, [x]⟩
  | variable {type x held : UInt32} (ht : pointee? code type = some held) :
      WellTyped code returnType ⟨.variable, [type, x, 7]⟩
  | load {type x pointer : UInt32} (hp : PointsTo code pointer type) :
      WellTyped code returnType ⟨.load, [type, x, pointer]⟩
  | store {pointer value type : UInt32} (hp : PointsTo code pointer type)
      (hv : typeOf? code value = some type) : WellTyped code returnType ⟨.store, [pointer, value]⟩
  | arithmetic {op : Op} {type x : UInt32} {operands : List UInt32} {kind : NumberKind}
      (hk : numberKind? code type = some kind) (ho : kind ∈ op.kinds)
      (hv : ∀ v ∈ operands, typeOf? code v = some type) :
      WellTyped code returnType ⟨op, type :: x :: operands⟩
  | component {type x base index vector component count indexType : UInt32} {kind : NumberKind}
      (hb : PointsTo code base vector)
      (hv : definition? code vector = some ⟨.typeVector, [vector, component, count]⟩)
      (hi : typeOf? code index = some indexType)
      (hk : scalarKind? code indexType = some kind) (hn : kind ≠ .float)
      (ht : pointee? code type = some component) :
      WellTyped code returnType ⟨.accessChain, [type, x, base, index]⟩
  | member {type x base index struct indexType position member : UInt32} {members : List UInt32}
      (hb : PointsTo code base struct)
      (hs : definition? code struct = some ⟨.typeStruct, struct :: members⟩)
      (hi : definition? code index = some ⟨.constant, [indexType, index, position]⟩)
      (hk : scalarKind? code indexType = some .unsigned)
      (hm : members[position.toNat]? = some member) (ht : pointee? code type = some member) :
      WellTyped code returnType ⟨.accessChain, [type, x, base, index]⟩
  | call {type x callee control functionType : UInt32} {arguments parameters : List UInt32}
      (hf : definition? code callee = some ⟨.function, [type, callee, control, functionType]⟩)
      (ht : definition? code functionType =
        some ⟨.typeFunction, functionType :: type :: parameters⟩)
      (ha : arguments.map (typeOf? code) = parameters.map some) :
      WellTyped code returnType ⟨.functionCall, type :: x :: callee :: arguments⟩
  | ret (hv : definition? code returnType = some ⟨.typeVoid, [returnType]⟩) :
      WellTyped code returnType ⟨.ret, []⟩
  | returnValue {value : UInt32} (hv : typeOf? code value = some returnType) :
      WellTyped code returnType ⟨.returnValue, [value]⟩

theorem definition?_eq {code : List Inst} (hnd : (results code).Nodup) {i : Inst} {x : UInt32}
    (hi : i ∈ code) (hx : i.result? = some x) : definition? code x = some i := by
  cases h : definition? code x with
  | none =>
    have hn := List.find?_eq_none.mp h i hi
    simp [hx] at hn
  | some j =>
    have hj := List.find?_some h
    rw [eq_of_result_eq hnd (List.mem_of_find?_eq_some h) hi (by simpa using hj) hx]

theorem typeOf?_eq {code : List Inst} (hnd : (results code).Nodup) {i : Inst} {x type : UInt32}
    (hi : i ∈ code) (hx : i.result? = some x) (ht : i.resultType? = some type) :
    typeOf? code x = some type := by
  rw [typeOf?, definition?_eq hnd hi hx]
  exact ht

end Binary

namespace Lowering

open Binary (Op Id Inst Image results definition? typeOf? pointee? PointsTo scalarKind?
  numberKind? WellTyped definition?_eq typeOf?_eq NumberKind)

variable {p : Program} {code all : List Inst}

/-- The kind of number that a shape stands for. -/
def Shape.kind? : Shape LoweredType → Option NumberKind
  | .float _ => some .float
  | .int _ signed => some (if signed then .signed else .unsigned)
  | _ => none

theorem definition?_type (hnd : (results all).Nodup) (hsub : code ⊆ all) {t : LoweredType}
    (ht : t.Declared code) : definition? all t.id.val = some (t.shape.key.inst t.id) :=
  definition?_eq hnd (hsub ht.here) (t.shape.key_result t.id)

theorem scalarKind?_type (hnd : (results all).Nodup) (hsub : code ⊆ all) {t : LoweredType}
    (ht : t.Declared code) {kind : NumberKind} (hk : t.shape.kind? = some kind) :
    scalarKind? all t.id.val = some kind := by
  unfold scalarKind?
  rw [definition?_type hnd hsub ht]
  cases hs : t.shape with
  | int width signed =>
    rw [hs] at hk
    cases signed <;> simpa [Shape.kind?, Shape.key, DeclarationKey.inst] using hk
  | float width =>
    rw [hs] at hk
    simpa [Shape.kind?, Shape.key, DeclarationKey.inst] using hk
  | _ => simp [hs, Shape.kind?] at hk

theorem numberKind?_type (hnd : (results all).Nodup) (hsub : code ⊆ all) {t : LoweredType}
    (ht : t.Declared code) {kind : NumberKind} (hk : t.scalar.kind? = some kind) :
    numberKind? all t.id.val = some kind := by
  unfold numberKind?
  rw [definition?_type hnd hsub ht]
  cases hs : t.shape with
  | vector component count =>
    have hk' : component.shape.kind? = some kind := by simpa [LoweredType.scalar, hs] using hk
    exact scalarKind?_type hnd hsub (ht.component hs) hk'
  | _ =>
    have hk' : t.shape.kind? = some kind := by simpa [LoweredType.scalar, hs] using hk
    exact scalarKind?_type hnd hsub ht hk'

/-- The operation chosen for a shape works on its kind of numbers. -/
theorem kind_of_arithmeticOp? {opcode : Opcode} {shape : Shape LoweredType} {op : Op}
    (h : arithmeticOp? opcode shape = some op) :
    ∃ kind, shape.kind? = some kind ∧ kind ∈ op.kinds := by
  unfold arithmeticOp? at h
  split at h <;> simp_all [Shape.kind?] <;> subst h <;> simp [Op.kinds]

theorem pointee?_pointerInst (hnd : (results all).Nodup) (hsub : code ⊆ all)
    {pointer pointee : Id} (hp : pointerInst pointer pointee ∈ code) :
    pointee? all pointer.val = some pointee.val := by
  rw [pointee?, definition?_eq hnd (hsub hp) (show _ = some pointer.val from rfl)]
  rfl

theorem typeOf?_loadInst (hnd : (results all).Nodup) {t : LoweredType} {value pointer : Id}
    (h : loadInst t value pointer ∈ all) : typeOf? all value.val = some t.id.val :=
  typeOf?_eq hnd h rfl rfl

theorem typeOf?_of_arithmeticOp? (hnd : (results all).Nodup) {opcode : Opcode}
    {shape : Shape LoweredType} {op : Op} (hop : arithmeticOp? opcode shape = some op)
    {type result : Id} {operands : List Id}
    (h : Inst.ofIds op (type :: result :: operands) [] ∈ all) :
    typeOf? all result.val = some type.val := by
  refine typeOf?_eq hnd h (result?_of_arithmeticOp? hop type result operands) ?_
  simp [Inst.resultType?, Inst.ofIds, layout_of_arithmeticOp? hop]

theorem pointsTo_access (hnd : (results all).Nodup) (hsub : code ⊆ all)
    {pointerType pointer base index pointee : Id} (hp : pointerInst pointerType pointee ∈ code)
    (h : accessInst pointerType pointer base index ∈ all) :
    PointsTo all pointer.val pointee.val := by
  have ht : typeOf? all pointer.val = some pointerType.val := typeOf?_eq hnd h rfl rfl
  rw [PointsTo, ht]
  exact pointee?_pointerInst hnd hsub hp

/-- The module around a body declares its types, variables and callees. -/
structure Scope.Placed (c : Scope) (code all : List Inst) (earlier : List Function) : Prop where
  nodup : (results all).Nodup
  declarations : code ⊆ all
  types : c.Fits code
  pointers : ∀ v ∈ c.declared, PointsTo all v.pointer.val v.type.id.val
  callees : ∀ f ∈ earlier, ∃ control functionType,
    definition? all f.id.val =
        some ⟨.function, [f.returnType.id.val, f.id.val, control, functionType]⟩ ∧
      definition? all functionType =
        some ⟨.typeFunction,
          functionType :: f.returnType.id.val :: f.parameters.map fun t => t.id.val⟩

variable {earlier : List Function} {c : Scope} {i : Instruction} {r : UInt32}

theorem Scope.Placed.pointsTo (h : c.Placed code all earlier) {slot : Nat} {v : Variable}
    (hv : c.Reads i slot v) : PointsTo all v.pointer.val v.type.id.val :=
  h.pointers v hv.mem

/-- An arithmetic instruction on operands of its own type, which the operation was chosen for. -/
theorem Scope.Placed.arithmetic (h : c.Placed code all earlier) {opcode : Opcode}
    {t : LoweredType} (ht : t.Declared code) {op : Op}
    (hop : arithmeticOp? opcode t.scalar = some op) {type result : Id} (he : type = t.id)
    {operands : List Id} (hv : ∀ v ∈ operands, typeOf? all v.val = some t.id.val) :
    WellTyped all r (.ofIds op (type :: result :: operands) []) := by
  obtain ⟨kind, hkind, hmem⟩ := kind_of_arithmeticOp? hop
  have hk := numberKind?_type h.nodup h.declarations ht hkind
  have hform : Inst.ofIds op (type :: result :: operands) [] =
      ⟨op, type.val :: result.val :: operands.map Id.val⟩ := by simp [Inst.ofIds]
  rw [hform, he]
  refine .arithmetic hk hmem ?_
  intro x hx
  obtain ⟨v, hv', rfl⟩ := List.mem_map.mp hx
  exact hv v hv'

theorem Scope.Placed.component (h : c.Placed code all earlier) {base index : Variable}
    (hb : base ∈ c.declared) (hi : index ∈ c.declared) {component : LoweredType}
    {count width : UInt32} {signed : Bool} (hv : base.type.shape = .vector component count)
    (hw : index.type.shape = .int width signed) {pointerType position element : Id}
    (hp : pointerInst pointerType component.id ∈ code)
    (hl : loadInst index.type position index.pointer ∈ all) :
    WellTyped all r (accessInst pointerType element base.pointer position) := by
  have hk : scalarKind? all index.type.id.val = some (if signed then .signed else .unsigned) :=
    scalarKind?_type h.nodup h.declarations (h.types index hi) (by simp [hw, Shape.kind?])
  have hvector := definition?_type h.nodup h.declarations (h.types base hb)
  rw [hv] at hvector
  exact .component (h.pointers base hb) hvector (typeOf?_loadInst h.nodup hl) hk
    (by cases signed <;> simp) (pointee?_pointerInst h.nodup h.declarations hp)

theorem Scope.Placed.member (h : c.Placed code all earlier) {base : Variable}
    (hb : base ∈ c.declared) {members : List LoweredType} {member : LoweredType} {field : UInt32}
    (hv : base.type.shape = .struct members) (hm : members[field.toNat]? = some member)
    {pointerType uint position pointer : Id} (hp : pointerInst pointerType member.id ∈ code)
    (hu : (Shape.int 32 false).key.inst uint ∈ code)
    (hk : constantInst uint position field ∈ code) :
    WellTyped all r (accessInst pointerType pointer base.pointer position) := by
  have hstruct := definition?_type h.nodup h.declarations (h.types base hb)
  rw [hv] at hstruct
  have hindex := definition?_eq h.nodup (h.declarations hk) (show _ = some position.val from rfl)
  have huint : LoweredType.Declared code ⟨uint, "", .int 32 false⟩ :=
    .intro hu fun part hpart => by cases hpart
  have hkind : scalarKind? all uint.val = some .unsigned :=
    scalarKind?_type h.nodup h.declarations huint rfl
  have hmember : (members.map fun t => t.id.val)[field.toNat]? = some member.id.val := by
    simp [hm]
  exact .member (h.pointers base hb) hstruct hindex hkind hmember
    (pointee?_pointerInst h.nodup h.declarations hp)

theorem Scope.Placed.arguments (h : c.Placed code all earlier) {slot : Nat}
    {parameters : List LoweredType} {vs : List Variable} {values : List Id}
    (hp : c.Passes i slot parameters vs) (hn : values.length = vs.length)
    (hout : loadInsts vs values ⊆ all) :
    (values.map Id.val).map (typeOf? all) = (parameters.map fun t => t.id.val).map some := by
  induction vs generalizing slot parameters values with
  | nil =>
    cases parameters with
    | nil => simp [List.length_eq_zero_iff.mp hn]
    | cons _ _ => exact hp.elim
  | cons v vs ih =>
    cases parameters with
    | nil => exact hp.elim
    | cons parameter parameters =>
      cases values with
      | nil => simp at hn
      | cons value values =>
        obtain ⟨_, ht, hrest⟩ := hp
        have hload : loadInst v.type value v.pointer ∈ all := hout List.mem_cons_self
        have htail := ih hrest (by simpa using hn)
          (fun j hj => hout (List.mem_cons_of_mem _ hj))
        simp [typeOf?_loadInst h.nodup hload, ht, htail]

theorem Translates.wellTyped {out : List Inst} (h : Translates p code earlier c i out)
    (hc : c.Placed code all earlier) (hout : out ⊆ all) : ∀ j ∈ out, WellTyped all r j := by
  have hnd := hc.nodup
  cases h with
  | @negate dst src op value result ho hd hs ht hop =>
    simp only [List.cons_subset, List.nil_subset, and_true] at hout
    obtain ⟨hload, harith, _⟩ := hout
    have hvalue := typeOf?_loadInst hnd hload
    have hresult := typeOf?_of_arithmeticOp? hnd hop harith
    simp only [List.forall_mem_cons, List.not_mem_nil, false_imp_iff, implies_true, and_true]
    refine ⟨.load (hc.pointsTo hs), ?_, .store (hc.pointsTo hd) hresult⟩
    exact hc.arithmetic (hc.types.reads hs) hop ht (by simpa using hvalue)
  | @binary dst lhs rhs op left right result ho hd hl hr ht ht' hop =>
    simp only [List.cons_subset, List.nil_subset, and_true] at hout
    obtain ⟨hload, hload', harith, _⟩ := hout
    have hleft := typeOf?_loadInst hnd hload
    have hright := typeOf?_loadInst hnd hload'
    have hresult := typeOf?_of_arithmeticOp? hnd hop harith
    simp only [List.forall_mem_cons, List.not_mem_nil, false_imp_iff, implies_true, and_true]
    refine ⟨.load (hc.pointsTo hl), .load (hc.pointsTo hr), ?_, .store (hc.pointsTo hd) hresult⟩
    exact hc.arithmetic (hc.types.reads hl) hop ht' (by simp [hleft, hright, ht])
  | @call ref target m f slot arguments values result ho hr ht hm hf hid hs hn ha hv hret =>
    obtain ⟨hloads, hrest⟩ := List.append_subset.mp hout
    obtain ⟨hcall, _⟩ := List.cons_subset.mp hrest
    intro j hj
    rcases List.mem_append.mp hj with hj | hj
    · rw [loadInsts, ← List.map_uncurry_zip_eq_zipWith] at hj
      obtain ⟨⟨v, value⟩, hmem, rfl⟩ := List.mem_map.mp hj
      exact .load (hc.pointers v (ha.mem v (List.of_mem_zip hmem).1))
    rcases List.mem_cons.mp hj with rfl | hj
    · obtain ⟨control, functionType, hfunction, htype⟩ := hc.callees f hf
      exact .call hfunction htype (hc.arguments ha hv hloads)
    · obtain ⟨v, rfl, rfl⟩ := Option.map_eq_some_iff.mp (Option.mem_toList.mp hj)
      have hresult : typeOf? all result.val = some f.returnType.id.val :=
        typeOf?_eq hnd hcall rfl rfl
      rw [hret v rfl] at hresult
      exact .store (hc.pointsTo (show c.Reads i 1 v from hs)) hresult
  | @copy dst src value ho hd hs ht =>
    simp only [List.cons_subset, List.nil_subset, and_true] at hout
    have hvalue := typeOf?_loadInst hnd hout.1
    rw [← ht] at hvalue
    simp only [List.forall_mem_cons, List.not_mem_nil, false_imp_iff, implies_true, and_true]
    exact ⟨.load (hc.pointsTo hs), .store (hc.pointsTo hd) hvalue⟩
  | @constant dst bits constant hd hi hk =>
    have hvalue : typeOf? all constant.val = some dst.type.id.val :=
      typeOf?_eq hnd (hc.declarations hk) rfl rfl
    simp only [List.forall_mem_cons, List.not_mem_nil, false_imp_iff, implies_true, and_true]
    exact .store (hc.pointsTo hd) hvalue
  | @loadElement dst src index component count width signed pointerType position element value
      ho hd hs hi hv ht hw hp =>
    simp only [List.cons_subset, List.nil_subset, and_true] at hout
    obtain ⟨hposition, haccess, hload, _⟩ := hout
    have hvalue := typeOf?_loadInst hnd hload
    rw [ht] at hvalue
    simp only [List.forall_mem_cons, List.not_mem_nil, false_imp_iff, implies_true, and_true]
    exact ⟨.load (hc.pointsTo hi), hc.component hs.mem hi.mem hv hw hp hposition,
      .load (pointsTo_access hnd hc.declarations hp haccess), .store (hc.pointsTo hd) hvalue⟩
  | @setElement dst src index component count width signed pointerType position element value
      ho hd hi hs hv ht hw hp =>
    simp only [List.cons_subset, List.nil_subset, and_true] at hout
    obtain ⟨hposition, haccess, hload, _⟩ := hout
    have hvalue := typeOf?_loadInst hnd hload
    rw [← ht] at hvalue
    simp only [List.forall_mem_cons, List.not_mem_nil, false_imp_iff, implies_true, and_true]
    exact ⟨.load (hc.pointsTo hi), hc.component hd.mem hi.mem hv hw hp hposition,
      .load (hc.pointsTo hs), .store (pointsTo_access hnd hc.declarations hp haccess) hvalue⟩
  | @loadField dst src field members member pointerType uint position pointer value
      ho hd hs hf hv hm ht hp hu hk =>
    simp only [List.cons_subset, List.nil_subset, and_true] at hout
    obtain ⟨haccess, hload, _⟩ := hout
    have hvalue := typeOf?_loadInst hnd hload
    rw [ht] at hvalue
    simp only [List.forall_mem_cons, List.not_mem_nil, false_imp_iff, implies_true, and_true]
    exact ⟨hc.member hs.mem hv hm hp hu hk,
      .load (pointsTo_access hnd hc.declarations hp haccess), .store (hc.pointsTo hd) hvalue⟩
  | @setField dst src field members member pointerType uint position pointer value
      ho hd hs hf hv hm ht hp hu hk =>
    simp only [List.cons_subset, List.nil_subset, and_true] at hout
    obtain ⟨haccess, hload, _⟩ := hout
    have hvalue := typeOf?_loadInst hnd hload
    rw [← ht] at hvalue
    simp only [List.forall_mem_cons, List.not_mem_nil, false_imp_iff, implies_true, and_true]
    exact ⟨hc.member hd.mem hv hm hp hu hk, .load (hc.pointsTo hs),
      .store (pointsTo_access hnd hc.declarations hp haccess) hvalue⟩

theorem wellTyped_ret (hc : c.Placed code all earlier) (ht : c.returnType.Declared code)
    (hv : c.returnType.isVoid = true) : WellTyped all c.returnType.id.val ⟨.ret, []⟩ := by
  have hvoid := definition?_type hc.nodup hc.declarations ht
  have hs : c.returnType.shape = .void := by
    unfold LoweredType.isVoid at hv
    split at hv
    · assumption
    · cases hv
  rw [hs] at hvoid
  exact .ret hvoid

theorem TranslatesBody.wellTyped {is : List Instruction} {out : List Inst}
    (h : TranslatesBody p code earlier c is out) (hc : c.Placed code all earlier)
    (ht : c.returnType.Declared code) (hout : out ⊆ all) :
    ∀ j ∈ out, WellTyped all c.returnType.id.val j := by
  induction h with
  | fallThrough hv => simpa using wellTyped_ret hc ht hv
  | ret ho hv => simpa using wellTyped_ret hc ht hv
  | @retValue c i v value ho hr hv hret =>
    simp only [List.cons_subset, List.nil_subset, and_true] at hout
    have hvalue := typeOf?_loadInst hc.nodup hout.1
    rw [← hret] at hvalue
    simp only [List.forall_mem_cons, List.not_mem_nil, false_imp_iff, implies_true, and_true]
    exact ⟨.load (hc.pointsTo hr), .returnValue hvalue⟩
  | define ho hd _ ih =>
    exact ih ⟨hc.nodup, hc.declarations, hc.types, hc.pointers, hc.callees⟩ ht hout
  | plain hi _ ih =>
    obtain ⟨hfirst, hrest⟩ := List.append_subset.mp hout
    intro j hj
    rcases List.mem_append.mp hj with hj | hj
    · exact hi.wellTyped hc hfirst j hj
    · exact ih ⟨hc.nodup, hc.declarations, hc.types, hc.pointers, hc.callees⟩ ht hrest j hj

namespace Function.Built

variable {f : Function} {q : FunctionParts}

theorem functionType_eq (h : f.Built p code earlier q) (hnd : (results all).Nodup)
    (hsub : code ⊆ all) (hcode : f.code ⊆ all) :
    definition? all f.id.val =
        some ⟨.function, [f.returnType.id.val, f.id.val, 0, q.functionType.val]⟩ ∧
      definition? all q.functionType.val =
        some ⟨.typeFunction,
          q.functionType.val :: f.returnType.id.val :: f.parameters.map fun t => t.id.val⟩ := by
  have hhead : q.headInst f ∈ f.code := by
    rw [h.code_eq]
    exact List.mem_cons_self
  exact ⟨definition?_eq hnd (hcode hhead) rfl, definition?_eq hnd (hsub h.functionType) rfl⟩

theorem inner_subset (h : f.Built p code earlier q) (hcode : f.code ⊆ all) : q.inner f ⊆ all := by
  intro j hj
  refine hcode ?_
  rw [h.code_eq]
  exact List.mem_cons_of_mem _ (List.mem_append_left _ hj)

theorem pointsTo (h : f.Built p code earlier q) (hnd : (results all).Nodup) (hsub : code ⊆ all)
    (hcode : f.code ⊆ all) {v : Variable} (hv : v ∈ q.declared) :
    PointsTo all v.pointer.val v.type.id.val := by
  obtain ⟨slot, hslot, rfl⟩ := List.mem_map.mp hv
  have hmem : Inst.ofIds .variable [slot.2, slot.1.pointer] [7] ∈ all := by
    refine h.inner_subset hcode ?_
    have hvariable := List.mem_map_of_mem (f := fun v : Variable × Id =>
      Inst.ofIds .variable [v.2, v.1.pointer] [7]) hslot
    simp only [FunctionParts.inner, FunctionParts.variableInsts, List.mem_append, List.mem_cons]
    exact .inr (.inr (.inl hvariable))
  have ht : typeOf? all slot.1.pointer.val = some slot.2.val := typeOf?_eq hnd hmem rfl rfl
  rw [PointsTo, ht]
  exact pointee?_pointerInst hnd hsub (h.slots slot hslot).2

theorem wellTyped_storeInsts (h : f.Built p code earlier q) (hnd : (results all).Nodup)
    (hsub : code ⊆ all) (hcode : f.code ⊆ all) : ∀ j ∈ q.storeInsts, WellTyped all r j := by
  intro j hj
  obtain ⟨k, hk⟩ := List.getElem?_of_mem hj
  obtain ⟨v, id, hv, hid, rfl⟩ := List.getElem?_zipWith_eq_some.mp hk
  have hlt : k < f.parameters.length := by
    rw [← h.passed]
    exact (List.getElem?_eq_some_iff.mp hid).1
  have htype : f.parameters[k]? = some v.type := by
    have hspilled := congrArg (fun l : List LoweredType => l[k]?) h.spilled
    simpa [List.getElem?_take_of_lt hlt, hv] using hspilled.symm
  have hparameter : Inst.ofIds .functionParameter [v.type.id, id] [] ∈ all := by
    refine h.inner_subset hcode (List.mem_append_left _ (List.mem_of_getElem? (i := k) ?_))
    exact List.getElem?_zipWith_eq_some.mpr ⟨v.type, id, htype, hid, rfl⟩
  exact .store (h.pointsTo hnd hsub hcode (List.mem_of_getElem? hv))
    (typeOf?_eq hnd hparameter rfl rfl)

theorem placed (h : f.Built p code earlier q) (hnd : (results all).Nodup) (hsub : code ⊆ all)
    (hcode : f.code ⊆ all)
    (hearlier : ∀ g ∈ earlier, g.code ⊆ all ∧ ∃ before r, g.Built p code before r) :
    (q.scope f).Placed code all earlier where
  nodup := hnd
  declarations := hsub
  types := by
    intro v hv
    obtain ⟨slot, hslot, rfl⟩ := List.mem_map.mp hv
    exact (h.slots slot hslot).1
  pointers := fun v hv => h.pointsTo hnd hsub hcode hv
  callees := by
    intro g hg
    obtain ⟨hgcode, before, r, hr⟩ := hearlier g hg
    exact ⟨_, _, hr.functionType_eq hnd hsub hgcode⟩

theorem wellTyped (h : f.Built p code earlier q) (hnd : (results all).Nodup) (hsub : code ⊆ all)
    (hcode : f.code ⊆ all)
    (hearlier : ∀ g ∈ earlier, g.code ⊆ all ∧ ∃ before r, g.Built p code before r) :
    ∀ j ∈ q.inner f, WellTyped all f.returnType.id.val j := by
  intro j hj
  have hbody : q.body ⊆ all := fun k hk => h.inner_subset hcode (by simp [FunctionParts.inner, hk])
  simp only [FunctionParts.inner, List.mem_append, List.mem_cons] at hj
  rcases hj with hj | rfl | hj | hj | hj
  · rw [FunctionParts.parameterInsts, ← List.map_uncurry_zip_eq_zipWith] at hj
    obtain ⟨_, _, rfl⟩ := List.mem_map.mp hj
    exact .parameter
  · exact .label
  · obtain ⟨slot, hslot, rfl⟩ := List.mem_map.mp hj
    exact .variable (pointee?_pointerInst hnd hsub (h.slots slot hslot).2)
  · exact h.wellTyped_storeInsts hnd hsub hcode j hj
  · exact h.body.wellTyped (h.placed hnd hsub hcode hearlier) h.returnType hbody j hj

end Function.Built

/-- Every instruction inside a function of a compiled module is well typed. -/
theorem compile_code_wellTyped {known : LocatedMethod → Prop} {s₀ s : Session} {options : Options}
    {m : CompiledModule} (h₀ : s₀.Reachable p known)
    (h : (compile p options).outcome s₀ = (.ok m, s))
    (hn : s.declarations.issued < 0xFFFFFFFF) :
    ∃ image, Image.read? m.bytes = some image ∧
      ∀ pre i post, image.code = pre ++ i :: post → i.op.isInner = true →
        ∃ before head inner returnType, pre = before ++ head :: inner ∧ head.op = .function ∧
          (∀ j ∈ inner, j.op.isInner = true) ∧ head.resultType? = some returnType ∧
          WellTyped image.code returnType i := by
  obtain ⟨held, hs, hm⟩ := compile_reachable h₀ h
  refine ⟨_, hm.image hs, ?_⟩
  intro pre i post hsplit hi
  obtain ⟨earlier, f, after, q, inner, rest, hlist, hq, hinner, rfl⟩ := hs.inner_place hsplit hi
  have hfunction : ∀ g ∈ s.functionList, g.code ⊆ s.sections := by
    intro g hg j hj
    rw [Session.sections_eq]
    exact List.mem_append_right _ (List.mem_append_right _ (List.mem_flatMap.mpr ⟨g, hg, hj⟩))
  have hearlier : ∀ g ∈ earlier, g.code ⊆ s.sections ∧ ∃ before r, g.Built p s.code before r := by
    intro g hg
    have hg' : g ∈ s.functionList := by simp [hlist, hg]
    obtain ⟨before, _, r, _, hr⟩ := hs.built hg'
    exact ⟨hfunction g hg', before, r, hr⟩
  refine ⟨_, q.headInst f, inner, f.returnType.id.val, rfl, rfl, ?_, rfl, ?_⟩
  · exact fun j hj => hq.isInner j (by simp [hinner, hj])
  · exact hq.wellTyped (hs.nodup_sections hn) s.code_subset_sections
      (hfunction f (by simp [hlist])) hearlier i (by simp [hinner])

theorem compile_code_wellTyped_probe :
    Probe.session.Reachable Probe.program (fun _ => True) ∧
      ∃ m s, (compile Probe.program {}).outcome Probe.session = (.ok m, s) ∧
        s.declarations.issued < 0xFFFFFFFF ∧
        ∃ image, Image.read? m.bytes = some image ∧
          ∀ pre i post, image.code = pre ++ i :: post → i.op.isInner = true →
            ∃ before head inner returnType, pre = before ++ head :: inner ∧
              head.op = .function ∧ (∀ j ∈ inner, j.op.isInner = true) ∧
              head.resultType? = some returnType ∧ WellTyped image.code returnType i := by
  have h₀ := Probe.reachable_session fun _ => True
  obtain ⟨m, s, h, hn⟩ := Probe.compiles_session
  exact ⟨h₀, m, s, h, hn, compile_code_wellTyped h₀ h hn⟩

end Lowering

end ShaderIR
