import ShaderIR.Proofs.Simulation

/-! Each instruction of a body against the code that stands for it. Fresh ids keep apart what the
code loads before it stores, so a variable may be source and destination at once. -/

namespace ShaderIR.Semantics

open Binary (Op Id Inst results)
open Lowering (LoweredType Variable Scope Function Immediate Translates arithmeticOp? loadInst
  storeTo accessInst pointerInst constantInst loadInsts kind_of_arithmeticOp?
  result?_of_arithmeticOp?)

variable {σ : Setting} {p : Program} {code all : List Inst} {path : List Nat} {c : Scope}
  {st : Store} {fr : Frame} {i : Instruction} {call : Caller UInt32} {rest : List Inst}

theorem binary_of_arithmeticOp? {opcode : Opcode} {shape : Lowering.Shape LoweredType} {op : Op}
    (h : arithmeticOp? opcode shape = some op) (ho : opcode ≠ .negate) :
    opcode = .add ∨ opcode = .subtract ∨ opcode = .multiply ∨ opcode = .divide ∨
      opcode = .modulo ∨ opcode = .remainder := by
  unfold arithmeticOp? at h
  split at h <;> simp_all

namespace Related

theorem follows_negate (h : Related σ p code all path c st fr) {dst src : Variable} {op : Op}
    {value result : Id} (ho : i.opcode = .negate) (hd : c.Reads i 0 dst) (hs : c.Reads i 1 src)
    (hop : arithmeticOp? i.opcode src.type.scalar = some op) (hv : Apart code c value.val)
    (hr : Apart code c result.val) :
    Follows (defined (plainStep? σ p path i st))
      (runCode σ all path call (loadInst src.type value src.pointer ::
        .ofIds op [dst.type.id, result, value] [] :: storeTo dst.pointer result :: rest) fr)
      (runCode σ all path call rest) (Related σ p code all path c) := by
  obtain ⟨a, hread, hlowers, hload⟩ := h.load hs
  obtain ⟨kind, hkind, _⟩ := kind_of_arithmeticOp? hop
  have hnumber : numberKind? p a.1 = some kind := (numberKind?_of_lowers hlowers).trans hkind
  have hstep : plainStep? σ p path i st =
      (σ.arithmetic.ofOpcode i.opcode kind [a.2]).bind fun w => st.write? (operand? i 0) w := by
    simp [plainStep?, ho, hread, hnumber]
  rw [hstep, hload, runCode_arithmetic hop]
  simp only [List.map_cons, List.map_nil, List.mapM_cons, List.mapM_nil, Frame.value?_bind_self,
    ofOp_eq_ofOpcode _ hop hkind]
  cases hw : σ.arithmetic.ofOpcode i.opcode kind [a.2] with
  | none => simp [hw]; rfl
  | some w => simpa [hw] using ((h.bind hv _).bind hr _).store hd (by simp)

theorem follows_binary (h : Related σ p code all path c st fr) {dst lhs rhs : Variable} {op : Op}
    {left right result : Id} (ho : i.opcode ≠ .negate) (hd : c.Reads i 0 dst)
    (hl : c.Reads i 1 lhs) (hr : c.Reads i 2 rhs)
    (hop : arithmeticOp? i.opcode lhs.type.scalar = some op) (hx : Apart code c left.val)
    (hy : Apart code c right.val) (hz : Apart code c result.val) (hne : left.val ≠ right.val) :
    Follows (defined (plainStep? σ p path i st))
      (runCode σ all path call (loadInst lhs.type left lhs.pointer ::
        loadInst rhs.type right rhs.pointer :: .ofIds op [dst.type.id, result, left, right] [] ::
          storeTo dst.pointer result :: rest) fr)
      (runCode σ all path call rest) (Related σ p code all path c) := by
  obtain ⟨a, hread, hlowers, hload⟩ := h.load hl
  obtain ⟨b, hread', _, hload'⟩ := (h.bind hx (.value a.2)).load hr
  obtain ⟨kind, hkind, _⟩ := kind_of_arithmeticOp? hop
  have hnumber : numberKind? p a.1 = some kind := (numberKind?_of_lowers hlowers).trans hkind
  have hstep : plainStep? σ p path i st =
      (σ.arithmetic.ofOpcode i.opcode kind [a.2, b.2]).bind fun w =>
        st.write? (operand? i 0) w := by
    rcases binary_of_arithmeticOp? hop ho with he | he | he | he | he | he <;>
      simp [plainStep?, he, hread, hread', hnumber]
  have hleft : ((fr.bind left.val (.value a.2)).bind right.val (.value b.2)).value? all left.val =
      some a.2 := by
    rw [Frame.value?_bind_ne hne, Frame.value?_bind_self]
  rw [hstep, hload, hload', runCode_arithmetic hop]
  simp only [List.map_cons, List.map_nil, List.mapM_cons, List.mapM_nil, Frame.value?_bind_self,
    hleft, ofOp_eq_ofOpcode _ hop hkind]
  cases hw : σ.arithmetic.ofOpcode i.opcode kind [a.2, b.2] with
  | none => simp [hw]; rfl
  | some w => simpa [hw] using (((h.bind hx _).bind hy _).bind hz _).store hd (by simp)

theorem follows_copy (h : Related σ p code all path c st fr) {dst src : Variable} {value : Id}
    (ho : i.opcode = .load) (hd : c.Reads i 0 dst) (hs : c.Reads i 1 src)
    (hv : Apart code c value.val) :
    Follows (defined (plainStep? σ p path i st))
      (runCode σ all path call (loadInst src.type value src.pointer ::
        storeTo dst.pointer value :: rest) fr)
      (runCode σ all path call rest) (Related σ p code all path c) := by
  obtain ⟨a, hread, _, hload⟩ := h.load hs
  have hstep : plainStep? σ p path i st = st.write? (operand? i 0) a.2 := by
    simp [plainStep?, ho, hread]
  rw [hstep, hload]
  exact (h.bind hv _).store hd (by simp)

theorem follows_constant (h : Related σ p code all path c st fr) (hnd : (results all).Nodup)
    (hsub : code ⊆ all) {dst : Variable} {shape : Lowering.Shape LoweredType} {bits : UInt32}
    {constant : Id} (hd : c.Reads i 0 dst) (hi : Immediate i shape bits)
    (hk : constantInst dst.type.id constant bits ∈ code) :
    Follows (defined (plainStep? σ p path i st))
      (runCode σ all path call (storeTo dst.pointer constant :: rest) fr)
      (runCode σ all path call rest) (Related σ p code all path c) := by
  have hvalue := h.constant hnd hsub hk
  have hstep : plainStep? σ p path i st = st.write? (operand? i 0) (.word bits) := by
    cases hi with
    | uint32 ho hi => simp [plainStep?, ho, operand?, hi]
    | float32 ho hi => simp [plainStep?, ho, operand?, hi]
  rw [hstep]
  exact h.store hd hvalue

theorem follows_loadElement (h : Related σ p code all path c st fr) {dst src index : Variable}
    {component : LoweredType} {pointerType position element value : Id}
    (ho : i.opcode = .loadElement) (hd : c.Reads i 0 dst) (hs : c.Reads i 1 src)
    (hi : c.Reads i 2 index) (hx : Apart code c position.val) (hy : Apart code c element.val)
    (hz : Apart code c value.val) :
    Follows (defined (plainStep? σ p path i st))
      (runCode σ all path call (loadInst index.type position index.pointer ::
        accessInst pointerType element src.pointer position ::
          loadInst component value element :: storeTo dst.pointer value :: rest) fr)
      (runCode σ all path call rest) (Related σ p code all path c) := by
  obtain ⟨b, hread', _, hload⟩ := h.load hi
  obtain ⟨n, a, hread, _, hmemory, haccess⟩ :=
    (h.bind hx (.value b.2)).access hs Frame.value?_bind_self pointerType
  have hstep : plainStep? σ p path i st = (position? b.2).bind fun k =>
      (a.2.part? k).bind fun w => st.write? (operand? i 0) w := by
    simp [plainStep?, ho, hread, hread']
  rw [hstep, hload, haccess]
  cases hk : position? b.2 with
  | none => rfl
  | some k =>
    have hdatum : ((fr.bind position.val (.value b.2)).bind element.val (.pointer n [k])).datum?
        all element.val = some (.pointer n [k]) := Frame.datum?_bind_self
    rw [defined_some_bind, loadPart hdatum hmemory]
    cases hw : a.2.part? k with
    | none => simp [hw]; rfl
    | some w => simpa [hw] using (((h.bind hx _).bind hy _).bind hz _).store hd (by simp)

theorem follows_setElement (h : Related σ p code all path c st fr) {dst src index : Variable}
    {pointerType position element value : Id} (ho : i.opcode = .setElement)
    (hd : c.Reads i 0 dst) (hi : c.Reads i 1 index) (hs : c.Reads i 2 src)
    (hx : Apart code c position.val) (hy : Apart code c element.val)
    (hz : Apart code c value.val) (hne : element.val ≠ value.val) :
    Follows (defined (plainStep? σ p path i st))
      (runCode σ all path call (loadInst index.type position index.pointer ::
        accessInst pointerType element dst.pointer position ::
          loadInst src.type value src.pointer :: storeTo element value :: rest) fr)
      (runCode σ all path call rest) (Related σ p code all path c) := by
  obtain ⟨b, hread', _, hload⟩ := h.load hi
  obtain ⟨n, a, hread, hpointer, _, haccess⟩ :=
    (h.bind hx (.value b.2)).access hd Frame.value?_bind_self pointerType
  rw [hload, haccess]
  cases hk : position? b.2 with
  | none =>
    have hstep : plainStep? σ p path i st = none := by
      obtain ⟨e, hsource, _⟩ := h.read hs
      simp [plainStep?, ho, hread, hread', hsource, hk]
    rw [hstep]
    rfl
  | some k =>
    obtain ⟨e, hsource, _, hload'⟩ := ((h.bind hx (.value b.2)).bind hy (.pointer n [k])).load hs
    have hstep : plainStep? σ p path i st = (st.read? (operand? i 0)).bind fun old =>
        (old.2.setPart? k e.2).bind fun w => st.write? (operand? i 0) w := by
      simp [plainStep?, ho, hread, hread', hsource, hk]
    rw [hstep, defined_some_bind, hload']
    have hrel := ((h.bind hx (.value b.2)).bind hy (.pointer n [k])).bind hz (.value e.2)
    refine hrel.storePart (n := n) (k := k) hd ?_ ?_ Frame.value?_bind_self
    · rw [Frame.datum?_bind_ne (hz.2 dst hd.mem), Frame.datum?_bind_ne (hy.2 dst hd.mem)]
      exact hpointer
    · rw [Frame.datum?_bind_ne hne, Frame.datum?_bind_self]

theorem follows_loadField (h : Related σ p code all path c st fr) (hnd : (results all).Nodup)
    (hsub : code ⊆ all) {dst src : Variable} {field : UInt32} {member : LoweredType}
    {pointerType uint position pointer value : Id} (ho : i.opcode = .loadField)
    (hd : c.Reads i 0 dst) (hs : c.Reads i 1 src) (hf : i.operands[2]? = some (.field field))
    (hk : constantInst uint position field ∈ code) (hx : Apart code c pointer.val)
    (hy : Apart code c value.val) :
    Follows (defined (plainStep? σ p path i st))
      (runCode σ all path call (accessInst pointerType pointer src.pointer position ::
        loadInst member value pointer :: storeTo dst.pointer value :: rest) fr)
      (runCode σ all path call rest) (Related σ p code all path c) := by
  have hindex := h.constant hnd hsub hk
  obtain ⟨n, a, hread, _, hmemory, haccess⟩ := h.access hs hindex pointerType
  have hstep : plainStep? σ p path i st =
      (a.2.part? field.toNat).bind fun w => st.write? (operand? i 0) w := by
    simp [plainStep?, ho, operand?, hf, hread]
  have hdatum : (fr.bind pointer.val (.pointer n [field.toNat])).datum? all pointer.val =
      some (.pointer n [field.toNat]) := Frame.datum?_bind_self
  rw [hstep, haccess, position?, defined_some_bind, loadPart hdatum hmemory]
  cases hw : a.2.part? field.toNat with
  | none => simp; rfl
  | some w => simpa using ((h.bind hx _).bind hy _).store hd (by simp)

theorem follows_setField (h : Related σ p code all path c st fr) (hnd : (results all).Nodup)
    (hsub : code ⊆ all) {dst src : Variable} {field : UInt32}
    {pointerType uint position pointer value : Id} (ho : i.opcode = .setField)
    (hd : c.Reads i 0 dst) (hs : c.Reads i 2 src) (hf : i.operands[1]? = some (.field field))
    (hk : constantInst uint position field ∈ code) (hx : Apart code c pointer.val)
    (hy : Apart code c value.val) (hne : pointer.val ≠ value.val) :
    Follows (defined (plainStep? σ p path i st))
      (runCode σ all path call (accessInst pointerType pointer dst.pointer position ::
        loadInst src.type value src.pointer :: storeTo pointer value :: rest) fr)
      (runCode σ all path call rest) (Related σ p code all path c) := by
  have hindex := h.constant hnd hsub hk
  obtain ⟨n, a, hread, hpointer, _, haccess⟩ := h.access hd hindex pointerType
  obtain ⟨e, hsource, _, hload⟩ := (h.bind hx (.pointer n [field.toNat])).load hs
  have hstep : plainStep? σ p path i st = (st.read? (operand? i 0)).bind fun old =>
      (old.2.setPart? field.toNat e.2).bind fun w => st.write? (operand? i 0) w := by
    simp [plainStep?, ho, operand?, hf, hread, hsource]
  rw [hstep, haccess, position?, defined_some_bind, hload]
  have hrel := (h.bind hx (.pointer n [field.toNat])).bind hy (.value e.2)
  refine hrel.storePart (n := n) (k := field.toNat) hd ?_ ?_ Frame.value?_bind_self
  · rw [Frame.datum?_bind_ne (hy.2 dst hd.mem), Frame.datum?_bind_ne (hx.2 dst hd.mem)]
    exact hpointer
  · rw [Frame.datum?_bind_ne hne, Frame.datum?_bind_self]

/-- The arguments of a call are loaded one after another, and stay bound. -/
theorem loadAll (h : Related σ p code all path c st fr) {parameters : List LoweredType}
    {vs : List Variable} {values : List Id} {slot : Nat} (hp : c.Passes i slot parameters vs)
    (hn : values.length = vs.length) (hx : ∀ x ∈ values, Apart code c x.val)
    (hnd : (values.map Id.val).Nodup) :
    ∃ arguments fr', ((i.operands.drop slot).take vs.length).mapM
        (fun o => (st.read? (some o)).map Prod.snd) = some arguments ∧
      runCode σ all path call (loadInsts vs values ++ rest) fr =
        runCode σ all path call rest fr' ∧
      Related σ p code all path c st fr' ∧
      (values.map Id.val).mapM (fr'.value? all) = some arguments ∧
      ∀ y, y ∉ values.map Id.val → fr'.value? all y = fr.value? all y := by
  induction vs generalizing fr parameters values slot with
  | nil =>
    obtain rfl : values = [] := List.length_eq_zero_iff.mp hn
    exact ⟨[], fr, rfl, rfl, h, rfl, fun _ _ => rfl⟩
  | cons v vs ih =>
    cases parameters with
    | nil => exact hp.elim
    | cons parameter parameters =>
      cases values with
      | nil => simp at hn
      | cons value values =>
        obtain ⟨hv, _, hrest⟩ := hp
        rw [List.map_cons, List.nodup_cons] at hnd
        obtain ⟨a, hread, _, hload⟩ := h.load hv
        obtain ⟨arguments, fr', hreads, hrun, hrel, hvalues, hkeep⟩ :=
          ih (h.bind (hx value (by simp)) (.value a.2)) hrest (by simpa using hn)
            (fun x hx' => hx x (by simp [hx'])) hnd.2
        have hfirst : fr'.value? all value.val = some a.2 := by
          rw [hkeep _ hnd.1, Frame.value?_bind_self]
        obtain ⟨n, hoperand, _⟩ := hv
        have hdrop : i.operands.drop slot = .variable n :: i.operands.drop (slot + 1) := by
          obtain ⟨hlt, he⟩ := List.getElem?_eq_some_iff.mp hoperand
          rw [List.drop_eq_getElem_cons hlt, he]
        have hread' : st.read? (some (.variable n)) = some a := by
          rw [← hoperand]
          exact hread
        refine ⟨a.2 :: arguments, fr', ?_, ?_, hrel, ?_, ?_⟩
        · simp [hdrop, hread', hreads]
        · exact hload.trans hrun
        · simp [hfirst, hvalues]
        · intro y hy
          have hne : y ≠ value.val := fun he => hy (by simp [he])
          have hy' : y ∉ values.map Id.val := fun hmem => hy (by simp [List.mem_map.mp hmem])
          rw [hkeep y hy', Frame.value?_bind_ne hne]

end Related

/-- Functions give what the methods they stand for give. -/
def Agrees (functions : List Function) (callFunction : Caller UInt32) (callMethod : Caller Method) :
    Prop :=
  ∀ f ∈ functions, ∀ path arguments,
    callFunction path f.id.val arguments = callMethod path f.method.method arguments

/-- The result of a call is stored into its slot, if there is one. -/
theorem Related.receive (h : Related σ p code all path c st fr) {slot : Option Variable}
    (hs : c.Receives i slot) {x : Id} (hx : Apart code c x.val) (result : Option Value) :
    Follows (defined (receive? st (operand? i 1) result))
      (runCode σ all path call ((slot.map fun v => storeTo v.pointer x).toList ++ rest)
        (fr.bind x.val (.ofResult result)))
      (runCode σ all path call rest) (Related σ p code all path c) := by
  cases slot with
  | none =>
    have hvoid : operand? i 1 = some .void := hs
    rw [hvoid]
    exact ⟨_, rfl, h.bind hx _⟩
  | some v =>
    have hv : c.Reads i 1 v := hs
    obtain ⟨n, hn, _⟩ := hv
    have hn' : operand? i 1 = some (.variable n) := hn
    cases result with
    | none =>
      rw [hn']
      simp [receive?, runCode_store, Datum.ofResult, Frame.value?]
      rfl
    | some w =>
      have hreceive : receive? st (operand? i 1) (some w) = st.write? (operand? i 1) w := by
        rw [hn']
        rfl
      rw [hreceive]
      exact (h.bind hx _).store hs (by simp [Datum.ofResult])

theorem callee?_eq {earlier : List Function} (hlocates : ∀ f ∈ earlier, p.Locates f.method)
    {r : MethodRef} {target : MethodInstance} {m : LocatedMethod} {f : Function}
    (hr : i.operands[0]? = some (.method r)) (ht : p.resolve r = .ok target)
    (hm : target.concrete? = some m) (hf : f ∈ earlier) (hid : f.method.id = m.id) :
    callee? p (operand? i 0) = some f.method.method := by
  have hmethod : f.method = m :=
    (hlocates f hf).eq_of_id_eq (Program.locates_of_resolve ht hm) hid
  simp [callee?, operand?, hr, ht, hm, hmethod]

theorem Related.follows_call (h : Related σ p code all path c st fr) {earlier : List Function}
    {callMethod : Caller Method} (hagrees : Agrees earlier call callMethod)
    (hlocates : ∀ f ∈ earlier, p.Locates f.method) {r : MethodRef} {target : MethodInstance}
    {m : LocatedMethod} {f : Function} {slot : Option Variable} {arguments : List Variable}
    {values : List Id} {type result : Id} (hr : i.operands[0]? = some (.method r))
    (ht : p.resolve r = .ok target) (hm : target.concrete? = some m) (hf : f ∈ earlier)
    (hid : f.method.id = m.id) (hs : c.Receives i slot)
    (hn : i.operands.length - 2 = f.parameters.length)
    (ha : c.Passes i 2 f.parameters arguments) (hv : values.length = arguments.length)
    (hx : ∀ x ∈ values, Apart code c x.val) (hnd : (values.map Id.val).Nodup)
    (hy : Apart code c result.val) :
    Follows (callStep p path callMethod i st)
      (runCode σ all path call (loadInsts arguments values ++
        .ofIds .functionCall [type, result, f.id] (values.map Id.val) ::
          ((slot.map fun v => storeTo v.pointer result).toList ++ rest)) fr)
      (runCode σ all path call rest) (Related σ p code all path c) := by
  obtain ⟨as, fr', hreads, hload, hrel, hvalues, _⟩ := h.loadAll ha hv hx hnd
  have hcallee := callee?_eq hlocates hr ht hm hf hid
  have harguments : (i.operands.drop 2).mapM (fun o => (st.read? (some o)).map Prod.snd) =
      some as := by
    have hlength : (i.operands.drop 2).length ≤ arguments.length := by
      rw [List.length_drop, hn, ha.length_eq]
    rwa [List.take_of_length_le hlength] at hreads
  have hstep : callStep p path callMethod i st =
      callMethod (st.calls :: path) f.method.method as >>= fun w =>
        defined (receive? st.called (operand? i 1) w) := by
    simp [callStep, hcallee, harguments]
  have hcode : functionCallStep all path call
      (.ofIds .functionCall [type, result, f.id] (values.map Id.val)) fr' =
      callMethod (st.calls :: path) f.method.method as >>= fun w =>
        .ok (fr'.called.bind result.val (.ofResult w)) := by
    have hcall := hagrees f hf (st.calls :: path) as
    simp only [functionCallStep, Inst.ofIds, List.map_cons, List.map_nil, List.cons_append,
      List.nil_append, hvalues, defined_some_bind, hrel.calls, hcall]
    rfl
  rw [hstep, hload, runCode_call, hcode]
  cases hresult : callMethod (st.calls :: path) f.method.method as with
  | error e => rfl
  | ok w => exact hrel.called.receive hs hy w

theorem bodyStep_plain {callMethod : Caller Method} (ho : i.opcode ≠ .call) :
    bodyStep σ p path callMethod i st = defined (plainStep? σ p path i st) := by
  unfold bodyStep
  split
  · exact absurd ‹_› ho
  · rfl

theorem ne_call_of_arithmeticOp? {opcode : Opcode} {shape : Lowering.Shape LoweredType} {op : Op}
    (h : arithmeticOp? opcode shape = some op) : opcode ≠ .call := by
  rintro rfl
  cases h

theorem opcode_of_immediate {shape : Lowering.Shape LoweredType} {bits : UInt32}
    (h : Immediate i shape bits) : i.opcode = .loadUInt32 ∨ i.opcode = .loadFloat32 := by
  cases h with
  | uint32 ho _ => exact .inl ho
  | float32 ho _ => exact .inr ho

theorem follows_translates {earlier : List Function} {out : List Inst}
    (ht : Translates p code earlier c i out) (h : Related σ p code all path c st fr)
    (hnd : (results all).Nodup) (hsub : code ⊆ all) (hout : (results out).Nodup)
    (hapart : ∀ x ∈ results out, Apart code c x) {callMethod : Caller Method}
    (hagrees : Agrees earlier call callMethod) (hlocates : ∀ f ∈ earlier, p.Locates f.method) :
    Follows (bodyStep σ p path callMethod i st) (runCode σ all path call (out ++ rest) fr)
      (runCode σ all path call rest) (Related σ p code all path c) := by
  cases ht with
  | negate ho hd hs ht hop =>
    rw [bodyStep_plain (ne_call_of_arithmeticOp? hop)]
    exact h.follows_negate ho hd hs hop (hapart _ (by simp))
      (hapart _ (by simp [result?_of_arithmeticOp? hop]))
  | @binary dst lhs rhs op left right result ho hd hl hr ht ht' hop =>
    rw [bodyStep_plain (ne_call_of_arithmeticOp? hop)]
    simp only [Binary.results_cons, Lowering.result?_loadInst, Lowering.result?_storeTo,
      result?_of_arithmeticOp? hop, Binary.results_nil, Option.toList_some, Option.toList_none,
      List.nil_append, List.cons_append] at hout hapart
    have hne : left.val ≠ right.val := by
      intro he
      simp [he] at hout
    exact h.follows_binary ho hd hl hr hop (hapart _ (by simp)) (hapart _ (by simp))
      (hapart _ (by simp)) hne
  | @call r target m f slot arguments values result ho hr ht hm hf hid hs hn ha hv hret =>
    have hresults : results (loadInsts arguments values ++
        Inst.ofIds .functionCall [f.returnType.id, result, f.id] (values.map Id.val) ::
          (slot.map fun v => storeTo v.pointer result).toList) =
        values.map Id.val ++ [result.val] := by
      cases slot <;> simp [Lowering.results_loadInsts hv]
    rw [hresults] at hout hapart
    have hvalues : ∀ x ∈ values, Apart code c x.val := fun x hx =>
      hapart x.val (List.mem_append_left _ (List.mem_map_of_mem hx))
    have hstep : bodyStep σ p path callMethod i st = callStep p path callMethod i st := by
      simp [bodyStep, ho]
    rw [hstep, List.append_assoc, List.cons_append]
    exact h.follows_call hagrees hlocates hr ht hm hf hid hs hn ha hv hvalues
      (List.nodup_append.mp hout).1 (hapart result.val (by simp))
  | copy ho hd hs ht =>
    rw [bodyStep_plain (by simp [ho])]
    exact h.follows_copy ho hd hs (hapart _ (by simp))
  | constant hd hi hk =>
    have hne : i.opcode ≠ .call := by
      rcases opcode_of_immediate hi with he | he <;> simp [he]
    rw [bodyStep_plain hne]
    exact h.follows_constant hnd hsub hd hi hk
  | loadElement ho hd hs hi hv ht hw hp =>
    rw [bodyStep_plain (by simp [ho])]
    exact h.follows_loadElement ho hd hs hi (hapart _ (by simp)) (hapart _ (by simp))
      (hapart _ (by simp))
  | setElement ho hd hi hs hv ht hw hp =>
    rw [bodyStep_plain (by simp [ho])]
    have hne := (List.nodup_cons.mp (List.nodup_cons.mp hout).2).1
    exact h.follows_setElement ho hd hi hs (hapart _ (by simp)) (hapart _ (by simp))
      (hapart _ (by simp)) (by simpa using hne)
  | loadField ho hd hs hf hv hm ht hp hu hk =>
    rw [bodyStep_plain (by simp [ho])]
    exact h.follows_loadField hnd hsub ho hd hs hf hk (hapart _ (by simp)) (hapart _ (by simp))
  | setField ho hd hs hf hv hm ht hp hu hk =>
    rw [bodyStep_plain (by simp [ho])]
    have hne := (List.nodup_cons.mp hout).1
    exact h.follows_setField hnd hsub ho hd hs hf hk (hapart _ (by simp)) (hapart _ (by simp))
      (by simpa using hne)

end ShaderIR.Semantics
