import ShaderIR.Proofs.BodySimulation

/-! The way into a function: its parameters are bound, its variables get their initial contents
and the parameters are stored into theirs. -/

namespace ShaderIR.Semantics

open Binary (Op Id Inst results)
open Lowering (LoweredType Variable Scope Function FunctionParts Lowers storeTo)

theorem lookup_reverse_append {x : UInt32} {bs : List (UInt32 × Datum)}
    (h : x ∉ bs.map Prod.fst) (names : List (UInt32 × Datum)) :
    (bs.reverse ++ names).lookup x = names.lookup x := by
  induction bs generalizing names with
  | nil => rfl
  | cons b bs ih =>
    rw [List.map_cons, List.mem_cons, not_or] at h
    have hb : (x == b.1) = false := by simpa using h.1
    have hrest := ih h.2 (b :: names)
    rw [List.reverse_cons, List.append_assoc, List.singleton_append, hrest]
    obtain ⟨y, d⟩ := b
    simp [List.lookup_cons, hb]

theorem lookup_reverse_append_of_mem {x : UInt32} {d : Datum} {bs : List (UInt32 × Datum)}
    (hnd : (bs.map Prod.fst).Nodup) (h : (x, d) ∈ bs) (names : List (UInt32 × Datum)) :
    (bs.reverse ++ names).lookup x = some d := by
  induction bs generalizing names with
  | nil => simp at h
  | cons b bs ih =>
    rw [List.map_cons, List.nodup_cons] at hnd
    rw [List.reverse_cons, List.append_assoc, List.singleton_append]
    rcases List.mem_cons.mp h with rfl | h
    · rw [lookup_reverse_append hnd.1]
      simp
    · exact ih hnd.2 h (b :: names)

variable {σ : Setting} {p : Program} {code all : List Inst} {path : List Nat}
  {call : Caller UInt32} {rest : List Inst}

/-- Each parameter takes an argument; none may be missing or left over. -/
theorem runCode_parameters {types : List LoweredType} {passed : List Id}
    (hn : passed.length = types.length) (label : Id) (names : List (UInt32 × Datum))
    (arguments : List Value) :
    runCode σ all path call
        (List.zipWith (fun t id => .ofIds .functionParameter [LoweredType.id t, id] []) types
          passed ++ .ofIds .label [label] [] :: rest) ⟨names, [], arguments, 0⟩ =
      if arguments.length = types.length then
        runCode σ all path call rest
          ⟨((passed.map Id.val).zip (arguments.map .value)).reverse ++ names, [], [], 0⟩
      else .error .undefined := by
  induction types generalizing passed names arguments with
  | nil =>
    obtain rfl : passed = [] := List.length_eq_zero_iff.mp hn
    cases arguments with
    | nil => rfl
    | cons a arguments => rfl
  | cons t types ih =>
    cases passed with
    | nil => simp at hn
    | cons id passed =>
      cases arguments with
      | nil => rfl
      | cons a arguments =>
        have hstep := ih (show passed.length = types.length by simpa using hn)
          ((id.val, .value a) :: names) arguments
        simp only [List.length_cons, Nat.add_right_cancel_iff, List.map_cons,
          List.zip_cons_cons, List.reverse_cons, List.append_assoc, List.singleton_append]
        exact hstep

/-- The pointers of variables whose cells stand one after another. -/
def cellNames : Nat → List Variable → List (UInt32 × Datum)
  | _, [] => []
  | n, v :: vs => (v.pointer.val, .pointer n []) :: cellNames (n + 1) vs

theorem map_fst_cellNames (n : Nat) (vs : List Variable) :
    (cellNames n vs).map Prod.fst = vs.map fun v => v.pointer.val := by
  induction vs generalizing n with
  | nil => rfl
  | cons v vs ih => simp [cellNames, ih]

theorem mem_cellNames {n k : Nat} {vs : List Variable} {v : Variable} (h : vs[k]? = some v) :
    (v.pointer.val, .pointer (n + k) []) ∈ cellNames n vs := by
  induction vs generalizing n k with
  | nil => simp at h
  | cons w vs ih =>
    cases k with
    | zero =>
      obtain rfl : w = v := by simpa using h
      simp [cellNames]
    | succ k =>
      have hmem := ih (n := n + 1) (show vs[k]? = some v by simpa using h)
      rw [show n + (k + 1) = n + 1 + k by omega]
      exact List.mem_cons_of_mem _ hmem

theorem runCode_variables (slots : List (Variable × Id)) (names : List (UInt32 × Datum))
    (memory : List Value) :
    runCode σ all path call
        (slots.map (fun v => .ofIds .variable [v.2, v.1.pointer] [7]) ++ rest)
        ⟨names, memory, [], 0⟩ =
      runCode σ all path call rest
        ⟨(cellNames memory.length (slots.map Prod.fst)).reverse ++ names,
          memory ++ (List.range' memory.length slots.length).map (σ.initial path), [], 0⟩ := by
  induction slots generalizing names memory with
  | nil => simp [cellNames]
  | cons v slots ih =>
    have hstep := ih ((v.1.pointer.val, .pointer memory.length []) :: names)
      (memory ++ [σ.initial path memory.length])
    simp only [List.length_append, List.length_singleton, List.append_assoc,
      List.singleton_append] at hstep
    simp only [List.map_cons, cellNames, List.reverse_cons, List.append_assoc,
      List.singleton_append, List.length_cons, List.range'_succ]
    exact hstep

theorem runCode_stores {vs : List Variable} {ids : List Id} {values done untouched : List Value}
    {names : List (UInt32 × Datum)} (hvalues : values.length = ids.length)
    (hvs : ids.length ≤ vs.length) (huntouched : vs.length = untouched.length)
    (hpointer : ∀ (k : Nat) (v : Variable), vs[k]? = some v →
      names.lookup v.pointer.val = some (.pointer (done.length + k) []))
    (hvalue : ∀ (k : Nat) (id : Id) (a : Value), ids[k]? = some id → values[k]? = some a →
      names.lookup id.val = some (.value a)) :
    runCode σ all path call
        (List.zipWith (fun v id => storeTo (Variable.pointer v) id) vs ids ++ rest)
        ⟨names, done ++ untouched, [], 0⟩ =
      runCode σ all path call rest
        ⟨names, done ++ values ++ untouched.drop values.length, [], 0⟩ := by
  induction ids generalizing vs values done untouched with
  | nil =>
    obtain rfl : values = [] := List.length_eq_zero_iff.mp hvalues
    simp
  | cons id ids ih =>
    obtain ⟨v, vs, rfl⟩ := List.exists_cons_of_length_pos (show 0 < vs.length by
      simp only [List.length_cons] at hvs
      omega)
    obtain ⟨a, values, rfl⟩ := List.exists_cons_of_length_pos (show 0 < values.length by
      simp only [List.length_cons] at hvalues
      omega)
    obtain ⟨old, untouched, rfl⟩ := List.exists_cons_of_length_pos (show 0 < untouched.length by
      simp only [List.length_cons] at huntouched
      omega)
    have hp : names.lookup v.pointer.val = some (.pointer done.length []) := by
      simpa using hpointer 0 v rfl
    have ha : names.lookup id.val = some (.value a) := hvalue 0 id a rfl rfl
    have hstep := @ih vs values (done ++ [a]) untouched (by simpa using hvalues)
      (by simpa using hvs) (show vs.length = untouched.length by simpa using huntouched)
      (fun k w hw => by
        have hk := hpointer (k + 1) w (by simpa using hw)
        rw [hk, List.length_append, List.length_singleton, Nat.add_assoc, Nat.add_comm 1 k])
      (fun k w b hw hb => hvalue (k + 1) w b (by simpa using hw) (by simpa using hb))
    have hstore : Frame.store? ⟨names, done ++ old :: untouched, [], 0⟩ all v.pointer.val a =
        some ⟨names, done ++ a :: untouched, [], 0⟩ := by
      simp [Frame.store?, Frame.datum?, hp, Value.setAt?]
    have hread : Frame.value? ⟨names, done ++ old :: untouched, [], 0⟩ all id.val = some a := by
      simp [Frame.value?, Frame.datum?, ha]
    rw [List.zipWith_cons_cons, List.cons_append, runCode_store, hread, Option.bind_some, hstore,
      defined_some_bind]
    simpa using hstep

/-- The frame in which the body of a function starts. -/
def entryFrame (σ : Setting) (path : List Nat) (q : FunctionParts) (arguments : List Value) :
    Frame :=
  ⟨(cellNames 0 q.declared).reverse ++ ((q.passed.map Id.val).zip (arguments.map .value)).reverse,
    arguments ++ ((List.range' 0 q.slots.length).map (σ.initial path)).drop arguments.length, [], 0⟩

theorem forall₂_getElem? {α β : Type} {r : α → β → Prop} {l : List α} {l' : List β}
    (h : List.Forall₂ r l l') {k : Nat} {a : α} {b : β} (ha : l[k]? = some a)
    (hb : l'[k]? = some b) : r a b := by
  obtain ⟨hk, rfl⟩ := List.getElem?_eq_some_iff.mp ha
  obtain ⟨hk', rfl⟩ := List.getElem?_eq_some_iff.mp hb
  exact h.get hk hk'

section Entry

variable {earlier : List Function} {f : Function} {q : FunctionParts} {arguments : List Value}

/-- Parameters, variables and what the body defines have distinct ids. -/
theorem nodup_entry (hb : f.Built p code earlier q) (hnd : (results f.code).Nodup) :
    (q.passed.map Id.val).Nodup ∧ (q.declared.map fun v => v.pointer.val).Nodup ∧
      (∀ x ∈ q.passed.map Id.val, x ∉ q.declared.map fun v => v.pointer.val) ∧
      (results q.body).Nodup ∧
      ∀ x ∈ results q.body, ∀ v ∈ q.declared, v.pointer.val ≠ x := by
  have hslots : Lowering.slotIds q.slots = q.declared.map fun v => v.pointer.val := by
    simp [Lowering.slotIds, FunctionParts.declared]
  rw [hb.code_eq, Binary.results_cons, Binary.results_append,
    FunctionParts.results_inner hb.passed, hslots] at hnd
  have hinner := (List.nodup_append.mp (List.nodup_append.mp hnd).2.1).1
  obtain ⟨hpassed, hrest, hdisjoint⟩ := List.nodup_append.mp hinner
  obtain ⟨hdeclared, hbody, hdisjoint'⟩ := List.nodup_append.mp (List.nodup_cons.mp hrest).2
  refine ⟨hpassed, hdeclared, ?_, hbody, ?_⟩
  · intro x hx hx'
    have hmem := List.mem_append_left (results q.body) hx'
    exact hdisjoint x hx x (List.mem_cons_of_mem _ hmem) rfl
  · intro x hx v hv he
    exact hdisjoint' v.pointer.val (List.mem_map_of_mem hv) x hx he

theorem mem_results_of_declared (hb : f.Built p code earlier q) {x : UInt32}
    (hx : x ∈ q.declared.map fun v => v.pointer.val) : x ∈ results f.code := by
  obtain ⟨v, hv, rfl⟩ := List.mem_map.mp hx
  rw [hb.code_eq]
  have hmem := FunctionParts.pointer_mem hv
  simp [FunctionParts.inner, hmem]

theorem mem_results_of_passed (hb : f.Built p code earlier q) {x : UInt32}
    (hx : x ∈ q.passed.map Id.val) : x ∈ results f.code := by
  rw [hb.code_eq]
  simp only [Binary.results_cons, Binary.results_append, FunctionParts.results_inner hb.passed,
    List.mem_append]
  exact .inr (.inl (.inl hx))

theorem parameters_le (hb : f.Built p code earlier q) :
    f.parameters.length ≤ q.declared.length := by
  have hlength := congrArg List.length hb.spilled
  simp only [List.length_map, List.length_take] at hlength
  omega

theorem lookup_pointer (hb : f.Built p code earlier q) (hnd : (results f.code).Nodup) {k : Nat}
    {v : Variable} (hv : q.declared[k]? = some v) (arguments : List Value) (path : List Nat) :
    (entryFrame σ path q arguments).names.lookup v.pointer.val = some (.pointer k []) := by
  refine lookup_reverse_append_of_mem ?_ ?_ _
  · rw [map_fst_cellNames]
    exact (nodup_entry hb hnd).2.1
  · have hmem := mem_cellNames (n := 0) hv
    rwa [Nat.zero_add] at hmem

theorem lookup_passed (hb : f.Built p code earlier q) (hnd : (results f.code).Nodup) {k : Nat}
    {id : Id} {a : Value} (hn : arguments.length = f.parameters.length)
    (hid : q.passed[k]? = some id) (ha : arguments[k]? = some a) (path : List Nat) :
    (entryFrame σ path q arguments).names.lookup id.val = some (.value a) := by
  obtain ⟨hpassed, _, hdisjoint, _, _⟩ := nodup_entry hb hnd
  have hmem : id.val ∈ q.passed.map Id.val := List.mem_map_of_mem (List.mem_of_getElem? hid)
  have hkeys : ((q.passed.map Id.val).zip (arguments.map Datum.value)).map Prod.fst =
      q.passed.map Id.val := by
    refine List.map_fst_zip ?_
    simp [hb.passed, hn]
  have hpair : (id.val, Datum.value a) ∈
      (q.passed.map Id.val).zip (arguments.map Datum.value) := by
    refine List.mem_of_getElem? (i := k) ?_
    simp [List.getElem?_zip_eq_some, hid, ha]
  rw [entryFrame, lookup_reverse_append (by rw [map_fst_cellNames]; exact hdisjoint _ hmem)]
  have hfound := lookup_reverse_append_of_mem (by rw [hkeys]; exact hpassed) hpair []
  rwa [List.append_nil] at hfound

/-- The instructions before the body set its frame up, if there is an argument for every
parameter. -/
theorem runCode_inner (hb : f.Built p code earlier q) (hnd : (results f.code).Nodup)
    (arguments : List Value) :
    runCode σ all path call (q.inner f) ⟨[], [], arguments, 0⟩ =
      if arguments.length = f.parameters.length then
        runCode σ all path call q.body (entryFrame σ path q arguments)
      else .error .undefined := by
  rw [FunctionParts.inner, FunctionParts.parameterInsts, FunctionParts.labelInst,
    runCode_parameters hb.passed]
  by_cases hn : arguments.length = f.parameters.length
  · rw [if_pos hn, if_pos hn, FunctionParts.variableInsts, runCode_variables]
    have hlength : q.declared.length = q.slots.length := by simp [FunctionParts.declared]
    have hle := parameters_le hb
    have hpassed := hb.passed
    have hstores := @runCode_stores σ all path call q.body q.declared q.passed arguments []
      ((List.range' 0 q.slots.length).map (σ.initial path)) (entryFrame σ path q arguments).names
      (by omega) (by omega) (by simp [hlength])
      (fun k v hv => by simpa using lookup_pointer hb hnd hv arguments path)
      (fun k id a hid ha => lookup_passed hb hnd hn hid ha path)
    simpa [entryFrame, FunctionParts.storeInsts, FunctionParts.declared] using hstores
  · rw [if_neg hn, if_neg hn]

theorem related_entry (hb : f.Built p code earlier q) (hnd : (results f.code).Nodup)
    (hapart : ∀ x ∈ results f.code, x ∉ results code)
    (hn : arguments.length = f.parameters.length) :
    Related σ p code all path (q.scope f)
      ⟨(Lowering.receivedTypes f.method.method).zip arguments, 0⟩
      (entryFrame σ path q arguments) := by
  have hreceived := hb.parameterLowers.length_eq
  have hlength : q.declared.length = q.slots.length := by simp [FunctionParts.declared]
  have hle := parameters_le hb
  constructor
  · simp [FunctionParts.scope, hreceived, hn]
  · exact hle
  · simp only [entryFrame, FunctionParts.scope, List.length_append, List.length_drop,
      List.length_map, List.length_range']
    omega
  · intro k x hx
    obtain ⟨_, hx⟩ := List.getElem?_zip_eq_some.mp hx
    have hlt := (List.getElem?_eq_some_iff.mp hx).1
    simpa [entryFrame, List.getElem?_append_left hlt] using hx
  · intro k hk hk'
    have hk : arguments.length ≤ k := hn ▸ hk
    have hk' : k < q.slots.length := hlength ▸ hk'
    have hadd : arguments.length + (k - arguments.length) = k := by omega
    simp [entryFrame, List.getElem?_append_right hk, List.getElem?_drop, hadd,
      List.getElem?_range' hk']
  · intro k x v hx hv
    obtain ⟨hty, hx⟩ := List.getElem?_zip_eq_some.mp hx
    have hlt : k < f.parameters.length := by
      rw [← hn]
      exact (List.getElem?_eq_some_iff.mp hx).1
    have htype : f.parameters[k]? = some v.type := by
      have hv' : q.declared[k]? = some v := hv
      have hspilled := congrArg (fun l : List LoweredType => l[k]?) hb.spilled
      simpa [List.getElem?_take_of_lt hlt, hv'] using hspilled.symm
    exact forall₂_getElem? hb.parameterLowers hty htype
  · intro k v hv
    simp [Frame.datum?, lookup_pointer hb hnd hv arguments path]
  · intro x hx
    have hkeys : x ∉ (cellNames 0 q.declared).map Prod.fst := by
      rw [map_fst_cellNames]
      intro hmem
      exact hapart x (mem_results_of_declared hb hmem) hx
    have hkeys' : x ∉ ((q.passed.map Id.val).zip (arguments.map Datum.value)).map Prod.fst := by
      intro hmem
      obtain ⟨b, hb', rfl⟩ := List.mem_map.mp hmem
      exact hapart _ (mem_results_of_passed hb (List.of_mem_zip hb').1) hx
    have hrest := lookup_reverse_append hkeys' []
    rw [List.append_nil] at hrest
    rw [entryFrame, lookup_reverse_append hkeys, hrest]
    rfl
  · rfl

end Entry

end ShaderIR.Semantics
