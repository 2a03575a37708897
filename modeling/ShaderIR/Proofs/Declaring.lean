import ShaderIR.Proofs.SessionInvariant

/-! Ids and declarations: each step keeps the invariant of sessions, and a declaration that is
asked for is in the code afterwards. -/

namespace ShaderIR.Lowering

open Binary (Op Id Inst results firstIds firstIds_succ Closed)

variable {p : Program} {known : LocatedMethod → Prop} {s : Session} {held : List UInt32}

theorem Declarations.Sound.withFresh {d : Declarations} (hd : d.Sound) :
    Declarations.Sound { d with issued := d.issued + 1 } := by
  have hids : (firstIds d.issued).Sublist (firstIds (d.issued + 1)) := by
    rw [firstIds_succ]
    exact List.sublist_append_left _ _
  exact ⟨hd.shared, hd.closed, hd.forms, hd.interned, hd.keys, hd.ordered.trans hids⟩

theorem lands_fresh (hs : s.Sound p known held) :
    Lands p known fresh s fun id t => t.Sound p known (id.val :: held) := by
  refine ⟨⟨List.prefix_rfl, List.prefix_rfl, .refl _, .refl _⟩, ?_⟩
  refine hs.withDeclarations hs.declarations.withFresh (List.Subset.refl s.code) hs.structs
    (fun _ hi => .inl hi) ?_
  intro x
  change (results s.code).count x + (UInt32.ofNat (s.declarations.issued + 1) :: held).count x +
    (firstIds s.declarations.issued).count x = (results s.code).count x + held.count x +
      (firstIds (s.declarations.issued + 1)).count x
  rw [firstIds_succ, List.count_append, List.count_cons, List.count_singleton]
  omega

/-- The declaration defines its id and refers to ids that `code` defines. -/
structure DeclarationKey.Valid (k : DeclarationKey) (code : List Inst) : Prop where
  form : ∀ id, Declares (k.inst id)
  result : ∀ id, (k.inst id).result? = some id.val
  uses : ∀ id, ∀ x ∈ (k.inst id).uses, x ∈ results code
  declaration : ∀ id, declaration? (k.inst id) = some (k, id)

/-- The id that is handed out next. -/
def Declarations.nextId (d : Declarations) : Id :=
  ⟨UInt32.ofNat (d.issued + 1)⟩

theorem Declarations.Sound.push {d : Declarations} (hd : d.Sound)
    (shared : List (DeclarationKey × Id)) {k : DeclarationKey} (hk : k.Valid d.code.toList)
    (hshared : shared.reverse = d.shared.reverse ++
      (sharedDeclaration? (k.inst d.nextId)).toList) (hkeys : (shared.map Prod.fst).Nodup) :
    Declarations.Sound ⟨d.issued + 1, shared, d.code.push (k.inst d.nextId)⟩ where
  shared := by
    intro e he
    rw [← List.mem_reverse, hshared, List.mem_append, List.mem_reverse] at he
    rcases he with he | he
    · simp [hd.shared e he]
    · have hdeclaration := hk.declaration d.nextId
      unfold sharedDeclaration? at he
      split at he
      · simp at he
      · rw [hdeclaration, Option.toList_some, List.mem_singleton] at he
        simp [he]
  closed := by
    rw [Array.toList_push, Binary.closed_append]
    refine ⟨hd.closed, fun x hx => ?_, trivial⟩
    simpa using hk.uses d.nextId x hx
  forms := by
    intro i hi
    rw [Array.toList_push, List.mem_append, List.mem_singleton] at hi
    rcases hi with hi | rfl
    · exact hd.forms i hi
    · exact hk.form d.nextId
  interned := by
    rw [hshared, hd.interned, Array.toList_push, List.filterMap_append]
    cases h : sharedDeclaration? (k.inst d.nextId) <;> simp [h]
  keys := hkeys
  ordered := by
    have hresult : results [k.inst d.nextId] = [UInt32.ofNat (d.issued + 1)] := by
      simp [hk.result, nextId]
    rw [Array.toList_push, Binary.results_append, hresult, firstIds_succ]
    exact hd.ordered.append_right _

/-- The ids of the declarations after one more. -/
theorem count_push {d : Declarations} {k : DeclarationKey} (hk : k.Valid d.code.toList)
    (held : List UInt32) (x : UInt32) :
    (results (d.code.push (k.inst d.nextId)).toList).count x + held.count x +
        (firstIds d.issued).count x =
      (results d.code.toList).count x + held.count x + (firstIds (d.issued + 1)).count x := by
  rw [Array.toList_push, Binary.results_append, Binary.results_cons, hk.result, firstIds_succ]
  simp only [Declarations.nextId, Binary.results_nil, Option.toList_some, List.append_nil,
    List.count_append]
  omega

/-- A new declaration of anything but a struct. -/
theorem Session.Sound.push (hs : s.Sound p known held) {k : DeclarationKey} (hk : k.Valid s.code)
    (hv : ∀ id, s.Values known (k.inst id)) (hop : k.op ≠ .typeStruct)
    (hnew : s.declarations.shared.lookup k = none) :
    ({ s with
      declarations := ⟨s.declarations.issued + 1,
        (k, s.declarations.nextId) :: s.declarations.shared,
        s.declarations.code.push (k.inst s.declarations.nextId)⟩ } : Session).Sound p known
      held := by
  have hshared : sharedDeclaration? (k.inst s.declarations.nextId) =
      some (k, s.declarations.nextId) := by
    rw [sharedDeclaration?, if_neg (show (k.inst _).op ≠ .typeStruct from hop)]
    exact hk.declaration _
  have hkeys : (((k, s.declarations.nextId) :: s.declarations.shared).map Prod.fst).Nodup := by
    rw [List.map_cons, List.nodup_cons]
    refine ⟨fun hmem => ?_, hs.declarations.keys⟩
    obtain ⟨e, he, hek⟩ := List.mem_map.mp hmem
    have hne := List.lookup_eq_none_iff.mp hnew e he
    simp [hek] at hne
  have hd := hs.declarations.push ((k, s.declarations.nextId) :: s.declarations.shared) hk
    (by rw [hshared, List.reverse_cons, Option.toList_some]) hkeys
  refine hs.withDeclarations hd ?_ ?_ ?_ (count_push hk held)
  · intro i hi
    rw [Array.toList_push]
    exact List.mem_append_left _ hi
  · have hfilter : (s.declarations.code.push (k.inst s.declarations.nextId)).toList.filter
        (fun i => i.op = .typeStruct) = s.code.filter fun i => i.op = .typeStruct := by
      simp [Session.code, DeclarationKey.inst, hop]
    unfold StructsOwned DeclaresStructs
    rw [hfilter]
    exact hs.structs
  · intro i hi
    rw [Array.toList_push, List.mem_append, List.mem_singleton] at hi
    refine hi.imp_right ?_
    rintro rfl
    exact hv _

theorem Session.grows_push (s : Session) (shared : List (DeclarationKey × Id)) (n : Nat)
    (i : Inst) :
    s.Grows { s with declarations := ⟨n, shared, s.declarations.code.push i⟩ } where
  code := ⟨[i], by simp [Session.code]⟩
  functionList := List.prefix_rfl
  types := .refl _
  functions := .refl _

theorem intern_run (k : DeclarationKey) (d : Declarations) :
    (Declarations.intern k).run d =
      match d.shared.lookup k with
      | some id => (id, d)
      | none =>
        (⟨UInt32.ofNat (d.issued + 1)⟩,
          ⟨d.issued + 1, (k, ⟨UInt32.ofNat (d.issued + 1)⟩) :: d.shared,
            d.code.push (k.inst ⟨UInt32.ofNat (d.issued + 1)⟩)⟩) := by
  change (match d.shared.lookup k with
    | some id => (pure id : Declarations.M Id)
    | none => do
      let id ← Declarations.fresh
      modify fun d : Declarations =>
        { d with shared := (k, id) :: d.shared, code := d.code.push (k.inst id) }
      return id).run d = _
  cases d.shared.lookup k <;> rfl

theorem lands_intern (hs : s.Sound p known held) {k : DeclarationKey} (hk : k.Valid s.code)
    (hv : ∀ id, s.Values known (k.inst id)) (hop : k.op ≠ .typeStruct) :
    Lands p known (declaring (Declarations.intern k)) s fun id t =>
      t.Sound p known held ∧ k.inst id ∈ t.code := by
  have ho : (declaring (Declarations.intern k)).outcome s =
      (.ok ((Declarations.intern k).run s.declarations).1,
        { s with declarations := ((Declarations.intern k).run s.declarations).2 }) := rfl
  unfold Lands Walk.Ends
  rw [ho, intern_run]
  cases h : s.declarations.shared.lookup k with
  | some id =>
    obtain ⟨l, l', hl, _⟩ := List.lookup_eq_some_iff.mp h
    exact ⟨.refl s, hs, hs.declarations.shared (k, id) (by simp [hl])⟩
  | none => exact ⟨s.grows_push _ _ _, hs.push hk hv hop h, by simp [Session.code]⟩

theorem valid_pointer {t : LoweredType} {code : List Inst} (ht : t.Declared code) :
    DeclarationKey.Valid ⟨.typePointer, none, [7, t.id.val]⟩ code := by
  refine ⟨fun id => .pointer _ _, fun id => rfl, ?_, fun id => rfl⟩
  intro id x hx
  have he : x = t.id.val := by
    simpa [DeclarationKey.inst, Inst.uses, Op.layout, Binary.idsOfLayout] using hx
  exact he ▸ ht.id_mem

theorem valid_constant {t : LoweredType} {code : List Inst} (ht : t.Declared code)
    (bits : UInt32) : DeclarationKey.Valid ⟨.constant, some t.id, [bits]⟩ code := by
  refine ⟨fun id => .constant _ _ _, fun id => rfl, ?_, fun id => rfl⟩
  intro id x hx
  have he : x = t.id.val := by
    simpa [DeclarationKey.inst, Inst.uses, Op.layout, Binary.idsOfLayout] using hx
  exact he ▸ ht.id_mem

theorem valid_function {returnType : LoweredType} {parameters : List LoweredType}
    {code : List Inst} (hr : returnType.Declared code)
    (hp : ∀ t ∈ parameters, t.Declared code) :
    DeclarationKey.Valid
      ⟨.typeFunction, none, returnType.id.val :: parameters.map fun t => t.id.val⟩ code := by
  refine ⟨fun id => .function _ _ _, fun id => rfl, ?_, fun id => rfl⟩
  intro id x hx
  have hx' : x = returnType.id.val ∨ ∃ t ∈ parameters, t.id.val = x := by
    simpa [DeclarationKey.inst, Inst.uses, Op.layout, Binary.idsOfLayout] using hx
  rcases hx' with rfl | ⟨t, ht, rfl⟩
  · exact hr.id_mem
  · exact (hp t ht).id_mem

theorem valid_shape {shape : Shape LoweredType} {code : List Inst}
    (hp : ∀ part ∈ shape.parts, part.Declared code) (hf : ∀ id, Declares (shape.key.inst id)) :
    shape.key.Valid code := by
  refine ⟨hf, shape.key_result, ?_, shape.key_declaration⟩
  intro id x hx
  rw [shape.key_uses] at hx
  obtain ⟨t, ht, rfl⟩ := List.mem_map.mp hx
  exact (hp t ht).id_mem

/-- A declaration about values of the given types. -/
theorem Session.values_of_map {i : Inst} (types : List LoweredType)
    (hi : valueTypes i = types.map fun t => t.id.val) (ht : ∀ t ∈ types, s.Carries known t) :
    s.Values known i := by
  intro x hx
  rw [hi] at hx
  obtain ⟨t, hmem, rfl⟩ := List.mem_map.mp hx
  exact ⟨t, rfl, ht t hmem⟩

theorem Shape.valueTypes_key (shape : Shape LoweredType) (id : Id) :
    valueTypes (shape.key.inst id) = shape.parts.map fun t => t.id.val := by
  cases shape <;> rfl

theorem lands_pointer (hs : s.Sound p known held) {t : LoweredType} (ht : s.Carries known t) :
    Lands p known (declaring (Declarations.pointer t)) s fun id u =>
      u.Sound p known held ∧ pointerInst id t.id ∈ u.code :=
  lands_intern hs (valid_pointer ht.declared)
    (fun _ => Session.values_of_map [t] rfl (by simpa using ht)) (by simp)

theorem lands_constant (hs : s.Sound p known held) {t : LoweredType} (ht : s.Carries known t)
    (bits : UInt32) :
    Lands p known (declaring (Declarations.constant t bits)) s fun id u =>
      u.Sound p known held ∧ constantInst t.id id bits ∈ u.code :=
  lands_intern hs (valid_constant ht.declared bits)
    (fun _ => Session.values_of_map [t] rfl (by simpa using ht)) (by simp)

theorem lands_shape (hs : s.Sound p known held) {shape : Shape LoweredType}
    (hp : ∀ part ∈ shape.parts, s.Carries known part)
    (hf : ∀ id, Declares (shape.key.inst id)) (hop : shape.key.op ≠ .typeStruct) (name : String) :
    Lands p known
      (do return (⟨← declaring (Declarations.intern shape.key), name, shape⟩ : LoweredType)) s
      fun t u => u.Sound p known held ∧ t.Declared u.code ∧ t.shape = shape := by
  have hdeclared : ∀ part ∈ shape.parts, part.Declared s.code := fun part h => (hp part h).declared
  refine (lands_intern hs (valid_shape hdeclared hf)
    (fun id => Session.values_of_map shape.parts (shape.valueTypes_key id) hp) hop).bind ?_
  rintro id u hg ⟨hu, hk⟩
  exact lands_pure ⟨hu, ⟨hk, fun part h => (hdeclared part h).mono hg.code.subset⟩, rfl⟩

theorem lands_log (hs : s.Sound p known held) (e : LogEntry) :
    Lands p known (log e) s fun _ t => t.Sound p known held ∧ t.code = s.code ∧
      t.functionList = s.functionList :=
  ⟨.withJournal s _, hs.withJournal _, rfl, rfl⟩

theorem lands_ofIr (hs : s.Sound p known held) {α : Type} (r : Except IrError α) :
    Lands p known (ofIr r) s fun a t => r = .ok a ∧ t.Sound p known held := by
  cases r with
  | ok a => exact lands_pure ⟨rfl, hs⟩
  | error e => exact lands_fail hs _

theorem lands_note (hs : s.Sound p known held) (f : Session → Journal) :
    Lands p known (modify fun t => { t with journal := f t } : M PUnit) s
      fun _ t => t.Sound p known held :=
  lands_modify (.withJournal s _) (hs.withJournal _)

theorem lands_construct (hs : s.Sound p known held) (ty : Ty) :
    Lands p known (construct p ty) s fun i t =>
      p.construct ty = .ok i ∧ t.Sound p known held := by
  refine (lands_note hs fun t => t.journal.afterConstruct p ty).bind ?_
  intro _ t _ ht
  exact lands_ofIr ht _

theorem lands_resolve (hs : s.Sound p known held) (r : MethodRef) :
    Lands p known (resolve p r) s fun i t => p.resolve r = .ok i ∧ t.Sound p known held := by
  refine (lands_note hs fun t => t.journal.afterResolve p r).bind ?_
  intro _ t _ ht
  exact lands_ofIr ht _

theorem once_outcome {κ ι ν : Type} [DecidableEq ι] (table : Table κ ι ν) (key : ι)
    (build : Pass κ ν) (s : Session κ) :
    (once table key build).outcome s =
      match (table.get s).claim key with
      | .found v => (.ok v, s)
      | .reentrant => (.error (.failed .cyclic), s)
      | .granted claimed =>
        match build.outcome (table.set s claimed) with
        | (.ok v, t) => (.ok v, table.set t ((table.get t).set key (.ready v)))
        | (.error e, t) => (.error e, table.set t ((table.get t).erase key)) := by
  unfold once
  rw [Walk.outcome_bind]
  simp only [claim, Walk.outcome, pure]
  cases (table.get s).claim key with
  | found v => rfl
  | reentrant => rfl
  | granted claimed =>
    dsimp only
    rw [Walk.outcome_tryCatch, Walk.outcome_bind]
    rcases build.outcome (table.set s claimed) with ⟨e | v, t⟩ <;> rfl

/-- An entry is found, or built while it is claimed. -/
theorem lands_once {ι ν : Type} [DecidableEq ι] {table : Table MethodId ι ν} {key : ι} {build : M ν}
    {post : ν → Session → Prop} (hs : s.Sound p known held)
    (hfound : ∀ v, (table.get s).get? key = some v → post v s)
    (hbuild : ∀ claimed, (table.get s).claim key = .granted claimed →
      build.Ends (table.set s claimed)
        (fun v t => s.Grows (table.set t ((table.get t).set key (.ready v))) ∧
          post v (table.set t ((table.get t).set key (.ready v))))
        (fun _ t => s.Grows (table.set t ((table.get t).erase key)) ∧
          ∃ lost, (table.set t ((table.get t).erase key)).Sound p known lost)) :
    Lands p known (once table key build) s post := by
  unfold Lands Walk.Ends
  rw [once_outcome]
  cases hc : (table.get s).claim key with
  | found v => exact ⟨.refl s, hfound v (OnceMap.claim_found hc)⟩
  | reentrant => exact ⟨.refl s, held, hs⟩
  | granted claimed =>
    have hh := hbuild claimed hc
    unfold Walk.Ends at hh
    dsimp only
    rcases hr : build.outcome (table.set s claimed) with ⟨e | v, t⟩ <;> rw [hr] at hh <;> exact hh

/-- A type is lowered once. While it is being lowered its cell is open; what its declaration needs
is said of the session in which the cell is settled. -/
theorem lands_once_types (hs : s.Sound p known held) {ty : Ty} {build : M LoweredType}
    (hb : ∀ t, t.Sound p known held → t.types.cell? ty = some .building →
      Lands p known build t fun v u => (u.settle ty v).Sound p known held) :
    Lands p known (once .types ty build) s fun v u => u.Sound p known held ∧ u.Lowered ty v := by
  refine lands_once hs (fun v hv => ⟨hs, hv⟩) ?_
  intro claimed hc
  have hs' : (Table.types.set s claimed).Sound p known held :=
    hs.withTypes (OnceMap.get?_claimed hc)
  have hopen : (Table.types.set s claimed).types.cell? ty = some .building := by
    obtain ⟨rfl, _, _⟩ := OnceMap.claim_granted hc
    simp [Table.types]
  refine Walk.Ends.mono (hb _ hs' hopen) ?_ ?_
  · rintro v t ⟨hg, ht⟩
    refine ⟨⟨hg.code, hg.functionList, ?_, hg.functions⟩, ht, OnceMap.get?_set_ready _ _ _⟩
    exact OnceMap.Grows.settle hc hg.types (some (.ready v)) (by simp) (by simp [Table.types])
  · rintro _ t ⟨hg, lost, ht⟩
    have hopen' := (hg.types.building ty).mp hopen
    refine ⟨⟨hg.code, hg.functionList, ?_, hg.functions⟩, lost,
      ht.withTypes (OnceMap.get?_erase_of_building hopen')⟩
    exact OnceMap.Grows.settle hc hg.types none (by simp) (by simp [Table.types])

theorem lands_once_functions (hs : s.Sound p known held) {id : MethodId} {build : M Function}
    (hb : ∀ t, t.Sound p known held → Lands p known build t fun f u =>
      u.Sound p known held ∧ f ∈ u.functionList ∧ f.method.id = id) :
    Lands p known (once .functions id build) s fun f u =>
      u.Sound p known held ∧ f ∈ u.functionList ∧ f.method.id = id := by
  refine lands_once hs (fun f hf => ⟨hs, hs.functions id f hf⟩) ?_
  intro claimed hc
  have hs' : (Table.functions.set s claimed).Sound p known held :=
    hs.withFunctions fun id' f hf => hs.functions id' f (OnceMap.get?_of_claimed hc hf)
  refine Walk.Ends.mono (hb _ hs') ?_ ?_
  · rintro f t ⟨hg, ht, hf⟩
    refine ⟨⟨hg.code, hg.functionList, hg.types, ?_⟩, ht.withFunctions ?_, hf⟩
    · exact OnceMap.Grows.settle hc hg.functions (some (.ready f)) (by simp)
        (by simp [Table.functions])
    · intro id' f' hf'
      rcases OnceMap.get?_of_set_ready hf' with ⟨rfl, rfl⟩ | hf'
      · exact hf
      · exact ht.functions id' f' hf'
  · rintro _ t ⟨hg, lost, ht⟩
    refine ⟨⟨hg.code, hg.functionList, hg.types, ?_⟩, lost, ht.withFunctions ?_⟩
    · exact OnceMap.Grows.settle hc hg.functions none (by simp) (by simp [Table.functions])
    · intro id' f' hf'
      exact ht.functions id' f' (OnceMap.get?_of_erase hf')

end ShaderIR.Lowering
