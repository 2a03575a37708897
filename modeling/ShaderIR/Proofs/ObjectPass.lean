import ShaderIR.Proofs.LoweringRequests

/-! Compilation by objects comes to the same as compilation by identities. A known identity has one
object and no object has two, so a function is found under the object of a method just when it is
found under its identity. -/

namespace ShaderIR.Lowering

variable {α β : Type} {s : Session} {t : Session MethodObject}

/-- The sessions differ only in what they keep functions by: the object of an identity has the cell
that the identity has. -/
structure Session.Agrees (s : Session) (t : Session MethodObject) : Prop where
  unkeyed : s.unkeyed = t.unkeyed
  cells : ∀ id, t.journal.heap.Knows id →
    t.functions.cell? (t.journal.heap.objectOf id) = s.functions.cell? id
  known : ∀ id, s.functions.cell? id ≠ none → t.journal.heap.Knows id
  objects : ∀ object, t.functions.cell? object ≠ none →
    ∃ id, t.journal.heap.Knows id ∧ object = t.journal.heap.objectOf id

namespace Session.Agrees

theorem fresh (journal : Journal) : Session.Agrees { journal } { journal } where
  unkeyed := rfl
  cells := fun _ _ => rfl
  known := fun _ h => absurd rfl h
  objects := fun _ h => absurd rfl h

/-- An identity that becomes known has no cell yet, and neither has its object: any object with a
cell is that of another identity. -/
theorem grow (h : s.Agrees t) {s' : Session} {t' : Session MethodObject}
    (hs : s'.functions = s.functions) (ht : t'.functions = t.functions)
    (hunkeyed : s'.unkeyed = t'.unkeyed) (hgrows : t.journal.heap.Grows t'.journal.heap) :
    s'.Agrees t' := by
  refine ⟨hunkeyed, fun id hid => ?_, fun id hid => ?_, fun object hobject => ?_⟩
  · rw [hs, ht]
    by_cases hknown : t.journal.heap.Knows id
    · rw [hknown.objectOf_grows hgrows]
      exact h.cells id hknown
    · have hnone : s.functions.cell? id = none := by
        by_contra hcell
        exact hknown (h.known id hcell)
      rw [hnone]
      by_contra hcell
      obtain ⟨id', hknown', hobject⟩ := h.objects _ hcell
      rw [← hknown'.objectOf_grows hgrows] at hobject
      obtain rfl := hid.eq_of_objectOf_eq (hknown'.grows hgrows) hobject
      exact hknown hknown'
  · exact (h.known id (hs ▸ hid)).grows hgrows
  · obtain ⟨id, hid, rfl⟩ := h.objects object (ht ▸ hobject)
    exact ⟨id, hid.grows hgrows, (hid.objectOf_grows hgrows).symm⟩

theorem quiet (h : s.Agrees t) {s' : Session} {t' : Session MethodObject} (hs : s.Quiet s')
    (ht : t.Quiet t') (hunkeyed : s'.unkeyed = t'.unkeyed) : s'.Agrees t' :=
  h.grow hs.functions ht.functions hunkeyed ht.heap

/-- The cells of an identity and of its object change in the same way. -/
theorem setFunction (h : s.Agrees t) {id : MethodId} {object : MethodObject}
    (hid : t.journal.heap.Knows id) (hobject : object = t.journal.heap.objectOf id)
    {cell : Option (Cell Function)} {functions : OnceMap MethodId Function}
    {functions' : OnceMap MethodObject Function}
    (hs : ∀ k, functions.cell? k = if k = id then cell else s.functions.cell? k)
    (ht : ∀ k, functions'.cell? k = if k = object then cell else t.functions.cell? k) :
    ({ s with functions } : Session).Agrees { t with functions := functions' } := by
  refine ⟨h.unkeyed, fun k hk => ?_, fun k hk => ?_, fun k hk => ?_⟩
  · rw [hs, ht, hobject]
    by_cases he : k = id
    · simp [he]
    · have hne : t.journal.heap.objectOf k ≠ t.journal.heap.objectOf id :=
        fun h => he (hk.eq_of_objectOf_eq hid h)
      rw [if_neg he, if_neg hne]
      exact h.cells k hk
  · by_cases he : k = id
    · exact he ▸ hid
    · exact h.known k (by simpa [hs, he] using hk)
  · by_cases he : k = object
    · exact ⟨id, hid, he.trans hobject⟩
    · exact h.objects k (by simpa [ht, he] using hk)

end Session.Agrees

/-- From the two sessions the computations end alike, and in sessions that agree. -/
def Follows (w : M α) (w' : Pass MethodObject α) (post : α → Prop) (s : Session)
    (t : Session MethodObject) : Prop :=
  w.Ends s
    (fun a u => post a ∧ ∃ v, w'.outcome t = (.ok a, v) ∧ u.Agrees v ∧
      t.journal.heap.Grows v.journal.heap)
    (fun e u => ∃ v, w'.outcome t = (.error e, v) ∧ u.Agrees v ∧
      t.journal.heap.Grows v.journal.heap)

section Sequencing

variable {w : M α} {w' : Pass MethodObject α} {post : α → Prop}

theorem Follows.bind {f : α → M β} {f' : α → Pass MethodObject β} {post' : β → Prop}
    (h : Follows w w' post s t)
    (hf : ∀ a u v, post a → u.Agrees v → t.journal.heap.Grows v.journal.heap →
      Follows (f a) (f' a) post' u v) : Follows (w >>= f) (w' >>= f') post' s t := by
  refine Walk.Ends.bind (Walk.Ends.mono h ?_ ?_)
  · rintro a u ⟨ha, v, hv, huv, hgrows⟩
    refine Walk.Ends.mono (hf a u v ha huv hgrows) ?_ ?_
    · rintro b u' ⟨hb, v', hv', huv', hgrows'⟩
      exact ⟨hb, v', by rw [Walk.outcome_bind, hv]; exact hv', huv', hgrows.trans hgrows'⟩
    · rintro e u' ⟨v', hv', huv', hgrows'⟩
      exact ⟨v', by rw [Walk.outcome_bind, hv]; exact hv', huv', hgrows.trans hgrows'⟩
  · rintro e u ⟨v, hv, huv, hgrows⟩
    exact ⟨v, by rw [Walk.outcome_bind, hv], huv, hgrows⟩

theorem Alike.follows (h : Alike post w w') (hst : s.Agrees t) : Follows w w' post s t := by
  refine Walk.Ends.mono (h.ends hst.unkeyed) ?_ ?_
  · rintro a u ⟨hsu, ha, v, hv, htv, huv⟩
    exact ⟨ha, v, hv, hst.quiet hsu htv huv, htv.heap⟩
  · rintro e u ⟨hsu, _, v, hv, htv, huv⟩
    exact ⟨v, hv, hst.quiet hsu htv huv, htv.heap⟩

theorem Follows.outcome (h : Follows w w' post s t) :
    (w'.outcome t).1 = (w.outcome s).1 ∧ (w.outcome s).2.Agrees (w'.outcome t).2 := by
  unfold Follows Walk.Ends at h
  rcases ho : w.outcome s with ⟨e | a, u⟩ <;> rw [ho] at h
  · obtain ⟨v, hv, huv, -⟩ := h
    rw [hv]
    exact ⟨rfl, huv⟩
  · obtain ⟨-, v, hv, huv, -⟩ := h
    rw [hv]
    exact ⟨rfl, huv⟩

theorem Follows.grows (h : Follows w w' post s t) :
    t.journal.heap.Grows (w'.outcome t).2.journal.heap := by
  unfold Follows Walk.Ends at h
  rcases ho : w.outcome s with ⟨e | a, u⟩ <;> rw [ho] at h
  · obtain ⟨v, hv, -, hgrows⟩ := h
    rwa [hv]
  · obtain ⟨-, v, hv, -, hgrows⟩ := h
    rwa [hv]

end Sequencing

/-- The comparison of a pass by identities with one by objects. -/
def followed : Comparison MethodId MethodObject where
  Holds w w' post := ∀ s t, s.Agrees t → Follows w w' post s t
  alike h _ _ hst := h.follows hst
  bind h hf s t hst := (h s t hst).bind fun a u v ha huv _ => hf a ha u v huv

/-! Entries. -/

/-- An entry is found on both sides, or built on both sides while it is claimed. -/
theorem follows_once {ι ι' ν : Type} [DecidableEq ι] [DecidableEq ι'] {table : Table MethodId ι ν}
    {table' : Table MethodObject ι' ν} {key : ι} {key' : ι'} {build : M ν}
    {build' : Pass MethodObject ν} (hst : s.Agrees t)
    (hjournal : ∀ v cells, (table'.set v cells).journal = v.journal)
    (hcell : (table'.get t).cell? key' = (table.get s).cell? key)
    (hset : ∀ u v cell, u.Agrees v → t.journal.heap.Grows v.journal.heap →
      (table.set u ((table.get u).set key cell)).Agrees
        (table'.set v ((table'.get v).set key' cell)))
    (herase : ∀ u v, u.Agrees v → t.journal.heap.Grows v.journal.heap →
      (table.set u ((table.get u).erase key)).Agrees (table'.set v ((table'.get v).erase key')))
    (hbuild : followed.Compares build build') :
    Follows (once table key build) (once table' key' build') (fun _ => True) s t := by
  have hends := hbuild _ _ (hset s t .building hst (.refl _))
  unfold Follows Walk.Ends at hends
  rw [hjournal] at hends
  have hgranted : (table.get s).claim key = .granted ((table.get s).set key .building) →
      (table'.get t).claim key' = .granted ((table'.get t).set key' .building) →
      Follows (once table key build) (once table' key' build') (fun _ => True) s t := by
    intro hs ht
    unfold Follows Walk.Ends
    rw [once_outcome, once_outcome, hs, ht]
    dsimp only
    rcases ho : build.outcome (table.set s ((table.get s).set key .building)) with ⟨e | a, u⟩ <;>
      rw [ho] at hends
    · obtain ⟨v, hv, huv, hgrows⟩ := hends
      rw [hv]
      exact ⟨_, rfl, herase u v huv hgrows, by rwa [hjournal]⟩
    · obtain ⟨_, v, hv, huv, hgrows⟩ := hends
      rw [hv]
      exact ⟨trivial, _, rfl, hset u v _ huv hgrows, by rwa [hjournal]⟩
  rcases hc : (table.get s).cell? key with _ | _ | _ | value
  · exact hgranted (by simp [OnceMap.claim, hc]) (by simp [OnceMap.claim, hcell, hc])
  · exact hgranted (by simp [OnceMap.claim, hc]) (by simp [OnceMap.claim, hcell, hc])
  · have hs : (table.get s).claim key = .reentrant := by simp [OnceMap.claim, hc]
    have ht : (table'.get t).claim key' = .reentrant := by simp [OnceMap.claim, hcell, hc]
    unfold Follows Walk.Ends
    rw [once_outcome, once_outcome, hs, ht]
    exact ⟨t, rfl, hst, .refl _⟩
  · have hs : (table.get s).claim key = .found value := by simp [OnceMap.claim, hc]
    have ht : (table'.get t).claim key' = .found value := by simp [OnceMap.claim, hcell, hc]
    unfold Follows Walk.Ends
    rw [once_outcome, once_outcome, hs, ht]
    exact ⟨trivial, t, rfl, hst, .refl _⟩

theorem follows_once_types {ty : Ty} {build : M LoweredType}
    {build' : Pass MethodObject LoweredType} (hbuild : followed.Compares build build') :
    followed.Compares (once .types ty build) (once .types ty build') := by
  intro s t hst
  have htypes : ∀ {u : Session} {v : Session MethodObject}, u.Agrees v → v.types = u.types :=
    fun huv => (congrArg Session.types huv.unkeyed).symm
  -- a change of the types goes with the same change on the other side
  have hchange : ∀ {u : Session} {v : Session MethodObject} (types : OnceMap Ty LoweredType),
      u.Agrees v → ({ u with types } : Session).Agrees { v with types } := fun types huv =>
    huv.grow rfl rfl (congrArg (fun x : Session Empty => { x with types }) huv.unkeyed) (.refl _)
  refine follows_once hst (fun _ _ => rfl) ?_ (fun u v cell huv _ => ?_) (fun u v huv _ => ?_)
    hbuild
  · exact congrArg (OnceMap.cell? · ty) (htypes hst)
  · simp only [Table.types, htypes huv]
    exact hchange _ huv
  · simp only [Table.types, htypes huv]
    exact hchange _ huv

theorem follows_once_functions {id : MethodId} {object : MethodObject} {build : M Function}
    {build' : Pass MethodObject Function} (hbuild : followed.Compares build build')
    (hst : s.Agrees t) (hid : t.journal.heap.Knows id)
    (hobject : object = t.journal.heap.objectOf id) :
    Follows (once .functions id build) (once .functions object build') (fun _ => True) s t := by
  have hlater : ∀ {v : Session MethodObject}, t.journal.heap.Grows v.journal.heap →
      v.journal.heap.Knows id ∧ object = v.journal.heap.objectOf id := fun hgrows =>
    ⟨hid.grows hgrows, hobject.trans (hid.objectOf_grows hgrows).symm⟩
  refine follows_once hst (fun _ _ => rfl) (hobject ▸ hst.cells id hid)
    (fun u v cell huv hgrows => ?_) (fun u v huv hgrows => ?_) hbuild
  · exact huv.setFunction (hlater hgrows).1 (hlater hgrows).2
      (OnceMap.cell?_set u.functions id · cell) (OnceMap.cell?_set v.functions object · cell)
  · exact huv.setFunction (hlater hgrows).1 (hlater hgrows).2
      (OnceMap.cell?_erase u.functions id) (OnceMap.cell?_erase v.functions object)

theorem follows_lowerType (p : Program) (depth : Nat) (ty : Ty) :
    followed.Compares (lowerType p depth ty) (lowerType p depth ty) := by
  induction depth generalizing ty with
  | zero => exact followed.yields (yields_throw (by simp))
  | succ depth ih =>
    rw [lowerType, lowerType]
    split
    · exact followed.yields (yields_fail (by simp))
    · exact follows_once_types (followed.buildType fun _ _ member _ => ih member)

theorem follows_publish (f : Function) : followed.Compares (publish f) (publish f) := by
  intro s t hst
  let entered (u : Session Empty) : Session Empty := ((publish f).outcome u).2
  have hs : ((publish f).outcome s).2.unkeyed = entered s.unkeyed := by
    simp only [entered, publish]
    cases f.method.method.kernelSize? <;> rfl
  have ht : ((publish f).outcome t).2.unkeyed = entered t.unkeyed := by
    simp only [entered, publish]
    cases f.method.method.kernelSize? <;> rfl
  have hunkeyed : ((publish f).outcome s).2.unkeyed = ((publish f).outcome t).2.unkeyed := by
    rw [hs, ht, hst.unkeyed]
  unfold publish at hunkeyed ⊢
  cases hkernel : f.method.method.kernelSize? with
  | none =>
    rw [hkernel] at hunkeyed
    exact ⟨trivial, _, rfl, hst.grow rfl rfl hunkeyed (.refl _), .refl _⟩
  | some size =>
    rw [hkernel] at hunkeyed
    exact ⟨trivial, _, rfl, hst.grow rfl rfl hunkeyed (.refl _), .refl _⟩

theorem outcome_resolve (p : Program) (r : MethodRef) (s : Session) :
    (resolve p r).outcome s =
      (ofIr (p.resolve r)).outcome { s with journal := s.journal.afterResolve p r } := rfl

theorem Objects.outcome_resolve (p : Program) (r : MethodRef) (t : Session MethodObject) :
    (resolve p r).outcome t = (ofIr (t.journal.heap.resolve p r).1).outcome
      { t with journal := t.journal.afterResolve p r } := rfl

/-- A reference resolves to an instance, and to the object of this instance. -/
theorem follows_callee {p : Program} {compile : LocatedMethod → M Function}
    {compile' : MethodObject → LocatedMethod → Pass MethodObject Function} {r : MethodRef}
    (hcompile : ∀ m object s t, s.Agrees t → t.journal.heap.Knows m.id →
      object = t.journal.heap.objectOf m.id →
      Follows (compile m) (compile' object m) (fun _ => True) s t) :
    followed.Compares (callee p compile r) (Objects.callee p compile' r) := by
  intro s t hst
  have hjournal : s.journal = t.journal := congrArg Session.journal hst.unkeyed
  have hgrows := Heap.grows_resolve t.journal.heap p r
  have hvalue := Heap.map_snd_resolve t.journal.heap p r
  let noted : Journal := t.journal.afterResolve p r
  have hnoted : ({ s with journal := noted } : Session).Agrees { t with journal := noted } :=
    hst.grow rfl rfl
      (congrArg (fun u : Session Empty => { u with journal := noted }) hst.unkeyed) hgrows
  unfold Follows Walk.Ends callee Objects.callee
  rw [Walk.outcome_bind, Walk.outcome_bind, outcome_resolve, Objects.outcome_resolve, hjournal]
  rcases hr : t.journal.heap.resolve p r with ⟨e | ⟨object, target⟩, h'⟩ <;> rw [hr] at hvalue
  · rw [← hvalue]
    exact ⟨_, rfl, hnoted, hgrows⟩
  · obtain ⟨hknows, hobject⟩ := Heap.resolve_ok hr
    have hheap : noted.heap = h' := congrArg Prod.snd hr
    rw [← hvalue]
    simp only [Except.map, ofIr, Walk.outcome_pure]
    cases hm : target.concrete? with
    | none => exact ⟨_, rfl, hnoted, hgrows⟩
    | some m =>
      obtain ⟨rfl, _⟩ := Program.eq_concrete_of_concrete? hm
      have hfollows := hcompile m object _ _ hnoted (hheap ▸ hknows) (hheap ▸ hobject)
      refine Walk.Ends.mono hfollows ?_ ?_
      · rintro f u ⟨_, v, hv, huv, hgrows'⟩
        exact ⟨trivial, v, hv, huv, hgrows.trans hgrows'⟩
      · rintro e u ⟨v, hv, huv, hgrows'⟩
        exact ⟨v, hv, huv, hgrows.trans hgrows'⟩

theorem follows_compileMethod (p : Program) (depth : Nat) (m : LocatedMethod)
    {object : MethodObject} (hst : s.Agrees t) (hm : t.journal.heap.Knows m.id)
    (hobject : object = t.journal.heap.objectOf m.id) :
    Follows (compileMethod p depth m) (Objects.compileMethod p depth object m) (fun _ => True)
      s t := by
  induction depth generalizing m object s t with
  | zero => exact ⟨t, rfl, hst, .refl _⟩
  | succ depth ih =>
    rw [compileMethod, Objects.compileMethod]
    refine follows_once_functions ?_ hst hm hobject
    refine followed.buildFunction followed.Compares (fun hw hf => followed.bind hw hf)
      (fun f _ _ => follows_publish f) (fun ty _ => follows_lowerType p depth ty) fun r _ => ?_
    exact follows_callee fun m _ _ _ hst hm hobject => ih m hst hm hobject

/-! Requests. -/

theorem follows_compileInstance (p : Program) (depth : Nat) {object : MethodObject}
    {i : MethodInstance} (hst : s.Agrees t)
    (hi : ∀ m ∈ i.concrete?, t.journal.heap.Knows m.id ∧ object = t.journal.heap.objectOf m.id) :
    Follows (compileInstance p depth i) (Objects.compileInstance p depth object i) (fun _ => True)
      s t := by
  unfold compileInstance Objects.compileInstance
  cases hm : i.concrete? with
  | none => exact ⟨t, rfl, hst, .refl _⟩
  | some m =>
    obtain ⟨hknows, hobject⟩ := hi m hm
    exact follows_compileMethod p depth m hst hknows hobject

theorem follows_compileAll (p : Program) (depth : Nat) {ms : List LocatedMethod}
    (hms : ∀ m ∈ ms, m ∈ p.methods) :
    followed.Compares (compileAll p depth ms)
      (compileEach (Objects.compileDeclared p depth) ms) := by
  induction ms with
  | nil => exact followed.yields (inert_pure ())
  | cons m rest ih =>
    obtain ⟨hm, hrest⟩ := List.forall_mem_cons.mp hms
    obtain ⟨d, _, hm⟩ := List.mem_flatMap.mp hm
    obtain ⟨⟨method, index⟩, _, rfl⟩ := List.mem_map.mp hm
    have hhead : followed.Compares
        (compileMethod p depth ⟨⟨⟨[], d.fullName⟩, index, none, none⟩, method⟩)
        (Objects.compileDeclared p depth ⟨⟨⟨[], d.fullName⟩, index, none, none⟩, method⟩) :=
      fun s t hst => follows_compileMethod p depth _ hst (Heap.knows_declared _ _ index) rfl
    exact followed.bind hhead fun _ _ => ih hrest

theorem follows_assemble (p : Program) (options : Options) (skipped : List String) :
    followed.Compares (assemble p options skipped) (assemble p options skipped) := by
  intro s t hst
  have hstream : t.stream options = s.stream options :=
    (congrArg (Session.stream · options) hst.unkeyed).symm
  have hbound : t.declarations.bound = s.declarations.bound :=
    (congrArg (fun u : Session Empty => u.declarations.bound) hst.unkeyed).symm
  have hsize : t.order.size = s.order.size :=
    (congrArg (fun u : Session Empty => u.order.size) hst.unkeyed).symm
  unfold Follows Walk.Ends
  rw [outcome_assemble, outcome_assemble, hstream, hbound, hsize]
  cases (s.stream options).check with
  | error e => exact ⟨t, rfl, hst, .refl _⟩
  | ok _ =>
    let summary := LogEntry.summary p.name s.order.size s.declarations.bound.toNat
      (s.stream options).bytes.length
    refine ⟨trivial, _, rfl, hst.grow rfl rfl ?_ (.refl _), .refl _⟩
    exact congrArg (fun u : Session Empty => { u with journal := u.journal.record summary })
      hst.unkeyed

/-- A worker by itself compiles by objects what is compiled by identities. -/
theorem follows_compile (p : Program) (options : Options) {jobs : Nat} (schedule : Nat → Schedule)
    (halone : jobs ≤ 1 ∨ (p.methods.filter LocatedMethod.isConcrete).length ≤ 1) :
    followed.Compares (compile p options) (compileWith jobs schedule p options) := by
  have hmethods : ∀ m ∈ p.methods.filter LocatedMethod.isConcrete, m ∈ p.methods :=
    fun m hm => (List.mem_filter.mp hm).1
  refine followed.bind (followed.yields (yields_validate p depthLimit)) fun _ _ => ?_
  refine followed.bind (followed.yields (yields_skipGeneric p.methods)) fun skipped _ => ?_
  dsimp only
  rw [if_pos halone]
  exact followed.bind (follows_compileAll p depthLimit hmethods) fun _ _ =>
    follows_assemble p options skipped

/-- In a fresh session both passes write the same module or fail alike, and what one of them keeps
under an identity the other keeps under its object. -/
theorem compileWith_agrees (p : Program) (options : Options) {jobs : Nat}
    (schedule : Nat → Schedule)
    (halone : jobs ≤ 1 ∨ (p.methods.filter LocatedMethod.isConcrete).length ≤ 1)
    (journal : Journal) :
    ((compileWith jobs schedule p options).outcome { journal }).1 =
        ((compile p options).outcome { journal }).1 ∧
      ((compile p options).outcome { journal }).2.Agrees
        ((compileWith jobs schedule p options).outcome { journal }).2 ∧
      journal.heap.Grows
        ((compileWith jobs schedule p options).outcome { journal }).2.journal.heap := by
  have hfollows := follows_compile p options schedule halone _ _ (.fresh journal)
  exact ⟨hfollows.outcome.1, hfollows.outcome.2, hfollows.grows⟩

/-- The sessions that the same requests lead to, by identities and by objects, whether they succeed
or fail. -/
inductive Session.Parallel (p : Program) : Session → Session MethodObject → Prop
  | empty : Parallel p {} {}
  | type {s : Session} {t : Session MethodObject} (h : Parallel p s t) (depth : Nat)
      (ty : Option Ty) :
      Parallel p ((lowerReturn (lowerType p depth) ty).outcome s).2
        ((lowerReturn (lowerType p depth) ty).outcome t).2
  | method {s : Session} {t : Session MethodObject} (h : Parallel p s t) (depth : Nat)
      (object : MethodObject) (i : MethodInstance)
      (hi : ∀ m ∈ i.concrete?,
        t.journal.heap.Knows m.id ∧ object = t.journal.heap.objectOf m.id) :
      Parallel p ((compileInstance p depth i).outcome s).2
        ((Objects.compileInstance p depth object i).outcome t).2
  | id {s : Session} {t : Session MethodObject} (h : Parallel p s t) :
      Parallel p (fresh.outcome s).2 (fresh.outcome t).2
  | module {s : Session} {t : Session MethodObject} (h : Parallel p s t) (options : Options) :
      Parallel p ((compile p options).outcome s).2
        ((compileWith 1 Schedule.inOrder p options).outcome t).2
  | journal {s : Session} {t : Session MethodObject} (h : Parallel p s t) (journal : Journal)
      (hj : t.journal.heap.Grows journal.heap) : Parallel p { s with journal } { t with journal }

theorem Session.Parallel.agrees {p : Program} (h : Session.Parallel p s t) : s.Agrees t := by
  induction h with
  | empty => exact .fresh {}
  | type _ depth ty ih =>
    have hlower := followed.lowerReturn fun t (_ : ty = some t) => follows_lowerType p depth t
    exact (hlower _ _ ih).outcome.2
  | method _ depth object i hi ih => exact (follows_compileInstance p depth ih hi).outcome.2
  | id _ ih => exact (followed.yields inert_fresh _ _ ih).outcome.2
  | module _ options ih =>
    exact (follows_compile p options Schedule.inOrder (.inl (le_refl 1)) _ _ ih).outcome.2
  | journal _ journal hj ih =>
    exact ih.grow rfl rfl
      (congrArg (fun u : Session Empty => { u with journal }) ih.unkeyed) hj

end ShaderIR.Lowering
