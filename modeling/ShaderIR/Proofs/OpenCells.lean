import ShaderIR.Proofs.Declaring
import ShaderIR.Proofs.LoweringRequests

/-! Cells under construction. A cell of a type is open while the cells of its members are asked
for, and a cell of a method while those of its callees are. So a request that meets an open cell has
gone round a cycle of members or of calls. -/

namespace ShaderIR.Lowering

open Relation (TransGen)

/-- Which types may be lowered, and that cycles are the only errors that need an excuse. -/
structure Admits (p : Program) (good : Ty → Prop) (allowed : Stop LoweringError → Prop) :
    Prop where
  plain : ∀ {e : Stop LoweringError}, e ≠ .failed .cyclic → allowed e
  member : ∀ {ty member : Ty}, good ty → p.Member ty member → good member
  requested : ∀ {m : LocatedMethod} {ty : Ty}, p.Reached m → m.method.Requests ty →
    ty.isGeneric = false → good ty
  typeCycle : ∀ {ty : Ty}, good ty → TransGen p.Member ty ty → allowed (.failed .cyclic)
  callCycle : ∀ {m : LocatedMethod}, p.Reached m → TransGen p.Calls m m →
    allowed (.failed .cyclic)

/-- The open cells of types and of methods, the types lowered so far, and the functions of the
session: each of a method that is needed, and each the entry of its method. -/
structure Session.Tracks (p : Program) (good : Ty → Prop) (opened : Ty → Prop)
    (running : MethodId → Prop) (s : Session) : Prop where
  opened : ∀ ty, s.types.cell? ty = some .building → opened ty
  lowered : ∀ ty t, s.types.get? ty = some t → good ty
  running : ∀ id, s.functions.cell? id = some .building ↔ running id
  listed : ∀ f ∈ s.order.toList, p.Reached f.method ∧ s.functions.get? f.method.id = some f
  distinct : (s.order.toList.map fun f => f.method.id).Nodup

/-- No cell is open. -/
abbrev Session.Rests (p : Program) (good : Ty → Prop) (s : Session) : Prop :=
  s.Tracks p good (fun _ => False) fun _ => False

variable {p : Program} {good : Ty → Prop} {allowed : Stop LoweringError → Prop}
variable {opened : Ty → Prop} {running : MethodId → Prop}

theorem Session.rests_empty (p : Program) (good : Ty → Prop) : Session.Rests p good {} where
  opened := fun _ h => by cases h
  lowered := fun _ _ h => by cases h
  running := fun id => by simp
  listed := by simp
  distinct := by simp

theorem Session.Tracks.same {s t : Session} (h : s.Tracks p good opened running)
    (htypes : t.types = s.types) (hfunctions : t.functions = s.functions)
    (horder : t.order = s.order) : t.Tracks p good opened running := by
  constructor
  · rw [htypes]
    exact h.opened
  · rw [htypes]
    exact h.lowered
  · rw [hfunctions]
    exact h.running
  · rw [hfunctions, horder]
    exact h.listed
  · rw [horder]
    exact h.distinct

theorem Session.Tracks.quiet {s t : Session} (h : s.Tracks p good opened running)
    (hst : s.Quiet t) : t.Tracks p good opened running :=
  h.same hst.types hst.functions hst.order

theorem Admits.plain_tracks (h : Admits p good allowed) :
    Plain (Session.Tracks p good opened running) allowed :=
  ⟨fun hs hst => hs.quiet hst, h.plain⟩

/-- An entry is found, or built while its cell is open. -/
theorem keeps_once {ι ν : Type} [DecidableEq ι] {table : Table MethodId ι ν} {key : ι} {build : M ν}
    {inv : Session → Prop}
    (hopen : ∀ s, inv s → (table.get s).cell? key = some .building → allowed (.failed .cyclic))
    (hbuild : ∀ s claimed, inv s → (table.get s).claim key = .granted claimed →
      build.Ends (table.set s claimed)
        (fun v t => inv (table.set t ((table.get t).set key (.ready v))))
        (fun e t => inv (table.set t ((table.get t).erase key)) ∧ allowed e)) :
    Keeps inv allowed (once table key build) := by
  intro s hs
  unfold Walk.Ends
  rw [once_outcome]
  cases hc : (table.get s).claim key with
  | found v => exact hs
  | reentrant => exact ⟨hs, hopen s hs (OnceMap.claim_reentrant hc)⟩
  | granted claimed =>
    have hends := hbuild s claimed hs hc
    unfold Walk.Ends at hends
    dsimp only
    rcases ho : build.outcome (table.set s claimed) with ⟨e | v, t⟩ <;> rw [ho] at hends <;>
      exact hends

theorem Session.Tracks.settleType {t : Session} {ty : Ty}
    (ht : t.Tracks p good (fun k => k = ty ∨ opened k) running) (hgood : good ty)
    {cell : Option (Cell LoweredType)} (hcell : cell ≠ some .building)
    {types : OnceMap Ty LoweredType}
    (htypes : ∀ k, types.cell? k = if k = ty then cell else t.types.cell? k) :
    ({ t with types } : Session).Tracks p good opened running := by
  refine ⟨fun k hk => ?_, fun k lowered hk => ?_, ht.running, ht.listed, ht.distinct⟩
  · rw [htypes] at hk
    by_cases he : k = ty
    · exact absurd (by simpa [he] using hk) hcell
    · exact (ht.opened k (by simpa [he] using hk)).resolve_left he
  · by_cases he : k = ty
    · exact he ▸ hgood
    · rw [OnceMap.get?_eq_some, htypes] at hk
      exact ht.lowered k lowered (OnceMap.get?_eq_some.mpr (by simpa [he] using hk))

theorem keeps_once_types {ty : Ty} {build : M LoweredType} (hgood : good ty)
    (hopen : opened ty → allowed (.failed .cyclic))
    (hbuild : Keeps (Session.Tracks p good (fun k => k = ty ∨ opened k) running) allowed build) :
    Keeps (Session.Tracks p good opened running) allowed (once .types ty build) := by
  refine keeps_once (fun s hs hcell => hopen (hs.opened ty hcell)) fun s claimed hs hc => ?_
  obtain ⟨rfl, _, _⟩ := OnceMap.claim_granted hc
  have hclaimed : (Table.types.set s (s.types.set ty .building)).Tracks p good
      (fun k => k = ty ∨ opened k) running := by
    refine ⟨fun k hk => ?_, fun k lowered hk => ?_, hs.running, hs.listed, hs.distinct⟩
    · by_cases he : k = ty
      · exact .inl he
      · exact .inr (hs.opened k (by simpa [Table.types, he] using hk))
    · exact hs.lowered k lowered (OnceMap.get?_of_claimed hc hk)
  refine Walk.Ends.mono (hbuild _ hclaimed) ?_ ?_
  · intro v t ht
    exact ht.settleType hgood (by simp) (OnceMap.cell?_set t.types ty · (.ready v))
  · rintro e t ⟨ht, he⟩
    exact ⟨ht.settleType hgood (by simp) (OnceMap.cell?_erase t.types ty), he⟩

theorem Session.Tracks.not_listed {s : Session} (hs : s.Tracks p good opened running)
    {id : MethodId} (h : s.functions.get? id = none) :
    ∀ f ∈ s.order.toList, f.method.id ≠ id := by
  intro f hf he
  have hget := (hs.listed f hf).2
  rw [he, h] at hget
  cases hget

/-- The cell of a method without a function may change. -/
theorem Session.Tracks.setFunction {s : Session} {running' : MethodId → Prop}
    (hs : s.Tracks p good opened running') {id : MethodId}
    (hnew : ∀ f ∈ s.order.toList, f.method.id ≠ id) {cell : Option (Cell Function)}
    {functions : OnceMap MethodId Function}
    (hfunctions : ∀ k, functions.cell? k = if k = id then cell else s.functions.cell? k)
    (hrunning : ∀ k, (if k = id then cell = some .building else running' k) ↔ running k) :
    ({ s with functions } : Session).Tracks p good opened running := by
  refine ⟨hs.opened, hs.lowered, fun k => ?_, fun f hf => ?_, hs.distinct⟩
  · rw [hfunctions, ← hrunning]
    by_cases hk : k = id
    · simp [hk]
    · simp [hk, hs.running k]
  · obtain ⟨hreached, hget⟩ := hs.listed f hf
    refine ⟨hreached, ?_⟩
    rw [OnceMap.get?_eq_some] at hget ⊢
    rw [hfunctions, if_neg (hnew f hf)]
    exact hget

theorem Session.Tracks.pushFunction {s : Session} {f : Function}
    (hs : s.Tracks p good opened running) (hf : p.Reached f.method)
    (hget : s.functions.get? f.method.id = some f)
    (hnew : ∀ g ∈ s.order.toList, g.method.id ≠ f.method.id) :
    ({ s with order := s.order.push f } : Session).Tracks p good opened running := by
  refine ⟨hs.opened, hs.lowered, hs.running, fun g hg => ?_, ?_⟩
  · rw [Array.toList_push, List.mem_append, List.mem_singleton] at hg
    rcases hg with hg | rfl
    · exact hs.listed g hg
    · exact ⟨hf, hget⟩
  · rw [Array.toList_push, List.map_append, List.map_cons, List.map_nil, ← List.concat_eq_append]
    exact hs.distinct.concat (by simpa using hnew)

theorem keeps_once_functions {m : LocatedMethod} {build : M Function} (hm : p.Reached m)
    (hopen : running m.id → allowed (.failed .cyclic))
    (hbuild : Adds (Session.Tracks p good opened (fun k => k = m.id ∨ running k)) allowed m
      build) :
    Keeps (Session.Tracks p good opened running) allowed (once .functions m.id build) := by
  refine keeps_once (fun s hs hcell => hopen ((hs.running m.id).mp hcell)) fun s claimed hs hc => ?_
  obtain ⟨rfl, hnone, hclosed⟩ := OnceMap.claim_granted hc
  have hstopped : ¬ running m.id := fun h => hclosed ((hs.running m.id).mpr h)
  -- while the method is running there is no function for it, so its cell can be settled
  have hsettled : ∀ {u : Session} {cell : Option (Cell Function)}
      {functions : OnceMap MethodId Function},
      u.Tracks p good opened (fun k => k = m.id ∨ running k) → cell ≠ some .building →
      (∀ k, functions.cell? k = if k = m.id then cell else u.functions.cell? k) →
      (∀ f ∈ u.order.toList, f.method.id ≠ m.id) ∧
        ({ u with functions } : Session).Tracks p good opened running := by
    intro u cell functions hu hcell hfunctions
    have hbuilding : u.functions.cell? m.id = some .building := (hu.running _).mpr (.inl rfl)
    have hnew := hu.not_listed (show u.functions.get? m.id = none by
      simp [OnceMap.get?, hbuilding])
    refine ⟨hnew, hu.setFunction hnew hfunctions fun k => ?_⟩
    by_cases hk : k = m.id
    · simp [hk, hcell, hstopped]
    · simp [hk]
  have hclaimed : (Table.functions.set s (s.functions.set m.id .building)).Tracks p good opened
      (fun k => k = m.id ∨ running k) := by
    refine hs.setFunction (hs.not_listed hnone)
      (OnceMap.cell?_set s.functions m.id · .building) fun k => ?_
    by_cases hk : k = m.id <;> simp [hk]
  refine Walk.Ends.mono (hbuild _ hclaimed) ?_ ?_
  · rintro f t ⟨rfl, u, hu, htypes, hfunctions, horder⟩
    obtain ⟨hnew, hready⟩ := hsettled hu (by simp)
      (OnceMap.cell?_set u.functions f.method.id · (.ready f))
    have hpushed := hready.pushFunction hm (by simp [OnceMap.get?_eq_some]) hnew
    exact hpushed.same htypes (by simp [Table.functions, hfunctions]) horder
  · rintro e t ⟨ht, he⟩
    exact ⟨(hsettled ht (by simp) (OnceMap.cell?_erase t.functions m.id)).2, he⟩

theorem keeps_lowerType (h : Admits p good allowed) (depth : Nat) {ty : Ty}
    (hgood : ty.isGeneric = false → good ty)
    (hopen : ty.isGeneric = false → ∀ k, opened k → TransGen p.Member k ty) :
    Keeps (Session.Tracks p good opened running) allowed (lowerType p depth ty) := by
  induction depth generalizing opened ty with
  | zero => exact fun s hs => ⟨hs, h.plain (by simp)⟩
  | succ depth ih =>
    rw [lowerType]
    by_cases hg : ty.isGeneric = true
    · rw [if_pos hg]
      exact fun s hs => ⟨hs, h.plain (by simp)⟩
    rw [if_neg hg]
    have hconcrete : ty.isGeneric = false := Bool.eq_false_iff.mpr hg
    have hty := hgood hconcrete
    -- all open types contain `ty`, so `ty` itself is open only if it contains itself
    refine keeps_once_types hty (fun ho => h.typeCycle hty (hopen hconcrete ty ho)) ?_
    refine keeps_buildType h.plain_tracks fun i hi member hmember => ?_
    have hedge : member.isGeneric = false → p.Member ty member := fun hm => ⟨i, hi, hmember, hm⟩
    refine ih (fun hm => h.member hty (hedge hm)) fun hm k hk => ?_
    rcases hk with rfl | hk
    · exact .single (hedge hm)
    · exact (hopen hconcrete k hk).tail (hedge hm)

theorem keeps_compileMethod (h : Admits p good allowed) (hp : p.Distinct) (depth : Nat)
    {m : LocatedMethod} (hm : p.Reached m)
    (hrunning : ∀ id, running id → ∃ caller, p.Reached caller ∧ caller.id = id ∧
      TransGen p.Calls caller m) :
    Keeps (Session.Tracks p good (fun _ => False) running) allowed (compileMethod p depth m) := by
  induction depth generalizing running m with
  | zero => exact fun s hs => ⟨hs, h.plain (by simp)⟩
  | succ depth ih =>
    rw [compileMethod]
    refine keeps_once_functions hm ?_ ?_
    · -- all running methods lead to `m` by calls, so `m` is running only if it leads to itself
      intro hrun
      obtain ⟨caller, hcaller, hid, hcalls⟩ := hrunning m.id hrun
      obtain rfl := (hcaller.locates hp).eq_of_id_eq (hm.locates hp) hid
      exact h.callCycle hm hcalls
    · refine adds_buildFunction h.plain_tracks ?_ ?_
      · intro ty hty
        exact keeps_lowerType h depth (h.requested hm hty) fun _ _ hfalse => hfalse.elim
      · intro r hr
        refine keeps_callee h.plain_tracks fun target callee htarget hcallee => ?_
        have hcall : p.Calls m callee :=
          Program.calls_iff.mpr ⟨r, target, hr, htarget, hcallee⟩
        refine ih (.call hm hcall) fun id hid => ?_
        rcases hid with rfl | hid
        · exact ⟨m, hm, rfl, .single hcall⟩
        · obtain ⟨caller, hcaller, hid, hcalls⟩ := hrunning id hid
          exact ⟨caller, hcaller, hid, hcalls.tail hcall⟩

theorem keeps_compileAll (h : Admits p good allowed) (hp : p.Distinct) (depth : Nat)
    {ms : List LocatedMethod} (hms : ∀ m ∈ ms, p.Reached m) :
    Keeps (Session.Rests p good) allowed (compileAll p depth ms) := by
  induction ms with
  | nil => exact (inert_pure ()).keeps h.plain_tracks
  | cons m rest ih =>
    have hhead := keeps_compileMethod h hp depth (hms m List.mem_cons_self)
      fun _ hfalse => False.elim hfalse
    have hrest := ih fun m' hm' => hms m' (List.mem_cons_of_mem _ hm')
    exact hhead.bind fun _ => hrest

/-- A whole compilation, whatever becomes of it, tracks its cells; it only needs an excuse for
cycles once the program is validated. -/
theorem ends_compileWithin (hp : p.Distinct) (depth : Nat) (options : Options)
    (hplain : ∀ {e : Stop LoweringError}, e ≠ .failed .cyclic → allowed e)
    (h : (∃ j, ((p.validateWithin depth).outcome j).1 = .ok ()) → Admits p good allowed)
    {s : Session} (hs : s.Rests p good) :
    (compileWithin depth p options).Ends s
      (fun m t => t.Rests p good ∧
        m.skipped = (p.methods.filter fun lm => !lm.isConcrete).map LocatedMethod.fullName)
      (fun e t => t.Rests p good ∧ allowed e) := by
  have hb : Plain (Session.Rests p good) allowed := ⟨fun hs hst => hs.quiet hst, hplain⟩
  refine Walk.Ends.andThen ((yields_validate p depth).ends hb hs) ?_
  rintro _ t ⟨ht, hvalid⟩
  refine Walk.Ends.andThen ((yields_skipGeneric p.methods).ends hb ht) ?_
  rintro skipped u ⟨hu, hskipped⟩
  have hreached : ∀ m ∈ p.methods.filter LocatedMethod.isConcrete, p.Reached m := by
    intro m hm
    obtain ⟨hm, hc⟩ := List.mem_filter.mp hm
    exact .declared hm hc
  refine Walk.Ends.andThen (keeps_compileAll (h hvalid) hp depth hreached u hu) ?_
  intro _ v hv
  refine Walk.Ends.mono (quiet_assemble p options skipped v) ?_ ?_
  · rintro m w ⟨hvw, hm⟩
    exact ⟨hv.quiet hvw, hm.trans hskipped⟩
  · rintro e w ⟨hvw, he⟩
    exact ⟨hv.quiet hvw, hplain he⟩

end ShaderIR.Lowering
