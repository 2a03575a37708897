import ShaderIR.Proofs.DirectLowering
import ShaderIR.Proofs.OpenCells
import ShaderIR.Proofs.Requests

/-! Requests for types that fail. The table of lowered types holds what lowering without a table
would give, so an answer does not depend on the requests before. A failed request takes back the
cells of all types it was working on and keeps the types it has finished, and asking again finds
these and fails where it failed before. -/

namespace ShaderIR.Lowering

/-- The types of `stack` are being lowered, and every finished type is what lowering it without the
table gives, inside any types that are not finished. -/
structure Session.Memoizes (p : Program) (stack : List Ty) (s : Session) : Prop where
  opened : ∀ ty, s.types.cell? ty = some .building ↔ ty ∈ stack
  filled : ∀ ty, s.types.cell? ty ≠ some .empty
  answers : ∀ ty t, s.types.get? ty = some t → ∀ inside, (∀ u ∈ inside, s.types.get? u = none) →
    Answers p inside ty (.ok t.bare)

/-- Finished types stay. -/
def Session.Preserves (s t : Session) : Prop :=
  ∀ ty lowered, s.types.get? ty = some lowered → t.types.get? ty = some lowered

variable {p : Program} {stack : List Ty} {ty : Ty} {s t u v : Session}

theorem Session.Preserves.trans (h : s.Preserves t) (h' : t.Preserves u) : s.Preserves u :=
  fun ty lowered hl => h' ty lowered (h ty lowered hl)

theorem Session.get?_opening (k : Ty) (hc : s.types.cell? ty = none) :
    (s.opening p ty).types.get? k = s.types.get? k := by
  by_cases hk : k = ty
  · subst hk
    simp [opening, OnceMap.get?, hc]
  · simp [opening, OnceMap.get?, hk]

theorem Session.get?_closing (s : Session) (ty k : Ty) :
    (s.closing ty).types.get? k = if k = ty then none else s.types.get? k := by
  by_cases hk : k = ty <;> simp [closing, OnceMap.get?, hk]

theorem Session.memoizes_empty (p : Program) : Session.Memoizes p [] {} where
  opened := fun ty => by simp
  filled := fun ty => by simp
  answers := fun ty t h => by cases h

namespace Session.Memoizes

theorem congr (h : s.Memoizes p stack) (ht : t.types = s.types) : t.Memoizes p stack := by
  constructor
  · rw [ht]
    exact h.opened
  · rw [ht]
    exact h.filled
  · rw [ht]
    exact h.answers

theorem get?_of_mem (h : s.Memoizes p stack) (hty : ty ∈ stack) : s.types.get? ty = none := by
  have hcell := (h.opened ty).2 hty
  simp [OnceMap.get?, hcell]

/-- A finished type is what lowering it under the open types gives. -/
theorem answer (h : s.Memoizes p stack) {lowered : LoweredType}
    (hl : s.types.get? ty = some lowered) : Answers p stack ty (.ok lowered.bare) :=
  h.answers ty lowered hl stack fun _ hu => h.get?_of_mem hu

theorem cell?_cases (h : s.Memoizes p stack) (ty : Ty) :
    (∃ lowered, s.types.get? ty = some lowered) ∨ ty ∈ stack ∨
      ty ∉ stack ∧ s.types.cell? ty = none := by
  rcases hc : s.types.cell? ty with _ | cell
  · refine .inr (.inr ⟨fun hmem => ?_, rfl⟩)
    have hopen := (h.opened ty).2 hmem
    simp [hc] at hopen
  · cases cell with
    | empty => exact absurd hc (h.filled ty)
    | building => exact .inr (.inl ((h.opened ty).1 hc))
    | ready lowered => exact .inl ⟨lowered, OnceMap.get?_eq_some.2 hc⟩

/-- One cell changes. -/
theorem update {stack' : List Ty} {cell : Option (Cell LoweredType)} (h : u.Memoizes p stack)
    (hv : ∀ k, v.types.cell? k = if k = ty then cell else u.types.cell? k)
    (hcell : cell ≠ some .empty)
    (hstack : ∀ k, (if k = ty then cell = some .building else k ∈ stack) ↔ k ∈ stack')
    (hanswers : ∀ k t, v.types.get? k = some t → ∀ inside,
      (∀ x ∈ inside, v.types.get? x = none) → Answers p inside k (.ok t.bare)) :
    v.Memoizes p stack' where
  opened := fun k => by
    rw [hv, ← hstack]
    by_cases hk : k = ty
    · simp [hk]
    · simp [hk, h.opened k]
  filled := fun k => by
    rw [hv]
    by_cases hk : k = ty
    · simpa [hk] using hcell
    · simpa [hk] using h.filled k
  answers := hanswers

theorem opening (h : s.Memoizes p stack) (hc : s.types.cell? ty = none) :
    (s.opening p ty).Memoizes p (ty :: stack) := by
  refine h.update (OnceMap.cell?_set s.types ty · .building) (by simp) ?_ ?_
  · intro k
    by_cases hk : k = ty <;> simp [hk]
  · intro k t hk inside hinside
    rw [Session.get?_opening k hc] at hk
    refine h.answers k t hk inside fun x hx => ?_
    rw [← Session.get?_opening x hc]
    exact hinside x hx

/-- Giving up the innermost open type. -/
theorem closing (h : u.Memoizes p (ty :: stack)) (hty : ty ∉ stack) :
    (u.closing ty).Memoizes p stack := by
  refine h.update (OnceMap.cell?_erase u.types ty) (by simp) ?_ ?_
  · intro k
    by_cases hk : k = ty <;> simp [hk, hty]
  · intro k t hk inside hinside
    refine h.answers k t (OnceMap.get?_of_erase hk) inside fun x hx => ?_
    by_cases hxty : x = ty
    · exact hxty ▸ h.get?_of_mem List.mem_cons_self
    · have hnone := hinside x hx
      rwa [Session.get?_closing, if_neg hxty] at hnone

end Session.Memoizes

/-- The parts of a type are finished and fit. -/
def Session.HasParts (s : Session) (cs : List Component) (ts : List LoweredType) : Prop :=
  List.Forall₂ (fun c t => s.types.get? (Component.ty c) = some t ∧ c.complaint t = none) cs ts

/-- What is wrong with a part does not depend on ids. -/
def Blind (cs : List Component) : Prop :=
  ∀ c ∈ cs, ∀ t, c.complaint (LoweredType.bare t) = c.complaint t

theorem Plan.blind (plan : Plan) : Blind plan.components :=
  fun _ hc t => complaint_bare hc t

theorem Session.Memoizes.answersAll (h : s.Memoizes p stack) {cs : List Component} (hb : Blind cs)
    {ts : List LoweredType} (hts : s.HasParts cs ts) {inside : List Ty}
    (hinside : ∀ u ∈ inside, s.types.get? u = none) :
    AnswersAll p inside cs (.ok (ts.map LoweredType.bare)) := by
  induction hts with
  | nil => exact answersAll_nil p inside
  | @cons c t cs ts hc _ ih =>
    have hrest := ih fun c' hc' => hb c' (List.mem_cons_of_mem _ hc')
    have hfirst := h.answers c.ty t hc.1 inside hinside
    have hfits : c.complaint t.bare = none := (hb c List.mem_cons_self t).trans hc.2
    exact answersAll_cons hfirst hfits hrest

/-- Finishing the innermost open type, when all its parts are finished. -/
theorem Session.Memoizes.settling (h : u.Memoizes p (ty :: stack)) (hg : ty.isGeneric = false)
    (hty : ty ∉ stack) {plan' : Plan} (hp : plan p ty = .ok plan') {ts : List LoweredType}
    (hts : u.HasParts plan'.components ts) {t : LoweredType}
    (ht : t.bare = ⟨⟨0⟩, ty.text, (plan'.shape ts).bare⟩)
    (hv : v.types = u.types.set ty (.ready t)) : v.Memoizes p stack := by
  refine h.update (fun k => hv ▸ OnceMap.cell?_set u.types ty k (.ready t)) (by simp) ?_ ?_
  · intro k
    by_cases hk : k = ty <;> simp [hk, hty]
  intro k lowered hk inside hinside
  have hclosed : ∀ x ∈ inside, x ≠ ty ∧ u.types.get? x = none := by
    intro x hx
    have hnone := hinside x hx
    by_cases hxty : x = ty
    · simp [hv, hxty, OnceMap.get?] at hnone
    · exact ⟨hxty, by simpa [hv, hxty, OnceMap.get?] using hnone⟩
  rw [hv] at hk
  rcases OnceMap.get?_of_set_ready hk with ⟨rfl, rfl⟩ | hk
  · -- The parts were finished while the type itself was open, so it is none of them.
    have hparts : ∀ x ∈ k :: inside, u.types.get? x = none := by
      intro x hx
      rcases List.mem_cons.mp hx with rfl | hx
      · exact h.get?_of_mem List.mem_cons_self
      · exact (hclosed x hx).2
    have hall := answers_declared hg (fun hmem => (hclosed k hmem).1 rfl) hp
      (h.answersAll plan'.blind hts hparts)
    rw [plan'.shape_map_bare] at hall
    rwa [ht]
  · exact h.answers k lowered hk inside fun x hx => (hclosed x hx).2

/-- Why lowering a type without the table stops too. None of the types that it was working on is
finished. -/
inductive Stops (p : Program) (depth : Nat) (stack : List Ty) (ty : Ty) (s : Session) :
    Stop LoweringError → Prop
  | failed {path : List Ty} {e : LoweringError} (h : Answers p stack ty (.error ⟨path, e⟩))
      (hpath : ∀ u ∈ path, s.types.get? u = none) : Stops p depth stack ty s (.failed e)
  | tooDeep (h : direct p depth stack ty = .error .tooDeep) : Stops p depth stack ty s .tooDeep

inductive StopsAll (p : Program) (depth : Nat) (stack : List Ty) (cs : List Component)
    (s : Session) : Stop LoweringError → Prop
  | failed {path : List Ty} {e : LoweringError} (h : AnswersAll p stack cs (.error ⟨path, e⟩))
      (hpath : ∀ u ∈ path, s.types.get? u = none) : StopsAll p depth stack cs s (.failed e)
  | tooDeep (h : directComponents (direct p depth stack) cs = .error .tooDeep) :
      StopsAll p depth stack cs s .tooDeep

/-- Requests through the table come to the same end as without it. -/
def Agrees (p : Program) (depth : Nat) (stack : List Ty) (lower : Ty → M LoweredType) : Prop :=
  ∀ ty s, s.Memoizes p stack → (lower ty).Ends s
    (fun t u => (u.Memoizes p stack ∧ s.Preserves u) ∧ u.types.get? ty = some t)
    (fun e u => (u.Memoizes p stack ∧ s.Preserves u) ∧ Stops p depth stack ty u e)

theorem Agrees.components {depth : Nat} {lower : Ty → M LoweredType}
    (hl : Agrees p depth stack lower) {cs : List Component} (hb : Blind cs)
    (hs : s.Memoizes p stack) :
    (lowerComponents lower cs).Ends s
      (fun ts u => (u.Memoizes p stack ∧ s.Preserves u) ∧ u.HasParts cs ts)
      (fun e u => (u.Memoizes p stack ∧ s.Preserves u) ∧ StopsAll p depth stack cs u e) := by
  induction cs generalizing s with
  | nil => exact ⟨⟨hs, fun _ _ h => h⟩, .nil⟩
  | cons c rest ih =>
    have hbare := hb c List.mem_cons_self
    have hrest : Blind rest := fun c' hc' => hb c' (List.mem_cons_of_mem _ hc')
    unfold lowerComponents
    apply Walk.Ends.bind
    refine (hl c.ty s hs).mono ?_ ?_
    · rintro t u ⟨⟨hu, hsu⟩, ht⟩
      have hanswer := hu.answer ht
      cases hc : c.complaint t with
      | some e =>
        have hunfit : AnswersAll p stack (c :: rest) (.error ⟨[], e⟩) :=
          answersAll_unfit hanswer ((hbare t).trans hc)
        exact ⟨⟨hu, hsu⟩, .failed hunfit (by simp)⟩
      | none =>
        have hfits := (hbare t).trans hc
        apply Walk.Ends.bind
        refine (ih hrest hu).mono ?_ ?_
        · rintro ts v ⟨⟨hv, huv⟩, hts⟩
          exact ⟨⟨hv, hsu.trans huv⟩, .cons ⟨huv _ _ ht, hc⟩ hts⟩
        · rintro e v ⟨⟨hv, huv⟩, he⟩
          refine ⟨⟨hv, hsu.trans huv⟩, ?_⟩
          cases he with
          | failed h hpath => exact .failed (answersAll_cons hanswer hfits h) hpath
          | tooDeep h =>
            apply StopsAll.tooDeep
            rcases hanswer.at_depth depth with hdeep | hok
            · simp [directComponents, hdeep]
            · simp [directComponents, hok, Except.mapError, hfits, h]
    · rintro e u ⟨hu, he⟩
      refine ⟨hu, ?_⟩
      cases he with
      | failed h hpath => exact .failed (answersAll_failed h) hpath
      | tooDeep h => exact .tooDeep (by simp [directComponents, h])

/-- Whatever becomes of the cell that was opened, the types finished before stay. -/
theorem Session.Preserves.of_opening (hc : s.types.cell? ty = none)
    (h : (s.opening p ty).Preserves u) (hv : ∀ k ≠ ty, v.types.get? k = u.types.get? k) :
    s.Preserves v := by
  intro k lowered hk
  have hne : k ≠ ty := by
    rintro rfl
    simp [OnceMap.get?, hc] at hk
  have hu := h k lowered ((Session.get?_opening k hc).trans hk)
  rw [hv k hne, hu]

theorem Session.Preserves.closing (hc : s.types.cell? ty = none)
    (h : (s.opening p ty).Preserves u) : s.Preserves (u.closing ty) :=
  h.of_opening hc fun k hk => by rw [Session.get?_closing, if_neg hk]

/-- A type that cannot be lowered is not finished. -/
theorem Session.Memoizes.get?_of_failed (h : s.Memoizes p stack) {trail : Trail}
    (ha : Answers p stack ty (.error trail)) : s.types.get? ty = none := by
  cases hget : s.types.get? ty with
  | none => rfl
  | some t =>
    have hunique := ha.unique (h.answer hget)
    cases hunique

/-- A type without a cell is built, and its cell is settled in the end. -/
theorem Agrees.granted {depth : Nat} (ih : Agrees p depth (ty :: stack) (lowerType p depth))
    (hg : ty.isGeneric = false) (hs : s.Memoizes p stack) (hty : ty ∉ stack)
    (hc : s.types.cell? ty = none) :
    (lowerType p (depth + 1) ty).Ends s
      (fun t u => (u.Memoizes p stack ∧ s.Preserves u) ∧ u.types.get? ty = some t)
      (fun e u => (u.Memoizes p stack ∧ s.Preserves u) ∧ Stops p (depth + 1) stack ty u e) := by
  have hopening := hs.opening hc
  have hgranted : (lowerType p (depth + 1) ty).outcome s = _ := lowerType_granted hg hc
  cases hp : plan p ty with
  | error e =>
    rw [hp] at hgranted
    have hkept : s.Preserves ((s.opening p ty).closing ty) :=
      Session.Preserves.closing hc fun _ _ h => h
    refine .error hgranted
      ⟨⟨hopening.closing hty, hkept⟩, .failed (answers_unplanned hg hty hp) ?_⟩
    simp [Session.get?_closing]
  | ok plan' =>
    rw [hp] at hgranted
    dsimp only at hgranted
    have hparts := ih.components plan'.blind hopening
    rcases ho : (lowerComponents (lowerType p depth) plan'.components).outcome
      (s.opening p ty) with ⟨e | ts, u⟩
    · obtain ⟨⟨hu, hsu⟩, he⟩ := hparts.of_error (congrArg Prod.fst ho)
      rw [ho] at hu hsu he
      rw [followPlan_stopped ty ho] at hgranted
      refine .error hgranted ⟨⟨hu.closing hty, hsu.closing hc⟩, ?_⟩
      cases he with
      | failed h hpath =>
        refine .failed (answers_stopped hg hty hp h) fun x hx => ?_
        rw [Session.get?_closing]
        by_cases hxty : x = ty
        · rw [if_pos hxty]
        · rw [if_neg hxty]
          exact hpath x ((List.mem_cons.mp hx).resolve_left hxty)
      | tooDeep h => exact .tooDeep (by simp [direct, hg, hty, hp, h])
    · obtain ⟨⟨hu, hsu⟩, hts⟩ := hparts.of_ok ho
      obtain ⟨id, declarations, journal, hfollow⟩ := followPlan_declared ty ho
      rw [hfollow] at hgranted
      refine .ok hgranted ⟨⟨hu.settling hg hty hp hts rfl rfl, ?_⟩, ?_⟩
      · exact hsu.of_opening hc fun k hk => by simp [OnceMap.get?, hk]
      · exact OnceMap.get?_set_ready _ _ _

theorem agrees_lowerType (p : Program) (depth : Nat) (stack : List Ty) :
    Agrees p depth stack (lowerType p depth) := by
  induction depth generalizing stack with
  | zero =>
    intro ty s hs
    exact ⟨⟨hs, fun _ _ h => h⟩, .tooDeep rfl⟩
  | succ depth ih =>
    intro ty s hs
    have hself : s.Preserves s := fun _ _ h => h
    by_cases hgeneric : ty.isGeneric = true
    · have hanswer : Answers p stack ty _ := answers_generic hgeneric
      refine .error (lowerType_generic hgeneric) ⟨⟨hs, hself⟩, .failed hanswer ?_⟩
      simpa using hs.get?_of_failed hanswer
    have hg : ty.isGeneric = false := by simpa using hgeneric
    rcases hs.cell?_cases ty with ⟨t, ht⟩ | hmem | ⟨hty, hc⟩
    · exact .ok (lowerType_found hg ht) ⟨⟨hs, hself⟩, ht⟩
    · have hcell := (hs.opened ty).2 hmem
      have hanswer : Answers p stack ty _ := answers_cyclic hg hmem
      refine .error (lowerType_reentrant hg hcell) ⟨⟨hs, hself⟩, .failed hanswer ?_⟩
      simpa using hs.get?_of_mem hmem
    · exact (ih (ty :: stack)).granted hg hs hty hc

/-! Asking again. -/

/-- The answer is found without changing anything but the journal. -/
def Recalls {α : Type} (w : M α) (s : Session) (r : Except (Stop LoweringError) α) : Prop :=
  ∃ journal, w.outcome s = (r, { s with journal })

/-- A request that has been answered is answered in the same way when all that it has finished is
still there. -/
def Recallable (p : Program) (stack : List Ty) (lower : Ty → M LoweredType) : Prop :=
  ∀ ty s r s₁, s.Memoizes p stack → (lower ty).outcome s = (r, s₁) → r ≠ .error .tooDeep →
    ∀ v, v.Memoizes p stack → s₁.Preserves v → Recalls (lower ty) v r

theorem Recalls.bind {α β : Type} {w : M α} {f : α → M β} {a : α}
    {r : Except (Stop LoweringError) β} (h : Recalls w s (.ok a))
    (hf : ∀ journal, Recalls (f a) { s with journal } r) : Recalls (w >>= f) s r := by
  obtain ⟨journal, hw⟩ := h
  obtain ⟨journal', hr⟩ := hf journal
  exact ⟨journal', by rw [Walk.outcome_bind, hw]; exact hr⟩

theorem Recalls.bind_error {α β : Type} {w : M α} {f : α → M β} {e : Stop LoweringError}
    (h : Recalls w s (.error e)) : Recalls (w >>= f) s (.error e) := by
  obtain ⟨journal, hw⟩ := h
  exact ⟨journal, by rw [Walk.outcome_bind, hw]⟩

theorem Recallable.components {depth : Nat} {lower : Ty → M LoweredType}
    (hl : Recallable p stack lower) (ha : Agrees p depth stack lower) {cs : List Component}
    (hb : Blind cs) {r : Except (Stop LoweringError) (List LoweredType)} {s₁ : Session}
    (hs : s.Memoizes p stack) (ho : (lowerComponents lower cs).outcome s = (r, s₁))
    (hr : r ≠ .error .tooDeep) (hv : v.Memoizes p stack) (hkept : s₁.Preserves v) :
    Recalls (lowerComponents lower cs) v r := by
  induction cs generalizing s v r with
  | nil =>
    cases ho
    exact ⟨v.journal, rfl⟩
  | cons c rest ih =>
    have hrest : Blind rest := fun c' hc' => hb c' (List.mem_cons_of_mem _ hc')
    rw [lowerComponents, Walk.outcome_bind] at ho
    rw [lowerComponents]
    rcases hfirst : (lower c.ty).outcome s with ⟨e | t, u⟩
    · rw [hfirst] at ho
      cases ho
      exact (hl c.ty s _ _ hs hfirst (by simpa using hr) v hv hkept).bind_error
    · rw [hfirst] at ho
      dsimp only at ho
      obtain ⟨⟨hu, -⟩, -⟩ := (ha c.ty s hs).of_ok hfirst
      cases hc : c.complaint t with
      | some e =>
        rw [hc] at ho
        cases ho
        refine (hl c.ty s _ _ hs hfirst (by simp) v hv hkept).bind fun journal => ?_
        exact ⟨journal, by simp only [hc]; rfl⟩
      | none =>
        rw [hc] at ho
        dsimp only at ho
        rw [Walk.outcome_bind] at ho
        have hgrown : u.Preserves ((lowerComponents lower rest).outcome u).2 :=
          (ha.components hrest hu).last (fun _ _ h => h.1.2) fun _ _ h => h.1.2
        rcases hlast : (lowerComponents lower rest).outcome u with ⟨e | ts, w⟩ <;>
          rw [hlast] at ho hgrown <;> cases ho
        all_goals
          refine (hl c.ty s _ _ hs hfirst (by simp) v hv (hgrown.trans hkept)).bind
            fun journal => ?_
          simp only [hc]
          have hv' : ({ v with journal } : Session).Memoizes p stack := hv.congr rfl
        · have hagain := ih hrest hu hlast hr hv' hkept
          exact hagain.bind_error
        · have hagain := ih hrest hu hlast (by simp) hv' hkept
          exact hagain.bind fun journal' => ⟨journal', rfl⟩

/-- Opening a cell and giving it up again leaves no trace in the table. -/
theorem Session.closing_opening (hc : s.types.cell? ty = none) (journal : Journal) :
    ({ s.opening p ty with journal } : Session).closing ty = { s with journal } := by
  have htypes : (s.types.set ty .building).erase ty = s.types := OnceMap.erase_set hc _
  simp [Session.closing, Session.opening, htypes]

theorem Session.Preserves.reopening (hu : u.Memoizes p (ty :: stack))
    (h : (u.closing ty).Preserves v) (hc : v.types.cell? ty = none) :
    u.Preserves (v.opening p ty) := by
  intro k lowered hk
  have hne : k ≠ ty := by
    rintro rfl
    simp [hu.get?_of_mem List.mem_cons_self] at hk
  rw [Session.get?_opening k hc]
  apply h k lowered
  rw [Session.get?_closing, if_neg hne, hk]

/-- A type that was being built when it failed is built again and fails again. -/
theorem recalls_failed {depth : Nat} (ih : Recallable p (ty :: stack) (lowerType p depth))
    (hg : ty.isGeneric = false) (hs : s.Memoizes p stack) (hc : s.types.cell? ty = none)
    {e : LoweringError} {s₁ : Session}
    (ho : (lowerType p (depth + 1) ty).outcome s = (.error (.failed e), s₁))
    (hv : v.Memoizes p stack) (hcv : v.types.cell? ty = none) (hkept : s₁.Preserves v) :
    Recalls (lowerType p (depth + 1) ty) v (.error (.failed e)) := by
  have hagain : (lowerType p (depth + 1) ty).outcome v = _ := lowerType_granted hg hcv
  rw [lowerType_granted hg hc] at ho
  cases hp : plan p ty with
  | error e' =>
    rw [hp] at ho hagain
    cases ho
    exact ⟨_, hagain.trans (congrArg (Prod.mk _) (Session.closing_opening (p := p) hcv _))⟩
  | ok plan' =>
    rw [hp] at ho hagain
    dsimp only at ho hagain
    have hagrees := agrees_lowerType p depth (ty :: stack)
    rcases hrun : (lowerComponents (lowerType p depth) plan'.components).outcome
      (s.opening p ty) with ⟨e' | ts, u⟩
    · have hu : u.Memoizes p (ty :: stack) := by
        obtain ⟨⟨hu, -⟩, -⟩ :=
          (hagrees.components plan'.blind (hs.opening hc)).of_error (congrArg Prod.fst hrun)
        simpa [hrun] using hu
      rw [followPlan_stopped ty hrun] at ho
      cases ho
      obtain ⟨journal, hj⟩ := ih.components hagrees plan'.blind (hs.opening hc) hrun (by simp)
        (hv.opening hcv) (hkept.reopening hu hcv)
      rw [followPlan_stopped ty hj] at hagain
      exact ⟨journal, hagain.trans (congrArg (Prod.mk _) (Session.closing_opening hcv journal))⟩
    · obtain ⟨id, declarations, journal, hfollow⟩ := followPlan_declared ty hrun
      rw [hfollow] at ho
      cases ho

theorem recallable_lowerType (p : Program) (depth : Nat) (stack : List Ty) :
    Recallable p stack (lowerType p depth) := by
  induction depth generalizing stack with
  | zero =>
    intro ty s r s₁ _ ho hr
    cases ho
    exact absurd rfl hr
  | succ depth ih =>
    intro ty s r s₁ hs ho hr v hv hkept
    have hends := agrees_lowerType p (depth + 1) stack ty s hs
    by_cases hgeneric : ty.isGeneric = true
    · rw [lowerType_generic hgeneric] at ho
      cases ho
      exact ⟨v.journal, lowerType_generic hgeneric⟩
    have hg : ty.isGeneric = false := by simpa using hgeneric
    cases r with
    | ok t =>
      have hfound := hkept ty t (hends.of_ok ho).2
      exact ⟨v.journal, lowerType_found hg hfound⟩
    | error e =>
      obtain ⟨-, hstops⟩ := hends.of_error (congrArg Prod.fst ho)
      cases hstops with
      | tooDeep => exact absurd rfl hr
      | failed hanswer =>
        rcases hs.cell?_cases ty with ⟨t, ht⟩ | hmem | ⟨hty, hc⟩
        · rw [lowerType_found hg ht] at ho
          cases ho
        · rw [lowerType_reentrant hg ((hs.opened ty).2 hmem)] at ho
          cases ho
          exact ⟨v.journal, lowerType_reentrant hg ((hv.opened ty).2 hmem)⟩
        · -- The type is not finished in the later session either, since it cannot be lowered.
          have hnone := hv.get?_of_failed hanswer
          rcases hv.cell?_cases ty with ⟨t, ht⟩ | hmem | ⟨-, hcv⟩
          · simp [hnone] at ht
          · exact absurd hmem hty
          · exact recalls_failed (ih (ty :: stack)) hg hs hc ho hv hcv hkept

/-! Sessions. -/

theorem plain_memoizes (p : Program) : Plain (Session.Memoizes p []) fun _ => True :=
  ⟨fun hs hst => hs.congr hst.types, fun _ => trivial⟩

theorem keeps_memoizes_lowerType (p : Program) (depth : Nat) (ty : Ty) :
    Keeps (Session.Memoizes p []) (fun _ => True) (lowerType p depth ty) := by
  intro s hs
  have hends := agrees_lowerType p depth [] ty s hs
  exact hends.mono (fun _ _ h => h.1.1) fun _ _ h => ⟨h.1.1, trivial⟩

theorem keeps_memoizes_compileMethod (p : Program) (depth : Nat) (m : LocatedMethod) :
    Keeps (Session.Memoizes p []) (fun _ => True) (compileMethod p depth m) := by
  induction depth generalizing m with
  | zero => exact fun s hs => ⟨hs, trivial⟩
  | succ depth ih =>
    rw [compileMethod]
    refine keeps_once (fun _ _ _ => trivial) fun s claimed hs _ => ?_
    have hclaimed : (Table.functions.set s claimed).Memoizes p [] := hs.congr rfl
    have hbuild : Adds (Session.Memoizes p []) (fun _ => True) m
        (buildFunction (lowerType p depth) (callee p (compileMethod p depth)) m) :=
      adds_buildFunction (plain_memoizes p) (fun ty _ => keeps_memoizes_lowerType p depth ty)
        fun _ _ => keeps_callee (plain_memoizes p) fun _ callee _ _ => ih callee
    refine (hbuild _ hclaimed).mono ?_ ?_
    · rintro f t ⟨-, u, hu, htypes, -, -⟩
      exact hu.congr htypes
    · rintro e t ⟨ht, -⟩
      exact ⟨ht.congr rfl, trivial⟩

theorem Session.Reachable.memoizes {known : LocatedMethod → Prop} (h : s.Reachable p known) :
    s.Memoizes p [] := by
  induction h with
  | empty => exact Session.memoizes_empty p
  | type _ depth ty ih =>
    have hkeeps : Keeps (Session.Memoizes p []) (fun _ => True)
        (lowerReturn (lowerType p depth) ty) :=
      keeps_lowerReturn (plain_memoizes p) fun t _ => keeps_memoizes_lowerType p depth t
    exact (hkeeps _ ih).last (fun _ _ h => h) fun _ _ h => h.1
  | method _ depth _ ih =>
    exact (keeps_memoizes_compileMethod p depth _ _ ih).last (fun _ _ h => h) fun _ _ h => h.1
  | id _ ih => exact ih.congr rfl

/-- An answer without the ids in it. -/
def bareAnswer (r : Except (Stop LoweringError) LoweredType) :
    Except (Stop LoweringError) LoweredType :=
  r.map LoweredType.bare

/-- A request that is answered in the first session is answered in the second one in the same way,
up to ids. -/
def AnsweredAlike (p : Program) (s t : Session) (ty : Option Ty) : Prop :=
  ∀ depth, ((lowerReturn (lowerType p depth) ty).outcome s).1 ≠ .error .tooDeep →
    ∃ depth', bareAnswer ((lowerReturn (lowerType p depth') ty).outcome t).1 =
      bareAnswer ((lowerReturn (lowerType p depth) ty).outcome s).1

/-- What a request without a table comes to decides what every session answers. -/
theorem Session.Memoizes.answered (hs : s.Memoizes p []) {depth : Nat}
    (hr : ((lowerType p depth ty).outcome s).1 ≠ .error .tooDeep) :
    ∃ r : Except Trail LoweredType, Answers p [] ty r ∧
      bareAnswer ((lowerType p depth ty).outcome s).1 =
        (r.mapError fun trail => .failed trail.error) := by
  have hends := agrees_lowerType p depth [] ty s hs
  rcases ho : (lowerType p depth ty).outcome s with ⟨e | t, u⟩
  · obtain ⟨-, hstops⟩ := hends.of_error (congrArg Prod.fst ho)
    rw [ho] at hr
    cases hstops with
    | tooDeep => exact absurd rfl hr
    | failed h => exact ⟨_, h, rfl⟩
  · obtain ⟨⟨hu, -⟩, ht⟩ := hends.of_ok ho
    exact ⟨_, hu.answer ht, rfl⟩

theorem answeredAlike (hs : s.Memoizes p []) (ht : t.Memoizes p []) (ty : Option Ty) :
    AnsweredAlike p s t ty := by
  intro depth hr
  cases ty with
  | none => exact ⟨depth, rfl⟩
  | some ty =>
    obtain ⟨r, hanswer, hbare⟩ := hs.answered hr
    obtain ⟨depth', hd⟩ := hanswer
    have hr' : ((lowerType p depth' ty).outcome t).1 ≠ .error .tooDeep := by
      intro hdeep
      obtain ⟨-, hstops⟩ := (agrees_lowerType p depth' [] ty t ht).of_error hdeep
      cases hstops with
      | tooDeep h => exact mapError_ne_tooDeep r (hd.symm.trans h)
    obtain ⟨r', hanswer', hbare'⟩ := ht.answered hr'
    have hsame : r' = r := hanswer'.unique ⟨depth', hd⟩
    exact ⟨depth', by rw [lowerReturn, lowerReturn, hbare', hbare, hsame]⟩

/-- A shared declaration that has been made is found. -/
theorem intern_again (key : DeclarationKey) (d : Declarations) :
    (Declarations.intern key).run ((Declarations.intern key).run d).2 =
      (Declarations.intern key).run d := by
  cases hlookup : d.shared.lookup key with
  | some id => simp [intern_run, hlookup]
  | none => simp [intern_run, hlookup]

theorem void_again (s : Session) :
    (declaring Declarations.void).outcome ((declaring Declarations.void).outcome s).2 =
      (declaring Declarations.void).outcome s := by
  have hrun : ∀ u : Session, (declaring Declarations.void).outcome u =
      (.ok ⟨((Declarations.intern ⟨.typeVoid, none, []⟩).run u.declarations).1, "void", .void⟩,
        { u with
          declarations := ((Declarations.intern ⟨.typeVoid, none, []⟩).run u.declarations).2 }) :=
    fun _ => rfl
  rw [hrun s, hrun]
  simp only [intern_again]

theorem recalls_lowerReturn (hs : s.Memoizes p []) {depth : Nat} {ty : Option Ty}
    {r : Except (Stop LoweringError) LoweredType} {s₁ : Session}
    (ho : (lowerReturn (lowerType p depth) ty).outcome s = (r, s₁))
    (hr : r ≠ .error .tooDeep) : Recalls (lowerReturn (lowerType p depth) ty) s₁ r := by
  cases ty with
  | none =>
    cases ho
    exact ⟨s.journal, void_again s⟩
  | some ty =>
    have hs₁ : ((lowerReturn (lowerType p depth) (some ty)).outcome s).2.Memoizes p [] :=
      (keeps_memoizes_lowerType p depth ty s hs).last (fun _ _ h => h) fun _ _ h => h.1
    rw [ho] at hs₁
    exact recallable_lowerType p depth [] ty s r s₁ hs ho hr s₁ hs₁ fun _ _ h => h

/-- A request for a type leaves a session that goes on as if nothing had happened: asking again
gives the same answer and changes nothing, and after a failure none of the types that led to it is
recorded, those recorded before still are, and every other request is answered as in a new
session. -/
theorem lowerReturn_resumes {known : LocatedMethod → Prop} (hs : s.Reachable p known) {depth : Nat}
    {ty : Option Ty} {r : Except (Stop LoweringError) LoweredType} {s₁ : Session}
    (ho : (lowerReturn (lowerType p depth) ty).outcome s = (r, s₁)) (hr : r ≠ .error .tooDeep) :
    (∃ journal, (lowerReturn (lowerType p depth) ty).outcome s₁ = (r, { s₁ with journal })) ∧
      s₁.Reachable p known ∧ ∀ e, r = .error (.failed e) →
        (∃ requested path, ty = some requested ∧
          Answers p [] requested (.error ⟨requested :: path, e⟩) ∧
          List.IsChain (AsksFor p) (requested :: path) ∧
          ∀ u ∈ requested :: path, s₁.types.cell? u = none) ∧
        (∀ u t, s.types.get? u = some t → s₁.types.get? u = some t) ∧
        ∀ later, later.Reachable p known → ∀ other,
          AnsweredAlike p later {} other ∧ AnsweredAlike p {} later other := by
  have hmemo := hs.memoizes
  have hreachable := hs.type depth ty
  rw [ho] at hreachable
  refine ⟨recalls_lowerReturn hmemo ho hr, hreachable, ?_⟩
  rintro e rfl
  cases ty with
  | none => cases ho
  | some ty =>
    obtain ⟨⟨hs₁, hkept⟩, hstops⟩ :=
      (agrees_lowerType p depth [] ty s hmemo).of_error (congrArg Prod.fst ho)
    change (lowerType p depth ty).outcome s = _ at ho
    rw [ho] at hs₁ hkept hstops
    cases hstops with
    | @failed path _ hanswer hpath =>
      have hunrecorded : ∀ u ∈ path, s₁.types.cell? u = none := by
        intro u hu
        rcases hs₁.cell?_cases u with ⟨t, ht⟩ | hmem | ⟨-, hc⟩
        · simp [hpath u hu] at ht
        · cases hmem
        · exact hc
      obtain ⟨depth', hd⟩ := hanswer
      obtain ⟨rest, rfl, hchain⟩ := direct_path hd
      refine ⟨⟨ty, rest, rfl, ⟨depth', hd⟩, hchain, hunrecorded⟩, hkept,
        fun later hlater other => ?_⟩
      have hempty := Session.memoizes_empty p
      exact ⟨answeredAlike hlater.memoizes hempty other, answeredAlike hempty hlater.memoizes other⟩

namespace Fragile

def float : Ty := .named "Float" []

def handle : Ty := .named "Handle" []

def inner : Ty := .named "Inner" []

def outer : Ty := .named "Outer" []

/-- A struct in a struct, the inner one with a field that cannot be represented. -/
def program : Program where
  name := "fragile"
  types :=
    [{ fullName := "Float", attributes := [.representation (some "OpTypeFloat 32")] },
      { fullName := "Handle", attributes := [.representation none] },
      { fullName := "Inner", fields := [⟨"weight", float⟩, ⟨"handle", handle⟩] },
      { fullName := "Outer", fields := [⟨"scale", float⟩, ⟨"inner", inner⟩] }]

/-- The request that fails. -/
def attempt : M LoweredType :=
  lowerReturn (lowerType program 9) (some outer)

theorem attempt_fails : ∃ s₁, attempt.outcome {} =
    (.error (.failed (.unsupported (.noRepresentation handle))), s₁) := by
  have hfails : (attempt.outcome {}).1.map (fun _ => ()) =
      .error (.failed (.unsupported (.noRepresentation handle))) := by
    decide +kernel
  rcases ho : attempt.outcome {} with ⟨e | t, s₁⟩
  · rw [ho] at hfails
    cases hfails
    exact ⟨s₁, rfl⟩
  · rw [ho] at hfails
    cases hfails

theorem answers_outer : Answers program [] outer
    (.error ⟨[outer, inner, handle], .unsupported (.noRepresentation handle)⟩) := by
  have hfails : (direct program 9 [] outer).map (fun _ => ()) =
      .error (.failed ⟨[outer, inner, handle], .unsupported (.noRepresentation handle)⟩) := by
    decide +kernel
  refine ⟨9, ?_⟩
  cases hd : direct program 9 [] outer with
  | ok t =>
    rw [hd] at hfails
    cases hfails
  | error e =>
    rw [hd] at hfails
    cases hfails
    rfl

end Fragile

theorem lowerReturn_resumes_fragile :
    ∃ s₁, Fragile.attempt.outcome {} =
        (.error (.failed (.unsupported (.noRepresentation Fragile.handle))), s₁) ∧
      (∃ journal, Fragile.attempt.outcome s₁ =
        (.error (.failed (.unsupported (.noRepresentation Fragile.handle))), { s₁ with journal })) ∧
      (∀ u ∈ [Fragile.outer, Fragile.inner, Fragile.handle], s₁.types.cell? u = none) ∧
      (s₁.types.get? Fragile.float).isSome = true ∧
      ∀ other, AnsweredAlike Fragile.program s₁ {} other := by
  obtain ⟨s₁, ho⟩ := Fragile.attempt_fails
  have hempty : Session.Reachable Fragile.program (fun _ => True) {} := .empty
  obtain ⟨hagain, hreachable, hfailed⟩ := lowerReturn_resumes hempty ho (by simp)
  obtain ⟨⟨requested, path, hrequested, hanswer, -, hpath⟩, -, halike⟩ := hfailed _ rfl
  have hfloat : ((Fragile.attempt.outcome {}).2.types.get? Fragile.float).isSome = true := by
    decide +kernel
  rw [ho] at hfloat
  obtain rfl : Fragile.outer = requested := Option.some.inj hrequested
  have hsame := hanswer.unique Fragile.answers_outer
  simp only [Except.error.injEq, Trail.mk.injEq, and_true] at hsame
  rw [hsame] at hpath
  exact ⟨s₁, ho, hagain, hpath, hfloat, fun other => (halike s₁ hreachable other).1⟩

end ShaderIR.Lowering
