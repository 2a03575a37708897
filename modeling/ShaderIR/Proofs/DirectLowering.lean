import ShaderIR.Proofs.Declaring

/-! Lowering a type with no table of lowered types. Nothing is declared and ids are left out; what
remains is the order in which a type asks for its parts and what can go wrong on the way. A failure
comes with the types that were being lowered when it happened. -/

namespace ShaderIR.Lowering

open Binary (Id)

/-! Lowered types without their ids. -/

mutual

/-- The type with all ids left out. -/
def LoweredType.bare : LoweredType → LoweredType
  | ⟨_, name, shape⟩ => ⟨⟨0⟩, name, shape.bare⟩

def Shape.bare : Shape LoweredType → Shape LoweredType
  | .void => .void
  | .bool => .bool
  | .int width signed => .int width signed
  | .float width => .float width
  | .vector component count => .vector component.bare count
  | .struct members => .struct (bareList members)

def bareList : List LoweredType → List LoweredType
  | [] => []
  | t :: ts => t.bare :: bareList ts

end

theorem bareList_eq_map (ts : List LoweredType) : bareList ts = ts.map LoweredType.bare := by
  induction ts with
  | nil => rfl
  | cons t ts ih => simp [bareList, ih]

@[simp] theorem LoweredType.name_bare (t : LoweredType) : t.bare.name = t.name := by
  cases t
  rfl

@[simp] theorem LoweredType.shape_bare (t : LoweredType) : t.bare.shape = t.shape.bare := by
  cases t
  rfl

@[simp] theorem LoweredType.isVoid_bare (t : LoweredType) : t.bare.isVoid = t.isVoid := by
  rw [isVoid, isVoid, shape_bare]
  cases t.shape <;> rfl

@[simp] theorem LoweredType.isScalar_bare (t : LoweredType) : t.bare.isScalar = t.isScalar := by
  rw [isScalar, isScalar, shape_bare]
  cases t.shape <;> rfl

/-! The parts of a type. -/

/-- A type that another one is made of, and what may be wrong with it there. -/
structure Component where
  ty : Ty
  complaint : LoweredType → Option LoweringError

/-- What a type is declared as. -/
inductive Plan where
  | void
  | bool
  | int (signed : Bool)
  | float
  | vector (argument : Ty) (count : UInt32)
  | struct (owner : Ty) (fields : List Field)

namespace Plan

def vectorComplaint (t : LoweredType) : Option LoweringError :=
  if t.isScalar then none else some (.unsupported (.nonScalarVector t.name))

def fieldComplaint (owner : Ty) (field : String) (t : LoweredType) : Option LoweringError :=
  if t.isVoid then some (.unsupported (.voidField field owner)) else none

/-- The parts, in the order in which they are lowered. -/
def components : Plan → List Component
  | .vector argument _ => [⟨argument, vectorComplaint⟩]
  | .struct owner fields => fields.map fun f => ⟨f.ty, fieldComplaint owner f.name⟩
  | _ => []

def shape : Plan → List LoweredType → Shape LoweredType
  | .void, _ => .void
  | .bool, _ => .bool
  | .int signed, _ => .int 32 signed
  | .float, _ => .float 32
  | .vector _ count, t :: _ => .vector t count
  | .vector _ _, [] => .void
  | .struct _ _, ts => .struct ts

def declare : Plan → List LoweredType → M LoweredType
  | .void, _ => declaring Declarations.void
  | .bool, _ => declaring Declarations.bool
  | .int signed, _ => declaring (Declarations.int 32 signed)
  | .float, _ => declaring (Declarations.float 32)
  | .vector _ count, t :: _ => declaring (Declarations.vector t count)
  | .vector _ _, [] => declaring Declarations.void
  | .struct _ _, ts => declaring (Declarations.struct ts)

theorem complaint_bare {plan : Plan} {c : Component} (hc : c ∈ plan.components)
    (t : LoweredType) : c.complaint t.bare = c.complaint t := by
  cases plan with
  | vector argument count =>
    obtain rfl := List.mem_singleton.mp hc
    simp [vectorComplaint]
  | struct owner fields =>
    obtain ⟨f, _, rfl⟩ := List.mem_map.mp hc
    simp [fieldComplaint]
  | void | bool | int _ | float => cases hc

theorem shape_map_bare (plan : Plan) (ts : List LoweredType) :
    plan.shape (ts.map LoweredType.bare) = (plan.shape ts).bare := by
  cases plan with
  | vector argument count => cases ts <;> rfl
  | struct owner fields => simp [shape, Shape.bare, bareList_eq_map]
  | void | bool | int _ | float => rfl

theorem declare_outcome (plan : Plan) (ts : List LoweredType) (s : Session) :
    ∃ id name declarations, (plan.declare ts).outcome s =
      (.ok ⟨id, name, plan.shape ts⟩, { s with declarations }) := by
  cases plan with
  | vector argument count => cases ts <;> exact ⟨_, _, _, rfl⟩
  | void | bool | int _ | float | struct _ _ => exact ⟨_, _, _, rfl⟩

end Plan

/-- What the type is declared as, if its declaration says so. -/
def plan (p : Program) (ty : Ty) : Except LoweringError Plan :=
  match p.construct ty with
  | .error e => .error (.ir e)
  | .ok i =>
    match i.representation? with
    | none => .ok (.struct ty i.fields)
    | some none => .error (.unsupported (.noRepresentation ty))
    | some (some name) =>
      match Representation.parse? name with
      | none => .error (.unsupported (.builtinType name))
      | some .void => .ok .void
      | some .bool => .ok .bool
      | some (.int signed) => .ok (.int signed)
      | some .float => .ok .float
      | some (.vector placeholder count) =>
        match i.substitution.get? placeholder with
        | none => .error (.unsupported (.placeholder placeholder ty))
        | some argument => .ok (.vector argument count)

/-- Lowers the parts of a type in order, and stops at the first that is not fit. -/
def lowerComponents (lower : Ty → M LoweredType) : List Component → M (List LoweredType)
  | [] => return []
  | c :: rest => do
    let t ← lower c.ty
    match c.complaint t with
    | some e => Walk.fail e
    | none => return t :: (← lowerComponents lower rest)

theorem lowerFields_eq (lower : Ty → M LoweredType) (ty : Ty) (fields : List Field) :
    lowerFields lower ty fields = lowerComponents lower (Plan.struct ty fields).components := by
  induction fields with
  | nil => rfl
  | cons f rest ih =>
    rw [lowerFields, ih]
    simp only [Plan.components, List.map_cons, lowerComponents, Plan.fieldComplaint]
    congr 1
    funext member
    by_cases hv : member.isVoid = true
    · simp only [hv, if_true]
      rfl
    · simp only [hv]
      rfl

/-- What is left of declaring a type when its plan is known. -/
def followPlan (lower : Ty → M LoweredType) (ty : Ty) (plan : Plan) : M LoweredType := do
  let ts ← lowerComponents lower plan.components
  let t ← plan.declare ts
  log (.lowered ty t.id)
  return { t with name := ty.text }

/-- The session after the instance of a type has been noted. -/
def Session.noting (s : Session) (p : Program) (ty : Ty) : Session :=
  { s with journal := s.journal.afterConstruct p ty }

theorem buildType_outcome (p : Program) (lower : Ty → M LoweredType) (ty : Ty) (s : Session) :
    (buildType p lower ty).outcome s =
      match plan p ty with
      | .error e => (.error (.failed e), s.noting p ty)
      | .ok plan => (followPlan lower ty plan).outcome (s.noting p ty) := by
  have hconstruct : (construct p ty).outcome s = (match p.construct ty with
      | .ok i => (.ok i, s.noting p ty)
      | .error e => (.error (.failed (.ir e)), s.noting p ty)) := by
    unfold construct
    cases p.construct ty <;> rfl
  unfold buildType plan
  rw [Walk.outcome_bind, hconstruct]
  cases p.construct ty with
  | error e => rfl
  | ok i =>
    dsimp only
    rcases i.representation? with _ | _ | name
    · dsimp only
      rw [followPlan, ← lowerFields_eq]
      rfl
    · rfl
    · dsimp only
      unfold lowerRepresentation
      rcases Representation.parse? name with _ | _ | _ | signed | _ | ⟨placeholder, count⟩
      · rfl
      · rfl
      · rfl
      · rfl
      · rfl
      · dsimp only
        cases i.substitution.get? placeholder with
        | none => rfl
        | some argument =>
          dsimp only
          simp only [followPlan, Plan.components, lowerComponents, bind_assoc]
          congr 2
          funext component
          unfold Plan.vectorComplaint
          by_cases hv : component.isScalar = true
          · simp only [hv, if_true]
            rfl
          · simp only [hv]
            rfl

/-! Requests for types. -/

/-- The session in which the parts of a type are lowered: the cell of the type is open. -/
def Session.opening (s : Session) (p : Program) (ty : Ty) : Session :=
  { s with types := s.types.set ty .building, journal := s.journal.afterConstruct p ty }

/-- The session after a type has been given up. -/
def Session.closing (s : Session) (ty : Ty) : Session :=
  { s with types := s.types.erase ty }

section Requests

variable {p : Program} {depth : Nat} {ty : Ty} {s : Session}

theorem lowerType_generic (hg : ty.isGeneric = true) :
    (lowerType p (depth + 1) ty).outcome s = (.error (.failed (.stillGeneric ty.text)), s) := by
  simp [lowerType, hg]

theorem lowerType_once (hg : ty.isGeneric = false) :
    (lowerType p (depth + 1) ty).outcome s =
      (once .types ty (buildType p (lowerType p depth) ty)).outcome s := by
  rw [lowerType, if_neg (by simp [hg])]

theorem lowerType_found {t : LoweredType} (hg : ty.isGeneric = false)
    (ht : s.types.get? ty = some t) : (lowerType p (depth + 1) ty).outcome s = (.ok t, s) := by
  have hclaim : (Table.types.get s).claim ty = .found t := by
    rw [OnceMap.get?_eq_some] at ht
    simp [Table.types, OnceMap.claim, ht]
  rw [lowerType_once hg, once_outcome, hclaim]

theorem lowerType_reentrant (hg : ty.isGeneric = false)
    (hc : s.types.cell? ty = some .building) :
    (lowerType p (depth + 1) ty).outcome s = (.error (.failed .cyclic), s) := by
  have hclaim : (Table.types.get s).claim ty = .reentrant := by
    simp [Table.types, OnceMap.claim, hc]
  rw [lowerType_once hg, once_outcome, hclaim]

/-- A type that has no cell is built. -/
theorem lowerType_granted (hg : ty.isGeneric = false) (hc : s.types.cell? ty = none) :
    (lowerType p (depth + 1) ty).outcome s =
      match plan p ty with
      | .error e => (.error (.failed e), (s.opening p ty).closing ty)
      | .ok plan =>
        match (followPlan (lowerType p depth) ty plan).outcome (s.opening p ty) with
        | (.ok t, u) => (.ok t, { u with types := u.types.set ty (.ready t) })
        | (.error e, u) => (.error e, u.closing ty) := by
  have hclaim : (Table.types.get s).claim ty = .granted (s.types.set ty .building) := by
    simp [Table.types, OnceMap.claim, hc]
  rw [lowerType_once hg, once_outcome, hclaim]
  dsimp only
  rw [buildType_outcome]
  cases plan p ty with
  | error e => rfl
  | ok plan =>
    have hopening :
        (Table.types.set s (s.types.set ty .building)).noting p ty = s.opening p ty := rfl
    dsimp only
    rw [hopening]
    rcases (followPlan (lowerType p depth) ty plan).outcome (s.opening p ty) with ⟨e | t, u⟩ <;> rfl

theorem followPlan_stopped {lower : Ty → M LoweredType} (ty : Ty) {plan : Plan}
    {e : Stop LoweringError} {u : Session}
    (hu : (lowerComponents lower plan.components).outcome s = (.error e, u)) :
    (followPlan lower ty plan).outcome s = (.error e, u) := by
  rw [followPlan, Walk.outcome_bind, hu]

theorem followPlan_declared {lower : Ty → M LoweredType} (ty : Ty) {plan : Plan}
    {ts : List LoweredType} {u : Session}
    (hu : (lowerComponents lower plan.components).outcome s = (.ok ts, u)) :
    ∃ id declarations journal, (followPlan lower ty plan).outcome s =
      (.ok ⟨id, ty.text, plan.shape ts⟩, { u with declarations, journal }) := by
  obtain ⟨id, name, declarations, hdeclare⟩ := plan.declare_outcome ts u
  refine ⟨id, declarations, u.journal.record (.lowered ty id), ?_⟩
  rw [followPlan, Walk.outcome_bind, hu]
  dsimp only
  rw [Walk.outcome_bind, hdeclare]
  rfl

end Requests

/-! Lowering without a table. -/

/-- A failure with the types that were being lowered, the requested one first. -/
structure Trail where
  path : List Ty
  error : LoweringError
deriving DecidableEq

def directComponents (lower : Ty → Except (Stop Trail) LoweredType) :
    List Component → Except (Stop Trail) (List LoweredType)
  | [] => .ok []
  | c :: rest =>
    match lower c.ty with
    | .error e => .error e
    | .ok t =>
      match c.complaint t with
      | some e => .error (.failed ⟨[], e⟩)
      | none =>
        match directComponents lower rest with
        | .error e => .error e
        | .ok ts => .ok (t :: ts)

/-- Lowers a type as a part of the types of `stack`. -/
def direct (p : Program) : Nat → List Ty → Ty → Except (Stop Trail) LoweredType
  | 0, _, _ => .error .tooDeep
  | depth + 1, stack, ty =>
    if ty.isGeneric then .error (.failed ⟨[ty], .stillGeneric ty.text⟩)
    else if ty ∈ stack then .error (.failed ⟨[ty], .cyclic⟩)
    else
      match plan p ty with
      | .error e => .error (.failed ⟨[ty], e⟩)
      | .ok plan =>
        match directComponents (direct p depth (ty :: stack)) plan.components with
        | .ok ts => .ok ⟨⟨0⟩, ty.text, plan.shape ts⟩
        | .error (.failed trail) => .error (.failed ⟨ty :: trail.path, trail.error⟩)
        | .error .tooDeep => .error .tooDeep

/-- Lowering the first type asks for the second one. -/
def AsksFor (p : Program) (ty part : Ty) : Prop :=
  ∃ plan', plan p ty = .ok plan' ∧ part ∈ plan'.components.map Component.ty

/-- A failure while parts are lowered comes from a part or is about one that has been lowered. -/
theorem directComponents_failed {lower : Ty → Except (Stop Trail) LoweredType}
    {cs : List Component} {trail : Trail}
    (h : directComponents lower cs = .error (.failed trail)) :
    trail.path = [] ∨ ∃ part ∈ cs.map Component.ty, lower part = .error (.failed trail) := by
  induction cs with
  | nil => simp [directComponents] at h
  | cons c rest ih =>
    rw [directComponents] at h
    cases hl : lower c.ty with
    | error e =>
      rw [hl] at h
      cases h
      exact .inr ⟨c.ty, by simp, hl⟩
    | ok t =>
      rw [hl] at h
      dsimp only at h
      cases hc : c.complaint t with
      | some e =>
        rw [hc] at h
        cases h
        exact .inl rfl
      | none =>
        rw [hc] at h
        dsimp only at h
        cases hrest : directComponents lower rest with
        | ok ts => simp [hrest] at h
        | error e =>
          rw [hrest] at h
          cases h
          refine (ih hrest).imp_right ?_
          rintro ⟨part, hpart, hl⟩
          exact ⟨part, List.mem_cons_of_mem _ hpart, hl⟩

/-- The path to a failure starts at the type, and each type on it asks for the next. -/
theorem direct_path {p : Program} {depth : Nat} {stack : List Ty} {ty : Ty} {trail : Trail}
    (h : direct p depth stack ty = .error (.failed trail)) :
    ∃ path, trail.path = ty :: path ∧ List.IsChain (AsksFor p) (ty :: path) := by
  induction depth generalizing stack ty trail with
  | zero => simp [direct] at h
  | succ depth ih =>
    rw [direct] at h
    split at h
    · cases h
      exact ⟨[], rfl, .singleton ty⟩
    split at h
    · cases h
      exact ⟨[], rfl, .singleton ty⟩
    cases hp : plan p ty with
    | error e =>
      rw [hp] at h
      cases h
      exact ⟨[], rfl, .singleton ty⟩
    | ok plan' =>
      rw [hp] at h
      dsimp only at h
      cases hparts : directComponents (direct p depth (ty :: stack)) plan'.components with
      | ok ts => simp [hparts] at h
      | error e =>
        cases e with
        | tooDeep => simp [hparts] at h
        | failed inner =>
          rw [hparts] at h
          cases h
          rcases directComponents_failed hparts with hnil | ⟨part, hpart, hl⟩
          · exact ⟨[], by simp [hnil], .singleton ty⟩
          · obtain ⟨path, hpath, hchain⟩ := ih hl
            exact ⟨part :: path, by simp [hpath], .cons_cons ⟨plan', hp, hpart⟩ hchain⟩

theorem directComponents_congr {lower lower' : Ty → Except (Stop Trail) LoweredType}
    (h : ∀ ty, lower ty ≠ .error .tooDeep → lower' ty = lower ty) {cs : List Component}
    (hcs : directComponents lower cs ≠ .error .tooDeep) :
    directComponents lower' cs = directComponents lower cs := by
  induction cs with
  | nil => rfl
  | cons c rest ih =>
    have hc : lower c.ty ≠ .error .tooDeep := by
      intro hdeep
      simp [directComponents, hdeep] at hcs
    simp only [directComponents, h c.ty hc] at hcs ⊢
    cases hl : lower c.ty with
    | error e => rfl
    | ok t =>
      rw [hl] at hcs
      dsimp only at hcs ⊢
      cases hcomplaint : c.complaint t with
      | some e => rfl
      | none =>
        rw [hcomplaint] at hcs
        dsimp only at hcs ⊢
        have hrest : directComponents lower rest ≠ .error .tooDeep := by
          intro hdeep
          simp [hdeep] at hcs
        rw [ih hrest]

theorem direct_succ {p : Program} {depth : Nat} {stack : List Ty} {ty : Ty}
    (h : direct p depth stack ty ≠ .error .tooDeep) :
    direct p (depth + 1) stack ty = direct p depth stack ty := by
  induction depth generalizing stack ty with
  | zero => exact absurd rfl h
  | succ depth ih =>
    rw [direct] at h
    rw [direct, direct.eq_def p (depth + 1)]
    dsimp only
    by_cases hg : ty.isGeneric = true
    · simp [hg]
    by_cases hs : ty ∈ stack
    · simp [hs]
    simp only [hg, hs, if_false] at h ⊢
    cases hp : plan p ty with
    | error e => rfl
    | ok plan =>
      rw [hp] at h
      dsimp only at h ⊢
      have hparts : directComponents (direct p depth (ty :: stack)) plan.components ≠
          .error .tooDeep := by
        intro hdeep
        simp [hdeep] at h
      rw [directComponents_congr (fun u hu => ih hu) hparts]

theorem direct_mono {p : Program} {depth depth' : Nat} {stack : List Ty} {ty : Ty}
    (h : direct p depth stack ty ≠ .error .tooDeep) (hle : depth ≤ depth') :
    direct p depth' stack ty = direct p depth stack ty := by
  induction hle with
  | refl => rfl
  | step _ ih => rw [← ih, direct_succ (by rwa [ih])]

theorem mapError_ne_tooDeep {α : Type} (r : Except Trail α) :
    r.mapError Stop.failed ≠ .error .tooDeep := by
  cases r <;> simp [Except.mapError]

theorem mapError_injective {α : Type} {r r' : Except Trail α}
    (h : r.mapError Stop.failed = r'.mapError Stop.failed) : r = r' := by
  cases r <;> cases r' <;> simp_all [Except.mapError]

/-- Lowering the type inside the types of `stack` comes to this end. -/
def Answers (p : Program) (stack : List Ty) (ty : Ty) (r : Except Trail LoweredType) : Prop :=
  ∃ depth, direct p depth stack ty = r.mapError .failed

/-- Lowering the parts inside the types of `stack` comes to this end. -/
def AnswersAll (p : Program) (stack : List Ty) (cs : List Component)
    (r : Except Trail (List LoweredType)) : Prop :=
  ∃ depth, directComponents (direct p depth stack) cs = r.mapError .failed

section Answers

variable {p : Program} {stack : List Ty} {ty : Ty} {r r' : Except Trail LoweredType}

theorem Answers.eventually (h : Answers p stack ty r) :
    ∃ depth, ∀ depth' ≥ depth, direct p depth' stack ty = r.mapError .failed := by
  obtain ⟨depth, hd⟩ := h
  refine ⟨depth, fun depth' hle => ?_⟩
  rw [direct_mono (hd ▸ mapError_ne_tooDeep r) hle, hd]

theorem Answers.unique (h : Answers p stack ty r) (h' : Answers p stack ty r') : r = r' := by
  obtain ⟨depth, hd⟩ := h.eventually
  obtain ⟨depth', hd'⟩ := h'.eventually
  apply mapError_injective
  rw [← hd (max depth depth') (by omega), ← hd' (max depth depth') (by omega)]

theorem Answers.at_depth (h : Answers p stack ty r) (depth : Nat) :
    direct p depth stack ty = .error .tooDeep ∨
      direct p depth stack ty = r.mapError .failed := by
  obtain ⟨depth', hd⟩ := h.eventually
  by_cases hdeep : direct p depth stack ty = .error .tooDeep
  · exact .inl hdeep
  · have hmono := direct_mono hdeep (show depth ≤ max depth depth' by omega)
    exact .inr (hmono.symm.trans (hd _ (by omega)))

theorem directComponents_mono {depth depth' : Nat} {cs : List Component}
    (h : directComponents (direct p depth stack) cs ≠ .error .tooDeep) (hle : depth ≤ depth') :
    directComponents (direct p depth' stack) cs = directComponents (direct p depth stack) cs :=
  directComponents_congr (fun _ hty => direct_mono hty hle) h

theorem answersAll_nil (p : Program) (stack : List Ty) : AnswersAll p stack [] (.ok []) :=
  ⟨0, rfl⟩

variable {c : Component} {rest : List Component}

theorem answersAll_failed {trail : Trail} (h : Answers p stack c.ty (.error trail)) :
    AnswersAll p stack (c :: rest) (.error trail) := by
  obtain ⟨depth, hd⟩ := h
  exact ⟨depth, by simp [directComponents, hd, Except.mapError]⟩

theorem answersAll_unfit {t : LoweredType} {e : LoweringError}
    (h : Answers p stack c.ty (.ok t)) (hc : c.complaint t = some e) :
    AnswersAll p stack (c :: rest) (.error ⟨[], e⟩) := by
  obtain ⟨depth, hd⟩ := h
  exact ⟨depth, by simp [directComponents, hd, hc, Except.mapError]⟩

theorem answersAll_cons {t : LoweredType} {rs : Except Trail (List LoweredType)}
    (h : Answers p stack c.ty (.ok t)) (hc : c.complaint t = none)
    (hrest : AnswersAll p stack rest rs) :
    AnswersAll p stack (c :: rest) (rs.map (t :: ·)) := by
  obtain ⟨depth, hd⟩ := h.eventually
  obtain ⟨depth', hd'⟩ := hrest
  have hne := mapError_ne_tooDeep rs
  rw [← hd'] at hne
  have hmax := directComponents_mono hne (show depth' ≤ max depth depth' by omega)
  have hfirst := hd (max depth depth') (by omega)
  refine ⟨max depth depth', ?_⟩
  rw [directComponents, hfirst, hmax, hd']
  cases rs <;> simp [Except.mapError, Except.map, hc]

theorem answers_generic (hg : ty.isGeneric = true) :
    Answers p stack ty (.error ⟨[ty], .stillGeneric ty.text⟩) :=
  ⟨1, by simp [direct, hg, Except.mapError]⟩

theorem answers_cyclic (hg : ty.isGeneric = false) (hs : ty ∈ stack) :
    Answers p stack ty (.error ⟨[ty], .cyclic⟩) :=
  ⟨1, by simp [direct, hg, hs, Except.mapError]⟩

theorem answers_unplanned (hg : ty.isGeneric = false) (hs : ty ∉ stack) {e : LoweringError}
    (hp : plan p ty = .error e) : Answers p stack ty (.error ⟨[ty], e⟩) :=
  ⟨1, by simp [direct, hg, hs, hp, Except.mapError]⟩

theorem answers_stopped (hg : ty.isGeneric = false) (hs : ty ∉ stack) {plan' : Plan}
    (hp : plan p ty = .ok plan') {trail : Trail}
    (h : AnswersAll p (ty :: stack) plan'.components (.error trail)) :
    Answers p stack ty (.error ⟨ty :: trail.path, trail.error⟩) := by
  obtain ⟨depth, hd⟩ := h
  exact ⟨depth + 1, by simp [direct, hg, hs, hp, hd, Except.mapError]⟩

theorem answers_declared (hg : ty.isGeneric = false) (hs : ty ∉ stack) {plan' : Plan}
    (hp : plan p ty = .ok plan') {ts : List LoweredType}
    (h : AnswersAll p (ty :: stack) plan'.components (.ok ts)) :
    Answers p stack ty (.ok ⟨⟨0⟩, ty.text, plan'.shape ts⟩) := by
  obtain ⟨depth, hd⟩ := h
  exact ⟨depth + 1, by simp [direct, hg, hs, hp, hd, Except.mapError]⟩

end Answers

end ShaderIR.Lowering
