import ShaderIR.Proofs.Declaring

/-! A lowered type is declared in the module, together with the types it is made of, and has the
shape that its type asks for. -/

namespace ShaderIR.Lowering

open Binary (Id Inst)

variable {p : Program} {known : LocatedMethod → Prop} {s : Session} {held : List UInt32}

theorem LoweredType.Declared.of_shape {code : List Inst} {t t' : LoweredType}
    (h : t.Declared code) (hid : t'.id = t.id) (hs : t'.shape = t.shape) : t'.Declared code := by
  refine ⟨?_, ?_⟩
  · rw [hid, hs]
    exact h.here
  · intro part hp
    rw [hs] at hp
    exact h.part hp

/-- What a request for a type promises. -/
def LowersWell (p : Program) (known : LocatedMethod → Prop) (lower : Ty → M LoweredType) : Prop :=
  ∀ s held, s.Sound p known held → ∀ ty, Lands p known (lower ty) s fun t u =>
    u.Sound p known held ∧ u.Lowered ty t

/-- A type made of lowered types is lowered by its declaration. -/
theorem Session.Sound.typeEntry (hs : s.Sound p known held) {ty : Ty} {t : LoweredType}
    (hg : ty.isGeneric = false) (hd : t.Declared s.code) (hl : LoweredFrom p s.Lowered ty t) :
    TypeEntry p s.Lowered s.code ty t :=
  ⟨hg, hd, (hl.mono fun _ _ h => (hs.types _ _ h).lowers).lowers, hl⟩

theorem declares_of_scalarShape? {r : Representation} {shape : Shape LoweredType}
    (h : r.scalarShape? = some shape) (id : Id) : Declares (shape.key.inst id) := by
  cases r with
  | void =>
    cases h
    exact .void _
  | bool =>
    cases h
    exact .bool _
  | int signed =>
    cases h
    exact .int _ _
  | float =>
    cases h
    exact .float _
  | vector => cases h

/-- The declaration of a type that the platform provides. -/
structure Session.Provides (p : Program) (s : Session) (ty : Ty) (t : LoweredType) : Prop where
  declared : t.Declared s.code
  lowered : LoweredFrom p s.Lowered ty t
  shape : ∀ members, t.shape ≠ .struct members

theorem lands_scalar (hs : s.Sound p known held) {ty : Ty} {i : TypeInstance} {name : String}
    {r : Representation} {shape : Shape LoweredType} (hc : p.construct ty = .ok i)
    (hr : i.representation? = some (some name)) (hp : Representation.parse? name = some r)
    (hshape : r.scalarShape? = some shape) (hparts : shape.parts = [])
    (hop : shape.key.op ≠ .typeStruct) (text : String) :
    Lands p known
      (do return (⟨← declaring (Declarations.intern shape.key), text, shape⟩ : LoweredType)) s
      fun t u => u.Sound p known held ∧ u.Provides p ty t := by
  refine (lands_shape hs (by simp [hparts]) (declares_of_scalarShape? hshape) hop text).mono ?_
  rintro t u _ ⟨hu, ht, rfl⟩
  refine ⟨hu, ht, .scalar hc hr hp hshape, fun members hmembers => hop ?_⟩
  simp [hmembers, Shape.key]

theorem lands_lowerRepresentation (hs : s.Sound p known held) {ty : Ty} {i : TypeInstance}
    {name : String} {argument : String → M LoweredType} (hc : p.construct ty = .ok i)
    (hr : i.representation? = some (some name))
    (ha : ∀ placeholder, Lands p known (argument placeholder) s fun t u =>
      u.Sound p known held ∧
        ∃ a, i.substitution.get? placeholder = some a ∧ u.Lowered a t) :
    Lands p known (lowerRepresentation name argument) s fun t u =>
      u.Sound p known held ∧ u.Provides p ty t := by
  unfold lowerRepresentation
  cases hp : Representation.parse? name with
  | none => exact lands_fail hs _
  | some r =>
    cases r with
    | void => exact lands_scalar hs hc hr hp rfl rfl (by simp [Shape.key]) _
    | bool => exact lands_scalar hs hc hr hp rfl rfl (by simp [Shape.key]) _
    | int signed => exact lands_scalar hs hc hr hp rfl rfl (by simp [Shape.key]) _
    | float => exact lands_scalar hs hc hr hp rfl rfl (by simp [Shape.key]) _
    | vector placeholder count =>
      refine (ha placeholder).bind ?_
      rintro component t _ ⟨ht, a, hget, hl⟩
      by_cases hscalar : component.isScalar = true
      · simp only [hscalar, if_true]
        have hcarries : t.Carries known component :=
          ⟨(ht.types a component hl).declared, .inl (LoweredType.isVoid_of_isScalar hscalar)⟩
        have hparts : ∀ part ∈ (Shape.vector component count).parts, t.Carries known part := by
          simpa [Shape.parts] using hcarries
        refine (lands_shape ht hparts (fun _ => .vector _ _ _) (by simp [Shape.key]) _).mono ?_
        rintro v u hg ⟨hu, hv, hvs⟩
        have hl' : u.Lowered a component := hg.types.ready a component hl
        exact ⟨hu, hv, .vector hc hr hp hget hl' hscalar hvs, by simp [hvs]⟩
      · simp only [hscalar]
        exact lands_fail ht _

theorem lands_lowerFields {lower : Ty → M LoweredType} (hl : LowersWell p known lower)
    (hs : s.Sound p known held) (ty : Ty) (fields : List Field) :
    Lands p known (lowerFields lower ty fields) s fun members u =>
      u.Sound p known held ∧
        List.Forall₂ (fun f m => u.Lowered (Field.ty f) m ∧ m.isVoid = false) fields members := by
  induction fields generalizing s with
  | nil => exact lands_pure ⟨hs, .nil⟩
  | cons f rest ih =>
    refine (hl s held hs f.ty).bind ?_
    rintro member t _ ⟨ht, hlow⟩
    by_cases hv : member.isVoid = true
    · simp only [hv, if_true]
      exact lands_fail_bind ht _
    · simp only [hv]
      refine (ih ht).bind ?_
      rintro members u hg ⟨hu, hlows⟩
      have hmember : u.Lowered f.ty member := hg.types.ready f.ty member hlow
      exact lands_pure ⟨hu, .cons ⟨hmember, by simpa using hv⟩ hlows⟩

/-- The session after a struct has been declared for a type. -/
def Session.withStruct (s : Session) (ty : Ty) (members : List LoweredType) : Session :=
  { s with
    declarations := ⟨s.declarations.issued + 1, s.declarations.shared,
      s.declarations.code.push ((Shape.struct members).key.inst s.declarations.nextId)⟩
    types := s.types.set ty (.ready ⟨s.declarations.nextId, ty.text, .struct members⟩) }

theorem Session.Sound.withStruct (hs : s.Sound p known held) {ty : Ty} {i : TypeInstance}
    {members : List LoweredType} (hnone : s.types.get? ty = none) (hg : ty.isGeneric = false)
    (hc : p.construct ty = .ok i) (hr : i.representation? = none)
    (hm : List.Forall₂ (fun f m => s.Lowered (Field.ty f) m ∧ m.isVoid = false) i.fields members) :
    (s.withStruct ty members).Sound p known held := by
  have hkeep : ∀ ty' t', s.Lowered ty' t' → (s.withStruct ty members).Lowered ty' t' :=
    fun _ _ h => OnceMap.get?_set_of_get? hnone h
  have hcarries : ∀ m ∈ members, s.Carries known m := by
    intro m hmem
    obtain ⟨f, _, hlow, hvalue⟩ := exists_of_forall₂ hm hmem
    exact ⟨(hs.types f.ty m hlow).declared, .inl hvalue⟩
  have hdeclared : ∀ m ∈ members, m.Declared s.code := fun m hmem => (hcarries m hmem).declared
  have hvalid : (Shape.struct members).key.Valid s.code :=
    valid_shape hdeclared fun _ => .struct _ _
  have hd := hs.declarations.push s.declarations.shared hvalid
    (by simp [sharedDeclaration?, DeclarationKey.inst, Shape.key]) hs.declarations.keys
  have hsub : s.code ⊆ (s.withStruct ty members).code := by
    intro i hi
    simp only [Session.code, Session.withStruct, Array.toList_push, List.mem_append]
    exact .inl hi
  obtain ⟨owners, hnodup, hdeclares, howners⟩ := hs.structs
  have hnew : ty ∉ owners := by
    intro hmem
    obtain ⟨k, hk⟩ := List.getElem?_of_mem hmem
    obtain ⟨hlt, rfl⟩ := List.getElem?_eq_some_iff.mp hk
    obtain ⟨t, ht, _⟩ := (List.forall₂_iff_get.mp hdeclares).2 k hlt
      (by rw [← hdeclares.length_eq]; exact hlt)
    simp only [Session.Lowered, List.get_eq_getElem] at ht
    rw [hnone] at ht
    cases ht
  have hvalues : ∀ j ∈ (s.withStruct ty members).code, j ∈ s.code ∨ s.Values known j := by
    intro j hj
    simp only [Session.code, Session.withStruct, Array.toList_push, List.mem_append,
      List.mem_singleton] at hj
    refine hj.imp_right ?_
    rintro rfl
    exact Session.values_of_map _ (Shape.valueTypes_key _ _) hcarries
  refine hs.extend hd hsub hkeep ?_ ?_ hvalues (count_push hvalid held)
  · intro ty' t' ht'
    rcases OnceMap.get?_of_set_ready ht' with ⟨rfl, rfl⟩ | hold
    · have hlayer : LoweredFrom p s.Lowered ty'
          ⟨s.declarations.nextId, ty'.text, .struct members⟩ :=
        .struct hc hr rfl hm
      refine .inr ⟨hg, ⟨?_, fun part hp => (hdeclared part hp).mono hsub⟩,
        (hlayer.mono fun _ _ h => (hs.types _ _ h).lowers).lowers, hlayer.mono hkeep⟩
      simp
    · exact .inl hold
  · have hfilter : (s.withStruct ty members).code.filter (fun i => i.op = .typeStruct) =
        (s.code.filter fun i => i.op = .typeStruct) ++
          [(Shape.struct members).key.inst s.declarations.nextId] := by
      simp [Session.code, Session.withStruct, Shape.key, DeclarationKey.inst]
    have hdeclares' : DeclaresStructs (s.withStruct ty members).Lowered (owners ++ [ty])
        (s.withStruct ty members).code := by
      unfold DeclaresStructs
      rw [hfilter]
      refine List.rel_append (hdeclares.imp ?_) (.cons ⟨_, OnceMap.get?_set_ready _ _ _, rfl⟩ .nil)
      exact fun ty' i hi => hi.imp fun t' ht' => ⟨hkeep ty' t' ht'.1, ht'.2⟩
    refine ⟨owners ++ [ty], ?_, hdeclares', ?_⟩
    · rw [← List.concat_eq_append]
      exact hnodup.concat hnew
    · intro ty' t' members' ht' hstruct
      rcases OnceMap.get?_of_set_ready ht' with ⟨rfl, rfl⟩ | hold
      · exact List.mem_append_right _ (List.mem_singleton_self _)
      · exact List.mem_append_left _ (howners ty' t' members' hold hstruct)

theorem lands_buildType {lower : Ty → M LoweredType} (hl : LowersWell p known lower)
    (hs : s.Sound p known held) {ty : Ty} (hg : ty.isGeneric = false)
    (hopen : s.types.cell? ty = some .building) :
    Lands p known (buildType p lower ty) s fun t u => (u.settle ty t).Sound p known held := by
  have hnone : ∀ {u : Session}, s.Grows u → u.types.get? ty = none :=
    fun h => OnceMap.get?_eq_none_of_building ((h.types.building ty).mp hopen)
  refine (lands_construct hs ty).bind ?_
  rintro i t hgt ⟨hc, ht⟩
  cases hr : i.representation? with
  | none =>
    refine (lands_lowerFields hl ht ty i.fields).bind ?_
    rintro members u hgu ⟨hu, hm⟩
    -- nothing can fail between the declaration of a struct and the entry for its type
    have hgrows := u.grows_push u.declarations.shared (u.declarations.issued + 1)
      ((Shape.struct members).key.inst u.declarations.nextId)
    have hstruct := hu.withStruct (hnone (hgt.trans hgu)) hg hc hr hm
    exact ⟨hgrows.trans (.withJournal _ _), hstruct.withJournal _⟩
  | some name? =>
    cases name? with
    | none => exact lands_fail_bind ht _
    | some name =>
      refine (lands_lowerRepresentation ht hc hr fun placeholder => ?_).bind ?_
      · cases hget : i.substitution.get? placeholder with
        | none => exact lands_fail ht _
        | some a =>
          refine (hl t held ht a).mono ?_
          rintro v u _ ⟨hu, hv⟩
          exact ⟨hu, a, rfl, hv⟩
      · rintro v u hgu ⟨hu, hv⟩
        have hentry := hu.typeEntry (t := { v with name := ty.text }) hg
          (hv.declared.of_shape rfl rfl) (hv.lowered.of_shape rfl)
        have hsettled := hu.settle (hnone (hgt.trans hgu)) hentry hv.shape
        exact ⟨.withJournal u _, hsettled.withJournal _⟩

theorem lowersWell_lowerType (p : Program) (known : LocatedMethod → Prop) (depth : Nat) :
    LowersWell p known (lowerType p depth) := by
  induction depth with
  | zero =>
    intro s held hs ty
    exact lands_throw hs _
  | succ depth ih =>
    intro s held hs ty
    rw [lowerType]
    by_cases hg : ty.isGeneric = true
    · simp only [hg, if_true]
      exact lands_fail hs _
    · simp only [hg]
      exact lands_once_types hs fun t ht hopen =>
        lands_buildType ih ht (Bool.eq_false_iff.mpr hg) hopen

end ShaderIR.Lowering
