import ShaderIR.Proofs.Mirroring

/-! Lowering a type again that a finished session has lowered. The request succeeds if it may go as
deep as the type is, and gives a type that matches. -/

namespace ShaderIR.Lowering

open Binary (Id Inst results)

theorem LoweredType.sizeOf_part_lt {t part : LoweredType} (h : part ∈ t.shape.parts) :
    sizeOf part < sizeOf t := by
  obtain ⟨id, name, shape⟩ := t
  cases shape with
  | vector component count =>
    obtain rfl : part = component := by simpa [Shape.parts] using h
    simp
    omega
  | struct members =>
    have hlt := List.sizeOf_lt_of_mem (show part ∈ members from h)
    simp
    omega
  | _ => cases h

/-- The type is under construction as well. -/
def OpenCells.withType (cells : OpenCells) (ty : Ty) : OpenCells :=
  ⟨fun k => k = ty ∨ cells.types k, cells.methods⟩

variable {p : Program} {s t : Session} {cells : OpenCells} {reserved names : List UInt32}
variable {enough : Prop}

theorem Session.Mirrors.claimType (h : s.Mirrors cells reserved names t) {ty : Ty}
    {claimed : OnceMap Ty LoweredType} (hc : t.types.claim ty = .granted claimed) :
    s.Mirrors (cells.withType ty) reserved names { t with types := claimed } := by
  have hget := OnceMap.get?_claimed hc
  obtain ⟨rfl, _, _⟩ := OnceMap.claim_granted hc
  refine h.extend List.prefix_rfl h.issued h.distinct (fun y hy => .inl hy) (List.Subset.refl _)
    (fun k x hk => .inl hk) (fun i hi => .inl hi) (fun k a ha => (hget k).trans ha)
    (fun k a ha => .inl ((hget k).symm.trans ha)) ?_
  intro k
  have hopen := h.openTypes k
  by_cases hk : k = ty <;> simp [hk, hopen]

theorem Session.Mirrors.openTypes_settle {u : Session} {ty : Ty}
    (h : s.Mirrors (cells.withType ty) reserved names u) (hclosed : ¬ cells.types ty)
    (a : LoweredType) (k : Ty) :
    (u.types.set ty (.ready a)).cell? k = some .building ↔ cells.types k := by
  have hopen := h.openTypes k
  by_cases hk : k = ty
  · simp [hk, hclosed]
  · simpa [OpenCells.withType, hk] using hopen

theorem Session.Mirrors.get?_eq_none {u : Session} {ty : Ty}
    (h : s.Mirrors (cells.withType ty) reserved names u) : u.types.get? ty = none :=
  OnceMap.get?_eq_none_of_building ((h.openTypes ty).mpr (.inl rfl))

/-- A type that matches may be settled. Structs take an id of their own and are settled with it. -/
theorem Session.Mirrors.settle {u : Session} {ty : Ty}
    (h : s.Mirrors (cells.withType ty) reserved names u) (hclosed : ¬ cells.types ty)
    {a b : LoweredType} (hb : s.Lowered ty b) (hab : a.Matches (StandsFor names) b) :
    s.Mirrors cells reserved names (u.settle ty a) := by
  refine h.extend List.prefix_rfl h.issued h.distinct (fun y hy => .inl hy) (List.Subset.refl _)
    (fun k x hk => .inl hk) (fun i hi => .inl hi)
    (fun k c hc => OnceMap.get?_set_of_get? h.get?_eq_none hc) ?_ (h.openTypes_settle hclosed a)
  intro k c hc
  rcases OnceMap.get?_of_set_ready hc with he | hold
  · obtain ⟨rfl, rfl⟩ := he
    exact .inr ⟨b, hb, hab⟩
  · exact .inl hold

theorem Session.Mirrors.struct_not_taken {u : Session} {ty : Ty} (hs : s.Finished p)
    (h : s.Mirrors (cells.withType ty) reserved names u) {b : LoweredType}
    {members : List LoweredType} (hb : s.Lowered ty b) (hshape : b.shape = .struct members) :
    b.id.val ∉ names ++ reserved := by
  intro hmem
  have hnd := hs.nodup_defined.of_append_left
  have hdeclared := (hs.sound.types ty b hb).declared
  have hresult := b.shape.key_result b.id
  have haccounts := h.accounts _ hmem
  generalize hz : b.id.val = z at haccounts hresult
  cases haccounts with
  | @shared k k' x y _ hy _ =>
    obtain ⟨hi, hop, _, hresult'⟩ := hs.declared_of_shared hy
    have he := Binary.eq_of_result_eq hnd hdeclared.here hi hresult hresult'
    rw [hshape] at he
    exact hop (congrArg Inst.op he).symm
  | @struct ty' a' b' members' ha' hb' hshape' =>
    have hid : b.id = b'.id := congrArg Id.mk hz
    obtain rfl := hs.sound.eq_of_struct_id_eq hs.few hb hb' hshape hshape' hid
    exact absurd (h.get?_eq_none.symm.trans ha') (by simp)
  | function hg hy _ => exact hs.not_mem_code hg hy (Binary.result_mem hdeclared.here hresult)

/-- A struct is declared along with the one of the same type. -/
theorem Session.Mirrors.withStruct {u : Session} {ty : Ty} (hs : s.Finished p)
    (h : s.Mirrors (cells.withType ty) reserved names u) (hclosed : ¬ cells.types ty)
    {b : LoweredType} {members members' : List LoweredType} (hb : s.Lowered ty b)
    (hshape : b.shape = .struct members')
    (hm : List.Forall₂ (LoweredType.MatchesPart (StandsFor names)) members members') :
    s.Mirrors cells reserved (names ++ [b.id.val]) (u.withStruct ty members) ∧
      LoweredType.Matches (StandsFor (names ++ [b.id.val]))
        ⟨u.declarations.nextId, ty.text, .struct members⟩ b := by
  have hprefix : names <+: names ++ [b.id.val] := List.prefix_append _ _
  have hstands := StandsFor.last names b.id.val
  rw [h.issued] at hstands
  have hparts := hm.imp fun _ _ hxy => hxy.mono (StandsFor.mono hprefix)
  have houtline : (Shape.struct members).outline = (Shape.struct members').outline := by
    simp [Shape.outline, hm.length_eq]
  have hmatches : LoweredType.Matches (StandsFor (names ++ [b.id.val]))
      ⟨u.declarations.nextId, ty.text, .struct members⟩ b :=
    ⟨⟨hstands, by rw [hshape]; exact houtline⟩, by rw [hshape]; exact hparts⟩
  have hdeclared := (hs.sound.types ty b hb).declared.here
  have hkey := DeclarationKey.Matches.key houtline hparts
  rw [← hshape] at hkey
  refine ⟨?_, hmatches⟩
  obtain ⟨hdistinct, hmem⟩ := nodup_insert h.distinct (h.struct_not_taken hs hb hshape)
  refine h.extend hprefix (by simp [h.issued]) hdistinct ?_ (List.Subset.refl _)
    (fun k x hk => .inl hk) ?_ (fun k c hc => OnceMap.get?_set_of_get? h.get?_eq_none hc) ?_
    (h.openTypes_settle hclosed _)
  · intro z hz
    rcases hmem z hz with hold | rfl
    · exact .inl hold
    · exact .inr (.struct (OnceMap.get?_set_ready _ _ _) hb hshape)
  · intro i hi
    rw [Array.toList_push, List.mem_append, List.mem_singleton] at hi
    rcases hi with hold | rfl
    · exact .inl hold
    · exact .inr ⟨_, hdeclared, hkey.inst hstands (b.shape.key_declaration b.id)⟩
  · intro k c hc
    rcases OnceMap.get?_of_set_ready hc with he | hold
    · obtain ⟨rfl, rfl⟩ := he
      exact .inr ⟨b, hb, hmatches⟩
    · exact .inl hold

theorem repeats_once_types (h : s.Mirrors cells reserved names t) {ty : Ty} {b : LoweredType}
    (hb : s.Lowered ty b) (hclosed : ¬ cells.types ty) {build : M LoweredType}
    (hbuild : ∀ t', s.Mirrors (cells.withType ty) reserved names t' →
      Repeats enough build t' names fun a names' u =>
        s.Mirrors cells reserved names' (u.settle ty a) ∧ a.Matches (StandsFor names') b) :
    Repeats enough (once .types ty build) t names fun a names' u =>
      s.Mirrors cells reserved names' u ∧ a.Matches (StandsFor names') b := by
  unfold Repeats Walk.Ends
  rw [once_outcome]
  cases hc : (Table.types.get t).claim ty with
  | found a =>
    obtain ⟨b', hb', hab⟩ := h.types ty a (OnceMap.claim_found hc)
    obtain rfl : b' = b := Option.some.inj (Eq.trans (Eq.symm hb') hb)
    exact ⟨names, List.prefix_rfl, h, hab⟩
  | reentrant => exact absurd ((h.openTypes ty).mp (OnceMap.claim_reentrant hc)) hclosed
  | granted claimed =>
    have hends := hbuild _ (h.claimType hc)
    unfold Repeats Walk.Ends at hends
    dsimp only
    rcases ho : build.outcome (Table.types.set t claimed) with ⟨e | a, u⟩
    · have ho' : build.outcome { t with types := claimed } = _ := ho
      rw [ho'] at hends
      exact hends
    · have ho' : build.outcome { t with types := claimed } = _ := ho
      rw [ho'] at hends
      exact hends

/-- What lowering a type again promises, for the types that are smaller than some bound. -/
def LowersAgain (s : Session) (cells : OpenCells) (enough : Prop) (lower : Ty → M LoweredType)
    (bound : Nat) : Prop :=
  ∀ {ty b t reserved names}, s.Lowered ty b → sizeOf b < bound →
    s.Mirrors cells reserved names t → Repeats enough (lower ty) t names fun a names' u =>
      s.Mirrors cells reserved names' u ∧ a.Matches (StandsFor names') b

theorem repeats_lowerFields {lower : Ty → M LoweredType} {bound : Nat}
    (hl : LowersAgain s cells enough lower bound) (h : s.Mirrors cells reserved names t) (ty : Ty)
    {fields : List Field} {members : List LoweredType}
    (hm : List.Forall₂ (fun f m => s.Lowered (Field.ty f) m ∧ m.isVoid = false) fields members)
    (hbound : ∀ m ∈ members, sizeOf m < bound) :
    Repeats enough (lowerFields lower ty fields) t names fun ms names' u =>
      s.Mirrors cells reserved names' u ∧
        List.Forall₂ (LoweredType.MatchesPart (StandsFor names')) ms members := by
  induction hm generalizing t names with
  | nil => exact .pure ⟨h, .nil⟩
  | @cons f m fields members hfm hrest ih =>
    refine (hl hfm.1 (hbound m (by simp)) h).bind ?_
    intro a names₁ u hnames₁ hu
    have hvoid : a.isVoid = false := hu.2.isVoid_eq.trans hfm.2
    simp only [hvoid]
    refine Repeats.bind (ih hu.1 fun m' hm' => hbound m' (by simp [hm'])) ?_
    intro ms names₂ v hnames₂ hv
    exact .pure ⟨hv.1, .cons (hu.2.toMatchesPart.mono (StandsFor.mono hnames₂)) hv.2⟩

theorem repeats_scalar (hs : s.Finished p) (h : s.Mirrors cells reserved names t) {b : LoweredType}
    {name : String} {r : Representation} (hp : Representation.parse? name = some r)
    (hr : r.scalarShape? = some b.shape) (hi : b.shape.key.inst b.id ∈ s.code)
    (argument : String → M LoweredType) :
    Repeats enough (lowerRepresentation name argument) t names fun a names' u =>
      s.Mirrors cells reserved names' u ∧ a.Matches (StandsFor names') b := by
  have hshape : ∀ shape : Shape LoweredType, shape = b.shape → shape.parts = [] →
      shape.key.op ≠ .typeStruct → ∀ text, Repeats enough
        (do return (⟨← declaring (Declarations.intern shape.key), text, shape⟩ : LoweredType)) t
        names fun a names' u => s.Mirrors cells reserved names' u ∧ a.Matches (StandsFor names') b := by
    intro shape he hparts hop text
    have hnil : b.shape.parts = [] := he ▸ hparts
    exact repeats_shape hs h shape (by rw [he]) (by rw [hparts, hnil]; exact .nil) hi (he ▸ hop)
      text
  unfold lowerRepresentation
  rw [hp]
  cases r with
  | void => exact hshape .void (Option.some.inj hr) rfl (by simp [Shape.key]) _
  | bool => exact hshape .bool (Option.some.inj hr) rfl (by simp [Shape.key]) _
  | int signed => exact hshape (.int 32 signed) (Option.some.inj hr) rfl (by simp [Shape.key]) _
  | float => exact hshape (.float 32) (Option.some.inj hr) rfl (by simp [Shape.key]) _
  | vector => cases hr

theorem repeats_vector (hs : s.Finished p) {b component : LoweredType} {name placeholder : String}
    {count : UInt32} (hp : Representation.parse? name = some (.vector placeholder count))
    (hshape : b.shape = .vector component count) (hscalar : component.isScalar = true)
    (hi : b.shape.key.inst b.id ∈ s.code) {argument : String → M LoweredType}
    (ha : Repeats enough (argument placeholder) t names fun a names' u =>
      s.Mirrors cells reserved names' u ∧ a.Matches (StandsFor names') component) :
    Repeats enough (lowerRepresentation name argument) t names fun a names' u =>
      s.Mirrors cells reserved names' u ∧ a.Matches (StandsFor names') b := by
  unfold lowerRepresentation
  rw [hp]
  refine ha.bind ?_
  intro a names' u _ hu
  have hscalar' : a.isScalar = true := hu.2.isScalar_eq.trans hscalar
  simp only [hscalar', if_true]
  have hparts : List.Forall₂ (LoweredType.MatchesPart (StandsFor names'))
      (Shape.vector a count).parts b.shape.parts := by
    rw [hshape]
    exact .cons hu.2.toMatchesPart .nil
  exact repeats_shape hs hu.1 _ (by rw [hshape]; rfl) hparts hi (by simp [hshape, Shape.key]) _

theorem repeats_buildType (hs : s.Finished p) {ty : Ty} {b : LoweredType} (hb : s.Lowered ty b)
    (hclosed : ¬ cells.types ty) {lower : Ty → M LoweredType}
    (hl : LowersAgain s (cells.withType ty) enough lower (sizeOf b))
    (h : s.Mirrors (cells.withType ty) reserved names t) :
    Repeats enough (buildType p lower ty) t names fun a names' u =>
      s.Mirrors cells reserved names' (u.settle ty a) ∧ a.Matches (StandsFor names') b := by
  have hentry := hs.sound.types ty b hb
  -- what the platform provides is settled as it is, under the name of the type
  have hprovided : ∀ {w : M LoweredType} {u : Session} {names' : List UInt32},
      (Repeats enough w u names' fun a names'' v =>
        s.Mirrors (cells.withType ty) reserved names'' v ∧ a.Matches (StandsFor names'') b) →
      Repeats enough
        (do
          let lowered ← w
          log (.lowered ty lowered.id)
          return { lowered with name := ty.text }) u names' fun a names'' v =>
        s.Mirrors cells reserved names'' (v.settle ty a) ∧ a.Matches (StandsFor names'') b := by
    intro w u names' hw
    refine hw.bind ?_
    intro a names'' v _ hv
    refine (repeats_log hv.1 _).bind ?_
    intro _ names₃ v' _ hv'
    obtain ⟨rfl, hv'⟩ := hv'
    have hmatches : LoweredType.Matches (StandsFor names₃) { a with name := ty.text } b :=
      ⟨⟨hv.2.id, hv.2.outline⟩, hv.2.parts⟩
    exact .pure ⟨hv'.settle hclosed hb hmatches, hmatches⟩
  unfold buildType
  cases hentry.layer with
  | scalar hc hr hp hshape =>
    refine (repeats_construct h hc).bind ?_
    intro i names' u _ hu
    obtain ⟨rfl, rfl, hu⟩ := hu
    rw [hr]
    exact hprovided (repeats_scalar hs hu hp hshape hentry.declared.here _)
  | @vector argument i name placeholder count component hc hr hp ha hargument hscalar hshape =>
    refine (repeats_construct h hc).bind ?_
    intro j names' u _ hu
    obtain ⟨rfl, rfl, hu⟩ := hu
    rw [hr]
    refine hprovided (repeats_vector hs hp hshape hscalar hentry.declared.here ?_)
    rw [ha]
    have hsize : sizeOf component < sizeOf b :=
      LoweredType.sizeOf_part_lt (by simp [hshape, Shape.parts])
    exact hl hargument hsize hu
  | @struct i members hc hr hshape hm =>
    refine (repeats_construct h hc).bind ?_
    intro j names' u _ hu
    obtain ⟨rfl, rfl, hu⟩ := hu
    rw [hr]
    have hsize : ∀ m ∈ members, sizeOf m < sizeOf b := fun m hmem =>
      LoweredType.sizeOf_part_lt (by simpa [hshape, Shape.parts] using hmem)
    refine Repeats.bind (repeats_lowerFields hl hu ty hm hsize) ?_
    intro ms names'' v _ hv
    obtain ⟨hstruct, hmatches⟩ := hv.1.withStruct hs hclosed hb hshape hv.2
    exact ⟨names'' ++ [b.id.val], List.prefix_append _ _, hstruct.withJournal _, hmatches⟩

/-- A type can be lowered again while only larger types are being lowered. -/
theorem repeats_lowerType (hs : s.Finished p) (depth : Nat) {ty : Ty} {b : LoweredType}
    (hb : s.Lowered ty b)
    (hopen : ∀ ty', cells.types ty' → ∃ b', s.Lowered ty' b' ∧ sizeOf b < sizeOf b')
    (h : s.Mirrors cells reserved names t) :
    Repeats (sizeOf b < depth) (lowerType p depth ty) t names fun a names' u =>
      s.Mirrors cells reserved names' u ∧ a.Matches (StandsFor names') b := by
  induction depth generalizing cells ty b t reserved names with
  | zero => exact ⟨rfl, by omega⟩
  | succ depth ih =>
    have hclosed : ¬ cells.types ty := by
      intro hty
      obtain ⟨b', hb', hlt⟩ := hopen ty hty
      obtain rfl : b' = b := Option.some.inj (Eq.trans (Eq.symm hb') hb)
      omega
    rw [lowerType]
    have hconcrete := (hs.sound.types ty b hb).concrete
    simp only [hconcrete]
    refine repeats_once_types h hb hclosed fun t' ht' => ?_
    refine repeats_buildType hs hb hclosed ?_ ht'
    intro ty' b' t'' reserved' names' hb' hlt ht''
    refine (ih hb' ?_ ht'').weaken (by omega)
    intro k hk
    rcases hk with rfl | hk
    · exact ⟨b, hb, hlt⟩
    · obtain ⟨c, hc, hltc⟩ := hopen k hk
      exact ⟨c, hc, by omega⟩

end ShaderIR.Lowering
