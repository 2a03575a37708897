import Mathlib.Data.List.Infix
import ShaderIR.Proofs.Resolution

/-! The objects of methods. What has been made keeps its number while more is made, so an identity
stands for one object from the time it is first needed, and no two identities share one. -/

namespace ShaderIR

section Numbers

variable {κ : Type} [BEq κ]

theorem prefix_numbered (keys : List κ) (key : κ) : keys <+: (numbered keys key).2 := by
  unfold numbered
  split
  · exact List.prefix_rfl
  · exact List.prefix_append keys [key]

variable [LawfulBEq κ]

theorem mem_numbered (keys : List κ) (key : κ) : key ∈ (numbered keys key).2 := by
  unfold numbered
  split
  · rename_i hkey
    exact List.contains_iff_mem.mp hkey
  · simp

/-- The number of a key is the first place that it has. -/
theorem numbered_fst (keys : List κ) (key : κ) :
    (numbered keys key).1 = (numbered keys key).2.idxOf key := by
  unfold numbered
  split
  · rfl
  · rename_i hnew
    rw [List.contains_iff_mem] at hnew
    simp [List.idxOf_append_of_notMem hnew]

end Numbers

/-- The identity that its arguments give an instance, deferred or not. -/
def MethodInstance.id : MethodInstance → MethodId
  | .concrete m => m.id
  | .deferred m arguments => { m.id with typeArguments := some arguments }

theorem LocatedMethod.id_of_instantiate {m : LocatedMethod} {arguments : List Ty}
    {i : MethodInstance} (h : m.instantiate arguments = .ok i) :
    i.id = { m.id with typeArguments := some arguments } := by
  obtain ⟨_, _, _, _, _, rfl⟩ := instantiate_eq_ok_iff.mp h
  split <;> rfl

/-- A method is looked for in the constructed owner. -/
theorem Program.locate_of_construct_error {p : Program} {r : MethodRef} {e : IrError}
    (he : p.construct r.owner = .error e) : p.locate r = .error e := by
  unfold Program.construct at he
  unfold Program.locate
  cases howner : r.owner with
  | param name constraints =>
    rw [howner] at he
    exact congrArg _ (Except.error.inj he)
  | named name arguments =>
    rw [howner] at he
    dsimp only at he ⊢
    cases hfind : p.find? name with
    | none =>
      rw [hfind] at he
      exact congrArg _ (Except.error.inj he)
    | some found =>
      obtain ⟨path, d⟩ := found
      rw [hfind] at he
      dsimp only at he ⊢
      rw [he]

namespace Heap

/-- Objects are only added. -/
structure Grows (h h' : Heap) : Prop where
  types : h.types <+: h'.types
  methods : h.methods <+: h'.methods

theorem Grows.refl (h : Heap) : h.Grows h :=
  ⟨List.prefix_rfl, List.prefix_rfl⟩

theorem Grows.trans {h₁ h₂ h₃ : Heap} (h : h₁.Grows h₂) (h' : h₂.Grows h₃) : h₁.Grows h₃ :=
  ⟨h.types.trans h'.types, h.methods.trans h'.methods⟩

variable {h h' : Heap} {p : Program}

theorem grows_typeFor (h : Heap) (site : Site) (arguments : Option (List Ty)) :
    h.Grows (h.typeFor site arguments).2 := by
  cases arguments with
  | none => exact .refl h
  | some arguments => exact ⟨prefix_numbered h.types _, List.prefix_rfl⟩

theorem grows_methodFor (h : Heap) (m : MethodObject) (arguments : Option (List Ty)) :
    h.Grows (h.methodFor m arguments).2 := by
  cases arguments with
  | none => exact .refl h
  | some arguments => exact ⟨List.prefix_rfl, prefix_numbered h.methods _⟩

theorem grows_construct (h : Heap) (p : Program) (ty : Ty) : h.Grows (h.construct p ty).2 := by
  unfold construct
  split
  · exact .refl h
  split
  · exact .refl h
  split
  · exact .refl h
  · exact grows_typeFor h _ _

theorem grows_locate (h : Heap) (p : Program) (r : MethodRef) : h.Grows (h.locate p r).2 := by
  have hgrows := grows_construct h p r.owner
  unfold locate
  rcases hc : h.construct p r.owner with ⟨e | object, h'⟩ <;> rw [hc] at hgrows <;> exact hgrows

theorem grows_instantiate (h : Heap) (object : MethodObject) (m : LocatedMethod)
    (arguments : List Ty) : h.Grows (h.instantiate object m arguments).2 := by
  unfold instantiate
  split
  · exact .refl h
  · exact grows_methodFor h object (some arguments)

theorem grows_resolve (h : Heap) (p : Program) (r : MethodRef) : h.Grows (h.resolve p r).2 := by
  have hgrows := grows_locate h p r
  unfold resolve
  rcases hl : h.locate p r with ⟨e | ⟨object, m⟩, h'⟩ <;> rw [hl] at hgrows
  · exact hgrows
  dsimp only
  split
  · exact hgrows
  · exact hgrows.trans (grows_instantiate h' object m r.typeArguments)

/-! The objects of identities. -/

/-- The object of a type that has been constructed. -/
def typeOf (h : Heap) (site : Site) : Option (List Ty) → TypeObject
  | none => .declared site
  | some arguments => .constructed (h.types.idxOf (site, arguments))

/-- The object of a method of a constructed type. -/
def ownedOf (h : Heap) (id : MethodId) : MethodObject :=
  .owned (h.typeOf id.site id.ownerArguments) id.index

/-- The object of a method that has been made. -/
def objectOf (h : Heap) (id : MethodId) : MethodObject :=
  match id.typeArguments with
  | none => h.ownedOf id
  | some arguments => .specialized (h.methods.idxOf (h.ownedOf id, arguments))

/-- The method of the identity has been made. -/
structure Knows (h : Heap) (id : MethodId) : Prop where
  owner : ∀ arguments ∈ id.ownerArguments, (id.site, arguments) ∈ h.types
  method : ∀ arguments ∈ id.typeArguments, (h.ownedOf id, arguments) ∈ h.methods

theorem knows_declared (h : Heap) (site : Site) (index : Nat) : h.Knows ⟨site, index, none, none⟩ :=
  ⟨by simp, by simp⟩

section Growth

variable {id : MethodId}

theorem ownedOf_grows (hgrows : h.Grows h')
    (howner : ∀ arguments ∈ id.ownerArguments, (id.site, arguments) ∈ h.types) :
    h'.ownedOf id = h.ownedOf id := by
  unfold ownedOf typeOf
  cases hid : id.ownerArguments with
  | none => rfl
  | some arguments =>
    have hmem := howner arguments (by simp [hid])
    simp only [hgrows.types.idxOf_eq_of_mem hmem]

theorem Knows.objectOf_grows (hid : h.Knows id) (hgrows : h.Grows h') :
    h'.objectOf id = h.objectOf id := by
  have howned := ownedOf_grows hgrows hid.owner
  unfold objectOf
  cases harguments : id.typeArguments with
  | none => exact howned
  | some arguments =>
    have hmem := hid.method arguments (by simp [harguments])
    simp only [howned, hgrows.methods.idxOf_eq_of_mem hmem]

theorem Knows.grows (hid : h.Knows id) (hgrows : h.Grows h') : h'.Knows id := by
  refine ⟨fun arguments ha => hgrows.types.subset (hid.owner arguments ha), fun arguments ha => ?_⟩
  rw [ownedOf_grows hgrows hid.owner]
  exact hgrows.methods.subset (hid.method arguments ha)

end Growth

/-- An owned method shows the identity of its owner. -/
theorem ownedOf_injective {id id' : MethodId}
    (howner : ∀ arguments ∈ id.ownerArguments, (id.site, arguments) ∈ h.types)
    (he : h.ownedOf id = h.ownedOf id') :
    id.site = id'.site ∧ id.index = id'.index ∧ id.ownerArguments = id'.ownerArguments := by
  obtain ⟨site, index, ownerArguments, typeArguments⟩ := id
  obtain ⟨site', index', ownerArguments', typeArguments'⟩ := id'
  simp only [ownedOf, typeOf, MethodObject.owned.injEq] at he
  obtain ⟨htype, hindex⟩ := he
  cases ownerArguments with
  | none =>
    cases ownerArguments' with
    | none => exact ⟨TypeObject.declared.inj htype, hindex, rfl⟩
    | some arguments' => cases htype
  | some arguments =>
    cases ownerArguments' with
    | none => cases htype
    | some arguments' =>
      have hmem := howner arguments rfl
      have hkey := (List.idxOf_inj hmem).mp (TypeObject.constructed.inj htype)
      obtain ⟨hsite, harguments⟩ := Prod.mk.inj hkey
      exact ⟨hsite, hindex, congrArg some harguments⟩

/-- Different identities have different objects. -/
theorem Knows.eq_of_objectOf_eq {id id' : MethodId} (hid : h.Knows id) (hid' : h.Knows id')
    (he : h.objectOf id = h.objectOf id') : id = id' := by
  have hsame : h.ownedOf id = h.ownedOf id' ∧ id.typeArguments = id'.typeArguments := by
    unfold objectOf at he
    cases harguments : id.typeArguments with
    | none =>
      rw [harguments] at he
      cases harguments' : id'.typeArguments with
      | none =>
        rw [harguments'] at he
        exact ⟨he, rfl⟩
      | some arguments' =>
        rw [harguments'] at he
        cases he
    | some arguments =>
      rw [harguments] at he
      cases harguments' : id'.typeArguments with
      | none =>
        rw [harguments'] at he
        cases he
      | some arguments' =>
        rw [harguments'] at he
        have hmem := hid.method arguments (by simp [harguments])
        have hkey := (List.idxOf_inj hmem).mp (MethodObject.specialized.inj he)
        obtain ⟨howned, hsame⟩ := Prod.mk.inj hkey
        exact ⟨howned, congrArg some hsame⟩
  obtain ⟨hsite, hindex, howner⟩ := ownedOf_injective hid.owner hsame.1
  obtain ⟨site, index, ownerArguments, typeArguments⟩ := id
  obtain ⟨site', index', ownerArguments', typeArguments'⟩ := id'
  simp_all

theorem Knows.objectOf_eq_iff {id id' : MethodId} (hid : h.Knows id) (hid' : h.Knows id') :
    h.objectOf id = h.objectOf id' ↔ id = id' :=
  ⟨hid.eq_of_objectOf_eq hid', congrArg h.objectOf⟩

/-! What is made on request. -/

/-- An instance of a known method is known, by the object that it is made as. -/
theorem methodFor_spec {id : MethodId} (hid : h.Knows id) (hplain : id.typeArguments = none)
    (arguments : Option (List Ty)) :
    (h.methodFor (h.objectOf id) arguments).2.Knows { id with typeArguments := arguments } ∧
      (h.methodFor (h.objectOf id) arguments).1 =
        (h.methodFor (h.objectOf id) arguments).2.objectOf
          { id with typeArguments := arguments } := by
  obtain ⟨site, index, ownerArguments, _⟩ := id
  cases hplain
  cases arguments with
  | none => exact ⟨hid, rfl⟩
  | some arguments =>
    let owned := h.ownedOf ⟨site, index, ownerArguments, none⟩
    refine ⟨⟨hid.owner, fun other hother => ?_⟩, ?_⟩
    · cases hother
      exact mem_numbered h.methods (owned, arguments)
    · exact congrArg MethodObject.specialized (numbered_fst h.methods (owned, arguments))

/-- The methods of an instance that has been made are known. -/
theorem typeFor_spec (h : Heap) (site : Site) (index : Nat) (arguments : Option (List Ty)) :
    (h.typeFor site arguments).2.Knows ⟨site, index, arguments, none⟩ ∧
      MethodObject.owned (h.typeFor site arguments).1 index =
        (h.typeFor site arguments).2.objectOf ⟨site, index, arguments, none⟩ := by
  cases arguments with
  | none => exact ⟨knows_declared h site index, rfl⟩
  | some arguments =>
    have hnumber := numbered_fst h.types (site, arguments)
    refine ⟨⟨fun other hother => ?_, by simp⟩, ?_⟩
    · cases hother
      exact mem_numbered h.types (site, arguments)
    · exact congrArg (fun number => MethodObject.owned (.constructed number) index) hnumber

/-! Requests answer with the values that the program settles. -/

theorem map_snd_construct (h : Heap) (p : Program) (ty : Ty) :
    (h.construct p ty).1.map Prod.snd = p.construct ty := by
  unfold construct Program.construct
  cases ty with
  | param name constraints => rfl
  | named name arguments =>
    dsimp only
    cases p.find? name with
    | none => rfl
    | some found =>
      obtain ⟨path, d⟩ := found
      dsimp only
      cases d.instantiate arguments <;> rfl

theorem map_snd_locate (h : Heap) (p : Program) (r : MethodRef) :
    (h.locate p r).1.map Prod.snd = p.locate r := by
  have hvalue := map_snd_construct h p r.owner
  unfold locate
  rcases hc : h.construct p r.owner with ⟨e | ⟨owner, i⟩, h'⟩
  · rw [hc] at hvalue
    exact (Program.locate_of_construct_error hvalue.symm).symm
  · dsimp only
    cases p.locate r <;> rfl

theorem map_snd_instantiate (h : Heap) (object : MethodObject) (m : LocatedMethod)
    (arguments : List Ty) :
    (h.instantiate object m arguments).1.map Prod.snd = m.instantiate arguments := by
  unfold instantiate
  cases m.instantiate arguments <;> rfl

theorem map_snd_resolve (h : Heap) (p : Program) (r : MethodRef) :
    (h.resolve p r).1.map Prod.snd = p.resolve r := by
  have hvalue := map_snd_locate h p r
  unfold resolve Program.resolve
  rcases hl : h.locate p r with ⟨e | ⟨object, m⟩, h'⟩
  · rw [hl] at hvalue
    rw [← hvalue]
    rfl
  · rw [hl] at hvalue
    rw [← hvalue]
    by_cases hplain : r.typeArguments.isEmpty
    · simp [hplain, Except.map]
    · simpa [hplain, Except.map] using map_snd_instantiate h' object m r.typeArguments

/-! The objects that references mean. -/

/-- A method that is found is known, by the object that it is found as. -/
theorem locate_ok {r : MethodRef} {object : MethodObject} {m : LocatedMethod}
    (hl : h.locate p r = (.ok (object, m), h')) :
    h'.Knows m.id ∧ object = h'.objectOf m.id ∧ m.id.typeArguments = none := by
  have hvalue := map_snd_locate h p r
  rw [hl] at hvalue
  obtain ⟨name, arguments, path, d, i, hmeans, _, _, hid⟩ :=
    Program.locate_eq_ok_iff.mp hvalue.symm
  have harguments : i.ty.arguments = arguments := by
    rw [(Program.constructs_of_instantiate hmeans.constructed).ty]
    rfl
  have hmade := typeFor_spec h ⟨path, d.fullName⟩ r.index
    (if d.isGeneric then some arguments else none)
  simp only [locate, construct, hmeans.owner, hmeans.found, hmeans.constructed, ← hvalue,
    Except.map, Prod.mk.injEq, Except.ok.injEq] at hl
  obtain ⟨⟨rfl, _⟩, rfl⟩ := hl
  rw [hid, harguments]
  exact ⟨hmade.1, hmade.2, rfl⟩

theorem instantiate_ok {object object' : MethodObject} {m : LocatedMethod} {i : MethodInstance}
    {arguments : List Ty} (hm : h.Knows m.id) (hplain : m.id.typeArguments = none)
    (hobject : object = h.objectOf m.id)
    (hi : h.instantiate object m arguments = (.ok (object', i), h')) :
    h'.Knows i.id ∧ object' = h'.objectOf i.id := by
  subst hobject
  have hmade := methodFor_spec hm hplain (some arguments)
  unfold instantiate at hi
  cases hvalue : m.instantiate arguments with
  | error e =>
    rw [hvalue] at hi
    cases hi
  | ok j =>
    have hid := LocatedMethod.id_of_instantiate hvalue
    rw [hvalue] at hi
    cases hi
    rw [hid]
    exact hmade

/-- What a reference resolves to is known, by the object that it resolves to. -/
theorem resolve_ok {r : MethodRef} {object : MethodObject} {i : MethodInstance}
    (hr : h.resolve p r = (.ok (object, i), h')) : h'.Knows i.id ∧ object = h'.objectOf i.id := by
  unfold resolve at hr
  rcases hl : h.locate p r with ⟨e | ⟨located, m⟩, h₁⟩ <;> rw [hl] at hr
  · cases hr
  obtain ⟨hm, hobject, hplain⟩ := locate_ok hl
  dsimp only at hr
  split at hr
  · cases hr
    exact ⟨hm, hobject⟩
  · exact instantiate_ok hm hplain hobject hr

end Heap

end ShaderIR
