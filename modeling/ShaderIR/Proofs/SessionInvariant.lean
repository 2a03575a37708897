import ShaderIR.Proofs.IdentityPass
import ShaderIR.Proofs.OnceMap
import ShaderIR.Proofs.Outcome
import ShaderIR.Proofs.Translation

/-! What holds of a session between any two steps of any request, and what a session keeps while
requests are served, whether these succeed or not. -/

namespace ShaderIR.Lowering

open Binary (Op Id Inst results firstIds Closed)

/-- The declarations that lowering makes: numbers have 32 bits, and pointers are to variables of
functions. -/
inductive Declares : Inst → Prop
  | void (id : UInt32) : Declares ⟨.typeVoid, [id]⟩
  | bool (id : UInt32) : Declares ⟨.typeBool, [id]⟩
  | int (id signedness : UInt32) : Declares ⟨.typeInt, [id, 32, signedness]⟩
  | float (id : UInt32) : Declares ⟨.typeFloat, [id, 32]⟩
  | vector (id component count : UInt32) : Declares ⟨.typeVector, [id, component, count]⟩
  | struct (id : UInt32) (members : List UInt32) : Declares ⟨.typeStruct, id :: members⟩
  | pointer (id pointee : UInt32) : Declares ⟨.typePointer, [id, 7, pointee]⟩
  | function (id returnType : UInt32) (parameters : List UInt32) :
      Declares ⟨.typeFunction, id :: returnType :: parameters⟩
  | constant (type id bits : UInt32) : Declares ⟨.constant, [type, id, bits]⟩

theorem Declares.isDeclaration {i : Inst} (h : Declares i) : i.op.isDeclaration = true := by
  cases h <;> rfl

/-- The types of the values that a declaration is about: the components of a vector, the members of
a struct, what a pointer points to, the parameters of a function and the value of a constant. -/
def valueTypes : Inst → List UInt32
  | ⟨.typeVector, [_, component, _]⟩ => [component]
  | ⟨.typeStruct, _ :: members⟩ => members
  | ⟨.typePointer, [_, _, pointee]⟩ => [pointee]
  | ⟨.typeFunction, _ :: _ :: parameters⟩ => parameters
  | ⟨.constant, type :: _⟩ => [type]
  | _ => []

/-- The code declares only, refers only backwards and takes its ids in order. Its declarations
other than of structs are the shared ones, the last one first, and no two of them are equal. -/
structure Declarations.Sound (d : Declarations) : Prop where
  shared : ∀ e ∈ d.shared, e.1.inst e.2 ∈ d.code.toList
  closed : Closed [] d.code.toList
  forms : ∀ i ∈ d.code.toList, Declares i
  interned : d.shared.reverse = d.code.toList.filterMap sharedDeclaration?
  keys : (d.shared.map Prod.fst).Nodup
  ordered : (results d.code.toList).Sublist (firstIds d.issued)

theorem Declarations.Sound.declares {d : Declarations} (hd : d.Sound) :
    ∀ i ∈ d.code.toList, i.op.isDeclaration = true :=
  fun i hi => (hd.forms i hi).isDeclaration

/-- The entry point of a kernel, in the compute model. -/
def Function.entryPoint? (f : Function) : Option Inst :=
  f.method.method.kernelSize?.map fun _ =>
    ⟨.entryPoint, 5 :: f.id.val :: Binary.nameWords f.method.fullName⟩

/-- The mode of a kernel, which gives its workgroup size. -/
def Function.mode? (f : Function) : Option Inst :=
  f.method.method.kernelSize?.map fun size =>
    ⟨.executionMode, [f.id.val, 17, size.1, size.2.1, size.2.2]⟩

/-- What is known of the lowered form of a type: it is declared, it has the shape that the type asks
for, and the types of its parts have been lowered to its parts. -/
structure TypeEntry (p : Program) (lowered : Ty → LoweredType → Prop) (code : List Inst) (ty : Ty)
    (t : LoweredType) : Prop where
  concrete : ty.isGeneric = false
  declared : t.Declared code
  lowers : Lowers p ty t
  layer : LoweredFrom p lowered ty t

theorem TypeEntry.mono {p : Program} {lowered lowered' : Ty → LoweredType → Prop}
    {code code' : List Inst} {ty : Ty} {t : LoweredType} (h : TypeEntry p lowered code ty t)
    (hl : ∀ ty t, lowered ty t → lowered' ty t) (hc : code ⊆ code') :
    TypeEntry p lowered' code' ty t :=
  ⟨h.concrete, h.declared.mono hc, h.lowers, h.layer.mono hl⟩

/-- The structs that are declared are the lowered forms of the given types, in order. -/
def DeclaresStructs (lowered : Ty → LoweredType → Prop) (owners : List Ty) (code : List Inst) :
    Prop :=
  List.Forall₂ (fun ty i => ∃ t, lowered ty t ∧ t.shape.key.inst t.id = i) owners
    (code.filter fun i => i.op = .typeStruct)

/-- Every struct is declared for one type, and every type that is lowered to a struct has one. -/
def StructsOwned (lowered : Ty → LoweredType → Prop) (code : List Inst) : Prop :=
  ∃ owners : List Ty, owners.Nodup ∧ DeclaresStructs lowered owners code ∧
    ∀ ty t members, lowered ty t → t.shape = .struct members → ty ∈ owners

namespace Session

/-- The lowered form of a type. -/
def Lowered (s : Session) (ty : Ty) (t : LoweredType) : Prop :=
  s.types.get? ty = some t

/-- The declarations of types and constants. -/
def code (s : Session) : List Inst :=
  s.declarations.code.toList

def functionList {κ : Type} (s : Session κ) : List Function :=
  s.order.toList

/-- The ids defined by the declarations and the finished functions. -/
def defined (s : Session) : List UInt32 :=
  results s.code ++ results (s.functionList.flatMap Function.code)

/-- The type is declared, and it has values unless it is the type of a receiver of a known method:
receivers are not checked. -/
def Carries (known : LocatedMethod → Prop) (s : Session) (t : LoweredType) : Prop :=
  t.Declared s.code ∧
    (t.isVoid = false ∨ ∃ m, known m ∧ m.method.isStatic = false ∧ s.Lowered m.method.owner t)

/-- The declaration is about values of types that carry them. -/
def Values (known : LocatedMethod → Prop) (s : Session) (i : Inst) : Prop :=
  ∀ x ∈ valueTypes i, ∃ t : LoweredType, t.id.val = x ∧ s.Carries known t

/-- The invariant of sessions. The ids of `held` have been handed out to code that is not in the
session, because it is still under construction or was given up. -/
structure Sound (p : Program) (known : LocatedMethod → Prop) (s : Session)
    (held : List UInt32) : Prop where
  ids : ∀ x, s.defined.count x + held.count x = (firstIds s.declarations.issued).count x
  declarations : s.declarations.Sound
  types : ∀ ty t, s.Lowered ty t → TypeEntry p s.Lowered s.code ty t
  structs : StructsOwned s.Lowered s.code
  values : ∀ i ∈ s.code, s.Values known i
  functions : ∀ id f, s.functions.get? id = some f → f ∈ s.functionList ∧ f.method.id = id
  lowered : ∀ pre f post, s.functionList = pre ++ f :: post →
    ∃ q, f.Built p s.code pre q ∧ f.Sourced s.Lowered q
  known : ∀ f ∈ s.functionList, known f.method
  entryPoints : s.entryPoints.toList = s.functionList.filterMap Function.entryPoint?
  modes : s.modes.toList = s.functionList.filterMap Function.mode?

/-- What a session keeps. -/
structure Grows (s t : Session) : Prop where
  code : s.code <+: t.code
  functionList : s.functionList <+: t.functionList
  types : s.types.Grows t.types
  functions : s.functions.Grows t.functions

theorem Grows.refl (s : Session) : s.Grows s :=
  ⟨List.prefix_rfl, List.prefix_rfl, .refl _, .refl _⟩

theorem Grows.trans {s t u : Session} (h : s.Grows t) (h' : t.Grows u) : s.Grows u :=
  ⟨h.code.trans h'.code, h.functionList.trans h'.functionList, h.types.trans h'.types,
    h.functions.trans h'.functions⟩

theorem sound_empty (p : Program) (known : LocatedMethod → Prop) : Sound p known {} [] where
  ids := by simp [defined, code, functionList]
  declarations := ⟨by simp, by simp [Closed], by simp, by simp, by simp, by simp⟩
  types := fun ty t h => by cases h
  structs := ⟨[], .nil, .nil, fun ty t members h => by cases h⟩
  values := by simp [code]
  functions := fun id f h => by cases h
  lowered := fun pre f post h => by simp [functionList] at h
  known := by simp [functionList]
  entryPoints := by simp [functionList]
  modes := by simp [functionList]

variable {p : Program} {known : LocatedMethod → Prop} {s : Session} {held held' : List UInt32}

theorem Carries.declared {t : LoweredType} (h : s.Carries known t) : t.Declared s.code := h.1

theorem Carries.mono {u : Session} (hsub : s.code ⊆ u.code)
    (hkeep : ∀ ty t, s.Lowered ty t → u.Lowered ty t) {t : LoweredType} (h : s.Carries known t) :
    u.Carries known t := by
  refine ⟨h.declared.mono hsub, h.2.imp_right ?_⟩
  rintro ⟨m, hm, hstatic, hlowered⟩
  exact ⟨m, hm, hstatic, hkeep _ t hlowered⟩

theorem Carries.grow {u : Session} {t : LoweredType} (h : s.Carries known t) (hg : s.Grows u) :
    u.Carries known t :=
  h.mono hg.code.subset hg.types.ready

theorem Sound.order (h : s.Sound p known held) (pre : List Function) (f : Function)
    (post : List Function) (hf : s.functionList = pre ++ f :: post) :
    ∃ q, f.Built p s.code pre q := by
  obtain ⟨q, hq, _⟩ := h.lowered pre f post hf
  exact ⟨q, hq⟩

/-- Which ids are held matters, not in which order. -/
theorem Sound.of_count (h : s.Sound p known held) (he : ∀ x, held.count x = held'.count x) :
    s.Sound p known held' :=
  { h with ids := fun x => by rw [← he x]; exact h.ids x }

/-- Code that took the ids handed out last holds them as its results. -/
theorem Sound.emitted {out : List Inst} (ids : List UInt32)
    (h : s.Sound p known (ids.reverse ++ held)) (hr : results out = ids) :
    s.Sound p known (results out ++ held) :=
  h.of_count fun x => by simp [hr, List.count_append]

/-- Declarations may be added and types lowered, as long as what was lowered before stays. -/
theorem Sound.extend (h : s.Sound p known held) {d : Declarations}
    {types : OnceMap Ty LoweredType} (hd : d.Sound) (hsub : s.code ⊆ d.code.toList)
    (hkeep : ∀ ty t, s.Lowered ty t → types.get? ty = some t)
    (hnew : ∀ ty t, types.get? ty = some t → s.Lowered ty t ∨
      TypeEntry p (fun ty t => types.get? ty = some t) d.code.toList ty t)
    (hstructs : StructsOwned (fun ty t => types.get? ty = some t) d.code.toList)
    (hvalues : ∀ i ∈ d.code.toList, i ∈ s.code ∨ s.Values known i)
    (hids : ∀ x, (results d.code.toList).count x + held'.count x +
        (firstIds s.declarations.issued).count x =
      (results s.code).count x + held.count x + (firstIds d.issued).count x) :
    ({ s with declarations := d, types := types } : Session).Sound p known held' where
  ids := by
    intro x
    have h1 := h.ids x
    have h2 := hids x
    simp only [defined, code, functionList, List.count_append] at h1 h2 ⊢
    omega
  declarations := hd
  types := by
    intro ty t ht
    rcases hnew ty t ht with hold | hentry
    · exact (h.types ty t hold).mono hkeep hsub
    · exact hentry
  structs := hstructs
  values := by
    intro i hi x hx
    have hold : s.Values known i := (hvalues i hi).elim (h.values i) id
    obtain ⟨t, ht, hcarries⟩ := hold x hx
    exact ⟨t, ht, hcarries.mono hsub hkeep⟩
  functions := h.functions
  lowered := by
    intro pre f post hf
    obtain ⟨q, hq, hsourced⟩ := h.lowered pre f post hf
    exact ⟨q, hq.mono hsub (List.Subset.refl pre), hsourced.mono hkeep⟩
  known := h.known
  entryPoints := h.entryPoints
  modes := h.modes

theorem Sound.withDeclarations (h : s.Sound p known held) {d : Declarations} (hd : d.Sound)
    (hsub : s.code ⊆ d.code.toList) (hstructs : StructsOwned s.Lowered d.code.toList)
    (hvalues : ∀ i ∈ d.code.toList, i ∈ s.code ∨ s.Values known i)
    (hids : ∀ x, (results d.code.toList).count x + held'.count x +
        (firstIds s.declarations.issued).count x =
      (results s.code).count x + held.count x + (firstIds d.issued).count x) :
    ({ s with declarations := d } : Session).Sound p known held' :=
  h.extend hd hsub (fun _ _ ht => ht) (fun _ _ ht => .inl ht) hstructs hvalues hids

theorem Sound.withJournal (h : s.Sound p known held) (j : Journal) :
    ({ s with journal := j } : Session).Sound p known held :=
  ⟨h.ids, h.declarations, h.types, h.structs, h.values, h.functions, h.lowered, h.known,
    h.entryPoints, h.modes⟩

theorem Grows.withJournal (s : Session) (j : Journal) : s.Grows { s with journal := j } :=
  ⟨List.prefix_rfl, List.prefix_rfl, .refl _, .refl _⟩

/-- Cells of types may change as long as the finished ones stay. -/
theorem Sound.withTypes (h : s.Sound p known held) {types : OnceMap Ty LoweredType}
    (ht : ∀ ty, types.get? ty = s.types.get? ty) :
    ({ s with types := types } : Session).Sound p known held := by
  have hl : (fun ty t => types.get? ty = some t) = s.Lowered := by
    funext ty t
    exact congrArg (· = some t) (ht ty)
  refine h.extend h.declarations (List.Subset.refl _) ?_ ?_ ?_ (fun _ hi => .inl hi) fun _ => rfl
  · exact fun ty t hty => (ht ty).trans hty
  · exact fun ty t hty => .inl ((ht ty).symm.trans hty)
  · rw [hl]
    exact h.structs

/-- The type has been lowered. -/
def settle (s : Session) (ty : Ty) (t : LoweredType) : Session :=
  { s with types := s.types.set ty (.ready t) }

/-- A lowered type that is not a struct may be settled. -/
theorem Sound.settle (h : s.Sound p known held) {ty : Ty} {t : LoweredType}
    (hnone : s.types.get? ty = none) (ht : TypeEntry p s.Lowered s.code ty t)
    (hshape : ∀ members, t.shape ≠ .struct members) : (s.settle ty t).Sound p known held := by
  have hkeep : ∀ ty' t', s.Lowered ty' t' → (s.types.set ty (.ready t)).get? ty' = some t' :=
    fun _ _ h' => OnceMap.get?_set_of_get? hnone h'
  obtain ⟨owners, hnodup, hdeclares, howners⟩ := h.structs
  refine h.extend h.declarations (List.Subset.refl _) hkeep ?_ ?_ (fun _ hi => .inl hi) fun _ => rfl
  · intro ty' t' ht'
    rcases OnceMap.get?_of_set_ready ht' with ⟨rfl, rfl⟩ | hold
    · exact .inr (ht.mono hkeep (List.Subset.refl _))
    · exact .inl hold
  · refine ⟨owners, hnodup, ?_, ?_⟩
    · exact hdeclares.imp fun ty' i hi => hi.imp fun t' ht' => ⟨hkeep ty' t' ht'.1, ht'.2⟩
    · intro ty' t' members ht' hstruct
      rcases OnceMap.get?_of_set_ready ht' with ⟨rfl, rfl⟩ | hold
      · exact absurd hstruct (hshape members)
      · exact howners ty' t' members hold hstruct

theorem Sound.withFunctions (h : s.Sound p known held) {functions : OnceMap MethodId Function}
    (hf : ∀ id f, functions.get? id = some f → f ∈ s.functionList ∧ f.method.id = id) :
    ({ s with functions := functions } : Session).Sound p known held :=
  ⟨h.ids, h.declarations, h.types, h.structs, h.values, hf, h.lowered, h.known, h.entryPoints,
    h.modes⟩

end Session

variable {p : Program} {known : LocatedMethod → Prop} {α β : Type}

/-- Run from `s`, the request ends in a session that satisfies `post`, or it fails and leaves a
session behind that satisfies the invariant. -/
def Lands (p : Program) (known : LocatedMethod → Prop) (w : M α) (s : Session)
    (post : α → Session → Prop) : Prop :=
  w.Ends s (fun a t => s.Grows t ∧ post a t) (fun _ t => s.Grows t ∧ ∃ lost, t.Sound p known lost)

theorem Lands.mono {w : M α} {s : Session} {post post' : α → Session → Prop}
    (h : Lands p known w s post) (hp : ∀ a t, s.Grows t → post a t → post' a t) :
    Lands p known w s post' :=
  Walk.Ends.mono h (fun a t ht => ⟨ht.1, hp a t ht.1 ht.2⟩) (fun _ _ ht => ht)

theorem Lands.bind {w : M α} {f : α → M β} {s : Session} {post : α → Session → Prop}
    {post' : β → Session → Prop} (h : Lands p known w s post)
    (hf : ∀ a t, s.Grows t → post a t → Lands p known (f a) t post') :
    Lands p known (w >>= f) s post' := by
  refine Walk.Ends.bind (Walk.Ends.mono h ?_ (fun _ _ ht => ht))
  rintro a t ⟨hg, ha⟩
  refine Walk.Ends.mono (hf a t hg ha) ?_ ?_
  · rintro b u ⟨hg', hb⟩
    exact ⟨hg.trans hg', hb⟩
  · rintro _ u ⟨hg', hu⟩
    exact ⟨hg.trans hg', hu⟩

theorem lands_pure {s : Session} {a : α} {post : α → Session → Prop} (h : post a s) :
    Lands p known (pure a) s post :=
  ⟨.refl s, h⟩

theorem lands_throw {s : Session} {held : List UInt32} (hs : s.Sound p known held)
    (e : Stop LoweringError) {post : α → Session → Prop} :
    Lands p known (throw e : M α) s post :=
  ⟨.refl s, held, hs⟩

theorem lands_fail {s : Session} {held : List UInt32} (hs : s.Sound p known held)
    (e : LoweringError) {post : α → Session → Prop} :
    Lands p known (Walk.fail e : M α) s post :=
  ⟨.refl s, held, hs⟩

theorem lands_fail_bind {s : Session} {held : List UInt32} (hs : s.Sound p known held)
    (e : LoweringError) {f : α → M β} {post : β → Session → Prop} :
    Lands p known ((Walk.fail e : M α) >>= f) s post :=
  ⟨.refl s, held, hs⟩

theorem lands_modify {s : Session} {f : Session → Session} {post : PUnit → Session → Prop}
    (hg : s.Grows (f s)) (h : post ⟨⟩ (f s)) : Lands p known (modify f : M PUnit) s post :=
  ⟨hg, h⟩

end ShaderIR.Lowering
