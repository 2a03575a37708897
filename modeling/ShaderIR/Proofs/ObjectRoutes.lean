import ShaderIR.Proofs.MethodObjects

/-! The ways to come by a method. Whoever uses a program asks it for declared methods, for types and
their methods and for what references mean, and instantiates what is generic. All ways to one method
lead to one object, and two objects are one just when their identities are the same. -/

namespace ShaderIR

/-- The instance comes from the program: it is a method of a type, or an instance of one. -/
inductive Program.Provides (p : Program) : MethodInstance → Prop
  | plain {m : LocatedMethod} (hm : p.Locates m) (hplain : m.id.typeArguments = none) :
      Provides p (.concrete m)
  | made {m : LocatedMethod} {arguments : List Ty} {i : MethodInstance} (hm : p.Locates m)
      (hplain : m.id.typeArguments = none) (hi : m.instantiate arguments = .ok i) : Provides p i

namespace Program.Provides

variable {p : Program}

/-- An identity stands for one instance. -/
theorem eq_of_id_eq {i i' : MethodInstance} (h : p.Provides i) (h' : p.Provides i')
    (he : i.id = i'.id) : i = i' := by
  cases h with
  | plain hm hplain =>
    cases h' with
    | plain hm' _ => exact congrArg MethodInstance.concrete (hm.eq_of_id_eq hm' he)
    | made _ _ hi' =>
      rw [LocatedMethod.id_of_instantiate hi', MethodInstance.id] at he
      rw [he] at hplain
      cases hplain
  | @made m arguments _ hm hplain hi =>
    rw [LocatedMethod.id_of_instantiate hi] at he
    cases h' with
    | plain _ hplain' =>
      rw [MethodInstance.id] at he
      rw [← he] at hplain'
      cases hplain'
    | @made m' arguments' _ hm' hplain' hi' =>
      rw [LocatedMethod.id_of_instantiate hi', MethodId.mk.injEq, Option.some.injEq] at he
      obtain ⟨hsite, hindex, howner, rfl⟩ := he
      have hid : m.id = m'.id := by
        cases hm : m.id
        cases hm' : m'.id
        simp_all
      rw [hm.eq_of_id_eq hm' hid, hi'] at hi
      exact (Except.ok.inj hi).symm

/-- What is generic is no instance yet. -/
theorem plain_of_generic {m : LocatedMethod} (h : p.Provides (.concrete m))
    (hgeneric : m.method.isGeneric = true) : p.Locates m ∧ m.id.typeArguments = none := by
  cases h with
  | plain hm hplain => exact ⟨hm, hplain⟩
  | made _ _ hi =>
    obtain ⟨_, _, _, s, _, hm⟩ := LocatedMethod.instantiate_eq_ok_iff.mp hi
    split at hm
    · cases hm
    · cases hm
      simp [Method.isGeneric, Method.substituted] at hgeneric

theorem plain_of_deferred {m : LocatedMethod} {arguments : List Ty}
    (h : p.Provides (.deferred m arguments)) : p.Locates m ∧ m.id.typeArguments = none := by
  cases h with
  | made hm hplain hi =>
    obtain ⟨_, _, _, s, _, he⟩ := LocatedMethod.instantiate_eq_ok_iff.mp hi
    split at he
    · cases he
      exact ⟨hm, hplain⟩
    · cases he

end Program.Provides

namespace Program

variable {p : Program}

theorem provides_of_resolve {r : MethodRef} {i : MethodInstance} (h : p.resolve r = .ok i) :
    p.Provides i := by
  obtain ⟨m, hl, hi⟩ := resolve_eq_ok_iff.mp h
  obtain ⟨hm, hplain⟩ := locates_of_locate hl
  rcases hi with ⟨_, rfl⟩ | ⟨_, hi⟩
  · exact .plain hm hplain
  · exact .made hm hplain hi

theorem Reached.provides (hp : p.Distinct) {m : LocatedMethod} (h : p.Reached m) :
    p.Provides (.concrete m) := by
  cases h with
  | declared hm _ =>
    refine .plain (locates_methods hp m hm) ?_
    obtain ⟨d, _, hm⟩ := List.mem_flatMap.mp hm
    obtain ⟨_, _, rfl⟩ := List.mem_map.mp hm
    rfl
  | call _ hc =>
    obtain ⟨_, _, _, target, _, _, hr, ht⟩ := hc
    obtain ⟨rfl, _⟩ := eq_concrete_of_concrete? ht
    exact provides_of_resolve hr

/-- A declared method of a declaration in the program. -/
theorem locates_of_declared {path : List Nat} {home : Program} {name : String} {d : TypeDecl}
    {index : Nat} {m : LocatedMethod} (hhome : p.atPath? path = some home)
    (hd : findLocal? home.types name = some d) (hm : (declaredMethods path d)[index]? = some m) :
    p.Locates m ∧ m.id = ⟨⟨path, name⟩, index, none, none⟩ := by
  have hname := fullName_of_findLocal? hd
  simp only [declaredMethods, List.getElem?_map, List.getElem?_zipIdx, Option.map_map,
    Option.map_eq_some_iff] at hm
  obtain ⟨method, hmethod, rfl⟩ := hm
  simp [Locates, instance?, methodsFor?, methodFor?, hhome, hname, hd, hmethod]

theorem locates_of_definition? {id : MethodId} {m : LocatedMethod}
    (h : p.definition? id = some m) : p.Locates m ∧ m.id = ⟨id.site, id.index, none, none⟩ := by
  simp only [definition?, bind, Option.bind_eq_some_iff] at h
  obtain ⟨home, hhome, d, hd, hm⟩ := h
  exact locates_of_declared hhome hd hm

end Program

namespace Heap

variable {p : Program} {h h' : Heap}

/-! Methods that are held. -/

/-- The instance is there, and the object is its own. -/
structure Holds (h : Heap) (p : Program) (x : MethodObject × MethodInstance) : Prop where
  provided : p.Provides x.2
  known : h.Knows x.2.id
  object : x.1 = h.objectOf x.2.id

namespace Holds

variable {x y : MethodObject × MethodInstance}

theorem grows (hx : h.Holds p x) (hgrows : h.Grows h') : h'.Holds p x :=
  ⟨hx.provided, hx.known.grows hgrows, hx.object.trans (hx.known.objectOf_grows hgrows).symm⟩

/-- Objects are told apart by identities, and so by the instances. -/
theorem object_eq_iff (hx : h.Holds p x) (hy : h.Holds p y) :
    (x.1 = y.1 ↔ x.2.id = y.2.id) ∧ (x.2.id = y.2.id ↔ x.2 = y.2) := by
  rw [hx.object, hy.object, hx.known.objectOf_eq_iff hy.known]
  exact ⟨.rfl, hx.provided.eq_of_id_eq hy.provided, congrArg MethodInstance.id⟩

theorem resolve {r : MethodRef} (hr : h.resolve p r = (.ok x, h')) : h'.Holds p x := by
  have hvalue := map_snd_resolve h p r
  rw [hr] at hvalue
  obtain ⟨hknown, hobject⟩ := resolve_ok hr
  exact ⟨Program.provides_of_resolve hvalue.symm, hknown, hobject⟩

/-- An instance of a method that is held is held. -/
theorem instantiate {object : MethodObject} {m : LocatedMethod} {arguments : List Ty}
    (hm : p.Locates m) (hplain : m.id.typeArguments = none) (hknown : h.Knows m.id)
    (hobject : object = h.objectOf m.id) (hx : h.instantiate object m arguments = (.ok x, h')) :
    h'.Holds p x := by
  have hvalue := map_snd_instantiate h object m arguments
  rw [hx] at hvalue
  obtain ⟨hmade, hself⟩ := instantiate_ok hknown hplain hobject hx
  exact ⟨.made hm hplain hvalue.symm, hmade, hself⟩

theorem instantiate_concrete {object : MethodObject} {m : LocatedMethod} {arguments : List Ty}
    (hm : h.Holds p (object, .concrete m)) (hx : h.instantiate object m arguments = (.ok x, h')) :
    h'.Holds p x := by
  have hvalue := map_snd_instantiate h object m arguments
  rw [hx] at hvalue
  obtain ⟨_, hgeneric, _⟩ := LocatedMethod.instantiate_eq_ok_iff.mp hvalue.symm
  obtain ⟨hlocates, hplain⟩ := hm.provided.plain_of_generic hgeneric
  exact instantiate hlocates hplain hm.known hm.object hx

/-- A deferred instance leads back to the generic method. -/
theorem generic?_deferred {object : MethodObject} {m : LocatedMethod} {arguments : List Ty}
    (hm : h.Holds p (object, .deferred m arguments)) :
    h.Knows m.id ∧ h.generic? object = some (h.objectOf m.id) := by
  obtain ⟨_, hplain⟩ := hm.provided.plain_of_deferred
  have hmem : (h.ownedOf m.id, arguments) ∈ h.methods := hm.known.method arguments rfl
  have hobject : object = .specialized (h.methods.idxOf (h.ownedOf m.id, arguments)) := hm.object
  refine ⟨⟨hm.known.owner, by simp [hplain]⟩, ?_⟩
  rw [hobject, generic?, List.getElem?_idxOf hmem, objectOf, hplain]
  rfl

theorem bindDeferred {object : MethodObject} {m : LocatedMethod} {arguments : List Ty}
    {s : Substitution} (hm : h.Holds p (object, .deferred m arguments))
    (hx : h.bindDeferred object m arguments s = (.ok x, h')) : h'.Holds p x := by
  obtain ⟨hlocates, hplain⟩ := hm.provided.plain_of_deferred
  obtain ⟨hknown, hgeneric⟩ := hm.generic?_deferred
  rw [Heap.bindDeferred, hgeneric, Option.getD_some] at hx
  exact instantiate hlocates hplain hknown rfl hx

theorem declared {m : LocatedMethod} (hm : p.Locates m)
    (hid : ∃ site index, m.id = ⟨site, index, none, none⟩) :
    h.Holds p (.owned (.declared m.id.site) m.id.index, .concrete m) := by
  obtain ⟨site, index, hid⟩ := hid
  refine ⟨.plain hm (by rw [hid]), ?_, ?_⟩
  · simp only [MethodInstance.id, hid]
    exact knows_declared h site index
  · simp only [MethodInstance.id, hid]
    rfl

end Holds

theorem grows_bindDeferred (h : Heap) (object : MethodObject) (m : LocatedMethod)
    (arguments : List Ty) (s : Substitution) :
    h.Grows (h.bindDeferred object m arguments s).2 :=
  grows_instantiate h _ m _

/-! Types that are held. -/

/-- The identity that a method of a constructed type has by its position. -/
def memberId (path : List Nat) (d : TypeDecl) (i : TypeInstance) (index : Nat) : MethodId :=
  ⟨⟨path, d.fullName⟩, index, if d.isGeneric then some i.ty.arguments else none, none⟩

/-- The type is an instance of the declaration, and the object is its own: it holds the objects of
the methods. -/
structure Shows (h : Heap) (p : Program) (path : List Nat) (d : TypeDecl)
    (x : TypeObject × TypeInstance) : Prop where
  found : p.find? x.2.ty.name = some (path, d)
  made : d.instantiate x.2.ty.arguments = .ok x.2
  known : ∀ index, h.Knows (memberId path d x.2 index)
  object : ∀ index, .owned x.1 index = h.objectOf (memberId path d x.2 index)

namespace Shows

variable {path path' : List Nat} {d d' : TypeDecl} {x y : TypeObject × TypeInstance}

theorem grows (hx : h.Shows p path d x) (hgrows : h.Grows h') : h'.Shows p path d x where
  found := hx.found
  made := hx.made
  known index := (hx.known index).grows hgrows
  object index := (hx.object index).trans ((hx.known index).objectOf_grows hgrows).symm

theorem construct {ty : Ty} (hx : h.construct p ty = (.ok x, h')) :
    ∃ path d, h'.Shows p path d x := by
  unfold Heap.construct at hx
  split at hx
  · cases hx
  rename_i name arguments
  split at hx
  · cases hx
  rename_i path d hfind
  split at hx
  · cases hx
  rename_i i hi
  obtain ⟨home, _, hd⟩ := Program.atPath?_of_find? p hfind
  have hname := Program.fullName_of_findLocal? hd
  have hty : i.ty = .named d.fullName arguments := (Program.constructs_of_instantiate hi).ty
  have hspec := typeFor_spec h ⟨path, d.fullName⟩
  simp only [Prod.mk.injEq, Except.ok.injEq] at hx
  obtain ⟨rfl, rfl⟩ := hx
  refine ⟨path, d, ⟨?_, ?_, fun index => ?_, fun index => ?_⟩⟩
  · simpa [hty, Ty.name, hname] using hfind
  · simpa [hty, Ty.arguments] using hi
  · simpa [memberId, hty, Ty.arguments] using (hspec index _).1
  · simpa [memberId, hty, Ty.arguments] using (hspec index _).2

/-- A declaration that is not generic takes no arguments. -/
theorem arguments_eq_nil (hx : h.Shows p path d x) (hd : d.isGeneric = false) :
    x.2.ty.arguments = [] := by
  have harity := (Program.constructs_of_instantiate hx.made).arity
  have hparameters : d.genericParameters = [] := by simpa [TypeDecl.isGeneric] using hd
  simpa [hparameters] using harity

/-- Type objects are told apart by the types, and so by the instances. -/
theorem object_eq_iff (hx : h.Shows p path d x) (hy : h.Shows p path' d' y) :
    (x.1 = y.1 ↔ x.2.ty = y.2.ty) ∧ (x.2.ty = y.2.ty ↔ x.2 = y.2) := by
  have hxty : x.2.ty = .named d.fullName x.2.ty.arguments :=
    (Program.constructs_of_instantiate hx.made).ty
  have hyty : y.2.ty = .named d'.fullName y.2.ty.arguments :=
    (Program.constructs_of_instantiate hy.made).ty
  have hsame : x.2.ty.name = y.2.ty.name → path = path' ∧ d = d' := by
    intro hname
    have hfound := hy.found
    rw [← hname, hx.found] at hfound
    simpa using hfound
  refine ⟨⟨fun he => ?_, fun hty => ?_⟩, fun hty => ?_, congrArg TypeInstance.ty⟩
  · have hid : memberId path d x.2 0 = memberId path' d' y.2 0 := by
      rw [← (hx.known 0).objectOf_eq_iff (hy.known 0), ← hx.object, ← hy.object, he]
    obtain ⟨hsite, -, harguments, -⟩ := MethodId.mk.inj hid
    have hname : d.fullName = d'.fullName := congrArg Site.name hsite
    obtain ⟨-, rfl⟩ := hsame (by rw [hxty, hyty]; exact hname)
    rw [hxty, hyty]
    cases hd : d.isGeneric with
    | true =>
      simp only [hd, if_true, Option.some.injEq] at harguments
      rw [harguments]
    | false => rw [hx.arguments_eq_nil hd, hy.arguments_eq_nil hd]
  · obtain ⟨rfl, rfl⟩ := hsame (congrArg Ty.name hty)
    have hid : memberId path d x.2 0 = memberId path d y.2 0 := by rw [memberId, hty, memberId]
    have hobject : MethodObject.owned x.1 0 = .owned y.1 0 := by
      rw [hx.object, hy.object, hid]
    exact (MethodObject.owned.inj hobject).1
  · obtain ⟨-, rfl⟩ := hsame (congrArg Ty.name hty)
    have hmade := hy.made
    rw [← hty, hx.made] at hmade
    exact Except.ok.inj hmade

/-- The methods of a type that is held are held. -/
theorem member (hx : h.Shows p path d x) {index : Nat} {m : LocatedMethod}
    (hm : (Program.methodsOf path d x.2)[index]? = some m) :
    h.Holds p (.owned x.1 index, .concrete m) := by
  obtain ⟨hlocates, hplain⟩ := Program.locates_methodsOf hx.found hx.made hm
  obtain ⟨_, hid⟩ := Program.getElem?_methodsOf_eq_some.mp hm
  refine ⟨.plain hlocates hplain, ?_, ?_⟩
  · simp only [MethodInstance.id, hid]
    exact hx.known index
  · simp only [MethodInstance.id, hid]
    exact hx.object index

end Shows

end Heap

/-- A request to a program. What was handed out before is named by its position. -/
inductive Request where
  | declared (name : String) (index : Nat)
  | construct (ty : Ty)
  | member (type index : Nat)
  | resolve (r : MethodRef)
  | instantiate (method : Nat) (arguments : List Ty)
  | bind (method : Nat) (s : Substitution)
  | definition (method : Nat)

/-- The objects of a program, and those that were handed out. -/
structure Holdings where
  heap : Heap := {}
  types : List (TypeObject × TypeInstance) := []
  methods : List (MethodObject × MethodInstance) := []

namespace Holdings

def hold (s : Holdings) (x : Option (MethodObject × MethodInstance)) : Holdings :=
  { s with methods := s.methods ++ x.toList }

/-- The holdings after a request for a method was answered. -/
def keep (s : Holdings) (made : Except IrError (MethodObject × MethodInstance) × Heap) : Holdings :=
  { s with heap := made.2 }.hold made.1.toOption

def holdDeclared (s : Holdings) (m : Option LocatedMethod) : Holdings :=
  s.hold (m.map fun m => (.owned (.declared m.id.site) m.id.index, .concrete m))

def step (p : Program) (s : Holdings) : Request → Holdings
  | .declared name index =>
    s.holdDeclared ((p.find? name).bind fun (path, d) => (Program.declaredMethods path d)[index]?)
  | .construct ty =>
    let made := s.heap.construct p ty
    { s with heap := made.2, types := s.types ++ made.1.toOption.toList }
  | .member type index =>
    s.hold do
      let (object, i) ← s.types[type]?
      let (path, d) ← p.find? i.ty.name
      let m ← (Program.methodsOf path d i)[index]?
      return (.owned object index, .concrete m)
  | .resolve r => s.keep (s.heap.resolve p r)
  | .instantiate method arguments =>
    match s.methods[method]? with
    | some (object, .concrete m) => s.keep (s.heap.instantiate object m arguments)
    | _ => s
  | .bind method bindings =>
    match s.methods[method]? with
    | some (object, .deferred m arguments) =>
      s.keep (s.heap.bindDeferred object m arguments bindings)
    | _ => s
  | .definition method =>
    match s.methods[method]? with
    | some (_, .concrete m) => s.holdDeclared (p.definition? m.id)
    | _ => s

/-- What a list of requests leads to. -/
def run (p : Program) (requests : List Request) : Holdings :=
  requests.foldl (step p) {}

/-- Everything that was handed out is there. -/
structure Sound (p : Program) (s : Holdings) : Prop where
  types : ∀ x ∈ s.types, ∃ path d, s.heap.Shows p path d x
  methods : ∀ x ∈ s.methods, s.heap.Holds p x

namespace Sound

variable {p : Program} {s : Holdings}

theorem grow (hs : s.Sound p) {heap : Heap} (hgrows : s.heap.Grows heap) :
    ({ s with heap } : Holdings).Sound p where
  types x hx := by
    obtain ⟨path, d, hshows⟩ := hs.types x hx
    exact ⟨path, d, hshows.grows hgrows⟩
  methods x hx := (hs.methods x hx).grows hgrows

theorem hold (hs : s.Sound p) {x : Option (MethodObject × MethodInstance)}
    (hx : ∀ y ∈ x, s.heap.Holds p y) : (s.hold x).Sound p where
  types := hs.types
  methods y hy := by
    rcases List.mem_append.mp hy with hy | hy
    · exact hs.methods y hy
    · exact hx y (Option.mem_toList.mp hy)

theorem keep (hs : s.Sound p) {made : Except IrError (MethodObject × MethodInstance) × Heap}
    (hgrows : s.heap.Grows made.2) (hx : ∀ x heap, made = (.ok x, heap) → heap.Holds p x) :
    (s.keep made).Sound p := by
  obtain ⟨answer, heap⟩ := made
  refine (hs.grow hgrows).hold fun x hxmem => ?_
  cases answer with
  | error e => cases hxmem
  | ok y =>
    cases hxmem
    exact hx _ _ rfl

theorem holdDeclared (hs : s.Sound p) {m : Option LocatedMethod}
    (hm : ∀ x ∈ m, p.Locates x ∧ ∃ site index, x.id = ⟨site, index, none, none⟩) :
    (s.holdDeclared m).Sound p := by
  refine hs.hold fun x hx => ?_
  obtain ⟨m', hm', rfl⟩ := Option.map_eq_some_iff.mp hx
  exact .declared (hm m' hm').1 (hm m' hm').2

/-- What is handed out is there, whether the request follows from the program alone or from what was
handed out before. -/
theorem step (hs : s.Sound p) (request : Request) : (s.step p request).Sound p := by
  cases request with
  | declared name index =>
    refine hs.holdDeclared fun m hm => ?_
    obtain ⟨⟨path, d⟩, hfind, hm⟩ := Option.bind_eq_some_iff.mp hm
    obtain ⟨home, hhome, hd⟩ := Program.atPath?_of_find? p hfind
    obtain ⟨hlocates, hid⟩ := Program.locates_of_declared hhome hd hm
    exact ⟨hlocates, _, _, hid⟩
  | construct ty =>
    have hgrows := Heap.grows_construct s.heap p ty
    refine ⟨fun x hx => ?_, (hs.grow hgrows).methods⟩
    rcases List.mem_append.mp hx with hx | hx
    · exact (hs.grow hgrows).types x hx
    · rcases hmade : s.heap.construct p ty with ⟨e | y, heap⟩
      · simp [hmade, Except.toOption] at hx
      · obtain rfl : x = y := by simpa [hmade, Except.toOption] using hx
        simpa [Holdings.step, hmade] using Heap.Shows.construct hmade
  | member type index =>
    refine hs.hold fun x hx => ?_
    obtain ⟨⟨object, i⟩, htype, hx⟩ := Option.bind_eq_some_iff.mp hx
    obtain ⟨⟨path, d⟩, hfind, hx⟩ := Option.bind_eq_some_iff.mp hx
    obtain ⟨m, hm, hx⟩ := Option.bind_eq_some_iff.mp hx
    cases hx
    obtain ⟨path', d', hshows⟩ := hs.types _ (List.mem_of_getElem? htype)
    have hfound := hshows.found
    rw [hfind] at hfound
    cases hfound
    exact hshows.member hm
  | resolve r =>
    exact hs.keep (Heap.grows_resolve s.heap p r) fun x heap hx => .resolve hx
  | instantiate method arguments =>
    rw [Holdings.step]
    split
    · rename_i object m hm
      exact hs.keep (Heap.grows_instantiate s.heap object m arguments) fun x heap hx =>
        (hs.methods _ (List.mem_of_getElem? hm)).instantiate_concrete hx
    · exact hs
  | bind method bindings =>
    rw [Holdings.step]
    split
    · rename_i object m arguments hm
      exact hs.keep (Heap.grows_bindDeferred s.heap object m arguments bindings) fun x heap hx =>
        (hs.methods _ (List.mem_of_getElem? hm)).bindDeferred hx
    · exact hs
  | definition method =>
    rw [Holdings.step]
    split
    · refine hs.holdDeclared fun m hm => ?_
      obtain ⟨hlocates, hid⟩ := Program.locates_of_definition? hm
      exact ⟨hlocates, _, _, hid⟩
    · exact hs

end Sound

theorem sound_run (p : Program) (requests : List Request) : (run p requests).Sound p := by
  refine List.foldlRecOn requests (step p) ⟨by simp, by simp⟩ ?_
  intro s hs request _
  exact hs.step request

/-- However types and methods were come by, types are one object just when they are the same type,
and methods just when they have the same identity. -/
theorem objects_run (p : Program) (requests : List Request) :
    (∀ x ∈ (run p requests).types, ∀ y ∈ (run p requests).types,
      (x.1 = y.1 ↔ x.2.ty = y.2.ty) ∧ (x.2.ty = y.2.ty ↔ x.2 = y.2)) ∧
    ∀ x ∈ (run p requests).methods, ∀ y ∈ (run p requests).methods,
      (x.1 = y.1 ↔ x.2.id = y.2.id) ∧ (x.2.id = y.2.id ↔ x.2 = y.2) := by
  have hs := sound_run p requests
  refine ⟨fun x hx y hy => ?_, fun x hx y hy => ?_⟩
  · obtain ⟨_, _, hshows⟩ := hs.types x hx
    obtain ⟨_, _, hshows'⟩ := hs.types y hy
    exact hshows.object_eq_iff hshows'
  · exact (hs.methods x hx).object_eq_iff (hs.methods y hy)

end Holdings

end ShaderIR
