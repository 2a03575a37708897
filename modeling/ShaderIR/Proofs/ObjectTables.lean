import ShaderIR.Proofs.DraftInstances
import ShaderIR.Proofs.InstanceTable
import ShaderIR.Proofs.ObjectRoutes

/-! The tables behind the objects. A declaration keeps the instances that it has made in a table of
its own, and so does a generic method. The objects of a program are the entries of all these tables:
an identity says which entry of its declaration's table a method is found in, and which entry of the
method's own table it is. -/

namespace ShaderIR

namespace Heap

variable {p : Program} {h : Heap}

/-- The objects that requests have led to. -/
inductive Filled (p : Program) : Heap → Prop
  | empty : Filled p {}
  | construct {h : Heap} (hh : Filled p h) (ty : Ty) : Filled p (h.construct p ty).2
  | instantiate {h : Heap} {m : LocatedMethod} (hh : Filled p h) (hm : p.Locates m)
      (hplain : m.id.typeArguments = none) (hknown : h.Knows m.id) (arguments : List Ty) :
      Filled p (h.instantiate (h.objectOf m.id) m arguments).2

namespace Filled

theorem resolve (hh : h.Filled p) (r : MethodRef) : (h.resolve p r).2.Filled p := by
  have hconstructed := hh.construct r.owner
  have hlocated := map_snd_locate h p r
  unfold Heap.resolve
  rcases hl : h.locate p r with ⟨e | ⟨object, m⟩, h'⟩
  all_goals
    have hheap : (h.construct p r.owner).2 = h' := by
      rw [← show (h.locate p r).2 = h' by rw [hl]]
      unfold locate
      rcases h.construct p r.owner with ⟨_ | _, _⟩ <;> rfl
    rw [hheap] at hconstructed
  · exact hconstructed
  · obtain ⟨hknown, rfl, hplain⟩ := locate_ok hl
    rw [hl] at hlocated
    obtain ⟨hm, _⟩ := Program.locates_of_locate hlocated.symm
    dsimp only
    split
    · exact hconstructed
    · exact hconstructed.instantiate hm hplain hknown r.typeArguments

theorem instantiate_concrete (hh : h.Filled p) {object : MethodObject} {m : LocatedMethod}
    (hm : h.Holds p (object, .concrete m)) (arguments : List Ty) :
    (h.instantiate object m arguments).2.Filled p := by
  cases hi : m.instantiate arguments with
  | error e =>
    rw [Heap.instantiate, hi]
    exact hh
  | ok i =>
    obtain ⟨_, hgeneric, _⟩ := LocatedMethod.instantiate_eq_ok_iff.mp hi
    obtain ⟨hlocates, hplain⟩ := hm.provided.plain_of_generic hgeneric
    obtain rfl : object = h.objectOf m.id := hm.object
    exact hh.instantiate hlocates hplain hm.known arguments

theorem bindDeferred (hh : h.Filled p) {object : MethodObject} {m : LocatedMethod}
    {arguments : List Ty} (hm : h.Holds p (object, .deferred m arguments)) (s : Substitution) :
    (h.bindDeferred object m arguments s).2.Filled p := by
  obtain ⟨hlocates, hplain⟩ := hm.provided.plain_of_deferred
  obtain ⟨hknown, hgeneric⟩ := hm.generic?_deferred
  rw [Heap.bindDeferred, hgeneric, Option.getD_some]
  exact hh.instantiate hlocates hplain hknown _

end Filled

end Heap

theorem Holdings.filled_run (p : Program) (requests : List Request) :
    (run p requests).heap.Filled p := by
  refine (List.foldlRecOn requests (step p) (motive := fun s => s.Sound p ∧ s.heap.Filled p)
    ⟨sound_run p [], .empty⟩ ?_).2
  rintro s ⟨hs, hh⟩ request -
  refine ⟨hs.step request, ?_⟩
  cases request with
  | declared | member => exact hh
  | construct ty => exact hh.construct ty
  | resolve r => exact hh.resolve r
  | instantiate method arguments =>
    rw [step]
    split
    · rename_i object m hm
      exact hh.instantiate_concrete (hs.methods _ (List.mem_of_getElem? hm)) arguments
    · exact hh
  | bind method bindings =>
    rw [step]
    split
    · rename_i object m arguments hm
      exact hh.bindDeferred (hs.methods _ (List.mem_of_getElem? hm)) bindings
    · exact hh
  | definition method =>
    rw [step]
    split <;> exact hh

/-! The table of a generic method. -/

namespace Heap

variable {p : Program} {h : Heap} {object : MethodObject}

/-- The argument lists that a method has instances for, in the order of making. -/
def argumentsOf (h : Heap) (object : MethodObject) : List (List Ty) :=
  (h.methods.filter fun x => x.1 = object).map Prod.snd

theorem mem_argumentsOf {arguments : List Ty} :
    arguments ∈ h.argumentsOf object ↔ (object, arguments) ∈ h.methods := by
  simp [argumentsOf]

/-- An instance is made of one method, and the others keep theirs. -/
theorem argumentsOf_methodFor (h : Heap) (object other : MethodObject) (arguments : List Ty) :
    (h.methodFor other (some arguments)).2.argumentsOf object =
      if other = object ∧ arguments ∉ h.argumentsOf object then h.argumentsOf object ++ [arguments]
      else h.argumentsOf object := by
  by_cases hknown : (other, arguments) ∈ h.methods
  · have hsame : (h.methodFor other (some arguments)).2 = h := by
      simp [methodFor, numbered, hknown]
    rw [hsame, if_neg]
    rintro ⟨rfl, hnew⟩
    exact hnew (mem_argumentsOf.mpr hknown)
  · have hmethods : (h.methodFor other (some arguments)).2.methods =
        h.methods ++ [(other, arguments)] := by
      simp [methodFor, numbered, hknown]
    rw [argumentsOf, hmethods, List.filter_append, List.map_append]
    by_cases ho : other = object
    · subst ho
      rw [if_pos ⟨rfl, mt mem_argumentsOf.mp hknown⟩]
      simp [argumentsOf]
    · simp [argumentsOf, ho]

theorem argumentsOf_instantiate_of_ne {other : MethodObject} {m : LocatedMethod}
    {arguments : List Ty} (hne : other ≠ object) :
    (h.instantiate other m arguments).2.argumentsOf object = h.argumentsOf object := by
  unfold instantiate
  split
  · rfl
  · exact (argumentsOf_methodFor h object other arguments).trans (if_neg fun hn => hne hn.1)

theorem types_instantiate (h : Heap) (object : MethodObject) (m : LocatedMethod)
    (arguments : List Ty) : (h.instantiate object m arguments).2.types = h.types := by
  unfold instantiate
  split <;> rfl

theorem methods_typeFor (h : Heap) (site : Site) (arguments : Option (List Ty)) :
    (h.typeFor site arguments).2.methods = h.methods := by
  cases arguments <;> rfl

theorem argumentsOf_construct (h : Heap) (p : Program) (ty : Ty) (object : MethodObject) :
    (h.construct p ty).2.argumentsOf object = h.argumentsOf object := by
  have hmethods : (h.construct p ty).2.methods = h.methods := by
    unfold construct
    split
    · rfl
    split
    · rfl
    split
    · rfl
    · exact methods_typeFor h _ _
  rw [argumentsOf, hmethods, argumentsOf]

end Heap

/-- The table has one entry for each of the lists, numbered by its position. -/
structure InstanceTable.Numbers (t : InstanceTable) (lists : List (List Ty)) : Prop where
  made : t.made = lists.length
  entry : ∀ as n, (∃ value, t.entries.get? as = some ⟨n, value⟩) ↔ lists[n]? = some as

namespace InstanceTable.Numbers

variable {p : Program} {h : Heap} {object : MethodObject} {m : LocatedMethod} {replies : List Reply}
  {t : InstanceTable} {j : Journal} {lists : List (List Ty)}

theorem mem_iff (ht : t.Numbers lists) {as : List Ty} :
    as ∈ lists ↔ ∃ x, t.entries.get? as = some x := by
  rw [List.mem_iff_getElem?]
  constructor
  · rintro ⟨n, hn⟩
    obtain ⟨value, hvalue⟩ := (ht.entry as n).mpr hn
    exact ⟨_, hvalue⟩
  · rintro ⟨⟨n, value⟩, hx⟩
    exact ⟨n, (ht.entry as n).mp ⟨value, hx⟩⟩

theorem append (ht : t.Numbers lists) {as : List Ty} {value : MethodInstance}
    {entries : OnceMap (List Ty) Made} {built : Nat} (hnone : t.entries.get? as = none)
    (hcell : ∀ k, entries.cell? k =
      if k = as then some (.ready ⟨t.made, value⟩) else t.entries.cell? k) :
    Numbers ⟨entries, t.made + 1, built⟩ (lists ++ [as]) := by
  have hget := OnceMap.get?_of_cell? hcell
  refine ⟨by simp [ht.made], fun k n => ?_⟩
  have happend : (lists ++ [as])[n]? = some k ↔
      lists[n]? = some k ∨ n = lists.length ∧ k = as := by grind
  rw [hget, happend, ← ht.entry, ← ht.made]
  by_cases hk : k = as
  · subst hk
    simp [hnone, eq_comm]
  · simp [hk]

/-- A method's own table answers a request as the program does, and stays in step with the objects
that the program has of the method. -/
theorem request (hrecords : Records m replies t j) (ht : t.Numbers (h.argumentsOf object))
    (as : List Ty) :
    (t.request m as).1.map Made.value = (h.instantiate object m as).1.map Prod.snd ∧
      (t.request m as).2.Numbers ((h.instantiate object m as).2.argumentsOf object) := by
  have hvalue : m.instantiate as = (t.request m as).1.map Made.value :=
    (hrecords.request as).instantiated _ List.mem_cons_self
  refine ⟨hvalue.symm.trans (Heap.map_snd_instantiate h object m as).symm, ?_⟩
  rcases request_cases hrecords.settled as with ⟨x, hx, hrequest⟩ | ⟨e, he, hrequest⟩ |
    ⟨value, entries, hnone, hmade, hcell, hrequest⟩
  · have hmade := hrecords.instantiate_eq hx
    have hknown : as ∈ h.argumentsOf object := ht.mem_iff.mpr ⟨x, hx⟩
    rw [hrequest, Heap.instantiate, hmade, Heap.argumentsOf_methodFor, if_neg (by simp [hknown])]
    exact ht
  · rw [hrequest, Heap.instantiate, he]
    exact ht
  · have hnew : as ∉ h.argumentsOf object := by
      rw [ht.mem_iff, hnone]
      simp
    rw [hrequest, Heap.instantiate, hmade, Heap.argumentsOf_methodFor, if_pos ⟨rfl, hnew⟩]
    exact ht.append hnone hcell

end InstanceTable.Numbers

namespace Heap

variable {p : Program} {h : Heap} {m : LocatedMethod}

/-- Instances are made of methods that are there. -/
theorem Filled.exists_method (hh : h.Filled p) {object : MethodObject} {arguments : List Ty}
    (hx : (object, arguments) ∈ h.methods) :
    ∃ m, p.Locates m ∧ m.id.typeArguments = none ∧ h.Knows m.id ∧ object = h.objectOf m.id := by
  induction hh with
  | empty => cases hx
  | @construct h hh ty ih =>
    have hgrows := grows_construct h p ty
    rw [← mem_argumentsOf, argumentsOf_construct, mem_argumentsOf] at hx
    obtain ⟨m, hm, hplain, hknown, hobject⟩ := ih hx
    exact ⟨m, hm, hplain, hknown.grows hgrows, hobject.trans (hknown.objectOf_grows hgrows).symm⟩
  | @instantiate h m hh hm hplain hknown arguments' ih =>
    have hgrows := grows_instantiate h (h.objectOf m.id) m arguments'
    by_cases hold : (object, arguments) ∈ h.methods
    · obtain ⟨m, hm, hplain, hknown, hobject⟩ := ih hold
      exact ⟨m, hm, hplain, hknown.grows hgrows, hobject.trans (hknown.objectOf_grows hgrows).symm⟩
    · refine ⟨m, hm, hplain, hknown.grows hgrows, ?_⟩
      rw [hknown.objectOf_grows hgrows]
      by_contra hne
      rw [← mem_argumentsOf, argumentsOf_instantiate_of_ne (Ne.symm hne), mem_argumentsOf] at hx
      exact hold hx

/-- Whatever requests were made of the program, those that came to a generic method have filled a
table of its own, which numbers its instances in the order in which the program has made them. -/
theorem Filled.exists_table (hh : h.Filled p) (hm : p.Locates m)
    (hplain : m.id.typeArguments = none) (hknown : h.Knows m.id) :
    ∃ replies t j, InstanceTable.History m replies t j ∧
      t.Numbers (h.argumentsOf (h.objectOf m.id)) := by
  have hstart : ∀ heap : Heap, ∀ object, heap.argumentsOf object = [] →
      ∃ replies t j, InstanceTable.History m replies t j ∧ t.Numbers (heap.argumentsOf object) := by
    intro heap object hnone
    rw [hnone]
    exact ⟨[], {}, {}, .start (by simp), rfl, by simp⟩
  induction hh with
  | empty => exact hstart _ _ rfl
  | @construct h hh ty ih =>
    have hgrows := grows_construct h p ty
    rw [argumentsOf_construct]
    by_cases hbefore : h.Knows m.id
    · rw [hbefore.objectOf_grows hgrows]
      exact ih hbefore
    · -- a method of a type that is new has no instances
      refine hstart h _ (List.eq_nil_iff_forall_not_mem.mpr fun arguments ha => ?_)
      obtain ⟨m', _, _, hknown', hobject⟩ := hh.exists_method (mem_argumentsOf.mp ha)
      rw [← hknown'.objectOf_grows hgrows] at hobject
      have hid := hknown.eq_of_objectOf_eq (hknown'.grows hgrows) hobject
      exact hbefore (hid ▸ hknown')
  | @instantiate h m' hh hm' hplain' hknown' arguments ih =>
    have hgrows := grows_instantiate h (h.objectOf m'.id) m' arguments
    have hbefore : h.Knows m.id :=
      ⟨types_instantiate h (h.objectOf m'.id) m' arguments ▸ hknown.owner, by simp [hplain]⟩
    obtain ⟨replies, t, j, hhistory, ht⟩ := ih hbefore
    rw [hbefore.objectOf_grows hgrows]
    by_cases hid : m'.id = m.id
    · obtain rfl := hm'.eq_of_id_eq hm hid
      exact ⟨_, _, _, hhistory.make arguments,
        (InstanceTable.Numbers.request hhistory.records ht arguments).2⟩
    · have hne : h.objectOf m'.id ≠ h.objectOf m.id :=
        fun he => hid (hknown'.eq_of_objectOf_eq hbefore he)
      rw [argumentsOf_instantiate_of_ne hne]
      exact ⟨replies, t, j, hhistory, ht⟩

end Heap

/-- The instances of a generic method are the entries of its table: they are one object just when
they have one number there, and just when their identities are the same. -/
theorem Holdings.table_run (p : Program) (requests : List Request) {object : MethodObject}
    {m : LocatedMethod} (hm : (object, .concrete m) ∈ (run p requests).methods)
    (hgeneric : m.method.isGeneric = true) :
    ∃ replies t j, InstanceTable.History m replies t j ∧
      (∀ x ∈ (run p requests).methods, ∀ as, x.2.id = { m.id with typeArguments := some as } →
        ∃ n, ⟨as, .ok ⟨n, x.2⟩⟩ ∈ replies) ∧
      ∀ x ∈ (run p requests).methods, ∀ y ∈ (run p requests).methods, ∀ as as' n n',
        ⟨as, .ok ⟨n, x.2⟩⟩ ∈ replies → ⟨as', .ok ⟨n', y.2⟩⟩ ∈ replies →
        (n = n' ↔ x.1 = y.1) ∧ (n = n' ↔ x.2.id = y.2.id) := by
  have hs := sound_run p requests
  obtain ⟨hprovided, hknown, hobject⟩ := hs.methods _ hm
  obtain ⟨hlocates, hplain⟩ := hprovided.plain_of_generic hgeneric
  obtain ⟨replies, t, j, hhistory, ht⟩ :=
    (filled_run p requests).exists_table hlocates hplain hknown
  have hrecords := hhistory.records
  refine ⟨replies, t, j, hhistory, fun x hx as hid => ?_, fun x hx y hy as as' n n' hn hn' => ?_⟩
  · have hheld := hs.methods x hx
    have hmem := hheld.known.method as (by rw [hid]; rfl)
    have howned : (run p requests).heap.ownedOf x.2.id = (run p requests).heap.objectOf m.id := by
      rw [hid, Heap.objectOf, hplain]
      rfl
    rw [howned, ← Heap.mem_argumentsOf, ht.mem_iff] at hmem
    obtain ⟨⟨n, value⟩, hget⟩ := hmem
    have hmade := hrecords.instantiate_eq hget
    have hsame : value = x.2 := (Program.Provides.made hlocates hplain hmade).eq_of_id_eq
      hheld.provided ((LocatedMethod.id_of_instantiate hmade).trans hid.symm)
    exact ⟨n, hsame ▸ (hrecords.answered as _).mp hget⟩
  · rw [← hrecords.answered] at hn hn'
    have hnumber := hrecords.number_eq_iff hn hn'
    have hvalue := hrecords.value_eq_iff hn hn'
    obtain ⟨hobjects, hids⟩ := (hs.methods x hx).object_eq_iff (hs.methods y hy)
    have hid : n = n' ↔ x.2.id = y.2.id := (hnumber.trans hvalue.symm).trans hids.symm
    exact ⟨hid.trans hobjects.symm, hid⟩

/-! The table of a declaration. -/

namespace TypeDecl.Draft

variable {steps : List Step}

theorem parts_asked (asked : List (List Ty)) (steps : List Step) :
    parts (asked.map .ask ++ steps) = parts steps := by
  induction asked with
  | nil => rfl
  | cons arguments asked ih => rw [List.map_cons, List.cons_append, parts_ask, ih]

theorem map_parts_origin? (hsteps : ∀ as, .ask as ∉ steps) (asked : List (List Ty))
    (as : List Ty) :
    (origin? as (asked.map .ask ++ steps)).map parts =
      if as ∈ asked then some (parts steps) else none := by
  induction asked with
  | nil =>
    cases horigin : origin? as steps with
    | none => simp [horigin]
    | some first =>
      obtain ⟨after, hsplit, _⟩ := split_of_origin? horigin
      exact absurd (by simp [hsplit]) (hsteps as)
  | cons arguments asked ih =>
    rw [List.map_cons, List.cons_append, origin?]
    by_cases hmem : as ∈ asked
    · rw [if_pos hmem, Option.map_eq_some_iff] at ih
      obtain ⟨first, hfirst, hparts⟩ := ih
      simp [hfirst, hparts, hmem]
    · rw [if_neg hmem, Option.map_eq_none_iff] at ih
      by_cases he : arguments = as
      · simp [ih, he, parts_asked]
      · simp [ih, he, hmem, Ne.symm he]

/-- A declaration that nothing was added to since it was first asked holds the instances that it was
asked for and has. -/
theorem get?_run_asked (name : String) (hsteps : ∀ as, .ask as ∉ steps) (asked : List (List Ty))
    (as : List Ty) (i : TypeInstance) :
    (run name (asked.map .ask ++ steps)).instances.get? as = some i ↔
      as ∈ asked ∧ (assemble name (parts steps)).instantiate as = .ok i := by
  rw [(remembers_run name _).made]
  have horigin := map_parts_origin? hsteps asked as
  by_cases hmem : as ∈ asked
  · rw [if_pos hmem, Option.map_eq_some_iff] at horigin
    obtain ⟨first, hfirst, hparts⟩ := horigin
    rw [hfirst, Option.bind_some, hparts]
    cases (assemble name (parts steps)).instantiate as <;> simp [Except.toOption, hmem]
  · rw [if_neg hmem, Option.map_eq_none_iff] at horigin
    simp [horigin, hmem]

end TypeDecl.Draft

/-- The method is found where its identity says: in the instance for its owner's arguments, by its
position, and then among the instances that this method has. -/
theorem Program.Provides.exists_method {p : Program} {i : MethodInstance} (h : p.Provides i)
    {name : String} {path : List Nat} {d : TypeDecl} (hfind : p.find? name = some (path, d))
    (hgeneric : d.isGeneric = true) (hsite : i.id.site = ⟨path, name⟩) {as : List Ty}
    (has : as ∈ i.id.ownerArguments) :
    ∃ owner m, d.instantiate as = .ok owner ∧
      (methodsOf path d owner)[i.id.index]? = some m ∧
        (i = .concrete m ∨ ∃ arguments, m.instantiate arguments = .ok i) := by
  obtain ⟨home, hhome, hd⟩ := atPath?_of_find? p hfind
  have hname := fullName_of_findLocal? hd
  -- the method that the identity stands for apart from its own arguments
  have hplain : ∀ m : LocatedMethod, p.Locates m → m.id = ⟨i.id.site, i.id.index, some as, none⟩ →
      ∃ owner, d.instantiate as = .ok owner ∧ (methodsOf path d owner)[i.id.index]? = some m := by
    intro m hm hid
    have hm : p.instance? m.id = some m.method := hm
    simp only [instance?, hid, hsite, hhome, hd, bind, Option.bind_some,
      Option.bind_eq_some_iff] at hm
    obtain ⟨methods, hmethods, method, hmethod, he⟩ := hm
    obtain rfl : method = m.method := Option.some.inj he
    cases howner : d.instantiate as with
    | error e => simp [methodsFor?, howner, Except.toOption] at hmethods
    | ok owner =>
      obtain rfl : owner.methods = methods := by
        simpa [methodsFor?, howner, Except.toOption] using hmethods
      have harguments : owner.ty.arguments = as := by
        rw [(constructs_of_instantiate howner).ty]
        rfl
      refine ⟨owner, rfl, getElem?_methodsOf_eq_some.mpr ⟨hmethod, ?_⟩⟩
      rw [hid, hsite, hgeneric, if_pos rfl, harguments, hname]
  cases h with
  | @plain m hm htype =>
    have hid : m.id = ⟨m.id.site, m.id.index, some as, none⟩ := by
      rw [← show m.id.ownerArguments = some as from has, ← htype]
    obtain ⟨owner, howner, hmethod⟩ := hplain m hm hid
    exact ⟨owner, m, howner, hmethod, .inl rfl⟩
  | @made m arguments _ hm htype hi =>
    have hmade := LocatedMethod.id_of_instantiate hi
    have hid : m.id = ⟨i.id.site, i.id.index, some as, none⟩ := by
      rw [hmade] at has ⊢
      rw [← show m.id.ownerArguments = some as from has, ← htype]
    obtain ⟨owner, howner, hmethod⟩ := hplain m hm hid
    exact ⟨owner, m, howner, hmethod, .inr ⟨arguments, hi⟩⟩

/-- The instances of a generic declaration are the entries of its table, if nothing was added to it
since it was first asked: types are found there by their arguments, and methods in the entry for the
owner's arguments of their identity. -/
theorem Holdings.draft_run (p : Program) (requests : List Request) {name : String}
    {path : List Nat} {steps : List TypeDecl.Draft.Step}
    (hfind : p.find? name =
      some (path, TypeDecl.assemble name (TypeDecl.Draft.parts steps)))
    (hgeneric : (TypeDecl.assemble name (TypeDecl.Draft.parts steps)).isGeneric = true)
    (hsteps : ∀ as, .ask as ∉ steps) :
    ∃ asked : List (List Ty), let draft := TypeDecl.Draft.run name (asked.map .ask ++ steps)
      (∀ as i, draft.instances.get? as = some i ↔
        (⟨path, name⟩, as) ∈ (run p requests).heap.types ∧
          p.construct (.named name as) = .ok i) ∧
      (∀ x ∈ (run p requests).types, x.2.ty.name = name →
        draft.instances.get? x.2.ty.arguments = some x.2) ∧
      ∀ x ∈ (run p requests).methods, x.2.id.site = ⟨path, name⟩ → ∀ as ∈ x.2.id.ownerArguments,
        ∃ owner m, draft.instances.get? as = some owner ∧
          (Program.methodsOf path draft.decl owner)[x.2.id.index]? = some m ∧
          (x.2 = .concrete m ∨ ∃ arguments, m.instantiate arguments = .ok x.2) := by
  have hs := sound_run p requests
  let site : Site := ⟨path, name⟩
  let asked := ((run p requests).heap.types.filter fun x => x.1 = site).map Prod.snd
  have hasked : ∀ as, as ∈ asked ↔ (site, as) ∈ (run p requests).heap.types := by simp [asked]
  have hget := TypeDecl.Draft.get?_run_asked name hsteps asked
  have hdecl : (TypeDecl.Draft.run name (asked.map .ask ++ steps)).decl =
      TypeDecl.assemble name (TypeDecl.Draft.parts steps) := by
    rw [(TypeDecl.Draft.remembers_run name _).decl, TypeDecl.Draft.parts_asked]
  refine ⟨asked, fun as i => ?_, fun x hx hname => ?_, fun x hx hsite as has => ?_⟩
  · rw [hget, hasked, Program.construct, hfind]
  · obtain ⟨path', d', hshows⟩ := hs.types x hx
    have hfound := hshows.found
    rw [hname, hfind] at hfound
    cases hfound
    have hknown := (hshows.known 0).owner x.2.ty.arguments (by simp [Heap.memberId, hgeneric])
    have hfull : (TypeDecl.assemble name (TypeDecl.Draft.parts steps)).fullName = name := by
      rw [TypeDecl.assemble_eq_ofParts]
      rfl
    rw [hget, hasked]
    exact ⟨by simpa [Heap.memberId, hfull] using hknown, hshows.made⟩
  · have hheld := hs.methods x hx
    obtain ⟨owner, m, howner, hm⟩ := hheld.provided.exists_method hfind hgeneric hsite has
    have hknown := hheld.known.owner as has
    rw [hsite] at hknown
    refine ⟨owner, m, ?_, ?_⟩
    · rw [hget, hasked]
      exact ⟨hknown, howner⟩
    · rw [hdecl]
      exact hm

end ShaderIR
