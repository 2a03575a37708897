import ShaderIR.Proofs.ManifestScope

/-! The calls of a manifest and the program that is loaded from it. A call is bound to a method of
the manifest's own types when it is read, and found again through the program's lookup order. The
two agree unless the library comes first and declares the owner too. -/

namespace ShaderIR

/-- The declared method that a resolved reference leads to. -/
def MethodInstance.definition : MethodInstance → Site × Nat
  | .concrete m => m.id.definition
  | .deferred m _ => m.id.definition

namespace Program

variable {p : Program} {name : String} {d : TypeDecl} {r : MethodRef} {i : TypeInstance}

/-- A dependency declares the name and comes before the program's own types. -/
def Hides (p : Program) (name : String) : Prop :=
  p.lookupOrder = .dependenciesFirst ∧ (findAmong? p.dependencies 0 name).isSome = true

instance (p : Program) (name : String) : Decidable (p.Hides name) :=
  inferInstanceAs (Decidable (_ ∧ _))

theorem find?_of_hides (h : p.Hides name) :
    ∃ path d, p.find? name = some (path, d) ∧ path ≠ [] := by
  obtain ⟨horder, hsome⟩ := h
  obtain ⟨⟨path, d⟩, hfound⟩ := Option.isSome_iff_exists.mp hsome
  obtain ⟨k, rest, _, _, hpath, _⟩ := atPath?_of_findAmong? p.dependencies 0 hfound
  refine ⟨path, d, ?_, by simp [hpath]⟩
  rw [find?_eq, horder, hfound]
  exact Option.some_or

theorem find?_of_not_hides (h : ¬ p.Hides name) (hlocal : findLocal? p.types name = some d) :
    p.find? name = some ([], d) := by
  rw [find?_eq, hlocal]
  cases horder : p.lookupOrder with
  | localFirst => rfl
  | dependenciesFirst =>
    have hnone : findAmong? p.dependencies 0 name = none := by
      simpa [Hides, horder] using h
    rw [hnone]
    rfl

theorem construct_parts {ty : Ty} (h : p.construct ty = .ok i) :
    ∃ arguments path d, ty = .named ty.name arguments ∧ p.find? ty.name = some (path, d) ∧
      d.instantiate arguments = .ok i := by
  unfold construct at h
  split at h
  · cases h
  rename_i name arguments
  split at h
  · cases h
  rename_i path d hfind
  exact ⟨arguments, path, d, rfl, hfind, h⟩

theorem exists_method_of_instantiate {arguments : List Ty} (h : d.instantiate arguments = .ok i)
    {k : Nat} {declared : Method} (hk : d.methods[k]? = some declared) :
    ∃ m, i.methods[k]? = some m ∧ m.name = declared.name := by
  rw [(constructs_of_instantiate h).methods]
  split
  · exact ⟨declared, hk, rfl⟩
  · exact ⟨_, by rw [List.getElem?_map, hk, Option.map_some], Method.name_forOwner ..⟩

theorem locate_of_declared {path : List Nat} {declared : Method}
    (hi : p.construct r.owner = .ok i) (hfind : p.find? r.owner.name = some (path, d))
    (hk : d.methods[r.index]? = some declared) (hname : declared.name = r.name) :
    ∃ m, p.locate r = .ok m ∧ m.id.definition = (⟨path, d.fullName⟩, r.index) ∧
      i.methods[r.index]? = some m.method := by
  obtain ⟨arguments, path', d', howner, hfind', hi⟩ := construct_parts hi
  obtain ⟨rfl, rfl⟩ : path' = path ∧ d' = d := by simpa [hfind] using hfind'.symm
  obtain ⟨method, hmethod, hsame⟩ := exists_method_of_instantiate hi hk
  let m : LocatedMethod := ⟨⟨⟨path', d'.fullName⟩, r.index,
    if d'.isGeneric then some i.ty.arguments else none, none⟩, method⟩
  have hm : (methodsOf path' d' i)[r.index]? = some m := by simp [methodsOf, hmethod, m]
  refine ⟨m, ?_, rfl, hmethod⟩
  rw [locate, howner]
  simp [hfind', hi, hm, m, hsame, hname]

theorem locate_of_methodless {path : List Nat} (hi : p.construct r.owner = .ok i)
    (hfind : p.find? r.owner.name = some (path, d)) (hd : d.methods = []) :
    p.locate r = .error (.unknownMethod r.owner r.name r.index) := by
  obtain ⟨arguments, path', d', howner, hfind', hi⟩ := construct_parts hi
  obtain ⟨rfl, rfl⟩ : path' = path ∧ d' = d := by simpa [hfind] using hfind'.symm
  have hnone : i.methods = [] := by simp [(constructs_of_instantiate hi).methods, hd]
  rw [locate, howner]
  simp [hfind', hi, methodsOf, hnone]

/-- Once the method is found, only its type arguments can be refused. -/
theorem resolve_of_locate {m : LocatedMethod} (h : p.locate r = .ok m) :
    (∃ t, p.resolve r = .ok t ∧ t.definition = m.id.definition) ∨
      ∃ e, p.resolve r = .error e ∧ e.isRefusal = true ∧ r.typeArguments ≠ [] := by
  rw [resolve, h]
  by_cases hempty : r.typeArguments = []
  · exact .inl ⟨.concrete m, by simp [hempty], rfl⟩
  · simp only [List.isEmpty_iff, hempty, if_false, LocatedMethod.instantiate]
    cases hi : m.method.instantiate r.typeArguments with
    | error e => exact .inr ⟨e, rfl, Method.instantiate_error hi, hempty⟩
    | ok specialized =>
      cases specialized with
      | concrete _ => exact .inl ⟨_, rfl, rfl⟩
      | deferred => exact .inl ⟨_, rfl, rfl⟩

end Program

namespace Manifest

/-! Overload selection. -/

/-- The method has the name and, if parameter types are listed, these in its own scope. -/
def MethodHead.Suits (m : MethodHead) (name : String) (parameters : Option (List String)) : Prop :=
  m.entry.name = name ∧
    ∀ exprs, parameters = some exprs → parseTypes m.scope exprs = .ok m.parameters

namespace TypeHead

theorem candidates_cons {name : String} {parameters : Option (List String)} {m : MethodHead}
    {index : Nat} {ms : List (MethodHead × Nat)} {ks : List Nat}
    (h : candidates name parameters ((m, index) :: ms) = .ok ks) :
    ∃ others, candidates name parameters ms = .ok others ∧
      (m.Suits name parameters ∧ ks = index :: others ∨
        ¬ m.Suits name parameters ∧ ks = others) := by
  by_cases hname : m.entry.name = name
  · cases parameters with
    | none =>
      simp only [candidates, hname, bne_self_eq_false, Bool.false_eq_true, if_false] at h
      obtain ⟨others, hothers, h⟩ := exists_of_bind_ok h
      cases h
      exact ⟨others, hothers, .inl ⟨⟨hname, by simp⟩, rfl⟩⟩
    | some exprs =>
      simp only [candidates, hname, bne_self_eq_false, Bool.false_eq_true, if_false] at h
      obtain ⟨wanted, hwanted, h⟩ := exists_of_bind_ok h
      obtain ⟨others, hothers, h⟩ := exists_of_bind_ok h
      have hsuits : m.Suits name (some exprs) ↔ wanted = m.parameters := by
        simp [MethodHead.Suits, hname, hwanted]
      by_cases hsame : wanted = m.parameters
      · rw [if_pos hsame] at h
        cases h
        exact ⟨others, hothers, .inl ⟨hsuits.mpr hsame, rfl⟩⟩
      · rw [if_neg hsame] at h
        cases h
        exact ⟨_, hothers, .inr ⟨fun hs => hsame (hsuits.mp hs), rfl⟩⟩
  · -- The parameters are read only for methods of the name.
    have hothers : candidates name parameters ms = .ok ks := by
      simpa [candidates, hname] using h
    exact ⟨ks, hothers, .inr ⟨fun hs => hname hs.1, rfl⟩⟩

theorem mem_candidates {name : String} {parameters : Option (List String)}
    {ms : List (MethodHead × Nat)} {ks : List Nat} (h : candidates name parameters ms = .ok ks)
    (k : Nat) : k ∈ ks ↔ ∃ m, (m, k) ∈ ms ∧ m.Suits name parameters := by
  induction ms generalizing ks with
  | nil =>
    cases h
    simp
  | cons head ms ih =>
    obtain ⟨m, index⟩ := head
    obtain ⟨others, hothers, ⟨hsuits, rfl⟩ | ⟨hsuits, rfl⟩⟩ := candidates_cons h
    · simp [ih hothers, hsuits, or_and_right, exists_or]
    · simp [ih hothers, hsuits, or_and_right, exists_or]

theorem suits_of_resolve {head : TypeHead} {name : String} {parameters : Option (List String)}
    {k : Nat} (h : head.resolve name parameters = .ok k) :
    (∃ m, head.methods[k]? = some m ∧ m.Suits name parameters) ∧
      ∀ k' m, head.methods[k']? = some m → m.Suits name parameters → k' = k := by
  obtain ⟨ks, hks, h⟩ := exists_of_bind_ok h
  obtain rfl : ks = [k] := by
    split at h <;> cases h
    rfl
  have hmem := mem_candidates hks
  simp only [List.mem_singleton, List.mk_mem_zipIdx_iff_getElem?] at hmem
  exact ⟨(hmem k).mp rfl, fun k' m hm hsuits => (hmem k').mpr ⟨m, hm, hsuits⟩⟩

end TypeHead

/-- What reading a call chooses: a type entry by the owner's name, and in it the only method that
suits the call. -/
structure Chooses (heads : List TypeHead) (scope : List GenericParam) (call : CallEntry)
    (r : MethodRef) (target : TypeHead) (chosen : MethodHead) : Prop where
  owner : parseType scope call.owner = .ok r.owner
  typeArguments : parseTypes scope call.typeArguments = .ok r.typeArguments
  name : r.name = call.method
  named : typeNamed? heads r.owner.name = some target
  selected : target.resolve call.method call.parameters = .ok r.index
  position : target.methods[r.index]? = some chosen
  suits : chosen.Suits call.method call.parameters
  only : ∀ k m, target.methods[k]? = some m → m.Suits call.method call.parameters → k = r.index

variable {heads : List TypeHead} {scope : List GenericParam}

theorem mem_of_typeNamed? {name : String} {head : TypeHead}
    (h : typeNamed? heads name = some head) : head ∈ heads ∧ head.entry.name = name := by
  refine ⟨by simpa using List.mem_of_find?_eq_some h, ?_⟩
  have hname := List.find?_some h
  simpa using hname

theorem chooses_of_instructionOf {call : CallEntry} {instruction : Instruction}
    (h : instructionOf heads scope (.call call) = .ok instruction) :
    ∃ r target chosen, instruction = .call r call.result call.arguments ∧
      Chooses heads scope call r target chosen := by
  rw [instructionOf] at h
  obtain ⟨owner, howner, h⟩ := exists_of_bind_ok h
  cases hnamed : typeNamed? heads owner.name with
  | none => simp [hnamed] at h
  | some target =>
    simp only [hnamed] at h
    obtain ⟨index, hindex, h⟩ := exists_of_bind_ok h
    obtain ⟨typeArguments, hargs, h⟩ := exists_of_bind_ok h
    cases h
    obtain ⟨⟨chosen, hchosen, hsuits⟩, honly⟩ := TypeHead.suits_of_resolve hindex
    exact ⟨_, target, chosen, rfl, howner, hargs, rfl, hnamed, hindex, hchosen, hsuits, honly⟩

/-! What the declarations of a loaded program take from the entries. -/

/-- The entry describes the method. -/
structure MethodHead.Describes (heads : List TypeHead) (head : MethodHead) (m : Method) :
    Prop where
  name : m.name = head.entry.name
  parameters : m.parameterTypes = head.parameters
  body : instructionsOf heads head.scope head.entry.body = .ok m.body

/-- The entry describes the declaration, method by method. -/
structure TypeHead.Describes (heads : List TypeHead) (head : TypeHead) (d : TypeDecl) : Prop where
  name : d.fullName = head.entry.name
  methods : List.Forall₂ (MethodHead.Describes heads) head.methods d.methods

theorem describes_of_methodOf {owner : Ty} {head : MethodHead} {m : Method}
    (h : methodOf heads owner head = .ok m) : head.Describes heads m := by
  obtain ⟨returnType, _, h⟩ := exists_of_bind_ok h
  obtain ⟨body, hbody, h⟩ := exists_of_bind_ok h
  cases h
  exact ⟨rfl, rfl, hbody⟩

theorem describes_addMethods {ms : List MethodHead} {d d' : TypeDecl}
    (h : addMethods heads d ms = .ok d') :
    ∃ methods, d' = { d with methods := d.methods ++ methods } ∧
      List.Forall₂ (MethodHead.Describes heads) ms methods := by
  induction ms generalizing d with
  | nil =>
    cases h
    exact ⟨[], by simp, .nil⟩
  | cons m ms ih =>
    rw [addMethods] at h
    obtain ⟨method, hmethod, h⟩ := exists_of_bind_ok h
    obtain ⟨hname, hparameters, hbody⟩ := describes_of_methodOf hmethod
    obtain ⟨methods, rfl, hmethods⟩ := ih h
    exact ⟨method.declaredAs (d.object d.methods.length) d.selfTy :: methods,
      by simp [TypeDecl.addMethod], .cons ⟨hname, hparameters, hbody⟩ hmethods⟩

theorem addFields_keeps {fields : List FieldEntry} {d d' : TypeDecl}
    (h : addFields scope d fields = .ok d') :
    d'.fullName = d.fullName ∧ d'.methods = d.methods := by
  induction fields generalizing d with
  | nil =>
    cases h
    exact ⟨rfl, rfl⟩
  | cons f fields ih =>
    rw [addFields] at h
    obtain ⟨ty, _, h⟩ := exists_of_bind_ok h
    obtain ⟨hname, hmethods⟩ := ih h
    exact ⟨hname, hmethods⟩

theorem addGenericParameters_keeps (ps : List GenericParam) {d : TypeDecl}
    (hd : d.methods = []) :
    (ps.foldl TypeDecl.addGenericParameter d).fullName = d.fullName ∧
      (ps.foldl TypeDecl.addGenericParameter d).methods = [] := by
  induction ps generalizing d with
  | nil => exact ⟨rfl, hd⟩
  | cons q ps ih =>
    have hnone : (d.addGenericParameter q).methods = [] := by
      simp [TypeDecl.addGenericParameter, hd]
    exact ih hnone

theorem describes_declarationOf {head : TypeHead} {d : TypeDecl}
    (h : declarationOf heads head = .ok d) : head.Describes heads d := by
  obtain ⟨start, withFields, hstart, hfields, hmethods⟩ := parts_of_declarationOf h
  have hbare : start.fullName = head.entry.name ∧ start.methods = [] := by
    rcases hstart with rfl | ⟨spirv, rfl⟩ <;> exact ⟨rfl, rfl⟩
  obtain ⟨hname, hnone⟩ := addGenericParameters_keeps head.params hbare.2
  obtain ⟨hname', hnone'⟩ := addFields_keeps hfields
  obtain ⟨methods, rfl, hdescribes⟩ := describes_addMethods hmethods
  refine ⟨hname'.trans (hname.trans hbare.1), ?_⟩
  simpa [hnone', hnone] using hdescribes

theorem describes_addTypes {hs : List TypeHead} {p q : Program}
    (h : addTypes heads p hs = .ok q) :
    ∃ ds, q.types = p.types ++ ds ∧ q.dependencies = p.dependencies ∧
      List.Forall₂ (TypeHead.Describes heads) hs ds := by
  induction hs generalizing p with
  | nil =>
    cases h
    exact ⟨[], by simp, rfl, .nil⟩
  | cons head hs ih =>
    rw [addTypes] at h
    obtain ⟨d, hd, h⟩ := exists_of_bind_ok h
    split at h
    · rename_i p' hp'
      obtain ⟨ds, htypes, hdependencies, hds⟩ := ih h
      obtain ⟨htypes', _, hdependencies', _⟩ := parts_addType hp'
      exact ⟨d :: ds, by simp [htypes, htypes'], hdependencies.trans hdependencies',
        .cons (describes_declarationOf hd) hds⟩
    · cases h

theorem describes_toProgram {entry : Entry} {p : Program} (h : entry.toProgram = .ok p) :
    ∃ heads, typeHeads entry.types = .ok heads ∧ p.dependencies = [coreLibrary] ∧
      List.Forall₂ (TypeHead.Describes heads) heads p.types := by
  obtain ⟨heads, hheads, h⟩ := exists_of_bind_ok h
  obtain ⟨ds, htypes, hdependencies, hds⟩ := describes_addTypes h
  exact ⟨heads, hheads, hdependencies, htypes ▸ hds⟩

theorem map_eq_of_forall₂ {α β ε : Type} {f : α → Except ε β} {g : β → α}
    (hg : ∀ e x, f e = .ok x → g x = e) {es : List α} {xs : List β}
    (h : List.Forall₂ (fun e x => f e = .ok x) es xs) : xs.map g = es := by
  induction h with
  | nil => rfl
  | cons hx _ ih => rw [List.map_cons, hg _ _ hx, ih]

theorem MethodHead.entry_of {params : List GenericParam} {entry : MethodEntry} {head : MethodHead}
    (h : MethodHead.of params entry = .ok head) : head.entry = entry := by
  obtain ⟨own, _, h⟩ := exists_of_bind_ok h
  obtain ⟨parameters, _, h⟩ := exists_of_bind_ok h
  cases h
  rfl

theorem TypeHead.entries_of {entry : TypeEntry} {head : TypeHead}
    (h : TypeHead.of entry = .ok head) :
    head.entry = entry ∧ head.methods.map MethodHead.entry = head.entry.methods := by
  obtain ⟨params, _, h⟩ := exists_of_bind_ok h
  obtain ⟨methods, hmethods, h⟩ := exists_of_bind_ok h
  cases h
  exact ⟨rfl, map_eq_of_forall₂ (fun _ _ => MethodHead.entry_of)
    (forall₂_of_each (MethodHead.of params) (methodHeads params) rfl (fun _ _ => rfl) hmethods)⟩

/-- The heads are the entries, with their signatures read. -/
theorem entries_of_typeHeads {types : List TypeEntry} (h : typeHeads types = .ok heads) :
    heads.map TypeHead.entry = types ∧
      ∀ head ∈ heads, head.methods.map MethodHead.entry = head.entry.methods := by
  have hread := forall₂_of_each TypeHead.of typeHeads rfl (fun _ _ => rfl) h
  refine ⟨map_eq_of_forall₂ (fun _ _ hx => (TypeHead.entries_of hx).1) hread, ?_⟩
  intro head hmem
  obtain ⟨entry, _, hentry⟩ := Lowering.exists_of_forall₂ hread hmem
  exact (TypeHead.entries_of hentry).2

/-- The program finds the chosen method where the reference points: in the constructed owner, and
as the entry declares it. Only type arguments of the call can then be refused. -/
structure Finds (heads : List TypeHead) (p : Program) (r : MethodRef) (i : TypeInstance)
    (target : TypeHead) (chosen : MethodHead) (m declared : LocatedMethod) : Prop where
  located : p.locate r = .ok m
  constructed : i.methods[r.index]? = some m.method
  definition : p.definition? m.id = some declared
  place : m.id.definition = (⟨[], target.entry.name⟩, r.index)
  described : chosen.Describes heads declared.method
  resolved : (∃ t, p.resolve r = .ok t ∧ t.definition = m.id.definition) ∨
    ∃ e, p.resolve r = .error e ∧ e.isRefusal = true ∧ r.typeArguments ≠ []

variable {p : Program} {r : MethodRef} {i : TypeInstance} {target : TypeHead} {chosen : MethodHead}

theorem Finds.resolve_ne {m declared : LocatedMethod}
    (h : Finds heads p r i target chosen m declared) (owner : Ty) (name : String) (index : Nat) :
    p.resolve r ≠ .error (.unknownMethod owner name index) := by
  intro hunknown
  rcases h.resolved with ⟨t, ht, _⟩ | ⟨e, he, hrefusal, _⟩
  · cases hunknown.symm.trans ht
  · cases hunknown.symm.trans he
    cases hrefusal

theorem finds_of_not_hides {call : CallEntry} (hp : p.Distinct)
    (hdescribes : List.Forall₂ (TypeHead.Describes heads) heads p.types)
    (hc : Chooses heads scope call r target chosen) (hi : p.construct r.owner = .ok i)
    (hh : ¬ p.Hides r.owner.name) : ∃ m declared, Finds heads p r i target chosen m declared := by
  obtain ⟨hmem, hname⟩ := mem_of_typeNamed? hc.named
  obtain ⟨d, hd, hdescribed⟩ := Lowering.exists_of_forall₂ hdescribes.flip hmem
  have hfull : d.fullName = r.owner.name := hdescribed.name.trans hname
  -- The program declares each name once, so the entry that the loader picked is the one found.
  have hlocal : Program.findLocal? p.types r.owner.name = some d :=
    hfull ▸ Program.findLocal?_of_mem hp hd
  obtain ⟨method, hmethod, hmethodDescribed⟩ :=
    Lowering.getElem?_of_forall₂ hdescribed.methods.flip hc.position
  have hmethodName : method.name = r.name :=
    hmethodDescribed.name.trans (hc.suits.1.trans hc.name.symm)
  obtain ⟨m, hm, hplace, hconstructed⟩ := Program.locate_of_declared hi
    (Program.find?_of_not_hides hh hlocal) hmethod hmethodName
  have hsite : m.id.site = ⟨[], d.fullName⟩ := congrArg Prod.fst hplace
  have hindex : m.id.index = r.index := congrArg Prod.snd hplace
  refine ⟨m, ⟨⟨⟨[], d.fullName⟩, r.index, none, none⟩, method⟩, hm, hconstructed, ?_,
    hdescribed.name ▸ hplace, hmethodDescribed, Program.resolve_of_locate hm⟩
  simp [Program.definition?, hsite, hindex, Program.atPath?, hfull, hlocal,
    Program.declaredMethods, hmethod]

theorem methods_coreLibrary : ∀ d ∈ coreLibrary.types, d.methods = [] := by
  simp [coreLibrary, scalarTypes, vectorType, TypeDecl.builtin, TypeDecl.addGenericParameter]

theorem resolve_of_hides (hdependencies : p.dependencies = [coreLibrary])
    (hi : p.construct r.owner = .ok i) (hh : p.Hides r.owner.name) :
    p.resolve r = .error (.unknownMethod r.owner r.name r.index) := by
  obtain ⟨path, d, hfind, hpath⟩ := Program.find?_of_hides hh
  -- The types of the library have no methods, so any position in them is out of range.
  have hd : d ∈ coreLibrary.types := by
    rcases mem_of_find? hdependencies hfind with ⟨hnil, _⟩ | ⟨_, hd⟩
    · exact absurd hnil hpath
    · exact hd
  rw [Program.resolve, Program.locate_of_methodless hi hfind (methods_coreLibrary d hd)]

/-- However the text is decoded, every call in a loaded program refers to the method that the
manifest's own types select for it, at the place of the call and with its result and its
arguments. If its owner can be constructed, this is the method that the program finds, unless the
library hides the owner: only then is a method not known. -/
theorem callTargets_of_load {decode : String → Option Entry} {text : String} {p : Program}
    (h : load decode text = .ok p) :
    ∃ entry heads, decode text = some entry ∧ typeHeads entry.types = .ok heads ∧
      heads.map TypeHead.entry = entry.types ∧
      (∀ head ∈ heads, head.methods.map MethodHead.entry = head.entry.methods) ∧
      ∀ (a b c : Nat) (head : TypeHead) (caller : MethodHead) (call : CallEntry),
        heads[a]? = some head → head.methods[b]? = some caller →
        caller.entry.body[c]? = some (.call call) →
        ∃ d method r target chosen, p.types[a]? = some d ∧ d.methods[b]? = some method ∧
          method.body[c]? = some (.call r call.result call.arguments) ∧
          Chooses heads caller.scope call r target chosen ∧
          ∀ i, p.construct r.owner = .ok i →
            ((∃ m declared, Finds heads p r i target chosen m declared) ↔
              ¬ p.Hides r.owner.name) ∧
            ((∃ owner name index, p.resolve r = .error (.unknownMethod owner name index)) ↔
              p.Hides r.owner.name) := by
  unfold load at h
  split at h
  · cases h
  rename_i entry hentry
  have hdistinct := (toProgram_distinct_owned h).1
  obtain ⟨heads, hheads, hdependencies, hdescribes⟩ := describes_toProgram h
  obtain ⟨hentries, hmethodEntries⟩ := entries_of_typeHeads hheads
  refine ⟨entry, heads, hentry, hheads, hentries, hmethodEntries, ?_⟩
  intro a b c head caller call hhead hcaller hcall
  obtain ⟨d, hd, hdescribed⟩ := Lowering.getElem?_of_forall₂ hdescribes.flip hhead
  obtain ⟨method, hmethod, hmethodDescribed⟩ :=
    Lowering.getElem?_of_forall₂ hdescribed.methods.flip hcaller
  have hbody := forall₂_of_each (instructionOf heads caller.scope)
    (instructionsOf heads caller.scope) rfl (fun _ _ => rfl) hmethodDescribed.body
  obtain ⟨instruction, hinstruction, hread⟩ := Lowering.getElem?_of_forall₂ hbody.flip hcall
  obtain ⟨r, target, chosen, rfl, hchooses⟩ := chooses_of_instructionOf hread
  refine ⟨d, method, r, target, chosen, hd, hmethod, hinstruction, hchooses, ?_⟩
  intro i hi
  have hhidden := resolve_of_hides hdependencies hi
  have hfound := finds_of_not_hides hdistinct hdescribes hchooses hi
  refine ⟨⟨?_, hfound⟩, ⟨?_, fun hh => ⟨_, _, _, hhidden hh⟩⟩⟩
  · rintro ⟨m, declared, hfinds⟩ hh
    exact hfinds.resolve_ne _ _ _ (hhidden hh)
  · rintro ⟨owner, name, index, hunknown⟩
    by_contra hh
    obtain ⟨m, declared, hfinds⟩ := hfound hh
    exact hfinds.resolve_ne owner name index hunknown

theorem toOption_eq_some_iff {ε α : Type} {x : Except ε α} {a : α} :
    x.toOption = some a ↔ x = .ok a := by
  cases x <;> simp [Except.toOption]

/-- A call of the second of two overloads, in a constructed type. -/
def overloadManifest : String :=
  "[\"P\",\"dependencies_first\",[[\"Box\",[[\"T\"]],null,[],[[\"put\",true,null,null,[\"T\"]],"
    ++ "[\"put\",true,null,null,[\"Int\"]],[\"run\",true,null,null,[],[],"
    ++ "[[\"Call\",\"Box<Int>\",\"put\",[],[\"Int\"]]]]]]]]"

def boxPut : MethodRef :=
  { owner := .named "Box" [.named "Int" []], index := 1, name := "put", typeArguments := [] }

theorem callTargets_of_load_overload :
    ∃ p m declared, load Entry.parse? overloadManifest = .ok p ∧ ¬ p.Hides "Box" ∧
      p.locate boxPut = .ok m ∧ m.id.definition = (⟨[], "Box"⟩, 1) ∧
      p.definition? m.id = some declared ∧
      declared.method.parameterTypes = [.named "Int" []] := by
  have hloaded : ((Entry.parse? overloadManifest).bind fun entry =>
      (typeHeads entry.types).toOption.bind fun heads => entry.toProgram.toOption.map fun p =>
        ((heads[0]?.bind fun head => head.methods[2]?.bind fun m =>
          m.entry.body[0]?.map InstructionEntry.ctorIdx,
          p.types[0]?.bind fun d => d.methods[2]?.bind fun m => m.body[0]?),
        (p.construct boxPut.owner).toOption.isSome, decide (p.Hides "Box"),
        (p.definition? ⟨⟨[], "Box"⟩, 1, none, none⟩).map fun m => m.method.parameterTypes)) =
      some ((some 7, some (.mk .call [.method boxPut, .void])), true, false,
        some [.named "Int" []]) := by decide +kernel
  simp only [Option.bind_eq_some_iff, Option.map_eq_some_iff, Option.isSome_iff_exists,
    toOption_eq_some_iff, Prod.mk.injEq] at hloaded
  obtain ⟨entry, hentry, heads, hheads, p, hp, ⟨⟨head, hhead, caller, hcaller, e, he, hcall⟩,
    d, hd, method, hmethod, hbody⟩, ⟨i, hi⟩, hhides, declared, hdeclared, hparameters⟩ := hloaded
  have hload : load Entry.parse? overloadManifest = .ok p := by simp [load, hentry, hp]
  have hnot : ¬ p.Hides "Box" := of_decide_eq_false hhides
  obtain ⟨call, rfl⟩ : ∃ call, e = .call call := by
    cases e with
    | call entry => exact ⟨entry, rfl⟩
    | _ => cases hcall
  obtain ⟨entry', heads', hentry', hheads', _, _, hcalls⟩ := callTargets_of_load hload
  obtain rfl : entry = entry' := Option.some.inj (hentry.symm.trans hentry')
  obtain rfl : heads = heads' := Except.ok.inj (hheads.symm.trans hheads')
  obtain ⟨d', method', r, target, chosen, hd', hmethod', hbody', hchooses, hfinds⟩ :=
    hcalls 0 2 0 head caller call hhead hcaller he
  obtain rfl : d = d' := Option.some.inj (hd.symm.trans hd')
  obtain rfl : method = method' := Option.some.inj (hmethod.symm.trans hmethod')
  obtain rfl : r = boxPut := by
    have hoperands := congrArg Instruction.operands (Option.some.inj (hbody'.symm.trans hbody))
    exact Operand.method.inj (List.cons.inj hoperands).1
  obtain ⟨m, _, hm⟩ := (hfinds i hi).1.mpr hnot
  have hplace : m.id.definition = (⟨[], "Box"⟩, 1) := by
    rw [hm.place, (mem_of_typeNamed? hchooses.named).2]
    rfl
  have hdefinition : p.definition? m.id = some declared := by
    rw [← hdeclared]
    simp only [MethodId.definition, Prod.mk.injEq] at hplace
    simp only [Program.definition?, hplace.1, hplace.2]
  exact ⟨p, m, declared, hload, hnot, hm.located, hplace, hdefinition, hparameters⟩

/-- A program with a type of the library's, where the library comes first. -/
def hiddenManifest : String :=
  "[\"Demo\",\"dependencies_first\",[[\"System.Float32\",[],null,[],[[\"Scale\",true]]],"
    ++ "[\"Demo.Shader\",[],null,[],[[\"Main\",true,null,null,[],[],"
    ++ "[[\"Call\",\"System.Float32\",\"Scale\"]]]]]]]"

def floatScale : MethodRef :=
  { owner := .named "System.Float32" [], index := 0, name := "Scale", typeArguments := [] }

/-- The call is read and bound to the method of the manifest, but the program does not know it. -/
theorem callTargets_of_load_hidden :
    ∃ p d m i, load Entry.parse? hiddenManifest = .ok p ∧ p.types[1]? = some d ∧ d.methods[0]? = some m ∧
      m.body[0]? = some (.mk .call [.method floatScale, .void]) ∧
      p.construct floatScale.owner = .ok i ∧
      p.resolve floatScale = .error (.unknownMethod (.named "System.Float32" []) "Scale" 0) := by
  have hloaded : ((load Entry.parse? hiddenManifest).toOption.map fun p =>
      (p.types[1]?.bind fun d => d.methods[0]?.bind fun m => m.body[0]?,
        (p.construct floatScale.owner).toOption.isSome, p.resolve floatScale)) =
      some (some (.mk .call [.method floatScale, .void]), true,
        .error (.unknownMethod (.named "System.Float32" []) "Scale" 0)) := by decide +kernel
  simp only [Option.map_eq_some_iff, toOption_eq_some_iff, Prod.mk.injEq, Option.bind_eq_some_iff,
    Option.isSome_iff_exists] at hloaded
  obtain ⟨p, hp, ⟨d, hd, m, hm, hbody⟩, ⟨i, hi⟩, hresolve⟩ := hloaded
  exact ⟨p, d, m, i, hp, hd, hm, hbody, hi, hresolve⟩

end Manifest

end ShaderIR
