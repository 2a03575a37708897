import ShaderIR.Proofs.GenericScope
import ShaderIR.Proofs.LoadedPrograms

/-! Loaded programs are scoped. Type expressions are read with the parameters in scope at their
place, so a manifest cannot mention a parameter that is not declared there, and what its methods
resolve to has no parameter left once everything is bound. -/

namespace ShaderIR

namespace Ty

variable {scope : List GenericParam}

theorem scopedBy_named {n : String} {args : List Ty} (h : ∀ a ∈ args, a.ScopedBy scope) :
    (named n args).ScopedBy scope := by
  intro q hq
  obtain ⟨a, ha, hqa⟩ := mem_parameters_named.mp hq
  exact h a ha q hqa

theorem scopedBy_ofName (scope : List GenericParam) (name : String) :
    (ofName scope name).ScopedBy scope := by
  unfold ofName
  split
  · rename_i p hp
    have hname : p.name = name := by simpa using List.find?_some hp
    intro q hq
    obtain rfl : q = p := by simpa [GenericParam.ty, parameters] using hq
    rwa [hname]
  · exact scopedBy_named (by simp)

/-- By induction on the depth bound, for a type and for a list of arguments together. -/
theorem scopedBy_parse_within (fuel : Nat) :
    (∀ cs t rest, parseAt scope fuel cs = .ok (t, rest) → t.ScopedBy scope) ∧
    ∀ cs ts rest, parseArguments scope fuel cs = .ok (ts, rest) → ∀ t ∈ ts, t.ScopedBy scope := by
  induction fuel with
  | zero =>
    exact ⟨fun _ _ _ h => by simp [parseAt] at h, fun _ _ _ h => by simp [parseArguments] at h⟩
  | succ fuel ih =>
    obtain ⟨ihType, ihArguments⟩ := ih
    refine ⟨fun cs t rest h => ?_, fun cs ts rest h => ?_⟩
    · rw [parseAt] at h
      split at h
      · cases h
      split at h
      · split at h
        · rename_i hargs
          cases h
          exact scopedBy_named (ihArguments _ _ _ hargs)
        · cases h
      · cases h
        exact scopedBy_ofName _ _
    · rw [parseArguments] at h
      split at h
      · cases h
      · rename_i t tail ht
        split at h
        · rename_i hargs
          cases h
          exact List.forall_mem_cons.mpr ⟨ihType _ _ _ ht, ihArguments _ _ _ hargs⟩
        · cases h
      · rename_i t tail ht
        cases h
        simpa using ihType _ _ _ ht
      · cases h

theorem scopedBy_of_parse {expr : String} {t : Ty} (h : parse scope expr = .ok t) :
    t.ScopedBy scope := by
  unfold parse at h
  dsimp only at h
  split at h
  · rename_i rest hat
    split at h
    · cases h
      exact (scopedBy_parse_within _).1 _ _ _ hat
    · cases h
  · cases h

end Ty

namespace Manifest

/-! The parts of a declaration, in the order in which they are read. -/

/-- Reading a list entry by entry. -/
theorem forall₂_of_each {α β ε : Type} (f : α → Except ε β) (each : List α → Except ε (List β))
    (hnil : each [] = .ok [])
    (hcons : ∀ e es, each (e :: es) = do return (← f e) :: (← each es))
    {es : List α} {xs : List β} (h : each es = .ok xs) :
    List.Forall₂ (fun e x => f e = .ok x) es xs := by
  induction es generalizing xs with
  | nil =>
    rw [hnil] at h
    cases h
    exact .nil
  | cons e es ih =>
    rw [hcons] at h
    obtain ⟨x, hx, h⟩ := exists_of_bind_ok h
    obtain ⟨xs', hxs, h⟩ := exists_of_bind_ok h
    cases h
    exact .cons hx (ih hxs)

theorem exists_of_mem_each {α β ε : Type} (f : α → Except ε β) (each : List α → Except ε (List β))
    (hnil : each [] = .ok [])
    (hcons : ∀ e es, each (e :: es) = do return (← f e) :: (← each es))
    {es : List α} {xs : List β} (h : each es = .ok xs) : ∀ x ∈ xs, ∃ e ∈ es, f e = .ok x :=
  fun _ => Lowering.exists_of_forall₂ (forall₂_of_each f each hnil hcons h)

variable {scope params : List GenericParam} {heads : List TypeHead}

theorem scopedBy_of_parseType {expr : String} {t : Ty} (h : parseType scope expr = .ok t) :
    t.ScopedBy scope := by
  unfold parseType at h
  split at h
  · rename_i hparse
    cases h
    exact Ty.scopedBy_of_parse hparse
  · cases h

theorem scopedBy_of_parseTypes {exprs : List String} {ts : List Ty}
    (h : parseTypes scope exprs = .ok ts) : ∀ t ∈ ts, t.ScopedBy scope := by
  intro t ht
  obtain ⟨expr, _, hexpr⟩ :=
    exists_of_mem_each (parseType scope) (parseTypes scope) rfl (fun _ _ => rfl) h t ht
  exact scopedBy_of_parseType hexpr

theorem scopedBy_of_paramsOf {entries : List ParamEntry} {ps : List GenericParam}
    (h : paramsOf scope entries = .ok ps) : ∀ p ∈ ps, p.ScopedBy scope := by
  intro p hp
  obtain ⟨entry, _, hentry⟩ :=
    exists_of_mem_each (paramOf scope) (paramsOf scope) rfl (fun _ _ => rfl) h p hp
  unfold paramOf at hentry
  split at hentry
  · cases hentry
    simp [GenericParam.ScopedBy]
  · obtain ⟨allowed, hallowed, hentry⟩ := exists_of_bind_ok hentry
    cases hentry
    simpa [GenericParam.ScopedBy] using scopedBy_of_parseTypes hallowed

structure MethodHead.Scoped (params : List GenericParam) (m : MethodHead) : Prop where
  constraints : ∀ q ∈ m.own, q.ScopedBy params
  scope : m.scope = m.own ++ params
  parameters : ∀ t ∈ m.parameters, t.ScopedBy m.scope

structure TypeHead.Scoped (h : TypeHead) : Prop where
  constraints : ∀ q ∈ h.params, q.ScopedBy []
  methods : ∀ m ∈ h.methods, m.Scoped h.params

theorem MethodHead.scoped_of {entry : MethodEntry} {m : MethodHead}
    (h : MethodHead.of params entry = .ok m) : m.Scoped params := by
  unfold MethodHead.of at h
  obtain ⟨own, hown, h⟩ := exists_of_bind_ok h
  obtain ⟨parameters, hparameters, h⟩ := exists_of_bind_ok h
  cases h
  exact ⟨scopedBy_of_paramsOf hown, rfl, scopedBy_of_parseTypes hparameters⟩

theorem TypeHead.scoped_of {entry : TypeEntry} {head : TypeHead}
    (h : TypeHead.of entry = .ok head) : head.Scoped := by
  unfold TypeHead.of at h
  obtain ⟨params, hparams, h⟩ := exists_of_bind_ok h
  obtain ⟨methods, hmethods, h⟩ := exists_of_bind_ok h
  cases h
  refine ⟨scopedBy_of_paramsOf hparams, fun m hm => ?_⟩
  obtain ⟨method, _, hmethod⟩ :=
    exists_of_mem_each (MethodHead.of params) (methodHeads params) rfl (fun _ _ => rfl) hmethods m
      hm
  exact MethodHead.scoped_of hmethod

theorem types_call (r : MethodRef) (result : Option UInt32) (arguments : List UInt32) :
    (Instruction.call r result arguments).types = r.owner :: r.typeArguments := by
  have hresult : (result.elim Operand.void .variable).types = [] := by
    cases result <;> rfl
  have hvariables : arguments.flatMap (fun v => (Operand.variable v).types) = [] := by
    simp [Operand.types]
  simp only [Instruction.call, Instruction.types, List.flatMap_cons, List.flatMap_map, hresult,
    hvariables]
  exact List.append_nil _

/-- Only definitions and calls have types, which are read in the scope. -/
theorem scopedBy_of_instructionOf {e : InstructionEntry} {i : Instruction}
    (h : instructionOf heads scope e = .ok i) : ∀ t ∈ i.types, t.ScopedBy scope := by
  cases e with
  | define expr =>
    obtain ⟨ty, hty, h⟩ := exists_of_bind_ok h
    cases h
    simpa [Instruction.types, Operand.types] using scopedBy_of_parseType hty
  | call entry =>
    obtain ⟨owner, howner, h⟩ := exists_of_bind_ok h
    split at h
    · cases h
    obtain ⟨index, _, h⟩ := exists_of_bind_ok h
    obtain ⟨typeArguments, harguments, h⟩ := exists_of_bind_ok h
    cases h
    rw [types_call]
    exact List.forall_mem_cons.mpr
      ⟨scopedBy_of_parseType howner, scopedBy_of_parseTypes harguments⟩
  | _ =>
    cases h
    exact fun t ht => by cases ht

theorem scopedBy_of_returnTypeOf {expr : Option String} {ty : Option Ty}
    (h : returnTypeOf scope expr = .ok ty) : ∀ t ∈ ty, t.ScopedBy scope := by
  cases expr with
  | none =>
    cases h
    simp
  | some expr =>
    obtain ⟨t, ht, h⟩ := exists_of_bind_ok h
    cases h
    simpa using scopedBy_of_parseType ht

theorem scopedIn_of_methodOf {owner : Ty} {m : MethodHead} {method : Method}
    (hm : m.Scoped params) (h : methodOf heads owner m = .ok method) :
    method.ScopedIn params := by
  unfold methodOf at h
  obtain ⟨returnType, hreturn, h⟩ := exists_of_bind_ok h
  obtain ⟨body, hbody, h⟩ := exists_of_bind_ok h
  cases h
  refine ⟨hm.constraints, fun t ht => ?_⟩
  rw [← hm.scope]
  simp only [Method.types, List.mem_append, List.mem_flatMap, Option.mem_toList] at ht
  rcases ht with ((ht | ht) | ⟨a, ha, ht⟩) | ⟨i, hi, ht⟩
  · exact scopedBy_of_returnTypeOf hreturn t ht
  · exact hm.parameters t ht
  · rcases ha with ha | ha <;> split at ha <;>
      simp only [List.mem_singleton, List.not_mem_nil] at ha <;> subst ha <;> cases ht
  · obtain ⟨e, _, hi⟩ :=
      exists_of_mem_each (instructionOf heads m.scope) (instructionsOf heads m.scope) rfl
        (fun _ _ => rfl) hbody i hi
    exact scopedBy_of_instructionOf hi t ht

/-! Declarations are scoped, and so is every program built from them. -/

theorem scoped_addField {d : TypeDecl} (hd : d.Scoped) {name : String} {ty : Ty}
    (hty : ty.ScopedBy d.genericParameters) : (d.addField name ty).Scoped := by
  refine ⟨hd.constraints, hd.attributes, ?_, hd.methods⟩
  exact List.forall_mem_append.mpr ⟨hd.fields, List.forall_mem_singleton.mpr hty⟩

theorem scoped_addMethod {d : TypeDecl} (hd : d.Scoped) {m : Method}
    (hm : m.ScopedIn d.genericParameters) : (d.addMethod m).Scoped := by
  refine ⟨hd.constraints, hd.attributes, hd.fields, ?_⟩
  exact List.forall_mem_append.mpr ⟨hd.methods,
    List.forall_mem_singleton.mpr ⟨hm.constraints, hm.types⟩⟩

theorem scoped_addFields {fields : List FieldEntry} {d d' : TypeDecl} (hd : d.Scoped)
    (hscope : d.genericParameters = scope) (h : addFields scope d fields = .ok d') :
    d'.Scoped ∧ d'.genericParameters = scope := by
  induction fields generalizing d with
  | nil =>
    cases h
    exact ⟨hd, hscope⟩
  | cons f fields ih =>
    rw [addFields] at h
    obtain ⟨ty, hty, h⟩ := exists_of_bind_ok h
    have hty := scopedBy_of_parseType hty
    exact ih (scoped_addField hd (hscope ▸ hty)) hscope h

theorem scoped_addMethods {ms : List MethodHead} {d d' : TypeDecl} (hd : d.Scoped)
    (hms : ∀ m ∈ ms, m.Scoped d.genericParameters) (h : addMethods heads d ms = .ok d') :
    d'.Scoped := by
  induction ms generalizing d with
  | nil =>
    cases h
    exact hd
  | cons m ms ih =>
    rw [addMethods] at h
    obtain ⟨method, hmethod, h⟩ := exists_of_bind_ok h
    obtain ⟨hm, hms⟩ := List.forall_mem_cons.mp hms
    exact ih (scoped_addMethod hd (scopedIn_of_methodOf hm hmethod)) hms h

/-- The parameters of a declaration are added before there is anything to mention them. -/
theorem scoped_addGenericParameters {ps : List GenericParam} {start : TypeDecl}
    (hps : ∀ q ∈ ps, q.ScopedBy []) (hstart : start.Scoped)
    (hattributes : ∀ a ∈ start.attributes, a.types = []) (hfields : start.fields = [])
    (hmethods : start.methods = []) :
    (ps.foldl TypeDecl.addGenericParameter start).Scoped ∧
    (ps.foldl TypeDecl.addGenericParameter start).genericParameters =
      start.genericParameters ++ ps := by
  induction ps generalizing start with
  | nil => exact ⟨hstart, by simp⟩
  | cons q ps ih =>
    obtain ⟨hq, hps⟩ := List.forall_mem_cons.mp hps
    have hnext : (start.addGenericParameter q).Scoped := by
      refine ⟨List.forall_mem_append.mpr ⟨hstart.constraints, by simpa using hq⟩, ?_, ?_, ?_⟩
      · intro a ha t ht
        rw [hattributes a ha] at ht
        cases ht
      · simp [TypeDecl.addGenericParameter, hfields]
      · simp [TypeDecl.addGenericParameter, hmethods]
    obtain ⟨hscoped, hparameters⟩ := ih hps hnext hattributes hfields
      (by simp [TypeDecl.addGenericParameter, hmethods])
    refine ⟨hscoped, ?_⟩
    rw [List.foldl_cons, hparameters]
    simp [TypeDecl.addGenericParameter]

theorem scoped_builtin (name spirv : String) : (TypeDecl.builtin name spirv).Scoped :=
  ⟨by simp [TypeDecl.builtin], by simp [TypeDecl.builtin, Attribute.types],
    by simp [TypeDecl.builtin], by simp [TypeDecl.builtin]⟩

theorem scoped_declarationOf {head : TypeHead} {d : TypeDecl} (hhead : head.Scoped)
    (h : declarationOf heads head = .ok d) : d.Scoped := by
  obtain ⟨start, withFields, hstart, hfields, hmethods⟩ := parts_of_declarationOf h
  have hbare : start.Scoped ∧ start.genericParameters = [] ∧
      (∀ a ∈ start.attributes, a.types = []) ∧ start.fields = [] ∧ start.methods = [] := by
    rcases hstart with rfl | ⟨spirv, rfl⟩
    · exact ⟨⟨by simp, by simp, by simp, by simp⟩, rfl, by simp, rfl, rfl⟩
    · exact ⟨scoped_builtin _ _, rfl, by simp [TypeDecl.builtin, Attribute.types], rfl, rfl⟩
  obtain ⟨hscoped, hnone, hattributes, hnofields, hnomethods⟩ := hbare
  obtain ⟨hgeneric, hparameters⟩ := scoped_addGenericParameters hhead.constraints hscoped
    hattributes hnofields hnomethods
  rw [hnone, List.nil_append] at hparameters
  obtain ⟨hwith, hkept⟩ := scoped_addFields hgeneric hparameters hfields
  exact scoped_addMethods hwith (hkept ▸ hhead.methods) hmethods

theorem scoped_coreLibrary : ∀ d ∈ coreLibrary.types, d.Scoped := by
  have hscalars : ∀ q ∈ [({ name := "T", constraints := [scalarTypes.map fun s =>
      .named s.1 []] } : GenericParam)], q.ScopedBy [] := by
    simp [GenericParam.ScopedBy, scalarTypes, Ty.scopedBy_named]
  have hvector : ∀ count, (vectorType count).Scoped := fun count =>
    (scoped_addGenericParameters hscalars (scoped_builtin _ _)
      (by simp [TypeDecl.builtin, Attribute.types]) rfl rfl).1
  simp [coreLibrary, scalarTypes, scoped_builtin, hvector]

theorem scoped_toProgram {entry : Entry} {p : Program} (h : entry.toProgram = .ok p) :
    p.dependencies = [coreLibrary] ∧ ∀ d ∈ p.types, d.Scoped := by
  unfold Entry.toProgram at h
  obtain ⟨heads, hheads, h⟩ := exists_of_bind_ok h
  refine addTypes_induction
    (motive := fun p => p.dependencies = [coreLibrary] ∧ ∀ d ∈ p.types, d.Scoped) ?_
    ⟨rfl, by simp⟩ h
  rintro head hmem d p p' hd hp' ⟨hdependencies, htypes⟩
  obtain ⟨typeEntry, _, hhead⟩ :=
    exists_of_mem_each TypeHead.of typeHeads rfl (fun _ _ => rfl) hheads head hmem
  have hscoped := scoped_declarationOf (TypeHead.scoped_of hhead) hd
  obtain ⟨htypes', _, hdependencies', _⟩ := parts_addType hp'
  rw [htypes', hdependencies']
  exact ⟨hdependencies, List.forall_mem_append.mpr ⟨htypes, List.forall_mem_singleton.mpr hscoped⟩⟩

/-- A name is found among the program's own types or in the library. -/
theorem mem_of_find? {p : Program} (hdependencies : p.dependencies = [coreLibrary])
    {name : String} {path : List Nat} {d : TypeDecl} (hfind : p.find? name = some (path, d)) :
    (path = [] ∧ d ∈ p.types) ∨ (path ≠ [] ∧ d ∈ coreLibrary.types) := by
  obtain ⟨home, hhome, hd⟩ := Program.atPath?_of_find? p hfind
  have hd := List.mem_of_find?_eq_some hd
  cases path with
  | nil =>
    cases hhome
    exact .inl ⟨rfl, hd⟩
  | cons position rest =>
    obtain ⟨dependency, hdependency, hhome⟩ : ∃ dependency,
        [coreLibrary][position]? = some dependency ∧ dependency.atPath? rest = some home := by
      rw [Program.atPath?, hdependencies] at hhome
      split at hhome
      · exact ⟨_, by assumption, hhome⟩
      · cases hhome
    obtain rfl : dependency = coreLibrary := by
      simpa using List.mem_of_getElem? hdependency
    cases rest with
    | nil =>
      cases hhome
      exact .inr ⟨by simp, hd⟩
    | cons _ _ => simp [Program.atPath?, coreLibrary] at hhome

theorem scoped_of_types {p : Program} (hdependencies : p.dependencies = [coreLibrary])
    (htypes : ∀ d ∈ p.types, d.Scoped) : p.Scoped := by
  intro name path d hfind
  rcases mem_of_find? hdependencies hfind with ⟨_, hd⟩ | ⟨_, hd⟩
  · exact htypes d hd
  · exact scoped_coreLibrary d hd

/-- However the text is decoded, every generic parameter that occurs in a loaded program is
declared where it stands, and a reference without parameters resolves, if nothing is left to bind,
to a method that mentions none. -/
theorem scoped_of_load {decode : String → Option Entry} {text : String} {p : Program}
    (h : load decode text = .ok p) :
    (∀ d ∈ p.types, d.Scoped) ∧
    ∀ (r : MethodRef) (i : MethodInstance), r.owner.isGeneric = false →
      (∀ t ∈ r.typeArguments, t.isGeneric = false) → p.resolve r = .ok i → i.isGeneric = false →
      ∃ m, i = .concrete m ∧ ∀ t ∈ m.method.owner :: m.method.types, t.isGeneric = false := by
  unfold load at h
  split at h
  · cases h
  · obtain ⟨hdependencies, htypes⟩ := scoped_toProgram h
    exact ⟨htypes, fun r i => (scoped_of_types hdependencies htypes).isGeneric_of_resolve⟩

/-- A box with a method whose first parameter shadows that of the box. -/
def boxManifest : String :=
  "[\"P\",\"local_first\",[[\"Box\",[[\"T\"]],null,[[\"held\",\"T\"]],[[\"map\",false,null,
    \"Box<U>\",[\"T\"],[[\"T\"],[\"U\"]],[[\"DefVariable\",\"Box<T>\"]]]]]]]"

def boxMap : MethodRef :=
  { owner := .named "Box" [.named "System.Bool" []]
    index := 0
    name := "map"
    typeArguments := [.named "System.Int32" [], .named "System.Float32" []] }

theorem scoped_of_load_box :
    ∃ p m, load Entry.parse? boxManifest = .ok p ∧ (∀ d ∈ p.types, d.Scoped) ∧
      p.resolve boxMap = .ok (.concrete m) ∧
      m.method.parameterTypes = [.named "System.Int32" []] ∧
      ∀ t ∈ m.method.owner :: m.method.types, t.isGeneric = false := by
  have hrun : ((load Entry.parse? boxManifest).toOption.bind fun p => (p.resolve boxMap).toOption.bind
      fun i => i.concrete?.map fun m => (i.isGeneric, m.method.parameterTypes)) =
      some (false, [.named "System.Int32" []]) := by decide +kernel
  cases hp : load Entry.parse? boxManifest with
  | error e => simp [hp, Except.toOption] at hrun
  | ok p =>
    cases hi : p.resolve boxMap with
    | error e => simp [hp, hi, Except.toOption] at hrun
    | ok i =>
      simp only [hp, hi, Except.toOption, Option.bind_some, Option.map_eq_some_iff,
        Prod.mk.injEq] at hrun
      obtain ⟨m', hconcrete, hfree, hparameters⟩ := hrun
      obtain ⟨hscoped, hresolved⟩ := scoped_of_load hp
      obtain ⟨m, rfl, hm⟩ := hresolved boxMap i (by decide) (by decide) hi hfree
      obtain rfl : m = m' := by
        rw [MethodInstance.concrete?] at hconcrete
        split at hconcrete
        · exact Option.some.inj hconcrete
        · cases hconcrete
      exact ⟨p, m, rfl, hscoped, hi, hparameters, hm⟩

end Manifest

end ShaderIR
