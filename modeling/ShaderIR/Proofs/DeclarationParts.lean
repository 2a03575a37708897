import Mathlib.Data.List.Induction
import ShaderIR.Proofs.Reindexing

/-! Declarations put together part by part. The kinds of parts can come in any order: what counts
is the order of the parts within each kind. -/

namespace ShaderIR

theorem Method.forOwner_empty (m : Method) (owner : Ty) :
    m.forOwner owner .empty = m.declaredAs m.definition owner := by
  cases hm : m.isGeneric with
  | true =>
    rw [forOwner_of_isGeneric_eq_true hm]
    rfl
  | false =>
    have hparameters : m.genericParameters = [] := by simpa [isGeneric] using hm
    rw [forOwner_of_isGeneric_eq_false hm]
    simp [substituted, declaredAs, Ty.substList_eq_map, hparameters]

namespace TypeDecl

/-- What a declaration is put together from. -/
inductive Part where
  | param (p : GenericParam)
  | attr (a : Attribute)
  | field (name : String) (ty : Ty)
  | method (m : Method)
deriving DecidableEq

namespace Part

@[simp]
def param? : Part → Option GenericParam
  | .param p => some p
  | _ => none

@[simp]
def attr? : Part → Option Attribute
  | .attr a => some a
  | _ => none

@[simp]
def field? : Part → Option Field
  | .field name ty => some ⟨name, ty⟩
  | _ => none

@[simp]
def method? : Part → Option Method
  | .method m => some m
  | _ => none

end Part

def add (d : TypeDecl) : Part → TypeDecl
  | .param p => d.addGenericParameter p
  | .attr a => d.addAttribute a
  | .field name ty => d.addField name ty
  | .method m => d.addMethod m

/-- The declaration that adding the parts one after another ends in. -/
def assemble (name : String) (parts : List Part) : TypeDecl :=
  parts.foldl add { fullName := name }

-- a type of the platform starts from its representation, which is a part like others
example (name spirv : String) (parts : List Part) : parts.foldl add (builtin name spirv) =
    assemble name (.attr (.representation (some spirv)) :: parts) := rfl

/-- The parts sorted into kinds, with the methods owned by the type with all its parameters and
made when it had got them. -/
def ofParts (name : String) (parts : List Part) : TypeDecl :=
  { fullName := name
    genericParameters := parts.filterMap Part.param?
    attributes := parts.filterMap Part.attr?
    fields := parts.filterMap Part.field?
    methods := (parts.filterMap Part.method?).mapIdx fun index m =>
      m.declaredAs ⟨(parts.filterMap Part.param?).length, index⟩
        (.named name ((parts.filterMap Part.param?).map GenericParam.ty)) }

section

variable (name : String) (parts : List Part)

theorem add_ofParts (part : Part) :
    (ofParts name parts).add part = ofParts name (parts ++ [part]) := by
  cases part with
  | param p =>
    simp [add, addGenericParameter, ofParts, object, selfTy, List.filterMap_cons,
      Function.comp_def, Method.declaredAs]
  | attr a => simp [add, addAttribute, ofParts, List.filterMap_cons]
  | field n ty => simp [add, addField, ofParts, List.filterMap_cons]
  | method m => simp [add, addMethod, ofParts, object, selfTy, List.filterMap_cons]

/-- By induction from the last part on: adding it to what the others make is `add_ofParts`. -/
theorem assemble_eq_ofParts : assemble name parts = ofParts name parts := by
  induction parts using List.reverseRecOn with
  | nil => rfl
  | append_singleton parts part ih =>
    rw [← add_ofParts, ← ih, assemble, List.foldl_append]
    rfl

theorem getElem?_methods_assemble (k : Nat) :
    (assemble name parts).methods[k]? = (parts.filterMap Part.method?)[k]?.map fun m =>
      m.declaredAs ((assemble name parts).object k) (assemble name parts).selfTy := by
  rw [assemble_eq_ofParts, ofParts, List.getElem?_mapIdx]
  rfl

end

section

variable {name : String} {before after parts : List Part} {k : Nat} {m : Method}

theorem owner_of_getElem?_assemble (h : (assemble name parts).methods[k]? = some m) :
    m.owner = (assemble name parts).selfTy := by
  rw [getElem?_methods_assemble, Option.map_eq_some_iff] at h
  obtain ⟨_, _, rfl⟩ := h
  rfl

theorem definition_of_getElem?_assemble (h : (assemble name parts).methods[k]? = some m) :
    m.definition = (assemble name parts).object k := by
  rw [getElem?_methods_assemble, Option.map_eq_some_iff] at h
  obtain ⟨_, _, rfl⟩ := h
  rfl

theorem length_genericParameters_assemble :
    (assemble name parts).genericParameters.length = (parts.filterMap Part.param?).length := by
  rw [assemble_eq_ofParts, ofParts]

/-- An object stays the same method until a generic parameter is added, and then it is gone: no
later method is given its name. -/
theorem upgrade?_assemble_append (hm : m ∈ (assemble name before).methods) :
    (assemble name (before ++ after)).upgrade? m.definition =
      if (after.filterMap Part.param?).isEmpty then some m else none := by
  obtain ⟨k, hk⟩ := List.getElem?_of_mem hm
  rw [definition_of_getElem?_assemble hk, upgrade?, object, length_genericParameters_assemble,
    length_genericParameters_assemble, List.filterMap_append, List.length_append]
  cases hafter : after.filterMap Part.param? with
  | cons p rest => simp
  | nil =>
    have hparameters : (before ++ after).filterMap Part.param? = before.filterMap Part.param? := by
      rw [List.filterMap_append, hafter, List.append_nil]
    have hlt : k < (before.filterMap Part.method?).length := by
      rw [getElem?_methods_assemble, Option.map_eq_some_iff] at hk
      obtain ⟨_, hmethod, _⟩ := hk
      exact (List.getElem?_eq_some_iff.mp hmethod).1
    have hself : (assemble name (before ++ after)).selfTy = (assemble name before).selfTy := by
      simp only [assemble_eq_ofParts, selfTy, ofParts, hparameters]
    have hobject : (assemble name (before ++ after)).object k =
        (assemble name before).object k := by
      simp only [object, length_genericParameters_assemble, hparameters]
    rw [getElem?_methods_assemble] at hk ⊢
    simp only [List.length_nil, Nat.add_zero, if_true, List.isEmpty_nil, hself, hobject]
    rw [List.filterMap_append, List.getElem?_append_left hlt, hk]

theorem upgrade?_definition_assemble (hm : m ∈ (assemble name parts).methods) :
    (assemble name parts).upgrade? m.definition = some m := by
  have h := @upgrade?_assemble_append name parts [] m hm
  rwa [List.append_nil] at h

end

/-- The lists hold the same parts of each kind in the same order. -/
structure SameParts (parts parts' : List Part) : Prop where
  parameters : parts.filterMap Part.param? = parts'.filterMap Part.param?
  attributes : parts.filterMap Part.attr? = parts'.filterMap Part.attr?
  fields : parts.filterMap Part.field? = parts'.filterMap Part.field?
  methods : parts.filterMap Part.method? = parts'.filterMap Part.method?

theorem SameParts.assemble_eq {parts parts' : List Part} (h : SameParts parts parts')
    (name : String) : assemble name parts = assemble name parts' := by
  rw [assemble_eq_ofParts, assemble_eq_ofParts, ofParts, ofParts, h.parameters, h.attributes,
    h.fields, h.methods]

/-- The generic parameters and then all other parts. -/
def parametersFirst (parts : List Part) : List Part :=
  parts.filter (fun part => part.param?.isSome) ++ parts.filter (fun part => part.param?.isNone)

section

variable {α : Type} {kind? : Part → Option α} {keep : Part → Bool}

theorem filterMap_filter_of_kept (h : ∀ part, keep part = false → kind? part = none)
    (parts : List Part) : (parts.filter keep).filterMap kind? = parts.filterMap kind? := by
  rw [List.filterMap_filter]
  congr 1
  funext part
  cases hpart : keep part with
  | true => simp
  | false => simp [h part hpart]

theorem filterMap_filter_of_dropped (h : ∀ part, keep part = true → kind? part = none)
    (parts : List Part) : (parts.filter keep).filterMap kind? = [] := by
  rw [List.filterMap_eq_nil_iff]
  exact fun part hpart => h part (List.mem_filter.mp hpart).2

theorem filterMap_parametersFirst (h : ∀ p, kind? (.param p) = none) (parts : List Part) :
    (parametersFirst parts).filterMap kind? = parts.filterMap kind? := by
  have hkind : ∀ part : Part, part.param?.isSome = true → kind? part = none := by
    intro part hpart
    cases part with
    | param p => exact h p
    | _ => simp at hpart
  rw [parametersFirst, List.filterMap_append, filterMap_filter_of_dropped hkind,
    filterMap_filter_of_kept (fun part hpart => hkind part (by simpa using hpart)),
    List.nil_append]

end

theorem sameParts_parametersFirst (parts : List Part) :
    SameParts (parametersFirst parts) parts where
  parameters := by
    rw [parametersFirst, List.filterMap_append, filterMap_filter_of_kept (by simp),
      filterMap_filter_of_dropped (by simp), List.append_nil]
  attributes := filterMap_parametersFirst (fun _ => rfl) parts
  fields := filterMap_parametersFirst (fun _ => rfl) parts
  methods := filterMap_parametersFirst (fun _ => rfl) parts

/-- Moving the methods to another owner keeps nothing that the declaration made of them but the
objects. -/
theorem map_forOwner_methods_ofParts (name : String) (parts : List Part) (owner : Ty)
    (s : Substitution) :
    ((ofParts name parts).methods.map fun m => m.forOwner owner s) =
      (parts.filterMap Part.method?).mapIdx fun index m =>
        ({ m with definition := ⟨(parts.filterMap Part.param?).length, index⟩ } : Method).forOwner
          owner s := by
  refine List.ext_getElem? fun k => ?_
  rw [ofParts, List.getElem?_map, List.getElem?_mapIdx, List.getElem?_mapIdx, Option.map_map]
  rfl

/-- The instance that the parts make for the given arguments. -/
structure InstanceOfParts (name : String) (parts : List Part) (arguments : List Ty)
    (i : TypeInstance) : Prop where
  arity : arguments.length = (parts.filterMap Part.param?).length
  bound : GenericParam.bindAll .empty (parts.filterMap Part.param?) arguments = .ok i.substitution
  ty : i.ty = .named name arguments
  attributes : i.attributes = (parts.filterMap Part.attr?).map (Attribute.subst i.substitution)
  fields : i.fields = (parts.filterMap Part.field?).map (Field.subst i.substitution)
  methods : i.methods = (parts.filterMap Part.method?).mapIdx fun index m =>
    ({ m with definition := ⟨(parts.filterMap Part.param?).length, index⟩ } : Method).forOwner
      (.named name arguments) i.substitution

section

variable {name : String} {parts : List Part} {arguments : List Ty} {i : TypeInstance}

theorem InstanceOfParts.unique {j : TypeInstance} (hi : InstanceOfParts name parts arguments i)
    (hj : InstanceOfParts name parts arguments j) : i = j := by
  have hbound : i.substitution = j.substitution := Except.ok.inj (hi.bound.symm.trans hj.bound)
  obtain ⟨ty, attributes, fields, methods, s⟩ := i
  obtain ⟨ty', attributes', fields', methods', s'⟩ := j
  obtain rfl : s = s' := hbound
  simp only [TypeInstance.mk.injEq, and_true]
  exact ⟨hi.ty.trans hj.ty.symm, hi.attributes.trans hj.attributes.symm,
    hi.fields.trans hj.fields.symm, hi.methods.trans hj.methods.symm⟩

theorem InstanceOfParts.methods_eq (h : InstanceOfParts name parts arguments i) :
    i.methods = (assemble name parts).methods.map fun m => m.forOwner i.ty i.substitution := by
  rw [h.methods, h.ty, assemble_eq_ofParts, map_forOwner_methods_ofParts]

theorem instanceOfParts_of_instantiate (h : (assemble name parts).instantiate arguments = .ok i) :
    InstanceOfParts name parts arguments i := by
  rw [assemble_eq_ofParts] at h
  obtain ⟨harity, hty, hbound, hmethods⟩ := Program.constructs_of_instantiate h
  obtain ⟨hattributes, hfields⟩ := parts_of_instantiate h
  refine ⟨harity, hbound, hty, hattributes, hfields, ?_⟩
  rw [hmethods, hty]
  split
  · -- without bindings the declared methods stay as they are
    rename_i hempty
    have hparameters : parts.filterMap Part.param? = [] := by
      rw [GenericParam.isEmpty_of_bindAll harity hbound] at hempty
      exact List.isEmpty_iff.mp hempty
    have harguments : arguments = [] := by
      rw [← List.length_eq_zero_iff, harity]
      exact congrArg List.length hparameters
    have hnone : i.substitution = .empty := by
      simpa [ofParts, hparameters, harguments, GenericParam.bindAll] using hbound.symm
    simp [ofParts, hparameters, harguments, hnone, Method.forOwner_empty, Method.declaredAs]
  · exact map_forOwner_methods_ofParts name parts _ _

theorem instantiate_assemble_eq_ok_iff :
    (assemble name parts).instantiate arguments = .ok i ↔
      InstanceOfParts name parts arguments i := by
  refine ⟨instanceOfParts_of_instantiate, fun h => ?_⟩
  obtain ⟨j, hj⟩ : ∃ j, (assemble name parts).instantiate arguments = .ok j := by
    rw [assemble_eq_ofParts]
    exact exists_instantiate h.arity h.bound
  rw [hj, (instanceOfParts_of_instantiate hj).unique h]

end

end TypeDecl

theorem Method.definition_forOwner (m : Method) (owner : Ty) (s : Substitution) :
    (m.forOwner owner s).definition = m.definition := by
  unfold forOwner
  split <;> rfl

/-- Binding the type arguments of a method does not change what it comes from. -/
theorem Method.definition_of_instantiate {m m' : Method} {arguments : List Ty}
    (h : m.instantiate arguments = .ok (.concrete m')) : m'.definition = m.definition := by
  obtain ⟨_, _, s, _, rfl⟩ := Method.concrete_of_instantiate h
  rfl

namespace TypeDecl

/-- However the parts are interleaved, the methods are owned by the type with all its parameters
and each is an object of its own, which is its definition. An object that was made before a generic
parameter came is no method any more, and the others stay what they were. The methods of an instance
keep the definition of the declared one that they come from, as they do when their own arguments are
bound. The instances are those of the same parts with the generic parameters first: the parts of
each kind in their order, with the arguments put in. -/
theorem instantiate_assemble_parametersFirst (name : String) (parts : List Part) :
    (∀ k m, (assemble name parts).methods[k]? = some m →
      m.owner = (assemble name parts).selfTy ∧
      m.definition = (assemble name parts).object k ∧
      (assemble name parts).upgrade? m.definition = some m) ∧
    (∀ before after, parts = before ++ after → ∀ m ∈ (assemble name before).methods,
      (assemble name parts).upgrade? m.definition =
        if (after.filterMap Part.param?).isEmpty then some m else none) ∧
    ∀ arguments,
      (assemble name parts).instantiate arguments =
        (assemble name (parametersFirst parts)).instantiate arguments ∧
      ∀ i,
        ((assemble name parts).instantiate arguments = .ok i ↔
          InstanceOfParts name parts arguments i) ∧
        ((assemble name parts).instantiate arguments = .ok i → ∀ m ∈ i.methods,
          (∃ declared, (assemble name parts).upgrade? m.definition = some declared ∧
            m = declared.forOwner i.ty i.substitution) ∧
          ∀ types m', m.instantiate types = .ok (.concrete m') → m'.definition = m.definition) := by
  refine ⟨fun k m hm => ?_, ?_, fun arguments => ⟨?_, fun i => ⟨?_, fun hi m hm => ⟨?_, ?_⟩⟩⟩⟩
  · exact ⟨owner_of_getElem?_assemble hm, definition_of_getElem?_assemble hm,
      upgrade?_definition_assemble (List.mem_of_getElem? hm)⟩
  · rintro before after rfl m hm
    exact upgrade?_assemble_append hm
  · rw [(sameParts_parametersFirst parts).assemble_eq]
  · exact instantiate_assemble_eq_ok_iff
  · rw [(instanceOfParts_of_instantiate hi).methods_eq] at hm
    obtain ⟨declared, hdeclared, rfl⟩ := List.mem_map.mp hm
    refine ⟨declared, ?_, rfl⟩
    rw [Method.definition_forOwner]
    exact upgrade?_definition_assemble hdeclared
  · exact fun _ _ => Method.definition_of_instantiate

namespace Interleaved

def first : GenericParam := ⟨"T", []⟩
def second : GenericParam := ⟨"U", [[.named "Int" [], .named "Bool" []]]⟩

def swap : Method :=
  { owner := .named "Pair" []
    name := "swap"
    returnType := some (.named "Pair" [second.ty, first.ty])
    body := [.mk .call [.method ⟨.named "Box" [first.ty], 0, "open", [second.ty]⟩, .void]] }

def cast : Method :=
  { owner := .named "Other" []
    name := "cast"
    parameterTypes := [second.ty, .param "V" []]
    genericParameters := [⟨"V", []⟩] }

/-- Both generic parameters come after parts that mention them. -/
def parts : List Part :=
  [.method swap, .attr (.custom "holds" [first.ty]), .param first, .field "first" first.ty,
    .method cast, .param second, .field "second" second.ty]

end Interleaved

/-- `swap` is made three times, and its first object is no method of the finished declaration. -/
theorem instantiate_assemble_parametersFirst_interleaved :
    let pair := assemble "Pair" Interleaved.parts
    parametersFirst Interleaved.parts ≠ Interleaved.parts ∧
    (∀ m ∈ pair.methods, m.owner = .named "Pair" [Interleaved.first.ty, Interleaved.second.ty]) ∧
    pair.methods.map Method.definition = [⟨2, 0⟩, ⟨2, 1⟩] ∧
    (∀ m ∈ pair.methods, pair.upgrade? m.definition = some m) ∧
    ((assemble "Pair" (Interleaved.parts.take 2)).methods.map Method.definition = [⟨0, 0⟩] ∧
      ∀ m ∈ (assemble "Pair" (Interleaved.parts.take 2)).methods,
        pair.upgrade? m.definition = none) ∧
    ∃ i, (assemble "Pair" (parametersFirst Interleaved.parts)).instantiate
        [.named "Float" [], .named "Int" []] = .ok i ∧
      InstanceOfParts "Pair" Interleaved.parts [.named "Float" [], .named "Int" []] i ∧
      i.fields = [⟨"first", .named "Float" []⟩, ⟨"second", .named "Int" []⟩] ∧
      i.methods.map Method.returnType =
        [some (.named "Pair" [.named "Int" [], .named "Float" []]), none] ∧
      i.methods.map Method.definition = [⟨2, 0⟩, ⟨2, 1⟩] ∧
      ∀ m ∈ i.methods, ∃ declared, pair.upgrade? m.definition = some declared ∧
        m = declared.forOwner i.ty i.substitution := by
  intro pair
  obtain ⟨hmethods, hobjects, hinstance⟩ :=
    instantiate_assemble_parametersFirst "Pair" Interleaved.parts
  refine ⟨by decide, fun m hm => ?_, rfl, fun m hm => ?_, ⟨rfl, fun m hm => ?_⟩, ?_⟩
  · obtain ⟨k, hk⟩ := List.getElem?_of_mem hm
    exact (hmethods k m hk).1
  · obtain ⟨k, hk⟩ := List.getElem?_of_mem hm
    exact (hmethods k m hk).2.2
  · exact hobjects _ _ (List.take_append_drop 2 _).symm m hm
  · obtain ⟨heq, hiff⟩ := hinstance [.named "Float" [], .named "Int" []]
    exact ⟨_, heq.symm.trans rfl, (hiff _).1.mp rfl, rfl, rfl, rfl,
      fun m hm => ((hiff _).2 rfl m hm).1⟩

end TypeDecl

end ShaderIR
