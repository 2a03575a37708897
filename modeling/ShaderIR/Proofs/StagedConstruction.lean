import ShaderIR.Proofs.InstanceIdentity
import ShaderIR.Proofs.Replacement

/-! Construction commutes with substitution: binding the parameters of a declaration in stages,
and binding them at once to the arguments that the stages end in, give the same type. -/

namespace ShaderIR

/-- A substitution applied to the owner, the signature, the attributes and the body. -/
def Method.subst (s : Substitution) (m : Method) : Method :=
  { m with
    owner := m.owner.subst s
    returnType := m.returnType.map (Ty.subst s)
    parameterTypes := m.parameterTypes.map (Ty.subst s)
    attributes := m.attributes.map (Attribute.subst s)
    body := m.body.map (Instruction.subst s) }

section

variable {s u r : Substitution}

theorem Attribute.subst_subst {a : Attribute}
    (h : ∀ t ∈ a.types, (t.subst s).subst u = t.subst r) : (a.subst s).subst u = a.subst r := by
  cases a with
  | custom name types =>
    simp only [subst, Ty.substList_eq_map, List.map_map]
    exact congrArg (custom name) (List.map_congr_left h)
  | _ => rfl

theorem MethodRef.subst_subst {ref : MethodRef}
    (h : ∀ t ∈ ref.owner :: ref.typeArguments, (t.subst s).subst u = t.subst r) :
    (ref.subst s).subst u = ref.subst r := by
  obtain ⟨howner, harguments⟩ := List.forall_mem_cons.mp h
  simp only [subst, Ty.substList_eq_map, List.map_map, howner]
  congr 1
  exact List.map_congr_left harguments

theorem Operand.subst_subst {o : Operand}
    (h : ∀ t ∈ o.types, (t.subst s).subst u = t.subst r) : (o.subst s).subst u = o.subst r := by
  cases o with
  | type ty => exact congrArg type (h ty (by simp [types]))
  | method ref => exact congrArg method (MethodRef.subst_subst h)
  | _ => rfl

theorem Instruction.subst_subst {i : Instruction}
    (h : ∀ t ∈ i.types, (t.subst s).subst u = t.subst r) : (i.subst s).subst u = i.subst r := by
  refine Instruction.eq_of_operands rfl ?_
  simp only [subst, operands_mapOperands, List.map_map]
  apply List.map_congr_left
  intro o ho
  exact Operand.subst_subst fun t ht => h t (List.mem_flatMap.mpr ⟨o, ho, ht⟩)

namespace Method

variable {m : Method}

theorem subst_subst_parts (h : ∀ t ∈ m.types, (t.subst s).subst u = t.subst r) :
    (m.returnType.map (Ty.subst s)).map (Ty.subst u) = m.returnType.map (Ty.subst r) ∧
    (m.parameterTypes.map (Ty.subst s)).map (Ty.subst u) = m.parameterTypes.map (Ty.subst r) ∧
    (m.attributes.map (Attribute.subst s)).map (Attribute.subst u) =
      m.attributes.map (Attribute.subst r) ∧
    (m.body.map (Instruction.subst s)).map (Instruction.subst u) =
      m.body.map (Instruction.subst r) := by
  simp only [types, List.mem_append, List.mem_flatMap, Option.mem_toList] at h
  simp only [List.map_map, Option.map_map]
  refine ⟨Option.map_congr fun t ht => h t ?_, List.map_congr_left fun t ht => h t ?_,
    List.map_congr_left fun a ha => Attribute.subst_subst fun t ht => h t ?_,
    List.map_congr_left fun i hi => Instruction.subst_subst fun t ht => h t ?_⟩
  · exact .inl (.inl (.inl ht))
  · exact .inl (.inl (.inr ht))
  · exact .inl (.inr ⟨a, ha, ht⟩)
  · exact .inr ⟨i, hi, ht⟩

theorem subst_substituted (owner : Ty) (h : ∀ t ∈ m.types, (t.subst s).subst u = t.subst r) :
    (m.substituted owner s).subst u = m.substituted (owner.subst u) r := by
  obtain ⟨hreturn, hparameters, hattributes, hbody⟩ := subst_subst_parts h
  simp only [substituted, subst, Ty.substList_eq_map, hreturn, hparameters, hattributes, hbody]

theorem subst_subst (h : ∀ t ∈ m.owner :: m.types, (t.subst s).subst u = t.subst r) :
    (m.subst s).subst u = m.subst r := by
  obtain ⟨howner, htypes⟩ := List.forall_mem_cons.mp h
  obtain ⟨hreturn, hparameters, hattributes, hbody⟩ := subst_subst_parts htypes
  simp only [subst, howner, hreturn, hparameters, hattributes, hbody]

end Method

end

section

@[simp]
theorem Ty.subst_empty_eq_id : Ty.subst .empty = id :=
  funext Ty.subst_empty

@[simp]
theorem Attribute.subst_empty_eq_id : Attribute.subst .empty = id := by
  funext a
  cases a <;> simp [subst, Ty.substList_eq_map]

@[simp]
theorem Field.subst_empty_eq_id : Field.subst .empty = id := by
  funext f
  simp [subst]

@[simp]
theorem Instruction.subst_empty_eq_id : Instruction.subst .empty = id := by
  have hoperand : Operand.subst .empty = id := by
    funext o
    cases o <;> simp [Operand.subst, MethodRef.subst, Ty.substList_eq_map]
  funext i
  exact Instruction.eq_of_operands rfl (by simp [subst, hoperand])

theorem Method.subst_eq_self {u : Substitution} {m : Method}
    (h : ∀ t ∈ m.owner :: m.types, t.subst u = t) : m.subst u = m := by
  have hempty : m.subst .empty = m := by simp [subst]
  have hsubst : (m.subst .empty).subst u = m.subst .empty :=
    subst_subst fun t ht => by rw [Ty.subst_empty, h t ht]
  rwa [hempty] at hsubst

end

/-- Where nothing is left to bind, this is the replacement in all parts of the method. -/
theorem Method.replaced_subst {m : Method} (h : m.isGeneric = false) (s : Substitution) :
    m.Replaced s.get? (m.owner.subst s) (m.subst s) := by
  have hclosed : m.genericParameters = [] := by simpa [isGeneric] using h
  have hparts : m.Replaced s.get? (m.owner.subst s) (m.substituted (m.owner.subst s) s) :=
    m.replaced_substituted (fun _ => rfl) _
  refine { hparts with closed := hclosed, parameterTypes := ?_ }
  rw [subst, ← Ty.substList_eq_map]
  exact hparts.parameterTypes

namespace TypeDecl

/-- Every generic parameter in the type has the name of a parameter of the declaration. -/
def Binds (d : TypeDecl) (t : Ty) : Prop :=
  ∀ q ∈ t.parameters, q.name ∈ d.genericParameters.map GenericParam.name

instance (d : TypeDecl) (t : Ty) : Decidable (d.Binds t) :=
  inferInstanceAs (Decidable (∀ q ∈ t.parameters, q.name ∈ d.genericParameters.map _))

/-- The fields, the attributes and the non-generic methods mention no generic parameters but
the declaration's own. -/
structure SelfContained (d : TypeDecl) : Prop where
  attributes : ∀ a ∈ d.attributes, ∀ t ∈ a.types, d.Binds t
  fields : ∀ f ∈ d.fields, d.Binds f.ty
  methods : ∀ m ∈ d.methods, m.isGeneric = false → ∀ t ∈ m.owner :: m.types, d.Binds t

variable {d : TypeDecl} {arguments : List Ty} {i j : TypeInstance}

/-- An instance without bindings is the declaration as it stands, which is also what the empty
substitution makes of it. -/
theorem parts_of_instantiate (h : d.instantiate arguments = .ok i) :
    i.attributes = d.attributes.map (Attribute.subst i.substitution) ∧
    i.fields = d.fields.map (Field.subst i.substitution) := by
  unfold instantiate at h
  split at h
  · cases h
  split at h
  · cases h
  split at h
  · cases h
  rename_i s hs
  dsimp only at h
  by_cases he : s.isEmpty = true
  · have hempty : s = .empty := by
      obtain ⟨bs⟩ := s
      exact congrArg Substitution.mk (List.isEmpty_iff.mp he)
    rw [if_pos he] at h
    cases h
    simp [hempty]
  · rw [if_neg he] at h
    cases h
    exact ⟨rfl, rfl⟩

section

variable {u : Substitution} (hi : d.instantiate arguments = .ok i)
  (hj : d.instantiate (arguments.map (Ty.subst u)) = .ok j)

include hi hj

theorem ty_instantiate_subst : j.ty = i.ty.subst u := by
  rw [(Program.constructs_of_instantiate hi).ty, (Program.constructs_of_instantiate hj).ty,
    Ty.subst, Ty.substList_eq_map]

/-- The two ways to bind agree on every type that the declaration binds. -/
theorem subst_subst_of_binds {t : Ty} (ht : d.Binds t) :
    (t.subst i.substitution).subst u = t.subst j.substitution := by
  have hi := Program.constructs_of_instantiate hi
  have hj := Program.constructs_of_instantiate hj
  exact Ty.subst_subst fun q hq =>
    GenericParam.subst_subst_of_bindAll hi.arity hi.bound hj.bound (ht q hq)

theorem attributes_instantiate_subst (hd : ∀ a ∈ d.attributes, ∀ t ∈ a.types, d.Binds t) :
    j.attributes = i.attributes.map (Attribute.subst u) := by
  rw [(parts_of_instantiate hi).1, (parts_of_instantiate hj).1, List.map_map]
  refine (List.map_congr_left fun a ha => Attribute.subst_subst fun t ht => ?_).symm
  exact subst_subst_of_binds hi hj (hd a ha t ht)

theorem fields_instantiate_subst (hd : ∀ f ∈ d.fields, d.Binds f.ty) :
    List.Forall₂ (fun f g : Field => g.name = f.name ∧ g.ty = f.ty.subst u) i.fields j.fields := by
  rw [(parts_of_instantiate hi).2, (parts_of_instantiate hj).2, List.forall₂_map_left_iff,
    List.forall₂_map_right_iff, List.forall₂_same]
  intro f hf
  exact ⟨rfl, (subst_subst_of_binds hi hj (hd f hf)).symm⟩

theorem methods_instantiate_subst
    (hd : ∀ m ∈ d.methods, m.isGeneric = false → ∀ t ∈ m.owner :: m.types, d.Binds t) :
    List.Forall₂ (fun a b => a.isGeneric = b.isGeneric ∧ (a.isGeneric = false → b = a.subst u))
      i.methods j.methods := by
  obtain ⟨hiarity, _, hibound, himethods⟩ := Program.constructs_of_instantiate hi
  obtain ⟨hjarity, _, hjbound, hjmethods⟩ := Program.constructs_of_instantiate hj
  rw [himethods, hjmethods, GenericParam.isEmpty_of_bindAll hiarity hibound,
    GenericParam.isEmpty_of_bindAll hjarity hjbound]
  by_cases he : d.genericParameters.isEmpty = true
  · -- nothing is bound, so the methods mention no parameter that `u` could replace
    rw [if_pos he, if_pos he, List.forall₂_same]
    intro m hm
    refine ⟨rfl, fun hgeneric => (Method.subst_eq_self fun t ht => ?_).symm⟩
    refine Ty.subst_eq_self fun q hq => ?_
    have hname := hd m hm hgeneric t ht q hq
    simp [List.isEmpty_iff.mp he] at hname
  · rw [if_neg he, if_neg he, List.forall₂_map_left_iff, List.forall₂_map_right_iff,
      List.forall₂_same]
    intro m hm
    rw [Method.isGeneric_forOwner, Method.isGeneric_forOwner]
    refine ⟨rfl, fun hgeneric => ?_⟩
    rw [Method.forOwner_of_isGeneric_eq_false hgeneric,
      Method.forOwner_of_isGeneric_eq_false hgeneric, ty_instantiate_subst hi hj]
    refine (Method.subst_substituted i.ty fun t ht => ?_).symm
    exact subst_subst_of_binds hi hj (hd m hm hgeneric t (List.mem_cons_of_mem _ ht))

end

/-- Constructing from substituted arguments is substituting in what was constructed: in the type
and in those of the fields, in the attributes, and in the owner, the signature and the body of every
non-generic method. -/
theorem instantiate_subst (hd : d.SelfContained) (u : Substitution)
    (hi : d.instantiate arguments = .ok i)
    (hj : d.instantiate (arguments.map (Ty.subst u)) = .ok j) :
    j.ty = i.ty.subst u ∧
    List.Forall₂ (Attribute.Replaced u.get?) i.attributes j.attributes ∧
    List.Forall₂ (fun f g : Field => g.name = f.name ∧ g.ty = f.ty.subst u) i.fields j.fields ∧
    List.Forall₂ (fun a b : Method => a.isGeneric = b.isGeneric ∧
      (a.isGeneric = false → a.Replaced u.get? (a.owner.subst u) b)) i.methods j.methods := by
  refine ⟨ty_instantiate_subst hi hj, ?_, fields_instantiate_subst hi hj hd.fields, ?_⟩
  · rw [attributes_instantiate_subst hi hj hd.attributes, List.forall₂_map_right_iff,
      List.forall₂_same]
    exact fun a _ => a.replaced_subst fun _ => rfl
  · refine (methods_instantiate_subst hi hj hd.methods).imp fun a b hab => ⟨hab.1, fun hgeneric => ?_⟩
    rw [hab.2 hgeneric]
    exact Method.replaced_subst hgeneric u

/-- A pair with a method that mentions both parameters, in its signature and in a call. -/
def pair : TypeDecl :=
  let first : Ty := .param "T" []
  let second : Ty := .param "U" []
  { fullName := "Pair"
    genericParameters := [⟨"T", []⟩, ⟨"U", []⟩]
    attributes := [.custom "Holds" [first]]
    fields := [⟨"first", first⟩, ⟨"second", .named "Box" [second]⟩]
    methods :=
      [{ owner := .named "Pair" [first, second]
         name := "swap"
         returnType := some (.named "Pair" [second, first])
         parameterTypes := [second]
         body := [.mk .call [.method ⟨.named "Box" [first], 0, "open", [second]⟩, .void]] }] }

/-- The arguments mention the parameters' own names, the other way round; each is replaced
once. -/
theorem instantiate_subst_pair :
    let int : Ty := .named "Int" []
    let bool : Ty := .named "Bool" []
    let arguments : List Ty := [.param "U" [], .named "Box" [.param "T" []]]
    let u : Substitution := .ofList [("T", int), ("U", bool)]
    pair.SelfContained ∧
    ∃ i j, pair.instantiate arguments = .ok i ∧
      pair.instantiate (arguments.map (Ty.subst u)) = .ok j ∧
      i.fields = [⟨"first", .param "U" []⟩, ⟨"second", .named "Box" [.named "Box" [.param "T" []]]⟩] ∧
      List.Forall₂ (fun f g : Field => g.name = f.name ∧ g.ty = f.ty.subst u) i.fields j.fields ∧
      List.Forall₂ (Attribute.Replaced u.get?) i.attributes j.attributes ∧
      (∀ a ∈ i.methods, ∃ b ∈ j.methods, a.Replaced u.get? (a.owner.subst u) b) ∧
      j.ty = .named "Pair" [bool, .named "Box" [int]] ∧
      j.attributes = [.custom "Holds" [bool]] ∧
      j.fields = [⟨"first", bool⟩, ⟨"second", .named "Box" [.named "Box" [int]]⟩] ∧
      j.methods =
        [{ owner := .named "Pair" [bool, .named "Box" [int]]
           name := "swap"
           returnType := some (.named "Pair" [.named "Box" [int], bool])
           parameterTypes := [.named "Box" [int]]
           body := [.mk .call
             [.method ⟨.named "Box" [bool], 0, "open", [.named "Box" [int]]⟩, .void]] }] := by
  intro int bool arguments u
  have hd : pair.SelfContained := ⟨by decide, by decide, by decide⟩
  obtain ⟨i, hi⟩ : ∃ i, pair.instantiate arguments = .ok i := ⟨_, rfl⟩
  obtain ⟨j, hj⟩ : ∃ j, pair.instantiate (arguments.map (Ty.subst u)) = .ok j := ⟨_, rfl⟩
  obtain ⟨_, hattributes, hfields, hmethods⟩ := instantiate_subst hd u hi hj
  refine ⟨hd, i, j, hi, hj, ?_, hfields, hattributes, ?_, ?_⟩
  · cases hi
    rfl
  · cases hi
    cases hj
    obtain _ | ⟨hswap, _⟩ := hmethods
    exact List.forall_mem_singleton.mpr ⟨_, List.mem_cons_self, hswap.2 rfl⟩
  · cases hj
    exact ⟨rfl, rfl, rfl, rfl⟩

end TypeDecl

end ShaderIR
