import ShaderIR.Manifest.Load
import ShaderIR.Proofs.InstanceIdentity

/-! Programs read from manifests. They declare each name once and their methods belong to the types
that declare them, so what is proved of such programs holds of all that are loaded. -/

namespace ShaderIR.Manifest

variable {heads : List TypeHead}

theorem exists_of_bind_ok {ε α β : Type} {x : Except ε α} {f : α → Except ε β} {b : β}
    (h : x >>= f = .ok b) : ∃ a, x = .ok a ∧ f a = .ok b := by
  cases x with
  | error e => cases h
  | ok a => exact ⟨a, rfl, h⟩

theorem owned_addFields {scope : List GenericParam} {fields : List FieldEntry} {d d' : TypeDecl}
    (hd : d.Owned) (h : addFields scope d fields = .ok d') : d'.Owned := by
  induction fields generalizing d with
  | nil =>
    cases h
    exact hd
  | cons f fields ih =>
    rw [addFields] at h
    obtain ⟨ty, _, h⟩ := exists_of_bind_ok h
    exact ih (hd.addField f.name ty) h

theorem owned_addMethods {ms : List MethodHead} {d d' : TypeDecl} (hd : d.Owned)
    (h : addMethods heads d ms = .ok d') : d'.Owned := by
  induction ms generalizing d with
  | nil =>
    cases h
    exact hd
  | cons m ms ih =>
    rw [addMethods] at h
    obtain ⟨method, _, h⟩ := exists_of_bind_ok h
    exact ih (hd.addMethod method) h

theorem owned_addGenericParameters (ps : List GenericParam) {start : TypeDecl}
    (h : start.Owned) : (ps.foldl TypeDecl.addGenericParameter start).Owned := by
  induction ps generalizing start with
  | nil => exact h
  | cons q ps ih => exact ih (.addGenericParameter q)

/-- A declaration starts from a name, with or without a representation, and takes its
parameters, its fields and its methods in this order. -/
theorem parts_of_declarationOf {head : TypeHead} {d : TypeDecl}
    (h : declarationOf heads head = .ok d) :
    ∃ start withFields : TypeDecl,
      (start = { fullName := head.entry.name } ∨
        ∃ spirv, start = .builtin head.entry.name spirv) ∧
      addFields head.params (head.params.foldl TypeDecl.addGenericParameter start)
        head.entry.fields = .ok withFields ∧
      addMethods heads withFields head.methods = .ok d := by
  unfold declarationOf at h
  obtain ⟨withFields, hfields, hmethods⟩ := exists_of_bind_ok h
  refine ⟨_, withFields, ?_, hfields, hmethods⟩
  cases head.entry.spirv with
  | none => exact .inl rfl
  | some spirv => exact .inr ⟨spirv, rfl⟩

theorem owned_declarationOf {head : TypeHead} {d : TypeDecl}
    (h : declarationOf heads head = .ok d) : d.Owned := by
  obtain ⟨start, withFields, hstart, hfields, hmethods⟩ := parts_of_declarationOf h
  have howned : start.Owned := by
    rcases hstart with rfl | ⟨spirv, rfl⟩ <;> simp [TypeDecl.Owned, TypeDecl.builtin]
  exact owned_addMethods (owned_addFields (owned_addGenericParameters head.params howned) hfields)
    hmethods

/-- What holds of a program and is kept by adding each declaration holds in the end. -/
theorem addTypes_induction {motive : Program → Prop} {hs : List TypeHead} {p q : Program}
    (hstep : ∀ head ∈ hs, ∀ d p p', declarationOf heads head = .ok d → p.addType d = .ok p' →
      motive p → motive p')
    (hp : motive p) (h : addTypes heads p hs = .ok q) : motive q := by
  induction hs generalizing p with
  | nil =>
    cases h
    exact hp
  | cons head hs ih =>
    rw [addTypes] at h
    obtain ⟨d, hd, h⟩ := exists_of_bind_ok h
    split at h
    · rename_i p' hp'
      have hmotive := hstep head List.mem_cons_self d p p' hd hp' hp
      exact ih (fun other hmem => hstep other (List.mem_cons_of_mem _ hmem)) hmotive h
    · cases h

/-- What adding a declaration changes. -/
theorem parts_addType {p p' : Program} {d : TypeDecl} (h : p.addType d = .ok p') :
    p'.types = p.types ++ [d] ∧ p'.name = p.name ∧ p'.dependencies = p.dependencies ∧
      p'.lookupOrder = p.lookupOrder := by
  unfold Program.addType at h
  split at h <;> cases h
  exact ⟨rfl, rfl, rfl, rfl⟩

theorem addTypes_distinct_owned {hs : List TypeHead} {p q : Program} (hp : p.Distinct)
    (ho : ∀ d ∈ p.types, d.Owned) (h : addTypes heads p hs = .ok q) :
    q.Distinct ∧ ∀ d ∈ q.types, d.Owned := by
  refine addTypes_induction (motive := fun p => p.Distinct ∧ ∀ d ∈ p.types, d.Owned) ?_ ⟨hp, ho⟩ h
  rintro head _ d p p' hd hp' ⟨hdistinct, howned⟩
  refine ⟨Program.distinct_addType hdistinct hp', ?_⟩
  rw [(parts_addType hp').1]
  exact List.forall_mem_append.mpr ⟨howned, by simpa using owned_declarationOf hd⟩

/-- Loaded programs satisfy what compilation relies on. -/
theorem toProgram_distinct_owned {entry : Entry} {p : Program} (h : entry.toProgram = .ok p) :
    p.Distinct ∧ ∀ d ∈ p.types, d.Owned := by
  unfold Entry.toProgram at h
  obtain ⟨heads, _, h⟩ := exists_of_bind_ok h
  exact addTypes_distinct_owned (by simp [Program.Distinct]) (by simp) h

end ShaderIR.Manifest
