import ShaderIR.Proofs.LoweringRequests
import ShaderIR.Proofs.Requests

/-! Sessions that are shared. What each step of the compilation of a method keeps, whatever happens
to the session between two steps, is kept by one worker and by several that take turns. -/

namespace ShaderIR.Lowering

variable {κ ι ν α : Type}

/-- The steps between requests keep the invariant. -/
def Session.Robust (inv : Session κ → Prop) : Prop :=
  ∀ s t : Session κ, inv s → s.Quiet t → inv t

section Steps

variable {inv : Session κ → Prop}

theorem Alike.along (hinv : Session.Robust inv) {w : Pass κ α} {w' : Pass κ α} {post : α → Prop}
    (h : Alike post w w') : w.Along inv post := by
  induction h with
  | value h => exact h
  | stop _ => trivial
  | step hquiet _ _ _ ih => exact fun s hs => ⟨hinv s _ hs (hquiet s), ih s s rfl⟩

theorem Yields.along (hinv : Session.Robust inv) {w : (κ : Type) → Pass κ α} {post : α → Prop}
    (h : Yields w post) : (w κ).Along inv post :=
  (h κ κ).along hinv

/-- An invariant of all steps as a comparison of the pass with itself. -/
def Session.Robust.comparison (hinv : Session.Robust inv) : Comparison κ κ where
  Holds w _ post := w.Along inv post
  alike h := h.along hinv
  bind h hf := h.bind hf

theorem Session.Robust.compares (hinv : Session.Robust inv) {w : Pass κ α}
    (h : w.Along inv fun _ => True) : hinv.comparison.Compares w w :=
  h

/-- Claiming and settling a cell changes its table only. -/
theorem along_once [DecidableEq ι] {table : Table κ ι ν} {key : ι} {build : Pass κ ν}
    (htable : ∀ s cells, inv s → inv (table.set s cells))
    (hbuild : build.Along inv fun _ => True) :
    (once table key build).Along inv fun _ => True := by
  have hclaim : (claim table key).Along inv fun _ => True := by
    refine fun s hs => ⟨?_, trivial⟩
    dsimp only
    split
    · exact htable s _ hs
    · exact hs
  refine hclaim.bind fun granted _ => ?_
  cases granted with
  | found value => exact Walk.along_pure trivial
  | reentrant => exact Walk.along_throw _
  | granted cells =>
    refine Walk.Along.tryCatch (hbuild.bind fun value _ => ?_) fun e => ?_
    · refine Walk.Along.bind (Walk.along_modify fun s hs => htable s _ hs) fun _ _ => ?_
      exact Walk.along_pure trivial
    · refine Walk.Along.bind (Walk.along_modify fun s hs => htable s _ hs) fun _ _ => ?_
      exact Walk.along_throw e

theorem along_lowerType (hinv : Session.Robust inv)
    (htypes : ∀ s types, inv s → inv { s with types }) (p : Program) (depth : Nat) (ty : Ty) :
    (lowerType p depth ty : Pass κ LoweredType).Along inv fun _ => True := by
  induction depth generalizing ty with
  | zero => exact Walk.along_throw _
  | succ depth ih =>
    rw [lowerType]
    split
    · exact Walk.along_throw _
    · refine along_once htypes ?_
      exact hinv.comparison.buildType fun _ _ member _ => hinv.compares (ih member)

end Steps

/-- What a pass keeps, step by step, if it keeps to known methods. -/
structure Maintains (p : Program) (known : LocatedMethod → Prop)
    (inv : Session MethodObject → Prop) : Prop where
  robust : Session.Robust inv
  types : ∀ s types, inv s → inv { s with types }
  functions : ∀ s functions, inv s → inv { s with functions }
  publish : ∀ f : Function, known f.method → ReadsAsFunction f.code →
    (publish f).Along inv fun _ => True
  resolves : Resolves p known

namespace Objects

variable {p : Program} {known : LocatedMethod → Prop} {inv : Session MethodObject → Prop}

theorem along_callee (hinv : Session.Robust inv)
    {compile : MethodObject → LocatedMethod → Pass MethodObject Function} {r : MethodRef}
    (hcompile : ∀ target m, p.resolve r = .ok target → target.concrete? = some m →
      ∀ object, (compile object m).Along inv fun _ => True) :
    (callee p compile r).Along inv fun _ => True := by
  have hresolve : (Objects.resolve p r).Along inv fun found => p.resolve r = .ok found.2 := by
    have hanswer : (modifyGet fun s : Session MethodObject =>
        ((s.journal.heap.resolve p r).1, { s with journal := s.journal.afterResolve p r }) :
          Pass MethodObject _).Along inv fun answer => answer.map Prod.snd = p.resolve r := by
      refine Walk.along_modifyGet fun s hs => ⟨?_, Heap.map_snd_resolve s.journal.heap p r⟩
      exact hinv s _ hs (.withJournal s (Heap.grows_resolve s.journal.heap p r))
    refine hanswer.bind fun answer hanswer => ?_
    cases answer with
    | error e => exact Walk.along_throw _
    | ok found => exact Walk.along_pure hanswer.symm
  refine hresolve.bind fun found hfound => ?_
  dsimp only
  cases hm : found.2.concrete? with
  | none => exact Walk.along_throw _
  | some m => exact hcompile found.2 m hfound hm found.1

theorem along_compileMethod (h : Maintains p known inv) (depth : Nat) (object : MethodObject)
    {m : LocatedMethod} (hm : known m) :
    (compileMethod p depth object m).Along inv fun _ => True := by
  induction depth generalizing object m with
  | zero => exact Walk.along_throw _
  | succ depth ih =>
    have hlower := along_lowerType h.robust h.types p depth
    have hrequest : ∀ r, m.method.Refers r →
        (callee p (compileMethod p depth) r).Along inv fun _ => True := by
      intro r hr
      refine along_callee h.robust fun target callee htarget hcallee object => ih object ?_
      exact h.resolves m callee hm (Program.calls_iff.mpr ⟨r, target, hr, htarget, hcallee⟩)
    have hpublish : ∀ f : Function, f.method = m → ReadsAsFunction f.code →
        (publish f).Along inv fun _ => True := by
      rintro f rfl hcode
      exact h.publish f hm hcode
    exact along_once h.functions (h.robust.comparison.buildFunction
      (fun w _ => w.Along inv fun _ => True) (fun hw hf => hw.bind hf) hpublish
      (fun ty _ => h.robust.compares (hlower ty)) fun r hr => h.robust.compares (hrequest r hr))

theorem along_compileInstance (h : Maintains p known inv) (depth : Nat) (object : MethodObject)
    (i : MethodInstance) (hi : ∀ m ∈ i.concrete?, known m) :
    (compileInstance p depth object i).Along inv fun _ => True := by
  unfold compileInstance
  cases hm : i.concrete? with
  | none => exact Walk.along_throw _
  | some m => exact along_compileMethod h depth object (hi m hm)

end Objects

/-! Workers. -/

section Workers

variable {inv : Session κ → Prop} {compile : LocatedMethod → Pass κ Function}
variable {methods : List LocatedMethod}

/-- The session of the team satisfies the invariant, and the workers are going to keep it. -/
structure Team.Maintains (inv : Session κ → Prop) (t : Team κ) : Prop where
  session : inv t.session
  tasks : ∀ index rest, .building index rest ∈ t.tasks → rest.Along inv fun _ => True

namespace Team.Maintains

variable {t : Team κ}

theorem assign (h : t.Maintains inv) (worker : Nat) (task : Task κ)
    (htask : ∀ index rest, task = .building index rest → rest.Along inv fun _ => True) :
    (t.assign worker task).Maintains inv := by
  refine ⟨h.session, fun index rest hrest => ?_⟩
  rcases List.mem_or_eq_of_mem_set hrest with hrest | rfl
  · exact h.tasks index rest hrest
  · exact htask index rest rfl

theorem turn (h : t.Maintains inv)
    (hcompile : ∀ m ∈ methods, (compile m).Along inv fun _ => True) (worker : Nat) :
    (t.turn compile methods worker).Maintains inv := by
  unfold Team.turn
  split
  · split
    · rename_i m hm
      have hmember : m ∈ methods := List.mem_of_getElem? hm
      have hassigned := h.assign worker (.building t.counter (compile m)) (by
        rintro _ _ ⟨⟩
        exact hcompile m hmember)
      exact ⟨hassigned.session, hassigned.tasks⟩
    · have hassigned := h.assign worker .done (by simp)
      exact ⟨hassigned.session, hassigned.tasks⟩
  · exact h.assign worker _ (by simp)
  · exact h.assign worker _ (by simp)
  · rename_i index busy next rest htask
    split
    · exact h
    · have hstep := h.tasks _ _ (List.mem_of_getElem? htask) t.session h.session
      have hassigned := h.assign worker (.building index (rest t.session)) (by
        rintro _ _ ⟨⟩
        exact hstep.2)
      exact ⟨hstep.1, hassigned.tasks⟩
  · rename_i index stop _
    have hassigned := h.assign worker .stopping (by simp)
    exact ⟨hassigned.session, hassigned.tasks⟩
  · have hassigned := h.assign worker .done (by simp)
    exact ⟨hassigned.session, hassigned.tasks⟩
  · exact h
  · exact h

theorem goOn (h : t.Maintains inv)
    (hcompile : ∀ m ∈ methods, (compile m).Along inv fun _ => True) (worker turns : Nat) :
    (t.goOn compile methods worker turns).Maintains inv := by
  induction turns generalizing t with
  | zero => exact h
  | succ turns ih =>
    rw [Team.goOn]
    split
    · exact h
    · exact ih (h.turn hcompile worker)

theorem run (h : t.Maintains inv)
    (hcompile : ∀ m ∈ methods, (compile m).Along inv fun _ => True) (schedule : Schedule) :
    (t.run compile methods schedule).Maintains inv := by
  induction schedule generalizing t with
  | nil => exact h
  | cons entry schedule ih => exact ih (h.goOn hcompile entry.1 entry.2)

end Team.Maintains

theorem along_share (hcompile : ∀ m ∈ methods, (compile m).Along inv fun _ => True)
    (workers : Nat) (schedule : Schedule) :
    (share compile workers schedule methods).Along inv fun _ => True := by
  refine Walk.Along.bind (Walk.along_update fun s hs => ?_) fun result _ => ?_
  · have hstart : Team.Maintains inv { tasks := List.replicate workers .free, session := s } := by
      refine ⟨hs, fun index rest hrest => ?_⟩
      cases (List.mem_replicate.mp hrest).2
    exact (hstart.run hcompile schedule).session
  · cases result with
    | ok _ => exact Walk.along_pure trivial
    | error stop => exact Walk.along_throw stop

theorem along_compileEach (hcompile : ∀ m ∈ methods, (compile m).Along inv fun _ => True) :
    (compileEach compile methods).Along inv fun _ => True := by
  induction methods with
  | nil => exact Walk.along_pure trivial
  | cons m rest ih =>
    obtain ⟨hm, hrest⟩ := List.forall_mem_cons.mp hcompile
    exact hm.bind fun _ _ => ih hrest

end Workers

/-- A compilation keeps what its steps keep, whatever becomes of it and however many workers take
part, and a module that comes out shows the session. -/
theorem ends_compileWith {p : Program} {known : LocatedMethod → Prop}
    {inv : Session MethodObject → Prop} (h : Maintains p known inv)
    (hp : ∀ m ∈ p.methods, m.isConcrete = true → known m) (jobs : Nat)
    (schedule : Nat → Schedule) (options : Options) {s : Session MethodObject} (hs : inv s) :
    (compileWith jobs schedule p options).Ends s (fun m t => inv t ∧ m.Shows t options)
      fun _ t => inv t := by
  have hmethods : ∀ m ∈ p.methods.filter LocatedMethod.isConcrete,
      (Objects.compileDeclared p depthLimit m).Along inv fun _ => True := by
    intro m hm
    obtain ⟨hm, hconcrete⟩ := List.mem_filter.mp hm
    exact Objects.along_compileMethod h depthLimit _ (hp m hm hconcrete)
  refine Walk.Ends.andThen (((yields_validate p depthLimit).along h.robust).ends hs) ?_
  rintro _ t ⟨ht, -⟩
  refine Walk.Ends.andThen (((yields_skipGeneric p.methods).along h.robust).ends ht) ?_
  rintro skipped u ⟨hu, -⟩
  have hrun : ((fun methods =>
      if jobs ≤ 1 ∨ methods.length ≤ 1 then
        compileEach (Objects.compileDeclared p depthLimit) methods
      else
        share (Objects.compileDeclared p depthLimit) (min jobs methods.length)
          (schedule (min jobs methods.length)) methods)
      (p.methods.filter LocatedMethod.isConcrete)).Along inv fun _ => True := by
    dsimp only
    split
    · exact along_compileEach hmethods
    · exact along_share hmethods _ _
  refine Walk.Ends.andThen (hrun.ends hu) ?_
  rintro _ v ⟨hv, -⟩
  unfold Walk.Ends
  rw [outcome_assemble]
  unfold Binary.Stream.check
  cases hfits : (v.stream options).oversized with
  | none => exact ⟨h.robust v _ hv (.withJournal v (.refl _)), rfl, rfl, rfl, hfits⟩
  | some cause => exact hv

end ShaderIR.Lowering
