import Mathlib.Data.List.Chain
import Mathlib.Data.Set.Finite.Basic
import Mathlib.Logic.Relation
import ShaderIR.Proofs.MethodIdentity
import ShaderIR.Validation.Calls

/-! The call graph of a program and the walk over it. A walk that comes to its end has finished
every concrete method that the declared ones reach, each after all methods it calls; a walk that
reports recursion has gone along calls from one instance of a declared method to another. -/

namespace ShaderIR

/-- Nothing below an accessible element leads back to it. -/
theorem not_transGen_of_acc {α : Type} {r : α → α → Prop} {a : α}
    (h : Acc (fun b a => r a b) a) : ¬ Relation.TransGen r a a := by
  induction h with
  | intro a _ ih =>
    intro hcycle
    obtain ⟨b, hab, hba⟩ := Relation.TransGen.head'_iff.mp hcycle
    exact ih b hab (Relation.TransGen.tail' hba hab)

/-- Recursion is found by walks only, not where instances are made. -/
def IrError.isRecursion : IrError → Bool
  | .recursiveCall _ | .recursiveLayout _ => true
  | _ => false

/-- Where instances are made, the arguments they are to be made with can be refused. -/
def IrError.isRefusal : IrError → Bool
  | .notGeneric _ | .typeNotGeneric _ | .unconstructedOwner .. | .arityMismatch ..
  | .constraintViolation .. => true
  | _ => false

theorem IrError.isRecursion_of_isRefusal {e : IrError} (h : e.isRefusal = true) :
    e.isRecursion = false := by
  cases e <;> first | rfl | cases h

theorem bindAll_error {s : Substitution} {ps : List GenericParam} {as : List Ty} {e : IrError}
    (h : GenericParam.bindAll s ps as = .error e) : e.isRefusal = true := by
  induction ps generalizing s as with
  | nil => simp [GenericParam.bindAll] at h
  | cons q ps ih =>
    cases as with
    | nil => simp [GenericParam.bindAll] at h
    | cons a as =>
      rw [GenericParam.bindAll] at h
      unfold GenericParam.check at h
      cases hfind : q.constraints.find? fun allowed => !GenericParam.admits allowed a with
      | none =>
        rw [hfind] at h
        exact ih h
      | some allowed =>
        rw [hfind] at h
        cases h
        rfl

theorem TypeDecl.instantiate_error {d : TypeDecl} {arguments : List Ty} {e : IrError}
    (h : d.instantiate arguments = .error e) : e.isRefusal = true := by
  unfold TypeDecl.instantiate at h
  split at h
  · cases h
    rfl
  split at h
  · cases h
    rfl
  split at h
  · rename_i hbind
    cases h
    exact bindAll_error hbind
  · dsimp only at h
    split at h <;> cases h

theorem Method.instantiate_error {m : Method} {arguments : List Ty} {e : IrError}
    (h : m.instantiate arguments = .error e) : e.isRefusal = true := by
  unfold Method.instantiate at h
  split at h
  · cases h
    rfl
  split at h
  · cases h
    rfl
  split at h
  · cases h
    rfl
  split at h
  · rename_i hbind
    cases h
    exact bindAll_error hbind
  · split at h <;> cases h

namespace Program

variable {p : Program}

theorem construct_error {ty : Ty} {e : IrError} (h : p.construct ty = .error e) :
    e.isRecursion = false := by
  unfold construct at h
  split at h
  · cases h
    rfl
  split at h
  · cases h
    rfl
  · exact IrError.isRecursion_of_isRefusal (TypeDecl.instantiate_error h)

theorem locate_error {r : MethodRef} {e : IrError} (h : p.locate r = .error e) :
    e.isRecursion = false := by
  unfold locate at h
  split at h
  · cases h
    rfl
  split at h
  · cases h
    rfl
  split at h
  · rename_i hi
    cases h
    exact IrError.isRecursion_of_isRefusal (TypeDecl.instantiate_error hi)
  split at h
  · split at h <;> cases h
    rfl
  · cases h
    rfl

theorem resolve_error {r : MethodRef} {e : IrError} (h : p.resolve r = .error e) :
    e.isRecursion = false := by
  unfold resolve at h
  split at h
  · rename_i hl
    cases h
    exact locate_error hl
  split at h
  · cases h
  unfold LocatedMethod.instantiate at h
  split at h
  · rename_i hi
    cases h
    exact IrError.isRecursion_of_isRefusal (Method.instantiate_error hi)
  all_goals cases h

/-- The concrete instances that the declared methods of the program need. -/
inductive Reached (p : Program) : LocatedMethod → Prop
  | declared {m : LocatedMethod} (hm : m ∈ p.methods) (hc : m.isConcrete = true) : Reached p m
  | call {m callee : LocatedMethod} (hm : Reached p m) (hc : p.Calls m callee) : Reached p callee

theorem eq_concrete_of_concrete? {target : MethodInstance} {m : LocatedMethod}
    (h : target.concrete? = some m) : target = .concrete m ∧ m.isConcrete = true := by
  cases target with
  | concrete m' =>
    by_cases hc : m'.isConcrete = true
    · have he : m' = m := by simpa [MethodInstance.concrete?, hc] using h
      exact ⟨by rw [he], he ▸ hc⟩
    · simp [MethodInstance.concrete?, hc] at h
  | deferred => cases h

theorem resolves_reached (p : Program) : Lowering.Resolves p p.Reached :=
  fun _ _ hm hc => .call hm hc

theorem Reached.isConcrete {m : LocatedMethod} (h : p.Reached m) : m.isConcrete = true := by
  cases h with
  | declared _ hc => exact hc
  | call _ hc =>
    obtain ⟨_, _, _, _, _, _, _, ht⟩ := hc
    exact (eq_concrete_of_concrete? ht).2

theorem Reached.locates (hp : p.Distinct) {m : LocatedMethod} (h : p.Reached m) :
    p.Locates m := by
  cases h with
  | declared hm _ => exact locates_methods hp m hm
  | call _ hc => exact hc.locates

theorem Locates.definition {m : LocatedMethod} (h : p.Locates m) :
    ∃ declared, p.definition? m.id = some declared := by
  have hi : p.instance? m.id = some m.method := h
  simp only [instance?, bind, Option.bind_eq_some_iff] at hi
  obtain ⟨home, hhome, d, hd, methods, hmethods, found, hfound, _⟩ := hi
  have hlength : methods.length = d.methods.length := by
    cases ha : m.id.ownerArguments with
    | none =>
      have he : d.methods = methods := by simpa [ha, methodsFor?] using hmethods
      rw [he]
    | some arguments =>
      cases hinst : d.instantiate arguments with
      | error e => simp [ha, methodsFor?, hinst, Except.toOption] at hmethods
      | ok i =>
        have he : i.methods = methods := by
          simpa [ha, methodsFor?, hinst, Except.toOption] using hmethods
        rw [← he, (constructs_of_instantiate hinst).methods]
        split <;> simp
  have hindex : m.id.index < d.methods.length := by
    have hlt := (List.getElem?_eq_some_iff.mp hfound).1
    omega
  simp [definition?, hhome, hd, declaredMethods, hindex]

/-- The chain names the methods along calls that lead from an instance of a declared method to an
instance of the same one. -/
def CallCycle (p : Program) (chain : List String) : Prop :=
  ∃ first middle last, p.Reached first ∧ (first :: middle ++ [last]).IsChain p.Calls ∧
    first.id.definition = last.id.definition ∧
    chain = (first :: middle ++ [last]).map LocatedMethod.fullName

end Program

/-- The types that a method has to do with besides its receiver. -/
def Method.Mentions (m : Method) (ty : Ty) : Prop :=
  ty ∈ m.parameterTypes ∨ m.returnType = some ty ∨ .define ty ∈ m.body

namespace CallGraph

variable {p : Program} {g : CallGraph}

/-- The invariant of the walk. Finished methods have finished callees, so calls below them end. -/
structure Settled (p : Program) (g : CallGraph) : Prop where
  callees : ∀ m, p.Locates m → m.id ∈ g.done → ∀ callee, p.Calls m callee → callee.id ∈ g.done
  wellFounded : ∀ m, p.Locates m → m.id ∈ g.done →
    Acc (fun callee caller => p.Calls caller callee) m
  mentioned : ∀ m, p.Locates m → m.id ∈ g.done → ∀ ty, m.method.Mentions ty →
    ty ∈ g.types.toList

structure Grows (g g' : CallGraph) : Prop where
  done : g.done ⊆ g'.done
  types : g.types.toList ⊆ g'.types.toList

theorem Grows.refl (g : CallGraph) : g.Grows g :=
  ⟨List.Subset.refl _, List.Subset.refl _⟩

theorem Grows.trans {g₁ g₂ g₃ : CallGraph} (h : g₁.Grows g₂) (h' : g₂.Grows g₃) : g₁.Grows g₃ :=
  ⟨fun _ hm => h'.done (h.done hm), fun _ ht => h'.types (h.types ht)⟩

theorem settled_empty (p : Program) (journal : Journal) : Settled p { journal } :=
  ⟨fun _ _ hm => by simp at hm, fun _ _ hm => by simp at hm, fun _ _ hm => by simp at hm⟩

/-- A method is finished when its callees are finished and its types are noted. -/
theorem Settled.finish (hg : g.Settled p) {m : LocatedMethod} (hm : p.Locates m)
    (hcallees : ∀ callee, p.Calls m callee → callee.id ∈ g.done)
    (htypes : ∀ ty, m.method.Mentions ty → ty ∈ g.types.toList) :
    Settled p { g with done := m.id :: g.done } := by
  constructor
  · intro m' hm' hdone callee hcall
    rcases List.mem_cons.mp hdone with hid | hdone
    · obtain rfl := hm'.eq_of_id_eq hm hid
      exact List.mem_cons_of_mem _ (hcallees callee hcall)
    · exact List.mem_cons_of_mem _ (hg.callees m' hm' hdone callee hcall)
  · intro m' hm' hdone
    rcases List.mem_cons.mp hdone with hid | hdone
    · obtain rfl := hm'.eq_of_id_eq hm hid
      exact Acc.intro m' fun callee hcall =>
        hg.wellFounded callee hcall.locates (hcallees callee hcall)
    · exact hg.wellFounded m' hm' hdone
  · intro m' hm' hdone ty hty
    rcases List.mem_cons.mp hdone with hid | hdone
    · obtain rfl := hm'.eq_of_id_eq hm hid
      exact htypes ty hty
    · exact hg.mentioned m' hm' hdone ty hty

/-- From a settled graph the walk ends in a settled one that satisfies `post`; if it reports
recursion, there is a cycle of calls. -/
def Walks (p : Program) (w : M Unit) (g : CallGraph) (post : CallGraph → Prop) : Prop :=
  w.Ends g (fun _ t => t.Settled p ∧ g.Grows t ∧ post t)
    (fun e _ => ∀ chain, e = .failed (.recursiveCall chain) → p.CallCycle chain)

theorem Walks.bind {w w' : M Unit} {post post' : CallGraph → Prop} (h : Walks p w g post)
    (h' : ∀ t, t.Settled p → g.Grows t → post t → Walks p w' t post') :
    Walks p (do w; w') g post' := by
  refine Walk.Ends.andThen h ?_
  rintro _ t ⟨ht, hg, hpost⟩
  refine Walk.Ends.mono (h' t ht hg hpost) ?_ fun _ _ hs => hs
  rintro _ u ⟨hu, hg', hpost'⟩
  exact ⟨hu, hg.trans hg', hpost'⟩

theorem walks_mention (hg : g.Settled p) (tys : List Ty) :
    Walks p (mention tys) g fun t => ∀ ty ∈ tys, ty ∈ t.types.toList := by
  refine ⟨⟨hg.callees, hg.wellFounded, ?_⟩, ⟨List.Subset.refl _, ?_⟩, ?_⟩
  · intro m hm hdone ty hty
    have h := hg.mentioned m hm hdone ty hty
    simp [h]
  · intro ty hty
    simp [hty]
  · intro ty hty
    simp [hty]

/-- Resolving a reference changes nothing but the journal, and its errors are not recursion. -/
theorem walks_resolve_bind (hg : g.Settled p) (r : MethodRef) {f : MethodInstance → M Unit}
    {post : CallGraph → Prop}
    (hf : ∀ target, p.resolve r = .ok target → ∀ t, t.Settled p → g.Grows t →
      Walks p (f target) t post) :
    Walks p (do f (← resolve p r)) g post := by
  let t : CallGraph := { g with journal := g.journal.afterResolve p r }
  have ht : t.Settled p := ⟨hg.callees, hg.wellFounded, hg.mentioned⟩
  cases hr : p.resolve r with
  | error e =>
    have ho : (resolve p r >>= f).outcome g = (.error (.failed e), t) := by
      simp only [resolve, Walk.outcome_bind, Walk.outcome_modify, hr]
      rfl
    refine Walk.Ends.error ho fun chain he => ?_
    cases he
    have hrec := Program.resolve_error hr
    cases hrec
  | ok target =>
    have ho : (resolve p r >>= f).outcome g = (f target).outcome t := by
      simp only [resolve, Walk.outcome_bind, Walk.outcome_modify, hr]
      rfl
    have hwalks := hf target hr t ht ⟨List.Subset.refl _, List.Subset.refl _⟩
    refine Walk.Ends.congr ho (Walk.Ends.mono hwalks ?_ fun _ _ hs => hs)
    rintro _ u ⟨hu, hgu, hpost⟩
    exact ⟨hu, ⟨hgu.done, hgu.types⟩, hpost⟩

theorem walks_pure (hg : g.Settled p) {post : CallGraph → Prop} (h : post g) :
    Walks p (pure ()) g post :=
  ⟨hg, .refl g, h⟩

theorem Walks.mono {w : M Unit} {post post' : CallGraph → Prop} (h : Walks p w g post)
    (hp : ∀ t, g.Grows t → post t → post' t) : Walks p w g post' :=
  Walk.Ends.mono h (fun _ t ht => ⟨ht.1, ht.2.1, hp t ht.2.1 ht.2.2⟩) fun _ _ hs => hs

/-- The callees of the body are finished and the types of its variables are noted. -/
structure Follows (p : Program) (body : List Instruction) (g : CallGraph) : Prop where
  callees : ∀ callee, p.CalledIn body callee → callee.id ∈ g.done
  locals : ∀ ty, .define ty ∈ body → ty ∈ g.types.toList

theorem Follows.cons {i : Instruction} {rest : List Instruction} (h : Follows p rest g)
    (hcall : ∀ callee, p.CalledIn [i] callee → callee.id ∈ g.done)
    (hdefine : ∀ ty, i = .define ty → ty ∈ g.types.toList) :
    Follows p (i :: rest) g := by
  constructor
  · rintro callee ⟨j, hj, hcalled⟩
    rcases List.mem_cons.mp hj with rfl | hj
    · exact hcall callee ⟨j, List.mem_singleton_self j, hcalled⟩
    · exact h.callees callee ⟨j, hj, hcalled⟩
  · intro ty hmem
    rcases List.mem_cons.mp hmem with hi | hmem
    · exact hdefine ty hi.symm
    · exact h.locals ty hmem

theorem walks_walkBody {visit : LocatedMethod → M Unit} {body : List Instruction}
    (hv : ∀ callee, p.CalledIn body callee → ∀ g, Settled p g →
      Walks p (visit callee) g fun t => callee.id ∈ t.done)
    (hg : g.Settled p) : Walks p (walkBody p visit body) g (Follows p body) := by
  induction body generalizing g with
  | nil => exact walks_pure hg ⟨by simp [Program.CalledIn], by simp⟩
  | cons i rest ih =>
    have hsub : rest ⊆ i :: rest := fun _ h => List.mem_cons_of_mem _ h
    have hrest : ∀ t, Settled p t → Walks p (walkBody p visit rest) t (Follows p rest) :=
      fun t ht => ih (fun callee hc => hv callee (hc.mono hsub)) ht
    rw [walkBody.eq_def]
    split
    · rename_i heq
      cases heq
    · rename_i r others hcounted tail heq
      obtain ⟨rfl, rfl⟩ := List.cons.inj heq
      refine walks_resolve_bind hg r ?_
      intro target hr t ht _
      have htarget : ∀ callee, p.CalledIn [⟨.call, .method r :: others, hcounted⟩] callee →
          target.concrete? = some callee := by
        rintro callee ⟨i, hi, r', target', _, hr', ht', hc⟩
        obtain rfl := List.mem_singleton.mp hi
        obtain rfl : r = r' := by simpa using hr'
        obtain rfl : target = target' := by simpa [hr] using ht'
        exact hc
      cases hc : target.concrete? with
      | none =>
        refine (hrest t ht).mono fun u _ hu => hu.cons (fun callee hcalled => ?_) (by simp)
        simp [htarget callee hcalled] at hc
      | some callee =>
        have hcallee : p.CalledIn (⟨.call, .method r :: others, hcounted⟩ :: rest) callee :=
          ⟨_, List.mem_cons_self, r, target, rfl, rfl, hr, hc⟩
        refine (hv callee hcallee t ht).bind fun u hu _ hdone => ?_
        refine (hrest u hu).mono fun v hg hv => hv.cons (fun callee' hcalled => ?_) (by simp)
        obtain rfl : callee = callee' := by simpa [hc] using htarget callee' hcalled
        exact hg.done hdone
    · rename_i ty others hcounted tail heq
      obtain ⟨rfl, rfl⟩ := List.cons.inj heq
      refine (walks_mention hg [ty]).bind fun t ht _ hty => ?_
      refine (hrest t ht).mono fun u hg hu => hu.cons ?_ ?_
      · rintro callee ⟨i, hi, _, _, ho, _⟩
        obtain rfl := List.mem_singleton.mp hi
        cases ho
      · intro ty' hi
        obtain rfl : ty = ty' := by simp_all
        exact hg.types (hty ty (List.mem_singleton_self ty))
    · rename_i j tail hcall hdefine heq
      obtain ⟨rfl, rfl⟩ := List.cons.inj heq
      refine (hrest g hg).mono fun u _ hu => hu.cons ?_ fun ty hi => ?_
      · rintro callee ⟨j, hj, r, _, ho, hr, _⟩
        obtain rfl := List.mem_singleton.mp hj
        obtain ⟨_, operands, hcounted⟩ := j
        cases operands with
        | nil => cases hr
        | cons o others =>
          obtain rfl : o = .method r := by simpa using hr
          cases ho
          exact absurd rfl (hcall r others hcounted)
      · exact absurd hi (hdefine ty [] rfl)

theorem outcome_visit_done {depth : Nat} {stack : List LocatedMethod} {m : LocatedMethod}
    (h : m.id ∈ g.done) : (visit p (depth + 1) stack m).outcome g = (.ok (), g) := by
  simp [visit, Walk.outcome_bind, h]

theorem outcome_visit_cycle {depth : Nat} {stack : List LocatedMethod} {m : LocatedMethod}
    {chain : List String} (h : m.id ∉ g.done) (hc : cycle? stack m = some chain) :
    (visit p (depth + 1) stack m).outcome g = (.error (.failed (.recursiveCall chain)), g) := by
  simp [visit, Walk.outcome_bind, h, hc]

theorem outcome_visit_new {depth : Nat} {stack : List LocatedMethod} {m : LocatedMethod}
    (h : m.id ∉ g.done) (hc : cycle? stack m = none) :
    (visit p (depth + 1) stack m).outcome g =
      Walk.outcome (do
        mention (m.method.parameterTypes ++ m.method.returnType.toList)
        walkBody p (visit p depth (stack ++ [m])) m.method.body
        modify fun g => { g with done := m.id :: g.done }) g := by
  simp [visit, Walk.outcome_bind, h, hc]

/-- The frames from the first one with the same declared method on, followed by the method, are a
path of calls. -/
theorem callCycle_of_cycle? {stack : List LocatedMethod} {m : LocatedMethod} {chain : List String}
    (hchain : (stack ++ [m]).IsChain p.Calls) (hreached : ∀ f ∈ stack ++ [m], p.Reached f)
    (h : cycle? stack m = some chain) : p.CallCycle chain := by
  unfold cycle? at h
  have hsuffix := List.dropWhile_suffix (l := stack)
    fun frame => frame.id.definition != m.id.definition
  cases hframes : stack.dropWhile fun frame => frame.id.definition != m.id.definition with
  | nil => simp [hframes] at h
  | cons first middle =>
    rw [hframes] at h hsuffix
    have hpath : first :: middle ++ [m] <:+ stack ++ [m] := by
      obtain ⟨before, hbefore⟩ := hsuffix
      exact ⟨before, by simp [← hbefore]⟩
    have hfirst : first.id.definition = m.id.definition := by
      have hne := List.head?_dropWhile_not
        (fun frame : LocatedMethod => frame.id.definition != m.id.definition) stack
      simpa [hframes] using hne
    refine ⟨first, middle, m, hreached first (hpath.subset (by simp)), hchain.suffix hpath,
      hfirst, ?_⟩
    simpa using h.symm

theorem walks_visit (depth : Nat) (stack : List LocatedMethod) {m : LocatedMethod}
    (hchain : (stack ++ [m]).IsChain p.Calls) (hreached : ∀ f ∈ stack ++ [m], p.Reached f)
    (hm : p.Locates m) (hg : g.Settled p) :
    Walks p (visit p depth stack m) g fun t => m.id ∈ t.done := by
  induction depth generalizing stack m g with
  | zero =>
    intro chain he
    cases he
  | succ depth ih =>
    by_cases hdone : m.id ∈ g.done
    · exact Walk.Ends.ok (outcome_visit_done hdone) ⟨hg, .refl g, hdone⟩
    · cases hc : cycle? stack m with
      | some chain =>
        refine Walk.Ends.error (outcome_visit_cycle hdone hc) fun chain' he => ?_
        cases he
        exact callCycle_of_cycle? hchain hreached hc
      | none =>
        refine Walk.Ends.congr (outcome_visit_new hdone hc) ?_
        refine (walks_mention hg _).bind fun t ht _ hsignature => ?_
        refine (walks_walkBody ?_ ht).bind fun u hu hgrows hbody => ?_
        · intro callee hcalled g' hg'
          have hcallee : p.Reached callee := .call (hreached m (by simp)) hcalled
          have hcall : p.Calls m callee := hcalled
          -- the frames above the callee and the callee itself are again a path of calls
          refine ih _ ?_ ?_ hcalled.locates hg'
          · exact hchain.append (List.isChain_singleton callee) (by simpa using hcall)
          · intro f hf
            rcases List.mem_append.mp hf with hf | hf
            · exact hreached f hf
            · exact List.mem_singleton.mp hf ▸ hcallee
        · refine ⟨hu.finish hm hbody.callees ?_, ⟨List.subset_cons_self _ _, List.Subset.refl _⟩,
            List.mem_cons_self⟩
          rintro ty (hty | hty | hty)
          · exact hgrows.types (hsignature ty (by simp [hty]))
          · exact hgrows.types (hsignature ty (by simp [hty]))
          · exact hbody.locals ty hty

theorem walks_visitAll (hp : p.Distinct) (hg : g.Settled p) (depth : Nat)
    {ms : List LocatedMethod} (hms : ms ⊆ p.methods) :
    Walks p (visitAll p depth ms) g fun t => ∀ m ∈ ms, m.isConcrete = true → m.id ∈ t.done := by
  induction ms generalizing g with
  | nil => exact walks_pure hg (by simp)
  | cons m rest ih =>
    have hm : m ∈ p.methods := hms List.mem_cons_self
    have hrest : rest ⊆ p.methods := fun _ h => hms (List.mem_cons_of_mem _ h)
    rw [visitAll]
    by_cases hc : m.isConcrete = true
    · simp only [hc, if_true]
      have hreached : p.Reached m := .declared hm hc
      have hvisit := walks_visit depth [] (List.isChain_singleton m)
        (by simpa using hreached) (Program.locates_methods hp m hm) hg
      refine hvisit.bind fun t ht _ hdone => ?_
      refine (ih ht hrest).mono fun u hgrows hu m' hm' hc' => ?_
      rcases List.mem_cons.mp hm' with rfl | hm'
      · exact hgrows.done hdone
      · exact hu m' hm' hc'
    · simp only [hc]
      refine (ih hg hrest).mono fun u _ hu m' hm' hc' => ?_
      rcases List.mem_cons.mp hm' with rfl | hm'
      · exact absurd hc' hc
      · exact hu m' hm' hc'

/-- The graph after a walk over the declared methods. -/
structure Complete (p : Program) (g : CallGraph) : Prop extends Settled p g where
  declared : ∀ m ∈ p.methods, m.isConcrete = true → m.id ∈ g.done

namespace Complete

theorem done (h : g.Complete p) (hp : p.Distinct) {m : LocatedMethod} (hm : p.Reached m) :
    m.id ∈ g.done := by
  induction hm with
  | declared hm hc => exact h.declared _ hm hc
  | call hm hc ih => exact h.callees _ (hm.locates hp) ih _ hc

theorem finite_reached (h : g.Complete p) (hp : p.Distinct) : {m | p.Reached m}.Finite := by
  refine Set.Finite.of_finite_image (f := LocatedMethod.id) ?_ ?_
  · refine (List.finite_toSet g.done).subset ?_
    rintro _ ⟨m, hm, rfl⟩
    exact h.done hp hm
  · intro m hm m' hm' he
    exact (hm.locates hp).eq_of_id_eq (hm'.locates hp) he

theorem not_transGen (h : g.Complete p) (hp : p.Distinct) {m : LocatedMethod}
    (hm : p.Reached m) : ¬ Relation.TransGen p.Calls m m :=
  not_transGen_of_acc (h.wellFounded m (hm.locates hp) (h.done hp hm))

theorem types (h : g.Complete p) (hp : p.Distinct) {m : LocatedMethod} (hm : p.Reached m)
    {ty : Ty} (hty : m.method.Mentions ty) : ty ∈ g.types.toList :=
  h.mentioned m (hm.locates hp) (h.done hp hm) ty hty

end Complete

end CallGraph

end ShaderIR
