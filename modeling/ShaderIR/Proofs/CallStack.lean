import Mathlib.Data.List.TakeWhile
import Mathlib.Data.Set.Card
import ShaderIR.Proofs.Resolution
import ShaderIR.Proofs.ValidationPhases

/-! How deep the walk over calls goes. The methods on its stack come from different declared methods,
whatever instances of them they are, so there are never more of them than methods are declared in
the program and in the programs it depends on. The walk therefore ends. -/

namespace ShaderIR

namespace Walk

variable {σ ε α β : Type}

/-- Where a walk does not go too deep, a step may be replaced by one that agrees with it as far as
it does not go too deep itself. -/
theorem outcome_bind_congr {w w' : Walk σ ε α} {f f' : α → Walk σ ε β} {s : σ}
    (h : ((w >>= f).outcome s).1 ≠ .error .tooDeep)
    (hw : (w.outcome s).1 ≠ .error .tooDeep → w'.outcome s = w.outcome s)
    (hf : ∀ a t, ((f a).outcome t).1 ≠ .error .tooDeep → (f' a).outcome t = (f a).outcome t) :
    (w' >>= f').outcome s = (w >>= f).outcome s := by
  rw [outcome_bind] at h ⊢
  rw [outcome_bind]
  rcases ho : w.outcome s with ⟨e | a, t⟩
  · rw [ho] at h hw
    have he : e ≠ .tooDeep := fun he => h (by rw [he])
    rw [hw fun hdeep => he (Except.error.inj hdeep)]
  · rw [ho] at h hw
    rw [hw (by simp)]
    exact hf a t h

theorem Ends.outcome_eq {w : Walk σ ε α} {s : σ} {post : α → σ → Prop} {stop : Stop ε → σ → Prop}
    (h : w.Ends s post stop) : w.Ends s (fun a t => w.outcome s = (.ok a, t)) stop := by
  unfold Ends at h ⊢
  rcases ho : w.outcome s with ⟨e | a, t⟩
  · rw [ho] at h
    exact h
  · rfl

end Walk

namespace Program

variable {p : Program}

mutual

/-- The program and the programs it depends on, directly or through others. -/
def withDependencies : Program → List Program
  | ⟨name, types, index, hindex, dependencies, order⟩ =>
    ⟨name, types, index, hindex, dependencies, order⟩ :: allDependencies dependencies

def allDependencies : List Program → List Program
  | [] => []
  | p :: rest => withDependencies p ++ allDependencies rest

end

/-- The methods that are declared there, each by its program, its type and its position. -/
def methodDeclarations (p : Program) : List (Program × String × Nat) :=
  p.withDependencies.flatMap fun q => q.types.flatMap fun d =>
    (List.range d.methods.length).map fun index => (q, d.fullName, index)

/-- How many methods are declared. A program that several others depend on counts once. -/
noncomputable def declarationCount (p : Program) : Nat :=
  {declaration | declaration ∈ p.methodDeclarations}.ncard

theorem declarationCount_eq [DecidableEq (Program × String × Nat)] (p : Program) :
    p.declarationCount = p.methodDeclarations.toFinset.card := by
  rw [declarationCount, ← Set.ncard_coe_finset, List.coe_toFinset]

theorem declarationCount_le (p : Program) : p.declarationCount ≤ p.methodDeclarations.length := by
  classical
  rw [declarationCount_eq]
  exact List.toFinset_card_le _

theorem mem_allDependencies {ps : List Program} {q r : Program} (hq : q ∈ ps)
    (hr : r ∈ q.withDependencies) : r ∈ allDependencies ps := by
  induction ps with
  | nil => cases hq
  | cons q' ps ih =>
    rw [allDependencies, List.mem_append]
    rcases List.mem_cons.mp hq with rfl | hq
    · exact .inl hr
    · exact .inr (ih hq)

theorem mem_withDependencies {path : List Nat} {home : Program}
    (h : p.atPath? path = some home) : home ∈ p.withDependencies := by
  induction path generalizing p with
  | nil =>
    cases h
    cases home
    simp [withDependencies]
  | cons position path ih =>
    obtain ⟨name, types, index, hindex, dependencies, order⟩ := p
    rw [atPath?] at h
    split at h
    · rename_i dependency hdependency
      rw [withDependencies]
      exact List.mem_cons_of_mem _ (mem_allDependencies (List.mem_of_getElem? hdependency) (ih h))
    · cases h

/-- A program contains the programs it depends on, so none of them is the program itself. -/
theorem sizeOf_atPath? {position : Nat} {path : List Nat} {home : Program}
    (h : p.atPath? (position :: path) = some home) : sizeOf home < sizeOf p := by
  induction path generalizing p position with
  | nil =>
    obtain ⟨name, types, index, hindex, dependencies, order⟩ := p
    rw [atPath?] at h
    split at h
    · rename_i dependency hdependency
      cases h
      have hsize := List.sizeOf_lt_of_mem (List.mem_of_getElem? hdependency)
      simp only [Program.mk.sizeOf_spec]
      dsimp only at hsize
      omega
    · cases h
  | cons next path ih =>
    obtain ⟨name, types, index, hindex, dependencies, order⟩ := p
    rw [atPath?] at h
    split at h
    · rename_i dependency hdependency
      have hsize := List.sizeOf_lt_of_mem (List.mem_of_getElem? hdependency)
      have hrest := ih h
      simp only [Program.mk.sizeOf_spec]
      dsimp only at hsize
      omega
    · cases h

/-- The method comes from a declaration in the program itself or in the program in which its owner
is found. -/
structure Placed (p : Program) (m : LocatedMethod) (home : Program) : Prop where
  visible : m.id.site.path = [] ∨ ∃ d, p.find? m.id.site.name = some (m.id.site.path, d)
  stands : p.atPath? m.id.site.path = some home
  declared : ∃ d ∈ home.types, d.fullName = m.id.site.name ∧ m.id.index < d.methods.length

theorem placed_of_mem {m : LocatedMethod} (hm : m ∈ p.methods) : p.Placed m p := by
  obtain ⟨d, hd, hm⟩ := List.mem_flatMap.mp hm
  obtain ⟨⟨method, index⟩, hmem, rfl⟩ := List.mem_map.mp hm
  exact ⟨.inl rfl, rfl, d, hd, rfl, List.snd_lt_of_mem_zipIdx hmem⟩

theorem length_methods_of_instantiate {d : TypeDecl} {arguments : List Ty} {i : TypeInstance}
    (h : d.instantiate arguments = .ok i) : i.methods.length = d.methods.length := by
  rw [(constructs_of_instantiate h).methods]
  split <;> simp

theorem exists_placed_of_locate {r : MethodRef} {m : LocatedMethod} (h : p.locate r = .ok m) :
    ∃ home, p.Placed m home := by
  obtain ⟨name, arguments, path, d, i, ⟨_, hfind, hi⟩, hmethod, _, hid⟩ := locate_eq_ok_iff.mp h
  obtain ⟨home, hhome, hd⟩ := atPath?_of_find? p hfind
  have hname := fullName_of_findLocal? hd
  have hindex := (List.getElem?_eq_some_iff.mp hmethod).1
  rw [length_methods_of_instantiate hi] at hindex
  rw [hname] at hid
  refine ⟨home, .inr ⟨d, ?_⟩, ?_, d, List.mem_of_find?_eq_some hd, ?_, ?_⟩ <;> simpa [hid]

theorem exists_placed_of_resolve {r : MethodRef} {target : MethodInstance} {m : LocatedMethod}
    (h : p.resolve r = .ok target) (hm : target.concrete? = some m) : ∃ home, p.Placed m home := by
  obtain ⟨found, hfound, hcases⟩ := resolve_eq_ok_iff.mp h
  obtain ⟨home, hplaced⟩ := exists_placed_of_locate hfound
  rcases hcases with ⟨_, rfl⟩ | ⟨_, hinstance⟩
  · cases (eq_concrete_of_concrete? hm).1
    exact ⟨home, hplaced⟩
  · obtain ⟨_, _, hc⟩ := LocatedMethod.concrete?_of_instantiate hinstance
    rw [hc, Option.ite_none_left_eq_some] at hm
    cases hm.2
    exact ⟨home, hplaced.visible, hplaced.stands, hplaced.declared⟩

theorem Reached.exists_placed {m : LocatedMethod} (h : p.Reached m) : ∃ home, p.Placed m home := by
  cases h with
  | declared hm _ => exact ⟨p, placed_of_mem hm⟩
  | call _ hc =>
    obtain ⟨_, _, _, hr, ht⟩ := calls_iff.mp hc
    exact exists_placed_of_resolve hr ht

theorem Placed.mem {m : LocatedMethod} {home : Program} (h : p.Placed m home) :
    (home, m.id.site.name, m.id.index) ∈ p.methodDeclarations := by
  obtain ⟨d, hd, hname, hindex⟩ := h.declared
  refine List.mem_flatMap.mpr ⟨home, mem_withDependencies h.stands, List.mem_flatMap.mpr ⟨d, hd, ?_⟩⟩
  exact List.mem_map.mpr ⟨m.id.index, List.mem_range.mpr hindex, by rw [hname]⟩

/-- Methods from one declaration are instances of one declared method: a name is found in one place
only, and the program itself is none of its dependencies. -/
theorem Placed.definition_eq {m m' : LocatedMethod} {home : Program} (h : p.Placed m home)
    (h' : p.Placed m' home) (hname : m.id.site.name = m'.id.site.name)
    (hindex : m.id.index = m'.id.index) : m.id.definition = m'.id.definition := by
  have hroot : ∀ {x x' : LocatedMethod}, p.Placed x home → p.Placed x' home →
      x.id.site.path = [] → x'.id.site.path = [] := by
    intro x x' hx hx' hpath
    have hself : p = home := by simpa [hpath, atPath?] using hx.stands
    cases hpath' : x'.id.site.path with
    | nil => rfl
    | cons position rest =>
      have hsize := sizeOf_atPath? (hpath' ▸ hx'.stands)
      rw [hself] at hsize
      exact absurd hsize (Nat.lt_irrefl _)
  have hpath : m.id.site.path = m'.id.site.path := by
    rcases h.visible with hm | ⟨d, hm⟩
    · rw [hm, hroot h h' hm]
    · rcases h'.visible with hm' | ⟨d', hm'⟩
      · rw [hm', hroot h' h hm']
      · rw [hname, hm'] at hm
        exact (Prod.mk.inj (Option.some.inj hm)).1.symm
  have hsite : m.id.site = m'.id.site := by
    cases hs : m.id.site
    cases hs' : m'.id.site
    simp_all
  rw [MethodId.definition, MethodId.definition, hsite, hindex]

end Program

namespace CallGraph

variable {p : Program} {g g₀ : CallGraph}

theorem cycle?_eq_none_iff {stack : List LocatedMethod} {m : LocatedMethod} :
    cycle? stack m = none ↔ ∀ frame ∈ stack, frame.id.definition ≠ m.id.definition := by
  unfold cycle?
  constructor
  · intro h
    split at h
    · rename_i hnil
      simpa using List.dropWhile_eq_nil_iff.mp hnil
    · cases h
  · intro h
    have hnil : (stack.dropWhile fun frame => frame.id.definition != m.id.definition) = [] :=
      List.dropWhile_eq_nil_iff.mpr (by simpa using h)
    rw [hnil]

/-- The methods are reached and come from different declared methods. -/
structure Stacked (p : Program) (stack : List LocatedMethod) : Prop where
  reached : ∀ frame ∈ stack, p.Reached frame
  distinct : (stack.map fun frame => frame.id.definition).Nodup

theorem stacked_nil (p : Program) : Stacked p [] :=
  ⟨by simp, List.nodup_nil⟩

theorem Stacked.push {stack : List LocatedMethod} (h : Stacked p stack) {m : LocatedMethod}
    (hm : p.Reached m) (hc : cycle? stack m = none) : Stacked p (stack ++ [m]) := by
  refine ⟨List.forall_mem_append.mpr ⟨h.reached, by simpa using hm⟩, ?_⟩
  rw [List.map_append, List.nodup_append]
  refine ⟨h.distinct, by simp, ?_⟩
  intro a ha b hb
  obtain ⟨frame, hframe, rfl⟩ := List.mem_map.mp ha
  obtain rfl : b = m.id.definition := by simpa using hb
  exact cycle?_eq_none_iff.mp hc frame hframe

/-- Different declared methods have different declarations, of which there are only so many. -/
theorem Stacked.length_le {stack : List LocatedMethod} (h : Stacked p stack) :
    stack.length ≤ p.declarationCount := by
  classical
  have hplaced : ∀ frame, ∃ home, frame ∈ stack → p.Placed frame home := by
    intro frame
    by_cases hf : frame ∈ stack
    · obtain ⟨home, hhome⟩ := (h.reached frame hf).exists_placed
      exact ⟨home, fun _ => hhome⟩
    · exact ⟨p, fun hf' => absurd hf' hf⟩
  choose home hhome using hplaced
  let declaration : LocatedMethod → Program × String × Nat :=
    fun frame => (home frame, frame.id.site.name, frame.id.index)
  have hnodup : (stack.map declaration).Nodup := by
    refine List.Nodup.map_on ?_ h.distinct.of_map
    intro x hx y hy he
    obtain ⟨hh, hrest⟩ := Prod.mk.inj he
    obtain ⟨hname, hindex⟩ := Prod.mk.inj hrest
    have hdefinition := (hhome x hx).definition_eq (hh ▸ hhome y hy) hname hindex
    exact List.inj_on_of_nodup_map h.distinct hx hy hdefinition
  have hsub : (stack.map declaration).toFinset ⊆ p.methodDeclarations.toFinset := by
    intro x hx
    obtain ⟨frame, hframe, rfl⟩ := List.mem_map.mp (List.mem_toFinset.mp hx)
    exact List.mem_toFinset.mpr (hhome frame hframe).mem
  calc stack.length = (stack.map declaration).toFinset.card := by
        rw [List.toFinset_card_of_nodup hnodup, List.length_map]
    _ ≤ p.methodDeclarations.toFinset.card := Finset.card_le_card hsub
    _ = p.declarationCount := p.declarationCount_eq.symm

/-- In the course of following a body from `g`, `visit` is run on `callee` from `t`. -/
inductive BodyRuns (p : Program) (visit : LocatedMethod → M Unit) :
    List Instruction → CallGraph → LocatedMethod → CallGraph → Prop
  | here {r : MethodRef} {others : List Operand}
      {hcounted : Opcode.call.arity.admits (.method r :: others).length = true}
      {rest : List Instruction} {g : CallGraph} {target : MethodInstance} {callee : LocatedMethod}
      (hr : p.resolve r = .ok target) (hc : target.concrete? = some callee) :
      BodyRuns p visit (⟨.call, .method r :: others, hcounted⟩ :: rest) g callee
        { g with journal := g.journal.afterResolve p r }
  | later {i : Instruction} {rest : List Instruction} {g t u : CallGraph} {callee : LocatedMethod}
      (hi : (walkBody p visit [i]).outcome g = (.ok (), t))
      (h : BodyRuns p visit rest t callee u) : BodyRuns p visit (i :: rest) g callee u

/-- In the course of the walk over the declared methods from `g₀`, within the given depth, a visit
is run: with a depth that is left, below a stack, on a method and from a graph. -/
inductive Runs (p : Program) (depth : Nat) (g₀ : CallGraph) :
    Nat → List LocatedMethod → LocatedMethod → CallGraph → Prop
  | declared {before after : List LocatedMethod} {m : LocatedMethod} {g : CallGraph}
      (hm : p.methods = before ++ m :: after) (hc : m.isConcrete = true)
      (hg : (visitAll p depth before).outcome g₀ = (.ok (), g)) : Runs p depth g₀ depth [] m g
  | call {left : Nat} {stack : List LocatedMethod} {m callee : LocatedMethod} {g t : CallGraph}
      (h : Runs p depth g₀ (left + 1) stack m g) (hnew : m.id ∉ g.done)
      (hc : cycle? stack m = none)
      (hcall : BodyRuns p (visit p left (stack ++ [m])) m.method.body
        { g with types := g.types ++ (m.method.parameterTypes ++ m.method.returnType.toList) }
        callee t) :
      Runs p depth g₀ left (stack ++ [m]) callee t

theorem BodyRuns.calledIn {visit : LocatedMethod → M Unit} {body : List Instruction}
    {callee : LocatedMethod} {t : CallGraph} (h : BodyRuns p visit body g callee t) :
    p.CalledIn body callee := by
  induction h with
  | here hr hc => exact ⟨_, List.mem_cons_self, _, _, rfl, rfl, hr, hc⟩
  | later _ _ ih => exact ih.mono (List.subset_cons_self _ _)

theorem Runs.stacked {depth left : Nat} {stack : List LocatedMethod} {m : LocatedMethod}
    (h : Runs p depth g₀ left stack m g) :
    Stacked p stack ∧ p.Reached m ∧ left + stack.length = depth := by
  induction h with
  | declared hm hc => exact ⟨stacked_nil p, .declared (by simp [hm]) hc, rfl⟩
  | call _ _ hc hcall ih =>
    obtain ⟨hstack, hreached, hdepth⟩ := ih
    refine ⟨hstack.push hreached hc, .call hreached hcall.calledIn, ?_⟩
    simp only [List.length_append, List.length_singleton]
    omega

/-! Why the walk stops. -/

theorem walkBody_call (p : Program) (visit : LocatedMethod → M Unit) (r : MethodRef)
    (others : List Operand)
    (hcounted : Opcode.call.arity.admits (.method r :: others).length = true) :
    walkBody p visit [⟨.call, .method r :: others, hcounted⟩] =
      (do
        let target ← resolve p r
        match target.concrete? with
        | some callee => visit callee
        | none => pure ()) := by
  simp only [walkBody]
  congr 1
  funext target
  cases target.concrete? <;> simp

theorem walkBody_cons (p : Program) (visit : LocatedMethod → M Unit) (i : Instruction)
    (rest : List Instruction) :
    walkBody p visit (i :: rest) = (do walkBody p visit [i]; walkBody p visit rest) := by
  rw [walkBody.eq_def]
  split
  · rename_i heq
    cases heq
  · rename_i r others hcounted tail heq
    obtain ⟨rfl, rfl⟩ := List.cons.inj heq
    rw [walkBody_call, bind_assoc]
    congr 1
    funext target
    cases target.concrete? <;> simp
  · rename_i ty others hcounted tail heq
    obtain ⟨rfl, rfl⟩ := List.cons.inj heq
    simp [walkBody]
  · rename_i j tail hcall hdefine heq
    obtain ⟨rfl, rfl⟩ := List.cons.inj heq
    rw [walkBody.eq_4 p visit i [] hcall hdefine]
    simp [walkBody]

/-- What following one instruction can come to: something other than a call is passed, and a call
runs `visit` on what it resolves to. -/
theorem ends_walkInstruction {visit : LocatedMethod → M Unit} {i : Instruction}
    {rest : List Instruction} {stop : Stop IrError → Prop}
    (he : ∀ r others e, i.opcode = .call → i.operands = .method r :: others →
      p.resolve r = .error e → stop (.failed e))
    (hv : ∀ callee t, BodyRuns p visit (i :: rest) g callee t →
      (visit callee).Ends t (fun _ _ => True) fun e _ => stop e) :
    (walkBody p visit [i]).Ends g (fun _ _ => True) fun e _ => stop e := by
  by_cases hcall : ∃ r others hcounted, i = ⟨.call, .method r :: others, hcounted⟩
  · obtain ⟨r, others, hcounted, rfl⟩ := hcall
    rw [walkBody_call]
    let t : CallGraph := { g with journal := g.journal.afterResolve p r }
    cases hr : p.resolve r with
    | error e =>
      have ho : (resolve p r).outcome g = (.error (.failed e), t) := by
        simp only [resolve, Walk.outcome_bind, Walk.outcome_modify, hr]
        rfl
      exact Walk.Ends.bind (Walk.Ends.error ho (he r others e rfl rfl hr))
    | ok target =>
      have ho : (resolve p r).outcome g = (.ok target, t) := by
        simp only [resolve, Walk.outcome_bind, Walk.outcome_modify, hr]
        rfl
      refine Walk.Ends.bind (Walk.Ends.ok ho ?_)
      cases hc : target.concrete? with
      | none => trivial
      | some callee => exact hv callee t (.here hr hc)
  · have hother : ∀ r others hcounted, i ≠ ⟨.call, .method r :: others, hcounted⟩ := by
      intro r others hcounted hi
      exact hcall ⟨r, others, hcounted, hi⟩
    rw [walkBody.eq_def]
    split
    · trivial
    · rename_i r others hcounted tail heq
      exact absurd (List.cons.inj heq).1 (hother r others hcounted)
    · rename_i ty others hcounted tail heq
      obtain ⟨-, rfl⟩ := List.cons.inj heq
      trivial
    · rename_i j tail _ _ heq
      obtain ⟨-, rfl⟩ := List.cons.inj heq
      trivial

theorem ends_walkBody {visit : LocatedMethod → M Unit} {body : List Instruction}
    {stop : Stop IrError → Prop}
    (he : ∀ i ∈ body, ∀ r others e, i.opcode = .call → i.operands = .method r :: others →
      p.resolve r = .error e → stop (.failed e))
    (hv : ∀ callee t, BodyRuns p visit body g callee t →
      (visit callee).Ends t (fun _ _ => True) fun e _ => stop e) :
    (walkBody p visit body).Ends g (fun _ _ => True) fun e _ => stop e := by
  induction body generalizing g with
  | nil => trivial
  | cons i rest ih =>
    have hfirst : (walkBody p visit [i]).Ends g (fun _ _ => True) fun e _ => stop e :=
      ends_walkInstruction (he i List.mem_cons_self) hv
    rw [walkBody_cons]
    refine Walk.Ends.andThen hfirst.outcome_eq fun _ t ht => ?_
    exact ih (fun j hj => he j (List.mem_cons_of_mem i hj))
      fun callee u hrun => hv callee u (.later ht hrun)

/-- Why the walk over the declared methods can stop: it has found recursion, a reference in a method
that it has reached does not resolve, or it was not allowed to go as deep as it may have to. -/
inductive Fault (p : Program) (depth : Nat) : Stop IrError → Prop
  | recursion (chain : List String) : Fault p depth (.failed (.recursiveCall chain))
  | unresolved {m : LocatedMethod} {r : MethodRef} {e : IrError} (hm : p.Reached m)
      (hr : m.method.Refers r) (he : p.resolve r = .error e) : Fault p depth (.failed e)
  | tooDeep (h : depth ≤ p.declarationCount) : Fault p depth .tooDeep

theorem Runs.ends {depth left : Nat} {stack : List LocatedMethod} {m : LocatedMethod}
    (h : Runs p depth g₀ left stack m g) :
    (visit p left stack m).Ends g (fun _ _ => True) fun e _ => Fault p depth e := by
  obtain ⟨hstack, hreached, hdepth⟩ := h.stacked
  induction left generalizing stack m g with
  | zero =>
    have hlength := hstack.length_le
    exact Walk.Ends.error rfl (.tooDeep (by omega))
  | succ left ih =>
    by_cases hdone : m.id ∈ g.done
    · exact Walk.Ends.ok (outcome_visit_done hdone) trivial
    · cases hc : cycle? stack m with
      | some chain => exact Walk.Ends.error (outcome_visit_cycle hdone hc) (.recursion chain)
      | none =>
        refine Walk.Ends.congr (outcome_visit_new hdone hc) ?_
        refine Walk.Ends.bind (Walk.Ends.ok rfl ?_)
        refine Walk.Ends.andThen (ends_walkBody ?_ fun callee t hrun => ?_) fun _ _ _ => trivial
        · intro i hi r others e ho hoperands he
          exact .unresolved hreached ⟨i, hi, ho, by rw [hoperands]; rfl⟩ he
        · have hcall := h.call hdone hc hrun
          obtain ⟨hstack', hreached', hdepth'⟩ := hcall.stacked
          exact ih hcall hstack' hreached' hdepth'

theorem outcome_visitAll_append {depth : Nat} {before : List LocatedMethod}
    (hg : (visitAll p depth before).outcome g₀ = (.ok (), g)) (ms : List LocatedMethod) :
    (visitAll p depth (before ++ ms)).outcome g₀ = (visitAll p depth ms).outcome g := by
  induction before generalizing g₀ with
  | nil =>
    cases hg
    rfl
  | cons m before ih =>
    rw [visitAll] at hg
    rw [List.cons_append, visitAll]
    by_cases hc : m.isConcrete = true
    · simp only [hc, if_true, Walk.outcome_bind] at hg ⊢
      rcases ho : (visit p depth [] m).outcome g₀ with ⟨e | u, t⟩
      · rw [ho] at hg
        cases hg
      · rw [ho] at hg
        exact ih hg
    · simp only [hc] at hg ⊢
      exact ih hg

theorem ends_visitAll {depth : Nat} {before ms : List LocatedMethod}
    (hms : p.methods = before ++ ms) (hg : (visitAll p depth before).outcome g₀ = (.ok (), g)) :
    (visitAll p depth ms).Ends g (fun _ _ => True) fun e _ => Fault p depth e := by
  induction ms generalizing before g with
  | nil => trivial
  | cons m rest ih =>
    have hsplit : p.methods = before ++ [m] ++ rest := by simp [hms]
    have hone := outcome_visitAll_append hg [m]
    rw [visitAll]
    by_cases hc : m.isConcrete = true
    · simp only [hc, if_true]
      refine Walk.Ends.andThen (Runs.declared hms hc hg).ends.outcome_eq fun _ t ht => ?_
      refine ih hsplit (hone.trans ?_)
      simp [visitAll, hc, ht]
    · simp only [hc]
      refine ih hsplit (hone.trans ?_)
      simp [visitAll, hc]

/-! A walk that was allowed to go deep enough does not depend on how deep it was allowed to go. -/

theorem outcome_walkBody_congr {visit visit' : LocatedMethod → M Unit}
    (hv : ∀ callee g, ((visit callee).outcome g).1 ≠ .error .tooDeep →
      (visit' callee).outcome g = (visit callee).outcome g)
    {body : List Instruction} (h : ((walkBody p visit body).outcome g).1 ≠ .error .tooDeep) :
    (walkBody p visit' body).outcome g = (walkBody p visit body).outcome g := by
  induction body generalizing g with
  | nil => rfl
  | cons i rest ih =>
    have hfirst : ((walkBody p visit [i]).outcome g).1 ≠ .error .tooDeep →
        (walkBody p visit' [i]).outcome g = (walkBody p visit [i]).outcome g := by
      by_cases hcall : ∃ r others hcounted, i = ⟨.call, .method r :: others, hcounted⟩
      · obtain ⟨r, others, hcounted, rfl⟩ := hcall
        simp only [walkBody_call]
        intro hone
        refine Walk.outcome_bind_congr hone (fun _ => rfl) fun target t ht => ?_
        cases hc : target.concrete? with
        | none => rfl
        | some callee =>
          simp only [hc] at ht
          exact hv callee t ht
      · intro _
        rw [walkBody.eq_def, walkBody.eq_def p visit]
        split
        · rfl
        · rename_i r others hcounted tail heq
          exact absurd ⟨r, others, hcounted, (List.cons.inj heq).1⟩ hcall
        · rename_i ty others hcounted tail heq
          obtain ⟨-, rfl⟩ := List.cons.inj heq
          rfl
        · rename_i j tail _ _ heq
          obtain ⟨-, rfl⟩ := List.cons.inj heq
          rfl
    rw [walkBody_cons] at h
    rw [walkBody_cons, walkBody_cons p visit]
    exact Walk.outcome_bind_congr h hfirst fun _ t ht => ih ht

theorem outcome_visit_succ {depth : Nat} {stack : List LocatedMethod} {m : LocatedMethod}
    (h : ((visit p depth stack m).outcome g).1 ≠ .error .tooDeep) :
    (visit p (depth + 1) stack m).outcome g = (visit p depth stack m).outcome g := by
  induction depth generalizing stack m g with
  | zero => exact absurd rfl h
  | succ depth ih =>
    by_cases hdone : m.id ∈ g.done
    · rw [outcome_visit_done hdone, outcome_visit_done hdone]
    · cases hc : cycle? stack m with
      | some chain => rw [outcome_visit_cycle hdone hc, outcome_visit_cycle hdone hc]
      | none =>
        rw [outcome_visit_new hdone hc] at h
        rw [outcome_visit_new hdone hc, outcome_visit_new hdone hc]
        refine Walk.outcome_bind_congr h (fun _ => rfl) fun _ t ht => ?_
        refine Walk.outcome_bind_congr ht ?_ fun _ _ _ => rfl
        exact outcome_walkBody_congr fun callee u hu => ih hu

theorem outcome_visitAll_succ {depth : Nat} {ms : List LocatedMethod}
    (h : ((visitAll p depth ms).outcome g).1 ≠ .error .tooDeep) :
    (visitAll p (depth + 1) ms).outcome g = (visitAll p depth ms).outcome g := by
  induction ms generalizing g with
  | nil => rfl
  | cons m rest ih =>
    rw [visitAll] at h
    rw [visitAll, visitAll]
    by_cases hc : m.isConcrete = true
    · simp only [hc, if_true] at h ⊢
      exact Walk.outcome_bind_congr h outcome_visit_succ fun _ t ht => ih ht
    · simp only [hc] at h ⊢
      exact ih h

end CallGraph

namespace Program

open CallGraph (Fault Runs cycle?)

variable {p : Program} {depth : Nat} {j : Journal}

theorem callPhase_fault {e : Stop IrError} (h : (p.callPhase depth j).1 = .error e) :
    Fault p depth e :=
  Walk.Ends.of_error (CallGraph.ends_visitAll (List.nil_append p.methods).symm rfl) h

theorem callPhase_ne_tooDeep (hdepth : p.declarationCount < depth) (j : Journal) :
    (p.callPhase depth j).1 ≠ .error .tooDeep := by
  intro h
  cases callPhase_fault h with
  | tooDeep hle => omega

/-- The check of the calls comes to the same end for all depths above the number of declared
methods, and it is not that it has gone too deep. At no time are there more methods on its stack
than methods are declared. -/
theorem callPhase_stack_bounded (p : Program) (j : Journal) :
    (∃ r, r.1 ≠ .error .tooDeep ∧ ∀ depth, p.declarationCount < depth → p.callPhase depth j = r) ∧
      ∀ depth left stack m g, Runs p depth { journal := j } left stack m g →
        stack.length ≤ p.declarationCount ∧
        (m.id ∉ g.done → cycle? stack m = none →
          (stack ++ [m]).length ≤ p.declarationCount) := by
  constructor
  · refine ⟨p.callPhase (p.declarationCount + 1) j, callPhase_ne_tooDeep (Nat.lt_succ_self _) j, ?_⟩
    intro depth hdepth
    induction depth, hdepth using Nat.le_induction with
    | base => rfl
    | succ depth hdepth ih =>
      rw [← ih]
      exact CallGraph.outcome_visitAll_succ (callPhase_ne_tooDeep hdepth j)
  · intro depth left stack m g hrun
    obtain ⟨hstack, hreached, _⟩ := hrun.stacked
    exact ⟨hstack.length_le, fun _ hc => (hstack.push hreached hc).length_le⟩

namespace Winding

def shader : Ty := .named "Shader" []

def unit : Ty := .named "Unit" []

def box (ty : Ty) : Ty := .named "Box" [ty]

def cell (ty : Ty) : Ty := .named "Cell" [ty]

def parameter : GenericParam := ⟨"T", []⟩

/-- A generic method that calls a method of a larger type. -/
def grow : Method where
  owner := shader
  name := "grow"
  attributes := [.static]
  genericParameters := [parameter]
  body := [.mk .call [.method ⟨cell (box parameter.ty), 0, "turn", []⟩, .void]]

/-- A method of a generic type that calls a larger instance of the generic method. -/
def turn : Method where
  owner := cell parameter.ty
  name := "turn"
  attributes := [.static]
  body := [.mk .call [.method ⟨shader, 0, "grow", [box parameter.ty]⟩, .void]]

def main : Method where
  owner := shader
  name := "main"
  attributes := [.static]
  body := [.mk .call [.method ⟨shader, 0, "grow", [unit]⟩, .void]]

/-- A program in which two generic declarations call ever larger instances of each other. -/
def program : Program where
  name := "winding"
  types :=
    [{ fullName := "Unit" }, { fullName := "Box", genericParameters := [parameter] },
      { fullName := "Cell", genericParameters := [parameter], methods := [turn] },
      { fullName := "Shader", methods := [grow, main] }]

/-- The walk comes to a call below one method of each declaration. -/
theorem runs_full : ∃ left stack m g, Runs program 4 { journal := {} } left stack m g ∧
    stack.length = 3 := by
  have hsplit : program.methods =
      program.methods.take 2 ++ [⟨⟨⟨[], "Shader"⟩, 1, none, none⟩, main⟩] := rfl
  have hmain : Runs program 4 { journal := {} } 4 [] _ _ := .declared hsplit rfl rfl
  have hgrow := hmain.call (by decide) rfl (.here rfl rfl)
  have hturn := hgrow.call (by decide) rfl (.here rfl rfl)
  have hlast := hturn.call (by decide) rfl (.here rfl rfl)
  exact ⟨_, _, _, _, hlast, rfl⟩

end Winding

theorem callPhase_stack_bounded_winding :
    Winding.program.declarationCount = 3 ∧ ∀ depth, 3 < depth →
      (Winding.program.callPhase depth {}).1 = .error (.failed (.recursiveCall
        ["Shader::grow", "Cell<Box<Unit>>::turn", "Shader::grow"])) := by
  obtain ⟨⟨r, _, hr⟩, hstack⟩ := callPhase_stack_bounded Winding.program {}
  obtain ⟨left, stack, m, g, hrun, hlength⟩ := Winding.runs_full
  have hle : Winding.program.declarationCount ≤ 3 := declarationCount_le Winding.program
  have hge : 3 ≤ Winding.program.declarationCount := hlength ▸ (hstack 4 left stack m g hrun).1
  refine ⟨by omega, fun depth hdepth => ?_⟩
  rw [hr depth (by omega), ← hr 4 (by omega)]
  decide +kernel

end Program

end ShaderIR
