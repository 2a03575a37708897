import ShaderIR.Proofs.DeclarationParts
import ShaderIR.Proofs.OnceMap

/-! Instances of a declaration that is still being put together. A declaration keeps the instances
that it has made in a construct-once table, which only a new generic parameter clears. So an
instance that is asked for again shows the declaration as it stood when it was made, without the
attributes, fields and methods that were added since. -/

namespace ShaderIR.TypeDecl

/-- Why a request is refused before the table is asked. -/
def refusal? (d : TypeDecl) (arguments : List Ty) : Option IrError :=
  if !d.isGeneric && !arguments.isEmpty then some (.typeNotGeneric d.fullName)
  else if arguments.length != d.genericParameters.length then
    some (.arityMismatch d.fullName d.genericParameters.length arguments.length)
  else none

section

variable {d d' : TypeDecl} {arguments : List Ty} {e : IrError}

theorem instantiate_of_refusal? (h : d.refusal? arguments = some e) :
    d.instantiate arguments = .error e := by
  unfold refusal? at h
  unfold instantiate
  split at h
  · rename_i hplain
    cases h
    rw [if_pos hplain]
  split at h
  · rename_i hplain hlength
    cases h
    rw [if_neg hplain, if_pos hlength]
  · cases h

/-- Whether and how construction fails is settled by the name and the generic parameters. -/
theorem instantiate_eq_error_iff (hname : d.fullName = d'.fullName)
    (hparameters : d.genericParameters = d'.genericParameters) :
    d.instantiate arguments = .error e ↔ d'.instantiate arguments = .error e := by
  unfold instantiate isGeneric
  rw [hname, hparameters]
  split
  · rfl
  split
  · rfl
  split
  · rfl
  rename_i s hs
  by_cases hempty : s.isEmpty = true <;> simp [hempty]

end

/-- Every attribute, field and method shows in the instances: parts that leave an instance as it is
are generic parameters. -/
theorem InstanceOfParts.eq_nil_of_append {name : String} {before added : List Part}
    {arguments : List Ty} {i : TypeInstance} (h : InstanceOfParts name before arguments i)
    (h' : InstanceOfParts name (before ++ added) arguments i)
    (hparameters : added.filterMap Part.param? = []) : added = [] := by
  have hattributes : added.filterMap Part.attr? = [] := by
    simpa using congrArg List.length (h.attributes.symm.trans h'.attributes)
  have hfields : added.filterMap Part.field? = [] := by
    simpa using congrArg List.length (h.fields.symm.trans h'.fields)
  have hmethods : added.filterMap Part.method? = [] := by
    simpa using congrArg List.length (h.methods.symm.trans h'.methods)
  rw [List.eq_nil_iff_forall_not_mem]
  intro part hpart
  cases part with
  | param p => cases List.filterMap_eq_nil_iff.mp hparameters _ hpart
  | attr a => cases List.filterMap_eq_nil_iff.mp hattributes _ hpart
  | field n ty => cases List.filterMap_eq_nil_iff.mp hfields _ hpart
  | method m => cases List.filterMap_eq_nil_iff.mp hmethods _ hpart

/-- A declaration that is being put together, with the instances that it has made. -/
structure Draft where
  decl : TypeDecl
  instances : OnceMap (List Ty) TypeInstance := .empty

namespace Draft

def start (name : String) : Draft :=
  { decl := { fullName := name } }

/-- Adds a part. The instances are dropped for a generic parameter only. -/
def add (d : Draft) (part : Part) : Draft :=
  { decl := d.decl.add part
    instances := if part.param?.isSome then .empty else d.instances }

/-- One request for an instance. -/
def request (d : Draft) (arguments : List Ty) : Except IrError TypeInstance × Draft :=
  match d.decl.refusal? arguments with
  | some e => (.error e, d)
  | none =>
    match d.instances.claim arguments with
    | .found i => (.ok i, d)
    | .reentrant => (.error .cyclicConstruction, d)
    | .granted claimed =>
      match d.decl.instantiate arguments with
      | .error e =>
        let failed : OnceMap.Outcome IrError TypeInstance := .failed e
        (.error e, { d with instances := claimed.settle arguments failed })
      | .ok i =>
        let finished : OnceMap.Outcome IrError TypeInstance := .ok i
        (.ok i, { d with instances := claimed.settle arguments finished })

/-- What is done with a draft. -/
inductive Step where
  | add (part : Part)
  | ask (arguments : List Ty)
deriving DecidableEq

def Step.part? : Step → Option Part
  | .add part => some part
  | .ask _ => none

def step (d : Draft) : Step → Draft
  | .add part => d.add part
  | .ask arguments => (d.request arguments).2

/-- The draft after some steps, the latest first. -/
def run (name : String) : List Step → Draft
  | [] => start name
  | step :: earlier => (run name earlier).step step

/-- The parts that the steps have added, in the order of adding. -/
def parts (steps : List Step) : List Part :=
  (steps.filterMap Step.part?).reverse

/-- The same parts are added, and no instance is asked for. -/
def unasked (steps : List Step) : List Step :=
  steps.filter fun step => step.part?.isSome

/-- The steps before the first request for the arguments since the last generic parameter. -/
def origin? (arguments : List Ty) : List Step → Option (List Step)
  | [] => none
  | .add part :: earlier => if part.param?.isSome then none else origin? arguments earlier
  | .ask other :: earlier =>
    (origin? arguments earlier).or (if other = arguments then some earlier else none)

/-- The steps that an answer shows: those before the first request, or all if there was none. -/
def basis (arguments : List Ty) (steps : List Step) : List Step :=
  (origin? arguments steps).getD steps

/-- Since the last generic parameter, no part was added after a request for the arguments. -/
def Current (steps : List Step) (arguments : List Ty) : Prop :=
  ∀ after before, steps = after ++ .ask arguments :: before → (∀ p, .add (.param p) ∉ after) →
    ∀ part, .add part ∉ after

section

variable {name : String} {steps : List Step} {arguments : List Ty}

@[simp]
theorem parts_add (part : Part) (steps : List Step) :
    parts (.add part :: steps) = parts steps ++ [part] := by
  simp [parts, Step.part?]

@[simp]
theorem parts_ask (arguments : List Ty) (steps : List Step) :
    parts (.ask arguments :: steps) = parts steps := by
  simp [parts, List.filterMap_cons, Step.part?]

theorem parts_append (later earlier : List Step) :
    parts (later ++ earlier) = parts earlier ++ parts later := by
  simp [parts]

theorem mem_parts {part : Part} : part ∈ parts steps ↔ .add part ∈ steps := by
  rw [parts, List.mem_reverse, List.mem_filterMap]
  constructor
  · rintro ⟨step, hstep, hpart⟩
    cases step with
    | add other =>
      cases hpart
      exact hstep
    | ask => cases hpart
  · exact fun h => ⟨_, h, rfl⟩

theorem parts_unasked (steps : List Step) : parts (unasked steps) = parts steps := by
  rw [parts, unasked, List.filterMap_filter, parts]
  congr 2
  funext step
  cases step <;> rfl

/-! The first request of an epoch. -/

theorem split_of_origin? {before : List Step} (h : origin? arguments steps = some before) :
    ∃ after, steps = after ++ .ask arguments :: before ∧ ∀ p, .add (.param p) ∉ after := by
  induction steps with
  | nil => cases h
  | cons step earlier ih =>
    cases step with
    | add part =>
      rw [origin?, Option.ite_none_left_eq_some] at h
      obtain ⟨hpart, h⟩ := h
      obtain ⟨after, rfl, hafter⟩ := ih h
      refine ⟨.add part :: after, rfl, fun p hp => ?_⟩
      rcases List.mem_cons.mp hp with he | hp
      · cases he
        simp at hpart
      · exact hafter p hp
    | ask other =>
      rw [origin?, Option.or_eq_some_iff] at h
      rcases h with h | ⟨_, h⟩
      · obtain ⟨after, rfl, hafter⟩ := ih h
        exact ⟨.ask other :: after, rfl, fun p => by simpa using hafter p⟩
      · rw [Option.ite_none_right_eq_some] at h
        obtain ⟨rfl, h⟩ := h
        cases h
        exact ⟨[], rfl, by simp⟩

/-- Any request since the last generic parameter comes with a first one, before it or itself. -/
theorem origin?_of_split {after : List Step} (before : List Step)
    (hafter : ∀ p, .add (.param p) ∉ after) :
    ∃ first more, origin? arguments (after ++ .ask arguments :: before) = some first ∧
      before = more ++ first := by
  induction after with
  | nil =>
    -- the request is the first itself, unless there is one before it
    cases horigin : origin? arguments before with
    | none => exact ⟨before, [], by simp [origin?, horigin], rfl⟩
    | some first =>
      obtain ⟨middle, hbefore, _⟩ := split_of_origin? horigin
      exact ⟨first, middle ++ [.ask arguments], by simp [origin?, horigin], by simp [hbefore]⟩
  | cons step after ih =>
    obtain ⟨first, more, horigin, hbefore⟩ := ih fun p hp => hafter p (List.mem_cons_of_mem _ hp)
    refine ⟨first, more, ?_, hbefore⟩
    cases step with
    | add part =>
      have hpart : part.param?.isSome = false := by
        cases part with
        | param p => exact absurd List.mem_cons_self (hafter p)
        | _ => rfl
      rw [List.cons_append, origin?, if_neg (Bool.eq_false_iff.mp hpart), horigin]
    | ask other => rw [List.cons_append, origin?, horigin, Option.some_or]

theorem origin?_unasked (steps : List Step) : origin? arguments (unasked steps) = none := by
  cases horigin : origin? arguments (unasked steps) with
  | none => rfl
  | some first =>
    obtain ⟨after, hsteps, _⟩ := split_of_origin? horigin
    have hask : .ask arguments ∈ unasked steps := by simp [hsteps]
    cases (List.mem_filter.mp hask).2

theorem basis_of_some {first : List Step} (h : origin? arguments steps = some first) :
    basis arguments steps = first := by
  rw [basis, h, Option.getD_some]

theorem basis_of_none (h : origin? arguments steps = none) : basis arguments steps = steps := by
  rw [basis, h, Option.getD_none]

/-- Since the first request the declaration has grown at its end, and not by generic parameters. -/
theorem parts_basis (arguments : List Ty) (steps : List Step) :
    ∃ added, parts steps = parts (basis arguments steps) ++ added ∧
      added.filterMap Part.param? = [] := by
  cases horigin : origin? arguments steps with
  | none => exact ⟨[], by rw [basis_of_none horigin, List.append_nil], rfl⟩
  | some first =>
    obtain ⟨after, hsteps, hafter⟩ := split_of_origin? horigin
    refine ⟨parts after, ?_, ?_⟩
    · rw [basis_of_some horigin, hsteps, parts_append, parts_ask]
    · rw [List.filterMap_eq_nil_iff]
      intro part hpart
      cases part with
      | param p => exact absurd (mem_parts.mp hpart) (hafter p)
      | _ => rfl

theorem current_iff :
    Current steps arguments ↔ parts (basis arguments steps) = parts steps := by
  constructor
  · intro hcurrent
    cases horigin : origin? arguments steps with
    | none => rw [basis_of_none horigin]
    | some first =>
      obtain ⟨after, hsteps, hafter⟩ := split_of_origin? horigin
      have hnone : parts after = [] := List.eq_nil_iff_forall_not_mem.mpr fun part hpart =>
        hcurrent after first hsteps hafter part (mem_parts.mp hpart)
      rw [basis_of_some horigin, hsteps, parts_append, parts_ask, hnone, List.append_nil]
  · rintro hparts after before rfl hafter part hpart
    obtain ⟨first, more, horigin, rfl⟩ := origin?_of_split before hafter
    have hnone : parts after = [] := by
      rw [basis_of_some horigin, parts_append, parts_ask, parts_append, List.append_assoc,
        List.self_eq_append_right, List.append_eq_nil_iff] at hparts
      exact hparts.2
    have hmem := mem_parts.mpr hpart
    simp [hnone] at hmem

instance : Decidable (Current steps arguments) :=
  decidable_of_iff _ current_iff.symm

/-- The declaration that an answer shows fails just when the present one does. -/
theorem instantiate_basis_eq_error_iff {e : IrError} :
    (assemble name (parts (basis arguments steps))).instantiate arguments = .error e ↔
      (assemble name (parts steps)).instantiate arguments = .error e := by
  obtain ⟨added, hparts, hadded⟩ := parts_basis arguments steps
  rw [hparts, assemble_eq_ofParts, assemble_eq_ofParts]
  refine instantiate_eq_error_iff rfl ?_
  simp [ofParts, hadded]

/-- It has the same instance only if nothing was added since. -/
theorem current_of_instantiate {i : TypeInstance}
    (hbasis : (assemble name (parts (basis arguments steps))).instantiate arguments = .ok i)
    (hnow : (assemble name (parts steps)).instantiate arguments = .ok i) :
    Current steps arguments := by
  obtain ⟨added, hparts, hadded⟩ := parts_basis arguments steps
  rw [hparts] at hnow
  have hnone := (instanceOfParts_of_instantiate hbasis).eq_nil_of_append
    (instanceOfParts_of_instantiate hnow) hadded
  rw [current_iff, hparts, hnone, List.append_nil]

/-! What a draft remembers. -/

/-- The table holds the instances that the first requests of this epoch have made. -/
structure Remembers (name : String) (steps : List Step) (d : Draft) : Prop where
  decl : d.decl = assemble name (parts steps)
  settled : ∀ as c, d.instances.cell? as = some c → ∃ i, c = .ready i
  made : ∀ as, d.instances.get? as = (origin? as steps).bind fun first =>
    ((assemble name (parts first)).instantiate as).toOption

namespace Remembers

variable {d : Draft} (h : Remembers name steps d)

include h

theorem add (part : Part) : Remembers name (.add part :: steps) (d.add part) where
  decl := by
    rw [Draft.add, h.decl, parts_add, assemble, assemble, List.foldl_append]
    rfl
  settled := by
    rw [Draft.add]
    split
    · simp
    · exact h.settled
  made as := by
    rw [Draft.add, origin?]
    split
    · simp
    · exact h.made as

/-- A request that finds its instance, or that fails, changes nothing. -/
theorem ask (hknown : origin? arguments steps = none →
      ∃ e, (assemble name (parts steps)).instantiate arguments = .error e) :
    Remembers name (.ask arguments :: steps) d where
  decl := h.decl
  settled := h.settled
  made as := by
    rw [h.made, origin?]
    cases horigin : origin? as steps with
    | some first => rfl
    | none =>
      by_cases has : arguments = as
      · -- from now on this request is the first, and it has left nothing in the table
        subst has
        obtain ⟨e, he⟩ := hknown horigin
        simp [he, Except.toOption]
      · simp [has]

/-- A new instance is remembered as the declaration stands. -/
theorem ask_new {i : TypeInstance} {instances : OnceMap (List Ty) TypeInstance}
    (horigin : origin? arguments steps = none)
    (hi : (assemble name (parts steps)).instantiate arguments = .ok i)
    (hcell : ∀ as, instances.cell? as =
      if as = arguments then some (.ready i) else d.instances.cell? as) :
    Remembers name (.ask arguments :: steps) ⟨d.decl, instances⟩ where
  decl := h.decl
  settled as c hc := by
    rw [hcell] at hc
    split at hc
    · cases hc
      exact ⟨i, rfl⟩
    · exact h.settled as c hc
  made as := by
    rw [OnceMap.get?, hcell, origin?]
    by_cases has : as = arguments
    · subst has
      simp [horigin, hi, Except.toOption]
    · rw [if_neg has, if_neg (Ne.symm has), Option.or_none]
      exact h.made as

/-- What is not in the table was not asked for, or cannot be made. -/
theorem unmade (hnone : d.instances.get? arguments = none) {i : TypeInstance}
    (hi : (assemble name (parts steps)).instantiate arguments = .ok i) :
    origin? arguments steps = none := by
  cases horigin : origin? arguments steps with
  | none => rfl
  | some first =>
    rw [h.made, horigin, Option.bind_some] at hnone
    cases hfirst : (assemble name (parts first)).instantiate arguments with
    | ok j => simp [hfirst, Except.toOption] at hnone
    | error e =>
      rw [← basis_of_some horigin] at hfirst
      rw [instantiate_basis_eq_error_iff.mp hfirst] at hi
      cases hi

/-- What a request can do: find the instance, fail and leave the draft alone, or make the instance
and keep it. -/
theorem request_cases (arguments : List Ty) :
    (∃ i, d.instances.get? arguments = some i ∧ d.request arguments = (.ok i, d)) ∨
    (∃ e, (assemble name (parts steps)).instantiate arguments = .error e ∧
      d.request arguments = (.error e, d)) ∨
    ∃ i instances, d.instances.get? arguments = none ∧
      (assemble name (parts steps)).instantiate arguments = .ok i ∧
      (∀ as, instances.cell? as =
        if as = arguments then some (.ready i) else d.instances.cell? as) ∧
      d.request arguments = (.ok i, ⟨d.decl, instances⟩) := by
  rw [← h.decl]
  unfold Draft.request
  cases hrefusal : d.decl.refusal? arguments with
  | some e => exact .inr (.inl ⟨e, instantiate_of_refusal? hrefusal, rfl⟩)
  | none =>
    rcases OnceMap.claim_of_settled h.settled arguments with ⟨i, hi, hclaim⟩ |
      ⟨hnone, hcell, hclaim⟩
    · rw [hclaim]
      exact .inl ⟨i, hi, rfl⟩
    · rw [hclaim]
      cases hmade : d.decl.instantiate arguments with
      | error e =>
        refine .inr (.inl ⟨e, rfl, ?_⟩)
        simp only [OnceMap.settle, OnceMap.erase_set hcell]
      | ok i =>
        refine .inr (.inr ⟨i, _, hnone, rfl, fun as => ?_, rfl⟩)
        by_cases has : as = arguments <;> simp [OnceMap.settle, has]

/-- What is in the table was asked for, and made then. -/
theorem exists_origin? {i : TypeInstance} (hi : d.instances.get? arguments = some i) :
    ∃ first, origin? arguments steps = some first ∧
      (assemble name (parts first)).instantiate arguments = .ok i := by
  rw [h.made] at hi
  obtain ⟨first, horigin, hi⟩ := Option.bind_eq_some_iff.mp hi
  refine ⟨first, horigin, ?_⟩
  cases hfirst : (assemble name (parts first)).instantiate arguments with
  | ok j =>
    rw [hfirst] at hi
    exact congrArg Except.ok (Option.some.inj hi)
  | error e =>
    rw [hfirst] at hi
    cases hi

/-- A request is answered by the declaration as it stood at the first one, and remembered. -/
theorem request (arguments : List Ty) :
    (d.request arguments).1 =
      (assemble name (parts (basis arguments steps))).instantiate arguments ∧
    Remembers name (.ask arguments :: steps) (d.request arguments).2 := by
  rcases h.request_cases arguments with ⟨i, hi, hrequest⟩ | ⟨e, he, hrequest⟩ |
    ⟨i, instances, hnone, hi, hcell, hrequest⟩
  · obtain ⟨first, horigin, hfirst⟩ := h.exists_origin? hi
    rw [hrequest, basis_of_some horigin, hfirst]
    exact ⟨rfl, h.ask (by simp [horigin])⟩
  · rw [hrequest]
    exact ⟨(instantiate_basis_eq_error_iff.mpr he).symm, h.ask fun _ => ⟨e, he⟩⟩
  · have horigin := h.unmade hnone hi
    rw [hrequest, basis_of_none horigin, hi]
    exact ⟨rfl, h.ask_new horigin hi hcell⟩

end Remembers

theorem remembers_run (name : String) (steps : List Step) :
    Remembers name steps (run name steps) := by
  induction steps with
  | nil => exact ⟨rfl, by simp [run, start], by simp [run, start, origin?]⟩
  | cons step earlier ih =>
    cases step with
    | add part => exact ih.add part
    | ask arguments => exact (ih.request arguments).2

theorem request_run (name : String) (steps : List Step) (arguments : List Ty) :
    ((run name steps).request arguments).1 =
      (assemble name (parts (basis arguments steps))).instantiate arguments :=
  ((remembers_run name steps).request arguments).1

theorem request_run_unasked (name : String) (steps : List Step) (arguments : List Ty) :
    ((run name (unasked steps)).request arguments).1 =
      (assemble name (parts steps)).instantiate arguments := by
  rw [request_run, basis_of_none (origin?_unasked steps), parts_unasked]

end

/-- A request is answered as if none had been made before just when it fails, or nothing was added
since the same arguments were asked for. The answer then has the parts of the declaration as it
stands, and else those it had at the first request since the last generic parameter. Whether a
request fails does not depend on earlier ones. -/
theorem request_run_eq_iff_current (name : String) (steps : List Step) (arguments : List Ty) :
    (run name steps).decl = assemble name (parts steps) ∧
    (∀ i, ((run name (unasked steps)).request arguments).1 = .ok i ↔
      InstanceOfParts name (parts steps) arguments i) ∧
    (∀ i, ((run name steps).request arguments).1 = .ok i ↔
      InstanceOfParts name (parts (basis arguments steps)) arguments i) ∧
    (∀ e, ((run name steps).request arguments).1 = .error e ↔
      ((run name (unasked steps)).request arguments).1 = .error e) ∧
    (((run name steps).request arguments).1 = ((run name (unasked steps)).request arguments).1 ↔
      (∃ e, ((run name (unasked steps)).request arguments).1 = .error e) ∨
        Current steps arguments) := by
  rw [request_run_unasked, request_run]
  refine ⟨(remembers_run name steps).decl, fun i => instantiate_assemble_eq_ok_iff,
    fun i => instantiate_assemble_eq_ok_iff, fun e => instantiate_basis_eq_error_iff,
    fun hsame => ?_, ?_⟩
  · cases hnow : (assemble name (parts steps)).instantiate arguments with
    | error e => exact .inl ⟨e, rfl⟩
    | ok i => exact .inr (current_of_instantiate (hsame.trans hnow) hnow)
  · rintro (⟨e, he⟩ | hcurrent)
    · rw [he, instantiate_basis_eq_error_iff.mpr he]
    · rw [current_iff.mp hcurrent]

namespace Early

def int : Ty := .named "Int" []
def held : Ty := .param "T" []

/-- The instance for numbers is asked for between the generic parameter and the other parts. -/
def box : List Step :=
  [.add (.method { owner := .named "Box" [], name := "get", returnType := some held }),
    .add (.attr (.custom "holds" [held])), .add (.field "value" held), .ask [int],
    .add (.param ⟨"T", []⟩)]

/-- The first request comes one generic parameter too early and fails; the field is added after both
parameters and before the second request. -/
def pair : List Step :=
  [.ask [int, int], .add (.field "first" held), .add (.param ⟨"U", []⟩), .ask [int, int],
    .add (.param ⟨"T", []⟩)]

end Early

/-- The instance stays without the attribute, the field and the method that the declaration has. -/
theorem request_run_outdated :
    ¬Current Early.box [Early.int] ∧
    ∃ i fresh, ((run "Box" Early.box).request [Early.int]).1 = .ok i ∧
      ((run "Box" (unasked Early.box)).request [Early.int]).1 = .ok fresh ∧
      (i.attributes, i.fields, i.methods) = ([], [], []) ∧
      fresh.attributes = [.custom "holds" [Early.int]] ∧
      fresh.fields = [⟨"value", Early.int⟩] ∧
      fresh.methods.map Method.returnType = [some Early.int] :=
  ⟨by decide, _, _, rfl, rfl, rfl, rfl, rfl, rfl⟩

theorem request_run_eq_iff_current_pair :
    Current Early.pair [Early.int, Early.int] ∧
    ((run "Pair" Early.pair).request [Early.int, Early.int]).1 =
      ((run "Pair" (unasked Early.pair)).request [Early.int, Early.int]).1 ∧
    ∃ i, ((run "Pair" Early.pair).request [Early.int, Early.int]).1 = .ok i ∧
      i.fields = [⟨"first", Early.int⟩] := by
  have hcurrent : Current Early.pair [Early.int, Early.int] := by decide
  obtain ⟨_, _, _, _, hiff⟩ := request_run_eq_iff_current "Pair" Early.pair [Early.int, Early.int]
  have hsame := hiff.mpr (.inr hcurrent)
  exact ⟨hcurrent, hsame, _, hsame.trans rfl, rfl⟩

end Draft

end ShaderIR.TypeDecl
