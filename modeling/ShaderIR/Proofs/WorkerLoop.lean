import Mathlib.Data.List.Perm.Lattice
import Mathlib.Data.List.Range
import Mathlib.Logic.Function.Basic
import Mathlib.Logic.Relation
import ShaderIR.Proofs.IdentityPass
import ShaderIR.Proofs.Outcome

/-! Compiling the methods of a module with several workers. The workers take positions of the
method list from one counter, and the first of them to fail stops the others by moving the counter
to the end of the list. Whatever the order of their steps, the crew reports what compiling the
methods one after the other reports: the positions taken so far are those below some bound, so a
failure is recorded only when all the earlier methods have been taken as well. -/

namespace ShaderIR.Lowering

/-- Where a worker stands in its loop. -/
inductive Worker where
  /-- About to take a position from the counter. -/
  | free
  | building (index : Nat)
  /-- The method has failed, and the failure is not recorded yet. -/
  | failing (index : Nat) (error : LoweringError)
  /-- The failure is recorded, and the counter does not say so yet. -/
  | stopping
  | done
deriving DecidableEq

/-- The workers with what they share. -/
structure Crew (k : Nat) where
  counter : Nat := 0
  failure : Option (Nat × LoweringError) := none
  worker : Fin k → Worker := fun _ => .free
  /-- The methods that have been tried, each with the worker that tried it. -/
  built : List (Fin k × Nat) := []

namespace Crew

variable {k : Nat} {methods : List LocatedMethod}
  {build : LocatedMethod → Except LoweringError Unit}

def goto (s : Crew k) (w : Fin k) (place : Worker) : Crew k :=
  { s with worker := Function.update s.worker w place }

@[simp, grind =] theorem goto_counter (s : Crew k) (w : Fin k) (place : Worker) :
    (s.goto w place).counter = s.counter := rfl

@[simp, grind =] theorem goto_failure (s : Crew k) (w : Fin k) (place : Worker) :
    (s.goto w place).failure = s.failure := rfl

@[simp, grind =] theorem goto_built (s : Crew k) (w : Fin k) (place : Worker) :
    (s.goto w place).built = s.built := rfl

@[grind =] theorem goto_worker (s : Crew k) (w v : Fin k) (place : Worker) :
    (s.goto w place).worker v = if v = w then place else s.worker v := by
  simp [goto, Function.update_apply]

/-- The recorded failure after another one: that of the earlier method. -/
def firstFailure (index : Nat) (error : LoweringError) :
    Option (Nat × LoweringError) → Option (Nat × LoweringError)
  | none => some (index, error)
  | some (first, earlier) => if index < first then some (index, error) else some (first, earlier)

/-- What the worker does when its turn comes. -/
def advance (methods : List LocatedMethod) (build : LocatedMethod → Except LoweringError Unit)
    (s : Crew k) (w : Fin k) : Crew k :=
  match s.worker w with
  | .free =>
    if s.counter < methods.length then
      { s.goto w (.building s.counter) with counter := s.counter + 1 }
    else { s.goto w .done with counter := s.counter + 1 }
  | .building i =>
    match methods[i]?.map build with
    | some (.ok ()) => { s.goto w .free with built := (w, i) :: s.built }
    | some (.error e) => { s.goto w (.failing i e) with built := (w, i) :: s.built }
    | none => s
  | .failing i e => { s.goto w .stopping with failure := firstFailure i e s.failure }
  | .stopping => { s.goto w .done with counter := methods.length }
  | .done => s

/-- The crew after the turns of the schedule, from the start. -/
def run (methods : List LocatedMethod) (build : LocatedMethod → Except LoweringError Unit)
    (schedule : List (Fin k)) : Crew k :=
  schedule.foldl (advance methods build) {}

def Finished (s : Crew k) : Prop :=
  ∀ w, s.worker w = .done

def result (s : Crew k) : Except LoweringError Unit :=
  match s.failure with
  | some (_, e) => .error e
  | none => .ok ()

/-- The turns that change the crew. -/
inductive Step (methods : List LocatedMethod) (build : LocatedMethod → Except LoweringError Unit) :
    Crew k → Crew k → Prop
  | take {s : Crew k} {w : Fin k} (hw : s.worker w = .free) (hn : s.counter < methods.length) :
      Step methods build s
        { s.goto w (.building s.counter) with counter := s.counter + 1 }
  | leave {s : Crew k} {w : Fin k} (hw : s.worker w = .free) (hn : methods.length ≤ s.counter) :
      Step methods build s { s.goto w .done with counter := s.counter + 1 }
  | succeed {s : Crew k} {w : Fin k} {i : Nat} {m : LocatedMethod}
      (hw : s.worker w = .building i) (hm : methods[i]? = some m) (hb : build m = .ok ()) :
      Step methods build s { s.goto w .free with built := (w, i) :: s.built }
  | fail {s : Crew k} {w : Fin k} {i : Nat} {m : LocatedMethod} {e : LoweringError}
      (hw : s.worker w = .building i) (hm : methods[i]? = some m) (hb : build m = .error e) :
      Step methods build s { s.goto w (.failing i e) with built := (w, i) :: s.built }
  | record {s : Crew k} {w : Fin k} {i : Nat} {e : LoweringError}
      (hw : s.worker w = .failing i e) :
      Step methods build s { s.goto w .stopping with failure := firstFailure i e s.failure }
  | stop {s : Crew k} {w : Fin k} (hw : s.worker w = .stopping) :
      Step methods build s { s.goto w .done with counter := methods.length }

theorem advance_cases (s : Crew k) (w : Fin k) :
    advance methods build s w = s ∨ Step methods build s (advance methods build s w) := by
  unfold advance
  cases hw : s.worker w with
  | free =>
    by_cases hn : s.counter < methods.length
    · simp only [hn, if_true]
      exact .inr (.take hw hn)
    · simp only [hn, if_false]
      exact .inr (.leave hw (by omega))
  | building i =>
    cases hm : methods[i]? with
    | none => exact .inl (by simp only [hm, Option.map_none])
    | some m =>
      cases hb : build m with
      | ok _ =>
        simp only [hm, Option.map_some, hb]
        exact .inr (.succeed hw hm hb)
      | error e =>
        simp only [hm, Option.map_some, hb]
        exact .inr (.fail hw hm hb)
  | failing i e => exact .inr (.record hw)
  | stopping => exact .inr (.stop hw)
  | done => exact .inl rfl

/-- The method at this position fails with the error. -/
def FailsAt (methods : List LocatedMethod) (build : LocatedMethod → Except LoweringError Unit)
    (i : Nat) (e : LoweringError) : Prop :=
  ∃ m, methods[i]? = some m ∧ build m = .error e

/-- The positions taken so far are those below `bound`, and each is being built by one worker or
has been built by one. -/
structure Shares (s : Crew k) (bound : Nat) : Prop where
  taken : ∀ i < bound, (∃ w, s.worker w = .building i) ∨ i ∈ s.built.map Prod.snd
  lt_of_building : ∀ w i, s.worker w = .building i → i < bound
  lt_of_built : ∀ i ∈ s.built.map Prod.snd, i < bound
  not_built : ∀ w i, s.worker w = .building i → i ∉ s.built.map Prod.snd
  alone : ∀ w v i, s.worker w = .building i → s.worker v = .building i → w = v
  nodup : (s.built.map Prod.snd).Nodup

/-- Every method that has failed is recorded, unless an earlier one is or the worker that tried
it is about to record it. -/
structure Reports (methods : List LocatedMethod)
    (build : LocatedMethod → Except LoweringError Unit) (s : Crew k) (bound : Nat) : Prop where
  failing : ∀ w i e, s.worker w = .failing i e → i < bound ∧ FailsAt methods build i e
  recorded : ∀ i e, s.failure = some (i, e) → i < bound ∧ FailsAt methods build i e
  reported : ∀ i e, i ∈ s.built.map Prod.snd → FailsAt methods build i e →
    (∃ w e', s.worker w = .failing i e') ∨ ∃ j e', s.failure = some (j, e') ∧ j ≤ i

/-- The counter is the bound of the positions taken, until it reaches the end of the list; and it
gets there early only after a failure. -/
structure Counts (methods : List LocatedMethod) (s : Crew k) (bound : Nat) : Prop where
  bound_le : bound ≤ methods.length
  eq_of_lt : s.counter < methods.length → bound = s.counter
  complete : methods.length ≤ s.counter → bound = methods.length ∨ s.failure.isSome
  stopping : ∀ w, s.worker w = .stopping → s.failure.isSome
  done : ∀ w, s.worker w = .done → methods.length ≤ s.counter

theorem Shares.congr {s t : Crew k} {bound : Nat} (h : s.Shares bound)
    (hworker : ∀ w i, t.worker w = .building i ↔ s.worker w = .building i)
    (hbuilt : t.built = s.built) : t.Shares bound := by
  obtain ⟨htaken, hlt, hlt', hnot, halone, hnodup⟩ := h
  constructor <;> simp only [hworker, hbuilt] <;> assumption

theorem Shares.take {s : Crew k} {w : Fin k} (h : s.Shares s.counter)
    (hw : s.worker w = .free) :
    Shares { s.goto w (.building s.counter) with counter := s.counter + 1 } (s.counter + 1) := by
  obtain ⟨htaken, hlt, hlt', hnot, halone, hnodup⟩ := h
  have hfresh : s.counter ∉ s.built.map Prod.snd := fun hmem => absurd (hlt' _ hmem) (by omega)
  constructor
  case taken =>
    intro i hi
    by_cases hlast : i = s.counter
    · subst hlast
      exact .inl ⟨w, by grind⟩
    · rcases htaken i (by omega) with ⟨v, hv⟩ | hmem
      · exact .inl ⟨v, by grind⟩
      · exact .inr hmem
  all_goals grind

theorem Shares.built {s : Crew k} {w : Fin k} {i bound : Nat} {place : Worker}
    (h : s.Shares bound) (hw : s.worker w = .building i) (hplace : ∀ j, place ≠ .building j) :
    Shares { s.goto w place with built := (w, i) :: s.built } bound := by
  obtain ⟨htaken, hlt, hlt', hnot, halone, hnodup⟩ := h
  constructor
  case taken =>
    intro j hj
    rcases htaken j hj with ⟨v, hv⟩ | hmem
    · by_cases hsame : v = w
      · subst hsame
        exact .inr (by grind)
      · exact .inl ⟨v, by grind⟩
    · exact .inr (by grind)
  all_goals grind

theorem Reports.congr {s t : Crew k} {bound bound' : Nat} (h : Reports methods build s bound)
    (hle : bound ≤ bound')
    (hworker : ∀ w i e, t.worker w = .failing i e ↔ s.worker w = .failing i e)
    (hfailure : t.failure = s.failure)
    (hbuilt : ∀ i e, i ∈ t.built.map Prod.snd → FailsAt methods build i e →
      i ∈ s.built.map Prod.snd) : Reports methods build t bound' := by
  constructor
  · intro w i e hw
    have hs := h.failing w i e ((hworker w i e).1 hw)
    exact ⟨by omega, hs.2⟩
  · intro i e hf
    have hs := h.recorded i e (hfailure ▸ hf)
    exact ⟨by omega, hs.2⟩
  · intro i e hi he
    simp only [hworker, hfailure]
    exact h.reported i e (hbuilt i e hi he) he

theorem Reports.fail {s : Crew k} {w : Fin k} {i bound : Nat} {e : LoweringError}
    (h : Reports methods build s bound) (hw : s.worker w = .building i) (hi : i < bound)
    (he : FailsAt methods build i e) :
    Reports methods build { s.goto w (.failing i e) with built := (w, i) :: s.built } bound := by
  obtain ⟨hfailing, hrecorded, hreported⟩ := h
  constructor
  case reported =>
    intro j e' hj he'
    by_cases hsame : j = i
    · subst hsame
      exact .inl ⟨w, e, by grind⟩
    · rcases hreported j e' (by grind) he' with ⟨v, e'', hv⟩ | hrec
      · exact .inl ⟨v, e'', by grind⟩
      · exact .inr hrec
  all_goals grind

theorem firstFailure_cases (i : Nat) (e : LoweringError) (f : Option (Nat × LoweringError)) :
    ∃ j e', firstFailure i e f = some (j, e') ∧ j ≤ i ∧ (∀ j' e', f = some (j', e') → j ≤ j') ∧
      ((j, e') = (i, e) ∨ f = some (j, e')) := by
  cases f with
  | none => exact ⟨i, e, rfl, le_refl _, by simp, .inl rfl⟩
  | some old =>
    obtain ⟨first, earlier⟩ := old
    by_cases hlt : i < first
    · exact ⟨i, e, by simp [firstFailure, hlt], le_refl _, by grind, .inl rfl⟩
    · exact ⟨first, earlier, by simp [firstFailure, hlt], by omega, by grind, .inr rfl⟩

theorem Reports.record {s : Crew k} {w : Fin k} {i bound : Nat} {e : LoweringError}
    (h : Reports methods build s bound) (hw : s.worker w = .failing i e) :
    Reports methods build { s.goto w .stopping with failure := firstFailure i e s.failure }
      bound := by
  obtain ⟨j, first, hf, hji, hmin, hfrom⟩ := firstFailure_cases i e s.failure
  obtain ⟨hfailing, hrecorded, hreported⟩ := h
  constructor
  case reported =>
    intro j' e' hj' he'
    rcases hreported j' e' hj' he' with ⟨v, e'', hv⟩ | ⟨j'', e'', hrec, hle⟩
    · by_cases hsame : v = w
      · subst hsame
        exact .inr ⟨j, first, hf, by grind⟩
      · exact .inl ⟨v, e'', by grind⟩
    · have hle' := hmin j'' e'' hrec
      exact .inr ⟨j, first, hf, by omega⟩
  all_goals grind

/-- What holds of the crew at every moment. -/
def Consistent (methods : List LocatedMethod)
    (build : LocatedMethod → Except LoweringError Unit) (s : Crew k) : Prop :=
  ∃ bound, s.Shares bound ∧ Reports methods build s bound ∧ Counts methods s bound

theorem consistent_start : Consistent methods build ({} : Crew k) := by
  refine ⟨0, ?_, ?_, ?_⟩ <;> constructor <;> simp [eq_comm]

theorem Consistent.step {s t : Crew k} (h : Consistent methods build s)
    (hstep : Step methods build s t) : Consistent methods build t := by
  obtain ⟨bound, hshares, hreports, hcounts⟩ := h
  have ⟨hle, heq, hcomplete, hstopping, hdone⟩ := hcounts
  cases hstep with
  | take hw hn =>
    have hbound := heq hn
    subst hbound
    refine ⟨s.counter + 1, hshares.take hw,
      hreports.congr (by omega) (by grind) rfl (fun _ _ hi _ => hi), ?_⟩
    constructor <;> grind
  | leave hw hn =>
    refine ⟨bound, hshares.congr (by grind) rfl,
      hreports.congr (by omega) (by grind) rfl (fun _ _ hi _ => hi), ?_⟩
    constructor <;> grind
  | succeed hw hm hb =>
    refine ⟨bound, hshares.built hw (by simp), hreports.congr (by omega) (by grind) rfl ?_, ?_⟩
    · grind [FailsAt]
    · constructor <;> grind
  | fail hw hm hb =>
    refine ⟨bound, hshares.built hw (by simp),
      hreports.fail hw (hshares.lt_of_building _ _ hw) ⟨_, hm, hb⟩, ?_⟩
    constructor <;> grind
  | @record w i e hw =>
    obtain ⟨j, first, hf, -⟩ := firstFailure_cases i e s.failure
    refine ⟨bound, hshares.congr (by grind) rfl, hreports.record hw, ?_⟩
    constructor <;> grind
  | stop hw =>
    refine ⟨bound, hshares.congr (by grind) rfl,
      hreports.congr (by omega) (by grind) rfl (fun _ _ hi _ => hi), ?_⟩
    constructor <;> grind

theorem consistent_run (methods : List LocatedMethod)
    (build : LocatedMethod → Except LoweringError Unit) (schedule : List (Fin k)) :
    Consistent methods build (run methods build schedule) := by
  induction schedule using List.reverseRecOn with
  | nil => exact consistent_start
  | append_singleton earlier w ih =>
    have hturn : run methods build (earlier ++ [w]) =
        advance methods build (run methods build earlier) w := by simp [run]
    rw [hturn]
    rcases advance_cases (run methods build earlier) w with hsame | hstep
    · rw [hsame]
      exact ih
    · exact ih.step hstep

/-- The methods below the bound have all been built once the workers are done. -/
theorem Shares.mem_built_iff {s : Crew k} {bound : Nat} (h : s.Shares bound) (hf : s.Finished)
    (i : Nat) : i ∈ s.built.map Prod.snd ↔ i < bound := by
  refine ⟨h.lt_of_built i, fun hi => ?_⟩
  rcases h.taken i hi with ⟨w, hw⟩ | hmem
  · have hdone := hf w
    simp [hw] at hdone
  · exact hmem

/-- No method before this position fails. -/
def CleanBelow (methods : List LocatedMethod) (build : LocatedMethod → Except LoweringError Unit)
    (i : Nat) : Prop :=
  ∀ j < i, ∀ e, ¬ FailsAt methods build j e

theorem failure_eq_of_first {s : Crew k} (hk : 0 < k) (h : Consistent methods build s)
    (hf : s.Finished) {i : Nat} {e : LoweringError} (hi : FailsAt methods build i e)
    (hclean : CleanBelow methods build i) : s.failure = some (i, e) := by
  obtain ⟨bound, hshares, hreports, hcounts⟩ := h
  have hlength : i < methods.length := by
    obtain ⟨m, hm, -⟩ := hi
    exact (List.getElem?_eq_some_iff.1 hm).1
  -- The position has been taken: else nothing stopped the counter before the end of the list, and
  -- what did is the failure of a later method.
  have hbound : i < bound := by
    rcases hcounts.complete (hcounts.done ⟨0, hk⟩ (hf _)) with hall | hsome
    · omega
    · obtain ⟨⟨j, e'⟩, hj⟩ := Option.isSome_iff_exists.1 hsome
      obtain ⟨hlt, hfails⟩ := hreports.recorded j e' hj
      by_contra hnot
      exact hclean j (by omega) e' hfails
  have hbuilt := (hshares.mem_built_iff hf i).2 hbound
  rcases hreports.reported i e hbuilt hi with ⟨w, e', hw⟩ | ⟨j, e', hj, hle⟩
  · have hdone := hf w
    simp [hw] at hdone
  · have hfails := (hreports.recorded j e' hj).2
    have hsame : j = i := by
      by_contra hne
      exact hclean j (by omega) e' hfails
    subst hsame
    obtain ⟨m, hm, he⟩ := hi
    obtain ⟨m', hm', he'⟩ := hfails
    grind

theorem failure_eq_none_of_clean {s : Crew k} (h : Consistent methods build s)
    (hclean : CleanBelow methods build methods.length) : s.failure = none := by
  obtain ⟨bound, hshares, hreports, hcounts⟩ := h
  cases hfail : s.failure with
  | none => rfl
  | some found =>
    obtain ⟨j, e⟩ := found
    obtain ⟨hlt, hfails⟩ := hreports.recorded j e hfail
    exact absurd hfails (hclean j (by have := hcounts.bound_le; omega) e)

theorem CleanBelow.of_forall {pre post : List LocatedMethod}
    (h : ∀ m ∈ pre, build m = .ok ()) : CleanBelow (pre ++ post) build pre.length := by
  rintro j hj e ⟨m, hm, he⟩
  rw [List.getElem?_append_left hj] at hm
  have hok := h m (List.mem_of_getElem? hm)
  simp [hok] at he

theorem result_eq_of_first {s : Crew k} (hk : 0 < k) (h : Consistent methods build s)
    (hf : s.Finished) {pre post : List LocatedMethod} {m : LocatedMethod} {e : LoweringError}
    (hmethods : methods = pre ++ m :: post) (hpre : ∀ m ∈ pre, build m = .ok ())
    (hm : build m = .error e) : s.result = .error e := by
  subst hmethods
  have hfirst := failure_eq_of_first hk h hf ⟨m, by simp, hm⟩ (CleanBelow.of_forall hpre)
  simp [result, hfirst]

theorem failure_eq_none {s : Crew k} (h : Consistent methods build s)
    (hall : ∀ m ∈ methods, build m = .ok ()) : s.failure = none := by
  have hclean : CleanBelow (methods ++ []) build methods.length := CleanBelow.of_forall hall
  rw [List.append_nil] at hclean
  exact failure_eq_none_of_clean h hclean

theorem built_perm_range {s : Crew k} (hk : 0 < k) (h : Consistent methods build s)
    (hf : s.Finished) (hnone : s.failure = none) :
    (s.built.map Prod.snd).Perm (List.range methods.length) := by
  obtain ⟨bound, hshares, hreports, hcounts⟩ := h
  have hbound : bound = methods.length := by
    rcases hcounts.complete (hcounts.done ⟨0, hk⟩ (hf _)) with hall | hsome
    · exact hall
    · simp [hnone] at hsome
  refine (List.perm_ext_iff_of_nodup hshares.nodup List.nodup_range).2 fun i => ?_
  rw [hshares.mem_built_iff hf, List.mem_range, hbound]

theorem existsUnique_worker {s : Crew k} (h : Consistent methods build s) {i : Nat}
    (hi : i ∈ s.built.map Prod.snd) : ∃! w, (w, i) ∈ s.built := by
  obtain ⟨bound, hshares, -, -⟩ := h
  obtain ⟨⟨w, _⟩, hw, rfl⟩ := List.mem_map.1 hi
  refine ⟨w, hw, fun v hv => ?_⟩
  have heq := List.inj_on_of_nodup_map hshares.nodup hv hw rfl
  simpa using heq

end Crew

/-- Compiling in order stops at the first method that fails. -/
theorem forM_cases (methods : List LocatedMethod)
    (build : LocatedMethod → Except LoweringError Unit) :
    ((∀ m ∈ methods, build m = .ok ()) ∧ methods.forM build = .ok ()) ∨
      ∃ pre m post e, methods = pre ++ m :: post ∧ (∀ m ∈ pre, build m = .ok ()) ∧
        build m = .error e ∧ methods.forM build = .error e := by
  induction methods with
  | nil => exact .inl ⟨by simp, rfl⟩
  | cons m rest ih =>
    cases hm : build m with
    | error e => exact .inr ⟨[], m, rest, e, rfl, by simp, hm, by simp [hm, bind, Except.bind]⟩
    | ok _ =>
      have hstep : (m :: rest).forM build = rest.forM build := by simp [hm, bind, Except.bind]
      rcases ih with ⟨hall, hrest⟩ | ⟨pre, m', post, e, rfl, hpre, hm', hrest⟩
      · exact .inl ⟨by grind, hstep.trans hrest⟩
      · exact .inr ⟨m :: pre, m', post, e, rfl, by grind, hm', hstep.trans hrest⟩

/-- Compiling the methods in order from the session meets the outcome that `build` gives for each
method it comes to. -/
def Meets (p : Program) (depth : Nat) (methods : List LocatedMethod)
    (build : LocatedMethod → Except LoweringError Unit) (s : Session) : Prop :=
  ∀ pre m post t, methods = pre ++ m :: post → (compileAll p depth pre).outcome s = (.ok (), t) →
    ((compileMethod p depth m).outcome t).1.map (fun _ => ()) = (build m).mapError .failed

theorem compileAll_eq_forM {p : Program} {depth : Nat} {methods : List LocatedMethod}
    {build : LocatedMethod → Except LoweringError Unit} {s : Session}
    (h : Meets p depth methods build s) :
    ((compileAll p depth methods).outcome s).1 = (methods.forM build).mapError .failed := by
  induction methods generalizing s with
  | nil => rfl
  | cons m rest ih =>
    have hm := h [] m rest s rfl rfl
    rw [compileAll, Walk.outcome_bind]
    rcases ho : (compileMethod p depth m).outcome s with ⟨x | f, t⟩
    · rw [ho] at hm
      cases hb : build m with
      | ok _ => simp [hb, Except.map, Except.mapError] at hm
      | error e =>
        simp only [hb, Except.map, Except.mapError, Except.error.injEq] at hm
        simp [hb, hm, bind, Except.bind, Except.mapError]
    · rw [ho] at hm
      cases hb : build m with
      | error e => simp [hb, Except.map, Except.mapError] at hm
      | ok _ =>
        have hrest : Meets p depth rest build t := by
          intro pre m' post u hsplit hpre
          refine h (m :: pre) m' post u (by rw [hsplit, List.cons_append]) ?_
          rw [compileAll, Walk.outcome_bind, ho]
          exact hpre
        simpa [hb, bind, Except.bind] using ih hrest

theorem Crew.result_run {k : Nat} (hk : 0 < k) {methods : List LocatedMethod}
    {build : LocatedMethod → Except LoweringError Unit} {schedule : List (Fin k)}
    (hf : (run methods build schedule).Finished) :
    (run methods build schedule).result = methods.forM build := by
  have hs : Consistent methods build (run methods build schedule) :=
    consistent_run methods build schedule
  rcases forM_cases methods build with ⟨hall, hseq⟩ | ⟨pre, m, post, e, hmethods, hpre, hm, hseq⟩
  · rw [hseq, result, failure_eq_none hs hall]
  · rw [hseq, result_eq_of_first hk hs hf hmethods hpre hm]

/-- The crew's result does not depend on the schedule: it is what compiling the methods in order
gives, and without a failure each method is built once. -/
theorem Crew.result_eq_sequential {k : Nat} (hk : 0 < k) (methods : List LocatedMethod)
    (build : LocatedMethod → Except LoweringError Unit) (schedule : List (Fin k))
    (hf : (run methods build schedule).Finished) :
    let s := run methods build schedule
    s.result = methods.forM build ∧
      ((∀ m ∈ methods, build m = .ok ()) →
        s.result = .ok () ∧ (s.built.map Prod.snd).Perm (List.range methods.length) ∧
          ∀ i < methods.length, ∃! w, (w, i) ∈ s.built) ∧
      (∀ pre m post e, methods = pre ++ m :: post → (∀ m ∈ pre, build m = .ok ()) →
        build m = .error e → s.result = .error e) ∧
      ∀ p depth start, Meets p depth methods build start →
        ((compileAll p depth methods).outcome start).1 = s.result.mapError .failed := by
  intro s
  have hs : Consistent methods build s := consistent_run methods build schedule
  have hfirst : ∀ pre m post e, methods = pre ++ m :: post → (∀ m ∈ pre, build m = .ok ()) →
      build m = .error e → s.result = .error e := by
    intro pre m post e hmethods hpre hm
    exact result_eq_of_first hk hs hf hmethods hpre hm
  have hclean : (∀ m ∈ methods, build m = .ok ()) → s.failure = none := failure_eq_none hs
  have hresult : s.result = methods.forM build := result_run hk hf
  refine ⟨hresult, fun hall => ?_, hfirst, fun p depth start hmeets => ?_⟩
  · have hperm := built_perm_range hk hs hf (hclean hall)
    refine ⟨by rw [result, hclean hall], hperm, fun i hi => ?_⟩
    exact existsUnique_worker hs (hperm.mem_iff.2 (List.mem_range.2 hi))
  · rw [hresult]
    exact compileAll_eq_forM hmeets

namespace Trio

def shader : Ty := .named "Shader" []

/-- One good method and two that return a variable they do not have. -/
def methods : List LocatedMethod :=
  [⟨⟨⟨[], "Shader"⟩, 0, none, none⟩, { owner := shader, name := "good" }⟩,
   ⟨⟨⟨[], "Shader"⟩, 1, none, none⟩,
    { owner := shader, name := "early", body := [.mk .retValue [.variable 5]] }⟩,
   ⟨⟨⟨[], "Shader"⟩, 2, none, none⟩,
    { owner := shader, name := "late", body := [.mk .retValue [.variable 9]] }⟩]

def program : Program where
  name := "trio"
  types := [{ fullName := "Shader", methods := methods.map LocatedMethod.method }]

/-- What comes of each method on its own. -/
def alone (m : LocatedMethod) : Except LoweringError Unit :=
  match ((compileMethod program 9 m).outcome {}).1 with
  | .error (.failed e) => .error e
  | _ => .ok ()

/-- The second worker takes the last method and records its failure before that of the method
before it. -/
def schedule : List (Fin 2) :=
  [0, 0, 0, 1, 1, 1, 0, 0, 0, 1]

theorem meets_alone : Meets program 9 methods alone {} := by
  intro pre m post t hsplit hpre
  have hprefix : pre = methods.take pre.length := by simp [hsplit]
  have hm : methods[pre.length]? = some m := by simp [hsplit]
  have hlength : pre.length < 3 := (List.getElem?_eq_some_iff.1 hm).1
  have hruns : ∀ n < 3, ((compileAll program 9 (methods.take n)).outcome {}).1 = .ok () →
      ∀ m ∈ methods[n]?,
        ((compileMethod program 9 m).outcome
          ((compileAll program 9 (methods.take n)).outcome {}).2).1.map (fun _ => ()) =
            (alone m).mapError .failed := by
    decide +kernel
  have hrun := hruns pre.length hlength
  rw [← hprefix, hpre] at hrun
  exact hrun rfl m hm

end Trio

theorem Crew.result_eq_sequential_trio :
    (run Trio.methods Trio.alone Trio.schedule).Finished ∧
    (run Trio.methods Trio.alone Trio.schedule).built = [(0, 1), (1, 2), (0, 0)] ∧
    (run Trio.methods Trio.alone Trio.schedule).result = Trio.methods.forM Trio.alone ∧
    ((compileAll Trio.program 9 Trio.methods).outcome {}).1 =
      (run Trio.methods Trio.alone Trio.schedule).result.mapError .failed := by
  have hfinished : (run Trio.methods Trio.alone Trio.schedule).Finished := by
    unfold Finished
    decide +kernel
  have hall := result_eq_sequential (by decide) Trio.methods Trio.alone Trio.schedule hfinished
  exact ⟨hfinished, by decide +kernel, hall.1, hall.2.2.2 _ _ _ Trio.meets_alone⟩

end ShaderIR.Lowering
