import ShaderIR.Proofs.SharedEntry

/-! Constructors that ask the table they are constructing for. Constructions of one thread are
nested, and those that are open at a moment form a stack; the table has exactly their cells under
construction. -/

namespace ShaderIR.OnceMap

variable {κ ε ν : Type} [DecidableEq κ]

/-- The outcome of a constructor that is not torn down. -/
def Outcome.ofExcept : Except ε ν → Outcome ε ν
  | .ok value => .ok value
  | .error e => .failed e

theorem Outcome.cell?_ofExcept (result : Except ε ν) :
    (Outcome.ofExcept result).cell? = result.toOption.map Cell.ready := by
  cases result <;> rfl

/-- What a thread does with a table: it asks for an entry, gives the constructor along, and goes on
in a way that may depend on the answer, until it has a result. A constructor does the same. -/
inductive Script (κ ε ν : Type) where
  | done (result : Except ε ν)
  | ask (key : κ) (init : Script κ ε ν) (next : Outcome ε ν → Script κ ε ν)

/-- The result of a script and the table that it leaves. -/
def Script.perform (reentrant : ε) : Script κ ε ν → OnceMap κ ν → Outcome ε ν × OnceMap κ ν
  | .done result, m => (.ofExcept result, m)
  | .ask key init next, m =>
    let (answer, after) := m.getOrInit key reentrant (init.perform reentrant)
    (next answer).perform reentrant after

theorem grows_getOrInit (m : OnceMap κ ν) (key : κ) (reentrant : ε)
    {init : OnceMap κ ν → Outcome ε ν × OnceMap κ ν}
    (h : ∀ claimed : OnceMap κ ν, claimed.Grows (init claimed).2) :
    m.Grows (m.getOrInit key reentrant init).2 := by
  unfold getOrInit
  cases hc : m.claim key with
  | found v => exact .refl m
  | reentrant => exact .refl m
  | granted claimed =>
    refine Grows.settle hc (h claimed) (init claimed).1.cell? ?_ fun k => cell?_settle _ key k _
    cases (init claimed).1 <;> simp [Outcome.cell?]

/-- A script finishes entries and leaves the claims of others open. -/
theorem Script.grows_perform (reentrant : ε) (script : Script κ ε ν) (m : OnceMap κ ν) :
    m.Grows (script.perform reentrant m).2 := by
  induction script generalizing m with
  | done result => exact .refl m
  | ask key init next ihinit ihnext =>
    exact (grows_getOrInit m key reentrant ihinit).trans (ihnext _ _)

/-- A construction under way, and what its caller does with the answer. -/
structure Frame (κ ε ν : Type) where
  key : κ
  next : Outcome ε ν → Script κ ε ν

/-- What happens to a key: an answer from the table, a call refused because it comes from inside the
construction, and the begin and the end of a construction. -/
inductive Event (κ ε ν : Type) where
  | found (key : κ) (value : ν)
  | refused (key : κ)
  | begun (key : κ)
  | ended (key : κ) (result : Except ε ν)

/-- A thread at work on a table, with its open constructions, the innermost first, and everything
that has happened so far. -/
structure Thread (κ ε ν : Type) where
  table : OnceMap κ ν := .empty
  script : Script κ ε ν
  frames : List (Frame κ ε ν) := []
  log : List (Event κ ε ν) := []

namespace Thread

/-- The next thing that a thread does, unless it has come to its end. -/
def next? (reentrant : ε) : Thread κ ε ν → Option (Thread κ ε ν)
  | ⟨m, .ask key init next, frames, log⟩ =>
    match m.claim key with
    | .found v => some ⟨m, next (.ok v), frames, log ++ [.found key v]⟩
    | .reentrant => some ⟨m, next (.failed reentrant), frames, log ++ [.refused key]⟩
    | .granted claimed => some ⟨claimed, init, ⟨key, next⟩ :: frames, log ++ [.begun key]⟩
  | ⟨m, .done result, ⟨key, next⟩ :: frames, log⟩ =>
    some ⟨m.settle key (.ofExcept result), next (.ofExcept result), frames,
      log ++ [.ended key result]⟩
  | ⟨_, .done _, [], _⟩ => none

def Step (reentrant : ε) (t u : Thread κ ε ν) : Prop :=
  t.next? reentrant = some u

abbrev Reachable (reentrant : ε) : Thread κ ε ν → Thread κ ε ν → Prop :=
  Relation.ReflTransGen (Step reentrant)

/-- The keys under construction. -/
def openKeys (t : Thread κ ε ν) : List κ :=
  t.frames.map Frame.key

/-- A construction of the key has ended with the value. -/
def Completed (t : Thread κ ε ν) (key : κ) (value : ν) : Prop :=
  .ended key (.ok value) ∈ t.log

variable {reentrant : ε} {t u : Thread κ ε ν}

/-- What a step can do. -/
theorem step_cases (h : Step reentrant t u) :
    (∃ key init next v, t.script = .ask key init next ∧ t.table.claim key = .found v ∧
      u = ⟨t.table, next (.ok v), t.frames, t.log ++ [.found key v]⟩) ∨
    (∃ key init next, t.script = .ask key init next ∧ t.table.claim key = .reentrant ∧
      u = ⟨t.table, next (.failed reentrant), t.frames, t.log ++ [.refused key]⟩) ∨
    (∃ key init next claimed, t.script = .ask key init next ∧
      t.table.claim key = .granted claimed ∧
      u = ⟨claimed, init, ⟨key, next⟩ :: t.frames, t.log ++ [.begun key]⟩) ∨
    ∃ key next frames result, t.script = .done result ∧ t.frames = ⟨key, next⟩ :: frames ∧
      u = ⟨t.table.settle key (.ofExcept result), next (.ofExcept result), frames,
        t.log ++ [.ended key result]⟩ := by
  obtain ⟨m, script, frames, log⟩ := t
  unfold Step at h
  cases script with
  | ask key init next =>
    rw [next?] at h
    cases hc : m.claim key with
    | found v => exact .inl ⟨key, init, next, v, rfl, hc, by simpa [hc] using h.symm⟩
    | reentrant => exact .inr (.inl ⟨key, init, next, rfl, hc, by simpa [hc] using h.symm⟩)
    | granted claimed =>
      exact .inr (.inr (.inl ⟨key, init, next, claimed, rfl, hc, by simpa [hc] using h.symm⟩))
  | done result =>
    cases frames with
    | nil => cases h
    | cons frame frames =>
      exact .inr (.inr (.inr ⟨frame.key, frame.next, frames, result, rfl, rfl,
        (Option.some.inj h).symm⟩))

/-- The table has the cells of the open constructions and the values of the completed ones, and no
others. -/
structure Accounts (t : Thread κ ε ν) : Prop where
  nodup : t.openKeys.Nodup
  building : ∀ k, t.table.cell? k = some .building ↔ k ∈ t.openKeys
  ready : ∀ k v, t.table.cell? k = some (.ready v) ↔ t.Completed k v
  inhabited : ∀ k, t.table.cell? k ≠ some .empty

theorem accounts_start (script : Script κ ε ν) : Accounts ({ script } : Thread κ ε ν) where
  nodup := by simp [openKeys]
  building := by simp [openKeys]
  ready := by simp [Completed]
  inhabited := by simp

namespace Accounts

theorem unclaimed (ht : t.Accounts) {key : κ} {claimed : OnceMap κ ν}
    (hc : t.table.claim key = .granted claimed) :
    t.table.cell? key = none ∧ claimed = t.table.set key .building := by
  obtain ⟨rfl, hnone, hopen⟩ := claim_granted hc
  refine ⟨?_, rfl⟩
  cases hcell : t.table.cell? key with
  | none => rfl
  | some cell =>
    cases cell with
    | empty => exact absurd hcell (ht.inhabited key)
    | building => exact absurd hcell hopen
    | ready v => simp [get?, hcell] at hnone

/-- An answer that needs no construction changes neither side. -/
theorem answered (ht : t.Accounts) (script : Script κ ε ν) {event : Event κ ε ν}
    (hevent : ∀ k v, event ≠ .ended k (.ok v)) :
    Accounts ⟨t.table, script, t.frames, t.log ++ [event]⟩ where
  nodup := ht.nodup
  building := ht.building
  ready k v := by simp [Completed, ht.ready k v, (hevent k v).symm]
  inhabited := ht.inhabited

theorem begun (ht : t.Accounts) (init : Script κ ε ν) {key : κ}
    (next : Outcome ε ν → Script κ ε ν) (hnone : t.table.cell? key = none) :
    Accounts ⟨t.table.set key .building, init, ⟨key, next⟩ :: t.frames, t.log ++ [.begun key]⟩ where
  nodup := by
    have hnew : key ∉ t.openKeys := fun hmem => by
      have hbuilding := (ht.building key).mpr hmem
      simp [hnone] at hbuilding
    exact List.nodup_cons.mpr ⟨hnew, ht.nodup⟩
  building k := by
    have hk := ht.building k
    by_cases he : k = key
    · simp [openKeys, he]
    · simpa [openKeys, he] using hk
  ready k v := by
    have hk := ht.ready k v
    by_cases he : k = key
    · subst he
      simpa [Completed, hnone] using hk
    · simpa [Completed, he] using hk
  inhabited k := by
    have hk := ht.inhabited k
    by_cases he : k = key
    · simp [he]
    · simpa [he] using hk

theorem ended (ht : t.Accounts) {key : κ} {next : Outcome ε ν → Script κ ε ν}
    {frames : List (Frame κ ε ν)} (hframes : t.frames = ⟨key, next⟩ :: frames)
    (result : Except ε ν) (script : Script κ ε ν) :
    Accounts ⟨t.table.settle key (.ofExcept result), script, frames,
      t.log ++ [.ended key result]⟩ := by
  have hopen : t.openKeys = key :: frames.map Frame.key := by simp [openKeys, hframes]
  obtain ⟨hkey, hnodup⟩ := List.nodup_cons.mp (hopen ▸ ht.nodup)
  have hbuilding : t.table.cell? key = some .building :=
    (ht.building key).mpr (by simp [hopen])
  have hcell : ∀ k, (t.table.settle key (.ofExcept result)).cell? k =
      if k = key then result.toOption.map Cell.ready else t.table.cell? k := fun k => by
    rw [cell?_settle, Outcome.cell?_ofExcept]
  refine ⟨hnodup, fun k => ?_, fun k v => ?_, fun k => ?_⟩
  · have hk := ht.building k
    rw [hopen] at hk
    by_cases he : k = key
    · subst he
      simp [hcell, openKeys, hkey]
    · simpa [hcell, openKeys, he] using hk
  · have hk := ht.ready k v
    by_cases he : k = key
    · subst he
      have hnever : ¬t.Completed k v := fun h => by simp [hk.mpr h] at hbuilding
      simp only [Completed] at hnever
      cases result <;> simp [hcell, Completed, hnever, Except.toOption, eq_comm]
    · simpa [hcell, Completed, he] using hk
  · have hk := ht.inhabited k
    by_cases he : k = key
    · simp [hcell, he]
    · simpa [hcell, he] using hk

theorem step (ht : t.Accounts) (h : Step reentrant t u) : u.Accounts := by
  rcases step_cases h with ⟨key, init, next, v, _, _, rfl⟩ | ⟨key, init, next, _, _, rfl⟩ |
    ⟨key, init, next, claimed, _, hc, rfl⟩ | ⟨key, next, frames, result, _, hframes, rfl⟩
  · exact ht.answered _ (by simp)
  · exact ht.answered _ (by simp)
  · obtain ⟨hnone, rfl⟩ := ht.unclaimed hc
    exact ht.begun init next hnone
  · exact ht.ended hframes result _

theorem reachable (ht : t.Accounts) (h : Reachable reentrant t u) : u.Accounts := by
  induction h with
  | refl => exact ht
  | tail _ hstep ih => exact ih.step hstep

end Accounts

theorem log_of_reachable (h : Reachable reentrant t u) : ∃ segment, u.log = t.log ++ segment := by
  induction h with
  | refl => exact ⟨[], by simp⟩
  | tail _ hstep ih =>
    obtain ⟨segment, hsegment⟩ := ih
    rcases step_cases hstep with ⟨_, _, _, _, _, _, rfl⟩ | ⟨_, _, _, _, _, rfl⟩ |
      ⟨_, _, _, _, _, _, rfl⟩ | ⟨_, _, _, _, _, _, rfl⟩ <;>
    exact ⟨_, by rw [hsegment, List.append_assoc]⟩

/-- A finished entry stays as it is. -/
theorem Accounts.keeps (ht : t.Accounts) (h : Reachable reentrant t u) {k : κ} {v : ν}
    (hv : t.table.get? k = some v) : u.table.get? k = some v := by
  have hu := ht.reachable h
  obtain ⟨segment, hlog⟩ := log_of_reachable h
  rw [get?_eq_some, ht.ready] at hv
  rw [get?_eq_some, hu.ready, Completed, hlog]
  exact List.mem_append_left _ hv

/-- A thread that performs the script comes to its result, whatever constructions are open around
it, and begins none of those again. -/
def Performs (reentrant : ε) (script : Script κ ε ν) : Prop :=
  ∀ (m : OnceMap κ ν) (frames : List (Frame κ ε ν)) (log : List (Event κ ε ν)),
    ∃ result segment, (script.perform reentrant m).1 = .ofExcept result ∧
      Reachable reentrant ⟨m, script, frames, log⟩
        ⟨(script.perform reentrant m).2, .done result, frames, log ++ segment⟩ ∧
      ∀ k, m.cell? k = some .building → .begun k ∉ segment

/-- What happens between a call and its answer. -/
inductive Answers (m : OnceMap κ ν) (key : κ) : Outcome ε ν → List (Event κ ε ν) → Prop
  | found {v : ν} (hc : m.claim key = .found v) : Answers m key (.ok v) [.found key v]
  | refused {e : ε} (hc : m.claim key = .reentrant) : Answers m key (.failed e) [.refused key]
  | constructed {claimed : OnceMap κ ν} {answer : Outcome ε ν} {result : Except ε ν}
      {inner : List (Event κ ε ν)} (hc : m.claim key = .granted claimed)
      (hinner : ∀ k, claimed.cell? k = some .building → .begun k ∉ inner)
      (hresult : answer = .ofExcept result) :
      Answers m key answer (.begun key :: (inner ++ [.ended key result]))

/-- A call begins no construction that is open already. -/
theorem Answers.begun_not_mem {m : OnceMap κ ν} {key : κ} {answer : Outcome ε ν}
    {segment : List (Event κ ε ν)} (h : Answers m key answer segment) {k : κ}
    (hk : m.cell? k = some .building) : .begun k ∉ segment := by
  cases h with
  | found _ => simp
  | refused _ => simp
  | constructed hc hinner _ =>
    obtain ⟨rfl, _, hopen⟩ := claim_granted hc
    have hne : k ≠ key := by
      rintro rfl
      exact hopen hk
    have hk' := hinner k (by simpa [hne] using hk)
    simp [hne, hk']

theorem Answers.exists_construction {m claimed : OnceMap κ ν} {key : κ} {answer : Outcome ε ν}
    {segment : List (Event κ ε ν)} (h : Answers m key answer segment)
    (hc : m.claim key = .granted claimed) :
    ∃ inner result, segment = .begun key :: (inner ++ [.ended key result]) ∧
      .begun key ∉ inner ∧ answer = .ofExcept result := by
  cases h with
  | found hc' => simp [hc] at hc'
  | refused hc' => simp [hc] at hc'
  | constructed hc' hinner hresult =>
    obtain ⟨rfl, _, _⟩ := claim_granted hc'
    exact ⟨_, _, rfl, hinner key (by simp), hresult⟩

theorem Performs.exists_answer {init : Script κ ε ν} (hinit : Performs reentrant init) (key : κ)
    (next : Outcome ε ν → Script κ ε ν) (m : OnceMap κ ν) (frames : List (Frame κ ε ν))
    (log : List (Event κ ε ν)) :
    ∃ segment, Answers m key (m.getOrInit key reentrant (init.perform reentrant)).1 segment ∧
      Reachable reentrant ⟨m, .ask key init next, frames, log⟩
        ⟨(m.getOrInit key reentrant (init.perform reentrant)).2,
          next (m.getOrInit key reentrant (init.perform reentrant)).1, frames, log ++ segment⟩ := by
  unfold getOrInit
  cases hc : m.claim key with
  | found v => exact ⟨_, .found hc, .single (by simp [Step, next?, hc])⟩
  | reentrant => exact ⟨_, .refused hc, .single (by simp [Step, next?, hc])⟩
  | granted claimed =>
    obtain ⟨result, inner, hresult, hrun, hinner⟩ :=
      hinit claimed (⟨key, next⟩ :: frames) (log ++ [.begun key])
    refine ⟨.begun key :: (inner ++ [.ended key result]), .constructed hc hinner hresult, ?_⟩
    have hbegin : Step reentrant ⟨m, .ask key init next, frames, log⟩
        ⟨claimed, init, ⟨key, next⟩ :: frames, log ++ [.begun key]⟩ := by simp [Step, next?, hc]
    refine .head hbegin (hrun.tail ?_)
    simp [Step, next?, hresult]

theorem performs (reentrant : ε) (script : Script κ ε ν) : Performs reentrant script := by
  induction script with
  | done result =>
    exact fun m frames log => ⟨result, [], rfl, by simpa using .refl, by simp⟩
  | ask key init next ihinit ihnext =>
    intro m frames log
    obtain ⟨segment, hanswer, hcall⟩ := ihinit.exists_answer key next m frames log
    obtain ⟨result, rest, hresult, hrun, hrest⟩ := ihnext
      (m.getOrInit key reentrant (init.perform reentrant)).1
      (m.getOrInit key reentrant (init.perform reentrant)).2 frames (log ++ segment)
    refine ⟨result, segment ++ rest, hresult, ?_, fun k hk => ?_⟩
    · rw [List.append_assoc] at hrun
      exact hcall.trans hrun
    · have hgrows := grows_getOrInit m key reentrant (init.grows_perform reentrant)
      rw [List.mem_append, not_or]
      exact ⟨hanswer.begun_not_mem hk, hrest k ((hgrows.building k).mp hk)⟩

/-- Every thread comes to its end. -/
theorem exists_end (reentrant : ε) (t : Thread κ ε ν) :
    ∃ u result, Reachable reentrant t u ∧ u.script = .done result ∧ u.frames = [] := by
  obtain ⟨m, script, frames, log⟩ := t
  induction frames generalizing m script log with
  | nil =>
    obtain ⟨result, _, _, hrun, _⟩ := performs reentrant script m [] log
    exact ⟨_, result, hrun, rfl, rfl⟩
  | cons frame frames ih =>
    obtain ⟨_, _, _, hrun, _⟩ := performs reentrant script m (frame :: frames) log
    obtain ⟨u, result, hrest, hu⟩ := ih _ _ _
    exact ⟨u, result, (hrun.tail rfl).trans hrest, hu⟩

/-- The cells of the table, at every moment. -/
theorem Accounts.cell?_eq_some_iff (ht : t.Accounts) (k : κ) (cell : Cell ν) :
    t.table.cell? k = some cell ↔
      cell = .building ∧ k ∈ t.openKeys ∨ ∃ v, cell = .ready v ∧ t.Completed k v := by
  cases cell with
  | empty => simp [ht.inhabited k]
  | building => simp [ht.building k]
  | ready v => simp [ht.ready k v]

/-- How a call is answered depends on the key alone. -/
theorem Accounts.claim_eq (ht : t.Accounts) (key : κ) :
    (key ∈ t.openKeys → t.table.claim key = .reentrant) ∧
    (∀ v, t.Completed key v → t.table.claim key = .found v) ∧
    (key ∉ t.openKeys → (∀ v, ¬t.Completed key v) → ∃ claimed,
      t.table.claim key = .granted claimed) := by
  refine ⟨fun h => ?_, fun v h => ?_, fun hopen hnever => ?_⟩
  · simp [claim, (ht.building key).mpr h]
  · simp [claim, (ht.ready key v).mpr h]
  · cases hc : t.table.claim key with
    | granted claimed => exact ⟨claimed, rfl⟩
    | found v => exact absurd ((ht.ready key v).mp (get?_eq_some.mp (claim_found hc))) (hnever v)
    | reentrant => exact absurd ((ht.building key).mp (claim_reentrant hc)) hopen

/-- The entries of a table whose constructors use it. At every moment of every thread that starts
with an empty table, a call of a key under construction is refused and changes nothing, a call of a
completed key gets its value without a construction, and any other call begins one construction of
its key and gets what that ends with. Completed entries stay. The cells are those of the open and of
the completed constructions; so where none is open the table has the completed keys with their
values and nothing else, and every thread comes to such an end. -/
theorem nested_construction {script : Script κ ε ν} (h : Reachable reentrant { script } t) :
    (∀ key init next, t.script = .ask key init next → ∃ answer segment u,
      Reachable reentrant t u ∧ u.script = next answer ∧ u.frames = t.frames ∧
      u.log = t.log ++ segment ∧
      (answer, u.table) = t.table.getOrInit key reentrant (init.perform reentrant) ∧
      (key ∈ t.openKeys →
        answer = .failed reentrant ∧ segment = [.refused key] ∧ u.table = t.table) ∧
      (∀ v, t.Completed key v →
        answer = .ok v ∧ segment = [.found key v] ∧ u.table = t.table) ∧
      (key ∉ t.openKeys → (∀ v, ¬t.Completed key v) → ∃ inner result,
        segment = .begun key :: (inner ++ [.ended key result]) ∧ .begun key ∉ inner ∧
        answer = .ofExcept result)) ∧
    (∀ u k v, Reachable reentrant t u → t.table.get? k = some v → u.table.get? k = some v) ∧
    (∀ k cell, t.table.cell? k = some cell ↔
      cell = .building ∧ k ∈ t.openKeys ∨ ∃ v, cell = .ready v ∧ t.Completed k v) ∧
    (t.frames = [] → ∀ k cell, t.table.cell? k = some cell ↔
      ∃ v, cell = .ready v ∧ t.Completed k v) ∧
    ∃ u result, Reachable reentrant t u ∧ u.script = .done result ∧ u.frames = [] := by
  have ht := (accounts_start script).reachable h
  have hcells := ht.cell?_eq_some_iff
  refine ⟨?_, fun u k v hu => ht.keeps hu, hcells, ?_, exists_end reentrant t⟩
  · intro key init next hscript
    obtain ⟨hrefused, hfound, hgranted⟩ := ht.claim_eq key
    obtain ⟨m, script, frames, log⟩ := t
    obtain rfl : script = .ask key init next := hscript
    obtain ⟨segment, hanswer, hrun⟩ := (performs reentrant init).exists_answer key next m frames log
    refine ⟨_, segment, _, hrun, rfl, rfl, rfl, rfl, fun hopen => ?_, fun v hv => ?_,
      fun hopen hnever => ?_⟩
    · have hc : m.claim key = .reentrant := hrefused hopen
      simp only [getOrInit, hc] at hanswer ⊢
      cases hanswer <;> simp_all
    · have hc : m.claim key = .found v := hfound v hv
      simp only [getOrInit, hc] at hanswer ⊢
      cases hanswer <;> simp_all
    · obtain ⟨claimed, hc⟩ := hgranted hopen hnever
      exact hanswer.exists_construction hc
  · intro hframes k cell
    simp [hcells, openKeys, hframes]

/-- The constructor of the first key asks for a second one, whose constructor asks for the first
again and makes nothing of the refusal. A third key gets its value from the second. Then the first
construction fails; another attempt succeeds. -/
def relapse : Script Nat String Nat :=
  let second := .ask 1 (.done (.ok 0)) fun _ => .done (.ok 20)
  let third := .ask 2 (.done (.ok 0)) fun
    | .ok value => .done (.ok (value + 10))
    | _ => .done (.error "no second")
  .ask 1 (.ask 2 second fun _ => .ask 3 third fun _ => .done (.error "tired")) fun _ =>
    .ask 1 (.done (.ok 10)) fun _ => .done (.ok 0)

/-- The refusal in the middle, and the table in the end. -/
theorem nested_construction_relapse :
    (∃ t u : Thread Nat String Nat, Reachable "cycle" { script := relapse } t ∧
      t.openKeys = [2, 1] ∧ Reachable "cycle" t u ∧ u.log = t.log ++ [.refused 1] ∧
      u.script = .done (.ok 20) ∧ u.table = t.table) ∧
    ∃ t : Thread Nat String Nat, Reachable "cycle" { script := relapse } t ∧ t.frames = [] ∧
      t.table.get? 1 = some 10 ∧ t.table.get? 2 = some 20 ∧ t.table.get? 3 = some 30 ∧
      ∀ k cell, t.table.cell? k = some cell ↔ ∃ v, cell = .ready v ∧ t.Completed k v := by
  have hmiddle : Reachable "cycle" ({ script := relapse } : Thread Nat String Nat) _ :=
    .head rfl (.single rfl)
  obtain ⟨answer, segment, u, hu, hscript, _, hlog, _, hrefused, _⟩ :=
    (nested_construction hmiddle).1 _ _ _ rfl
  obtain ⟨_, rfl, htable⟩ := hrefused (by decide)
  refine ⟨⟨_, u, hmiddle, rfl, hu, hlog, hscript, htable⟩, ?_⟩
  have hrun : Reachable "cycle" ({ script := relapse } : Thread Nat String Nat) _ :=
    .head rfl <| .head rfl <| .head rfl <| .head rfl <| .head rfl <| .head rfl <| .head rfl <|
      .head rfl <| .head rfl <| .single rfl
  exact ⟨_, hrun, rfl, rfl, rfl, rfl, (nested_construction hrun).2.2.2.1 rfl⟩

end Thread

end ShaderIR.OnceMap
