import Mathlib.Logic.Function.Basic
import Mathlib.Logic.Relation
import ShaderIR.Proofs.OnceMap

/-! Calls of several threads that ask for the same entry of a construct-once table. Whatever a call
does under a lock is one step, and steps of different calls come in any order. -/

namespace ShaderIR.OnceMap

variable {κ ε ν : Type} [DecidableEq κ]

/-- The cell that settling leaves behind. -/
def Outcome.cell? : Outcome ε ν → Option (Cell ν)
  | .ok value => some (.ready value)
  | .failed _ => none
  | .unwound => some .empty

theorem cell?_settle (m : OnceMap κ ν) (key k : κ) (o : Outcome ε ν) :
    (m.settle key o).cell? k = if k = key then o.cell? else m.cell? k := by
  cases o <;> simp [settle, Outcome.cell?]

theorem claim_eq_granted {m : OnceMap κ ν} {key : κ}
    (h : ∀ x : Cell ν, x ≠ .empty → m.cell? key ≠ some x) :
    m.claim key = .granted (m.set key .building) := by
  unfold claim
  rcases hc : m.cell? key with _ | _ | _ | v
  · rfl
  · rfl
  · exact absurd hc (h .building (by simp))
  · exact absurd hc (h (.ready v) (by simp))

/-- How far a call has come. Cells are called by numbers, since a call keeps the cell that it has
looked up even if the table no longer has it. -/
inductive Phase (ε ν : Type) where
  | asking
  | waiting (cell : Nat)
  | building (cell : Nat)
  | evicting (cell : Nat) (error : ε)
  | answered (outcome : Outcome ε ν)

/-- What follows when a constructor has ended: only an error removes the cell from the table. -/
def Outcome.phase (c : Nat) : Outcome ε ν → Phase ε ν
  | .failed e => .evicting c e
  | o => .answered o

def Outcome.value? : Outcome ε ν → Option ν
  | .ok value => some value
  | _ => none

/-- The calls for one key. The cells that were ever made for it are kept by their numbers, where one
that is not listed is empty; the table has one of them at most. The values of `built` are those
that constructors have returned. -/
structure Race (ε ν : Type) where
  phase : Nat → Phase ε ν := fun _ => .asking
  cells : OnceMap Nat ν := .empty
  made : Nat := 0
  current : Option Nat := none
  built : List ν := []

namespace Race

def value? (s : Race ε ν) : Option ν :=
  s.current.bind s.cells.get?

def goto (s : Race ε ν) (i : Nat) (phase : Phase ε ν) : Race ε ν :=
  { s with phase := Function.update s.phase i phase }

@[simp] theorem phase_goto (s : Race ε ν) (i j : Nat) (phase : Phase ε ν) :
    (s.goto i phase).phase j = if j = i then phase else s.phase j := by
  simp [goto, Function.update_apply]

/-- One step of one call. A call that finds its cell claimed waits, unless the claim is one of its
own thread. -/
inductive Step (thread : Nat → Nat) (reentrant : ε) : Race ε ν → Race ε ν → Prop
  | find {s : Race ε ν} {i c : Nat} (hi : s.phase i = .asking) (hc : s.current = some c) :
      Step thread reentrant s (s.goto i (.waiting c))
  | make {s : Race ε ν} {i : Nat} (hi : s.phase i = .asking) (hc : s.current = none) :
      Step thread reentrant s
        ({ s with current := some s.made, made := s.made + 1 }.goto i (.waiting s.made))
  | take {s : Race ε ν} {i c : Nat} {v : ν} (hi : s.phase i = .waiting c)
      (hc : s.cells.claim c = .found v) :
      Step thread reentrant s (s.goto i (.answered (.ok v)))
  | reenter {s : Race ε ν} {i j c : Nat} (hi : s.phase i = .waiting c)
      (hc : s.cells.claim c = .reentrant) (hj : s.phase j = .building c)
      (ht : thread j = thread i) :
      Step thread reentrant s (s.goto i (.answered (.failed reentrant)))
  | begin {s : Race ε ν} {i c : Nat} {claimed : OnceMap Nat ν} (hi : s.phase i = .waiting c)
      (hc : s.cells.claim c = .granted claimed) :
      Step thread reentrant s ({ s with cells := claimed }.goto i (.building c))
  | finish {s : Race ε ν} {i c : Nat} (o : Outcome ε ν) (hi : s.phase i = .building c) :
      Step thread reentrant s
        ({ s with cells := s.cells.settle c o, built := s.built ++ o.value?.toList }.goto i
          (o.phase c))
  | evict {s : Race ε ν} {i c : Nat} {e : ε} {claimed : OnceMap Nat ν}
      (hi : s.phase i = .evicting c e) (hc : s.current = some c)
      (hopen : s.cells.claim c = .granted claimed) :
      Step thread reentrant s ({ s with current := none }.goto i (.answered (.failed e)))
  | leave {s : Race ε ν} {i c : Nat} {e : ε} (hi : s.phase i = .evicting c e)
      (hc : s.current ≠ some c ∨ ∀ claimed, s.cells.claim c ≠ .granted claimed) :
      Step thread reentrant s (s.goto i (.answered (.failed e)))

abbrev Reachable (thread : Nat → Nat) (reentrant : ε) : Race ε ν → Race ε ν → Prop :=
  Relation.ReflTransGen (Step thread reentrant)

variable {thread : Nat → Nat} {reentrant : ε} {s t : Race ε ν}

/-- The calls share the entry that a table has under the key. Cells get their numbers in order. -/
structure Shows (s : Race ε ν) (m : OnceMap κ ν) (key : κ) : Prop where
  cell : ∀ x : Cell ν, x ≠ .empty →
    (m.cell? key = some x ↔ ∃ c, s.current = some c ∧ s.cells.cell? c = some x)
  current : ∀ c, s.current = some c → c < s.made
  fresh : ∀ c, s.made ≤ c → s.cells.cell? c = none

variable {m : OnceMap κ ν} {key : κ}

theorem exists_waiting (thread : Nat → Nat) (reentrant : ε) (hs : s.Shows m key) {i : Nat}
    (hi : s.phase i = .asking) :
    ∃ t c, Step thread reentrant s t ∧ t.phase i = .waiting c ∧ t.current = some c ∧
      (∀ d, s.current = some d → d = c) ∧ t.Shows m key ∧ ∀ j, j ≠ i → t.phase j = s.phase j := by
  cases hc : s.current with
  | some c =>
    exact ⟨_, c, .find hi hc, by simp, hc, by simp, ⟨hs.cell, hs.current, hs.fresh⟩,
      by simp +contextual⟩
  | none =>
    refine ⟨_, s.made, .make hi hc, by simp, rfl, by simp, ⟨?_, ?_, ?_⟩, by simp +contextual⟩
    · intro x hx
      simp [goto, hs.cell x hx, hc, hs.fresh]
    · simp [goto]
    · intro c hle
      exact hs.fresh c (Nat.le_of_succ_le hle)

theorem exists_finished (thread : Nat → Nat) (reentrant : ε) (hs : s.Shows m key) {i c : Nat}
    (hi : s.phase i = .waiting c) (hc : s.current = some c)
    (hclaim : m.claim key = .granted (m.set key .building)) (o : Outcome ε ν) :
    ∃ t, Reachable thread reentrant s t ∧ t.phase i = o.phase c ∧ t.current = some c ∧
      t.cells.cell? c = o.cell? ∧ t.Shows ((m.set key .building).settle key o) key ∧
      ∀ j, j ≠ i → t.phase j = s.phase j := by
  obtain ⟨_, hnone, hfree⟩ := claim_granted hclaim
  have hopen : s.cells.claim c = .granted (s.cells.set c .building) := by
    refine claim_eq_granted fun x hx hcell => ?_
    have hm := (hs.cell x hx).mpr ⟨c, hc, hcell⟩
    cases x with
    | empty => exact hx rfl
    | building => exact hfree hm
    | ready v => simp [get?, hm] at hnone
  refine ⟨_, .head (.begin hi hopen) (.single (.finish (i := i) (c := c) o (by simp))), by simp, hc,
    by simp [goto, cell?_settle], ⟨?_, hs.current, ?_⟩, by simp +contextual⟩
  · intro x _
    simp [goto, cell?_settle, hc]
  · intro d hd
    have hlt := hs.current c hc
    have hle : s.made ≤ d := hd
    have hne : d ≠ c := by omega
    simp [goto, cell?_settle, hne, hs.fresh d hle]

/-- A call that nothing comes in between does what the table does. -/
theorem exists_uninterrupted (hs : s.Shows m key) {i : Nat} (hi : s.phase i = .asking)
    (howner : m.claim key = .reentrant → ∀ c, s.current = some c →
      ∃ j, s.phase j = .building c ∧ thread j = thread i) (o : Outcome ε ν) :
    ∃ t, Reachable thread reentrant s t ∧
      t.phase i = .answered (m.getOrInit key reentrant fun claimed => (o, claimed)).1 ∧
      t.Shows (m.getOrInit key reentrant fun claimed => (o, claimed)).2 key ∧
      ∀ j, j ≠ i → t.phase j = s.phase j := by
  obtain ⟨u, c, hstep, hu, hcurrent, hsame, hshows, hothers⟩ :=
    exists_waiting thread reentrant hs hi
  cases hclaim : m.claim key with
  | found v =>
    have hv := (hshows.cell (.ready v) (by simp)).mp (get?_eq_some.mp (claim_found hclaim))
    obtain ⟨d, hd, hcell⟩ := hv
    obtain rfl : c = d := by simpa [hcurrent] using hd
    have hfound : u.cells.claim c = .found v := by simp [claim, hcell]
    refine ⟨_, .head hstep (.single (.take hu hfound)), ?_, ?_, ?_⟩
    · simp [getOrInit, hclaim]
    · simp only [getOrInit, hclaim]
      exact ⟨hshows.cell, hshows.current, hshows.fresh⟩
    · simp +contextual [hothers]
  | reentrant =>
    obtain ⟨d, hd, _⟩ := (hs.cell .building (by simp)).mp (claim_reentrant hclaim)
    obtain rfl := hsame d hd
    obtain ⟨j, hj, hthread⟩ := howner hclaim d hd
    have hne : j ≠ i := by
      rintro rfl
      simp [hi] at hj
    obtain ⟨k, hk, hcell⟩ := (hshows.cell .building (by simp)).mp (claim_reentrant hclaim)
    obtain rfl : d = k := by simpa [hcurrent] using hk
    have hbusy : u.cells.claim d = .reentrant := by simp [claim, hcell]
    refine ⟨_, .head hstep (.single (.reenter hu hbusy (hothers j hne ▸ hj) hthread)), ?_, ?_, ?_⟩
    · simp [getOrInit, hclaim]
    · simp only [getOrInit, hclaim]
      exact ⟨hshows.cell, hshows.current, hshows.fresh⟩
    · simp +contextual [hothers]
  | granted claimed =>
    obtain ⟨rfl, _, _⟩ := claim_granted hclaim
    obtain ⟨t, hrun, ht, hcurrent', hcell, hshows', hothers'⟩ :=
      exists_finished thread reentrant hshows hu hcurrent hclaim o
    have hsame' : ∀ j, j ≠ i → t.phase j = s.phase j :=
      fun j hj => (hothers' j hj).trans (hothers j hj)
    simp only [getOrInit, hclaim]
    cases o with
    | ok v => exact ⟨t, .head hstep hrun, ht, hshows', hsame'⟩
    | unwound => exact ⟨t, .head hstep hrun, ht, hshows', hsame'⟩
    | failed e =>
      -- The error is reported only after the empty cell has been taken out of the table.
      have hopen : t.cells.claim c = .granted (t.cells.set c .building) :=
        claim_eq_granted fun x _ => by simp [hcell, Outcome.cell?]
      refine ⟨_, .head hstep (hrun.tail (.evict ht hcurrent' hopen)), by simp, ?_, ?_⟩
      · refine ⟨fun x _ => ?_, by simp [goto], hshows'.fresh⟩
        simp [goto, settle]
      · simp +contextual [hsame']

/-- A step that takes a cell out of the table only if no call is waiting for it. -/
def CarefulStep (thread : Nat → Nat) (reentrant : ε) (s t : Race ε ν) : Prop :=
  Step thread reentrant s t ∧
    ∀ c, s.current = some c → t.current = none → ∀ i, s.phase i ≠ .waiting c

def Uses (s : Race ε ν) (i c : Nat) : Prop :=
  s.phase i = .waiting c ∨ s.phase i = .building c

/-- All calls share the cell of the table, and whoever builds has claimed it alone. -/
structure Shared (s : Race ε ν) : Prop where
  uses : ∀ i c, s.Uses i c → s.current = some c
  claimed : ∀ i c, s.phase i = .building c → s.cells.cell? c = some .building
  alone : ∀ i j c, s.phase i = .building c → s.phase j = .building c → i = j
  ready : ∀ c v, s.cells.get? c = some v → s.current = some c ∧ s.built = [v]
  built : ∀ v ∈ s.built, s.value? = some v
  answers : ∀ i v, s.phase i = .answered (.ok v) → s.built = [v]

theorem shared_start : Shared ({} : Race ε ν) where
  uses := by simp [Uses]
  claimed := by simp
  alone := by simp
  ready := by simp
  built := by simp
  answers := by simp

namespace Shared

/-- A call that neither starts to build nor leaves the shared cell, and that answers what was
built. -/
theorem goto (hs : s.Shared) (i : Nat) {phase : Phase ε ν}
    (hwaiting : ∀ c, phase = .waiting c → s.current = some c) (hbuilding : ∀ c, phase ≠ .building c)
    (hanswer : ∀ v, phase = .answered (.ok v) → s.built = [v]) : (s.goto i phase).Shared where
  uses := by
    intro j c hj
    by_cases he : j = i
    · exact hwaiting c (by simpa [Uses, he, hbuilding] using hj)
    · exact hs.uses j c (by simpa [Uses, he] using hj)
  claimed := by
    intro j c hj
    by_cases he : j = i
    · simp [he, hbuilding] at hj
    · exact hs.claimed j c (by simpa [he] using hj)
  alone := by
    intro j k c hj hk
    by_cases hej : j = i
    · simp [hej, hbuilding] at hj
    by_cases hek : k = i
    · simp [hek, hbuilding] at hk
    exact hs.alone j k c (by simpa [hej] using hj) (by simpa [hek] using hk)
  ready := hs.ready
  built := hs.built
  answers := by
    intro j v hj
    by_cases he : j = i
    · exact hanswer v (by simpa [he] using hj)
    · exact hs.answers j v (by simpa [he] using hj)

theorem built_eq_nil (hs : s.Shared) (hnone : s.value? = none) : s.built = [] := by
  refine List.eq_nil_iff_forall_not_mem.mpr fun v hv => ?_
  have hvalue := hs.built v hv
  simp [hnone] at hvalue

/-- Without users, the table may get another cell or lose the one it has, as long as nothing is
built. -/
theorem replace (hs : s.Shared) (current : Option Nat) (made : Nat) (hbuilt : s.built = [])
    (huses : ∀ i c, ¬s.Uses i c) :
    ({ s with current := current, made := made } : Race ε ν).Shared where
  uses := fun i c hi => absurd hi (huses i c)
  claimed := hs.claimed
  alone := hs.alone
  ready := by
    intro c v hv
    have hone := (hs.ready c v hv).2
    simp [hbuilt] at hone
  built := by simp [hbuilt]
  answers := hs.answers

theorem begin (hs : s.Shared) {i c : Nat} {claimed : OnceMap Nat ν}
    (hi : s.phase i = .waiting c) (hc : s.cells.claim c = .granted claimed) :
    (({ s with cells := claimed } : Race ε ν).goto i (.building c)).Shared := by
  have hcurrent := hs.uses i c (.inl hi)
  obtain ⟨rfl, hnone, hopen⟩ := claim_granted hc
  have hbuilt := hs.built_eq_nil (by simp [value?, hcurrent, hnone])
  have hnobody : ∀ j, s.phase j ≠ .building c := fun j hj => hopen (hs.claimed j c hj)
  constructor
  case uses =>
    intro j k hj
    by_cases he : j = i
    · obtain rfl : c = k := by simpa [Uses, he] using hj
      exact hcurrent
    · exact hs.uses j k (by simpa [Uses, he] using hj)
  case claimed =>
    intro j k hj
    by_cases he : j = i
    · obtain rfl : c = k := by simpa [he] using hj
      simp [Race.goto]
    · have hk := hs.claimed j k (by simpa [he] using hj)
      simp [Race.goto, hk]
  case alone =>
    intro j k d hj hk
    by_cases hej : j = i <;> by_cases hek : k = i
    · rw [hej, hek]
    · obtain rfl : c = d := by simpa [hej] using hj
      exact absurd (by simpa [hek] using hk) (hnobody k)
    · obtain rfl : c = d := by simpa [hek] using hk
      exact absurd (by simpa [hej] using hj) (hnobody j)
    · exact hs.alone j k d (by simpa [hej] using hj) (by simpa [hek] using hk)
  case ready =>
    intro k v hv
    have hone := (hs.ready k v (get?_of_claimed hc hv)).2
    simp [hbuilt] at hone
  case built =>
    simp [Race.goto, hbuilt]
  case answers =>
    intro j v hj
    by_cases he : j = i
    · simp [he] at hj
    · exact hs.answers j v (by simpa [he] using hj)

theorem finish (hs : s.Shared) {i c : Nat} (o : Outcome ε ν) (hi : s.phase i = .building c) :
    (({ s with cells := s.cells.settle c o, built := s.built ++ o.value?.toList } :
      Race ε ν).goto i (o.phase c)).Shared := by
  have hcurrent := hs.uses i c (.inr hi)
  have hclaimed := hs.claimed i c hi
  have hnone : s.cells.get? c = none := by simp [get?, hclaimed]
  have hbuilt := hs.built_eq_nil (by simp [value?, hcurrent, hnone])
  constructor
  case uses =>
    intro j k hj
    by_cases he : j = i
    · cases o <;> simp [Uses, he, Outcome.phase] at hj
    · exact hs.uses j k (by simpa [Uses, he] using hj)
  case claimed =>
    intro j k hj
    by_cases he : j = i
    · cases o <;> simp [he, Outcome.phase] at hj
    · have hj' : s.phase j = .building k := by simpa [he] using hj
      have hne : k ≠ c := by
        rintro rfl
        exact he (hs.alone j i k hj' hi)
      simpa [Race.goto, cell?_settle, hne] using hs.claimed j k hj'
  case alone =>
    intro j k d hj hk
    by_cases hej : j = i
    · cases o <;> simp [hej, Outcome.phase] at hj
    by_cases hek : k = i
    · cases o <;> simp [hek, Outcome.phase] at hk
    exact hs.alone j k d (by simpa [hej] using hj) (by simpa [hek] using hk)
  case ready =>
    intro k v hv
    rw [get?_eq_some] at hv
    simp only [Race.goto, cell?_settle] at hv
    by_cases hk : k = c
    · subst hk
      cases o <;> simp_all [Outcome.cell?, Outcome.value?, Race.goto]
    · rw [if_neg hk, ← get?_eq_some] at hv
      have hone := (hs.ready k v hv).2
      simp [hbuilt] at hone
  case built =>
    intro v hv
    cases o with
    | ok w =>
      obtain rfl : v = w := by simpa [Race.goto, hbuilt, Outcome.value?] using hv
      simp [Race.goto, value?, hcurrent, get?_eq_some, cell?_settle, Outcome.cell?]
    | failed e => simp [Race.goto, hbuilt, Outcome.value?] at hv
    | unwound => simp [Race.goto, hbuilt, Outcome.value?] at hv
  case answers =>
    intro j v hj
    by_cases he : j = i
    · cases o <;> simp_all [Outcome.phase, Outcome.value?, Race.goto]
    · have hone := hs.answers j v (by simpa [he] using hj)
      simp [hbuilt] at hone

theorem step (hs : s.Shared) (h : CarefulStep thread reentrant s t) : t.Shared := by
  obtain ⟨h, hcareful⟩ := h
  cases h with
  | find hi hc => exact hs.goto _ (by simp [hc]) (by simp) (by simp)
  | make hi hc =>
    have hbuilt := hs.built_eq_nil (by simp [value?, hc])
    have huses : ∀ j k, ¬s.Uses j k := fun j k hj => by simpa [hc] using hs.uses j k hj
    exact (hs.replace (some s.made) (s.made + 1) hbuilt huses).goto _ (by simp) (by simp) (by simp)
  | take hi hc =>
    have hv := (hs.ready _ _ (claim_found hc)).2
    exact hs.goto _ (by simp) (by simp) (by simp [hv])
  | reenter hi hc hj ht => exact hs.goto _ (by simp) (by simp) (by simp)
  | begin hi hc => exact hs.begin hi hc
  | finish o hi => exact hs.finish o hi
  | @evict i c e claimed hi hc hopen =>
    obtain ⟨_, hnone, hfree⟩ := claim_granted hopen
    -- A waiting call would go on to build in the cell that the table loses here.
    have huses : ∀ j k, ¬s.Uses j k := by
      intro j k hj
      obtain rfl : c = k := by simpa [hc] using hs.uses j k hj
      rcases hj with hj | hj
      · exact hcareful c hc rfl j hj
      · exact hfree (hs.claimed j c hj)
    have hbuilt := hs.built_eq_nil (by simp [value?, hc, hnone])
    exact (hs.replace none s.made hbuilt huses).goto _ (by simp) (by simp) (by simp)
  | leave hi hc => exact hs.goto _ (by simp) (by simp) (by simp)

end Shared

theorem shared_of_careful (h : Relation.ReflTransGen (CarefulStep thread reentrant) {} s) :
    s.Shared := by
  induction h with
  | refl => exact shared_start
  | tail _ hstep ih => exact ih.step hstep

/-- In a run that takes cells out of the table only while no call is waiting for them, one
constructor at most returns a value, all calls that are answered with a value have that one, and
the table keeps it. -/
theorem constructed_once (h : Relation.ReflTransGen (CarefulStep thread reentrant) {} s) :
    s.built.length ≤ 1 ∧ (∀ i v, s.phase i = .answered (.ok v) → s.built = [v]) ∧
      ∀ v ∈ s.built, s.value? = some v := by
  have hs := shared_of_careful h
  refine ⟨?_, hs.answers, hs.built⟩
  cases hbuilt : s.built with
  | nil => simp
  | cons v rest =>
    have hvalue := hs.built v (by simp [hbuilt])
    obtain ⟨c, _, hc⟩ := Option.bind_eq_some_iff.mp hvalue
    simp [← hbuilt, (hs.ready c v hc).2]

/-- A constructor that fails while nobody waits, and one that succeeds while another call does. -/
theorem constructed_once_retry :
    ∃ s : Race Unit Nat, Relation.ReflTransGen (CarefulStep id ()) {} s ∧
      s.phase 0 = .answered (.failed ()) ∧ s.phase 1 = .answered (.ok 7) ∧
      s.phase 2 = .answered (.ok 7) ∧ s.built.length ≤ 1 ∧
      (∀ i v, s.phase i = .answered (.ok v) → s.built = [v]) ∧
      ∀ v ∈ s.built, s.value? = some v := by
  have hrun : Relation.ReflTransGen (CarefulStep id ()) ({} : Race Unit Nat) _ :=
    .head ⟨.make (i := 0) rfl rfl, by simp⟩ <| .head ⟨.begin (i := 0) rfl rfl, by simp [goto]⟩ <|
      .head ⟨.finish (i := 0) (.failed ()) rfl, by simp [goto]⟩ <|
      .head ⟨.evict (i := 0) rfl rfl rfl, fun c _ _ i => by
        by_cases hi : i = 0 <;> simp [hi, Outcome.phase]⟩ <|
      .head ⟨.make (i := 1) rfl rfl, by simp [goto]⟩ <|
      .head ⟨.find (i := 2) rfl rfl, by simp [goto]⟩ <|
      .head ⟨.begin (i := 1) rfl rfl, by simp [goto]⟩ <|
      .head ⟨.finish (i := 1) (.ok 7) rfl, by simp [goto]⟩ <|
      .single ⟨.take (i := 2) rfl rfl, by simp [goto]⟩
  exact ⟨_, hrun, rfl, rfl, rfl, constructed_once hrun⟩

/-- Two calls look up one cell. The first fails and takes the cell out of the table before the
second has claimed it, so the second constructs an entry that the table never gets, and a third
call constructs another one. -/
theorem constructed_twice :
    ∃ s t : Race Unit Nat, Reachable id () {} s ∧ Reachable id () s t ∧
      s.phase 0 = .answered (.failed ()) ∧ s.phase 1 = .answered (.ok 2) ∧
      (∀ i, 1 < i → s.phase i = .asking) ∧ s.value? = none ∧
      t.phase 1 = .answered (.ok 2) ∧ t.phase 2 = .answered (.ok 3) ∧ t.built = [2, 3] := by
  have hfirst : Reachable id () ({} : Race Unit Nat) _ :=
    .head (.make (i := 0) rfl rfl) <| .head (.find (i := 1) (c := 0) rfl rfl) <|
      .head (.begin (i := 0) rfl rfl) <| .head (.finish (i := 0) (.failed ()) rfl) <|
      .head (.evict (i := 0) rfl rfl rfl) <| .head (.begin (i := 1) rfl rfl) <|
      .single (.finish (i := 1) (.ok 2) rfl)
  refine ⟨_, _, hfirst, .head (.make (i := 2) rfl rfl) <| .head (.begin (i := 2) rfl rfl) <|
    .single (.finish (i := 2) (.ok 3) rfl), rfl, rfl, ?_, rfl, rfl, rfl, rfl⟩
  intro i hi
  have hzero : i ≠ 0 := by omega
  have hone : i ≠ 1 := by omega
  simp [goto, hzero, hone]

end Race

end ShaderIR.OnceMap
