import ShaderIR.Proofs.WorkerLoop

/-! The workers of a pass run the loop of a crew. What a worker does inside the compilation of a
method, and where it waits for another one, does not show there; taking a method, ending it,
recording a failure and stopping the others do. So a team whose methods end as they would on their
own answers as compiling them one after the other does, whatever the schedule. -/

namespace ShaderIR.Lowering

variable {κ : Type} {k : Nat} {methods : List LocatedMethod}
  {compile : LocatedMethod → Pass κ Function} {build : LocatedMethod → Except LoweringError Unit}

/-- Where a task stands in the loop. -/
inductive Task.At (methods : List LocatedMethod) : Task κ → Worker → Prop
  | free : At methods .free .free
  | building {index : Nat} {rest : Pass κ Function} (h : index < methods.length) :
      At methods (.building index rest) (.building index)
  | failing {index : Nat} {e : LoweringError} :
      At methods (.failing index (.failed e)) (.failing index e)
  | stopping : At methods .stopping .stopping
  | done : At methods .done .done

namespace Team

/-- The crew has come as far as the team. -/
structure Shows (methods : List LocatedMethod) (t : Team κ) (c : Crew k) : Prop where
  counter : t.counter = c.counter
  failure : t.failure = c.failure.map fun x => (x.1, .failed x.2)
  size : t.tasks.length = k
  tasks : ∀ (w : Fin k) (task : Task κ), t.tasks[w.val]? = some task → task.At methods (c.worker w)

/-- A method that a worker is through with has ended as it would on its own. -/
def Meets (build : LocatedMethod → Except LoweringError Unit) (methods : List LocatedMethod)
    (t : Team κ) : Prop :=
  ∀ index m result, methods[index]? = some m → .building index (.done result) ∈ t.tasks →
    result.map (fun _ => ()) = (build m).mapError .failed

variable {t : Team κ} {c : Crew k}

namespace Shows

theorem start (s : Session κ) :
    Shows methods { tasks := List.replicate k .free, session := s } ({} : Crew k) where
  counter := rfl
  failure := rfl
  size := List.length_replicate
  tasks w task htask := by
    obtain rfl := List.eq_of_mem_replicate (List.mem_of_getElem? htask)
    exact .free

theorem assign (h : t.Shows methods c) (w : Fin k) {task : Task κ} {place : Worker}
    (hplace : task.At methods place) :
    (t.assign w task).Shows methods (c.goto w place) := by
  refine ⟨h.counter, h.failure, by simpa [Team.assign] using h.size, fun v other hother => ?_⟩
  rw [Crew.goto_worker]
  by_cases hv : v = w
  · subst hv
    rw [Team.assign, List.getElem?_set_self (h.size.symm ▸ v.isLt)] at hother
    cases hother
    simpa using hplace
  · have hne : w.val ≠ v.val := fun he => hv (Fin.ext he.symm)
    rw [Team.assign, List.getElem?_set_ne hne] at hother
    simpa [hv] using h.tasks v other hother

theorem earlier_map (index : Nat) (e : LoweringError) (failure : Option (Nat × LoweringError)) :
    some (earlier index (.failed e) (failure.map fun x => (x.1, .failed x.2))) =
      (Crew.firstFailure index e failure).map fun x => (x.1, .failed x.2) := by
  cases failure with
  | none => rfl
  | some x =>
    simp only [Option.map_some, earlier, Crew.firstFailure]
    split <;> rfl

/-- A free worker takes the method that the counter is at, or leaves. -/
theorem turn_free (h : t.Shows methods c) {w : Fin k} (hworker : c.worker w = .free)
    (htask : t.tasks[w.val]? = some .free) :
    (t.turn compile methods w).Shows methods (c.advance methods build w) := by
  unfold Team.turn Crew.advance
  rw [htask, hworker, ← h.counter]
  by_cases hn : t.counter < methods.length
  · obtain ⟨m, hm⟩ : ∃ m, methods[t.counter]? = some m := ⟨_, List.getElem?_eq_getElem hn⟩
    have hassigned := h.assign w (.building hn : Task.At methods (.building _ (compile m)) _)
    simp only [hm, hn, if_true]
    exact ⟨rfl, hassigned.failure, hassigned.size, hassigned.tasks⟩
  · have hm : methods[t.counter]? = none := List.getElem?_eq_none (Nat.le_of_not_lt hn)
    have hassigned := h.assign w (.done : Task.At methods _ _)
    simp only [hm, hn, if_false]
    exact ⟨rfl, hassigned.failure, hassigned.size, hassigned.tasks⟩

/-- A worker that is through with a method goes on, or has failed as the method would on its own. -/
theorem turn_done (h : t.Shows methods c) {w : Fin k} {index : Nat} {m : LocatedMethod}
    {result : Except (Stop LoweringError) Function} (hm : methods[index]? = some m)
    (hworker : c.worker w = .building index)
    (htask : t.tasks[w.val]? = some (.building index (.done result)))
    (hresult : result.map (fun _ => ()) = (build m).mapError .failed) :
    (t.turn compile methods w).Shows methods (c.advance methods build w) := by
  unfold Team.turn Crew.advance
  rw [htask, hworker]
  cases hb : build m with
  | ok _ =>
    cases result with
    | error stop => simp [hb, Except.map, Except.mapError] at hresult
    | ok f =>
      have hassigned := h.assign w (.free : Task.At methods _ _)
      simp only [hm, Option.map_some, hb]
      exact ⟨hassigned.counter, hassigned.failure, hassigned.size, hassigned.tasks⟩
  | error e =>
    cases result with
    | ok f => simp [hb, Except.map, Except.mapError] at hresult
    | error stop =>
      obtain rfl : stop = .failed e := by simpa [hb, Except.map, Except.mapError] using hresult
      have hassigned := h.assign w (.failing : Task.At methods (.failing index (.failed e)) _)
      simp only [hm, Option.map_some, hb]
      exact ⟨hassigned.counter, hassigned.failure, hassigned.size, hassigned.tasks⟩

/-- What happens inside the compilation of a method does not show. -/
theorem turn_step (h : t.Shows methods c) {w : Fin k} {index : Nat} {busy : Session κ → Bool}
    {next : Session κ → Session κ} {rest : Session κ → Pass κ Function}
    (hindex : index < methods.length) (hworker : c.worker w = .building index)
    (htask : t.tasks[w.val]? = some (.building index (.step busy next rest))) :
    (t.turn compile methods w).Shows methods c := by
  unfold Team.turn
  rw [htask]
  by_cases hbusy : busy t.session = true
  · simpa only [hbusy, if_true] using h
  · have hassigned :=
      h.assign w (.building hindex : Task.At methods (.building _ (rest t.session)) _)
    rw [Crew.goto, ← hworker, Function.update_eq_self] at hassigned
    simp only [hbusy]
    exact ⟨hassigned.counter, hassigned.failure, hassigned.size, hassigned.tasks⟩

/-- A turn of a worker shows in the crew, or happens inside the compilation of a method. -/
theorem turn (h : t.Shows methods c) (hmeets : t.Meets build methods) (w : Fin k) :
    (t.turn compile methods w).Shows methods c ∨
      (t.turn compile methods w).Shows methods (c.advance methods build w) := by
  obtain ⟨task, htask⟩ : ∃ task, t.tasks[w.val]? = some task :=
    ⟨_, List.getElem?_eq_getElem (h.size.symm ▸ w.isLt)⟩
  have hat := h.tasks w task htask
  generalize hworker : c.worker w = place at hat
  cases hat with
  | free => exact .inr (h.turn_free hworker htask)
  | @building index rest hindex =>
    obtain ⟨m, hm⟩ : ∃ m, methods[index]? = some m := ⟨_, List.getElem?_eq_getElem hindex⟩
    cases rest with
    | done result =>
      have hresult := hmeets index m result hm (List.mem_of_getElem? htask)
      exact .inr (h.turn_done hm hworker htask hresult)
    | step busy next rest => exact .inl (h.turn_step hindex hworker htask)
  | @failing index e =>
    have hassigned := h.assign w (.stopping : Task.At methods _ _)
    right
    unfold Team.turn Crew.advance
    rw [htask, hworker]
    refine ⟨hassigned.counter, ?_, hassigned.size, hassigned.tasks⟩
    rw [h.failure]
    exact earlier_map index e c.failure
  | stopping =>
    have hassigned := h.assign w (.done : Task.At methods _ _)
    right
    unfold Team.turn Crew.advance
    rw [htask, hworker]
    exact ⟨rfl, hassigned.failure, hassigned.size, hassigned.tasks⟩
  | done =>
    left
    unfold Team.turn
    rw [htask]
    exact h

/-- A team that has finished has the answer of its crew. -/
theorem result_eq (h : t.Shows methods c) (hdone : t.tasks.all isDone = true) :
    c.Finished ∧ t.result = c.result.mapError .failed := by
  refine ⟨fun w => ?_, ?_⟩
  · obtain ⟨task, htask⟩ : ∃ task, t.tasks[w.val]? = some task :=
      ⟨_, List.getElem?_eq_getElem (h.size.symm ▸ w.isLt)⟩
    have hend := List.all_eq_true.mp hdone task (List.mem_of_getElem? htask)
    have hat := h.tasks w task htask
    generalize c.worker w = place at hat ⊢
    cases hat with
    | done => rfl
    | _ => cases hend
  · rw [Team.result, if_pos hdone, h.failure, Crew.result]
    cases c.failure <;> rfl

section Runs

variable {inv : Team κ → Prop} (hturn : ∀ t w, inv t → inv (t.turn compile methods w))
  (hmeets : ∀ t, inv t → t.Meets build methods)

include hturn hmeets

theorem goOn (h : t.Shows methods c) (ht : inv t) (worker turns : Nat) :
    inv (t.goOn compile methods worker turns) ∧ ∃ schedule : List (Fin k),
      (t.goOn compile methods worker turns).Shows methods
        (schedule.foldl (Crew.advance methods build) c) := by
  induction turns generalizing t c with
  | zero => exact ⟨ht, [], h⟩
  | succ turns ih =>
    rw [Team.goOn]
    split
    · exact ⟨ht, [], h⟩
    · rename_i hrests
      have hworker : worker < k := by
        by_contra hk
        have hnone : t.tasks[worker]? = none :=
          List.getElem?_eq_none (h.size.symm ▸ Nat.le_of_not_lt hk)
        simp [rests, hnone] at hrests
      rcases h.turn (hmeets t ht) ⟨worker, hworker⟩ with hnext | hnext
      · exact ih hnext (hturn t worker ht)
      · obtain ⟨hinv, schedule, hshows⟩ := ih hnext (hturn t worker ht)
        exact ⟨hinv, ⟨worker, hworker⟩ :: schedule, hshows⟩

theorem run (h : t.Shows methods c) (ht : inv t) (schedule : Schedule) :
    ∃ turns : List (Fin k), (t.run compile methods schedule).Shows methods
      (turns.foldl (Crew.advance methods build) c) := by
  induction schedule generalizing t c with
  | nil => exact ⟨[], h⟩
  | cons entry schedule ih =>
    obtain ⟨hinv, first, hfirst⟩ := h.goOn hturn hmeets ht entry.1 entry.2
    obtain ⟨rest, hrest⟩ := ih hfirst hinv
    exact ⟨first ++ rest, by rwa [List.foldl_append]⟩

end Runs

end Shows

end Team

theorem outcome_share (compile : LocatedMethod → Pass κ Function) (workers : Nat)
    (schedule : Schedule) (methods : List LocatedMethod) (s : Session κ) :
    ((share compile workers schedule methods).outcome s).1 =
      (Team.run compile methods schedule
        { tasks := List.replicate workers .free, session := s }).result := by
  unfold share
  rw [Walk.outcome_bind, Walk.outcome_modifyGet]
  dsimp only
  cases (Team.run compile methods schedule
    { tasks := List.replicate workers .free, session := s }).result <;> rfl

/-- If methods end in every turn as they would on their own, the workers answer as compiling the
methods one after the other does, whatever the schedule that they finish by. -/
theorem share_eq_forM {inv : Team κ → Prop}
    (hturn : ∀ t w, inv t → inv (t.turn compile methods w))
    (hmeets : ∀ t, inv t → t.Meets build methods) (hk : 0 < k) {s : Session κ}
    (hstart : inv { tasks := List.replicate k .free, session := s }) (schedule : Schedule)
    (hdone : (Team.run compile methods schedule
      { tasks := List.replicate k .free, session := s }).tasks.all Team.isDone = true) :
    ((share compile k schedule methods).outcome s).1 =
      (methods.forM build).mapError .failed := by
  obtain ⟨turns, hshows⟩ := (Team.Shows.start s).run hturn hmeets hstart schedule
  obtain ⟨hfinished, hresult⟩ := hshows.result_eq hdone
  rw [outcome_share, hresult]
  exact congrArg (Except.mapError Stop.failed) (Crew.result_run hk hfinished)

/-- Two workers fail, the one with the later method first, and the earlier method is reported. -/
example : ((share (compileMethod Trio.program 9) 2 [(0, 1), (1, 40), (0, 60), (1, 40)]
    (Trio.methods.drop 1)).outcome {}).1 =
      ((Trio.methods.drop 1).forM Trio.alone).mapError .failed := by
  decide +kernel

end ShaderIR.Lowering
