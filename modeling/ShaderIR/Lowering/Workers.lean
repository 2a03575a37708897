import ShaderIR.Lowering.Session

/-! Several workers on one session. The workers take methods from a common counter and lower them
step by step, and a schedule says which of them goes on. The first of them to fail stops the
others, and of several failures that of the earliest method is reported. -/

namespace ShaderIR.Lowering

/-- What a worker is about to do. -/
inductive Task (κ : Type) where
  /-- To take a method. -/
  | free
  /-- To go on with the method at a position. -/
  | building (index : Nat) (rest : Pass κ Function)
  /-- To report that the method at a position has failed. -/
  | failing (index : Nat) (stop : Stop LoweringError)
  /-- To stop the others. -/
  | stopping
  | done

/-- The workers with what they share. -/
structure Team (κ : Type) where
  counter : Nat := 0
  failure : Option (Nat × Stop LoweringError) := none
  tasks : List (Task κ)
  session : Session κ

namespace Team

variable {κ : Type}

/-- The failure to report after another one: that of the earlier method. -/
def earlier (index : Nat) (stop : Stop LoweringError) :
    Option (Nat × Stop LoweringError) → Nat × Stop LoweringError
  | none => (index, stop)
  | some (first, reported) => if index < first then (index, stop) else (first, reported)

def assign (t : Team κ) (worker : Nat) (task : Task κ) : Team κ :=
  { t with tasks := t.tasks.set worker task }

/-- What a worker does when its turn comes. -/
def turn (compile : LocatedMethod → Pass κ Function) (methods : List LocatedMethod) (t : Team κ)
    (worker : Nat) : Team κ :=
  match t.tasks[worker]? with
  | some .free =>
    match methods[t.counter]? with
    | some m => { t.assign worker (.building t.counter (compile m)) with counter := t.counter + 1 }
    | none => { t.assign worker .done with counter := t.counter + 1 }
  | some (.building _ (.done (.ok _))) => t.assign worker .free
  | some (.building index (.done (.error stop))) => t.assign worker (.failing index stop)
  | some (.building index (.step busy next rest)) =>
    if busy t.session then t
    else { t.assign worker (.building index (rest t.session)) with session := next t.session }
  | some (.failing index stop) =>
    { t.assign worker .stopping with failure := some (earlier index stop t.failure) }
  | some .stopping => { t.assign worker .done with counter := methods.length }
  | some .done | none => t

/-- The worker has finished, or has to wait for another one. -/
def rests (t : Team κ) (worker : Nat) : Bool :=
  match t.tasks[worker]? with
  | some (.building _ (.step busy _ _)) => busy t.session
  | some .done | none => true
  | some _ => false

/-- Up to the given number of turns of one worker. -/
def goOn (compile : LocatedMethod → Pass κ Function) (methods : List LocatedMethod) (worker : Nat) :
    Nat → Team κ → Team κ
  | 0, t => t
  | turns + 1, t =>
    if t.rests worker then t else goOn compile methods worker turns (t.turn compile methods worker)

def isDone : Task κ → Bool
  | .done => true
  | _ => false

/-- How the work ended, if every worker has finished. -/
def result (t : Team κ) : Except (Stop LoweringError) Unit :=
  if t.tasks.all isDone then
    match t.failure with
    | some (_, stop) => .error stop
    | none => .ok ()
  else .error .tooDeep

end Team

/-- Which workers go on, one after the other, and for how many turns. -/
abbrev Schedule := List (Nat × Nat)

/-- Each worker goes on for as long as it can. -/
def Schedule.inOrder (workers : Nat) : Schedule :=
  (List.range workers).map fun worker => (worker, 1000000000000)

variable {κ : Type}

/-- The team after the turns of a schedule. -/
def Team.run (compile : LocatedMethod → Pass κ Function) (methods : List LocatedMethod)
    (schedule : Schedule) (t : Team κ) : Team κ :=
  schedule.foldl (fun t (worker, turns) => t.goOn compile methods worker turns) t

/-- Compiles methods with several workers. -/
def share (compile : LocatedMethod → Pass κ Function) (workers : Nat) (schedule : Schedule)
    (methods : List LocatedMethod) : Pass κ Unit := do
  let result ← modifyGet fun s =>
    let team := Team.run compile methods schedule
      { tasks := List.replicate workers .free, session := s }
    (team.result, team.session)
  match result with
  | .ok () => pure ()
  | .error stop => throw stop

end ShaderIR.Lowering
