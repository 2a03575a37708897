import ShaderIR.Journal

/-! Depth-first walks over a program that stop at the first error. A walk also stops when it
has gone deeper than it was allowed to, which is no error of the program. A walk is made of steps,
each of which reads and changes the state at once, so that walks can also take turns on one
state. -/

namespace ShaderIR

/-- Why a walk stopped early. -/
inductive Stop (ε : Type) where
  | failed (error : ε)
  | tooDeep
deriving DecidableEq

/-- A computation that may stop early and keeps its state when it does. A step changes the state
by `next`, and what follows depends on the state before it. While the state is `busy` another walk
has to go on first, if there is one. -/
inductive Walk (σ ε α : Type) where
  | done (result : Except (Stop ε) α)
  | step (busy : σ → Bool) (next : σ → σ) (rest : σ → Walk σ ε α)

namespace Walk

variable {σ ε α β : Type}

protected def bind : Walk σ ε α → (α → Walk σ ε β) → Walk σ ε β
  | .done (.ok a), f => f a
  | .done (.error e), _ => .done (.error e)
  | .step busy next rest, f => .step busy next fun s => (rest s).bind f

instance : Monad (Walk σ ε) where
  pure a := .done (.ok a)
  bind := Walk.bind

/-- Goes on with `handle` if the walk stops early. -/
protected def tryCatch : Walk σ ε α → (Stop ε → Walk σ ε α) → Walk σ ε α
  | .done (.ok a), _ => .done (.ok a)
  | .done (.error e), handle => handle e
  | .step busy next rest, handle => .step busy next fun s => (rest s).tryCatch handle

instance : MonadExceptOf (Stop ε) (Walk σ ε) where
  throw e := .done (.error e)
  tryCatch := Walk.tryCatch

/-- One step that never has to wait. -/
protected def modifyGet (f : σ → α × σ) : Walk σ ε α :=
  .step (fun _ => false) (fun s => (f s).2) fun s => .done (.ok (f s).1)

instance : MonadStateOf σ (Walk σ ε) where
  get := Walk.modifyGet fun s => (s, s)
  set s := Walk.modifyGet fun _ => (⟨⟩, s)
  modifyGet := Walk.modifyGet

def fail (e : ε) : Walk σ ε α :=
  throw (.failed e)

def ofExcept : Except ε α → Walk σ ε α
  | .ok a => pure a
  | .error e => fail e

/-- Runs a walk by itself to its outcome and its last state. -/
def outcome : Walk σ ε α → σ → Except (Stop ε) α × σ
  | .done result, s => (result, s)
  | .step _ next rest, s => (rest s).outcome (next s)

end Walk

end ShaderIR
