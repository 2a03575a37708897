/-! Tables whose entries are constructed once. A constructor may use the table while it runs;
asking for the entry under construction is noticed instead of going round forever. -/

namespace ShaderIR

inductive Cell (ν : Type) where
  | empty
  | building
  | ready (value : ν)
deriving DecidableEq, Inhabited

/-- Cells by key, in no particular order. -/
structure OnceMap (κ ν : Type) where
  cells : List (κ × Cell ν) := []
deriving Inhabited

namespace OnceMap

variable {κ ν : Type} [DecidableEq κ]

def empty : OnceMap κ ν := ⟨[]⟩

def cell? (m : OnceMap κ ν) (key : κ) : Option (Cell ν) :=
  m.cells.lookup key

/-- The finished entry of a key. -/
def get? (m : OnceMap κ ν) (key : κ) : Option ν :=
  match m.cell? key with
  | some (.ready value) => some value
  | _ => none

/-- The entry of the key has been claimed and is not finished. -/
def isBuilding (m : OnceMap κ ν) (key : κ) : Bool :=
  match m.cell? key with
  | some .building => true
  | _ => false

/-- Number of finished entries. -/
def size (m : OnceMap κ ν) : Nat :=
  m.cells.countP fun
    | (_, .ready _) => true
    | _ => false

/-- Number of cells, finished or not. -/
def cellCount (m : OnceMap κ ν) : Nat :=
  m.cells.length

def setIn (key : κ) (cell : Cell ν) : List (κ × Cell ν) → List (κ × Cell ν)
  | [] => [(key, cell)]
  | (k, c) :: rest => if k = key then (k, cell) :: rest else (k, c) :: setIn key cell rest

def set (m : OnceMap κ ν) (key : κ) (cell : Cell ν) : OnceMap κ ν :=
  ⟨setIn key cell m.cells⟩

def erase (m : OnceMap κ ν) (key : κ) : OnceMap κ ν :=
  ⟨m.cells.filter fun entry => decide (entry.1 ≠ key)⟩

/-- Answer to the request to construct an entry. -/
inductive Claim (κ ν : Type) where
  | found (value : ν)
  | reentrant
  | granted (table : OnceMap κ ν)

/-- Marks the cell of a key as under construction unless it is finished or claimed. -/
def claim (m : OnceMap κ ν) (key : κ) : Claim κ ν :=
  match m.cell? key with
  | some (.ready value) => .found value
  | some .building => .reentrant
  | _ => .granted (m.set key .building)

/-- How a constructor ends: with a value, with an error, or by being torn down. -/
inductive Outcome (ε ν : Type) where
  | ok (value : ν)
  | failed (error : ε)
  | unwound
deriving DecidableEq

/-- Settles a claimed cell: a value is kept, an error removes the cell, and being torn down
leaves it empty. -/
def settle {ε : Type} (m : OnceMap κ ν) (key : κ) : Outcome ε ν → OnceMap κ ν
  | .ok value => m.set key (.ready value)
  | .failed _ => m.erase key
  | .unwound => m.set key .empty

/-- The entry of a key, constructed by `init` if it is not there. -/
def getOrInit {ε : Type} (m : OnceMap κ ν) (key : κ) (reentrant : ε)
    (init : OnceMap κ ν → Outcome ε ν × OnceMap κ ν) : Outcome ε ν × OnceMap κ ν :=
  match m.claim key with
  | .found value => (.ok value, m)
  | .reentrant => (.failed reentrant, m)
  | .granted claimed =>
    let (outcome, after) := init claimed
    (outcome, after.settle key outcome)

end OnceMap

end ShaderIR
