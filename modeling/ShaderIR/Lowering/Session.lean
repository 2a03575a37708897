import ShaderIR.Lowering.Types
import ShaderIR.OnceMap
import ShaderIR.Validation.Walk

/-! The state of a lowering session: what has been declared, which types and functions have
been lowered, and the entry points found so far. It survives failed requests. -/

namespace ShaderIR.Lowering

open Binary (Id Inst)

/-- The lowered form of a concrete method; the receiver is the first parameter. -/
structure Function where
  id : Id
  method : LocatedMethod
  returnType : LoweredType
  parameters : List LoweredType
  code : List Inst
deriving Inhabited

/-- The state of a session. Functions are kept by what methods are told apart by, which is their
identity unless something else is said. -/
structure Session (κ : Type := MethodId) where
  journal : Journal := {}
  declarations : Declarations := {}
  entryPoints : Array Inst := #[]
  modes : Array Inst := #[]
  types : OnceMap Ty LoweredType := .empty
  functions : OnceMap κ Function := .empty
  /-- Finished functions in the order of completion. -/
  order : Array Function := #[]
deriving Inhabited

abbrev Pass (κ : Type) := Walk (Session κ) LoweringError

variable {κ : Type}

def declaring {α : Type} (action : Declarations.M α) : Pass κ α :=
  modifyGet fun s =>
    let (a, d) := action.run s.declarations
    (a, { s with declarations := d })

def fresh : Pass κ Id :=
  declaring Declarations.fresh

def log (e : LogEntry) : Pass κ Unit :=
  modify fun s => { s with journal := s.journal.record e }

def unsupported {α : Type} (cause : Unsupported) : Pass κ α :=
  Walk.fail (.unsupported cause)

def ofIr {α : Type} : Except IrError α → Pass κ α
  | .ok a => pure a
  | .error e => Walk.fail (.ir e)

/-- Constructs a type, noting the instance it needs. -/
def construct (p : Program) (ty : Ty) : Pass κ TypeInstance := do
  modify fun s => { s with journal := s.journal.afterConstruct p ty }
  ofIr (p.construct ty)

/-- A table of a session whose entries are constructed once. -/
structure Table (κ ι ν : Type) where
  get : Session κ → OnceMap ι ν
  set : Session κ → OnceMap ι ν → Session κ

def Table.types : Table κ Ty LoweredType :=
  ⟨Session.types, fun s t => { s with types := t }⟩

def Table.functions : Table κ κ Function :=
  ⟨Session.functions, fun s t => { s with functions := t }⟩

/-- Claims the entry of a key, in one step. A session that is shared keeps whoever asks waiting
while another one constructs the entry. -/
def claim {ι ν : Type} [DecidableEq ι] (table : Table κ ι ν) (key : ι) :
    Pass κ (OnceMap.Claim ι ν) :=
  .step (fun s => (table.get s).isBuilding key)
    (fun s =>
      match (table.get s).claim key with
      | .granted claimed => table.set s claimed
      | _ => s)
    fun s => pure ((table.get s).claim key)

/-- The entry of a key, built on first use. A failed build leaves no entry. -/
def once {ι ν : Type} [DecidableEq ι] (table : Table κ ι ν) (key : ι) (build : Pass κ ν) :
    Pass κ ν := do
  match ← claim table key with
  | .found value => return value
  | .reentrant => Walk.fail .cyclic
  | .granted _ =>
    try
      let value ← build
      modify fun s => table.set s ((table.get s).set key (.ready value))
      pure value
    catch e =>
      modify fun s => table.set s ((table.get s).erase key)
      throw e

end ShaderIR.Lowering
