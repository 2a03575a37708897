import ShaderIR.Binary.Stream
import ShaderIR.Heap

/-! The journal of a session: which instances have been built, and the log of what was done. What
an instance looks like is settled by what it is made of; the journal tells which instance is new,
and which object it is. -/

namespace ShaderIR

open Binary (Id)

inductive LogEntry where
  | constructing (ty : Ty)
  | specialized (method : String) (arguments : List Ty)
  | lowered (ty : Ty) (id : Id)
  | compiled (method : String) (id : Id) (words : Nat)
  | skipping (method : String)
  | summary (program : String) (functions bound bytes : Nat)
deriving DecidableEq

inductive LogLevel where
  | debug
  | info
  | warn
deriving DecidableEq

def LogLevel.text : LogLevel → String
  | .debug => "DEBUG"
  | .info => "INFO"
  | .warn => "WARN"

namespace LogEntry

def level : LogEntry → LogLevel
  | .skipping _ => .warn
  | .summary .. => .info
  | _ => .debug

def message : LogEntry → String
  | .constructing ty => "constructing type " ++ ty.text
  | .specialized method arguments =>
    "specialized " ++ method ++ " with [" ++ Ty.textList arguments ++ "]"
  | .lowered ty id => "lowered type " ++ ty.text ++ " as " ++ id.text
  | .compiled method id words =>
    "compiled " ++ method ++ " as " ++ id.text ++ " (" ++ toString words ++ " words)"
  | .skipping method => "skipping " ++ method ++ ": method is still generic"
  | .summary program functions bound bytes =>
    program ++ ": " ++ toString functions ++ " function(s), bound " ++ toString bound ++ ", " ++
      toString bytes ++ " bytes"

def text (e : LogEntry) : String :=
  e.level.text ++ " " ++ e.message

end LogEntry

structure Journal where
  /-- Instances of generic declarations. -/
  types : List (Site × List Ty) := []
  /-- Argument lists that generic methods have accepted. -/
  methods : List (MethodId × List Ty) := []
  log : Array LogEntry := #[]
  heap : Heap := {}
deriving Inhabited

namespace Journal

def record (j : Journal) (e : LogEntry) : Journal :=
  { j with log := j.log.push e }

/-- Notes an instance; one of a declaration without parameters leaves no trace. -/
def noteType (j : Journal) (site : Site) (i : TypeInstance) : Journal :=
  if i.substitution.isEmpty || decide ((site, i.ty.arguments) ∈ j.types) then j
  else { j with types := (site, i.ty.arguments) :: j.types }.record (.constructing i.ty)

/-- Notes that a generic method has accepted arguments; only concrete ones are logged. -/
def noteMethod (j : Journal) (m : LocatedMethod) (arguments : List Ty) : Journal :=
  if (m.id, arguments) ∈ j.methods then j
  else
    let noted := { j with methods := (m.id, arguments) :: j.methods }
    if Ty.anyGeneric arguments then noted else noted.record (.specialized m.fullName arguments)

/-- How many different concrete argument lists a generic method has accepted. -/
def specializations (j : Journal) (id : MethodId) : Nat :=
  j.methods.countP fun (other, arguments) => decide (other = id) && !Ty.anyGeneric arguments

/-- Notes the instance that a request for a type needs, if there is one. -/
def noteConstructed (j : Journal) (p : Program) : Ty → Journal
  | .param .. => j
  | .named name arguments =>
    match p.find? name with
    | none => j
    | some (path, d) =>
      match d.instantiate arguments with
      | .error _ => j
      | .ok i => j.noteType ⟨path, d.fullName⟩ i

/-- The journal after a request for a type. -/
def afterConstruct (j : Journal) (p : Program) (ty : Ty) : Journal :=
  { j.noteConstructed p ty with heap := (j.heap.construct p ty).2 }

/-- The journal after a request to instantiate a method. -/
def afterInstantiate (j : Journal) (m : LocatedMethod) (arguments : List Ty) : Journal :=
  match m.instantiate arguments with
  | .error _ => j
  | .ok _ => j.noteMethod m arguments

/-- Notes the instances that a method reference needs. -/
def noteResolved (j : Journal) (p : Program) (r : MethodRef) : Journal :=
  let j := j.noteConstructed p r.owner
  match p.locate r with
  | .error _ => j
  | .ok m => if r.typeArguments.isEmpty then j else j.afterInstantiate m r.typeArguments

/-- The journal after a method reference was resolved, successfully or not. -/
def afterResolve (j : Journal) (p : Program) (r : MethodRef) : Journal :=
  { j.noteResolved p r with heap := (j.heap.resolve p r).2 }

end Journal

end ShaderIR
