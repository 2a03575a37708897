import ShaderIR.Instruction
import ShaderIR.Json.Parser
import ShaderIR.Program

/-! Manifests: the entries of a program description and how they are read from data. A record
is an object with its fields, or an array of them in order. -/

namespace ShaderIR.Manifest

open Json (Value Number)

structure ParamEntry where
  name : String
  oneOf : List String := []

structure FieldEntry where
  name : String
  type : String

structure CallEntry where
  owner : String
  method : String
  typeArguments : List String := []
  parameters : Option (List String) := none
  result : Option UInt32 := none
  arguments : List UInt32 := []

/-- An instruction of a body with its types still as texts; a float is given by its bits. -/
inductive InstructionEntry where
  | negate (dst src : UInt32)
  | add (dst lhs rhs : UInt32)
  | subtract (dst lhs rhs : UInt32)
  | multiply (dst lhs rhs : UInt32)
  | divide (dst lhs rhs : UInt32)
  | modulo (dst lhs rhs : UInt32)
  | remainder (dst lhs rhs : UInt32)
  | call (entry : CallEntry)
  | ret
  | retValue (value : UInt32)
  | define (type : String)
  | load (dst src : UInt32)
  | loadUInt32 (dst value : UInt32)
  | loadFloat32 (dst bits : UInt32)
  | loadElement (dst src index : UInt32)
  | setElement (dst index value : UInt32)
  | loadField (dst src field : UInt32)
  | setField (dst field value : UInt32)

structure MethodEntry where
  name : String
  isStatic : Bool := false
  kernel : Option (UInt32 × UInt32 × UInt32) := none
  returns : Option String := none
  parameters : List String := []
  genericParameters : List ParamEntry := []
  body : List InstructionEntry := []

structure TypeEntry where
  name : String
  genericParameters : List ParamEntry := []
  spirv : Option String := none
  fields : List FieldEntry := []
  methods : List MethodEntry := []

structure Entry where
  program : String
  lookupOrder : LookupOrder := .localFirst
  types : List TypeEntry := []

/-! Readers of single values. -/

abbrev Reader (α : Type) := Value → Option α

def readString : Reader String
  | .string s => some s
  | _ => none

def readBool : Reader Bool
  | .bool b => some b
  | _ => none

/-- An integer written without fraction, exponent or sign, of at most 32 bits. -/
def readUInt32 : Reader UInt32
  | .number (.natural n) => if n.toNat < 0x100000000 then some n.toUInt32 else none
  | _ => none

/-- The bits of the single-precision float nearest to a number. -/
def readFloatBits : Reader UInt32
  | .number (.natural n) => some n.toFloat32.toBits
  | .number (.negative n) => some n.toFloat32.toBits
  | .number (.real x) => some x.toFloat32.toBits
  | _ => none

def readEach {α : Type} (read : Reader α) : List Value → Option (List α)
  | [] => some []
  | v :: vs => do return (← read v) :: (← readEach read vs)

def readList {α : Type} (read : Reader α) : Reader (List α)
  | .array vs => readEach read vs
  | _ => none

/-- A value that may be null. -/
def readOptional {α : Type} (read : Reader α) : Reader (Option α)
  | .null => some none
  | v => (read v).map some

def readKernel : Reader (UInt32 × UInt32 × UInt32)
  | .array [x, y, z] => do return (← readUInt32 x, ← readUInt32 y, ← readUInt32 z)
  | _ => none

/-- A name, or an object whose only entry has that name and the value null. -/
def readLookupOrder : Reader LookupOrder
  | .string "local_first" | .object [("local_first", .null)] => some .localFirst
  | .string "dependencies_first" | .object [("dependencies_first", .null)] =>
    some .dependenciesFirst
  | _ => none

/-! Records. -/

/-- The fields of a record by name, where present. -/
abbrev Fields := List (String × Value)

def required {α : Type} (fields : Fields) (name : String) (read : Reader α) : Option α :=
  fields.lookup name >>= read

def optional {α : Type} (fields : Fields) (name : String) (read : Reader α) (absent : α) :
    Option α :=
  match fields.lookup name with
  | some v => read v
  | none => some absent

def hasDuplicate : List String → Bool
  | [] => false
  | k :: ks => decide (k ∈ ks) || hasDuplicate ks

/-- The fields of an object; known names may not be repeated. -/
def objectFields (names : List String) (entries : List (String × Value)) : Option Fields :=
  let known := entries.filter fun e => decide (e.1 ∈ names)
  if hasDuplicate (known.map Prod.fst) then none else some known

/-- The fields of an array, in the order of their names. -/
def arrayFields (names : List String) (items : List Value) : Option Fields :=
  if names.length < items.length then none else some (names.zip items)

/-- The fields of a record that has no others than these. -/
def closedRecord (names : List String) : Value → Option Fields
  | .object entries =>
    if entries.all fun e => decide (e.1 ∈ names) then objectFields names entries else none
  | .array items => arrayFields names items
  | _ => none

def readParam : Reader ParamEntry := fun v => do
  let fields ← closedRecord ["name", "one_of"] v
  return { name := ← required fields "name" readString
           oneOf := ← optional fields "one_of" (readList readString) [] }

def readField : Reader FieldEntry := fun v => do
  let fields ← closedRecord ["name", "type"] v
  return { name := ← required fields "name" readString
           type := ← required fields "type" readString }

/-! Instructions. -/

/-- The name of an instruction and its other fields in order. -/
structure Form where
  name : String
  fields : List String
  read : Fields → Option InstructionEntry

/-- An instruction with two fields; the first is a variable. -/
def pairForm (name first second : String) (read : Reader UInt32)
    (make : UInt32 → UInt32 → InstructionEntry) : Form where
  name
  fields := [first, second]
  read fields := do
    return make (← required fields first readUInt32) (← required fields second read)

/-- An instruction with three numbers as fields. -/
def tripleForm (name first second third : String)
    (make : UInt32 → UInt32 → UInt32 → InstructionEntry) : Form where
  name
  fields := [first, second, third]
  read fields := do
    return make (← required fields first readUInt32) (← required fields second readUInt32)
      (← required fields third readUInt32)

def callForm : Form where
  name := "Call"
  fields := ["owner", "method", "type_arguments", "parameters", "result", "arguments"]
  read fields := do
    return .call
      { owner := ← required fields "owner" readString
        method := ← required fields "method" readString
        typeArguments := ← optional fields "type_arguments" (readList readString) []
        parameters := ← optional fields "parameters" (readOptional (readList readString)) none
        result := ← optional fields "result" (readOptional readUInt32) none
        arguments := ← optional fields "arguments" (readList readUInt32) [] }

def defineForm : Form where
  name := "DefVariable"
  fields := ["type"]
  read fields := (required fields "type" readString).map .define

def forms : List Form :=
  [pairForm "Negate" "dst" "src" readUInt32 .negate,
    tripleForm "Add" "dst" "lhs" "rhs" .add,
    tripleForm "Subtract" "dst" "lhs" "rhs" .subtract,
    tripleForm "Multiply" "dst" "lhs" "rhs" .multiply,
    tripleForm "Divide" "dst" "lhs" "rhs" .divide,
    tripleForm "Modulo" "dst" "lhs" "rhs" .modulo,
    tripleForm "Remainder" "dst" "lhs" "rhs" .remainder,
    callForm,
    ⟨"Return", [], fun _ => some .ret⟩,
    ⟨"ReturnValue", ["value"], fun fields => (required fields "value" readUInt32).map .retValue⟩,
    defineForm,
    pairForm "Load" "dst" "src" readUInt32 .load,
    pairForm "LoadUInt32" "dst" "value" readUInt32 .loadUInt32,
    pairForm "LoadFloat32" "dst" "value" readFloatBits .loadFloat32,
    tripleForm "LoadElement" "dst" "src" "index" .loadElement,
    tripleForm "SetElement" "dst" "index" "value" .setElement,
    tripleForm "LoadField" "dst" "src" "field" .loadField,
    tripleForm "SetField" "dst" "field" "value" .setField]

def formOf : Value → Option Form
  | .string name => forms.find? fun f => f.name == name
  | _ => none

/-- An object with the instruction's name under `op`, in which unknown fields are ignored, or
an array that starts with the name. -/
def readInstruction : Reader InstructionEntry
  | .object entries => do
    let named ← objectFields ["op"] entries
    let form ← named.lookup "op" >>= formOf
    form.read (← objectFields form.fields entries)
  | .array (name :: items) => do
    let form ← formOf name
    form.read (← arrayFields form.fields items)
  | _ => none

def readMethod : Reader MethodEntry := fun v => do
  let fields ← closedRecord
    ["name", "static", "kernel", "returns", "parameters", "generic_parameters", "body"] v
  return { name := ← required fields "name" readString
           isStatic := ← optional fields "static" readBool false
           kernel := ← optional fields "kernel" (readOptional readKernel) none
           returns := ← optional fields "returns" (readOptional readString) none
           parameters := ← optional fields "parameters" (readList readString) []
           genericParameters := ← optional fields "generic_parameters" (readList readParam) []
           body := ← optional fields "body" (readList readInstruction) [] }

def readType : Reader TypeEntry := fun v => do
  let fields ← closedRecord ["name", "generic_parameters", "spirv", "fields", "methods"] v
  return { name := ← required fields "name" readString
           genericParameters := ← optional fields "generic_parameters" (readList readParam) []
           spirv := ← optional fields "spirv" (readOptional readString) none
           fields := ← optional fields "fields" (readList readField) []
           methods := ← optional fields "methods" (readList readMethod) [] }

def readEntry : Reader Entry := fun v => do
  let fields ← closedRecord ["program", "lookup_order", "types"] v
  return { program := ← required fields "program" readString
           lookupOrder := ← optional fields "lookup_order" readLookupOrder .localFirst
           types := ← optional fields "types" (readList readType) [] }

/-- Reads a manifest text. -/
def Entry.parse? (text : String) : Option Entry :=
  Json.parse? text >>= readEntry

end ShaderIR.Manifest
