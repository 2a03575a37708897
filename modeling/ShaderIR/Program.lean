import ShaderIR.Declaration

/-! Programs: type declarations together with the programs they depend on. A method instance
is identified by the declared method it comes from and the arguments bound so far. -/

namespace ShaderIR

/-- Which declaration wins when a program and a dependency declare the same name. -/
inductive LookupOrder where
  | localFirst
  | dependenciesFirst
deriving DecidableEq, Repr, Inhabited

/-- The positions of declarations by name. -/
abbrev NameIndex := List (String × Nat)

namespace NameIndex

/-- The index leads from each name to the first declaration of it. -/
def Leads (index : NameIndex) (types : List TypeDecl) : Prop :=
  ∀ name, index.lookup name = types.findIdx? fun d => d.fullName == name

/-- The index of declarations that are given all at once. -/
def ofTypes (types : List TypeDecl) : NameIndex :=
  types.zipIdx.map fun entry => (entry.1.fullName, entry.2)

theorem lookup_zipIdx (types : List TypeDecl) (start : Nat) (name : String) :
    List.lookup name ((types.zipIdx start).map fun entry => (entry.1.fullName, entry.2)) =
      (types.findIdx? fun d => d.fullName == name).map (· + start) := by
  induction types generalizing start with
  | nil => rfl
  | cons d rest ih =>
    rw [List.zipIdx_cons, List.map_cons, List.lookup_cons, List.findIdx?_cons, ih]
    by_cases h : d.fullName = name
    · simp [h]
    · have hname : (name == d.fullName) = false := by simpa using Ne.symm h
      simp [h, hname, Function.comp_def, Nat.add_comm, Nat.add_left_comm]

theorem leads_ofTypes (types : List TypeDecl) : (ofTypes types).Leads types := by
  intro name
  rw [ofTypes, lookup_zipIdx]
  simp

/-- A new name is entered with the position that its declaration gets. -/
theorem Leads.insert {index : NameIndex} {types : List TypeDecl} (h : index.Leads types)
    {d : TypeDecl} (hnew : index.lookup d.fullName = none) :
    Leads ((d.fullName, types.length) :: index) (types ++ [d]) := by
  intro name
  rw [List.lookup_cons, h name, List.findIdx?_append]
  by_cases hname : name = d.fullName
  · have hnone := (h d.fullName).symm.trans hnew
    simp [hname, hnone]
  · have hne : (name == d.fullName) = false := by simpa using hname
    simp [hne, Ne.symm hname]

end NameIndex

structure Program where
  name : String
  types : List TypeDecl := []
  index : NameIndex := .ofTypes types
  indexed : index.Leads types := by exact NameIndex.leads_ofTypes _
  dependencies : List Program := []
  lookupOrder : LookupOrder := .localFirst

/-- A program without declarations. -/
def Program.empty (name : String) : Program := { name }

@[simp] theorem Program.types_empty (name : String) : (Program.empty name).types = [] := rfl

instance : Inhabited Program := ⟨.empty ""⟩

/-- Where a declaration stands: the positions of the dependencies that lead to its program,
and its full name there. -/
structure Site where
  path : List Nat
  name : String
deriving DecidableEq, Repr, Inhabited

/-- Identity of a method instance: a declared method, the arguments of its owner if that was
constructed from a generic declaration, and its own type arguments if it was instantiated. -/
structure MethodId where
  site : Site
  index : Nat
  ownerArguments : Option (List Ty) := none
  typeArguments : Option (List Ty) := none
deriving DecidableEq, Inhabited

namespace MethodId

/-- The declared method that the instance comes from. -/
def definition (id : MethodId) : Site × Nat :=
  (id.site, id.index)

end MethodId

/-- A method with its identity. -/
structure LocatedMethod where
  id : MethodId
  method : Method
deriving DecidableEq, Inhabited

namespace LocatedMethod

def fullName (m : LocatedMethod) : String :=
  m.method.fullName

def isConcrete (m : LocatedMethod) : Bool :=
  m.method.isConcrete

end LocatedMethod

/-- What a method reference resolves to: a method, or a generic method with arguments that
still mention parameters. -/
inductive MethodInstance where
  | concrete (method : LocatedMethod)
  | deferred (generic : LocatedMethod) (arguments : List Ty)
deriving DecidableEq, Inhabited

namespace MethodInstance

def fullName : MethodInstance → String
  | .concrete m => m.fullName
  | .deferred m arguments => m.fullName ++ "<" ++ Ty.textList arguments ++ ">"

/-- The method, if it has no generic parameters left. -/
def concrete? : MethodInstance → Option LocatedMethod
  | .concrete m => if m.isConcrete then some m else none
  | .deferred .. => none

def isGeneric (i : MethodInstance) : Bool :=
  i.concrete?.isNone

/-- The instance itself if it is concrete. -/
def intoConcrete (i : MethodInstance) : Except IrError MethodInstance :=
  match i.concrete? with
  | some m => .ok (.concrete m)
  | none => .error (.stillGeneric i.fullName)

end MethodInstance

namespace LocatedMethod

/-- Instantiates a generic method with type arguments. -/
def instantiate (m : LocatedMethod) (arguments : List Ty) : Except IrError MethodInstance :=
  match m.method.instantiate arguments with
  | .error e => .error e
  | .ok .deferred => .ok (.deferred m arguments)
  | .ok (.concrete method) =>
    .ok (.concrete ⟨{ m.id with typeArguments := some arguments }, method⟩)

/-- Binds parameters in the arguments that a generic method was deferred with, and instantiates
it with what they become. -/
def bindDeferred (m : LocatedMethod) (arguments : List Ty) (s : Substitution) :
    Except IrError MethodInstance :=
  m.instantiate (Ty.substList s arguments)

end LocatedMethod

namespace Program

def findLocal? (types : List TypeDecl) (name : String) : Option TypeDecl :=
  types.find? fun d => d.fullName == name

/-- The declaration at the position that the index has for the name. -/
def findIndexed? (types : List TypeDecl) (index : NameIndex) (name : String) : Option TypeDecl :=
  (index.lookup name).bind (types[·]?)

/-- The index finds what a search of the list finds. -/
theorem findIndexed?_eq {types : List TypeDecl} {index : NameIndex} (h : index.Leads types)
    (name : String) : findIndexed? types index name = findLocal? types name := by
  rw [findIndexed?, findLocal?, h name]
  induction types generalizing index with
  | nil => rfl
  | cons d rest ih =>
    have hrest := ih (NameIndex.leads_ofTypes rest)
    rw [List.findIdx?_cons, List.find?_cons]
    cases hname : d.fullName == name with
    | true => rfl
    | false => simpa [Option.bind_map, Function.comp_def] using hrest

mutual

/-- The visible declaration of a name and the path to its program. -/
def find? (p : Program) (name : String) : Option (List Nat × TypeDecl) :=
  match p with
  | ⟨_, types, index, _, dependencies, .localFirst⟩ =>
    ((findIndexed? types index name).map fun d => ([], d)).or (findAmong? dependencies 0 name)
  | ⟨_, types, index, _, dependencies, .dependenciesFirst⟩ =>
    (findAmong? dependencies 0 name).or ((findIndexed? types index name).map fun d => ([], d))
termination_by structural p

/-- Searches dependencies in order, the first of which has the given position. -/
def findAmong? (ps : List Program) (position : Nat) (name : String) :
    Option (List Nat × TypeDecl) :=
  match ps with
  | [] => none
  | p :: rest =>
    match find? p name with
    | some (path, d) => some (position :: path, d)
    | none => findAmong? rest (position + 1) name
termination_by structural ps

end

/-- The order of lookup says where a search begins. -/
theorem find?_eq (p : Program) (name : String) :
    p.find? name =
      match p.lookupOrder with
      | .localFirst =>
        ((findLocal? p.types name).map fun d => ([], d)).or (findAmong? p.dependencies 0 name)
      | .dependenciesFirst =>
        (findAmong? p.dependencies 0 name).or ((findLocal? p.types name).map fun d => ([], d)) := by
  obtain ⟨_, types, index, hindex, dependencies, order⟩ := p
  cases order <;> simp only [find?, findIndexed?_eq hindex]

/-- Adds a declaration unless the program has one of that name. -/
def addType (p : Program) (d : TypeDecl) : Except IrError Program :=
  match h : p.index.lookup d.fullName with
  | some _ => .error (.duplicateType d.fullName)
  | none =>
    .ok
      { p with
        types := p.types ++ [d]
        index := (d.fullName, p.types.length) :: p.index
        indexed := p.indexed.insert h }

def addDependency (p dependency : Program) : Program :=
  { p with dependencies := p.dependencies ++ [dependency] }

def setLookupOrder (p : Program) (order : LookupOrder) : Program :=
  { p with lookupOrder := order }

/-- The methods of a declaration, as they are declared. -/
def declaredMethods (path : List Nat) (d : TypeDecl) : List LocatedMethod :=
  d.methods.zipIdx.map fun (m, index) => ⟨⟨⟨path, d.fullName⟩, index, none, none⟩, m⟩

/-- The methods declared by the program itself, in order. -/
def methods (p : Program) : List LocatedMethod :=
  p.types.flatMap (declaredMethods [])

/-- The program at the end of a path of dependency positions. -/
def atPath? (p : Program) : List Nat → Option Program
  | [] => some p
  | position :: path =>
    match p.dependencies[position]? with
    | some dependency => dependency.atPath? path
    | none => none

/-- The declared method that an instance comes from. -/
def definition? (p : Program) (id : MethodId) : Option LocatedMethod := do
  let home ← p.atPath? id.site.path
  let d ← findLocal? home.types id.site.name
  (declaredMethods id.site.path d)[id.index]?

/-- The instance of the referenced type. -/
def construct (p : Program) : Ty → Except IrError TypeInstance
  | .param name _ => .error (.stillGeneric name)
  | .named name arguments =>
    match p.find? name with
    | none => .error (.unknownType name)
    | some (_, d) => d.instantiate arguments

/-- The methods of a constructed type with their identities. Those of a type that is not
generic are the declared ones. -/
def methodsOf (path : List Nat) (d : TypeDecl) (i : TypeInstance) : List LocatedMethod :=
  let ownerArguments := if d.isGeneric then some i.ty.arguments else none
  i.methods.zipIdx.map fun (m, index) => ⟨⟨⟨path, d.fullName⟩, index, ownerArguments, none⟩, m⟩

/-- Finds the method that a reference means in its constructed owner. -/
def locate (p : Program) (r : MethodRef) : Except IrError LocatedMethod :=
  match r.owner with
  | .param name _ => .error (.stillGeneric name)
  | .named name arguments =>
    match p.find? name with
    | none => .error (.unknownType name)
    | some (path, d) =>
      match d.instantiate arguments with
      | .error e => .error e
      | .ok i =>
        match (methodsOf path d i)[r.index]? with
        | some m =>
          if m.method.name == r.name then .ok m
          else .error (.unknownMethod r.owner r.name r.index)
        | none => .error (.unknownMethod r.owner r.name r.index)

/-- Resolves a method reference; its type arguments, if any, instantiate the method. -/
def resolve (p : Program) (r : MethodRef) : Except IrError MethodInstance :=
  match p.locate r with
  | .error e => .error e
  | .ok m => if r.typeArguments.isEmpty then .ok (.concrete m) else m.instantiate r.typeArguments

end Program

end ShaderIR
