import ShaderIR.Ty.Basic

/-! Substitutions of types for generic parameters. A substitution is an ordered list of
bindings with distinct names; applying it replaces the bound parameters of a type. -/

namespace ShaderIR

structure Substitution where
  bindings : List (String × Ty) := []
deriving DecidableEq, Inhabited

namespace Substitution

def empty : Substitution := ⟨[]⟩

def isEmpty (s : Substitution) : Bool :=
  s.bindings.isEmpty

def get? (s : Substitution) (name : String) : Option Ty :=
  s.bindings.lookup name

def bindIn (name : String) (ty : Ty) : List (String × Ty) → List (String × Ty)
  | [] => [(name, ty)]
  | (n, t) :: rest => if n = name then (n, ty) :: rest else (n, t) :: bindIn name ty rest

/-- Binds `name`; an earlier binding of the name keeps its place and changes its type. -/
def bind (s : Substitution) (name : String) (ty : Ty) : Substitution :=
  ⟨bindIn name ty s.bindings⟩

def ofList (bs : List (String × Ty)) : Substitution :=
  bs.foldl (fun s b => s.bind b.1 b.2) empty

/-- Adds the bindings of `outer` whose names are not bound yet. -/
def mergeOuter (s outer : Substitution) : Substitution :=
  outer.bindings.foldl
    (fun s b => if (s.get? b.1).isSome then s else ⟨s.bindings ++ [b]⟩) s

/-- Drops the bindings of the names of `ps`. -/
def without (s : Substitution) (ps : List GenericParam) : Substitution :=
  ⟨s.bindings.filter fun b => ps.all fun p => p.name != b.1⟩

end Substitution

namespace Ty

mutual

/-- Replaces every bound parameter at once; parameters inside constraint sets stay. -/
def subst (s : Substitution) : Ty → Ty
  | .named n args => .named n (substList s args)
  | .param n cs => (s.get? n).getD (.param n cs)

def substList (s : Substitution) : List Ty → List Ty
  | [] => []
  | t :: ts => t.subst s :: substList s ts

end

end Ty

end ShaderIR
