import Mathlib.Data.List.Forall2
import ShaderIR.Proofs.Substitution

/-! Replacement of parameters, told without the functions that do it: which types, attributes,
operands, instructions and methods are others with each named parameter replaced. -/

namespace ShaderIR

section

variable (f : String → Option Ty)

/-- The second type is the first with every parameter replaced that is given a type. -/
inductive Ty.Replaced : Ty → Ty → Prop
  | named {name : String} {args args' : List Ty} :
      List.Forall₂ Ty.Replaced args args' → Ty.Replaced (.named name args) (.named name args')
  | bound {name : String} {constraints : List (List Ty)} {a : Ty} :
      f name = some a → Ty.Replaced (.param name constraints) a
  | free {name : String} {constraints : List (List Ty)} :
      f name = none → Ty.Replaced (.param name constraints) (.param name constraints)

/-- Types are replaced in a custom attribute; one without types stays. -/
inductive Attribute.Replaced : Attribute → Attribute → Prop
  | custom {name : String} {types types' : List Ty} :
      List.Forall₂ (Ty.Replaced f) types types' →
        Attribute.Replaced (.custom name types) (.custom name types')
  | other {a : Attribute} : a.types = [] → Attribute.Replaced a a

/-- Types are replaced in an operand that is a type, or a method with its owner and its arguments;
one without types stays. -/
inductive Operand.Replaced : Operand → Operand → Prop
  | type {t t' : Ty} : t.Replaced f t' → Operand.Replaced (.type t) (.type t')
  | method {owner owner' : Ty} {index : Nat} {name : String} {args args' : List Ty} :
      owner.Replaced f owner' → List.Forall₂ (Ty.Replaced f) args args' →
        Operand.Replaced (.method ⟨owner, index, name, args⟩) (.method ⟨owner', index, name, args'⟩)
  | other {o : Operand} : o.types = [] → Operand.Replaced o o

/-- The opcode stays, and so does the number of operands. -/
structure Instruction.Replaced (i i' : Instruction) : Prop where
  opcode : i'.opcode = i.opcode
  operands : List.Forall₂ (Operand.Replaced f) i.operands i'.operands

/-- The second method is the first on the given owner, with nothing left to bind. -/
structure Method.Replaced (owner : Ty) (m m' : Method) : Prop where
  owner : m'.owner = owner
  name : m'.name = m.name
  closed : m'.genericParameters = []
  returnType : Option.Rel (Ty.Replaced f) m.returnType m'.returnType
  parameterTypes : List.Forall₂ (Ty.Replaced f) m.parameterTypes m'.parameterTypes
  attributes : List.Forall₂ (Attribute.Replaced f) m.attributes m'.attributes
  body : List.Forall₂ (Instruction.Replaced f) m.body m'.body

end

section

variable {f : String → Option Ty} {s : Substitution} (h : ∀ n, s.get? n = f n)

include h

theorem Ty.replaced_subst (t : Ty) : t.Replaced f (t.subst s) := by
  induction t using Ty.induct with
  | named name args ih =>
    rw [subst, substList_eq_map]
    exact .named (List.forall₂_map_right_iff.mpr (List.forall₂_same.mpr ih))
  | param name constraints =>
    rw [subst, h]
    cases hn : f name with
    | none => exact .free hn
    | some a => exact .bound hn

theorem Ty.replaced_substList (ts : List Ty) :
    List.Forall₂ (Ty.Replaced f) ts (Ty.substList s ts) := by
  rw [substList_eq_map]
  exact List.forall₂_map_right_iff.mpr (List.forall₂_same.mpr fun t _ => t.replaced_subst h)

theorem Attribute.replaced_subst (a : Attribute) : a.Replaced f (a.subst s) := by
  cases a with
  | custom name types => exact .custom (Ty.replaced_substList h types)
  | _ => exact .other rfl

theorem Operand.replaced_subst (o : Operand) : o.Replaced f (o.subst s) := by
  cases o with
  | type t => exact .type (t.replaced_subst h)
  | method r => exact .method (r.owner.replaced_subst h) (Ty.replaced_substList h r.typeArguments)
  | _ => exact .other rfl

theorem Instruction.replaced_subst (i : Instruction) : i.Replaced f (i.subst s) := by
  refine ⟨rfl, List.forall₂_map_right_iff.mpr (List.forall₂_same.mpr fun o _ => ?_)⟩
  exact o.replaced_subst h

theorem Method.replaced_substituted (m : Method) (owner : Ty) :
    m.Replaced f owner (m.substituted owner s) where
  owner := rfl
  name := rfl
  closed := rfl
  returnType := by
    rw [substituted]
    cases m.returnType with
    | none => exact .none
    | some t => exact .some (t.replaced_subst h)
  parameterTypes := Ty.replaced_substList h m.parameterTypes
  attributes := List.forall₂_map_right_iff.mpr
    (List.forall₂_same.mpr fun a _ => a.replaced_subst h)
  body := List.forall₂_map_right_iff.mpr (List.forall₂_same.mpr fun i _ => i.replaced_subst h)

end

end ShaderIR
