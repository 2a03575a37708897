/-! Type references: a declared type applied to arguments, or a generic parameter. They are
compared by value, so equality and order are defined on the whole tree. -/

namespace ShaderIR

/-- A reference to a type. Each inner list of `constraints` is one constraint of the
parameter: an argument has to be one of the listed types. -/
inductive Ty where
  | named (name : String) (arguments : List Ty)
  | param (name : String) (constraints : List (List Ty))
deriving Inhabited

namespace Ty

mutual

def decEq : (a b : Ty) → Decidable (a = b)
  | .named m as, .named n bs =>
    if hn : m = n then
      match decEqList as bs with
      | isTrue h => isTrue (by rw [h, hn])
      | isFalse h => isFalse (by simp [h])
    else isFalse (by simp [hn])
  | .param m as, .param n bs =>
    if hn : m = n then
      match decEqLists as bs with
      | isTrue h => isTrue (by rw [h, hn])
      | isFalse h => isFalse (by simp [h])
    else isFalse (by simp [hn])
  | .named .., .param .. => isFalse (by simp)
  | .param .., .named .. => isFalse (by simp)

def decEqList : (as bs : List Ty) → Decidable (as = bs)
  | [], [] => isTrue rfl
  | a :: as, b :: bs =>
    match decEq a b with
    | isFalse h => isFalse (by simp [h])
    | isTrue h =>
      match decEqList as bs with
      | isTrue h' => isTrue (by rw [h, h'])
      | isFalse h' => isFalse (by simp [h'])
  | [], _ :: _ => isFalse (by simp)
  | _ :: _, [] => isFalse (by simp)

def decEqLists : (as bs : List (List Ty)) → Decidable (as = bs)
  | [], [] => isTrue rfl
  | a :: as, b :: bs =>
    match decEqList a b with
    | isFalse h => isFalse (by simp [h])
    | isTrue h =>
      match decEqLists as bs with
      | isTrue h' => isTrue (by rw [h, h'])
      | isFalse h' => isFalse (by simp [h'])
  | [], _ :: _ => isFalse (by simp)
  | _ :: _, [] => isFalse (by simp)

end

instance : DecidableEq Ty := decEq

mutual

/-- Named types come before parameters; then names by code point, then the arguments or
constraints lexicographically. -/
def cmp : Ty → Ty → Ordering
  | .named m as, .named n bs => (compare m n).then (cmpList as bs)
  | .param m as, .param n bs => (compare m n).then (cmpLists as bs)
  | .named .., .param .. => .lt
  | .param .., .named .. => .gt

def cmpList : List Ty → List Ty → Ordering
  | [], [] => .eq
  | [], _ :: _ => .lt
  | _ :: _, [] => .gt
  | a :: as, b :: bs => (cmp a b).then (cmpList as bs)

def cmpLists : List (List Ty) → List (List Ty) → Ordering
  | [], [] => .eq
  | [], _ :: _ => .lt
  | _ :: _, [] => .gt
  | a :: as, b :: bs => (cmpList a b).then (cmpLists as bs)

end

instance : Ord Ty := ⟨cmp⟩

/-- The full name of the declaration, or the name of the parameter. -/
def name : Ty → String
  | .named n _ => n
  | .param n _ => n

def arguments : Ty → List Ty
  | .named _ args => args
  | .param .. => []

mutual

/-- A generic parameter occurs in the type, constraint sets not counted. -/
def isGeneric : Ty → Bool
  | .named _ args => anyGeneric args
  | .param .. => true

def anyGeneric : List Ty → Bool
  | [] => false
  | t :: ts => t.isGeneric || anyGeneric ts

end

mutual

/-- Written `Name`, or `Name<A, B>` for a type with arguments. -/
def text : Ty → String
  | .named n [] => n
  | .named n (a :: as) => n ++ "<" ++ a.text ++ textTail as ++ ">"
  | .param n _ => n

def textTail : List Ty → String
  | [] => ""
  | t :: ts => ", " ++ t.text ++ textTail ts

end

/-- The texts of a list of types, separated by commas. -/
def textList : List Ty → String
  | [] => ""
  | t :: ts => t.text ++ textTail ts

end Ty

/-- A declared generic parameter with its constraints. -/
structure GenericParam where
  name : String
  constraints : List (List Ty) := []
deriving DecidableEq, Inhabited

namespace GenericParam

/-- The parameter as a type reference. -/
def ty (p : GenericParam) : Ty :=
  .param p.name p.constraints

def constraintText (allowed : List Ty) : String :=
  "one of \x7b" ++ Ty.textList allowed ++ "\x7d"

/-- The name, followed by `: one of {A, B}` for each constraint. -/
def text (p : GenericParam) : String :=
  p.constraints.foldl (fun s c => s ++ ": " ++ constraintText c) p.name

def textList (ps : List GenericParam) : String :=
  ", ".intercalate (ps.map text)

end GenericParam

end ShaderIR
