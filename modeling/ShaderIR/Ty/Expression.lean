import ShaderIR.Text.Blank
import ShaderIR.Ty.Basic

/-! Type expressions: `Name` or `Name<A, B>`, with blanks allowed around every token. A bare
name denotes the first parameter of that name in scope, if there is one. -/

namespace ShaderIR.Ty

open Text

/-- Why a text is no type expression. -/
inductive SyntaxFault where
  | missingName
  | unclosed
  | trailing
deriving DecidableEq, Repr

def SyntaxFault.reason : SyntaxFault → String
  | .missingName => "expected a type name"
  | .unclosed => "expected `,` or `>`"
  | .trailing => "trailing input"

/-- The characters a type name is made of. -/
def isNameChar (c : Char) : Bool :=
  !(c == '<' || c == '>' || c == ',' || isBlank c)

/-- What a name without an argument list denotes. -/
def ofName (scope : List GenericParam) (name : String) : Ty :=
  match scope.find? (fun p => p.name == name) with
  | some p => p.ty
  | none => .named name []

mutual

/-- One type at the start of the text, and what follows it with leading blanks removed. -/
def parseAt (scope : List GenericParam) : Nat → List Char → Except SyntaxFault (Ty × List Char)
  | 0, _ => .error .missingName
  | fuel + 1, cs =>
    let cs := trimStart cs
    let name := cs.takeWhile isNameChar
    if name.isEmpty then .error .missingName
    else
      match trimStart (cs.dropWhile isNameChar) with
      | '<' :: rest =>
        match parseArguments scope fuel rest with
        | .ok (args, rest) => .ok (.named (String.ofList name) args, rest)
        | .error e => .error e
      | rest => .ok (ofName scope (String.ofList name), rest)

/-- A list of types separated by commas and closed by `>`. -/
def parseArguments (scope : List GenericParam) :
    Nat → List Char → Except SyntaxFault (List Ty × List Char)
  | 0, _ => .error .missingName
  | fuel + 1, cs =>
    match parseAt scope fuel cs with
    | .error e => .error e
    | .ok (t, ',' :: rest) =>
      match parseArguments scope fuel rest with
      | .ok (ts, rest) => .ok (t :: ts, rest)
      | .error e => .error e
    | .ok (t, '>' :: rest) => .ok ([t], trimStart rest)
    | .ok _ => .error .unclosed

end

/-- Reads a whole text as one type. Each call of `parseAt` and of `parseArguments` has a
character of its own to start from, so twice the length of the text bounds their depth. -/
def parse (scope : List GenericParam) (expr : String) : Except SyntaxFault Ty :=
  let cs := expr.toList
  match parseAt scope (2 * cs.length + 1) cs with
  | .ok (t, rest) => if (trimStart rest).isEmpty then .ok t else .error .trailing
  | .error e => .error e

end ShaderIR.Ty
