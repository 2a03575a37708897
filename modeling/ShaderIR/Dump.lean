import ShaderIR.Program

/-! The text form of a program. -/

namespace ShaderIR

def bracketed (ps : List GenericParam) : String :=
  if ps.isEmpty then "" else "<" ++ GenericParam.textList ps ++ ">"

def Method.dump (m : Method) (index : Nat) : String :=
  let attributes := String.join (m.attributes.map fun a => "    " ++ a.text ++ "\n")
  let returns := match m.returnType with
    | some ty => " -> " ++ ty.text
    | none => ""
  let body := String.join (m.body.map fun i => "      " ++ i.text ++ "\n")
  attributes ++ "    fn " ++ m.name ++ bracketed m.genericParameters ++ "(" ++
    Ty.textList m.parameterTypes ++ ")  [#" ++ toString index ++ "]" ++ returns ++ " \x7b\n" ++
    body ++ "    \x7d\n"

def TypeDecl.dump (d : TypeDecl) : String :=
  let attributes := String.join (d.attributes.map fun a => "  " ++ a.text ++ "\n")
  let fields := String.join (d.fields.zipIdx.map fun (f, index) =>
    "    field ." ++ toString index ++ " " ++ f.name ++ ": " ++ f.ty.text ++ "\n")
  let methods := String.join (d.methods.zipIdx.map fun (m, index) => m.dump index)
  "\n" ++ attributes ++ "  type " ++ d.fullName ++ bracketed d.genericParameters ++ " \x7b\n" ++
    fields ++ methods ++ "  \x7d\n"

def Program.dump (p : Program) : String :=
  let dependencies :=
    if p.dependencies.isEmpty then ""
    else "  depends on " ++ ", ".intercalate (p.dependencies.map Program.name) ++ "\n"
  "Program " ++ p.name ++ ":\n" ++ dependencies ++ String.join (p.types.map TypeDecl.dump)

end ShaderIR
