import ShaderIR.Text.Shown

/-! Quoted texts: quotation marks around a text in which quotation marks, backslashes and
characters that cannot be shown are escaped. -/

namespace ShaderIR.Text

/-- The escape by code point, in hexadecimal. -/
def codePointEscape (c : Char) : String :=
  "\\u\x7b" ++ String.ofList (Nat.toDigits 16 c.toNat) ++ "\x7d"

def escape (c : Char) : String :=
  match c with
  | '\x00' => "\\0"
  | '\t' => "\\t"
  | '\n' => "\\n"
  | '\r' => "\\r"
  | '"' => "\\\""
  | '\\' => "\\\\"
  | c => if isShown c then String.singleton c else codePointEscape c

def quote (s : String) : String :=
  "\"" ++ String.join (s.toList.map escape) ++ "\""

end ShaderIR.Text
