/-! Literal strings as words: the UTF-8 bytes with a zero byte after them, filled up with
zero bytes to whole words, the first byte lowest in each word. -/

namespace ShaderIR.Binary

/-- Four bytes as a word, the first byte lowest. -/
def packBytes (a b c d : UInt8) : UInt32 :=
  a.toUInt32 ||| b.toUInt32 <<< 8 ||| c.toUInt32 <<< 16 ||| d.toUInt32 <<< 24

/-- Packs bytes with at least one zero byte after them. -/
def packName : List UInt8 → List UInt32
  | a :: b :: c :: d :: rest => packBytes a b c d :: packName rest
  | [a, b, c] => [packBytes a b c 0]
  | [a, b] => [packBytes a b 0 0]
  | [a] => [packBytes a 0 0 0]
  | [] => [0]

def utf8 (s : String) : List UInt8 :=
  s.toList.flatMap String.utf8EncodeChar

def nameWords (s : String) : List UInt32 :=
  packName (utf8 s)

end ShaderIR.Binary
