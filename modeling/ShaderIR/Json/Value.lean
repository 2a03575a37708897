/-! Values of data texts. An object keeps its entries in order, repeated keys included, and a
number remembers how it was written as far as its readers can tell. -/

namespace ShaderIR.Json

/-- A number: an integer of 64 bits, or else the nearest double. -/
inductive Number where
  | natural (n : UInt64)
  | negative (n : Int64)
  | real (x : Float)

inductive Value where
  | null
  | bool (b : Bool)
  | number (n : Number)
  | string (s : String)
  | array (items : List Value)
  | object (entries : List (String × Value))

end ShaderIR.Json
