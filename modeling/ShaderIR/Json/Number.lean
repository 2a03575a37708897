import ShaderIR.Json.Value

/-! Number tokens. Digits are gathered into 64 bits as long as they fit; the digits after that
only count towards the power of ten. -/

namespace ShaderIR.Json

def isDigit (c : Char) : Bool :=
  '0' ≤ c && c ≤ '9'

def digit (c : Char) : Nat :=
  c.toNat - '0'.toNat

/-- A decimal under construction: `significand * 10 ^ exponent`. -/
structure Scaled where
  significand : Nat
  exponent : Int

/-- The significand with one more digit, if that fits in 64 bits. -/
def append? (significand : Nat) (c : Char) : Option Nat :=
  let next := 10 * significand + digit c
  if next < 0x10000000000000000 then some next else none

/-- Gathers the digits of a whole part. -/
def wholeDigits : Scaled → List Char → Scaled
  | s, [] => s
  | s, c :: cs =>
    if s.exponent = 0 then
      match append? s.significand c with
      | some next => wholeDigits ⟨next, 0⟩ cs
      | none => wholeDigits ⟨s.significand, 1⟩ cs
    else wholeDigits ⟨s.significand, s.exponent + 1⟩ cs

/-- Gathers the digits of a fraction up to the first that does not fit. -/
def fractionDigits : Scaled → List Char → Scaled
  | s, [] => s
  | s, c :: cs =>
    match append? s.significand c with
    | some next => fractionDigits ⟨next, s.exponent - 1⟩ cs
    | none => s

/-- The power of ten nearest to `10 ^ n`. -/
def powerOfTen (n : Nat) : Float :=
  Float.ofScientific 1 false n

/-- Divides by a power of ten in steps that a double can hold. -/
def scaleDown (x : Float) (n : Nat) : Float :=
  if n ≤ 308 then x / powerOfTen n
  else if x == 0 then x
  else scaleDown (x / powerOfTen 308) (n - 308)
termination_by n
decreasing_by omega

/-- The double for a scaled decimal; too large numbers have none. -/
def Scaled.toFloat? (s : Scaled) : Option Float :=
  let x := (UInt64.ofNat s.significand).toFloat
  if s.exponent < 0 then some (scaleDown x (-s.exponent).toNat)
  else if s.exponent ≤ 308 then
    let y := x * powerOfTen s.exponent.toNat
    if y.isInf then none else some y
  else if x == 0 then some x
  else none

/-- The largest exponent that is read as written. -/
def maxExponent : Nat := 0x7fffffff

/-- Applies a written exponent. One that is too large makes a number zero or too large. -/
def withExponent (s : Scaled) (negative : Bool) (digits : List Char) : Option Float :=
  let n := digits.foldl (fun n c => 10 * n + digit c) 0
  if maxExponent < n then if s.significand = 0 || negative then some 0 else none
  else { s with exponent := if negative then s.exponent - n else s.exponent + n }.toFloat?

/-- Splits off leading digits. -/
def spanDigits (cs : List Char) : List Char × List Char :=
  (cs.takeWhile isDigit, cs.dropWhile isDigit)

/-- The exponent part after `e`, and what follows it. -/
def exponentPart? (cs : List Char) : Option (Bool × List Char × List Char) :=
  let (negative, cs) := match cs with
    | '+' :: rest => (false, rest)
    | '-' :: rest => (true, rest)
    | rest => (false, rest)
  let (digits, rest) := spanDigits cs
  if digits.isEmpty then none else some (negative, digits, rest)

/-- Finishes a number that has a fraction or an exponent. -/
def realNumber? (positive : Bool) (s : Scaled) (cs : List Char) :
    Option (Number × List Char) := do
  let sign (x : Float) : Number := .real (if positive then x else -x)
  match cs with
  | e :: rest =>
    if e == 'e' || e == 'E' then
      let (negative, digits, rest) ← exponentPart? rest
      return (sign (← withExponent s negative digits), rest)
    else return (sign (← s.toFloat?), cs)
  | [] => return (sign (← s.toFloat?), cs)

/-- An integer without fraction and exponent; what does not fit in 64 bits, and the negative
zero, becomes a double. -/
def integer? (positive : Bool) (s : Scaled) : Option Number :=
  if s.exponent = 0 then
    if positive then some (.natural (UInt64.ofNat s.significand))
    else if s.significand = 0 || 0x8000000000000000 < s.significand then
      some (.real (-(UInt64.ofNat s.significand).toFloat))
    else some (.negative (Int64.ofInt (-s.significand)))
  else s.toFloat?.map fun x => .real (if positive then x else -x)

/-- The number at the start of a text, after its sign, and what follows it. -/
def unsigned? (positive : Bool) (cs : List Char) : Option (Number × List Char) :=
  let (whole, rest) := spanDigits cs
  let s := wholeDigits ⟨0, 0⟩ whole
  if whole.isEmpty || (whole.head? == some '0' && whole.length != 1) then none
  else
    match rest with
    | '.' :: rest =>
      let (fraction, rest) := spanDigits rest
      if fraction.isEmpty then none else realNumber? positive (fractionDigits s fraction) rest
    | e :: _ =>
      if e == 'e' || e == 'E' then realNumber? positive s rest
      else (integer? positive s).map fun n => (n, rest)
    | [] => (integer? positive s).map fun n => (n, rest)

def number? : List Char → Option (Number × List Char)
  | '-' :: cs => unsigned? false cs
  | cs => unsigned? true cs

end ShaderIR.Json
