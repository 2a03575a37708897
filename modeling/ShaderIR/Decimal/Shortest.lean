/-! The shortest decimal that reads back as a given binary floating-point value. A finite
positive value is `m * 2 ^ q`; all comparisons are between natural numbers. -/

namespace ShaderIR.Decimal

/-- The reals that round to `m * 2 ^ q`, as `lower/scale ..= upper/scale` around
`value/scale`; the ends belong to it iff `closed`. -/
structure Interval where
  lower : Nat
  value : Nat
  upper : Nat
  scale : Nat
  closed : Bool

/-- Half a unit to either side, a quarter downwards where the unit halves below. -/
def Interval.around (m : Nat) (q : Int) (narrow : Bool) : Interval :=
  let unit := Nat.pow 2 q.toNat
  { lower := (4 * m - if narrow then 1 else 2) * unit
    value := 4 * m * unit
    upper := (4 * m + 2) * unit
    scale := 4 * Nat.pow 2 (-q).toNat
    closed := m % 2 == 0 }

/-- The interval holds `n * num / den`. -/
def Interval.holds (i : Interval) (n num den : Nat) : Bool :=
  let x := n * num * i.scale
  if i.closed then i.lower * den ≤ x && x ≤ i.upper * den
  else i.lower * den < x && x < i.upper * den

/-- The multiple of `num / den` nearest to the value among its two neighbours in the
interval; of two equally near ones, the larger. -/
def Interval.nearest? (i : Interval) (num den : Nat) : Option Nat :=
  let below := i.value * den / (num * i.scale)
  let above := below + 1
  match i.holds below num den, i.holds above num den with
  | true, true =>
    if (2 * below + 1) * num * i.scale ≤ 2 * i.value * den then some above else some below
  | true, false => some below
  | false, true => some above
  | false, false => none

/-- The number `digits * 10 ^ exponent`. -/
structure Numeral where
  digits : Nat
  exponent : Int
deriving DecidableEq, Repr

/-- Goes down the powers of ten from `10 ^ exponent` and takes the first with a multiple in
the interval. -/
def Interval.search (i : Interval) : Nat → Int → Option Numeral
  | 0, _ => none
  | steps + 1, exponent =>
    match i.nearest? (Nat.pow 10 exponent.toNat) (Nat.pow 10 (-exponent).toNat) with
    | some n => some ⟨n, exponent⟩
    | none => i.search steps (exponent - 1)

/-- Positional text without an exponent: `1500`, `0.015`. -/
def Numeral.text (d : Numeral) : String :=
  let digits := (toString d.digits).toList
  if 0 ≤ d.exponent then String.ofList (digits ++ List.replicate d.exponent.toNat '0')
  else
    let places := (-d.exponent).toNat
    if digits.length ≤ places then
      String.ofList ('0' :: '.' :: List.replicate (places - digits.length) '0' ++ digits)
    else
      String.ofList
        (digits.take (digits.length - places) ++ '.' :: digits.drop (digits.length - places))

/-- A binary floating-point format: the sizes of the fraction and exponent fields, the exponent
of two of its smallest value, and a power of ten that is above all finite values. -/
structure Format where
  fractions : Nat
  exponents : Nat
  least : Int
  top : Nat
deriving DecidableEq, Repr

def single : Format := ⟨0x800000, 0x100, -149, 39⟩

def double : Format := ⟨0x10000000000000, 0x800, -1074, 309⟩

/-- Text of the finite positive value with the given fields: the fewest digits that read back,
without an exponent. -/
def Format.finiteText (f : Format) (exponent fraction : Nat) : String :=
  let m := if exponent = 0 then fraction else fraction + f.fractions
  let q : Int := if exponent = 0 then f.least else f.least + (exponent - 1)
  let i := Interval.around m q (fraction == 0 && 1 < exponent)
  match i.search (2 * f.top + 30) f.top with
  | some d => d.text
  | none => "0"

/-- Text of a value given by its bits. -/
def Format.text (f : Format) (bits : Nat) : String :=
  let fraction := bits % f.fractions
  let exponent := bits / f.fractions % f.exponents
  let sign := if bits / f.fractions < f.exponents then "" else "-"
  if exponent + 1 = f.exponents then if fraction = 0 then sign ++ "inf" else "NaN"
  else if exponent = 0 && fraction = 0 then sign ++ "0"
  else sign ++ f.finiteText exponent fraction

end ShaderIR.Decimal
