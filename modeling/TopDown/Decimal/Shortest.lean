/-!
# The fewest digits that identify a number

A finite binary floating-point number stands for every real that rounds to it, an interval around
its value. Of the decimals in that interval this file selects one with as few digits as possible,
and of those the nearest to the value: `TopDown.Decimal.shortest`.

Everything is exact arithmetic on natural numbers. `TopDown.Decimal.Binary` is the decoded number,
`m · 2 ^ q`. For one, two, … seventeen digits the two neighbours of the value on that decimal grid
are tested against the interval (`TopDown.Decimal.Binary.candidate?`), and the first grid with a
hit wins. Where both neighbours are equally near, a `TopDown.Decimal.Tie` decides.
-/

namespace TopDown.Decimal

/-! ### The decoded number and its interval -/

/-- A positive finite number, `significand · 2 ^ exponent`. -/
structure Binary where
  /-- The integer that is scaled. -/
  significand : Nat
  /-- The binary exponent. -/
  exponent : Int
  /-- The number below is half as far away as the number above. -/
  narrowBelow : Bool

/-- The magnitude that the bits of a finite number encode. -/
def Binary.ofBits (bits : UInt64) : Binary :=
  let e := ((bits >>> 52) &&& 0x7FF).toNat
  let f := (bits &&& 0xFFFFFFFFFFFFF).toNat
  if e = 0 then ⟨f, -1074, false⟩
  else ⟨Nat.pow 2 52 + f, (e : Int) - 1075, f == 0 && 1 < e⟩

/-- Four times the lower end of the interval, in units of `2 ^ exponent`. -/
def Binary.lower (x : Binary) : Nat :=
  if x.narrowBelow then 4 * x.significand - 1 else 4 * x.significand - 2

/-- Four times the upper end of the interval, in units of `2 ^ exponent`. -/
def Binary.upper (x : Binary) : Nat :=
  4 * x.significand + 2

/-- A quarter of `2 ^ exponent` as a fraction of the decimal unit `10 ^ g`. -/
def Binary.unitRatio (x : Binary) (g : Int) : Nat × Nat :=
  (Nat.pow 2 (x.exponent - 2).toNat * Nat.pow 10 (-g).toNat,
    Nat.pow 2 (2 - x.exponent).toNat * Nat.pow 10 g.toNat)

/-- The decimal `d · 10 ^ g` lies in the interval, whose ends belong to it when the significand is
even. -/
def Binary.covers (x : Binary) (g : Int) (d : Nat) : Bool :=
  let (u, v) := x.unitRatio g
  if x.significand % 2 = 0 then x.lower * u ≤ d * v && d * v ≤ x.upper * u
  else x.lower * u < d * v && d * v < x.upper * u

/-! ### Selection -/

/-- What to take when the value is halfway between two candidates. -/
inductive Tie where
  /-- The candidate with an even last digit. -/
  | toEven
  /-- The larger candidate. -/
  | up

/-- The decimal `coefficient · 10 ^ exponent`. -/
structure Digits where
  /-- The digits, read as an integer. -/
  coefficient : Nat
  /-- The power of ten of the last digit. -/
  exponent : Int

/-- The nearer of the two neighbours `d` and `d + 1` of the value on the grid `10 ^ g`. -/
def Binary.nearer (x : Binary) (tie : Tie) (g : Int) (d : Nat) : Nat :=
  let (u, v) := x.unitRatio g
  match compare (8 * x.significand * u) ((2 * d + 1) * v), tie with
  | .lt, _ => d
  | .gt, _ => d + 1
  | .eq, .up => d + 1
  | .eq, .toEven => if d % 2 = 0 then d else d + 1

/-- The candidate on the grid `10 ^ g`, if one of the value's neighbours there identifies it. -/
def Binary.candidate? (x : Binary) (tie : Tie) (g : Int) : Option Digits :=
  let (u, v) := x.unitRatio g
  let d := 4 * x.significand * u / v
  match x.covers g d, x.covers g (d + 1) with
  | true, true => some ⟨x.nearer tie g d, g⟩
  | true, false => some ⟨d, g⟩
  | false, true => some ⟨d + 1, g⟩
  | false, false => none

/-- The value is below `10 ^ k`. -/
def Binary.isBelow (x : Binary) (k : Int) : Bool :=
  let (u, v) := x.unitRatio k
  4 * x.significand * u < v

/-- The least power of ten above the value. The binary logarithm gives it up to a step or two. -/
def Binary.scale (x : Binary) : Int :=
  let guess := ((x.significand.log2 : Int) + x.exponent) * 30103 / 100000
  ([guess - 1, guess, guess + 1, guess + 2].find? fun k => x.isBelow k).getD (guess + 3)

/-- The coefficient without its trailing zeros, which go to the exponent. -/
def stripZeros : Nat → Digits → Digits
  | 0, d => d
  | n + 1, d =>
    if d.coefficient % 10 = 0 && d.coefficient ≠ 0 then
      stripZeros n ⟨d.coefficient / 10, d.exponent + 1⟩
    else d

/-- The exact decimal expansion of the value. -/
def Binary.exact (x : Binary) : Digits :=
  if 0 ≤ x.exponent then ⟨x.significand * Nat.pow 2 x.exponent.toNat, 0⟩
  else ⟨x.significand * Nat.pow 5 (-x.exponent).toNat, x.exponent⟩

/-- The selected decimal of a positive number. Seventeen digits always suffice; were they not to,
the exact expansion would be the answer. -/
def Binary.select (x : Binary) (tie : Tie) : Digits :=
  let k := x.scale
  let d := ((List.range 17).findSome? fun n => x.candidate? tie (k - (n + 1 : Nat))).getD x.exact
  stripZeros 400 d

/-- The selected decimal of a finite number's magnitude; zero is `0 · 10 ^ 0`. -/
def shortest (tie : Tie) (x : Float) : Digits :=
  let b := Binary.ofBits x.toBits
  if b.significand = 0 then ⟨0, 0⟩ else b.select tie

end TopDown.Decimal
