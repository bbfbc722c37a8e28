/-!
# Binary floating point

A number of the 64-bit binary format is a mantissa times a power of two. Everything is exact arithmetic on natural
numbers: `Binary64.ofRatio?` rounds a ratio to the nearest such number, a tie going to the even mantissa, and
`Binary64.shortest` finds the fewest decimal digits that round back to a number.
-/

namespace ClientAuth

/-- A number that is not negative: `mantissa * 2 ^ (scale - 1074)`, where the mantissa has at most 53 bits and, unless
`scale` is nought, exactly 53. -/
structure Binary64 where
  mantissa : Nat
  scale : Nat
  deriving DecidableEq, Repr

namespace Binary64

/-- Nought. -/
def zero : Binary64 := ⟨0, 0⟩

/-- The exponent of the least unit. -/
def leastExponent : Nat := 1074

/-- The greatest scale of a finite number. -/
def maxScale : Nat := 2045

/-- The least mantissa of 53 bits. -/
def leastFull : Nat := 4503599627370496

/-- A power of ten. -/
def tenTo (e : Nat) : Nat := Nat.pow 10 e

/-- A number as a ratio: its numerator and its denominator. -/
def ratio (x : Binary64) : Nat × Nat :=
  if leastExponent ≤ x.scale then (x.mantissa <<< (x.scale - leastExponent), 1)
  else (x.mantissa, 1 <<< (leastExponent - x.scale))

/-- The quotient rounded to the nearest whole number, a tie going to the even one. -/
def roundQuotient (num den : Nat) : Nat :=
  let q := num / den
  let r := num % den
  if 2 * r < den then q
  else if den < 2 * r then q + 1
  else q + q % 2

/-- The scale at which a ratio has a mantissa of 53 bits, or nought when the ratio is too small for that. -/
def scaleOf (num den : Nat) : Nat :=
  -- `2 ^ width` is below the ratio in units of the least one, or just above it
  let width := leastExponent + num.log2 - den.log2
  let guess := width - 52
  -- the guess is one too large when the mantissa would fall short of 53 bits
  if guess ≠ 0 ∧ num <<< leastExponent < den <<< (guess + 52) then guess - 1 else guess

/-- The nearest number to a ratio; none when it is too large for a finite one. -/
def ofRatio? (num den : Nat) : Option Binary64 :=
  let scale := scaleOf num den
  let mantissa := roundQuotient (num <<< leastExponent) (den <<< scale)
  let x : Binary64 := if mantissa = 2 * leastFull then ⟨leastFull, scale + 1⟩ else ⟨mantissa, scale⟩
  if x.scale ≤ maxScale then some x else none

/-- The nearest number to a power of ten. -/
def powerOfTen? (e : Nat) : Option Binary64 := ofRatio? (tenTo e) 1

/-- The product, rounded; none when it is too large. -/
def mul? (x y : Binary64) : Option Binary64 :=
  ofRatio? (x.ratio.1 * y.ratio.1) (x.ratio.2 * y.ratio.2)

/-- The quotient, rounded; none when it is too large. -/
def div? (x y : Binary64) : Option Binary64 :=
  ofRatio? (x.ratio.1 * y.ratio.2) (x.ratio.2 * y.ratio.1)

/-- A decimal number: `digits * 10 ^ (exponent - 400)`. -/
structure Decimal where
  digits : Nat
  exponent : Nat
  deriving DecidableEq, Repr

/-- The offset of decimal exponents, so that those of all numbers are natural. -/
def decimalOffset : Nat := 400

/-- The ratio of a decimal number. -/
def Decimal.ratio (d : Decimal) : Nat × Nat := (d.digits * tenTo d.exponent, tenTo decimalOffset)

/-- Whether a decimal number rounds to `x`: it lies between the middles to the neighbours of `x`, ends included for an
even mantissa. The gap below the least mantissa of a scale is half as wide as the one above. -/
def roundsTo (x : Binary64) (d : Decimal) : Bool :=
  let (num, den) := d.ratio
  let quarters := (num * 4) <<< leastExponent
  let unit := den <<< x.scale
  let below := if x.mantissa = leastFull ∧ x.scale ≠ 0 then 4 * x.mantissa - 1 else 4 * x.mantissa - 2
  let above := 4 * x.mantissa + 2
  if x.mantissa % 2 = 0 then below * unit ≤ quarters && quarters ≤ above * unit
  else below * unit < quarters && quarters < above * unit

/-- The least decimal exponent `e` with `x < 10 ^ (e - 400)`, searched from `e` upwards. -/
def magnitudeFrom (x : Binary64) (e : Nat) : Nat → Nat
  | 0 => e
  | fuel + 1 =>
    if x.ratio.1 * tenTo decimalOffset < x.ratio.2 * tenTo e then e else magnitudeFrom x (e + 1) fuel

/-- The decimal number of `count` digits or one more that is nearest to `x` among those that round to it, if there is
one. -/
def nearest? (x : Binary64) (magnitude count : Nat) : Option Decimal :=
  let exponent := magnitude - count
  let num := x.ratio.1 * tenTo decimalOffset
  let den := x.ratio.2 * tenTo exponent
  let low : Decimal := ⟨num / den, exponent⟩
  let high : Decimal := ⟨num / den + 1, exponent⟩
  let remainder := num % den
  let highFirst := den < 2 * remainder ∨ (den = 2 * remainder ∧ low.digits % 2 = 1)
  let (first, second) := if highFirst then (high, low) else (low, high)
  if roundsTo x first then some first
  else if roundsTo x second then some second
  else none

/-- A decimal number without the zeros at its end. -/
def Decimal.strip : (fuel : Nat) → Decimal → Decimal
  | 0, d => d
  | fuel + 1, d => if d.digits ≠ 0 ∧ d.digits % 10 = 0 then strip fuel ⟨d.digits / 10, d.exponent + 1⟩ else d

/-- The decimal number of fewest digits that rounds to `x`, the nearest of those. -/
def shortest (x : Binary64) : Decimal :=
  if x.mantissa = 0 then ⟨0, decimalOffset⟩
  else
    let magnitude := magnitudeFrom x (decimalOffset - 330) 700
    match (List.range 17).findSome? fun i => nearest? x magnitude (i + 1) with
    | some d => d.strip 20
    | none => ⟨0, decimalOffset⟩

end Binary64

end ClientAuth
