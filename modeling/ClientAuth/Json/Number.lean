import ClientAuth.Binary64

/-!
# Numbers in JSON

A number without fraction and exponent that fits into 64 bits is whole; any other is a floating-point number. The digits
of its significand are kept as long as they fit into 64 bits, and the result is scaled by one rounded power of ten.
-/

namespace ClientAuth.Json

/-- A number that was read. -/
inductive Number where
  /-- A whole number that is not negative. -/
  | natural (n : UInt64)
  /-- The negative of a whole number from 1 to 2^63. -/
  | negative (n : UInt64)
  /-- A floating-point number, with its sign. -/
  | float (isNegative : Bool) (x : Binary64)
  deriving DecidableEq, Repr

/-- How a number is written: its sign, the digits before and behind the point, and the exponent with its sign. -/
structure Numeral where
  isNegative : Bool
  whole : List Nat
  fraction : Option (List Nat)
  exponent : Option (Bool × List Nat)
  deriving DecidableEq, Repr

namespace Numeral

/-- Whether a number fits into 64 bits. -/
def fits (n : Nat) : Bool := n < 18446744073709551616

/-- The significand that digits before the point make, and how many digits at their end did not fit. -/
def readWhole (significand : Nat) : List Nat → Nat × Nat
  | [] => (significand, 0)
  | d :: ds =>
    if fits (significand * 10 + d) then readWhole (significand * 10 + d) ds else (significand, ds.length + 1)

/-- The significand with the digits behind the point that fit, and how many those are. -/
def readFraction (significand taken : Nat) : List Nat → Nat × Nat
  | [] => (significand, taken)
  | d :: ds =>
    if fits (significand * 10 + d) then readFraction (significand * 10 + d) (taken + 1) ds else (significand, taken)

/-- The greatest exponent that is read; a greater one counts as beyond every number. -/
def maxExponent : Nat := 2147483647

/-- The number that decimal digits write. -/
def readExponent (ds : List Nat) : Nat := ds.foldl (fun n d => n * 10 + d) 0

/-- Multiplies by a power of ten; none when that is too large. -/
def scaleUp? (x : Binary64) (e : Nat) : Option Binary64 :=
  if e ≤ 308 then (Binary64.powerOfTen? e).bind x.mul?
  else if x.mantissa = 0 then some x
  else none

/-- Divides by a power of ten, in at most two steps of 308 places; beyond these nothing is left of a significand. -/
def scaleDown? (x : Binary64) (e : Nat) : Option Binary64 :=
  if e ≤ 308 then (Binary64.powerOfTen? e).bind x.div?
  else if e ≤ 616 then
    ((Binary64.powerOfTen? 308).bind x.div?).bind fun y => (Binary64.powerOfTen? (e - 308)).bind y.div?
  else some .zero

/-- The significand scaled by ten to `plus - minus`. -/
def scale? (significand plus minus : Nat) : Option Binary64 :=
  (Binary64.ofRatio? significand 1).bind fun x =>
    if minus ≤ plus then scaleUp? x (plus - minus) else scaleDown? x (minus - plus)

/-- The floating-point number of a numeral; none when it is too large. -/
def float? (n : Numeral) : Option Binary64 :=
  let (significand, dropped) := readWhole 0 n.whole
  let (significand, taken) := readFraction significand 0 (n.fraction.getD [])
  match n.exponent with
  | none => scale? significand dropped taken
  | some (isNegative, ds) =>
    let e := readExponent ds
    if maxExponent < e then
      if significand ≠ 0 ∧ ¬isNegative then none else some .zero
    else if isNegative then scale? significand dropped (taken + e)
    else scale? significand (dropped + e) taken

/-- The number of a numeral; none when it is too large to be read. -/
def number? (n : Numeral) : Option Number :=
  let (significand, dropped) := readWhole 0 n.whole
  if n.fraction.isSome ∨ n.exponent.isSome ∨ dropped ≠ 0 then n.float?.map (.float n.isNegative)
  else if ¬n.isNegative then some (.natural (UInt64.ofNat significand))
  else if 1 ≤ significand ∧ significand ≤ 9223372036854775808 then some (.negative (UInt64.ofNat significand))
  else (Binary64.ofRatio? significand 1).map (.float true)

end Numeral

/-- How floating-point numbers are written. -/
structure FloatStyle where
  /-- The greatest power of ten for which the first digit is written before the point, without an exponent. -/
  positionalUpTo : Nat
  /-- How many places behind the point the first digit may stand without an exponent. -/
  positionalDownTo : Nat

/-- The digits of a number are positional from the fifth place behind the point up to ten to the fifteenth. -/
def floatStyle : FloatStyle := ⟨15, 5⟩

/-- The text of a floating-point number that is not negative: always with a point or an exponent, the latter with its
sign. -/
def FloatStyle.render (style : FloatStyle) (x : Binary64) : List Char :=
  let d := x.shortest
  let digits := (toString d.digits).toList
  -- the first digit counts ten to `lead - offset`
  let lead := d.exponent + digits.length - 1
  let offset := Binary64.decimalOffset
  if offset ≤ lead ∧ lead ≤ offset + style.positionalUpTo then
    let places := lead - offset + 1
    let whole := digits.take places ++ List.replicate (places - digits.length) '0'
    let fraction := digits.drop places
    whole ++ '.' :: (if fraction.isEmpty then ['0'] else fraction)
  else if lead < offset ∧ offset - lead ≤ style.positionalDownTo then
    '0' :: '.' :: (List.replicate (offset - lead - 1) '0' ++ digits)
  else
    let mantissa := match digits with
      | [c] => [c]
      | c :: rest => c :: '.' :: rest
      | [] => []
    let (sign, size) := if offset ≤ lead then ('+', lead - offset) else ('-', offset - lead)
    mantissa ++ 'e' :: sign :: (toString size).toList

/-- The text of a number. -/
def Number.render : Number → List Char
  | natural n => (toString n.toNat).toList
  | negative n => '-' :: (toString n.toNat).toList
  | float isNegative x => (if isNegative then ['-'] else []) ++ floatStyle.render x

end ClientAuth.Json
