import ClientAuth.Der.Element

/-!
# Times in DER

Both written forms of a time give whole seconds since the start of 1970: the short one with two digits for a year from
1970 to 2049, and the long one with four digits for a year from 1970 to 9999.
-/

namespace ClientAuth.Der

/-- A calendar date and a time of day. -/
structure CalendarTime where
  year : Nat
  month : Nat
  day : Nat
  hour : Nat
  minute : Nat
  second : Nat
  deriving DecidableEq, Repr

namespace CalendarTime

/-- Whether a year has a 29th of February. -/
def isLeapYear (y : Nat) : Bool := y % 4 == 0 && (y % 100 != 0 || y % 400 == 0)

/-- The number of days in each month of a year. -/
def monthLengths (y : Nat) : List Nat :=
  [31, if isLeapYear y then 29 else 28, 31, 30, 31, 30, 31, 31, 30, 31, 30, 31]

/-- The days from the start of 1970 to the start of a year. -/
def daysBeforeYear (y : Nat) : Nat :=
  let leaps := (y - 1) / 4 - (y - 1) / 100 + (y - 1) / 400
  (y - 1970) * 365 + (leaps - 477)

/-- Whether there is such a date and time of day, not before 1970. -/
def exists? (t : CalendarTime) : Bool :=
  1970 ≤ t.year && t.year ≤ 9999 && 1 ≤ t.month && t.month ≤ 12 && 1 ≤ t.day &&
    t.day ≤ (monthLengths t.year).getD (t.month - 1) 0 && t.hour ≤ 23 && t.minute ≤ 59 && t.second ≤ 59

/-- The whole seconds from the start of 1970. -/
def seconds (t : CalendarTime) : Nat :=
  let days := daysBeforeYear t.year + ((monthLengths t.year).take (t.month - 1)).foldl (· + ·) 0 + (t.day - 1)
  ((days * 24 + t.hour) * 60 + t.minute) * 60 + t.second

end CalendarTime

/-- The number that decimal digits write. -/
def decimal? (bs : Bytes) : Option Nat :=
  bs.foldl (fun n? b => n?.bind fun n => if 48 ≤ b ∧ b ≤ 57 then some (n * 10 + (b.toNat - 48)) else none) (some 0)

/-- The numbers of two digits that a content is made of, up to the letter `Z` at its end. -/
def digitPairs? : Bytes → Option (List Nat)
  | [z] => if z = 90 then some [] else none
  | a :: b :: rest => do
    let n ← decimal? [a, b]
    let ns ← digitPairs? rest
    return n :: ns
  | [] => none

/-- The seconds of a date and time of day that there is. -/
def CalendarTime.seconds? (t : CalendarTime) : Option UInt64 :=
  if t.exists? then some (UInt64.ofNat t.seconds) else none

/-- The seconds since the start of 1970 that an element writes. -/
def seconds? (e : Element) : Option UInt64 :=
  if e.tag = Tag.utcTime then
    match digitPairs? e.content with
    | some [yy, month, day, hour, minute, second] =>
      let year := if 50 ≤ yy then 1900 + yy else 2000 + yy
      CalendarTime.seconds? { year, month, day, hour, minute, second }
    | _ => none
  else if e.tag = Tag.generalizedTime then
    match digitPairs? e.content with
    | some [century, yy, month, day, hour, minute, second] =>
      CalendarTime.seconds? { year := century * 100 + yy, month, day, hour, minute, second }
    | _ => none
  else none

end ClientAuth.Der
