/-!
# Instants and validity windows

An instant is counted from the start of 1970. A window of validity is widened by `skewTolerance` at both ends, so that
clocks which differ a little still agree; `Validity.covers` decides it in 64-bit words without wrapping around.
-/

namespace ClientAuth

/-- A point in time: whole seconds from the start of 1970, and the nanoseconds that follow them. -/
structure Instant where
  secs : Int64
  nanos : Fin 1000000000
  deriving DecidableEq, Repr

/-- The whole seconds since the start of 1970; no number for an instant before it. -/
def Instant.sinceEpoch? (t : Instant) : Option UInt64 :=
  if t.secs < 0 then none else some t.secs.toUInt64

/-- How far two clocks may be apart, in seconds. -/
def skewTolerance : UInt64 := 60

/-- The seconds between which a certificate is valid, both included. -/
structure Validity where
  notBefore : UInt64
  notAfter : UInt64
  deriving DecidableEq, Repr

namespace Validity

/-- The latest second that still counts as `s`; none when it does not fit into a word. -/
def ahead? (s : UInt64) : Option UInt64 :=
  if s ≤ 18446744073709551615 - skewTolerance then some (s + skewTolerance) else none

/-- The earliest second that still counts as `s`, stopping at the start of 1970. -/
def behind (s : UInt64) : UInt64 :=
  if s < skewTolerance then 0 else s - skewTolerance

/-- Whether second `s` lies in the window once it is widened by the tolerance at both ends. -/
def covers (v : Validity) (s : UInt64) : Bool :=
  match ahead? s with
  | none => false
  | some latest => v.notBefore ≤ latest && behind s ≤ v.notAfter

end Validity

end ClientAuth
