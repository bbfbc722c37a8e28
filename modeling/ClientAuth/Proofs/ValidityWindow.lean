import ClientAuth.Certificate.Basic
import Mathlib.Algebra.Ring.Int.Defs
import Mathlib.Algebra.Ring.Nat
import Mathlib.Tactic.Common

/-!
# Windows of validity in unbounded integers

`Validity.covers` reckons in 64-bit words and stops at both ends of their range. Here it is told by the integers that the
words stand for (`Validity.covers_iff`), and an instant by the nanoseconds that have passed since the start of 1970
(`Instant.elapsed`), so that `Validity.decided_exactly` speaks of a window that nothing wraps around in.
-/

namespace ClientAuth

namespace Instant

/-- The nanoseconds from the start of 1970 to an instant; less than none for an instant before it. -/
def elapsed (t : Instant) : Int := t.secs.toInt * 1000000000 + t.nanos

/-- An instant counts as before the start of 1970 if its seconds do: nanoseconds never make up for a second. -/
theorem elapsed_neg_iff (t : Instant) : t.elapsed < 0 ↔ t.secs < 0 := by
  have hnanos := t.nanos.isLt
  rw [Int64.lt_iff_toInt_lt, Int64.toInt_zero, elapsed]
  omega

/-- The whole seconds since the start of 1970 are those that the nanoseconds since then make up. -/
theorem sinceEpoch?_eq_some_iff (t : Instant) (s : UInt64) :
    t.sinceEpoch? = some s ↔ 0 ≤ t.elapsed ∧ (s.toNat : Int) = t.elapsed / 1000000000 := by
  have hnanos := t.nanos.isLt
  have hwhole : t.elapsed / 1000000000 = t.secs.toInt := by
    rw [elapsed]
    omega
  unfold sinceEpoch?
  by_cases hneg : t.secs < 0
  · have hbefore := (elapsed_neg_iff t).2 hneg
    rw [if_pos hneg]
    constructor
    · intro h
      cases h
    · rintro ⟨hafter, -⟩
      exact absurd hafter (Int.not_le.2 hbefore)
  · have hpos : 0 ≤ t.secs := Int64.not_lt.1 hneg
    have hafter : 0 ≤ t.elapsed := Int.not_lt.1 fun h => hneg ((elapsed_neg_iff t).1 h)
    have hsecs : (t.secs.toUInt64.toNat : Int) = t.secs.toInt := by
      rw [Int64.toNat_toUInt64_of_le hpos, Int64.cast_toNatClampNeg _ hpos]
    rw [if_neg hneg, hwhole, Option.some.injEq, ← UInt64.toNat_inj]
    omega

/-- There are no whole seconds since the start of 1970 exactly before it. -/
theorem sinceEpoch?_eq_none_iff (t : Instant) : t.sinceEpoch? = none ↔ t.elapsed < 0 := by
  rw [elapsed_neg_iff]
  simp [sinceEpoch?]

end Instant

namespace Validity

/-- A second that counts ahead is sixty seconds on, if that is still a word. -/
theorem ahead?_eq_some_iff (s latest : UInt64) : ahead? s = some latest ↔ latest.toNat = s.toNat + 60 := by
  have hlatest := latest.toNat_lt
  have hlimit : (18446744073709551615 - skewTolerance).toNat = 2 ^ 64 - 1 - 60 := by decide
  unfold ahead?
  split
  · rename_i hfits
    rw [UInt64.le_iff_toNat_le, hlimit] at hfits
    have hsum : (s + skewTolerance).toNat = s.toNat + 60 := by
      rw [UInt64.toNat_add, skewTolerance]
      exact Nat.mod_eq_of_lt (by simp only [UInt64.reduceToNat]; omega)
    rw [Option.some.injEq, ← UInt64.toNat_inj, hsum, eq_comm]
  · rename_i hfull
    rw [UInt64.le_iff_toNat_le, hlimit] at hfull
    simp only [reduceCtorEq, false_iff]
    omega

/-- No second that counts ahead is a word exactly in the last minute of the range. -/
theorem ahead?_eq_none_iff (s : UInt64) : ahead? s = none ↔ 2 ^ 64 ≤ s.toNat + 60 := by
  constructor
  · intro h
    by_contra hfits
    have hword : (UInt64.ofNat (s.toNat + 60)).toNat = s.toNat + 60 :=
      UInt64.toNat_ofNat_of_lt' (Nat.lt_of_not_le hfits)
    rw [← ahead?_eq_some_iff, h] at hword
    cases hword
  · intro h
    cases hahead : ahead? s with
    | none => rfl
    | some latest =>
      have hlatest := latest.toNat_lt
      have hsum := (ahead?_eq_some_iff s latest).1 hahead
      omega

/-- A second that counts behind is sixty seconds back, or the start of 1970. -/
theorem toNat_behind (s : UInt64) : (behind s).toNat = s.toNat - 60 := by
  unfold behind
  split
  · rename_i hlow
    have hback : s.toNat < 60 := UInt64.lt_iff_toNat_lt.1 hlow
    rw [UInt64.toNat_zero]
    omega
  · rename_i hhigh
    exact UInt64.toNat_sub_of_le _ _ (UInt64.not_lt.1 hhigh)

/-- A second lies in the widened window if the integers say so and its own sixty seconds ahead are still a word. -/
theorem covers_iff (v : Validity) (s : UInt64) :
    v.covers s = true ↔
      s.toNat + 60 < 2 ^ 64 ∧ v.notBefore.toNat ≤ s.toNat + 60 ∧ s.toNat ≤ v.notAfter.toNat + 60 := by
  unfold covers
  cases hahead : ahead? s with
  | none =>
    have hfull := (ahead?_eq_none_iff s).1 hahead
    simp only [Bool.false_eq_true, false_iff]
    omega
  | some latest =>
    have hlatest := latest.toNat_lt
    have hsum := (ahead?_eq_some_iff s latest).1 hahead
    simp only [Bool.and_eq_true, decide_eq_true_eq, UInt64.le_iff_toNat_le, toNat_behind, hsum]
    omega

/-- The validity of a certificate is decided exactly at every limit. A certificate is valid for a key at an instant if and
only if the instant is not before the start of 1970, its whole seconds lie in the window of the certificate, widened by
sixty seconds at both ends as integers are, their sixty seconds ahead are still a word, and the key is that of the
certificate, octet by octet. For any two words as a window, also when the later one comes first, and for any second, the
decision about the time is that of the integers. -/
theorem decided_exactly :
    (∀ (c : Certificate) (key : Bytes) (t : Instant),
      c.isValidAgainst key t = true ↔
        0 ≤ t.elapsed ∧ t.elapsed / 1000000000 + 60 < 2 ^ 64 ∧
          c.validity.notBefore.toNat ≤ t.elapsed / 1000000000 + 60 ∧
          t.elapsed / 1000000000 ≤ c.validity.notAfter.toNat + 60 ∧ key = c.publicKey) ∧
    ∀ a b s : UInt64,
      covers ⟨a, b⟩ s = true ↔ s.toNat + 60 < 2 ^ 64 ∧ a.toNat ≤ s.toNat + 60 ∧ s.toNat ≤ b.toNat + 60 := by
  refine ⟨fun c key t => ?_, fun a b s => covers_iff ⟨a, b⟩ s⟩
  unfold Certificate.isValidAgainst
  cases hs : t.sinceEpoch? with
  | none =>
    have hbefore := t.sinceEpoch?_eq_none_iff.1 hs
    simp only [Bool.false_eq_true, false_iff]
    omega
  | some s =>
    obtain ⟨hafter, hwhole⟩ := (t.sinceEpoch?_eq_some_iff s).1 hs
    have htime : c.validity.covers s = true ↔ (s.toNat : Int) + 60 < 2 ^ 64 ∧
        c.validity.notBefore.toNat ≤ (s.toNat : Int) + 60 ∧ (s.toNat : Int) ≤ c.validity.notAfter.toNat + 60 := by
      rw [covers_iff]
      omega
    simp only [Bool.and_eq_true, beq_iff_eq, htime, ← hwhole, hafter, true_and, and_assoc, @eq_comm _ c.publicKey key]

/-- Half a second before the start of 1970 is before it. -/
example : (Instant.mk (-1) 500000000).elapsed = -500000000 ∧ (Instant.mk (-1) 500000000).sinceEpoch? = none := by decide

/-- A window that ends before it starts still covers what lies within a minute of both of its ends. -/
example : covers ⟨100, 0⟩ 40 = true ∧ covers ⟨100, 0⟩ 60 = true ∧ covers ⟨100, 0⟩ 61 = false := by decide

end Validity

end ClientAuth
