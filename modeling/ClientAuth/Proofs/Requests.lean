import ClientAuth.Enrollment
import ClientAuth.Proofs.Encoding.Base64

/-!
# What accepted parameters ask for

The check of parameters (`Params.problem?`) and the request that they become (`Request.ofParams`) look at different forms
of the same data: octets and their base64 text, a span of time and its whole seconds. They agree about all of it but a
lifetime of less than a second, which passes the check and is asked for as no second at all
(`honoured_unless_shorter_than_a_second`).
-/

namespace ClientAuth.Enrollment

namespace Span

/-- A span in nanoseconds. -/
def inNanos (s : Span) : Nat := s.secs.toNat * 1000000000 + s.nanos

/-- The whole seconds of a span. -/
theorem toNat_secs (s : Span) : s.secs.toNat = s.inNanos / 1000000000 := by
  have hnanos := s.nanos.isLt
  rw [inNanos]
  omega

/-- No time at all is no nanosecond. -/
theorem isZero_iff (s : Span) : s.isZero = true ↔ s.inNanos = 0 := by
  have hnanos : s.nanos = 0 ↔ (s.nanos : Nat) = 0 := by rw [Fin.ext_iff, Fin.val_zero]
  rw [isZero, Bool.and_eq_true, beq_iff_eq, beq_iff_eq, hnanos, ← UInt64.toNat_inj, inNanos, UInt64.toNat_zero]
  omega

end Span

/-- Parameters are accepted if there is a key, an expected client identifier is not blank, a signing request is not empty,
and the lifetime is some time, however short. -/
theorem Params.problem?_eq_none_iff (p : Params) :
    p.problem? = none ↔
      p.publicKey ≠ [] ∧ (∀ id, p.clientId = some id → ∃ c ∈ id.toList, Text.isBlank c = false) ∧
        (∀ bs, p.csr = some bs → bs ≠ []) ∧ 0 < p.expiry.inNanos := by
  have hkey : p.publicKey.isEmpty = false ↔ p.publicKey ≠ [] := by
    rw [List.isEmpty_eq_false_iff]
  have hid : p.clientId.any Text.isBlankText = false ↔
      ∀ id, p.clientId = some id → ∃ c ∈ id.toList, Text.isBlank c = false := by
    cases p.clientId <;> simp [Text.isBlankText]
  have hcsr : p.csr.any (·.isEmpty) = false ↔ ∀ bs, p.csr = some bs → bs ≠ [] := by
    cases p.csr <;> simp
  have hexpiry : p.expiry.isZero = false ↔ 0 < p.expiry.inNanos := by
    rw [← Bool.not_eq_true, Span.isZero_iff, Nat.pos_iff_ne_zero]
  have hpass : ∀ (fails : Bool) (problem : Problem) (next : Option Problem),
      (if fails = true then some problem else next) = none ↔ fails = false ∧ next = none := by
    intro fails problem next
    cases fails <;> simp
  rw [← hkey, ← hid, ← hcsr, ← hexpiry, problem?]
  simp only [hpass, and_true]

/-- What the service is to find in a request that was made out of parameters: the key and, exactly if there is one, the
signing request, as text that is not empty and is read as their octets; a client identifier, if any, that is not blank;
and the lifetime in whole seconds. -/
structure Request.Conveys (r : Request) (p : Params) : Prop where
  publicKey : r.publicKey ≠ "" ∧ Base64.decode Base64.urlSafe r.publicKey = .ok p.publicKey
  csr_none : r.csr = none ↔ p.csr = none
  csr : ∀ text, r.csr = some text →
    text ≠ "" ∧ ∃ bs, p.csr = some bs ∧ Base64.decode Base64.urlSafe text = .ok bs
  clientId : r.clientId = p.clientId ∧ ∀ id, r.clientId = some id → ∃ c ∈ id.toList, Text.isBlank c = false
  expiry : r.expiry.toNat = p.expiry.inNanos / 1000000000

/-- Octets are read back out of the text that a request has for them, and that of some octets is not empty. -/
theorem text_of_octets (bs : Bytes) :
    Base64.decode Base64.urlSafe (Base64.encode Base64.urlSafe bs) = .ok bs ∧
      (bs ≠ [] → Base64.encode Base64.urlSafe bs ≠ "") := by
  have hback := Base64.Form.lawful_urlSafe.decode_encode (by decide) bs
  refine ⟨hback, fun hne hempty => hne ?_⟩
  rw [hempty] at hback
  exact (Except.ok.inj hback).symm

/-- Whatever parameters are accepted, the request that they become conveys them to the service, with any nonce. The
lifetime that it asks for is at least a second unless the one that was wanted is shorter than that; then it asks for none,
though parameters with no lifetime at all are refused. -/
theorem honoured_unless_shorter_than_a_second (nonce : String) {p : Params} (hp : p.problem? = none) :
    (Request.ofParams nonce p).Conveys p ∧
      (1 ≤ (Request.ofParams nonce p).expiry.toNat ↔ 1000000000 ≤ p.expiry.inNanos) ∧
      ((Request.ofParams nonce p).expiry = 0 ↔ 0 < p.expiry.inNanos ∧ p.expiry.inNanos < 1000000000) := by
  obtain ⟨hkey, hid, hcsr, hexpiry⟩ := p.problem?_eq_none_iff.1 hp
  have hsecs : (Request.ofParams nonce p).expiry.toNat = p.expiry.inNanos / 1000000000 := p.expiry.toNat_secs
  refine ⟨⟨?key, ?absent, ?csr, ⟨rfl, hid⟩, hsecs⟩, ?long, ?short⟩
  case key => exact ⟨(text_of_octets p.publicKey).2 hkey, (text_of_octets p.publicKey).1⟩
  case absent => exact Option.map_eq_none_iff
  case csr =>
    intro text htext
    obtain ⟨bs, hbs, rfl⟩ := Option.map_eq_some_iff.1 htext
    exact ⟨(text_of_octets bs).2 (hcsr bs hbs), bs, hbs, (text_of_octets bs).1⟩
  case long =>
    rw [hsecs]
    omega
  case short =>
    rw [← UInt64.toNat_inj, hsecs, UInt64.toNat_zero]
    omega

/-- A lifetime of half a second is accepted, and no second is asked for. -/
theorem half_a_second_asked_for_as_none :
    let p : Params := { publicKey := [4, 1, 2], clientId := some "alice123", csr := some [48, 0], expiry := ⟨0, 500000000⟩ }
    p.problem? = none ∧ (Request.ofParams "nonce" p).Conveys p ∧ (Request.ofParams "nonce" p).expiry = 0 := by
  intro p
  have hp : p.problem? = none := by decide
  obtain ⟨hconveys, -, hshort⟩ := honoured_unless_shorter_than_a_second "nonce" hp
  exact ⟨hp, hconveys, hshort.2 (by decide)⟩

end ClientAuth.Enrollment
