import ClientAuth.Proofs.Encoding.Base64
import ClientAuth.Proofs.Encoding.Cipher
import Mathlib.Data.List.Perm.Subperm
import Mathlib.Data.List.Nodup
import Mathlib.Data.Set.Operations
import Mathlib.Order.Interval.Set.Defs
import Mathlib.Order.Nat

/-!
# What was protected, and with which nonce

A `Sealing` is a message as some cipher has protected it. A `Ledger` has what matters of a system in which ciphers are
used: the supply of nonces, the texts that were written to a store, and those that wait to be. `Ledger.Step` lists what
any use may do to it: a message is protected or none is, and a text that is written is the envelope of the message that
was just protected, or it has waited. So every message that draws a nonce has one of its own and starts with it
(`Drawn`), and each text that is written has a sealing of its own that it is the envelope of (`Covers`).
-/

namespace ClientAuth

/-- A message as a cipher has protected it. -/
structure Sealing where
  cipher : Cipher
  octets : Bytes
  deriving DecidableEq

namespace Sealing

/-- Whether a nonce is drawn for it: the legacy algorithm draws none. -/
def draws (x : Sealing) : Bool := decide (x.cipher.algorithm = .aes256Gcm)

/-- The octets that it starts with, as many as a nonce has. -/
def nonce (x : Sealing) : Bytes := x.octets.take Aes.Gcm.nonceSize

/-- The envelope of it. -/
def envelope (x : Sealing) : String := Base64.encode Base64.standard x.octets

/-- What is in an envelope that a cipher has made. -/
def ofEnvelope (c : Cipher) (envelope : String) : Sealing :=
  ⟨c, match Base64.decode Base64.standard envelope with
    | .ok octets => octets
    | .error _ => []⟩

end Sealing

/-- A message as a cipher protects it with the nonce that is next. -/
def Cipher.sealing (c : Cipher) (n : Nonces) (message : Bytes) : Sealing := ⟨c, (c.protect n message).1⟩

namespace Sealing

variable (c : Cipher) (n : Nonces) (message : Bytes)

theorem envelope_sealing : (c.sealing n message).envelope = (c.enclose n message).1 := rfl

/-- In the envelope of a message is what the cipher has made of it. -/
theorem ofEnvelope_enclose : ofEnvelope c (c.enclose n message).1 = c.sealing n message := by
  rw [← envelope_sealing, envelope, ofEnvelope, Base64.decode_encode]
  rfl

variable {c n}

/-- The legacy algorithm leaves the supply alone. -/
theorem spend_of_not_draws (h : (c.sealing n message).draws = false) : c.spend n = n := by
  have hlegacy : c.algorithm = .legacyAes128Ecb := by
    cases ha : c.algorithm with
    | legacyAes128Ecb => rfl
    | aes256Gcm => exact absurd ha (of_decide_eq_false h)
  rw [Cipher.spend, hlegacy]

/-- The authenticated algorithm draws once. -/
theorem spend_of_draws (h : (c.sealing n message).draws = true) : c.spend n = n.advance := by
  have hauthenticated : c.algorithm = .aes256Gcm := of_decide_eq_true h
  rw [Cipher.spend, hauthenticated]

/-- What the authenticated algorithm makes of a message starts with the nonce that is next. -/
theorem nonce_of_draws (hn : n.Sized) (h : (c.sealing n message).draws = true) :
    (c.sealing n message).nonce = n.next := by
  have hauthenticated : c.algorithm = .aes256Gcm := of_decide_eq_true h
  have hsize : n.next.length = Aes.Gcm.nonceSize := hn n.drawn
  rw [nonce, Cipher.sealing, Cipher.protect, Cipher.protectWith, hauthenticated]
  exact List.take_left' hsize

end Sealing

/-! ## Draws -/

/-- The sealings that a nonce was drawn for. -/
def drawings (sealed : List Sealing) : List Sealing := sealed.filter Sealing.draws

/-- From a supply of nonces another one has come by these sealings: each that draws has drawn once, in their order, and
starts with the nonce that it has drawn. -/
structure Drawn (start now : Nonces) (sealed : List Sealing) : Prop where
  row : now.row = start.row
  count : now.drawn = start.drawn + (drawings sealed).length
  each : (drawings sealed).map Sealing.nonce = (List.range' start.drawn (drawings sealed).length).map start.row

namespace Drawn

variable {start now : Nonces} {sealed : List Sealing}

theorem nil (start : Nonces) : Drawn start start [] := ⟨rfl, rfl, rfl⟩

/-- One more message is protected. -/
theorem append (h : Drawn start now sealed) (hn : start.Sized) (c : Cipher) (message : Bytes) :
    Drawn start (c.spend now) (sealed ++ [c.sealing now message]) := by
  have hsized : now.Sized := by
    intro k
    rw [h.row]
    exact hn k
  cases hd : (c.sealing now message).draws with
  | false =>
    have hsame : drawings (sealed ++ [c.sealing now message]) = drawings sealed := by
      rw [drawings, List.filter_append, List.filter_singleton, hd]
      exact List.append_nil _
    rw [Sealing.spend_of_not_draws message hd]
    refine ⟨h.row, ?_, ?_⟩
    · rw [hsame, h.count]
    · rw [hsame, h.each]
  | true =>
    have hmore : drawings (sealed ++ [c.sealing now message]) = drawings sealed ++ [c.sealing now message] := by
      rw [drawings, List.filter_append, List.filter_singleton, hd]
      rfl
    rw [Sealing.spend_of_draws message hd]
    refine ⟨h.row, ?_, ?_⟩
    · rw [hmore, List.length_append, List.length_singleton, ← Nat.add_assoc, ← h.count]
      rfl
    · rw [hmore, List.length_append, List.length_singleton, List.range'_1_concat, List.map_append, List.map_append,
        h.each, ← h.count, List.map_singleton, List.map_singleton, Sealing.nonce_of_draws message hsized hd, Nonces.next,
        h.row]

/-- If all draws differ, no two sealings that draw start alike. -/
theorem nodup (h : Drawn start now sealed) (hdistinct : Set.InjOn start.row (Set.Ico start.drawn now.drawn)) :
    ((drawings sealed).map Sealing.nonce).Nodup := by
  rw [h.each]
  refine List.Nodup.map_on ?_ List.nodup_range'
  intro i hi j hj hij
  rw [List.mem_range'_1, ← h.count] at hi hj
  exact hdistinct hi hj hij

/-- If all draws differ, no two among some of the sealings start alike. -/
theorem nodup_of_subperm (h : Drawn start now sealed) (hdistinct : Set.InjOn start.row (Set.Ico start.drawn now.drawn))
    {sources : List Sealing} (hsources : sources.Subperm sealed) : ((drawings sources).map Sealing.nonce).Nodup := by
  obtain ⟨some', hperm, hsublist⟩ := hsources.filter Sealing.draws
  exact (hperm.map Sealing.nonce).nodup_iff.1 ((h.nodup hdistinct).sublist (hsublist.map Sealing.nonce))

end Drawn

/-! ## What is written -/

/-- Every text that was written, and every one that waits to be, is the envelope of a sealing of its own. -/
def Covers {ι : Type} (sealed : List Sealing) (written : List String) (waits : ι → String → Prop) : Prop :=
  ∃ (sources : List Sealing) (pending : List (ι × Sealing)), sources.map Sealing.envelope = written ∧
    (∀ x, sources.count x + (pending.map Prod.snd).count x ≤ sealed.count x) ∧
    ∀ i t, waits i t → ∃ x, (i, x) ∈ pending ∧ x.envelope = t

namespace Covers

variable {ι : Type} {sealed : List Sealing} {written : List String} {waits waits' : ι → String → Prop}

theorem nil (hnone : ∀ i t, ¬waits i t) : Covers [] [] waits :=
  ⟨[], [], rfl, fun _ => Nat.le_refl _, fun i t h => absurd h (hnone i t)⟩

/-- Fewer texts wait. -/
theorem rest (h : Covers sealed written waits) (hwaits : ∀ i t, waits' i t → waits i t) :
    Covers sealed written waits' := by
  obtain ⟨sources, pending, hwritten, hcount, hpending⟩ := h
  exact ⟨sources, pending, hwritten, hcount, fun i t ht => hpending i t (hwaits i t ht)⟩

/-- One more message is protected. -/
theorem more (h : Covers sealed written waits) (x : Sealing) : Covers (sealed ++ [x]) written waits := by
  obtain ⟨sources, pending, hwritten, hcount, hpending⟩ := h
  refine ⟨sources, pending, hwritten, fun y => ?_, hpending⟩
  rw [List.count_append]
  exact Nat.le_add_right_of_le (hcount y)

/-- One more message is protected, and its envelope waits. -/
theorem hold (h : Covers sealed written waits) (x : Sealing) {j : ι}
    (hwaits : ∀ i t, waits' i t → waits i t ∨ i = j ∧ t = x.envelope) : Covers (sealed ++ [x]) written waits' := by
  obtain ⟨sources, pending, hwritten, hcount, hpending⟩ := h
  refine ⟨sources, pending ++ [(j, x)], hwritten, fun y => ?_, fun i t ht => ?_⟩
  · have hy := hcount y
    simp only [List.map_append, List.map_cons, List.map_nil, List.count_append]
    omega
  · rcases hwaits i t ht with hold | ⟨rfl, rfl⟩
    · obtain ⟨y, hy, henvelope⟩ := hpending i t hold
      exact ⟨y, List.mem_append_left _ hy, henvelope⟩
    · exact ⟨x, List.mem_append_right _ (List.mem_singleton_self _), rfl⟩

/-- One more message is protected, and its envelope is written at once. -/
theorem store (h : Covers sealed written waits) (x : Sealing) :
    Covers (sealed ++ [x]) (written ++ [x.envelope]) waits := by
  obtain ⟨sources, pending, hwritten, hcount, hpending⟩ := h
  refine ⟨sources ++ [x], pending, ?_, fun y => ?_, hpending⟩
  · rw [List.map_append, hwritten, List.map_singleton]
  · have hy := hcount y
    rw [List.count_append, List.count_append]
    omega

/-- A text that has waited is written. -/
theorem write [DecidableEq ι] (h : Covers sealed written waits) {j : ι} {u : String} (hj : waits j u)
    (hwaits : ∀ i t, waits' i t → waits i t ∧ i ≠ j) : Covers sealed (written ++ [u]) waits' := by
  obtain ⟨sources, pending, hwritten, hcount, hpending⟩ := h
  obtain ⟨x, hx, rfl⟩ := hpending j u hj
  have hperm : pending.Perm ((j, x) :: pending.erase (j, x)) := List.perm_cons_erase hx
  refine ⟨sources ++ [x], pending.erase (j, x), ?_, fun y => ?_, fun i t ht => ?_⟩
  · rw [List.map_append, hwritten, List.map_singleton]
  · have hy := hcount y
    rw [(hperm.map Prod.snd).count_eq] at hy
    simp only [List.map_cons, List.count_cons] at hy
    rw [List.count_append, List.count_singleton]
    omega
  · obtain ⟨hwait, hne⟩ := hwaits i t ht
    obtain ⟨y, hy, henvelope⟩ := hpending i t hwait
    refine ⟨y, (List.mem_erase_of_ne ?_).2 hy, henvelope⟩
    intro heq
    exact hne (congrArg Prod.fst heq)

/-- The texts that were written have sealings of their own. -/
theorem exists_sources (h : Covers sealed written waits) :
    ∃ sources : List Sealing, sources.Subperm sealed ∧ sources.map Sealing.envelope = written := by
  obtain ⟨sources, pending, hwritten, hcount, -⟩ := h
  exact ⟨sources, List.subperm_iff_count.2 fun x => Nat.le_of_add_right_le (hcount x), hwritten⟩

end Covers

/-! ## Uses -/

/-- What matters of a system in which ciphers are used: the supply of nonces, what was written, and what waits where to
be written. -/
structure Ledger (ι : Type) where
  nonces : Nonces
  written : List String
  waits : ι → String → Prop

namespace Ledger

variable {ι κ : Type}

/-- What a use may do. It protects at most one message, and spends of the supply what that takes. -/
inductive Step (l l' : Ledger ι) : Option Sealing → Prop where
  /-- Nothing is protected, and nothing is written. -/
  | rests (hnonces : l'.nonces = l.nonces) (hwritten : l'.written = l.written)
      (hwaits : ∀ i t, l'.waits i t → l.waits i t) : Step l l' none
  /-- A message is protected for a caller, or for a store that does not take it. -/
  | seals (c : Cipher) (message : Bytes) (hnonces : l'.nonces = c.spend l.nonces) (hwritten : l'.written = l.written)
      (hwaits : ∀ i t, l'.waits i t → l.waits i t) : Step l l' (some (c.sealing l.nonces message))
  /-- A message is protected, and its envelope waits to be written. -/
  | holds (c : Cipher) (message : Bytes) (j : ι) (hnonces : l'.nonces = c.spend l.nonces)
      (hwritten : l'.written = l.written)
      (hwaits : ∀ i t, l'.waits i t → l.waits i t ∨ i = j ∧ t = (c.sealing l.nonces message).envelope) :
      Step l l' (some (c.sealing l.nonces message))
  /-- A message is protected, and its envelope is written. -/
  | stores (c : Cipher) (message : Bytes) (hnonces : l'.nonces = c.spend l.nonces)
      (hwritten : l'.written = l.written ++ [(c.sealing l.nonces message).envelope])
      (hwaits : ∀ i t, l'.waits i t → l.waits i t) : Step l l' (some (c.sealing l.nonces message))
  /-- A text is written that has waited. -/
  | writes (j : ι) (u : String) (hj : l.waits j u) (hnonces : l'.nonces = l.nonces)
      (hwritten : l'.written = l.written ++ [u])
      (hwaits : ∀ i t, l'.waits i t → l.waits i t ∧ i ≠ j) : Step l l' none

/-- A use takes a nonce if it protects a message that draws one, and none else. -/
theorem Step.nonces_eq {l l' : Ledger ι} {made : Option Sealing} (h : l.Step l' made) :
    l'.nonces = if made.any Sealing.draws then l.nonces.advance else l.nonces := by
  have hspent : ∀ (c : Cipher) (message : Bytes),
      c.spend l.nonces = if (c.sealing l.nonces message).draws then l.nonces.advance else l.nonces := by
    intro c message
    cases hd : (c.sealing l.nonces message).draws with
    | false => exact Sealing.spend_of_not_draws message hd
    | true => exact Sealing.spend_of_draws message hd
  cases h with
  | rests hnonces _ _ => exact hnonces
  | seals c message hnonces _ _ => exact hnonces.trans (hspent c message)
  | holds c message _ hnonces _ _ => exact hnonces.trans (hspent c message)
  | stores c message hnonces _ _ => exact hnonces.trans (hspent c message)
  | writes _ _ _ hnonces _ _ => exact hnonces

/-- What a part of a system does, the whole of it does: what waits in the part waits in the whole under a place of its
own, and the rest of the whole is as it was. -/
theorem Step.lift {l l' : Ledger ι} {L L' : Ledger κ} {made : Option Sealing} (h : l.Step l' made) {place : ι → κ}
    (hplace : Function.Injective place)
    (hbefore : L.nonces = l.nonces ∧ L.written = l.written) (hafter : L'.nonces = l'.nonces ∧ L'.written = l'.written)
    (hpart : ∀ i t, l.waits i t → L.waits (place i) t)
    (hwhole : ∀ k t, L'.waits k t → (∃ i, place i = k ∧ l'.waits i t) ∨ L.waits k t ∧ ∀ i, place i ≠ k) :
    L.Step L' made := by
  obtain ⟨hnonces, hwritten⟩ := hbefore
  obtain ⟨hnonces', hwritten'⟩ := hafter
  have hold : (∀ i t, l'.waits i t → l.waits i t) → ∀ k t, L'.waits k t → L.waits k t := by
    intro hwaits k t ht
    rcases hwhole k t ht with ⟨i, rfl, hi⟩ | ⟨hk, -⟩
    · exact hpart i t (hwaits i t hi)
    · exact hk
  cases h with
  | rests hn hw hwaits =>
    exact .rests (by rw [hnonces', hn, hnonces]) (by rw [hwritten', hw, hwritten]) (hold hwaits)
  | seals c message hn hw hwaits =>
    rw [← hnonces] at hn ⊢
    exact .seals c message (hnonces'.trans hn) (by rw [hwritten', hw, hwritten]) (hold hwaits)
  | holds c message j hn hw hwaits =>
    rw [← hnonces] at hn hwaits ⊢
    refine .holds c message (place j) (hnonces'.trans hn) (by rw [hwritten', hw, hwritten]) fun k t ht => ?_
    rcases hwhole k t ht with ⟨i, rfl, hi⟩ | ⟨hk, -⟩
    · exact (hwaits i t hi).imp (hpart i t) fun hnew => ⟨congrArg place hnew.1, hnew.2⟩
    · exact Or.inl hk
  | stores c message hn hw hwaits =>
    rw [← hnonces] at hn hw ⊢
    exact .stores c message (hnonces'.trans hn) (by rw [hwritten', hw, hwritten]) (hold hwaits)
  | writes j u hj hn hw hwaits =>
    refine .writes (place j) u (hpart j u hj) (by rw [hnonces', hn, hnonces]) (by rw [hwritten', hw, hwritten])
      fun k t ht => ?_
    rcases hwhole k t ht with ⟨i, rfl, hi⟩ | ⟨hk, hother⟩
    · obtain ⟨hwait, hne⟩ := hwaits i t hi
      exact ⟨hpart i t hwait, fun hij => hne (hplace hij)⟩
    · exact ⟨hk, fun hkj => hother j hkj.symm⟩

/-- The messages that were protected account for what was drawn, for what was written and for what waits. -/
structure Balanced (start : Nonces) (l : Ledger ι) (sealed : List Sealing) : Prop where
  drawn : Drawn start l.nonces sealed
  covers : Covers sealed l.written l.waits

/-- Every use keeps the account. -/
theorem Balanced.step [DecidableEq ι] {start : Nonces} {l l' : Ledger ι} {sealed : List Sealing} {made : Option Sealing}
    (h : Balanced start l sealed) (hn : start.Sized) (hstep : l.Step l' made) :
    Balanced start l' (sealed ++ made.toList) := by
  cases hstep with
  | rests hnonces hwritten hwaits =>
    rw [Option.toList_none, List.append_nil]
    refine ⟨?_, ?_⟩
    · rw [hnonces]
      exact h.drawn
    · rw [hwritten]
      exact h.covers.rest hwaits
  | seals c message hnonces hwritten hwaits =>
    refine ⟨?_, ?_⟩
    · rw [hnonces]
      exact h.drawn.append hn c message
    · rw [hwritten]
      exact (h.covers.rest hwaits).more _
  | holds c message j hnonces hwritten hwaits =>
    refine ⟨?_, ?_⟩
    · rw [hnonces]
      exact h.drawn.append hn c message
    · rw [hwritten]
      exact h.covers.hold _ hwaits
  | stores c message hnonces hwritten hwaits =>
    refine ⟨?_, ?_⟩
    · rw [hnonces]
      exact h.drawn.append hn c message
    · rw [hwritten]
      exact (h.covers.rest hwaits).store _
  | writes j u hj hnonces hwritten hwaits =>
    rw [Option.toList_none, List.append_nil]
    refine ⟨?_, ?_⟩
    · rw [hnonces]
      exact h.drawn
    · rw [hwritten]
      exact h.covers.write hj hwaits

end Ledger

end ClientAuth
