import ClientAuth.Aes.Gcm
import ClientAuth.Proofs.Encoding.Utf8

/-!
# AES undoes itself

Each step of a round is undone by the step beside it, so that by induction over the round keys decrypting undoes
encrypting (`decrypt_encrypt`). The mixing of a column needs only that doubling is additive (`double_xor`). In counter
mode the stream is added twice, and the tag that was appended is the one that is looked for (`Gcm.reveal?_protect`).
-/

namespace ClientAuth.Aes

/-- The substitutes of all octets are substituted for these octets. -/
theorem map_unsubstitute : substitution.toList.map unsubstitute = (List.range 256).map UInt8.ofNat := by
  decide +kernel

theorem unsubstitute_substitute (b : UInt8) : unsubstitute (substitute b) = b := by
  have hcount : substitution.size = 256 := by decide +kernel
  have hsize : b.toNat < substitution.size := hcount ▸ b.toNat_lt
  have hentry : substitution.toList[b.toNat]? = some (substitute b) := by
    rw [substitute, Array.getElem?_toList, Array.getD_eq_getD_getElem?, Array.getElem?_eq_getElem hsize]
    rfl
  have hback : (substitution.toList.map unsubstitute)[b.toNat]? = some (unsubstitute (substitute b)) := by
    rw [List.getElem?_map, hentry]
    rfl
  rw [map_unsubstitute, List.getElem?_map, List.getElem?_range b.toNat_lt, Option.map_some, UInt8.ofNat_toNat] at hback
  exact (Option.some.inj hback).symm

theorem unsubstituteAll_substituteAll (s : Block) : unsubstituteAll (substituteAll s) = s := by
  simp [unsubstituteAll, substituteAll, Block.mapColumns, Column.map, unsubstitute_substitute]

theorem turnRowsBack_turnRows (s : Block) : turnRowsBack (turnRows s) = s := rfl

/-- What doubling adds for the bit that is shifted out. -/
def carry (bit : UInt8) : UInt8 := if bit = 0 then 0 else 0x1b

/-- Doubling is a shift, with what the bit shifted out adds. -/
theorem double_eq (b : UInt8) : double b = (b <<< 1) ^^^ carry (b >>> 7) := by
  exact octet_all (P := fun b => double b = (b <<< 1) ^^^ carry (b >>> 7)) (by decide +kernel) b

/-- The first bit of an octet is nought or one. -/
theorem first_bit (b : UInt8) : b >>> 7 = 0 ∨ b >>> 7 = 1 := by
  exact octet_all (P := fun b => b >>> 7 = 0 ∨ b >>> 7 = 1) (by decide +kernel) b

/-- Doubling is additive. -/
theorem double_xor (a b : UInt8) : double (a ^^^ b) = double a ^^^ double b := by
  have hshift : (a ^^^ b) <<< 1 = (a <<< 1) ^^^ (b <<< 1) := UInt8.shiftLeft_xor
  have hbit : (a ^^^ b) >>> 7 = (a >>> 7) ^^^ (b >>> 7) := UInt8.shiftRight_xor
  have hcarry : carry ((a >>> 7) ^^^ (b >>> 7)) = carry (a >>> 7) ^^^ carry (b >>> 7) := by
    rcases first_bit a with ha | ha <;> rcases first_bit b with hb | hb <;> rw [ha, hb] <;> decide
  rw [double_eq, double_eq a, double_eq b, hshift, hbit, hcarry]
  ac_rfl

theorem xor_left_comm (a b c : UInt8) : a ^^^ (b ^^^ c) = b ^^^ (a ^^^ c) := by
  rw [← UInt8.xor_assoc, UInt8.xor_comm a b, UInt8.xor_assoc]

/-- A term that is added twice is gone. -/
theorem xor_cancel (a b : UInt8) : a ^^^ (a ^^^ b) = b := by
  rw [← UInt8.xor_assoc, UInt8.xor_self, UInt8.zero_xor]

/-- Of the octets of a mixed column the first one is won back. -/
theorem unmixRow_mix (s : Column) : unmixRow (mix s).a (mix s).b (mix s).c (mix s).d = s.a := by
  obtain ⟨a, b, c, d⟩ := s
  -- sums of mixed octets: all four, the first and third, the first two, the last three
  have hall : (mix ⟨a, b, c, d⟩).a ^^^ (mix ⟨a, b, c, d⟩).b ^^^ (mix ⟨a, b, c, d⟩).c ^^^ (mix ⟨a, b, c, d⟩).d =
      a ^^^ b ^^^ c ^^^ d := by
    simp only [mix, UInt8.xor_assoc, UInt8.xor_comm, xor_left_comm, xor_cancel, UInt8.xor_self, UInt8.xor_zero]
  have hodd : double (a ^^^ b ^^^ c ^^^ d) ^^^ (mix ⟨a, b, c, d⟩).a ^^^ (mix ⟨a, b, c, d⟩).c = a ^^^ c := by
    simp only [mix, double_xor, UInt8.xor_assoc, UInt8.xor_comm, xor_left_comm, xor_cancel, UInt8.xor_self,
      UInt8.xor_zero]
  have htwo : double (a ^^^ c) ^^^ (mix ⟨a, b, c, d⟩).a ^^^ (mix ⟨a, b, c, d⟩).b = a ^^^ b := by
    simp only [mix, double_xor, UInt8.xor_assoc, UInt8.xor_comm, xor_left_comm, xor_cancel, UInt8.xor_self,
      UInt8.xor_zero]
  have hlast : double (a ^^^ b) ^^^ (mix ⟨a, b, c, d⟩).b ^^^ (mix ⟨a, b, c, d⟩).c ^^^ (mix ⟨a, b, c, d⟩).d = a := by
    simp only [mix, double_xor, UInt8.xor_assoc, UInt8.xor_comm, xor_left_comm, xor_cancel, UInt8.xor_self,
      UInt8.xor_zero]
  unfold unmixRow
  rw [hall, hodd, htwo, hlast]

/-- Mixing turns with the column. -/
theorem mix_turn (s : Column) : mix s.turn = (mix s).turn := by
  simp only [mix, Column.turn, UInt8.xor_assoc, UInt8.xor_comm, xor_left_comm]

theorem unmix_mix (s : Column) : unmix (mix s) = s := by
  have hfirst := unmixRow_mix s
  have hsecond := unmixRow_mix s.turn
  have hthird := unmixRow_mix s.turn.turn
  have hfourth := unmixRow_mix s.turn.turn.turn
  rw [mix_turn] at hsecond
  rw [mix_turn, mix_turn] at hthird
  rw [mix_turn, mix_turn, mix_turn] at hfourth
  simp only [Column.turn] at hsecond hthird hfourth
  unfold unmix
  rw [hfirst, hsecond, hthird, hfourth]

theorem Column.xor_cancel (s t : Column) : (s.xor t).xor t = s := by
  simp only [Column.xor, UInt8.xor_assoc, UInt8.xor_self, UInt8.xor_zero]

theorem Block.xor_cancel (s t : Block) : (s.xor t).xor t = s := by
  simp [Block.xor, Column.xor_cancel]

theorem Block.unmix_mix (s : Block) : (s.mapColumns mix).mapColumns unmix = s := by
  simp [Block.mapColumns, Aes.unmix_mix]

/-- The last round. -/
theorem unrounds_singleton (key : Block) (s : Block) :
    unrounds [key] ((turnRows (substituteAll s)).xor key) = s := by
  have hlast : unrounds [key] ((turnRows (substituteAll s)).xor key) =
      unsubstituteAll (turnRowsBack (((turnRows (substituteAll s)).xor key).xor key)) := rfl
  rw [hlast, Block.xor_cancel, turnRowsBack_turnRows, unsubstituteAll_substituteAll]

/-- The rounds are undone one by one, the last one first. -/
theorem unrounds_rounds (keys : List Block) (s : Block) : unrounds keys (rounds keys s) = s := by
  induction keys generalizing s with
  | nil => rfl
  | cons key keys ih =>
    cases keys with
    | nil => exact unrounds_singleton key s
    | cons next keys =>
      have hstep : unrounds (key :: next :: keys) (rounds (key :: next :: keys) s) =
          unsubstituteAll (turnRowsBack (((unrounds (next :: keys) (rounds (next :: keys)
            (((turnRows (substituteAll s)).mapColumns mix).xor key))).xor key).mapColumns unmix)) := rfl
      rw [hstep, ih, Block.xor_cancel, Block.unmix_mix, turnRowsBack_turnRows, unsubstituteAll_substituteAll]

/-- Decrypting undoes encrypting. -/
theorem decrypt_encrypt (k : Schedule) (s : Block) : decrypt k (encrypt k s) = s := by
  rw [decrypt, encrypt, unrounds_rounds, Block.xor_cancel]

/-- A block has sixteen octets. -/
theorem Block.length_octets (s : Block) : s.octets.length = blockSize := rfl

/-- A block of the octets of a block is that block. -/
theorem Block.ofOctets_octets (s : Block) : Block.ofOctets s.octets = s := rfl

/-- Sixteen octets are those of their block. -/
theorem Block.octets_ofOctets {bs : Bytes} (h : bs.length = blockSize) : (Block.ofOctets bs).octets = bs := by
  match bs, h with
  | [_, _, _, _, _, _, _, _, _, _, _, _, _, _, _, _], _ => rfl

namespace Gcm

/-- The tag has sixteen octets. -/
theorem length_tag (k : Schedule) (nonce encrypted : Bytes) : (tag k nonce encrypted).length = tagSize := by
  simp [tag, xorBytes, octetsOf, streamBlock, Block.length_octets, tagSize, blockSize]

/-- The blocks of a stream are whole. -/
theorem length_blocks (k : Schedule) (nonce : Bytes) (n : Nat) :
    ((List.range n).flatMap fun i => streamBlock k nonce (i + 2)).length = 16 * n := by
  induction n with
  | zero => rfl
  | succ n ih =>
    rw [List.range_succ, List.flatMap_append, List.length_append, ih]
    simp [streamBlock, Block.length_octets, blockSize]
    omega

/-- A stream is as long as it is asked to be. -/
theorem length_stream (k : Schedule) (nonce : Bytes) (length : Nat) : (stream k nonce length).length = length := by
  rw [stream, List.length_take, length_blocks]
  omega

theorem length_add (k : Schedule) (nonce message : Bytes) : (add k nonce message).length = message.length := by
  rw [add, xorBytes, List.length_zipWith, length_stream, Nat.min_self]

/-- What is added twice is gone. -/
theorem xorBytes_cancel {a b : Bytes} (h : a.length ≤ b.length) : xorBytes (xorBytes a b) b = a := by
  induction a generalizing b with
  | nil => rfl
  | cons x a ih =>
    cases b with
    | nil => simp at h
    | cons y b =>
      have hrest := ih (b := b) (by simpa using h)
      unfold xorBytes at hrest ⊢
      rw [List.zipWith_cons_cons, List.zipWith_cons_cons, hrest, UInt8.xor_assoc, UInt8.xor_self, UInt8.xor_zero]

/-- Adding the stream twice gives the message back. -/
theorem add_add (k : Schedule) (nonce message : Bytes) : add k nonce (add k nonce message) = message := by
  have hlength := length_add k nonce message
  rw [add, hlength]
  exact xorBytes_cancel (Nat.le_of_eq (length_stream k nonce message.length).symm)

/-- What was protected is revealed under the same nonce. -/
theorem reveal?_protect (k : Schedule) (nonce message : Bytes) :
    reveal? k nonce (protect k nonce message) = some message := by
  have htag := length_tag k nonce (add k nonce message)
  have hlength : (protect k nonce message).length - tagSize = (add k nonce message).length := by
    rw [protect, List.length_append, htag, Nat.add_sub_cancel]
  have hlong : ¬(protect k nonce message).length < tagSize := by
    rw [protect, List.length_append, htag]
    omega
  unfold reveal?
  rw [if_neg hlong, hlength, protect, List.take_left, List.drop_left, if_pos rfl, add_add]

end Gcm

end ClientAuth.Aes
