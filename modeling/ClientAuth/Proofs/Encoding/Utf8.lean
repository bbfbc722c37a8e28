import ClientAuth.Text.Utf8

/-!
# Text survives its octets

Octets that write a text are cut into exactly its characters, whatever stands behind them (`segments_encodeChar`), so
that reading them gives the text back (`decode_encode`). A character is written by octets from 128 on unless it is one
octet itself (`encodeChar_octets`).
-/

namespace ClientAuth

/-- What holds of every number below 256 holds of every octet. -/
theorem octet_all {P : UInt8 → Prop} (h : ∀ n < 256, P (UInt8.ofNat n)) (b : UInt8) : P b := by
  have hb := h b.toNat b.toNat_lt
  rwa [UInt8.ofNat_toNat] at hb

namespace Utf8

theorem toNat_ofNat {n : Nat} (h : n < 256) : (UInt8.ofNat n).toNat = n := by
  rw [UInt8.toNat_ofNat']
  omega

/-- No character is a surrogate, and none is too large. -/
theorem scalar_range (c : Char) : c.toNat < 0xD800 ∨ 0xE000 ≤ c.toNat ∧ c.toNat < 0x110000 := by
  have h := c.valid
  rcases h with h | ⟨h₁, h₂⟩
  · exact Or.inl h
  · exact Or.inr ⟨Nat.succ_le_of_lt h₁, h₂⟩

/-- The last six bits under the mark of a continuing octet. -/
theorem isTail_ofNat {n : Nat} (h : n < 64) :
    isTail (UInt8.ofNat (0x80 + n)) = true ∧ tailBits (UInt8.ofNat (0x80 + n)) = n := by
  have hall : ∀ n < 64, isTail (UInt8.ofNat (0x80 + n)) = true ∧ tailBits (UInt8.ofNat (0x80 + n)) = n := by decide
  exact hall n h

theorem lead_single {n : Nat} (h : n < 0x80) : lead (UInt8.ofNat n) = .single := by
  have hall : ∀ n < 0x80, lead (UInt8.ofNat n) = .single := by decide
  exact hall n h

theorem lead_two {k : Nat} (h₁ : 2 ≤ k) (h₂ : k < 32) : lead (UInt8.ofNat (0xC0 + k)) = .two := by
  have hall : ∀ k < 32, 2 ≤ k → lead (UInt8.ofNat (0xC0 + k)) = .two := by decide
  exact hall k h₂ h₁

/-- The second of three octets is within the bounds that the first one sets. -/
theorem lead_three {k m : Nat} (hk : k < 16) (hm : m < 64) (hlong : k = 0 → 32 ≤ m) (hsurrogate : k = 13 → m < 32) :
    ∃ low high, lead (UInt8.ofNat (0xE0 + k)) = .three low high ∧
      (low ≤ UInt8.ofNat (0x80 + m) && UInt8.ofNat (0x80 + m) ≤ high) = true := by
  have hlead : ∀ k < 16, lead (UInt8.ofNat (0xE0 + k)) =
      if k = 0 then .three 0xA0 0xBF else if k = 13 then .three 0x80 0x9F else .three 0x80 0xBF := by decide
  have hlow : ∀ m < 64, 32 ≤ m → (0xA0 ≤ UInt8.ofNat (0x80 + m) && UInt8.ofNat (0x80 + m) ≤ 0xBF) = true := by decide
  have hhigh : ∀ m < 64, m < 32 → (0x80 ≤ UInt8.ofNat (0x80 + m) && UInt8.ofNat (0x80 + m) ≤ 0x9F) = true := by decide
  rw [hlead k hk]
  by_cases h0 : k = 0
  · exact ⟨_, _, if_pos h0, hlow m hm (hlong h0)⟩
  · by_cases h13 : k = 13
    · exact ⟨_, _, by rw [if_neg h0, if_pos h13], hhigh m hm (hsurrogate h13)⟩
    · exact ⟨_, _, by rw [if_neg h0, if_neg h13], (isTail_ofNat hm).1⟩

/-- The second of four octets is within the bounds that the first one sets. -/
theorem lead_four {k m : Nat} (hk : k < 5) (hm : m < 64) (hlong : k = 0 → 16 ≤ m) (hlarge : k = 4 → m < 16) :
    ∃ low high, lead (UInt8.ofNat (0xF0 + k)) = .four low high ∧
      (low ≤ UInt8.ofNat (0x80 + m) && UInt8.ofNat (0x80 + m) ≤ high) = true := by
  have hlead : ∀ k < 5, lead (UInt8.ofNat (0xF0 + k)) =
      if k = 0 then .four 0x90 0xBF else if k = 4 then .four 0x80 0x8F else .four 0x80 0xBF := by decide
  have hlow : ∀ m < 64, 16 ≤ m → (0x90 ≤ UInt8.ofNat (0x80 + m) && UInt8.ofNat (0x80 + m) ≤ 0xBF) = true := by decide
  have hhigh : ∀ m < 64, m < 16 → (0x80 ≤ UInt8.ofNat (0x80 + m) && UInt8.ofNat (0x80 + m) ≤ 0x8F) = true := by decide
  rw [hlead k hk]
  by_cases h0 : k = 0
  · exact ⟨_, _, if_pos h0, hlow m hm (hlong h0)⟩
  · by_cases h4 : k = 4
    · exact ⟨_, _, by rw [if_neg h0, if_pos h4], hhigh m hm (hlarge h4)⟩
    · exact ⟨_, _, by rw [if_neg h0, if_neg h4], (isTail_ofNat hm).1⟩

/-- The octets of a character are cut off as that character. -/
theorem segments_encodeChar (c : Char) (rest : Bytes) :
    segments (encodeChar c ++ rest) = .char c :: segments rest := by
  have hrange := scalar_range c
  have hback : ∀ n, n = c.toNat → Char.ofNat n = c := fun n hn => by rw [hn, Char.ofNat_toNat]
  unfold encodeChar
  generalize c.toNat = n at hrange hback
  by_cases h1 : n < 0x80
  · simp only [if_pos h1, List.cons_append, List.nil_append]
    rw [segments.eq_def]
    simp only [lead_single h1, toNat_ofNat (show n < 256 by omega), hback n rfl]
  · by_cases h2 : n < 0x800
    · have htail := isTail_ofNat (show n % 64 < 64 by omega)
      simp only [if_neg h1, if_pos h2, List.cons_append, List.nil_append]
      rw [segments.eq_def]
      simp only [lead_two (show 2 ≤ n / 64 by omega) (by omega), htail, if_true,
        toNat_ofNat (show 0xC0 + n / 64 < 256 by omega)]
      rw [hback _ (by omega)]
    · by_cases h3 : n < 0x10000
      · obtain ⟨low, high, hlead, hbounds⟩ := lead_three (k := n / 4096) (m := n / 64 % 64) (by omega) (by omega)
          (by omega) (by omega)
        have hsecond := isTail_ofNat (show n / 64 % 64 < 64 by omega)
        have hthird := isTail_ofNat (show n % 64 < 64 by omega)
        simp only [if_neg h1, if_neg h2, if_pos h3, List.cons_append, List.nil_append]
        rw [segments.eq_def]
        simp only [hlead, hbounds, hsecond, hthird, if_true, toNat_ofNat (show 0xE0 + n / 4096 < 256 by omega)]
        rw [hback _ (by omega)]
      · obtain ⟨low, high, hlead, hbounds⟩ := lead_four (k := n / 262144) (m := n / 4096 % 64) (by omega) (by omega)
          (by omega) (by omega)
        have hsecond := isTail_ofNat (show n / 4096 % 64 < 64 by omega)
        have hthird := isTail_ofNat (show n / 64 % 64 < 64 by omega)
        have hfourth := isTail_ofNat (show n % 64 < 64 by omega)
        simp only [if_neg h1, if_neg h2, if_neg h3, List.cons_append, List.nil_append]
        rw [segments.eq_def]
        simp only [hlead, hbounds, hsecond, hthird, hfourth, if_true,
          toNat_ofNat (show 0xF0 + n / 262144 < 256 by omega)]
        rw [hback _ (by omega)]

/-- The octets of characters are cut into exactly these. -/
theorem segments_encodeChars (s : List Char) : segments (encodeChars s) = s.map .char := by
  induction s with
  | nil => rfl
  | cons c s ih =>
    have hsplit : encodeChars (c :: s) = encodeChar c ++ encodeChars s := List.flatMap_cons
    rw [hsplit, segments_encodeChar, ih, List.map_cons]

/-- Segments that are all characters are read whole. -/
theorem charsOf_map_char (s : List Char) (index : Nat) : charsOf index (s.map .char) = .ok s := by
  induction s generalizing index with
  | nil => rfl
  | cons c s ih =>
    rw [List.map_cons, charsOf, ih]
    rfl

theorem decodeChars_encodeChars (s : List Char) : decodeChars (encodeChars s) = .ok s := by
  rw [decodeChars, segments_encodeChars, charsOf_map_char]

/-- Reading the octets of a text gives the text back. -/
theorem decode_encode (s : String) : decode (encode s) = .ok s := by
  rw [decode, encode, decodeChars_encodeChars]
  exact congrArg Except.ok String.ofList_toList

theorem encodeChars_append (s t : List Char) : encodeChars (s ++ t) = encodeChars s ++ encodeChars t :=
  List.flatMap_append

/-- A character below 128 is one octet. -/
theorem encodeChar_of_lt {c : Char} (h : c.toNat < 0x80) : encodeChar c = [UInt8.ofNat c.toNat] := by
  simp only [encodeChar, if_pos h]

/-- A character from 128 on has octets from 128 on only. -/
theorem encodeChar_octets {c : Char} (h : 0x80 ≤ c.toNat) : ∀ b ∈ encodeChar c, 0x80 ≤ b := by
  have hrange := scalar_range c
  have hmark : ∀ n, 0x80 ≤ n → n < 256 → (0x80 : UInt8) ≤ UInt8.ofNat n := by
    intro n hlow hhigh
    rw [UInt8.le_iff_toNat_le, toNat_ofNat hhigh]
    exact hlow
  intro b hb
  unfold encodeChar at hb
  generalize c.toNat = n at h hrange hb
  simp only [if_neg (show ¬n < 0x80 by omega)] at hb
  by_cases h2 : n < 0x800
  · simp only [if_pos h2, List.mem_cons, List.not_mem_nil, or_false] at hb
    rcases hb with rfl | rfl <;> exact hmark _ (by omega) (by omega)
  · by_cases h3 : n < 0x10000
    · simp only [if_neg h2, if_pos h3, List.mem_cons, List.not_mem_nil, or_false] at hb
      rcases hb with rfl | rfl | rfl <;> exact hmark _ (by omega) (by omega)
    · simp only [if_neg h2, if_neg h3, List.mem_cons, List.not_mem_nil, or_false] at hb
      rcases hb with rfl | rfl | rfl | rfl <;> exact hmark _ (by omega) (by omega)

/-- Octets below 128 are the octets of the characters of the same numbers. -/
theorem encodeChars_map_ofNat {bs : Bytes} (h : ∀ b ∈ bs, b < 0x80) :
    encodeChars (bs.map fun b => Char.ofNat b.toNat) = bs := by
  induction bs with
  | nil => rfl
  | cons b bs ih =>
    have hb : b.toNat < 0x80 := UInt8.lt_iff_toNat_lt.1 (h b List.mem_cons_self)
    have hnat : (Char.ofNat b.toNat).toNat = b.toNat := by
      have hall : ∀ n < 0x80, (Char.ofNat n).toNat = n := by decide
      exact hall _ hb
    have hchar : encodeChar (Char.ofNat b.toNat) = [b] := by
      rw [encodeChar_of_lt (by omega), hnat, UInt8.ofNat_toNat]
    have hrest := ih fun x hx => h x (List.mem_cons_of_mem _ hx)
    unfold encodeChars at hrest ⊢
    rw [List.map_cons, List.flatMap_cons, hchar, hrest]
    rfl

end Utf8

end ClientAuth
