import ClientAuth.Proofs.Encoding.Utf8
import ClientAuth.Text.Base64
import ClientAuth.Text.Blank

/-!
# Base64 text is read as the octets that it writes

A form in which every number has a symbol of its own, other than the padding, reads what it writes
(`Form.decodeBytes_encodeBytes`). The standard form is one, and its text has no blanks, so that nothing is trimmed off it
(`decode_trim_encode`).
-/

namespace ClientAuth

namespace Utf8

theorem encode_ofList (s : List Char) : encode (String.ofList s) = encodeChars s := by
  rw [encode, String.toList_ofList]

end Utf8

namespace Text

/-- Nothing is trimmed off a text without blanks. -/
theorem trimChars_eq_self {s : List Char} (h : ∀ c ∈ s, isBlank c = false) : trimChars s = s := by
  have hkeep : ∀ t : List Char, (∀ c ∈ t, isBlank c = false) → t.dropWhile isBlank = t := by
    intro t ht
    cases t with
    | nil => rfl
    | cons c rest => exact List.dropWhile_cons_of_neg (by simp [ht c List.mem_cons_self])
  unfold trimChars trimEnd
  rw [hkeep s h, hkeep s.reverse fun c hc => h c (List.mem_reverse.1 hc), List.reverse_reverse]

end Text

namespace Base64

/-- A form in which the symbol of each number stands for that number and is not the padding. -/
structure Form.Lawful (f : Form) : Prop where
  value : ∀ v < 64, f.value? (f.symbol v) = some v
  symbol : ∀ v < 64, f.symbol v ≠ pad

theorem Form.lawful_standard : standard.Lawful := ⟨by decide, by decide⟩

theorem Form.lawful_urlSafe : urlSafe.Lawful := ⟨by decide, by decide⟩

variable {f : Form}

/-- The symbol of a number is read as that number. -/
theorem Form.Lawful.read (hf : f.Lawful) {v : Nat} (hv : v < 64) (offset : Nat) :
    f.read offset (f.symbol v) = .ok v := by
  rw [Form.read, hf.value v hv]

/-- Symbols of numbers are read as these numbers. -/
theorem Form.Lawful.readAll (hf : f.Lawful) {vs : List Nat} (hvs : ∀ v ∈ vs, v < 64) (offset : Nat) :
    f.readAll offset (vs.map f.symbol) = .ok vs := by
  induction vs generalizing offset with
  | nil => rfl
  | cons v vs ih =>
    have hv := hf.read (hvs v List.mem_cons_self) offset
    have hrest := ih (fun w hw => hvs w (List.mem_cons_of_mem _ hw)) (offset + 1)
    rw [List.map_cons, Form.readAll, hv]
    simp only [bind, Except.bind, hrest, pure, Except.pure]

/-- The symbols of a group and the padding behind them are told apart. -/
theorem Form.Lawful.split (hf : f.Lawful) {vs : List Nat} (hvs : ∀ v ∈ vs, v < 64) (n : Nat) :
    (vs.map f.symbol ++ f.padding n).takeWhile (· != pad) = vs.map f.symbol ∧
    (vs.map f.symbol ++ f.padding n).dropWhile (· != pad) = f.padding n := by
  have hsymbols : ∀ b ∈ vs.map f.symbol, (b != pad) = true := by
    intro b hb
    obtain ⟨v, hv, rfl⟩ := List.mem_map.1 hb
    exact bne_iff_ne.2 (hf.symbol v (hvs v hv))
  have hpadding : ∀ n, (f.padding n).takeWhile (· != pad) = [] ∧ (f.padding n).dropWhile (· != pad) = f.padding n := by
    intro n
    unfold Form.padding
    cases f.padded <;> cases n <;> simp [List.replicate_succ]
  rw [List.takeWhile_append_of_pos hsymbols, List.dropWhile_append_of_pos hsymbols, (hpadding n).1, (hpadding n).2,
    List.append_nil]
  exact ⟨rfl, rfl⟩

/-- A group is padded well by the padding for what it lacks. -/
theorem Form.padsWell_padding (f : Form) (n : Nat) : f.padsWell (f.padding n).length n = true := by
  unfold Form.padsWell Form.padding
  cases f.padded <;> simp

theorem Form.any_padding (f : Form) (n : Nat) : (f.padding n).any (· != pad) = false := by
  unfold Form.padding
  cases f.padded <;> simp

theorem Form.length_padding_le (f : Form) (n : Nat) : (f.padding n).length ≤ n := by
  unfold Form.padding
  cases f.padded <;> simp

/-- The last group when it writes one octet. -/
theorem decodeLast_one (hf : f.Lawful) {v w : Nat} (hv : v < 64) (hw : w < 64) (hlow : w % 16 = 0) (offset : Nat) :
    decodeLast f offset ([f.symbol v, f.symbol w] ++ f.padding 2) = .ok [UInt8.ofNat (v * 4 + w / 16)] := by
  have hvs : ∀ x ∈ [v, w], x < 64 := by simp [hv, hw]
  obtain ⟨hsymbols, hpads⟩ := hf.split hvs 2
  have hread := hf.readAll hvs offset
  simp only [List.map_cons, List.map_nil] at hsymbols hpads hread
  simp only [decodeLast, hsymbols, hpads, hread]
  simp [f.any_padding, f.padsWell_padding, hlow, bind, Except.bind, pure, Except.pure]

/-- The last group when it writes two octets. -/
theorem decodeLast_two (hf : f.Lawful) {v w x : Nat} (hv : v < 64) (hw : w < 64) (hx : x < 64) (hlow : x % 4 = 0)
    (offset : Nat) : decodeLast f offset ([f.symbol v, f.symbol w, f.symbol x] ++ f.padding 1) =
      .ok [UInt8.ofNat (v * 4 + w / 16), UInt8.ofNat (w % 16 * 16 + x / 4)] := by
  have hvs : ∀ y ∈ [v, w, x], y < 64 := by simp [hv, hw, hx]
  obtain ⟨hsymbols, hpads⟩ := hf.split hvs 1
  have hread := hf.readAll hvs offset
  simp only [List.map_cons, List.map_nil] at hsymbols hpads hread
  simp only [decodeLast, hsymbols, hpads, hread]
  simp [f.any_padding, f.padsWell_padding, hlow, bind, Except.bind, pure, Except.pure]

/-- The last group when it writes three octets. -/
theorem decodeLast_three (hf : f.Lawful) {v w x y : Nat} (hv : v < 64) (hw : w < 64) (hx : x < 64) (hy : y < 64)
    (offset : Nat) : decodeLast f offset [f.symbol v, f.symbol w, f.symbol x, f.symbol y] =
      .ok [UInt8.ofNat (v * 4 + w / 16), UInt8.ofNat (w % 16 * 16 + x / 4), UInt8.ofNat (x % 4 * 64 + y)] := by
  have hvs : ∀ z ∈ [v, w, x, y], z < 64 := by simp [hv, hw, hx, hy]
  have hnone : f.padding 0 = [] := by simp [Form.padding]
  obtain ⟨hsymbols, hpads⟩ := hf.split hvs 0
  have hread := hf.readAll hvs offset
  simp only [List.map_cons, List.map_nil, hnone, List.append_nil] at hsymbols hpads hread
  simp only [decodeLast, hsymbols, hpads, hread]
  simp [bind, Except.bind, pure, Except.pure]

/-- Four symbols with more behind them write three octets. -/
theorem decodeGroups_step (hf : f.Lawful) {v w x y : Nat} (hv : v < 64) (hw : w < 64) (hx : x < 64) (hy : y < 64)
    (offset : Nat) {rest : Bytes} (hrest : rest ≠ []) {bs : Bytes} (hbs : decodeGroups f (offset + 4) rest = .ok bs) :
    decodeGroups f offset (f.symbol v :: f.symbol w :: f.symbol x :: f.symbol y :: rest) =
      .ok (UInt8.ofNat (v * 4 + w / 16) :: UInt8.ofNat (w % 16 * 16 + x / 4) :: UInt8.ofNat (x % 4 * 64 + y) :: bs) := by
  cases rest with
  | nil => exact absurd rfl hrest
  | cons b rest =>
    rw [decodeGroups, hf.read hv, hf.read hw, hf.read hx, hf.read hy]
    simp only [bind, Except.bind, hbs, pure, Except.pure]

/-- At most four bytes are the last group. -/
theorem decodeGroups_of_length_le {group : Bytes} (hne : group ≠ []) (hle : group.length ≤ 4) (offset : Nat) :
    decodeGroups f offset group = decodeLast f offset group := by
  match group with
  | [a] | [a, b] | [a, b, c] | [a, b, c, d] => rfl

/-- An octet is made of its high bits and its low bits. -/
theorem ofNat_of_eq {b : UInt8} {n : Nat} (h : n = b.toNat) : UInt8.ofNat n = b := by
  rw [h, UInt8.ofNat_toNat]

theorem encodeBytes_ne_nil {bs : Bytes} (h : bs ≠ []) : encodeBytes f bs ≠ [] := by
  fun_cases encodeBytes f bs <;> simp_all

/-- Groups are read as the octets that they write. -/
theorem decodeGroups_encodeBytes (hf : f.Lawful) (bs : Bytes) (offset : Nat) :
    decodeGroups f offset (encodeBytes f bs) = .ok bs := by
  fun_induction encodeBytes f bs generalizing offset with
  | case1 => rfl
  | case2 a =>
    have ha := a.toNat_lt
    have hlast := decodeLast_one hf (v := a.toNat / 4) (w := a.toNat % 4 * 16) (by omega) (by omega) (by omega) offset
    rw [ofNat_of_eq (b := a) (by omega)] at hlast
    have hlength : ([f.symbol (a.toNat / 4), f.symbol (a.toNat % 4 * 16)] ++ f.padding 2).length ≤ 4 := by
      rw [List.length_append]
      exact Nat.add_le_add_left (f.length_padding_le 2) 2
    rw [decodeGroups_of_length_le (by simp) hlength, hlast]
  | case3 a b =>
    have ha := a.toNat_lt
    have hb := b.toNat_lt
    have hlast := decodeLast_two hf (v := a.toNat / 4) (w := a.toNat % 4 * 16 + b.toNat / 16) (x := b.toNat % 16 * 4)
      (by omega) (by omega) (by omega) (by omega) offset
    rw [ofNat_of_eq (b := a) (by omega), ofNat_of_eq (b := b) (by omega)] at hlast
    have hlength : ([f.symbol (a.toNat / 4), f.symbol (a.toNat % 4 * 16 + b.toNat / 16), f.symbol (b.toNat % 16 * 4)] ++
        f.padding 1).length ≤ 4 := by
      rw [List.length_append]
      exact Nat.add_le_add_left (f.length_padding_le 1) 3
    rw [decodeGroups_of_length_le (by simp) hlength, hlast]
  | case4 a b c rest ih =>
    have ha := a.toNat_lt
    have hb := b.toNat_lt
    have hc := c.toNat_lt
    have hv : a.toNat / 4 < 64 := by omega
    have hw : a.toNat % 4 * 16 + b.toNat / 16 < 64 := by omega
    have hx : b.toNat % 16 * 4 + c.toNat / 64 < 64 := by omega
    have hy : c.toNat % 64 < 64 := by omega
    have hback₁ := ofNat_of_eq (b := a) (n := a.toNat / 4 * 4 + (a.toNat % 4 * 16 + b.toNat / 16) / 16) (by omega)
    have hback₂ := ofNat_of_eq (b := b)
      (n := (a.toNat % 4 * 16 + b.toNat / 16) % 16 * 16 + (b.toNat % 16 * 4 + c.toNat / 64) / 4) (by omega)
    have hback₃ := ofNat_of_eq (b := c)
      (n := (b.toNat % 16 * 4 + c.toNat / 64) % 4 * 64 + c.toNat % 64) (by omega)
    by_cases hrest : rest = []
    · have hlast := decodeLast_three hf hv hw hx hy offset
      rw [hback₁, hback₂, hback₃] at hlast
      rw [hrest, encodeBytes, decodeGroups_of_length_le (by simp) (by simp), hlast]
    · rw [decodeGroups_step hf hv hw hx hy offset (encodeBytes_ne_nil hrest) (ih _), hback₁, hback₂, hback₃]

/-- No text ends in a group of a single byte. -/
theorem length_encodeBytes_mod (bs : Bytes) : (encodeBytes f bs).length % 4 ≠ 1 := by
  fun_induction encodeBytes f bs with
  | case1 => simp
  | case2 a => cases hp : f.padded <;> simp [Form.padding, hp]
  | case3 a b => cases hp : f.padded <;> simp [Form.padding, hp]
  | case4 a b c rest ih =>
    simp only [List.length_cons]
    omega

/-- Symbols are read as the octets that they write. -/
theorem decodeBytes_encodeBytes (hf : f.Lawful) (bs : Bytes) : decodeBytes f (encodeBytes f bs) = .ok bs := by
  have hstray := length_encodeBytes_mod (f := f) bs
  simp only [decodeBytes, hstray, false_and, if_false]
  exact decodeGroups_encodeBytes hf bs 0

/-- Every byte that is written is the symbol of a number or the padding. -/
theorem mem_encodeBytes {bs : Bytes} {b : UInt8} (hb : b ∈ encodeBytes f bs) :
    b = pad ∨ ∃ v < 64, b = f.symbol v := by
  have hpadding : ∀ n, b ∈ f.padding n → b = pad := by
    intro n h
    unfold Form.padding at h
    cases hp : f.padded with
    | false => simp [hp] at h
    | true => exact List.eq_of_mem_replicate (by simpa [hp] using h)
  fun_induction encodeBytes f bs with
  | case1 => cases hb
  | case2 a =>
    have ha := a.toNat_lt
    simp only [List.mem_append, List.mem_cons, List.not_mem_nil, or_false] at hb
    rcases hb with (rfl | rfl) | hpad
    · exact Or.inr ⟨_, by omega, rfl⟩
    · exact Or.inr ⟨_, by omega, rfl⟩
    · exact Or.inl (hpadding 2 hpad)
  | case3 a b =>
    have ha := a.toNat_lt
    have hb' := b.toNat_lt
    simp only [List.mem_append, List.mem_cons, List.not_mem_nil, or_false] at hb
    rcases hb with (rfl | rfl | rfl) | hpad
    · exact Or.inr ⟨_, by omega, rfl⟩
    · exact Or.inr ⟨_, by omega, rfl⟩
    · exact Or.inr ⟨_, by omega, rfl⟩
    · exact Or.inl (hpadding 1 hpad)
  | case4 a b c rest ih =>
    have ha := a.toNat_lt
    have hb' := b.toNat_lt
    have hc := c.toNat_lt
    simp only [List.mem_cons] at hb
    rcases hb with rfl | rfl | rfl | rfl | hrest
    · exact Or.inr ⟨_, by omega, rfl⟩
    · exact Or.inr ⟨_, by omega, rfl⟩
    · exact Or.inr ⟨_, by omega, rfl⟩
    · exact Or.inr ⟨_, by omega, rfl⟩
    · exact ih hrest

/-- The octets of a text in a form of ASCII symbols are its symbols. -/
theorem utf8_encode_of_ascii (hascii : ∀ v < 64, f.symbol v < 0x80) (bs : Bytes) :
    Utf8.encode (encode f bs) = encodeBytes f bs := by
  rw [encode, Utf8.encode_ofList]
  refine Utf8.encodeChars_map_ofNat fun b hb => ?_
  rcases mem_encodeBytes hb with rfl | ⟨v, hv, rfl⟩
  · decide
  · exact hascii v hv

/-- A text in such a form is read as the octets that it writes. -/
theorem Form.Lawful.decode_encode (hf : f.Lawful) (hascii : ∀ v < 64, f.symbol v < 0x80) (bs : Bytes) :
    decode f (encode f bs) = .ok bs := by
  rw [decode, utf8_encode_of_ascii hascii]
  exact decodeBytes_encodeBytes hf bs

/-- The octets of a standard text are its symbols. -/
theorem utf8_encode (bs : Bytes) : Utf8.encode (encode standard bs) = encodeBytes standard bs :=
  utf8_encode_of_ascii (by decide) bs

/-- A standard text is read as the octets that it writes. -/
theorem decode_encode (bs : Bytes) : decode standard (encode standard bs) = .ok bs :=
  Form.lawful_standard.decode_encode (by decide) bs

/-- A standard text has no blanks. -/
theorem not_isBlank_of_mem_encode {bs : Bytes} {c : Char} (hc : c ∈ (encode standard bs).toList) :
    Text.isBlank c = false := by
  rw [encode, String.toList_ofList] at hc
  obtain ⟨b, hb, rfl⟩ := List.mem_map.1 hc
  have hsymbol : ∀ v < 64, Text.isBlank (Char.ofNat (standard.symbol v).toNat) = false := by decide
  rcases mem_encodeBytes hb with rfl | ⟨v, hv, rfl⟩
  · decide
  · exact hsymbol v hv

/-- Nothing is trimmed off a standard text. -/
theorem trim_encode (bs : Bytes) : Text.trim (encode standard bs) = encode standard bs := by
  rw [Text.trim, Text.trimChars_eq_self fun _ => not_isBlank_of_mem_encode]
  exact String.ofList_toList

end Base64

end ClientAuth
