import ClientAuth.Proofs.Encoding.Base64
import Mathlib.Data.List.TakeWhile
import Mathlib.Tactic.ByContra
import Mathlib.Tactic.SplitIfs

/-!
# Each text has one written form

Reading text out of octets, and octets out of base64, undoes writing; here the other way round. Octets that are text are
the octets of that text (`Utf8.decode_eq_ok_iff`), and symbols that are read are the symbols that write what they are read
as, since padding and spare bits are checked (`Base64.decode_eq_ok_iff`). What is trimmed off a text is blank
(`Text.exists_blanks_around`).
-/

namespace ClientAuth

/-- One step after another succeeds where both do. -/
theorem bind_eq_ok_iff {ε α β : Type} {x : Except ε α} {f : α → Except ε β} {b : β} :
    (x >>= f) = .ok b ↔ ∃ a, x = .ok a ∧ f a = .ok b := by
  cases x <;> simp [bind, Except.bind]

/-- Another account of the errors leaves results as they are. -/
theorem mapError_eq_ok_iff {ε ε' α : Type} {x : Except ε α} {f : ε → ε'} {a : α} :
    x.mapError f = .ok a ↔ x = .ok a := by
  cases x <;> simp [Except.mapError]

namespace Utf8

/-- The range of a first octet, by what it says about the rest, and the bounds that it sets for the second octet: they
keep out long forms, surrogates and numbers that are too large. -/
def Lead.Fits (a : UInt8) : Lead → Prop
  | single => a.toNat < 0x80
  | two => 0xC2 ≤ a.toNat ∧ a.toNat < 0xE0
  | three low high => 0xE0 ≤ a.toNat ∧ a.toNat < 0xF0 ∧ 0x80 ≤ low.toNat ∧ high.toNat ≤ 0xBF ∧
      (a.toNat = 0xE0 → 0xA0 ≤ low.toNat) ∧ (a.toNat = 0xED → high.toNat ≤ 0x9F)
  | four low high => 0xF0 ≤ a.toNat ∧ a.toNat < 0xF5 ∧ 0x80 ≤ low.toNat ∧ high.toNat ≤ 0xBF ∧
      (a.toNat = 0xF0 → 0x90 ≤ low.toNat) ∧ (a.toNat = 0xF4 → high.toNat ≤ 0x8F)
  | never => True

instance (a : UInt8) : (l : Lead) → Decidable (l.Fits a)
  | .single => inferInstanceAs (Decidable (_ < _))
  | .two => inferInstanceAs (Decidable (_ ∧ _))
  | .three _ _ => inferInstanceAs (Decidable (_ ∧ _))
  | .four _ _ => inferInstanceAs (Decidable (_ ∧ _))
  | .never => inferInstanceAs (Decidable True)

theorem lead_fits (a : UInt8) : (lead a).Fits a := by
  have hall : ∀ n < 256, (lead (UInt8.ofNat n)).Fits (UInt8.ofNat n) := by decide +kernel
  exact octet_all (P := fun a => (lead a).Fits a) hall a

/-- A number that no surrogate has is the number of its character. -/
theorem toNat_char {n : Nat} (h : n < 0xD800 ∨ 0xE000 ≤ n ∧ n < 0x110000) : (Char.ofNat n).toNat = n := by
  have hvalid : n.isValidChar := by
    rcases h with h | ⟨h₁, h₂⟩
    · exact Or.inl h
    · exact Or.inr ⟨h₁, h₂⟩
  rw [Char.ofNat, dif_pos hvalid]
  rfl

/-- A continuing octet is between 128 and 191. -/
theorem isTail_spec {b : UInt8} (h : isTail b = true) : 0x80 ≤ b.toNat ∧ b.toNat < 0xC0 := by
  simp [isTail, UInt8.le_iff_toNat_le] at h
  omega

/-- Of segments that are read whole, the first character is the first one read. -/
theorem eq_cons_of_charsOf {index : Nat} {c : Char} {rest : List Segment} {s : List Char}
    (h : charsOf index (.char c :: rest) = .ok s) :
    ∃ s', s = c :: s' ∧ charsOf (index + (encodeChar c).length) rest = .ok s' := by
  rw [charsOf] at h
  cases hrest : charsOf (index + (encodeChar c).length) rest with
  | error e =>
    rw [hrest] at h
    cases h
  | ok s' =>
    rw [hrest] at h
    exact ⟨s', (Except.ok.inj h).symm, rfl⟩

/-- The octets of the character of a number, by the size of the number. -/
theorem encodeChar_ofNat {n : Nat} (h : n < 0xD800 ∨ 0xE000 ≤ n ∧ n < 0x110000) :
    encodeChar (Char.ofNat n) =
      if n < 0x80 then [UInt8.ofNat n]
      else if n < 0x800 then [UInt8.ofNat (0xC0 + n / 64), UInt8.ofNat (0x80 + n % 64)]
      else if n < 0x10000 then
        [UInt8.ofNat (0xE0 + n / 4096), UInt8.ofNat (0x80 + n / 64 % 64), UInt8.ofNat (0x80 + n % 64)]
      else
        [UInt8.ofNat (0xF0 + n / 262144), UInt8.ofNat (0x80 + n / 4096 % 64), UInt8.ofNat (0x80 + n / 64 % 64),
          UInt8.ofNat (0x80 + n % 64)] := by
  simp only [encodeChar, toNat_char h]

/-- An octet that is a character alone is the one that writes it. -/
theorem encodeChar_single {a : UInt8} (ha : lead a = .single) : encodeChar (Char.ofNat a.toNat) = [a] := by
  have hfits := lead_fits a
  rw [ha] at hfits
  simp only [Lead.Fits] at hfits
  rw [encodeChar_ofNat (by omega), if_pos hfits, Base64.ofNat_of_eq rfl]

/-- Two octets that are cut off as a character are those that write it. -/
theorem encodeChar_two {a b : UInt8} (ha : lead a = .two) (hb : isTail b = true) :
    encodeChar (Char.ofNat (a.toNat % 32 * 64 + tailBits b)) = [a, b] := by
  have hfits := lead_fits a
  rw [ha] at hfits
  simp only [Lead.Fits] at hfits
  have htail := isTail_spec hb
  unfold tailBits
  rw [encodeChar_ofNat (by omega), if_neg (by omega), if_pos (by omega), Base64.ofNat_of_eq (b := a) (by omega),
    Base64.ofNat_of_eq (b := b) (by omega)]

/-- Three octets that are cut off as a character are those that write it. -/
theorem encodeChar_three {a b c low high : UInt8} (ha : lead a = .three low high)
    (hb : (low ≤ b && b ≤ high) = true) (hc : isTail c = true) :
    encodeChar (Char.ofNat ((a.toNat % 16 * 64 + tailBits b) * 64 + tailBits c)) = [a, b, c] := by
  have hfits := lead_fits a
  rw [ha] at hfits
  simp only [Lead.Fits] at hfits
  have htail := isTail_spec hc
  simp only [Bool.and_eq_true, decide_eq_true_eq, UInt8.le_iff_toNat_le] at hb
  unfold tailBits
  rw [encodeChar_ofNat (by omega), if_neg (by omega), if_neg (by omega), if_pos (by omega),
    Base64.ofNat_of_eq (b := a) (by omega), Base64.ofNat_of_eq (b := b) (by omega), Base64.ofNat_of_eq (b := c) (by omega)]

/-- Four octets that are cut off as a character are those that write it. -/
theorem encodeChar_four {a b c d low high : UInt8} (ha : lead a = .four low high)
    (hb : (low ≤ b && b ≤ high) = true) (hc : isTail c = true) (hd : isTail d = true) :
    encodeChar (Char.ofNat (((a.toNat % 8 * 64 + tailBits b) * 64 + tailBits c) * 64 + tailBits d)) = [a, b, c, d] := by
  have hfits := lead_fits a
  rw [ha] at hfits
  simp only [Lead.Fits] at hfits
  have hthird := isTail_spec hc
  have hfourth := isTail_spec hd
  simp only [Bool.and_eq_true, decide_eq_true_eq, UInt8.le_iff_toNat_le] at hb
  unfold tailBits
  rw [encodeChar_ofNat (by omega), if_neg (by omega), if_neg (by omega), if_neg (by omega),
    Base64.ofNat_of_eq (b := a) (by omega), Base64.ofNat_of_eq (b := b) (by omega), Base64.ofNat_of_eq (b := c) (by omega),
    Base64.ofNat_of_eq (b := d) (by omega)]

/-- Octets that are cut into characters only are the octets of these. -/
theorem encodeChars_of_charsOf {bs : Bytes} {index : Nat} {s : List Char}
    (h : charsOf index (segments bs) = .ok s) : encodeChars s = bs := by
  have hcons : ∀ (c : Char) (s : List Char), encodeChars (c :: s) = encodeChar c ++ encodeChars s :=
    fun c s => List.flatMap_cons
  fun_induction segments bs generalizing index s with
  | case1 =>
    obtain rfl := Except.ok.inj h
    rfl
  | case2 a r ha ih =>
    obtain ⟨s', rfl, hs'⟩ := eq_cons_of_charsOf h
    rw [hcons, ih hs', encodeChar_single ha]
    rfl
  | case5 a ha b r hb ih =>
    obtain ⟨s', rfl, hs'⟩ := eq_cons_of_charsOf h
    rw [hcons, ih hs', encodeChar_two ha hb]
    rfl
  | case9 a low high ha b hb c r hc ih =>
    obtain ⟨s', rfl, hs'⟩ := eq_cons_of_charsOf h
    rw [hcons, ih hs', encodeChar_three ha hb hc]
    rfl
  | case15 a low high ha b hb c hc d r hd ih =>
    obtain ⟨s', rfl, hs'⟩ := eq_cons_of_charsOf h
    rw [hcons, ih hs', encodeChar_four ha hb hc hd]
    rfl
  | _ => cases h

/-- Octets are the text that they encode, and of no other text. -/
theorem decode_eq_ok_iff (bs : Bytes) (s : String) : decode bs = .ok s ↔ bs = encode s := by
  constructor
  · intro h
    unfold decode decodeChars at h
    cases hchars : charsOf 0 (segments bs) with
    | error e =>
      rw [hchars] at h
      cases h
    | ok chars =>
      rw [hchars] at h
      obtain rfl := Except.ok.inj h
      rw [encode_ofList, encodeChars_of_charsOf hchars]
  · rintro rfl
    exact decode_encode s

/-- Different texts have different octets. -/
theorem encode_injective : Function.Injective encode := by
  intro s t h
  have hs := decode_encode s
  rw [h, decode_encode t] at hs
  exact (Except.ok.inj hs).symm

end Utf8

namespace Base64

variable {f : Form}

/-- A symbol that is read as a number is the symbol of that number. -/
theorem Form.symbol_of_value? {b : UInt8} {v : Nat} (h : f.value? b = some v) : v < 64 ∧ f.symbol v = b := by
  have hb := b.toNat_lt
  unfold Form.value? at h
  simp only [UInt8.le_iff_toNat_le, UInt8.reduceToNat] at h
  split_ifs at h with hupper hlower hdigit h62 h63
  · obtain rfl := Option.some.inj h
    refine ⟨by omega, ?_⟩
    rw [symbol, if_pos (by omega)]
    exact ofNat_of_eq (by omega)
  · obtain rfl := Option.some.inj h
    refine ⟨by omega, ?_⟩
    rw [symbol, if_neg (by omega), if_pos (by omega)]
    exact ofNat_of_eq (by omega)
  · obtain rfl := Option.some.inj h
    refine ⟨by omega, ?_⟩
    rw [symbol, if_neg (by omega), if_neg (by omega), if_pos (by omega)]
    exact ofNat_of_eq (by omega)
  · obtain rfl := Option.some.inj h
    exact ⟨by omega, h62.symm⟩
  · obtain rfl := Option.some.inj h
    exact ⟨by omega, h63.symm⟩

/-- A byte that is read as a number is the symbol of that number. -/
theorem Form.symbol_of_read {offset : Nat} {b : UInt8} {v : Nat} (h : f.read offset b = .ok v) :
    v < 64 ∧ f.symbol v = b := by
  unfold Form.read at h
  split at h
  · rename_i w hw
    obtain rfl := Except.ok.inj h
    exact symbol_of_value? hw
  · cases h

/-- Bytes that are read as numbers are the symbols of these numbers. -/
theorem Form.symbols_of_readAll {offset : Nat} {bs : Bytes} {vs : List Nat} (h : f.readAll offset bs = .ok vs) :
    (∀ v ∈ vs, v < 64) ∧ bs = vs.map f.symbol := by
  induction bs generalizing offset vs with
  | nil =>
    obtain rfl := Except.ok.inj h
    simp
  | cons b bs ih =>
    obtain ⟨v, hb, h⟩ := bind_eq_ok_iff.1 h
    obtain ⟨ws, hrest, h⟩ := bind_eq_ok_iff.1 h
    obtain rfl := Except.ok.inj h
    obtain ⟨hv, hsymbol⟩ := symbol_of_read hb
    obtain ⟨hws, hbs⟩ := ih hrest
    rw [List.forall_mem_cons, List.map_cons, hsymbol, ← hbs]
    exact ⟨⟨hv, hws⟩, rfl⟩

/-- Padding that completes a group is the padding of the form. -/
theorem Form.eq_padding {pads : Bytes} {n : Nat} (hpads : ∀ b ∈ pads, b = pad)
    (hn : f.padsWell pads.length n = true) : pads = f.padding n := by
  unfold Form.padsWell at hn
  unfold Form.padding
  cases hf : f.padded with
  | false => simpa [hf] using hn
  | true =>
    simp only [hf, if_true, beq_iff_eq] at hn ⊢
    exact List.eq_replicate_iff.2 ⟨hn, hpads⟩

/-- The octet that two numbers make up is written by their symbols, if the second one has no bits too many. -/
theorem encodeBytes_one {v w : Nat} (hv : v < 64) (hw : w < 64) (hlow : w % 16 = 0) :
    encodeBytes f [UInt8.ofNat (v * 4 + w / 16)] = [f.symbol v, f.symbol w] ++ f.padding 2 := by
  have h₁ : (v * 4 + w / 16) / 4 = v := by omega
  have h₂ : (v * 4 + w / 16) % 4 * 16 = w := by omega
  rw [encodeBytes, Utf8.toNat_ofNat (by omega), h₁, h₂]

/-- The two octets that three numbers make up are written by their symbols, if the third one has no bits too many. -/
theorem encodeBytes_two {v w x : Nat} (hv : v < 64) (hw : w < 64) (hx : x < 64) (hlow : x % 4 = 0) :
    encodeBytes f [UInt8.ofNat (v * 4 + w / 16), UInt8.ofNat (w % 16 * 16 + x / 4)] =
      [f.symbol v, f.symbol w, f.symbol x] ++ f.padding 1 := by
  have h₁ : (v * 4 + w / 16) / 4 = v := by omega
  have h₂ : (v * 4 + w / 16) % 4 * 16 + (w % 16 * 16 + x / 4) / 16 = w := by omega
  have h₃ : (w % 16 * 16 + x / 4) % 16 * 4 = x := by omega
  rw [encodeBytes, Utf8.toNat_ofNat (by omega), Utf8.toNat_ofNat (by omega), h₁, h₂, h₃]

/-- The three octets that four numbers make up are written by their symbols, before all others. -/
theorem encodeBytes_three {v w x y : Nat} (hv : v < 64) (hw : w < 64) (hx : x < 64) (hy : y < 64) (rest : Bytes) :
    encodeBytes f
        (UInt8.ofNat (v * 4 + w / 16) :: UInt8.ofNat (w % 16 * 16 + x / 4) :: UInt8.ofNat (x % 4 * 64 + y) :: rest) =
      f.symbol v :: f.symbol w :: f.symbol x :: f.symbol y :: encodeBytes f rest := by
  have h₁ : (v * 4 + w / 16) / 4 = v := by omega
  have h₂ : (v * 4 + w / 16) % 4 * 16 + (w % 16 * 16 + x / 4) / 16 = w := by omega
  have h₃ : (w % 16 * 16 + x / 4) % 16 * 4 + (x % 4 * 64 + y) / 64 = x := by omega
  have h₄ : (x % 4 * 64 + y) % 64 = y := by omega
  rw [encodeBytes, Utf8.toNat_ofNat (by omega), Utf8.toNat_ofNat (by omega), Utf8.toNat_ofNat (by omega), h₁, h₂, h₃, h₄]

/-- Behind the symbols of a last group that is read there is nothing but padding symbols. -/
theorem eq_pad_of_clean {symbols pads : Bytes}
    (h : ¬(!pads.isEmpty && (symbols.length < 2 || pads.any (· != pad))) = true) : ∀ b ∈ pads, b = pad := by
  intro b hb
  by_contra hne
  refine h ?_
  have hany : pads.any (· != pad) = true := List.any_eq_true.2 ⟨b, hb, bne_iff_ne.2 hne⟩
  have hsome : pads.isEmpty = false := by
    cases pads with
    | nil => cases hb
    | cons _ _ => rfl
  rw [hany, hsome, Bool.or_true]
  rfl

/-- The last group writes the octets that it is read as. -/
theorem eq_encodeBytes_of_decodeLast {offset : Nat} {group bs : Bytes} (hlength : group.length ≤ 4)
    (h : decodeLast f offset group = .ok bs) : group = encodeBytes f bs := by
  have hsplit := List.takeWhile_append_dropWhile (p := (· != pad)) (l := group)
  unfold decodeLast at h
  generalize group.takeWhile (· != pad) = symbols at h hsplit
  generalize group.dropWhile (· != pad) = pads at h hsplit
  subst hsplit
  simp only [bind, Except.bind, pure, Except.pure, throw, throwThe, MonadExceptOf.throw] at h
  split at h
  · cases h
  · rename_i vs hread
    obtain ⟨hvs, rfl⟩ := Form.symbols_of_readAll hread
    clear hread
    split at h
    · cases h
    · rename_i hclean
      have hpads := eq_pad_of_clean hclean
      split at h
      · rename_i v w
        split_ifs at h with hwell hlow
        obtain rfl := Except.ok.inj h
        simp only [Bool.not_eq_true', Bool.not_eq_false, ne_eq, Decidable.not_not] at hwell hlow
        rw [encodeBytes_one (hvs v (by simp)) (hvs w (by simp)) hlow, ← Form.eq_padding hpads hwell]
        rfl
      · rename_i v w x
        split_ifs at h with hwell hlow
        obtain rfl := Except.ok.inj h
        simp only [Bool.not_eq_true', Bool.not_eq_false, ne_eq, Decidable.not_not] at hwell hlow
        rw [encodeBytes_two (hvs v (by simp)) (hvs w (by simp)) (hvs x (by simp)) hlow, ← Form.eq_padding hpads hwell]
        rfl
      · rename_i v w x y
        obtain rfl := Except.ok.inj h
        have hnone : pads = [] := by
          rw [List.length_append] at hlength
          exact List.eq_nil_of_length_eq_zero (Nat.le_zero.1 (Nat.le_of_add_le_add_left hlength))
        rw [encodeBytes_three (hvs v (by simp)) (hvs w (by simp)) (hvs x (by simp)) (hvs y (by simp)), hnone]
        rfl
      · cases h

/-- Groups write the octets that they are read as. -/
theorem eq_encodeBytes_of_decodeGroups {offset : Nat} {group bs : Bytes} (h : decodeGroups f offset group = .ok bs) :
    group = encodeBytes f bs := by
  fun_induction decodeGroups f offset group generalizing bs with
  | case1 =>
    obtain rfl := Except.ok.inj h
    rfl
  | case2 offset s t u v w rest ih =>
    obtain ⟨a, ha, h⟩ := bind_eq_ok_iff.1 h
    obtain ⟨b, hb, h⟩ := bind_eq_ok_iff.1 h
    obtain ⟨c, hc, h⟩ := bind_eq_ok_iff.1 h
    obtain ⟨d, hd, h⟩ := bind_eq_ok_iff.1 h
    obtain ⟨more, hmore, h⟩ := bind_eq_ok_iff.1 h
    obtain rfl := Except.ok.inj h
    obtain ⟨hv, rfl⟩ := Form.symbol_of_read ha
    obtain ⟨hw, rfl⟩ := Form.symbol_of_read hb
    obtain ⟨hx, rfl⟩ := Form.symbol_of_read hc
    obtain ⟨hy, rfl⟩ := Form.symbol_of_read hd
    rw [encodeBytes_three hv hw hx hy, ih hmore]
  | case3 offset group hne hshort =>
    refine eq_encodeBytes_of_decodeLast ?_ h
    match group with
    | [] | [_] | [_, _] | [_, _, _] | [_, _, _, _] => simp
    | s :: t :: u :: v :: w :: rest => exact (hshort s t u v w rest rfl).elim

/-- Octets are read out of exactly the symbols that write them. -/
theorem decodeBytes_eq_ok_iff (hf : f.Lawful) (symbols bs : Bytes) :
    decodeBytes f symbols = .ok bs ↔ symbols = encodeBytes f bs := by
  constructor
  · intro h
    unfold decodeBytes at h
    simp only at h
    split at h
    · cases h
    · exact eq_encodeBytes_of_decodeGroups h
  · rintro rfl
    exact decodeBytes_encodeBytes hf bs

/-- Different octets have different texts. -/
theorem Form.Lawful.encode_injective (hf : f.Lawful) : Function.Injective (encode f) := by
  have hchar : Function.Injective fun b : UInt8 => Char.ofNat b.toNat := by
    intro b c h
    have hrange : ∀ x : UInt8, (Char.ofNat x.toNat).toNat = x.toNat := fun x =>
      Utf8.toNat_char (Or.inl (Nat.lt_trans x.toNat_lt (by decide)))
    have hnat := congrArg Char.toNat h
    rw [hrange, hrange] at hnat
    exact UInt8.toNat_inj.1 hnat
  intro bs cs h
  have hchars := congrArg String.toList h
  rw [encode, encode, String.toList_ofList, String.toList_ofList] at hchars
  have hdecoded := decodeBytes_encodeBytes hf bs
  rw [(List.map_inj_right fun _ _ h => hchar h).1 hchars, decodeBytes_encodeBytes hf cs] at hdecoded
  exact (Except.ok.inj hdecoded).symm

/-- Octets are read out of exactly the standard text that writes them. -/
theorem decode_eq_ok_iff (s : String) (bs : Bytes) : decode standard s = .ok bs ↔ s = encode standard bs := by
  rw [decode, decodeBytes_eq_ok_iff Form.lawful_standard, ← utf8_encode]
  exact Utf8.encode_injective.eq_iff

end Base64

namespace Text

/-- What a text loses when it is trimmed is blank. -/
theorem exists_blanks_around (s : String) :
    ∃ before after : String, isBlankText before = true ∧ isBlankText after = true ∧ s = before ++ trim s ++ after := by
  let rest := s.toList.dropWhile isBlank
  refine ⟨String.ofList (s.toList.takeWhile isBlank), String.ofList (rest.reverse.takeWhile isBlank).reverse, ?_, ?_, ?_⟩
  · rw [isBlankText, String.toList_ofList, List.all_takeWhile]
  · rw [isBlankText, String.toList_ofList, List.all_reverse, List.all_takeWhile]
  · have hrest : trimChars s.toList ++ (rest.reverse.takeWhile isBlank).reverse = rest := by
      rw [trimChars, trimEnd, ← List.reverse_append, List.takeWhile_append_dropWhile, List.reverse_reverse]
    rw [← String.toList_inj, String.toList_append, String.toList_append, trim, String.toList_ofList,
      String.toList_ofList, String.toList_ofList, List.append_assoc, hrest]
    exact List.takeWhile_append_dropWhile.symm

/-- Blanks around a text are trimmed. -/
theorem trimChars_around {before after : List Char} (hbefore : ∀ c ∈ before, isBlank c = true)
    (hafter : ∀ c ∈ after, isBlank c = true) (s : List Char) : trimChars (before ++ s ++ after) = trimChars s := by
  have hend : ∀ t : List Char, trimEnd (t ++ after) = trimEnd t := by
    intro t
    unfold trimEnd
    rw [List.reverse_append, List.dropWhile_append_of_pos fun c hc => hafter c (List.mem_reverse.1 hc)]
  unfold trimChars
  rw [List.append_assoc, List.dropWhile_append_of_pos hbefore, List.dropWhile_append]
  by_cases hs : (s.dropWhile isBlank).isEmpty = true
  · rw [if_pos hs, List.isEmpty_iff.1 hs, List.dropWhile_eq_nil_iff.2 hafter]
  · rw [if_neg hs, hend]

/-- Blanks around a text without blanks are all that is trimmed off. -/
theorem trim_around {before s after : String} (hbefore : isBlankText before = true) (hafter : isBlankText after = true)
    (hs : ∀ c ∈ s.toList, isBlank c = false) : trim (before ++ s ++ after) = s := by
  have htrim := trimChars_around (List.all_eq_true.1 hbefore) (List.all_eq_true.1 hafter) s.toList
  rw [trim, String.toList_append, String.toList_append, htrim, trimChars_eq_self hs]
  exact String.ofList_toList

/-- Nothing is left of a blank text. -/
theorem trim_of_isBlankText {s : String} (h : isBlankText s = true) : trim s = "" := by
  have hnone : isBlankText "" = true := rfl
  have hempty := trim_around (s := "") h hnone (by simp)
  simpa using hempty

end Text

end ClientAuth
