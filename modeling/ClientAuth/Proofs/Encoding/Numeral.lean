import ClientAuth.Proofs.Encoding.Token

/-!
# Written numbers are read as they are written

A numeral has digits before its point, and may have digits behind it and an exponent. Written out it is a single token, of
the number that it stands for (`Lexes.numeral`). A whole number of 64 bits is written as the numeral of its digits
(`Lexes.natural`).
-/

namespace ClientAuth.Json

open Utf8 (encodeChar encodeChars)

namespace Numeral

/-- One decimal digit or more. -/
def IsDigits (ds : List Nat) : Prop := ds ≠ [] ∧ ∀ d ∈ ds, d < 10

/-- A numeral that can be written: it has digits where it must, and no nought before others. -/
structure WellFormed (n : Numeral) : Prop where
  whole : IsDigits n.whole
  lead : ∀ ds, n.whole = 0 :: ds → ds = []
  fraction : ∀ ds ∈ n.fraction, IsDigits ds
  exponent : ∀ e ∈ n.exponent, IsDigits e.2

/-- The text of digits. -/
def digitsText (ds : List Nat) : List Char := ds.map Nat.digitChar

/-- The text of the digits behind the point. -/
def fractionText : Option (List Nat) → List Char
  | none => []
  | some ds => '.' :: digitsText ds

/-- The text of an exponent. -/
def exponentText : Option (Bool × List Nat) → List Char
  | none => []
  | some (isNegative, ds) => 'e' :: ((if isNegative then ['-'] else []) ++ digitsText ds)

/-- The text behind the sign. -/
def magnitudeText (n : Numeral) : List Char :=
  digitsText n.whole ++ (fractionText n.fraction ++ exponentText n.exponent)

/-- The text of a numeral. -/
def write (n : Numeral) : List Char := (if n.isNegative then ['-'] else []) ++ n.magnitudeText

/-- A digit is an octet of its own, with its value. -/
theorem digit_spec : ∀ d < 10, encodeChar d.digitChar = [octet d.digitChar] ∧ digit? (octet d.digitChar) = some d := by
  decide

/-- The octets of digits. -/
theorem encodeChars_digitsText_cons {d : Nat} (hd : d < 10) (ds : List Nat) :
    encodeChars (digitsText (d :: ds)) = octet d.digitChar :: encodeChars (digitsText ds) := by
  rw [digitsText, List.map_cons, encodeChars_cons, (digit_spec d hd).1, List.singleton_append, digitsText]

/-- Digits are taken off the front up to what is none. -/
theorem digits_digitsText {ds : List Nat} (hds : ∀ d ∈ ds, d < 10) {rest : Bytes}
    (hrest : ∀ b ∈ rest.head?, digit? b = none) : digits (encodeChars (digitsText ds) ++ rest) = (ds, rest) := by
  induction ds with
  | nil =>
    cases rest with
    | nil => rfl
    | cons b rest =>
      change digits (b :: rest) = ([], b :: rest)
      rw [digits, hrest b rfl]
  | cons d ds ih =>
    have hd := hds d List.mem_cons_self
    have htail := ih fun d hd => hds d (List.mem_cons_of_mem _ hd)
    rw [encodeChars_digitsText_cons hd, List.cons_append, digits, (digit_spec d hd).2, htail]

/-- What is a digit is nothing that is none. -/
theorem ne_of_digit {b x : UInt8} {d : Nat} (hb : digit? b = some d) (hx : digit? x = none) : b ≠ x := by
  rintro rfl
  cases hx.symm.trans hb

section Read

variable {rest : Bytes} (hrest : Ends rest)
include hrest

/-- An exponent is read up to what ends the number. -/
theorem exponentFrom_text (isNegative : Bool) (whole : List Nat) (fraction : Option (List Nat)) (sign : Bool)
    {ds : List Nat} (hds : IsDigits ds) :
    exponentFrom isNegative whole fraction (encodeChars ((if sign then ['-'] else []) ++ digitsText ds) ++ rest) =
      (.number (number? ⟨isNegative, whole, fraction, some (sign, ds)⟩), rest) := by
  obtain ⟨hne, hlt⟩ := hds
  have hdigits : digits (encodeChars (digitsText ds) ++ rest) = (ds, rest) :=
    digits_digitsText hlt fun b hb => (hrest b hb).1
  obtain ⟨d, ds, rfl⟩ := List.exists_cons_of_ne_nil hne
  cases sign with
  | true =>
    have hminus : octet '-' ≠ octet '+' := by decide
    have hsign : encodeChars ((if true then ['-'] else []) ++ digitsText (d :: ds)) ++ rest =
        octet '-' :: (encodeChars (digitsText (d :: ds)) ++ rest) := rfl
    rw [hsign, exponentFrom]
    simp only [if_neg hminus, if_true, hdigits]
  | false =>
    have hd := hlt d List.mem_cons_self
    have hplus : octet d.digitChar ≠ octet '+' := ne_of_digit (digit_spec d hd).2 rfl
    have hminus : octet d.digitChar ≠ octet '-' := ne_of_digit (digit_spec d hd).2 rfl
    rw [if_neg Bool.false_ne_true, List.nil_append]
    rw [encodeChars_digitsText_cons hd, List.cons_append] at hdigits ⊢
    rw [exponentFrom]
    simp only [if_neg hplus, if_neg hminus, hdigits]

/-- What stands behind the digits is read up to what ends the number. -/
theorem afterDigits_text (isNegative : Bool) (whole : List Nat) (fraction : Option (List Nat))
    {exponent : Option (Bool × List Nat)} (hexponent : ∀ e ∈ exponent, IsDigits e.2) :
    afterDigits isNegative whole fraction (encodeChars (exponentText exponent) ++ rest) =
      (.number (number? ⟨isNegative, whole, fraction, exponent⟩), rest) := by
  cases exponent with
  | none =>
    change afterDigits isNegative whole fraction rest = _
    cases rest with
    | nil => rfl
    | cons b rest =>
      obtain ⟨-, -, hlower, hupper⟩ := hrest b rfl
      simp only [afterDigits, hlower, hupper, or_self, if_false]
  | some e =>
    obtain ⟨sign, ds⟩ := e
    rw [exponentText, encodeChars_cons]
    exact exponentFrom_text hrest isNegative whole fraction sign (hexponent _ rfl)

omit hrest in
/-- An exponent starts with what is neither a digit nor a point, and so does what ends a number. -/
theorem head_exponentText (hrest : Ends rest) (exponent : Option (Bool × List Nat)) :
    ∀ b ∈ (encodeChars (exponentText exponent) ++ rest).head?, digit? b = none ∧ b ≠ octet '.' := by
  cases exponent with
  | none => exact fun b hb => ⟨(hrest b hb).1, (hrest b hb).2.1⟩
  | some e =>
    intro b hb
    obtain rfl : octet 'e' = b := Option.some.inj hb
    decide

omit hrest in
/-- Behind digits that may stand before the point, there is a point or there is none. -/
theorem numberFrom_of_digits (isNegative : Bool) {bs : Bytes} (hne : (digits bs).1 ≠ [])
    (hlead : ∀ ds, (digits bs).1 = 0 :: ds → ds = []) :
    numberFrom isNegative bs =
      match (digits bs).2 with
      | b :: after =>
        if b = octet '.' then
          match digits after with
          | ([], rest) => breakOff rest
          | (fraction, rest) => afterDigits isNegative (digits bs).1 (some fraction) rest
        else afterDigits isNegative (digits bs).1 none (b :: after)
      | [] => afterDigits isNegative (digits bs).1 none [] := by
  rw [numberFrom.eq_def]
  generalize digits bs = front at hne hlead ⊢
  split
  case h_1 => exact absurd rfl hne
  case h_2 => cases hlead _ rfl
  case h_3 behind _ _ => cases behind <;> rfl

/-- A number is read behind its sign. -/
theorem numberFrom_text {n : Numeral} (hn : n.WellFormed) :
    numberFrom n.isNegative (encodeChars n.magnitudeText ++ rest) = (.number n.number?, rest) := by
  obtain ⟨isNegative, whole, fraction, exponent⟩ := n
  obtain ⟨⟨hne, hwhole⟩, hlead, hfraction, hexponent⟩ := hn
  dsimp only at hne hwhole hlead hfraction hexponent ⊢
  -- digits end at the point, or at the exponent and what follows it
  have hhead := head_exponentText hrest exponent
  have hafter (fraction : Option (List Nat)) := afterDigits_text hrest isNegative whole fraction hexponent
  rw [magnitudeText, Utf8.encodeChars_append, Utf8.encodeChars_append, List.append_assoc, List.append_assoc]
  generalize encodeChars (exponentText exponent) ++ rest = behind at hhead hafter
  cases fraction with
  | none =>
    have hdigits : digits (encodeChars (digitsText whole) ++ behind) = (whole, behind) :=
      digits_digitsText hwhole fun b hb => (hhead b hb).1
    change numberFrom isNegative (encodeChars (digitsText whole) ++ behind) = _
    rw [numberFrom_of_digits isNegative (by rwa [hdigits]) (by rwa [hdigits]), hdigits]
    cases behind with
    | nil => exact hafter none
    | cons b after => exact (if_neg (hhead b rfl).2).trans (hafter none)
  | some fs =>
    obtain ⟨hfne, hfs⟩ := hfraction fs rfl
    have hdigits : digits (encodeChars (digitsText whole) ++ octet '.' :: (encodeChars (digitsText fs) ++ behind)) =
        (whole, octet '.' :: (encodeChars (digitsText fs) ++ behind)) :=
      digits_digitsText hwhole (by rintro b ⟨⟩; rfl)
    have hfraction : digits (encodeChars (digitsText fs) ++ behind) = (fs, behind) :=
      digits_digitsText hfs fun b hb => (hhead b hb).1
    change numberFrom isNegative (encodeChars (digitsText whole) ++
      octet '.' :: (encodeChars (digitsText fs) ++ behind)) = _
    rw [numberFrom_of_digits isNegative (by rwa [hdigits]) (by rwa [hdigits]), hdigits]
    simp only [if_true, hfraction]
    obtain ⟨f, fs, rfl⟩ := List.exists_cons_of_ne_nil hfne
    exact hafter _

end Read

/-! ## Whole numbers -/

/-- The digits of a number, the first one first. -/
def decimals (n : Nat) : List Nat :=
  if n < 10 then [n] else decimals (n / 10) ++ [n % 10]
decreasing_by omega

theorem digitsText_decimals (n : Nat) : digitsText (decimals n) = Nat.toDigits 10 n := by
  fun_induction decimals n with
  | case1 n hn => exact (Nat.toDigits_of_lt_base hn).symm
  | case2 n hn ih =>
    rw [Nat.toDigits_of_base_le (by decide) (Nat.le_of_not_lt hn), ← ih]
    exact List.map_append

theorem isDigits_decimals (n : Nat) : IsDigits (decimals n) := by
  fun_induction decimals n with
  | case1 n hn => exact ⟨List.cons_ne_nil _ _, by simpa using hn⟩
  | case2 n hn ih =>
    refine ⟨List.append_ne_nil_of_left_ne_nil ih.1 _, fun d hd => ?_⟩
    rcases List.mem_append.1 hd with hd | hd
    · exact ih.2 d hd
    · rw [List.mem_singleton.1 hd]
      omega

/-- No nought stands before other digits. -/
theorem decimals_lead {n : Nat} {ds : List Nat} (h : decimals n = 0 :: ds) : n = 0 ∧ ds = [] := by
  fun_induction decimals n generalizing ds with
  | case1 n hn =>
    cases h
    exact ⟨rfl, rfl⟩
  | case2 n hn ih =>
    obtain ⟨d, front, hfront⟩ := List.exists_cons_of_ne_nil (isDigits_decimals (n / 10)).1
    rw [hfront, List.cons_append] at h
    cases h
    have hzero := (ih hfront).1
    omega

/-- One more digit behind digits of which none was dropped. -/
theorem readWhole_append {s t d : Nat} {ds : List Nat} (h : readWhole s ds = (t, 0)) (hd : fits (t * 10 + d) = true) :
    readWhole s (ds ++ [d]) = (t * 10 + d, 0) := by
  induction ds generalizing s with
  | nil =>
    cases h
    exact if_pos hd
  | cons x ds ih =>
    rw [readWhole] at h
    rw [List.cons_append, readWhole]
    split at h
    next hx => rw [if_pos hx, ih h]
    next => cases h

/-- The digits of a number that fits are read as that number, and none is dropped. -/
theorem readWhole_decimals {n : Nat} (hn : n < 18446744073709551616) : readWhole 0 (decimals n) = (n, 0) := by
  fun_induction decimals n with
  | case1 n _ =>
    have hfits : fits (0 * 10 + n) = true := decide_eq_true (by omega)
    rw [readWhole, if_pos hfits, readWhole, Nat.zero_mul, Nat.zero_add]
  | case2 n _ ih =>
    have hvalue : n / 10 * 10 + n % 10 = n := by omega
    have hlast := readWhole_append (d := n % 10) (ih (by omega)) (decide_eq_true (by omega))
    rwa [hvalue] at hlast

/-- The numeral of a whole number of 64 bits. -/
def natural (n : UInt64) : Numeral := ⟨false, decimals n.toNat, none, none⟩

theorem wellFormed_natural (n : UInt64) : (natural n).WellFormed where
  whole := isDigits_decimals n.toNat
  lead _ h := (decimals_lead h).2
  fraction _ h := nomatch h
  exponent _ h := nomatch h

theorem number?_natural (n : UInt64) : (natural n).number? = some (.natural n) := by
  have hwhole := readWhole_decimals n.toNat_lt
  simp [number?, natural, hwhole]

theorem write_natural (n : UInt64) : (natural n).write = (toString n.toNat).toList := by
  have hdigits : (natural n).write = digitsText (decimals n.toNat) := List.append_nil _
  rw [hdigits, digitsText_decimals, Nat.toString_eq_repr, Nat.toList_repr]

end Numeral

/-- What starts with a digit is read as a number. -/
theorem tokenFrom_digit {b : UInt8} {d : Nat} (hb : digit? b = some d) (rest : Bytes) :
    isBetween b = false ∧ tokenFrom b rest = numberFrom false (b :: rest) := by
  have hother : ∀ x, digit? x = none → b ≠ x := fun x hx => Numeral.ne_of_digit hb hx
  have hmarks : b ≠ octet '{' ∧ b ≠ octet '}' ∧ b ≠ octet '[' ∧ b ≠ octet ']' ∧ b ≠ octet ',' ∧ b ≠ octet ':' ∧
      b ≠ octet '"' ∧ b ≠ octet '-' :=
    ⟨hother _ rfl, hother _ rfl, hother _ rfl, hother _ rfl, hother _ rfl, hother _ rfl, hother _ rfl, hother _ rfl⟩
  have hblanks : b ≠ 32 ∧ b ≠ 10 ∧ b ≠ 9 ∧ b ≠ 13 := ⟨hother _ rfl, hother _ rfl, hother _ rfl, hother _ rfl⟩
  constructor
  · simp [isBetween, hblanks]
  · simp [tokenFrom, hmarks, hb]

/-- A written numeral is one token. -/
theorem Lexes.numeral {n : Numeral} (hn : n.WellFormed) : Lexes n.write [.number n.number?] := by
  cases hsign : n.isNegative with
  | true =>
    have hwrite : encodeChars n.write = octet '-' :: encodeChars n.magnitudeText := by
      rw [Numeral.write, hsign]
      rfl
    refine Lexes.one hwrite rfl fun rest hrest => ?_
    have hnumber := Numeral.numberFrom_text hrest hn
    rwa [hsign] at hnumber
  | false =>
    obtain ⟨d, ds, hwhole⟩ := List.exists_cons_of_ne_nil hn.whole.1
    have hd : d < 10 := hn.whole.2 d (hwhole ▸ List.mem_cons_self)
    obtain ⟨tail, htail⟩ : ∃ tail, encodeChars n.magnitudeText = octet d.digitChar :: tail := by
      rw [Numeral.magnitudeText, hwhole, Utf8.encodeChars_append, Numeral.encodeChars_digitsText_cons hd]
      exact ⟨_, rfl⟩
    have hwrite : encodeChars n.write = octet d.digitChar :: tail := by
      rw [Numeral.write, hsign]
      exact htail
    have htoken (rest : Bytes) := tokenFrom_digit (Numeral.digit_spec d hd).2 rest
    refine Lexes.one hwrite (htoken []).1 fun rest hrest => ?_
    have hnumber := Numeral.numberFrom_text hrest hn
    rw [hsign, htail] at hnumber
    exact (htoken (tail ++ rest)).2.trans hnumber

/-- A written whole number is one token. -/
theorem Lexes.natural (n : UInt64) : Lexes (toString n.toNat).toList [.number (some (.natural n))] := by
  rw [← Numeral.write_natural, ← Numeral.number?_natural]
  exact Lexes.numeral (Numeral.wellFormed_natural n)

end ClientAuth.Json
