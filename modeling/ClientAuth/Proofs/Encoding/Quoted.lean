import ClientAuth.Proofs.Subject
import ClientAuth.Text.Quoted

/-!
# Quoted text tells where it ends

Within quotes a character is written as itself, as a letter behind a backslash, or as its number in braces
(`quotedChar_cases`), and none of these is the start of another (`quotedChar_append_inj`). So whatever follows the closing
quote, a quoted text can be told from any other (`quoted_append_inj`).
-/

namespace ClientAuth.Text

theorem hexNumber_of_lt {n : Nat} (h : n < 16) : hexNumber n = [Hex.digit n] := by
  rw [hexNumber, if_pos h]

theorem hexNumber_of_not_lt {n : Nat} (h : ¬n < 16) : hexNumber n = hexNumber (n / 16) ++ [Hex.digit (n % 16)] := by
  rw [hexNumber, if_neg h]

theorem hexNumber_ne_nil (n : Nat) : hexNumber n ≠ [] := by
  by_cases h : n < 16
  · rw [hexNumber_of_lt h]
    exact List.cons_ne_nil _ _
  · rw [hexNumber_of_not_lt h]
    exact List.append_ne_nil_of_right_ne_nil _ (List.cons_ne_nil _ _)

/-- Only numbers below sixteen have one digit. -/
theorem hexNumber_ne_singleton {n : Nat} (h : ¬n < 16) (c : Char) : hexNumber n ≠ [c] := by
  intro hn
  rw [hexNumber_of_not_lt h] at hn
  have hlength := congrArg List.length hn
  have hpos := List.length_pos_iff.2 (hexNumber_ne_nil (n / 16))
  rw [List.length_append, List.length_singleton, List.length_singleton] at hlength
  omega

/-- Different numbers below sixteen have different digits. -/
theorem digit_inj {m n : Nat} (hm : m < 16) (hn : n < 16) (h : Hex.digit m = Hex.digit n) : m = n := by
  have hvalue := Hex.value?_digit hm
  rw [h, Hex.value?_digit hn] at hvalue
  exact (Option.some.inj hvalue).symm

/-- Different numbers have different digits in hexadecimal. -/
theorem hexNumber_inj {m n : Nat} (h : hexNumber m = hexNumber n) : m = n := by
  induction m using hexNumber.induct generalizing n with
  | case1 m hm =>
    by_cases hn : n < 16
    · rw [hexNumber_of_lt hm, hexNumber_of_lt hn] at h
      exact digit_inj hm hn (List.singleton_inj.1 h)
    · rw [hexNumber_of_lt hm] at h
      exact absurd h.symm (hexNumber_ne_singleton hn _)
  | case2 m hm ih =>
    by_cases hn : n < 16
    · rw [hexNumber_of_lt hn] at h
      exact absurd h (hexNumber_ne_singleton hm _)
    · rw [hexNumber_of_not_lt hm, hexNumber_of_not_lt hn] at h
      obtain ⟨hfront, hlast⟩ := List.append_inj' h rfl
      have hquotient := ih hfront
      have hremainder := digit_inj (Nat.mod_lt _ (by decide)) (Nat.mod_lt _ (by decide)) (List.singleton_inj.1 hlast)
      omega

/-- Digits are no braces. -/
theorem brace_not_mem_hexNumber (n : Nat) : '}' ∉ hexNumber n := by
  have hdigit : ∀ k < 16, '}' ≠ Hex.digit k := by decide
  induction n using hexNumber.induct with
  | case1 n hn =>
    rw [hexNumber_of_lt hn, List.mem_singleton]
    exact hdigit n hn
  | case2 n hn ih =>
    rw [hexNumber_of_not_lt hn, List.mem_append, List.mem_singleton, not_or]
    exact ⟨ih, hdigit _ (Nat.mod_lt _ (by decide))⟩

/-- The character that a letter stands for behind a backslash, unless it opens a number. -/
def named? (letter : Char) : Option Char :=
  if letter = '"' then some '"'
  else if letter = '\\' then some '\\'
  else if letter = 'n' then some '\n'
  else if letter = 'r' then some '\r'
  else if letter = 't' then some '\t'
  else if letter = '0' then some '\x00'
  else none

/-- Within quotes a character stands as itself, as a letter behind a backslash, or as its number. -/
theorem quotedChar_cases (c : Char) :
    (quotedChar c = [c] ∧ c ≠ '"' ∧ c ≠ '\\') ∨ (∃ letter, quotedChar c = ['\\', letter] ∧ named? letter = some c) ∨
      quotedChar c = '\\' :: 'u' :: '{' :: (hexNumber c.toNat ++ ['}']) := by
  by_cases hquote : c = '"'
  · exact Or.inr (Or.inl ⟨'"', by rw [hquote]; rfl, by rw [hquote]; rfl⟩)
  by_cases hslash : c = '\\'
  · exact Or.inr (Or.inl ⟨'\\', by rw [hslash]; rfl, by rw [hslash]; rfl⟩)
  by_cases hline : c = '\n'
  · exact Or.inr (Or.inl ⟨'n', by rw [hline]; rfl, by rw [hline]; rfl⟩)
  by_cases hreturn : c = '\r'
  · exact Or.inr (Or.inl ⟨'r', by rw [hreturn]; rfl, by rw [hreturn]; rfl⟩)
  by_cases htab : c = '\t'
  · exact Or.inr (Or.inl ⟨'t', by rw [htab]; rfl, by rw [htab]; rfl⟩)
  by_cases hzero : c.toNat = 0
  · have hc : c = '\x00' := Char.toNat_inj.1 hzero
    exact Or.inr (Or.inl ⟨'0', by rw [hc]; rfl, by rw [hc]; rfl⟩)
  unfold quotedChar
  simp only [if_neg hquote, if_neg hslash, if_neg hline, if_neg hreturn, if_neg htab, if_neg hzero]
  by_cases hprint : isPrintable c = true
  · rw [if_pos hprint]
    exact Or.inl ⟨rfl, hquote, hslash⟩
  · rw [if_neg hprint]
    exact Or.inr (Or.inr rfl)

/-- What stands for a character within quotes is not the start of what stands for another one. -/
theorem quotedChar_append_inj {c c' : Char} {rest rest' : List Char}
    (h : quotedChar c ++ rest = quotedChar c' ++ rest') : c = c' ∧ rest = rest' := by
  rcases quotedChar_cases c with ⟨hc, -, hslash⟩ | ⟨letter, hc, hnamed⟩ | hc <;>
    rcases quotedChar_cases c' with ⟨hc', -, hslash'⟩ | ⟨letter', hc', hnamed'⟩ | hc' <;>
    rw [hc, hc'] at h
  · cases h
    exact ⟨rfl, rfl⟩
  · cases h
    exact absurd rfl hslash
  · cases h
    exact absurd rfl hslash
  · cases h
    exact absurd rfl hslash'
  · cases h
    exact ⟨Option.some.inj (hnamed.symm.trans hnamed'), rfl⟩
  · cases h
    cases hnamed
  · cases h
    exact absurd rfl hslash'
  · cases h
    cases hnamed'
  · have hdigits : hexNumber c.toNat ++ '}' :: rest = hexNumber c'.toNat ++ '}' :: rest' := by simpa using h
    have hcut := congrArg (cutAt? '}') hdigits
    rw [cutAt?_append (brace_not_mem_hexNumber _), cutAt?_append (brace_not_mem_hexNumber _), Option.some.injEq,
      Prod.mk.injEq] at hcut
    exact ⟨Char.toNat_inj.1 (hexNumber_inj hcut.1), hcut.2⟩

/-- No character stands within quotes as a quote alone. -/
theorem quotedChar_append_ne (c : Char) (rest rest' : List Char) : quotedChar c ++ rest ≠ '"' :: rest' := by
  intro h
  rcases quotedChar_cases c with ⟨hc, hquote, -⟩ | ⟨letter, hc, -⟩ | hc <;> rw [hc] at h
  · cases h
    exact hquote rfl
  · cases h
  · cases h

/-- Characters within quotes, and what follows the closing quote, can be told from their text. -/
theorem quotedChars_append_inj {cs cs' rest rest' : List Char}
    (h : cs.flatMap quotedChar ++ '"' :: rest = cs'.flatMap quotedChar ++ '"' :: rest') : cs = cs' ∧ rest = rest' := by
  induction cs generalizing cs' with
  | nil =>
    cases cs' with
    | nil =>
      cases h
      exact ⟨rfl, rfl⟩
    | cons c' cs' =>
      rw [List.flatMap_cons, List.append_assoc] at h
      exact absurd h.symm (quotedChar_append_ne c' _ _)
  | cons c cs ih =>
    cases cs' with
    | nil =>
      rw [List.flatMap_cons, List.append_assoc] at h
      exact absurd h (quotedChar_append_ne c _ _)
    | cons c' cs' =>
      rw [List.flatMap_cons, List.flatMap_cons, List.append_assoc, List.append_assoc] at h
      obtain ⟨rfl, htail⟩ := quotedChar_append_inj h
      obtain ⟨rfl, hrest⟩ := ih htail
      exact ⟨rfl, hrest⟩

/-- A quoted text, and what follows it, can be told from their text. -/
theorem quoted_append_inj {s s' : String} {rest rest' : List Char}
    (h : (quoted s).toList ++ rest = (quoted s').toList ++ rest') : s = s' ∧ rest = rest' := by
  simp only [quoted, String.toList_ofList, List.cons_append, List.append_assoc, List.cons.injEq, true_and,
    List.nil_append] at h
  obtain ⟨hcs, hrest⟩ := quotedChars_append_inj h
  exact ⟨String.toList_inj.1 hcs, hrest⟩

end ClientAuth.Text
