import ClientAuth.Json.Codec
import ClientAuth.Proofs.Encoding.Base64

/-!
# Written JSON is cut into the tokens that it was made of

`Lexes text ts` says that a text is cut into certain tokens whatever ends them may follow, so that texts and their tokens
can be put together piece by piece (`Lexes.cons`, `Lexes.append`). Written texts are single tokens whatever characters
they escape (`Lexes.text`).
-/

namespace ClientAuth.Json

open Utf8 (encodeChar encodeChars)

/-- Whether a number ends before these octets: they do not start with what could belong to it. -/
def Ends (rest : Bytes) : Prop :=
  ∀ b ∈ rest.head?, digit? b = none ∧ b ≠ octet '.' ∧ b ≠ octet 'e' ∧ b ≠ octet 'E'

/-- A text is cut into these tokens, whatever octets that end them stand behind it. -/
def Lexes (text : List Char) (ts : List Token) : Prop :=
  ∀ rest, Ends rest → ∀ fuel, (encodeChars text ++ rest).length ≤ fuel →
    ∃ left, rest.length ≤ left ∧ tokensWithin fuel (encodeChars text ++ rest) = ts ++ tokensWithin left rest

theorem ends_nil : Ends [] := by
  intro b hb
  cases hb

theorem encodeChars_cons (c : Char) (s : List Char) : encodeChars (c :: s) = encodeChar c ++ encodeChars s :=
  List.flatMap_cons

theorem Lexes.nil : Lexes [] [] := by
  intro rest _ fuel hfuel
  exact ⟨fuel, hfuel, rfl⟩

/-- The first token, when it is known what is left behind it. -/
theorem tokensWithin_of_tokenFrom {b : UInt8} {rest behind : Bytes} {t : Token} {fuel : Nat}
    (hb : isBetween b = false) (ht : tokenFrom b rest = (t, behind)) (hfuel : rest.length + 1 ≤ fuel) :
    tokensWithin fuel (b :: rest) = t :: tokensWithin (fuel - 1) behind := by
  obtain ⟨fuel, rfl⟩ : ∃ k, fuel = k + 1 := ⟨fuel - 1, by omega⟩
  rw [tokensWithin, hb, if_neg Bool.false_ne_true, ht, Nat.add_sub_cancel]

/-- A text is one token if what it starts with is, up to its end. -/
theorem Lexes.one {text : List Char} {b : UInt8} {tail : Bytes} {t : Token} (hoctets : encodeChars text = b :: tail)
    (hb : isBetween b = false) (htoken : ∀ rest, Ends rest → tokenFrom b (tail ++ rest) = (t, rest)) :
    Lexes text [t] := by
  intro rest hrest fuel hfuel
  rw [hoctets, List.cons_append] at hfuel ⊢
  rw [List.length_cons] at hfuel
  refine ⟨fuel - 1, ?_, tokensWithin_of_tokenFrom hb (htoken rest hrest) hfuel⟩
  rw [List.length_append] at hfuel
  omega

/-- Texts of which the second starts with what ends a number are cut into the tokens of the one and of the other. -/
theorem Lexes.append {s t : List Char} {ts us : List Token} (hs : Lexes s ts) (ht : Lexes t us)
    (hends : ∀ rest, Ends rest → Ends (encodeChars t ++ rest)) : Lexes (s ++ t) (ts ++ us) := by
  intro rest hrest fuel hfuel
  rw [Utf8.encodeChars_append, List.append_assoc] at hfuel ⊢
  obtain ⟨left, hleft, hfirst⟩ := hs (encodeChars t ++ rest) (hends rest hrest) fuel hfuel
  obtain ⟨left', hleft', hsecond⟩ := ht rest hrest left hleft
  exact ⟨left', hleft', by rw [hfirst, hsecond, List.append_assoc]⟩

/-- The marks that are tokens by themselves. -/
def marks : List (Char × Token) :=
  [('{', .openBrace), ('}', .closeBrace), ('[', .openBracket), (']', .closeBracket), (',', .comma), (':', .colon)]

/-- A mark is one token, and it ends a number. -/
theorem mark_spec {c : Char} {t : Token} (hc : (c, t) ∈ marks) :
    encodeChar c = [octet c] ∧ isBetween (octet c) = false ∧ (∀ rest, tokenFrom (octet c) rest = (t, rest)) ∧
    ∀ rest, Ends (octet c :: rest) := by
  have hends : ∀ rest, digit? (octet c) = none ∧ octet c ≠ octet '.' ∧ octet c ≠ octet 'e' ∧ octet c ≠ octet 'E' →
      Ends (octet c :: rest) := by
    intro rest h b hb
    obtain rfl : octet c = b := by simpa using hb
    exact h
  simp only [marks, List.mem_cons, Prod.mk.injEq, List.not_mem_nil, or_false] at hc
  rcases hc with ⟨rfl, rfl⟩ | ⟨rfl, rfl⟩ | ⟨rfl, rfl⟩ | ⟨rfl, rfl⟩ | ⟨rfl, rfl⟩ | ⟨rfl, rfl⟩ <;>
    exact ⟨rfl, rfl, fun _ => rfl, fun rest => hends rest (by decide)⟩

/-- A mark before a text is a token before its tokens. -/
theorem Lexes.cons {c : Char} {t : Token} (hc : (c, t) ∈ marks) {s : List Char} {ts : List Token} (hs : Lexes s ts) :
    Lexes (c :: s) (t :: ts) := by
  obtain ⟨hoctet, hbetween, htoken, -⟩ := mark_spec hc
  intro rest hrest fuel hfuel
  rw [encodeChars_cons, hoctet, List.singleton_append, List.cons_append] at hfuel ⊢
  rw [List.length_cons] at hfuel
  obtain ⟨left, hleft, htokens⟩ := hs rest hrest (fuel - 1) (by omega)
  exact ⟨left, hleft, by rw [tokensWithin_of_tokenFrom hbetween (htoken _) hfuel, htokens, List.cons_append]⟩

/-- What starts with a mark ends a number. -/
theorem ends_mark {c : Char} {t : Token} (hc : (c, t) ∈ marks) (s : List Char) (rest : Bytes) :
    Ends (encodeChars (c :: s) ++ rest) := by
  obtain ⟨hoctet, -, -, hends⟩ := mark_spec hc
  rw [encodeChars_cons, hoctet]
  exact hends _

/-- The words that are tokens by themselves. -/
def words : List (List Char × Token) :=
  [(['n', 'u', 'l', 'l'], .null), (['t', 'r', 'u', 'e'], .boolean true),
    (['f', 'a', 'l', 's', 'e'], .boolean false)]

/-- A word is one token. -/
theorem Lexes.word {w : List Char} {t : Token} (hw : (w, t) ∈ words) : Lexes w [t] := by
  simp only [words, List.mem_cons, Prod.mk.injEq, List.not_mem_nil, or_false] at hw
  rcases hw with ⟨rfl, rfl⟩ | ⟨rfl, rfl⟩ | ⟨rfl, rfl⟩ <;> exact Lexes.one rfl rfl fun _ _ => rfl

/-- A document that is cut into tokens has these. -/
theorem Lexes.tokens_eq {text : List Char} {ts : List Token} (h : Lexes text ts) :
    tokens (Utf8.encode (String.ofList text)) = ts := by
  obtain ⟨left, -, htokens⟩ := h [] ends_nil (encodeChars text ++ []).length (Nat.le_refl _)
  have hnone : tokensWithin left [] = [] := by
    cases left <;> rfl
  rw [hnone, List.append_nil, List.append_nil] at htokens
  rw [Utf8.encode_ofList, tokens, htokens]

/-! ## Members and items -/

/-- The tokens of a member: those of its value behind its name. -/
def memberTokens (e : String × List Token) : List Token := .text (some e.1) :: .colon :: e.2

/-- Groups of tokens with commas between them. -/
def commaTokens : List (List Token) → List Token
  | [] => []
  | [item] => item
  | item :: items => item ++ .comma :: commaTokens items

theorem commaTokens_cons (item : List Token) (items : List (List Token)) :
    commaTokens (item :: items) = item ++ items.flatMap (.comma :: ·) := by
  induction items generalizing item with
  | nil => simp [commaTokens]
  | cons next items ih =>
    rw [commaTokens, ih, List.flatMap_cons, List.cons_append]
    simp

/-- Items that are cut into tokens are, with commas between them and a mark behind them, cut into these tokens with commas
between them and that mark. -/
theorem lexes_commaSeparated {ι : Type} {textOf : ι → List Char} {tokensOf : ι → List Token} {c : Char} {t : Token}
    (hc : (c, t) ∈ marks) (is : List ι) (his : ∀ i ∈ is, Lexes (textOf i) (tokensOf i)) :
    Lexes (commaSeparated (is.map textOf) ++ [c]) (commaTokens (is.map tokensOf) ++ [t]) := by
  have hclose : Lexes [c] [t] := Lexes.cons hc Lexes.nil
  induction is with
  | nil => exact hclose
  | cons i is ih =>
    have hi := his i List.mem_cons_self
    cases is with
    | nil => exact hi.append hclose fun rest _ => ends_mark hc _ rest
    | cons j is =>
      have hrest := ih fun k hk => his k (List.mem_cons_of_mem _ hk)
      have hcomma := Lexes.cons (c := ',') (t := .comma) (by decide) hrest
      have hall := hi.append hcomma fun rest _ => ends_mark (t := .comma) (by decide) _ rest
      rw [List.map_cons, List.map_cons, List.map_cons, List.map_cons, commaSeparated, commaTokens, List.append_assoc,
        List.append_assoc, List.cons_append, List.cons_append]
      · exact hall
      · simp
      · simp

/-! ## Texts -/

/-- Whether an octet stands for itself within a text. -/
def Verbatim (b : UInt8) : Prop := b ≠ octet '"' ∧ b ≠ octet '\\' ∧ ¬b < 32

/-- Octets that stand for themselves are taken into the draft. -/
theorem textFrom_verbatim {bs : Bytes} (h : ∀ b ∈ bs, Verbatim b) (draft rest : Bytes) :
    textFrom (some draft) (bs ++ rest) = textFrom (some (bs.reverse ++ draft)) rest := by
  induction bs generalizing draft with
  | nil => rfl
  | cons b bs ih =>
    obtain ⟨hquote, hslash, hlow⟩ := h b List.mem_cons_self
    have hrest := ih (fun x hx => h x (List.mem_cons_of_mem _ hx)) (b :: draft)
    rw [List.cons_append, textFrom.eq_def]
    simp only [if_neg hquote, if_neg hslash, if_neg hlow]
    rw [Draft.push, Option.map_some, hrest, List.reverse_cons, List.append_assoc, List.singleton_append]

/-- An escaped character of the short kind. -/
theorem textFrom_escape {e x : UInt8} (hu : e ≠ octet 'u') (he : escape? e = some x) (draft rest : Bytes) :
    textFrom (some draft) (octet '\\' :: e :: rest) = textFrom (some (x :: draft)) rest := by
  have hquote : octet '\\' ≠ octet '"' := by decide
  rw [textFrom.eq_def]
  simp only [if_neg hquote, if_true, if_neg hu, he]
  rfl

/-- An escaped control character. -/
theorem textFrom_control {c : Char} (hc : c.toNat < 32) (draft rest : Bytes) :
    textFrom (some draft) (octet '\\' :: octet 'u' :: octet '0' :: octet '0' :: octet (Hex.digit (c.toNat / 16)) ::
      octet (Hex.digit (c.toNat % 16)) :: rest) = textFrom (some ((encodeChar c).reverse ++ draft)) rest := by
  have hquote : octet '\\' ≠ octet '"' := by decide
  have hquad : ∀ n < 32, hexQuad? (octet '0') (octet '0') (octet (Hex.digit (n / 16))) (octet (Hex.digit (n % 16))) =
      some n := by decide
  have hsurrogate : ∀ n < 32, isLowSurrogate n = false ∧ isHighSurrogate n = false := by decide
  obtain ⟨hnotlow, hnothigh⟩ := hsurrogate _ hc
  rw [textFrom.eq_def]
  simp only [if_neg hquote, if_true, hquad _ hc, hnotlow, hnothigh, Bool.false_eq_true, if_false, Char.ofNat_toNat]
  rfl

/-- The octets of a character that is neither a control character nor a quote nor a backslash stand for themselves. -/
theorem verbatim_encodeChar {c : Char} (hquote : c ≠ '"') (hslash : c ≠ '\\') (hlow : ¬c.toNat < 32) :
    ∀ b ∈ encodeChar c, Verbatim b := by
  intro b hb
  by_cases hascii : c.toNat < 0x80
  · rw [Utf8.encodeChar_of_lt hascii, List.mem_singleton] at hb
    have hnat : b.toNat = c.toNat := by
      rw [hb]
      exact Utf8.toNat_ofNat (by omega)
    have hother : ∀ d : Char, d.toNat < 0x80 → c ≠ d → b ≠ octet d := by
      intro d hd hne hbd
      have hdnat : b.toNat = d.toNat := by
        rw [hbd]
        exact Utf8.toNat_ofNat (by omega)
      exact hne (Char.toNat_inj.1 (hnat.symm.trans hdnat))
    refine ⟨hother '"' (by decide) hquote, hother '\\' (by decide) hslash, ?_⟩
    rw [UInt8.lt_iff_toNat_lt, hnat]
    exact hlow
  · have hhigh := Utf8.encodeChar_octets (Nat.le_of_not_lt hascii) b hb
    rw [UInt8.le_iff_toNat_le] at hhigh
    have hother : ∀ x : UInt8, x.toNat < 0x80 → b ≠ x := by
      rintro x hx rfl
      exact absurd hhigh (Nat.not_le_of_lt hx)
    refine ⟨hother _ (by decide), hother _ (by decide), ?_⟩
    rw [UInt8.lt_iff_toNat_lt]
    exact fun h => absurd hhigh (Nat.not_le_of_lt (Nat.lt_of_lt_of_le h (by decide)))

/-- An escaped character is read as that character. -/
theorem textFrom_escapeChar (c : Char) (draft rest : Bytes) :
    textFrom (some draft) (encodeChars (escapeChar c) ++ rest) =
      textFrom (some ((encodeChar c).reverse ++ draft)) rest := by
  have hshort : ∀ n : Nat, n < 0x80 → c.toNat = n → encodeChar c = [UInt8.ofNat n] := by
    rintro n hn rfl
    exact Utf8.encodeChar_of_lt hn
  fun_cases escapeChar c with
  | case1 h =>
    subst h
    exact textFrom_escape (by decide) rfl draft rest
  | case2 _ h =>
    subst h
    exact textFrom_escape (by decide) rfl draft rest
  | case3 _ _ h =>
    rw [hshort 8 (by decide) h]
    exact textFrom_escape (by decide) rfl draft rest
  | case4 _ _ _ h =>
    rw [hshort 9 (by decide) h]
    exact textFrom_escape (by decide) rfl draft rest
  | case5 _ _ _ _ h =>
    rw [hshort 10 (by decide) h]
    exact textFrom_escape (by decide) rfl draft rest
  | case6 _ _ _ _ _ h =>
    rw [hshort 12 (by decide) h]
    exact textFrom_escape (by decide) rfl draft rest
  | case7 _ _ _ _ _ _ h =>
    rw [hshort 13 (by decide) h]
    exact textFrom_escape (by decide) rfl draft rest
  | case8 _ _ _ _ _ _ _ hlow =>
    have hdigits : ∀ n < 32, encodeChars ['\\', 'u', '0', '0', Hex.digit (n / 16), Hex.digit (n % 16)] =
        [octet '\\', octet 'u', octet '0', octet '0', octet (Hex.digit (n / 16)), octet (Hex.digit (n % 16))] := by
      decide
    rw [hdigits _ hlow]
    exact textFrom_control hlow draft rest
  | case9 hquote hslash _ _ _ _ _ hlow =>
    have hone : encodeChars [c] = encodeChar c := List.flatMap_singleton encodeChar c
    rw [hone]
    exact textFrom_verbatim (verbatim_encodeChar hquote hslash hlow) draft rest

/-- Escaped characters up to the closing quote are read as the text that they are. -/
theorem textFrom_escaped (s : List Char) (draft rest : Bytes) :
    textFrom (some draft) (encodeChars (s.flatMap escapeChar) ++ octet '"' :: rest) =
      (.text (Draft.finish (some ((encodeChars s).reverse ++ draft))), rest) := by
  induction s generalizing draft with
  | nil =>
    have hquote : textFrom (some draft) (octet '"' :: rest) = (.text (Draft.finish (some draft)), rest) := by
      rw [textFrom.eq_def]
      simp only [if_true]
    exact hquote
  | cons c s ih =>
    rw [List.flatMap_cons, Utf8.encodeChars_append, List.append_assoc, textFrom_escapeChar, ih, encodeChars_cons,
      List.reverse_append, List.append_assoc]

/-- A written text is one token. -/
theorem Lexes.text (s : String) : Lexes (writeText s) [.text (some s)] := by
  have hoctets : encodeChars (writeText s) =
      octet '"' :: (encodeChars (s.toList.flatMap escapeChar) ++ [octet '"']) := by
    have hquote : encodeChar '"' = [octet '"'] := rfl
    rw [writeText, List.cons_append, encodeChars_cons, Utf8.encodeChars_append, hquote]
    rfl
  have hfinish : Draft.finish (some (encodeChars s.toList).reverse) = some s := by
    have hdecode : Utf8.decode (encodeChars s.toList) = .ok s := Utf8.decode_encode s
    rw [Draft.finish, Option.bind_some, List.reverse_reverse, hdecode]
    rfl
  refine Lexes.one hoctets rfl fun rest _ => ?_
  have htext := textFrom_escaped s.toList [] rest
  rw [List.append_nil, hfinish] at htext
  rw [List.append_assoc]
  exact htext

/-- A member of an object is cut into its name, a colon and the tokens of its value. -/
theorem Lexes.member (name : String) {text : List Char} {ts : List Token} (h : Lexes text ts) :
    Lexes (writeText name ++ ':' :: text) (memberTokens (name, ts)) :=
  (Lexes.text name).append (Lexes.cons (t := .colon) (by decide) h) fun rest _ =>
    ends_mark (t := .colon) (by decide) _ rest

end ClientAuth.Json
