import ClientAuth.Certificate.Text
import ClientAuth.Proofs.Acceptance
import ClientAuth.Proofs.Encoding.Canonical
import ClientAuth.Proofs.Encoding.Pem
import ClientAuth.Proofs.Subject

/-!
# Certificates handed over as text

The two forms of a certificate as text are told apart by how the text starts. Armour gives back the certificate that it
was written for (`Certificate.decode_toPem`). A text without armour is read for its symbols alone: what it decodes to is
decided by what is left of it when blanks are taken out (`Certificate.decode_unarmoured`), and only the base64 of a
certificate decodes to that certificate.
-/

namespace ClientAuth

namespace Text

/-- A text without the blanks that encoded text may be wrapped with. -/
def compact (s : String) : String := String.ofList (s.toList.filter (!isAsciiBlank ·))

theorem isBlank_of_isAsciiBlank {c : Char} (h : isAsciiBlank c = true) : isBlank c = true := by
  simp only [isAsciiBlank, isBlank, Bool.or_eq_true, Bool.and_eq_true, beq_iff_eq, decide_eq_true_eq] at h ⊢
  omega

/-- The blanks at the start may be dropped before or after others are taken out. -/
theorem dropWhile_filter (s : List Char) :
    (s.filter (!isAsciiBlank ·)).dropWhile isBlank = (s.dropWhile isBlank).filter (!isAsciiBlank ·) := by
  induction s with
  | nil => rfl
  | cons c s ih =>
    cases hblank : isBlank c with
    | true =>
      rw [List.dropWhile_cons_of_pos hblank, ← ih]
      cases hascii : isAsciiBlank c with
      | true => rw [List.filter_cons_of_neg (by simp [hascii])]
      | false => rw [List.filter_cons_of_pos (by simp [hascii]), List.dropWhile_cons_of_pos hblank]
    | false =>
      have hascii : isAsciiBlank c = false := by
        by_contra hc
        rw [isBlank_of_isAsciiBlank (Bool.not_eq_false _ ▸ hc)] at hblank
        cases hblank
      have hstop (rest : List Char) : (c :: rest).dropWhile isBlank = c :: rest :=
        List.dropWhile_cons_of_neg (by simp [hblank])
      rw [List.filter_cons_of_pos (by simp [hascii]), hstop, hstop, List.filter_cons_of_pos (by simp [hascii])]

theorem compact_append (s t : String) : compact (s ++ t) = compact s ++ compact t := by
  unfold compact
  rw [String.toList_append, List.filter_append, String.ofList_append]

/-- A text may be trimmed before or after blanks are taken out of it. -/
theorem trim_compact (s : String) : trim (compact s) = compact (trim s) := by
  unfold trim compact
  simp only [String.toList_ofList, trimChars, trimEnd, dropWhile_filter, ← List.filter_reverse]

theorem isEmpty_trim_compact (s : String) : (trim (compact s)).isEmpty = (trim s).isEmpty := by
  rw [Bool.eq_iff_iff, trim_isEmpty_iff, trim_isEmpty_iff, compact, String.toList_ofList]
  constructor
  · intro h c hc
    cases hascii : isAsciiBlank c with
    | true => exact isBlank_of_isAsciiBlank hascii
    | false => exact h c (List.mem_filter.2 ⟨hc, by simp [hascii]⟩)
  · intro h c hc
    exact h c (List.mem_filter.1 hc).1

end Text

/-- A frame neither starts nor ends with a blank. -/
theorem Pem.trimChars_framed (tag : String) (contents : Bytes) :
    Text.trimChars (framed tag contents) = framed tag contents := by
  obtain ⟨mid, hmid⟩ : ∃ mid, framed tag contents = '-' :: (mid ++ ['-']) := by
    have hbegin : "-----BEGIN ".toList = '-' :: "----BEGIN ".toList := rfl
    have hend : "-----".toList = "----".toList ++ ['-'] := rfl
    unfold framed
    rw [hbegin]
    refine ⟨"----BEGIN ".toList ++ (tag.toList ++ ("-----".toList ++ (lineEnd ++
      (wrap 64 (Base64.encode Base64.standard contents).toList ++
        ("-----END ".toList ++ (tag.toList ++ "----".toList)))))), ?_⟩
    simp only [hend, List.append_assoc, List.cons_append]
  have hdash : Text.isBlank '-' = false := rfl
  rw [hmid, Text.trimChars_cons_of_not_isBlank hdash, ← List.cons_append, Text.trimEnd_append_cons _ hdash]
  rfl

namespace Certificate

open Text (compact isBlankText)

/-- A text that starts like armour. -/
def Armoured (s : String) : Prop := armourStart <+: (Text.trim s).toList

/-- The certificate that was read keeps the octets that it was read from. -/
theorem der_of_ofDer? {der : Bytes} {c : Certificate} (h : ofDer? der = some c) : c.der = der := by
  have hsigned {signed : Der.Element} (h : ofSigned? der signed = some c) : c.der = der := by
    simp only [ofSigned?, Option.bind_eq_bind, Option.bind_eq_some_iff] at h
    obtain ⟨children, -, row, -, h⟩ := h
    split at h
    · split at h
      · simp only [Option.bind_eq_some_iff, Option.pure_def, Option.some.injEq] at h
        obtain ⟨issuer, -, subject, -, validity, -, publicKey, -, rfl⟩ := h
        rfl
      · cases h
    · cases h
  simp only [ofDer?, Option.bind_eq_bind, Option.bind_eq_some_iff] at h
  obtain ⟨elements, -, h⟩ := h
  split at h
  · simp only [Option.bind_eq_some_iff] at h
    obtain ⟨children, -, h⟩ := h
    split at h
    · split at h
      · exact hsigned h
      · cases h
    · cases h
  · cases h

theorem fromDer_eq_ok_iff {der : Bytes} {c : Certificate} : fromDer der = .ok c ↔ der ≠ [] ∧ ofDer? der = some c := by
  unfold fromDer
  cases der with
  | nil => simp
  | cons b der =>
    cases ofDer? (b :: der) <;> simp

/-- The octets of a certificate that was read are those that it was read from. -/
theorem der_of_fromDer {der : Bytes} {c : Certificate} (h : fromDer der = .ok c) : c.der = der :=
  der_of_ofDer? (fromDer_eq_ok_iff.1 h).2

/-- A text without armour is read for its symbols, past the blanks in it and around it. -/
theorem decode_unarmoured {s : String} (h : ¬Armoured s) :
    decode s = if (Text.trim (compact s)).isEmpty then .error .emptyText
      else ((Base64.decode Base64.standard (Text.trim (compact s))).mapError .base64).bind fromDer := by
  have hstart : armourStart.isPrefixOf (Text.trimChars s.toList) = false := by
    rw [← Bool.not_eq_true, List.isPrefixOf_iff_prefix]
    rwa [Armoured, Text.trim, String.toList_ofList] at h
  rw [Text.isEmpty_trim_compact, Text.trim_compact]
  have hempty : (Text.trimChars s.toList).isEmpty = (Text.trim s).isEmpty := by
    rw [Bool.eq_iff_iff, List.isEmpty_iff, String.isEmpty_iff, ← String.toList_inj, Text.trim, String.toList_ofList]
    rfl
  have hcompact : String.ofList ((Text.trimChars s.toList).filter (!Text.isAsciiBlank ·)) = compact (Text.trim s) := by
    rw [compact, Text.trim, String.toList_ofList]
  unfold decode
  simp only [hstart, hempty, hcompact, Bool.false_eq_true, if_false]
  split
  · rfl
  · rfl

/-- What a text without armour decodes to is decided by what is left of it without blanks. -/
theorem decode_congr {s t : String} (hs : ¬Armoured s) (ht : ¬Armoured t)
    (h : Text.trim (compact s) = Text.trim (compact t)) : decode s = decode t := by
  rw [decode_unarmoured hs, decode_unarmoured ht, h]

/-- A text without armour decodes to a certificate if it is the base64 of the octets of that certificate, past the blanks in
it and around it. -/
theorem decode_unarmoured_eq_ok_iff {s : String} (hs : ¬Armoured s) (c : Certificate) :
    decode s = .ok c ↔ compact (Text.trim s) = Base64.encode Base64.standard c.der ∧ fromDer c.der = .ok c := by
  rw [decode_unarmoured hs, Text.trim_compact]
  constructor
  · intro h
    split at h
    · cases h
    · obtain ⟨der, hder, hc⟩ := bind_eq_ok_iff.1 h
      have hbase64 := (Base64.decode_eq_ok_iff _ _).1 (mapError_eq_ok_iff.1 hder)
      have hsame := der_of_fromDer hc
      subst hsame
      exact ⟨hbase64, hc⟩
  · rintro ⟨hbase64, hc⟩
    have hsome : ¬(Base64.encode Base64.standard c.der).isEmpty = true := by
      rw [String.isEmpty_iff, ← String.toList_inj, Base64.encode, String.toList_ofList]
      exact mt List.map_eq_nil_iff.1 (Base64.encodeBytes_ne_nil (fromDer_eq_ok_iff.1 hc).1)
    rw [hbase64, if_neg hsome, Base64.decode_encode]
    exact hc

/-- Armour shows by a dash. -/
theorem Armoured.dash_mem {s : String} (h : Armoured s) : '-' ∈ (compact (Text.trim s)).toList := by
  rw [compact, String.toList_ofList, List.mem_filter]
  exact ⟨h.subset (by decide), rfl⟩

section Around

variable {der : Bytes} {c : Certificate} (hc : fromDer der = .ok c) {before after : String}
  (hbefore : isBlankText before = true) (hafter : isBlankText after = true)
include hc hbefore hafter

/-- A certificate is read out of its base64, however that is wrapped. -/
theorem decode_base64 {text : String} (htext : compact text = Base64.encode Base64.standard der) :
    decode (before ++ text ++ after) = .ok c := by
  have hblank {blank : String} (h : isBlankText blank = true) : isBlankText (compact blank) = true := by
    rw [isBlankText, compact, String.toList_ofList, List.all_filter]
    exact List.all_eq_true.2 fun c hc => by rw [List.all_eq_true.1 h c hc, Bool.or_true]
  have hcompact : compact (Text.trim (before ++ text ++ after)) = Base64.encode Base64.standard der := by
    rw [← Text.trim_compact, Text.compact_append, Text.compact_append, htext]
    exact Text.trim_around (hblank hbefore) (hblank hafter) fun _ => Base64.not_isBlank_of_mem_encode
  -- armour would show by a dash, which standard base64 has not
  have hunarmoured : ¬Armoured (before ++ text ++ after) := by
    intro h
    have hdash := h.dash_mem
    rw [hcompact] at hdash
    exact Pem.dash_not_mem_encode der hdash
  have hder := der_of_fromDer hc
  subst hder
  exact (decode_unarmoured_eq_ok_iff hunarmoured c).2 ⟨hcompact, hc⟩

/-- A certificate is read out of its armour. -/
theorem decode_toPem : decode (before ++ c.toPem ++ after) = .ok c := by
  have hder := der_of_fromDer hc
  have htrim : Text.trimChars (before ++ c.toPem ++ after).toList = Pem.framed pemTag der := by
    have hnone : ∀ c ∈ ([] : List Char), Text.isBlank c = true := by simp
    have hend : ∀ c ∈ Pem.lineEnd, Text.isBlank c = true := List.all_eq_true.1 rfl
    rw [String.toList_append, String.toList_append, toPem, hder, Pem.toList_encode,
      Text.trimChars_around (List.all_eq_true.1 hbefore) (List.all_eq_true.1 hafter)]
    exact (Text.trimChars_around hnone hend _).trans (Pem.trimChars_framed _ _)
  have hstart : armourStart.isPrefixOf (Pem.framed pemTag der) = true := by
    rw [List.isPrefixOf_iff_prefix]
    exact (List.prefix_append armourStart [' ']).trans (List.prefix_append _ _)
  have hsome : (Pem.framed pemTag der).isEmpty = false := by
    rw [← Bool.not_eq_true, List.isEmpty_iff]
    intro hnil
    rw [hnil] at hstart
    cases hstart
  have hread : Pem.decode (String.ofList (Pem.framed pemTag der)) = .ok ⟨pemTag, der⟩ := by
    rw [← List.append_nil (Pem.framed pemTag der)]
    exact Pem.decode_framed (by decide) (by decide) der []
  unfold decode
  simp only [htrim, hstart, hsome, hread, Bool.false_eq_true, if_false, if_true, Except.mapError, bind, Except.bind,
    ne_eq, not_true_eq_false]
  exact hc

end Around

/-- The certificate that a text decodes to is the one that its octets are read as. -/
theorem fromDer_of_decode {s : String} {c : Certificate} (h : decode s = .ok c) : fromDer c.der = .ok c := by
  have hsame {der : Bytes} (hc : fromDer der = .ok c) : fromDer c.der = .ok c := by rwa [der_of_fromDer hc]
  simp only [decode] at h
  split at h
  · cases h
  · split at h
    · obtain ⟨document, -, h⟩ := bind_eq_ok_iff.1 h
      split at h
      · cases h
      · exact hsame h
    · obtain ⟨der, -, h⟩ := bind_eq_ok_iff.1 h
      exact hsame h

/-- The two forms of a certificate as text lose nothing of it. Octets that are read as a certificate are read as the same
one when they are armoured, and when they are written as base64 that is wrapped with spaces, tabs, line feeds, form feeds
and carriage returns in any way; more blanks of any kind may surround either form. A text that decodes to a certificate
decodes to what the octets of that certificate are read as. Two texts that do not start like armour decode to certificates
with the same octets only if they are the same without these blanks, and if only the blanks in them differ, then they decode
to the same, be it a certificate or an error. -/
theorem text_forms_round_trip :
    (∀ der c, fromDer der = .ok c → ∀ before after, isBlankText before = true → isBlankText after = true →
      decode (before ++ c.toPem ++ after) = .ok c ∧
      ∀ text, compact text = Base64.encode Base64.standard der → decode (before ++ text ++ after) = .ok c) ∧
    (∀ s c, decode s = .ok c → fromDer c.der = .ok c) ∧
    ∀ s t, ¬Armoured s → ¬Armoured t →
      (∀ c c', decode s = .ok c → decode t = .ok c' → c.der = c'.der → compact (Text.trim s) = compact (Text.trim t)) ∧
      (compact s = compact t → decode s = decode t) := by
  refine ⟨?forms, fun s c => fromDer_of_decode, fun s t hs ht => ⟨?same, ?differ⟩⟩
  case forms =>
    intro der c hc before after hbefore hafter
    exact ⟨decode_toPem hc hbefore hafter, fun text => decode_base64 hc hbefore hafter⟩
  case same =>
    intro c c' hc hc' hder
    rw [((decode_unarmoured_eq_ok_iff hs c).1 hc).1, ((decode_unarmoured_eq_ok_iff ht c').1 hc').1, hder]
  case differ =>
    intro h
    exact decode_congr hs ht (congrArg Text.trim h)

/-- A certificate without extensions, whose base64 is wrapped with a line end and a tab. -/
theorem text_forms_round_trip_wrapped :
    let der : Bytes :=
      [48, 91, 48, 78, 2, 1, 1, 48, 5, 6, 3, 42, 3, 4, 48, 0, 48, 30, 23, 13, 55, 48, 48, 49, 48, 49,
        48, 48, 48, 48, 48, 48, 90, 23, 13, 55, 48, 48, 49, 48, 50, 48, 48, 48, 48, 48, 48, 90, 48, 19, 49, 17,
        48, 15, 6, 10, 9, 146, 38, 137, 147, 242, 44, 100, 1, 1, 12, 1, 97, 48, 11, 48, 5, 6, 3, 42, 3, 4,
        3, 2, 0, 4, 48, 5, 6, 3, 42, 3, 4, 3, 2, 0, 1]
    let text :=
      "MFswTgIBATAFBgMqAwQwADAeFw03MDAxMDEwMDAwMDBaFw03MDAxMDIwMDAwMDBa\r\n\t" ++
        "MBMxETAPBgoJkiaJk/IsZAEBDAFhMAswBQYDKgMEAwIABDAFBgMqAwQDAgAB"
    compact text = Base64.encode Base64.standard der ∧ ∃ c, fromDer der = .ok c ∧
      decode ("\u2003" ++ c.toPem ++ " \n") = .ok c ∧ decode ("\u2003" ++ text ++ " \n") = .ok c ∧
      fromDer c.der = .ok c := by
  intro der text
  have hcompact : compact text = Base64.encode Base64.standard der := by decide +kernel
  have hread : (fromDer der).toOption.isSome = true := by decide +kernel
  obtain ⟨c, hc⟩ : ∃ c, fromDer der = .ok c := by
    revert hread
    cases fromDer der with
    | ok c => exact fun _ => ⟨c, rfl⟩
    | error e => exact fun h => nomatch h
  obtain ⟨hforms, hoctets, -⟩ := text_forms_round_trip
  obtain ⟨harmour, hsymbols⟩ := hforms der c hc "\u2003" " \n" (by decide) (by decide)
  have htext := hsymbols text hcompact
  exact ⟨hcompact, c, hc, harmour, htext, hoctets _ c htext⟩

end Certificate

end ClientAuth
