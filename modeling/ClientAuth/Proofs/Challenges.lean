import ClientAuth.Challenge
import Mathlib.Data.List.Forall2
import Mathlib.Data.Option.Basic

/-!
# What makes no difference to a challenge, and what can only make one

A rule looks for one value of one header (`Rule.acceptsHeaders_iff`). So a response that is a challenge stays one when
there is more of it or when more statuses count (`Rule.decide_mono`), and nothing changes when letters of the scheme or
of the first word of a value change their case (`Rule.decide_recased`). All that is told of a rule is put together in
`Challenge.detection_monotone`, with what is answered for a response that is still being received.
-/

namespace ClientAuth

namespace Text

/-- Only the letters from `A` to `Z` are changed by taking a character in lower case. -/
theorem toNat_toLower (c : Char) :
    c.toLower.toNat = if 65 ≤ c.toNat ∧ c.toNat ≤ 90 then c.toNat + 32 else c.toNat := by
  have hupper : c.val ≥ 'A'.val ∧ c.val ≤ 'Z'.val ↔ 65 ≤ c.toNat ∧ c.toNat ≤ 90 := Iff.rfl
  unfold Char.toLower
  split
  · rename_i h
    rw [if_pos (hupper.1 h), Char.toNat, UInt32.toNat_add]
    obtain ⟨-, hhigh⟩ := hupper.1 h
    exact Nat.mod_eq_of_lt (by change c.toNat + 32 < 2 ^ 32; omega)
  · rename_i h
    rw [if_neg (fun hc => h (hupper.2 hc))]

/-- Only the letters from `a` to `z` are changed by taking a character in upper case. -/
theorem toNat_toUpper (c : Char) :
    c.toUpper.toNat = if 97 ≤ c.toNat ∧ c.toNat ≤ 122 then c.toNat - 32 else c.toNat := by
  have hlower : 'a'.val ≤ c.val ∧ c.val ≤ 'z'.val ↔ 97 ≤ c.toNat ∧ c.toNat ≤ 122 := Iff.rfl
  unfold Char.toUpper
  split
  · rename_i h
    rw [if_pos (hlower.1 h), Char.toNat, UInt32.toNat_add]
    obtain ⟨hlow, hhigh⟩ := hlower.1 h
    change (c.toNat + 4294967264) % 2 ^ 32 = c.toNat - 32
    omega
  · rename_i h
    rw [if_neg (fun hc => h (hlower.2 hc))]

/-- A character, itself or in lower or upper case. -/
def Cased (c c' : Char) : Prop := c' = c ∨ c' = c.toLower ∨ c' = c.toUpper

/-- The case of a letter is lost in lower case. -/
theorem Cased.toLower_eq {c c' : Char} (h : Cased c c') : c.toLower = c'.toLower := by
  have hlower : c.toLower.toNat = _ := toNat_toLower c
  have hupper : c.toUpper.toNat = _ := toNat_toUpper c
  rw [← Char.toNat_inj]
  rcases h with rfl | rfl | rfl
  · rfl
  · rw [toNat_toLower c.toLower, hlower]
    split_ifs <;> omega
  · rw [toNat_toLower c.toUpper, hlower, hupper]
    split_ifs <;> omega

/-- The case of a letter has no part in whether a character is blank. -/
theorem Cased.isBlank_eq {c c' : Char} (h : Cased c c') : isBlank c = isBlank c' := by
  have hlower : ∀ d : Char, isBlank d.toLower = isBlank d := by
    intro d
    by_cases hd : 65 ≤ d.toNat ∧ d.toNat ≤ 90
    · have hshift : d.toLower.toNat = d.toNat + 32 := (toNat_toLower d).trans (if_pos hd)
      simp only [isBlank, hshift]
      rw [Bool.eq_iff_iff]
      simp only [Bool.or_eq_true, Bool.and_eq_true, decide_eq_true_eq, beq_iff_eq]
      omega
    · have hsame : d.toLower = d := Char.toNat_inj.1 ((toNat_toLower d).trans (if_neg hd))
      rw [hsame]
  rw [← hlower c, h.toLower_eq, hlower c']

/-- The first word of a text is what stands between the blanks before it and the first blank behind it. -/
theorem firstWord?_append {before word after : List Char} (hbefore : ∀ c ∈ before, isBlank c = true)
    (hword : ∀ c ∈ word, isBlank c = false) (hne : word ≠ []) (hafter : ∀ c ∈ after.head?, isBlank c = true) :
    firstWord? (before ++ word ++ after) = some word := by
  obtain ⟨c, rest, rfl⟩ := List.exists_cons_of_ne_nil hne
  have hrest : (after.takeWhile (!isBlank ·)) = [] := by
    cases after with
    | nil => rfl
    | cons a after => rw [List.takeWhile_cons_of_neg (by simp [hafter a rfl])]
  have hwhole : ((c :: rest) ++ after).takeWhile (!isBlank ·) = c :: rest := by
    rw [List.takeWhile_append_of_pos (by simpa using hword), hrest, List.append_nil]
  have hdrop : (before ++ (c :: rest) ++ after).dropWhile isBlank = c :: (rest ++ after) := by
    rw [List.append_assoc, List.dropWhile_append_of_pos hbefore, List.cons_append]
    exact List.dropWhile_cons_of_neg (by simp [hword c])
  unfold firstWord?
  rw [hdrop]
  exact congrArg some hwhole

end Text

namespace Headers

/-- A response with more in its headers: each header that was there has its values in front of any further ones, and
there may be further headers. -/
def Extends (h h' : Headers) : Prop :=
  ∀ name values, h.get? name = some values → ∃ more, h'.get? name = some (values ++ more)

/-- Further headers. -/
theorem extends_append (h more : Headers) : h.Extends (h ++ more) := by
  intro name values hvalues
  refine ⟨[], ?_⟩
  rw [get?, List.lookup_append, ← get?, hvalues, List.append_nil]
  rfl

/-- Further values of a header. -/
theorem extends_map (h : Headers) (name : String) (more : List String) :
    h.Extends (h.map fun header => if header.1 = name then (header.1, header.2 ++ more) else header) := by
  intro other values hvalues
  induction h with
  | nil => cases hvalues
  | cons header h ih =>
    obtain ⟨first, firstValues⟩ := header
    rw [get?, List.lookup_cons] at hvalues
    rw [get?, List.map_cons, List.lookup_cons]
    by_cases hname : other = first
    · subst hname
      rw [beq_self_eq_true] at hvalues
      obtain rfl : firstValues = values := Option.some.inj hvalues
      by_cases hmore : other = name
      · simp [hmore]
      · simp [hmore]
    · have hfirst : (other == first) = false := beq_eq_false_iff_ne.2 hname
      rw [hfirst] at hvalues
      have hkey : (if first = name then (first, firstValues ++ more) else (first, firstValues)).1 = first := by
        split <;> rfl
      rw [hkey, hfirst]
      exact ih hvalues

end Headers

namespace Challenge

/-- A value with letters of its first word in another case: the blanks before the word and all that follows it are the
same. -/
def Recased (value value' : String) : Prop :=
  ∃ before word word' after, value.toList = before ++ word ++ after ∧ value'.toList = before ++ word' ++ after ∧
    (∀ c ∈ before, Text.isBlank c = true) ∧ (∀ c ∈ word, Text.isBlank c = false) ∧
    (∀ c ∈ after.head?, Text.isBlank c = true) ∧ List.Forall₂ Text.Cased word word'

/-- Headers with letters of the first words of their values in another case. -/
def RecasedHeaders (h h' : Headers) : Prop :=
  ∀ name, Option.Rel (List.Forall₂ Recased) (h.get? name) (h'.get? name)

/-- Headers of one name are in other letters if its values are. -/
theorem RecasedHeaders.singleton {name : String} {values values' : List String} (h : List.Forall₂ Recased values values') :
    RecasedHeaders [(name, values)] [(name, values')] := by
  intro n
  by_cases hn : n = name
  · subst hn
    simp only [Headers.get?, List.lookup_cons_self]
    exact .some h
  · have hother : (n == name) = false := beq_eq_false_iff_ne.2 hn
    simp only [Headers.get?, List.lookup_cons, hother, List.lookup_nil]
    exact .none

/-- A scheme with letters in another case, or none in both cases. -/
def RecasedScheme (scheme scheme' : Option String) : Prop :=
  Option.Rel (fun s s' => List.Forall₂ Text.Cased s.toList s'.toList) scheme scheme'

/-- In lower case texts are the same when they differ in the case of letters only. -/
theorem map_toLower_eq {s s' : List Char} (h : List.Forall₂ Text.Cased s s') :
    s.map Char.toLower = s'.map Char.toLower := by
  induction h with
  | nil => rfl
  | cons hc _ ih => rw [List.map_cons, List.map_cons, hc.toLower_eq, ih]

/-- Text in upper case is the text with letters in another case. -/
theorem cased_toUpper (s : List Char) : List.Forall₂ Text.Cased s (s.map Char.toUpper) := by
  induction s with
  | nil => exact .nil
  | cons c s ih => exact .cons (Or.inr (Or.inr rfl)) ih

/-- In another case a word has no blanks either. -/
theorem not_isBlank_of_cased {word word' : List Char} (h : List.Forall₂ Text.Cased word word')
    (hword : ∀ c ∈ word, Text.isBlank c = false) : ∀ c ∈ word', Text.isBlank c = false := by
  induction h with
  | nil => exact hword
  | cons hc _ ih =>
    rw [List.forall_mem_cons] at hword ⊢
    exact ⟨hc.isBlank_eq ▸ hword.1, ih hword.2⟩

/-- Whether a value announces a scheme has nothing to do with the case of letters in the scheme or in the first word of
the value. -/
theorem announces_congr {scheme scheme' value value' : String}
    (hscheme : List.Forall₂ Text.Cased scheme.toList scheme'.toList) (hvalue : Recased value value') :
    announces scheme value = announces scheme' value' := by
  obtain ⟨before, word, word', after, hv, hv', hbefore, hword, hafter, hcased⟩ := hvalue
  unfold announces
  rw [hv, hv']
  by_cases hne : word = []
  · -- There is no first word here, or it comes later and is the same in both values.
    subst hne
    cases hcased
    simp only [sameIgnoringCase, map_toLower_eq hscheme]
  · have hne' : word' ≠ [] := by
      rintro rfl
      cases hcased
      exact hne rfl
    rw [Text.firstWord?_append hbefore hword hne hafter,
      Text.firstWord?_append hbefore (not_isBlank_of_cased hcased hword) hne' hafter]
    simp only [sameIgnoringCase, map_toLower_eq hscheme, map_toLower_eq hcased]

namespace Rule

variable {r : Rule} {status : UInt16} {headers headers' : Headers}

/-- A value that is a challenge to a rule: it announces the scheme, if the rule has one. -/
def Takes (r : Rule) (value : String) : Prop := ∀ scheme, r.scheme = some scheme → announces scheme value = true

/-- The values of the challenge header make a challenge if one of them does. -/
theorem acceptsValues_iff {values : List String} :
    r.acceptsValues values = true ↔ ∃ value ∈ values, r.Takes value := by
  unfold acceptsValues Takes
  cases r.scheme with
  | none => simp [List.eq_nil_iff_forall_not_mem]
  | some scheme => simp

/-- The headers carry a challenge if the header of that very name has a value that is one. -/
theorem acceptsHeaders_iff :
    r.acceptsHeaders headers = true ↔ ∃ name values value, r.header = some name ∧ headers.get? name = some values ∧
      value ∈ values ∧ r.Takes value := by
  unfold acceptsHeaders
  cases r.header with
  | none => simp
  | some name =>
    cases hvalues : headers.get? name with
    | none => simp [hvalues]
    | some values => simp [hvalues, acceptsValues_iff]

/-- A response is a challenge by its status and its headers, or by one of the two where the header is not required. -/
theorem decide_iff :
    r.decide status headers = true ↔
      (status ∈ r.statuses ∧ r.acceptsHeaders headers = true) ∨
        r.requireHeader = false ∧ (status ∈ r.statuses ∨ r.acceptsHeaders headers = true) := by
  unfold Rule.decide
  cases r.requireHeader with
  | true => simp
  | false =>
    simp only [Bool.false_eq_true, if_false, Bool.or_eq_true, List.contains_iff_mem, true_and]
    exact ⟨Or.inr, fun h => h.elim (fun both => Or.inl both.1) id⟩

/-- Headers that carry a challenge still do when there is more in them. -/
theorem acceptsHeaders_mono (hheaders : headers.Extends headers') (h : r.acceptsHeaders headers = true) :
    r.acceptsHeaders headers' = true := by
  obtain ⟨name, values, value, hname, hvalues, hvalue, htakes⟩ := acceptsHeaders_iff.1 h
  obtain ⟨more, hmore⟩ := hheaders name values hvalues
  exact acceptsHeaders_iff.2 ⟨name, values ++ more, value, hname, hmore, List.mem_append_left _ hvalue, htakes⟩

/-- A challenge stays one when more statuses count and there is more in the headers. -/
theorem decide_mono {statuses : List UInt16} (hstatuses : r.statuses ⊆ statuses) (hheaders : headers.Extends headers')
    (h : r.decide status headers = true) : { r with statuses }.decide status headers' = true := by
  have haccepts : r.acceptsHeaders headers = true → { r with statuses }.acceptsHeaders headers' = true :=
    acceptsHeaders_mono (r := { r with statuses }) hheaders
  rw [decide_iff] at h ⊢
  rcases h with ⟨hstatus, hcarries⟩ | ⟨hlenient, hstatus | hcarries⟩
  · exact Or.inl ⟨hstatuses hstatus, haccepts hcarries⟩
  · exact Or.inr ⟨hlenient, Or.inl (hstatuses hstatus)⟩
  · exact Or.inr ⟨hlenient, Or.inr (haccepts hcarries)⟩

/-- What is a challenge when the header is required is one when it is not. -/
theorem decide_lenient (h : { r with requireHeader := true }.decide status headers = true) :
    { r with requireHeader := false }.decide status headers = true := by
  rw [decide_iff] at h ⊢
  rcases h with hboth | ⟨hlenient, -⟩
  · exact Or.inl hboth
  · cases hlenient

/-- Values whose first words are in another case make a challenge alike, for a scheme in another case. -/
theorem acceptsValues_recased {scheme : Option String} (hscheme : RecasedScheme r.scheme scheme)
    {values values' : List String} (hvalues : List.Forall₂ Recased values values') :
    r.acceptsValues values = { r with scheme }.acceptsValues values' := by
  unfold acceptsValues
  simp only
  generalize r.scheme = announced at hscheme
  cases hscheme with
  | none => cases hvalues <;> rfl
  | some hsame =>
    simp only
    induction hvalues with
    | nil => rfl
    | cons hvalue _ ih => rw [List.any_cons, List.any_cons, announces_congr hsame hvalue, ih]

/-- Headers whose values have their first words in another case carry a challenge alike, for a scheme in another case.
-/
theorem acceptsHeaders_recased {scheme : Option String} (hscheme : RecasedScheme r.scheme scheme)
    (hheaders : RecasedHeaders headers headers') :
    r.acceptsHeaders headers = { r with scheme }.acceptsHeaders headers' := by
  unfold acceptsHeaders
  simp only
  cases r.header with
  | none => rfl
  | some name =>
    have hvalues := hheaders name
    simp only
    generalize headers.get? name = found at hvalues
    generalize headers'.get? name = found' at hvalues
    cases hvalues with
    | none => rfl
    | some hrecased => exact acceptsValues_recased hscheme hrecased

/-- The case of letters in the scheme and in the first words of the values has no part in the decision. -/
theorem decide_recased {scheme : Option String} (hscheme : RecasedScheme r.scheme scheme)
    (hheaders : RecasedHeaders headers headers') :
    r.decide status headers = { r with scheme }.decide status headers' := by
  unfold Rule.decide
  rw [acceptsHeaders_recased hscheme hheaders]

/-- Only the header of the very name that the rule knows has a part in the decision. -/
theorem decide_of_get? (h : ∀ name, r.header = some name → headers.get? name = headers'.get? name) :
    r.decide status headers = r.decide status headers' := by
  have haccepts : r.acceptsHeaders headers = r.acceptsHeaders headers' := by
    unfold acceptsHeaders
    cases hname : r.header with
    | none => rfl
    | some name => simp only [h name hname]
  unfold Rule.decide
  rw [haccepts]

end Rule

/-- What is answered for a response that is still being received: the decision if its status and its headers can be
read. -/
theorem Detector.decideOn_eq_ok_iff {d : Detector} {response : LiveResponse} {answer : Bool} :
    d.decideOn response = .ok answer ↔
      ∃ status headers, response.status = .ok status ∧ response.headers = .ok headers ∧
        answer = d.decide status headers := by
  unfold decideOn
  cases response.status with
  | error e => simp
  | ok status =>
    cases response.headers with
    | error e => simp
    | ok headers => simp [eq_comm]

/-- The failure that is told is that of the status, and that of the headers only when the status could be read. -/
theorem Detector.decideOn_eq_error_iff {d : Detector} {response : LiveResponse} {e : IoError} :
    d.decideOn response = .error e ↔
      response.status = .error e ∨ ∃ status, response.status = .ok status ∧ response.headers = .error e := by
  unfold decideOn
  cases response.status with
  | error e => simp
  | ok status =>
    cases response.headers with
    | error e => simp
    | ok headers => simp

/-- Challenge detection is monotone, and its forms agree. A challenge stays one when there are further headers, when
headers have further values, and when further statuses count. What is a challenge when the header is required is one
when it is not. The case of letters in the scheme and in the first words of values never makes a difference, and neither
do headers of other names than the very one that the rule knows. For a response that is still being received the answer
is the decision if both its status and its headers can be read, and else the first failure to read, that of the status
before that of the headers; this is so of every detector. -/
theorem detection_monotone (r : Rule) (status : UInt16) (headers headers' : Headers) :
    (∀ statuses, r.statuses ⊆ statuses → headers.Extends headers' → r.decide status headers = true →
      { r with statuses }.decide status headers' = true) ∧
    ({ r with requireHeader := true }.decide status headers = true →
      { r with requireHeader := false }.decide status headers = true) ∧
    (∀ scheme, RecasedScheme r.scheme scheme → RecasedHeaders headers headers' →
      r.decide status headers = { r with scheme }.decide status headers') ∧
    ((∀ name, r.header = some name → headers.get? name = headers'.get? name) →
      r.decide status headers = r.decide status headers') ∧
    ∀ (d : Detector) (response : LiveResponse),
      (∀ answer, d.decideOn response = .ok answer ↔ ∃ status headers, response.status = .ok status ∧
        response.headers = .ok headers ∧ answer = d.decide status headers) ∧
      ∀ e, d.decideOn response = .error e ↔
        response.status = .error e ∨ ∃ status, response.status = .ok status ∧ response.headers = .error e :=
  ⟨fun _ hstatuses hheaders h => Rule.decide_mono hstatuses hheaders h, Rule.decide_lenient,
    fun _ hscheme hheaders => Rule.decide_recased hscheme hheaders, Rule.decide_of_get?,
    fun _ _ => ⟨fun _ => Detector.decideOn_eq_ok_iff, fun _ => Detector.decideOn_eq_error_iff⟩⟩

/-- A rule that wants both the status 401 and a challenge for the scheme `Bearer`. -/
def bearerRule : Rule := { scheme := some "Bearer", requireHeader := true }

/-- Headers that carry a challenge for `Bearer` behind one for another scheme. -/
def bearerHeaders : Headers := [(wwwAuthenticate, ["Basic", "Bearer realm"])]

/-- A challenge for `Bearer` is still one when it is followed by another challenge or by another header and a further
status counts, when the header is not required, in other letters, and behind another header. -/
theorem detection_monotone_bearer :
    bearerRule.decide 401 bearerHeaders = true ∧
      { bearerRule with statuses := [401, 407] }.decide 401
        (bearerHeaders.map fun header : String × List String =>
          if header.1 = wwwAuthenticate then (header.1, header.2 ++ ["Digest"]) else header) = true ∧
      { bearerRule with statuses := [401, 407] }.decide 401 (bearerHeaders ++ [("Vary", ["*"])]) = true ∧
      { bearerRule with requireHeader := false }.decide 401 bearerHeaders = true ∧
      { bearerRule with scheme := some "BEARER" }.decide 401 [(wwwAuthenticate, ["BASIC", "BEARER realm"])] = true ∧
      bearerRule.decide 401 [("Vary", ["Bearer"]), (wwwAuthenticate, ["Basic", "Bearer realm"])] = true ∧
      (Detector.byRule bearerRule).decideOn { status := .ok 401, headers := .ok bearerHeaders } = .ok true ∧
      { bearerRule with scheme := some "BEARER" }.decide 401 [(wwwAuthenticate, ["BASIC"])] = false ∧
      bearerRule.decide 401 [("Vary", ["Bearer"])] = false ∧
      (Detector.byRule bearerRule).decideOn { status := .ok 200, headers := .ok bearerHeaders } = .ok false ∧
      (Detector.byRule bearerRule).decideOn
        { status := .error ⟨"TimedOut", none⟩, headers := .error ⟨"UnexpectedEof", none⟩ } =
        .error ⟨"TimedOut", none⟩ := by
  have hchallenge : bearerRule.decide 401 bearerHeaders = true := by decide
  have hstatuses : bearerRule.statuses ⊆ [401, 407] := by decide
  have hscheme : RecasedScheme bearerRule.scheme (some "BEARER") := .some (cased_toUpper "Bearer".toList)
  have hvisible : ∀ word : List Char, (word.all fun c => !Text.isBlank c) = true →
      ∀ c ∈ word, Text.isBlank c = false := by
    intro word hword c hc
    simpa using List.all_eq_true.1 hword c hc
  have hbasic : Recased "Basic" "BASIC" :=
    ⟨[], "Basic".toList, "BASIC".toList, [], rfl, rfl, List.forall_mem_nil _, hvisible _ (by decide), nofun,
      cased_toUpper "Basic".toList⟩
  have hbearer : Recased "Bearer realm" "BEARER realm" :=
    ⟨[], "Bearer".toList, "BEARER".toList, " realm".toList, rfl, rfl, List.forall_mem_nil _, hvisible _ (by decide),
      fun c hc => by cases hc; rfl, cased_toUpper "Bearer".toList⟩
  have hheaders : RecasedHeaders bearerHeaders [(wwwAuthenticate, ["BASIC", "BEARER realm"])] :=
    RecasedHeaders.singleton (.cons hbasic (.cons hbearer .nil))
  have hget : ∀ name, bearerRule.header = some name → bearerHeaders.get? name =
      Headers.get? [("Vary", ["Bearer"]), (wwwAuthenticate, ["Basic", "Bearer realm"])] name := by
    rintro name ⟨rfl⟩
    decide
  have hbasics : RecasedHeaders [(wwwAuthenticate, ["Basic"])] [(wwwAuthenticate, ["BASIC"])] :=
    RecasedHeaders.singleton (.cons hbasic .nil)
  have hvary : ∀ name, bearerRule.header = some name →
      Headers.get? [] name = Headers.get? [("Vary", ["Bearer"])] name := by
    rintro name ⟨rfl⟩
    decide
  refine ⟨hchallenge, ?_, ?_, ?_, ?_, ?_, ?_, ?_, ?_, ?_, ?_⟩
  · exact (detection_monotone bearerRule 401 bearerHeaders _).1 _ hstatuses (Headers.extends_map _ _ _) hchallenge
  · exact (detection_monotone bearerRule 401 bearerHeaders _).1 _ hstatuses (Headers.extends_append _ _) hchallenge
  · exact (detection_monotone bearerRule 401 bearerHeaders []).2.1 hchallenge
  · exact ((detection_monotone bearerRule 401 bearerHeaders _).2.2.1 _ hscheme hheaders).symm.trans hchallenge
  · exact ((detection_monotone bearerRule 401 bearerHeaders _).2.2.2.1 hget).symm.trans hchallenge
  · exact (((detection_monotone bearerRule 401 bearerHeaders []).2.2.2.2 _ _).1 _).2 ⟨401, bearerHeaders, rfl, rfl, rfl⟩
  · have hnone : bearerRule.decide 401 [(wwwAuthenticate, ["Basic"])] = false := by decide
    exact ((detection_monotone bearerRule 401 _ _).2.2.1 _ hscheme hbasics).symm.trans hnone
  · have hnone : bearerRule.decide 401 [] = false := by decide
    exact ((detection_monotone bearerRule 401 _ _).2.2.2.1 hvary).symm.trans hnone
  · exact (((detection_monotone bearerRule 401 bearerHeaders []).2.2.2.2 _ _).1 _).2
      ⟨200, bearerHeaders, rfl, rfl, by decide⟩
  · exact (((detection_monotone bearerRule 401 bearerHeaders []).2.2.2.2 _ _).2 _).2 (Or.inl rfl)

end Challenge

end ClientAuth
