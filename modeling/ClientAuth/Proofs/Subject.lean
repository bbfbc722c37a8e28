import ClientAuth.Certificate.Basic
import Mathlib.Data.List.DropRight
import Mathlib.Data.List.Basic

/-!
# What a subject's text says about its fields

The client identifier is not read from the fields of a subject but from the text that renders them, cut again at its
commas. `Certificate.clientId_eq` says what that finds: an identifying field is read up to the first comma of its
value only, and whatever stands between two commas of any value, and looks like an identifying attribute, is taken for
one. So the identifier is that of the first or last identifying field if no value has such a stretch (`Unforged`), and
a value that has one can put any identifier before that field's (`Certificate.clientId_forged`).
-/

namespace ClientAuth

namespace Text

/-- The first piece reaches up to the first separator. -/
theorem pieces_eq_cons (sep : Char) (s : List Char) :
    pieces sep s = s.takeWhile (· ≠ sep) :: (pieces sep s).tail := by
  induction s with
  | nil => rfl
  | cons c rest ih =>
    by_cases hc : c = sep
    · simp [pieces, hc]
    · rw [pieces, if_neg hc, ih]
      simp [hc]

/-- A text without a separator only makes the first piece longer. -/
theorem pieces_append_of_not_mem {sep : Char} {u : List Char} (hu : sep ∉ u) (s : List Char) :
    pieces sep (u ++ s) = (u ++ s.takeWhile (· ≠ sep)) :: (pieces sep s).tail := by
  induction u with
  | nil => exact pieces_eq_cons sep s
  | cons c u ih =>
    have hc : c ≠ sep := fun h => hu (by simp [h])
    have hrest : sep ∉ u := fun h => hu (List.mem_cons_of_mem _ h)
    rw [List.cons_append, pieces, if_neg hc, ih hrest]
    rfl

/-- A text without a separator is one piece. -/
theorem pieces_of_not_mem {sep : Char} {s : List Char} (hs : sep ∉ s) : pieces sep s = [s] := by
  have h := pieces_append_of_not_mem hs []
  rw [List.append_nil] at h
  rw [h]
  simp [pieces]

/-- The pieces of two texts with a separator between them are those of the one and those of the other. -/
theorem pieces_append_sep (sep : Char) (s t : List Char) :
    pieces sep (s ++ sep :: t) = pieces sep s ++ pieces sep t := by
  induction s with
  | nil => simp [pieces]
  | cons c s ih =>
    by_cases hc : c = sep
    · rw [List.cons_append, pieces, if_pos hc, ih, pieces, if_pos hc, List.cons_append]
    · rw [List.cons_append, pieces, if_neg hc, ih, pieces, if_neg hc]
      cases hp : pieces sep s with
      | nil => exact absurd hp (pieces_ne_nil sep s)
      | cons p ps => rfl

/-- A text is cut at the first separator. -/
theorem cutAt?_append {sep : Char} {u : List Char} (hu : sep ∉ u) (s : List Char) :
    cutAt? sep (u ++ sep :: s) = some (u, s) := by
  induction u with
  | nil => simp [cutAt?]
  | cons c u ih =>
    have hc : c ≠ sep := fun h => hu (by simp [h])
    have hrest : sep ∉ u := fun h => hu (List.mem_cons_of_mem _ h)
    rw [List.cons_append, cutAt?, if_neg hc, ih hrest]
    rfl

/-- A text that is cut is what stands before the separator, the separator, and what stands behind it. -/
theorem eq_of_cutAt? {sep : Char} {s u v : List Char} (h : cutAt? sep s = some (u, v)) : s = u ++ sep :: v := by
  induction s generalizing u with
  | nil => cases h
  | cons c s ih =>
    unfold cutAt? at h
    split at h
    · rename_i hc
      cases h
      rw [hc, List.nil_append]
    · cases hcut : cutAt? sep s with
      | none =>
        rw [hcut] at h
        cases h
      | some cut =>
        rw [hcut] at h
        cases h
        rw [List.cons_append, ← ih hcut]

/-- A text without the blanks that it ends with does not end with a blank. -/
theorem isBlank_of_trimEnd {s u : List Char} {c : Char} (h : trimEnd s = u ++ [c]) : isBlank c = false := by
  have hreverse : s.reverse.dropWhile isBlank = c :: u.reverse := by
    unfold trimEnd at h
    rw [← List.reverse_inj, h, List.reverse_cons, List.reverse_reverse]
  have hhead := List.head_dropWhile_not isBlank (l := s.reverse) (by simp [hreverse])
  simpa only [hreverse, List.head_cons] using hhead

/-- Trimming the end of a text takes characters off, and adds none. -/
theorem trimEnd_subset (s : List Char) : trimEnd s ⊆ s := by
  intro c hc
  rw [trimEnd, List.mem_reverse] at hc
  exact List.mem_reverse.1 ((List.dropWhile_suffix isBlank).subset hc)

/-- Trimming takes characters off, and adds none. -/
theorem trimChars_subset (s : List Char) : trimChars s ⊆ s :=
  fun _ hc => (List.dropWhile_suffix isBlank).subset (trimEnd_subset _ hc)

/-- Trimming the end of a text stops at a character that is not blank. -/
theorem trimEnd_append_cons (u : List Char) {c : Char} (hc : isBlank c = false) (s : List Char) :
    trimEnd (u ++ c :: s) = u ++ c :: trimEnd s := by
  unfold trimEnd
  rw [List.reverse_append, List.reverse_cons, List.append_assoc, List.dropWhile_append]
  by_cases hs : (s.reverse.dropWhile isBlank).isEmpty = true
  · have hnil : s.reverse.dropWhile isBlank = [] := List.isEmpty_iff.1 hs
    simp [hnil, hc]
  · simp [hs]

/-- A blank before a text is trimmed. -/
theorem trimChars_cons_of_isBlank {b : Char} (hb : isBlank b = true) (s : List Char) :
    trimChars (b :: s) = trimChars s := by
  rw [trimChars, List.dropWhile_cons_of_pos hb, trimChars]

/-- A text that does not start with a blank is only trimmed at its end. -/
theorem trimChars_cons_of_not_isBlank {c : Char} (hc : isBlank c = false) (s : List Char) :
    trimChars (c :: s) = trimEnd (c :: s) := by
  rw [trimChars, List.dropWhile_cons_of_neg (by simp [hc])]

/-- On either side of a character that is not blank a text is trimmed on its own. -/
theorem trimChars_append_cons (u : List Char) {c : Char} (hc : isBlank c = false) (s : List Char) :
    trimChars (u ++ c :: s) = u.dropWhile isBlank ++ c :: trimEnd s := by
  rw [trimChars, List.dropWhile_append]
  by_cases hu : (u.dropWhile isBlank).isEmpty = true
  · rw [if_pos hu, List.isEmpty_iff.1 hu, List.dropWhile_cons_of_neg (by simp [hc])]
    exact trimEnd_append_cons [] hc s
  · rw [if_neg hu, trimEnd_append_cons _ hc]

/-- A word occurs in a text if it is a stretch of it. -/
theorem mentions_iff (word s : List Char) : mentions word s = true ↔ word <:+: s := by
  induction s with
  | nil => rw [mentions, List.isEmpty_iff, List.infix_nil]
  | cons c s ih => rw [mentions, Bool.or_eq_true, List.isPrefixOf_iff_prefix, ih, List.infix_cons_iff]

/-- A word occurs in no text that lacks its first character. -/
theorem mentions_eq_false {c : Char} {word s : List Char} (h : c ∉ s) : mentions (c :: word) s = false := by
  rw [Bool.eq_false_iff, Ne, mentions_iff]
  exact fun hin => h (hin.subset List.mem_cons_self)

/-- Blanks at the start of a text are no part of a word that starts with another character. -/
theorem infix_dropWhile_isBlank {c : Char} (hc : isBlank c = false) (word s : List Char) :
    c :: word <:+: s.dropWhile isBlank ↔ c :: word <:+: s := by
  induction s with
  | nil => rfl
  | cons b s ih =>
    cases hb : isBlank b with
    | false => rw [List.dropWhile_cons_of_neg (by simp [hb])]
    | true =>
      -- A stretch that starts at the blank has another first character.
      have hhead : ¬c :: word <+: b :: s := by
        intro h
        rw [List.cons_prefix_cons] at h
        rw [h.1, hb] at hc
        cases hc
      rw [List.dropWhile_cons_of_pos hb, ih, List.infix_cons_iff, or_iff_right hhead]

end Text

/-- Choosing among the images of candidates is choosing among the candidates. -/
theorem UidSelection.choose_map {α β : Type} (selection : UidSelection) (f : α → β) (l : List α) :
    selection.choose (l.map f) = (selection.choose l).map f := by
  cases selection with
  | first => exact List.head?_map
  | last => exact List.getLast?_map

namespace ClientId

/-- Whether a field is an identifying one: its key mentions the marker. -/
def identifies (field : String × String) : Bool := Text.mentions marker field.1.toList

/-- What is read of the value of an identifying field: the text before its first comma, without the blanks that it ends
with. -/
def legible (value : String) : List Char := Text.trimEnd (value.toList.takeWhile (· ≠ ','))

/-- The identifiers in a value that stand behind one of its commas and are taken for attributes of their own. -/
def smuggled (value : String) : List (List Char) := (Text.pieces ',' value.toList).tail.filterMap ofAttribute?

/-- All identifiers that are found in the text of a field. -/
def carried (field : String × String) : List (List Char) :=
  (if identifies field then [legible field.2] else []) ++ smuggled field.2

/-- A key that neither a comma nor an equals sign nor a blank can be taken for a part of. -/
def Plain (key : String) : Prop := ∀ c ∈ key.toList, c ≠ ',' ∧ c ≠ '=' ∧ Text.isBlank c = false

instance (key : String) : Decidable (Plain key) := List.decidableBAll _ _

/-- No value of some fields has an identifier behind a comma, and no value of an identifying one has a comma. -/
structure Unforged (fields : List (String × String)) : Prop where
  behind : ∀ f ∈ fields, smuggled f.2 = []
  whole : ∀ f ∈ fields, identifies f = true → ',' ∉ f.2.toList

/-- An attribute is read as what stands before its first equals sign, and its value without the blanks that it ends
with. -/
theorem ofAttribute?_append_cons {key : List Char} (hkey : '=' ∉ key) (value : List Char) :
    ofAttribute? (key ++ '=' :: value) = if Text.mentions marker key then some (Text.trimEnd value) else none := by
  have hkept : '=' ∉ key.dropWhile Text.isBlank := fun h => hkey ((List.dropWhile_suffix _).subset h)
  have hmarker : Text.mentions marker (key.dropWhile Text.isBlank) = Text.mentions marker key := by
    rw [Bool.eq_iff_iff, Text.mentions_iff, Text.mentions_iff]
    exact Text.infix_dropWhile_isBlank (by decide) _ _
  unfold ofAttribute?
  rw [Text.trimChars_append_cons key (by decide), Text.cutAt?_append hkept]
  simp only [hmarker]

/-- Without an equals sign there is no identifier. -/
theorem ofAttribute?_of_not_mem {piece : List Char} (h : '=' ∉ piece) : ofAttribute? piece = none := by
  unfold ofAttribute?
  cases hcut : Text.cutAt? '=' (Text.trimChars piece) with
  | none => rfl
  | some cut =>
    have hmem : '=' ∈ Text.trimChars piece := by
      rw [Text.eq_of_cutAt? hcut]
      exact List.mem_append_right _ List.mem_cons_self
    exact absurd (Text.trimChars_subset piece hmem) h

/-- An attribute carries an identifier exactly if it matches; the identifier is its value without the blanks that it ends
with. -/
theorem ofAttribute?_eq_some_iff {piece value : List Char} :
    ofAttribute? piece = some value ↔
      ∃ key whole, piece = key ++ '=' :: whole ∧ '=' ∉ key ∧ marker <:+: key ∧ value = Text.trimEnd whole := by
  constructor
  · intro h
    have hmem : '=' ∈ piece := by
      by_contra hnot
      rw [ofAttribute?_of_not_mem hnot] at h
      cases h
    obtain ⟨key, whole, rfl, hkey⟩ := List.eq_append_cons_of_mem hmem
    rw [ofAttribute?_append_cons hkey] at h
    split at h
    · rename_i hmarker
      exact ⟨key, whole, rfl, hkey, (Text.mentions_iff _ _).1 hmarker, (Option.some.inj h).symm⟩
    · cases h
  · rintro ⟨key, whole, rfl, hkey, hmarker, rfl⟩
    rw [ofAttribute?_append_cons hkey, if_pos ((Text.mentions_iff _ _).2 hmarker)]

/-- A client identifier is empty, or the value of an attribute without the blanks that it ends with. -/
theorem ofSubject_cases (selection : UidSelection) (subject : String) :
    ofSubject selection subject = "" ∨
      ∃ key whole, key ++ '=' :: whole ∈ Text.pieces ',' subject.toList ∧
        ofSubject selection subject = String.ofList (Text.trimEnd whole) := by
  unfold ofSubject
  cases hchosen : selection.choose (candidates subject.toList) with
  | none => exact Or.inl rfl
  | some value =>
    have hmem : value ∈ candidates subject.toList := by
      cases selection with
      | first => exact List.mem_of_head? hchosen
      | last => exact List.mem_of_getLast? hchosen
    obtain ⟨piece, hpiece, hvalue⟩ := List.mem_filterMap.1 hmem
    obtain ⟨key, whole, rfl, -, -, rfl⟩ := ofAttribute?_eq_some_iff.1 hvalue
    exact Or.inr ⟨key, whole, hpiece, rfl⟩

/-- A client identifier has no comma. -/
theorem comma_not_mem_ofSubject (selection : UidSelection) (subject : String) :
    ',' ∉ (ofSubject selection subject).toList := by
  obtain hempty | ⟨key, whole, hpiece, hwhole⟩ := ofSubject_cases selection subject
  · rw [hempty]
    exact List.not_mem_nil
  · rw [hwhole, String.toList_ofList]
    intro hcomma
    refine Text.not_mem_of_mem_pieces hpiece (List.mem_append_right key (List.mem_cons_of_mem _ ?_))
    exact Text.trimEnd_subset whole hcomma

/-- A client identifier does not end with a blank. -/
theorem isBlank_of_ofSubject {selection : UidSelection} {subject : String} {c : Char}
    (hc : (ofSubject selection subject).toList.getLast? = some c) : Text.isBlank c = false := by
  obtain hempty | ⟨key, whole, -, hwhole⟩ := ofSubject_cases selection subject
  · rw [hempty] at hc
    cases hc
  · rw [hwhole, String.toList_ofList] at hc
    obtain ⟨u, hu⟩ := List.getLast?_eq_some_iff.1 hc
    exact Text.isBlank_of_trimEnd hu

/-- A client identifier has no comma, and unless it is empty it has a character that is not blank. -/
theorem ofSubject_legible (selection : UidSelection) (subject : String) :
    ',' ∉ (ofSubject selection subject).toList ∧
      (ofSubject selection subject ≠ "" → ∃ c ∈ (ofSubject selection subject).toList, Text.isBlank c = false) := by
  refine ⟨comma_not_mem_ofSubject selection subject, fun hne => ?_⟩
  have hlast : (ofSubject selection subject).toList ≠ [] := fun hnil => hne (String.toList_eq_nil_iff.1 hnil)
  exact ⟨_, List.getLast_mem hlast, isBlank_of_ofSubject (List.getLast?_eq_some_getLast hlast)⟩

/-- An attribute with a blank before it carries the same identifier. -/
theorem ofAttribute?_cons_of_isBlank {b : Char} (hb : Text.isBlank b = true) (piece : List Char) :
    ofAttribute? (b :: piece) = ofAttribute? piece := by
  unfold ofAttribute?
  rw [Text.trimChars_cons_of_isBlank hb]

/-- A blank before a subject changes nothing. -/
theorem candidates_cons_of_isBlank {b : Char} (hb : Text.isBlank b = true) (s : List Char) :
    candidates (b :: s) = candidates s := by
  by_cases hc : b = ','
  · subst hc
    cases hb
  · unfold candidates
    have hpieces : Text.pieces ',' (b :: s) = (b :: s.takeWhile (· ≠ ',')) :: (Text.pieces ',' s).tail :=
      Text.pieces_append_of_not_mem (u := [b]) (by simpa using Ne.symm hc) s
    rw [hpieces, Text.pieces_eq_cons ',' s, List.filterMap_cons, List.filterMap_cons, List.tail_cons,
      ofAttribute?_cons_of_isBlank hb]

/-- The identifiers of two subjects with a comma between them are those of the one and those of the other. -/
theorem candidates_append (s t : List Char) : candidates (s ++ ',' :: t) = candidates s ++ candidates t := by
  unfold candidates
  rw [Text.pieces_append_sep, List.filterMap_append]

/-- Blanks before a subject change nothing. -/
theorem candidates_append_of_isBlank {blanks : List Char} (h : ∀ b ∈ blanks, Text.isBlank b = true) (s : List Char) :
    candidates (blanks ++ s) = candidates s := by
  induction blanks with
  | nil => rfl
  | cons b blanks ih =>
    obtain ⟨hb, hrest⟩ := List.forall_mem_cons.1 h
    rw [List.cons_append, candidates_cons_of_isBlank hb, ih hrest]

/-- The identifiers of subjects with a comma and some blanks between them are those of all of them. -/
theorem candidates_intercalate {blanks : List Char} (h : ∀ b ∈ blanks, Text.isBlank b = true)
    (subjects : List (List Char)) : candidates ((',' :: blanks).intercalate subjects) = subjects.flatMap candidates := by
  induction subjects with
  | nil => rfl
  | cons s rest ih =>
    cases rest with
    | nil => simp [List.intercalate]
    | cons t rest =>
      rw [List.intercalate_cons_cons, List.append_assoc, List.cons_append, candidates_append,
        candidates_append_of_isBlank h, ih, List.flatMap_cons (x := s)]

/-- In the text of a field with a plain key exactly the carried identifiers are found. -/
theorem candidates_renderField {field : String × String} (hk : Plain field.1) :
    candidates (Name.renderField field).toList = carried field := by
  have htext : (Name.renderField field).toList = (field.1.toList ++ ['=']) ++ field.2.toList := by
    have hrender : Name.renderField field = field.1 ++ "=" ++ field.2 := rfl
    rw [hrender, String.toList_append, String.toList_append]
    rfl
  have hcomma : ',' ∉ field.1.toList ++ ['='] := by
    intro h
    rcases List.mem_append.1 h with h | h
    · exact (hk _ h).1 rfl
    · revert h
      decide
  unfold candidates carried smuggled identifies
  rw [htext, Text.pieces_append_of_not_mem hcomma, List.filterMap_cons, List.append_assoc, List.singleton_append,
    ofAttribute?_append_cons fun h => (hk _ h).2.1 rfl]
  cases Text.mentions marker field.1.toList
  · rfl
  · rfl

/-- Unforged fields carry what is in the identifying ones, and that is read whole but for blanks at its end. -/
theorem Unforged.flatMap_carried {fields : List (String × String)} (h : Unforged fields) :
    fields.flatMap carried = (fields.filter identifies).map fun f => Text.trimEnd f.2.toList := by
  induction fields with
  | nil => rfl
  | cons f rest ih =>
    have hrest : Unforged rest :=
      ⟨fun g hg => h.behind g (List.mem_cons_of_mem _ hg), fun g hg => h.whole g (List.mem_cons_of_mem _ hg)⟩
    have hbehind : smuggled f.2 = [] := h.behind f List.mem_cons_self
    rw [List.flatMap_cons, ih hrest]
    by_cases hf : identifies f = true
    · have hall : f.2.toList.takeWhile (· ≠ ',') = f.2.toList := by
        rw [List.takeWhile_eq_self_iff]
        intro c hc
        have hne : c ≠ ',' := fun he => h.whole f List.mem_cons_self hf (he ▸ hc)
        simp [hne]
      rw [carried, if_pos hf, hbehind, legible, hall, List.filter_cons_of_pos hf]
      rfl
    · simp [carried, hf, hbehind]

/-- Whatever follows a comma, the marker and an equals sign in a value is an identifier of its own. -/
theorem smuggled_of_append {cover text : String} (hc : ',' ∉ cover.toList) (ht : ',' ∉ text.toList) :
    smuggled (cover ++ ", UID=" ++ text) = [Text.trimEnd text.toList] := by
  have hsplit : (cover ++ ", UID=" ++ text).toList =
      cover.toList ++ ',' :: (' ' :: ("UID".toList ++ '=' :: text.toList)) := by
    simp
  have hno : ',' ∉ ' ' :: ("UID".toList ++ '=' :: text.toList) := by
    intro h
    have h' : ',' ∈ text.toList := by simpa using h
    exact ht h'
  unfold smuggled
  rw [hsplit, Text.pieces_append_sep, Text.pieces_of_not_mem hc, Text.pieces_of_not_mem hno, List.cons_append,
    List.tail_cons, List.nil_append, List.filterMap_cons, ofAttribute?_cons_of_isBlank (by decide),
    ofAttribute?_append_cons (by decide)]
  rfl

end ClientId

namespace Attribute

open Der (Oid)

/-- The type of user identifiers. -/
def userId : Oid := .ofArcs 0 9 [2342, 19200300, 100, 1, 1]

/-- A character of parts with a separator between them is in one of the parts or in the separator. -/
theorem mem_of_mem_intercalate {α : Type} {sep : List α} {parts : List (List α)} {c : α}
    (hc : c ∈ sep.intercalate parts) : (∃ p ∈ parts, c ∈ p) ∨ c ∈ sep := by
  induction parts with
  | nil => cases hc
  | cons p rest ih =>
    cases rest with
    | nil =>
      rw [List.intercalate_singleton] at hc
      exact Or.inl ⟨p, List.mem_cons_self, hc⟩
    | cons q rest =>
      rw [List.intercalate_cons_cons, List.append_assoc, List.mem_append, List.mem_append] at hc
      rcases hc with hp | hsep | hrest
      · exact Or.inl ⟨p, List.mem_cons_self, hp⟩
      · exact Or.inr hsep
      · obtain ⟨r, hr, hcr⟩ | hsep := ih hrest
        · exact Or.inl ⟨r, List.mem_cons_of_mem _ hr, hcr⟩
        · exact Or.inr hsep

/-- Arcs with dots between them are written with digits and dots alone. -/
theorem digit_or_dot_of_mem_dotted {type : Oid} {c : Char} (hc : c ∈ type.dotted.toList) :
    c.isDigit = true ∨ c = '.' := by
  unfold Oid.dotted at hc
  rw [String.toList_intercalate] at hc
  obtain ⟨part, hpart, hmem⟩ | hdot := mem_of_mem_intercalate hc
  · rw [List.map_map, List.mem_map] at hpart
    obtain ⟨arc, -, rfl⟩ := hpart
    rw [Function.comp_apply, Nat.toString_eq_repr, Nat.toList_repr] at hmem
    exact Or.inl (Nat.isDigit_of_mem_toDigits (by decide) (by decide) hmem)
  · exact Or.inr (List.mem_singleton.1 hdot)

/-- A key is a short one or the arcs with dots between them. -/
theorem keyOf_cases (type : Oid) :
    (type, keyOf type) ∈ shortKeys ∨ type ∉ shortKeys.map Prod.fst ∧ keyOf type = type.dotted := by
  unfold keyOf
  cases hl : shortKeys.lookup type with
  | some key =>
    obtain ⟨before, behind, hsplit, -⟩ := List.lookup_eq_some_iff.1 hl
    rw [hsplit]
    exact Or.inl (List.mem_append_right _ List.mem_cons_self)
  | none =>
    refine Or.inr ⟨?_, rfl⟩
    intro hmem
    obtain ⟨entry, hentry, rfl⟩ := List.mem_map.1 hmem
    have hne := List.lookup_eq_none_iff.1 hl entry hentry
    simp at hne

/-- A digit can be taken for neither a comma nor an equals sign nor a blank. -/
theorem plain_of_isDigit {c : Char} (hc : c.isDigit = true) : c ≠ ',' ∧ c ≠ '=' ∧ Text.isBlank c = false := by
  have hrange : 48 ≤ c.toNat ∧ c.toNat ≤ 57 := by
    simpa [Char.isDigit, UInt32.le_iff_toNat_le] using hc
  refine ⟨?_, ?_, ?_⟩
  · rintro rfl
    exact absurd hrange (by decide)
  · rintro rfl
    exact absurd hrange (by decide)
  · unfold Text.isBlank
    simp only [Bool.or_eq_false_iff, Bool.and_eq_false_iff, decide_eq_false_iff_not, beq_eq_false_iff_ne]
    omega

/-- The key of every type is plain. -/
theorem plain_keyOf (type : Oid) : ClientId.Plain (keyOf type) := by
  have hshort : ∀ entry ∈ shortKeys, ClientId.Plain entry.2 := by decide
  rcases keyOf_cases type with hmem | ⟨-, hdotted⟩
  · exact hshort _ hmem
  · rw [hdotted]
    intro c hc
    rcases digit_or_dot_of_mem_dotted hc with hdigit | rfl
    · exact plain_of_isDigit hdigit
    · decide

/-- Only the type of user identifiers has an identifying key. -/
theorem mentions_keyOf (type : Oid) : Text.mentions ClientId.marker (keyOf type).toList = true ↔ type = userId := by
  have hshort : ∀ entry ∈ shortKeys, Text.mentions ClientId.marker entry.2.toList = true ↔ entry.1 = userId := by decide
  rcases keyOf_cases type with hmem | ⟨hnot, hdotted⟩
  · exact hshort _ hmem
  · rw [hdotted]
    have hfalse : Text.mentions ClientId.marker type.dotted.toList = false := by
      refine Text.mentions_eq_false fun hU => ?_
      rcases digit_or_dot_of_mem_dotted hU with hdigit | hdot
      · cases hdigit
      · cases hdot
    have hne : type ≠ userId := by
      rintro rfl
      exact hnot (by decide)
    simp [hfalse, hne]

end Attribute

namespace Name

/-- The keys of the fields of a name are plain. -/
theorem plain_of_mem_fields {n : Name} {f : String × String} (hf : f ∈ n.fields) : ClientId.Plain f.1 := by
  unfold fields at hf
  obtain ⟨a, -, rfl⟩ := List.mem_map.1 hf
  exact Attribute.plain_keyOf a.type

/-- In the text of a name exactly the identifiers that its fields carry are found. -/
theorem candidates_render (n : Name) : ClientId.candidates n.render.toList = n.fields.flatMap ClientId.carried := by
  have hrendered : ∀ fields : List (String × String), (∀ f ∈ fields, ClientId.Plain f.1) →
      (fields.map fun f => (renderField f).toList).flatMap ClientId.candidates = fields.flatMap ClientId.carried := by
    intro fields hplain
    rw [List.flatMap_map]
    exact List.flatMap_congr fun f hf => ClientId.candidates_renderField (hplain f hf)
  have hblank : ∀ b ∈ [' '], Text.isBlank b = true := List.forall_mem_singleton.2 (by decide)
  unfold render
  rw [String.toList_intercalate, List.map_map]
  exact (ClientId.candidates_intercalate hblank _).trans (hrendered n.fields fun f hf => plain_of_mem_fields hf)

end Name

namespace Certificate

/-- The client identifier of a certificate is chosen among the identifiers that the fields of its subject carry. -/
theorem clientId_eq (c : Certificate) (selection : UidSelection) :
    c.clientId selection =
      String.ofList ((selection.choose (c.subjectFields.flatMap ClientId.carried)).getD []) := by
  unfold clientId ClientId.ofSubject
  rw [Name.candidates_render]
  rfl

/-- The client identifier of a certificate is chosen among the identifiers that the fields of its subject carry. If they
are unforged, it is the value of the first or last identifying field without the blanks that it ends with, and empty
without such a field. -/
theorem clientId_of_fields (c : Certificate) (selection : UidSelection) :
    c.clientId selection = String.ofList ((selection.choose (c.subjectFields.flatMap ClientId.carried)).getD []) ∧
    (ClientId.Unforged c.subjectFields → c.clientId selection =
      ((selection.choose (c.subjectFields.filter ClientId.identifies)).map fun f =>
        String.ofList (Text.trimEnd f.2.toList)).getD "") := by
  refine ⟨clientId_eq c selection, fun hunforged => ?_⟩
  rw [clientId_eq, hunforged.flatMap_carried, UidSelection.choose_map]
  cases selection.choose (c.subjectFields.filter ClientId.identifies) with
  | none => rfl
  | some f => rfl

/-- The subject of `CN=Alice Smith, UID=alice123`. -/
def aliceSubject : Name where
  sets := [⟨[⟨Attribute.commonName, Utf8.encode "Alice Smith", []⟩]⟩, ⟨[⟨Attribute.userId, Utf8.encode "alice123", []⟩]⟩]

/-- A certificate for that subject. -/
def alice : Certificate := ⟨⟨[]⟩, aliceSubject, ⟨0, 0⟩, [], []⟩

theorem clientId_of_alice : ClientId.Unforged alice.subjectFields ∧ alice.clientId .first = "alice123" := by
  have hfields : alice.subjectFields = [("CN", "Alice Smith"), ("UID", "alice123")] := by decide +kernel
  have hunforged : ClientId.Unforged alice.subjectFields := by
    rw [hfields]
    exact ⟨by decide, by decide⟩
  refine ⟨hunforged, ?_⟩
  rw [(clientId_of_fields alice .first).2 hunforged, hfields]
  decide

/-- A value can forge the client identifier: what stands in it behind a comma, the marker and an equals sign counts as
the first identifier of the certificate if the fields before it carry none, and as the last if those behind it carry
none. -/
theorem clientId_forged {c : Certificate} {before behind : List (String × String)} {key cover text : String}
    (hfields : c.subjectFields = before ++ (key, cover ++ ", UID=" ++ text) :: behind)
    (hkey : ClientId.identifies (key, cover ++ ", UID=" ++ text) = false)
    (hcover : ',' ∉ cover.toList) (htext : ',' ∉ text.toList) :
    (before.flatMap ClientId.carried = [] → c.clientId .first = String.ofList (Text.trimEnd text.toList)) ∧
    (behind.flatMap ClientId.carried = [] → c.clientId .last = String.ofList (Text.trimEnd text.toList)) := by
  have hcarried : c.subjectFields.flatMap ClientId.carried =
      before.flatMap ClientId.carried ++ [Text.trimEnd text.toList] ++ behind.flatMap ClientId.carried := by
    rw [hfields, List.flatMap_append, List.flatMap_cons, ClientId.carried, hkey,
      ClientId.smuggled_of_append hcover htext]
    simp
  constructor
  · intro hnone
    rw [clientId_eq, hcarried, hnone]
    rfl
  · intro hnone
    rw [clientId_eq, hcarried, hnone, List.append_nil]
    simp [UidSelection.choose]

end Certificate

end ClientAuth
