import ClientAuth.Proofs.Encoding.Canonical
import ClientAuth.Proofs.Subject

/-!
# Identifiers of composed subjects

A subject text is a row of attributes with commas between them, and its client identifier is found by looking at each of
them alone (`ClientId.candidates_joined`). Which of them match is told here without trimming or cutting: by the characters
before the first equals sign (`ClientId.Identifying`). `ClientId.selection_compositional` says how the identifier of a
subject comes from those of its parts, and what it does not depend on.
-/

namespace ClientAuth

namespace UidSelection

/-- Of two rows of candidates the first one has the first choice, if it has any. -/
theorem choose_first_append {α : Type} (l m : List α) :
    first.choose (l ++ m) = (first.choose l).or (first.choose m) := List.head?_append

/-- Of two rows of candidates the last one has the last choice, if it has any. -/
theorem choose_last_append {α : Type} (l m : List α) :
    last.choose (l ++ m) = (last.choose m).or (last.choose l) := List.getLast?_append

theorem choose_eq_none_iff {α : Type} (selection : UidSelection) (l : List α) :
    selection.choose l = none ↔ l = [] := by
  cases selection with
  | first => exact List.head?_eq_none_iff
  | last => exact List.getLast?_eq_none_iff

/-- In reverse order the first choice is the last one. -/
theorem choose_first_reverse {α : Type} (l : List α) : first.choose l.reverse = last.choose l := List.head?_reverse

end UidSelection

namespace ClientId

/-- An attribute that matches: it has an equals sign, and the marker occurs in what stands before the first one. Its value
may be empty. -/
def Identifying (piece : List Char) : Prop :=
  ∃ key value, piece = key ++ '=' :: value ∧ '=' ∉ key ∧ marker <:+: key

/-- A subject with an attribute that matches. -/
def HasIdentifier (subject : String) : Prop := ∃ piece ∈ Text.pieces ',' subject.toList, Identifying piece

theorem isSome_ofAttribute?_iff (piece : List Char) : (ofAttribute? piece).isSome = true ↔ Identifying piece := by
  rw [Option.isSome_iff_exists]
  constructor
  · rintro ⟨value, h⟩
    obtain ⟨key, whole, hpiece, hkey, hmarker, -⟩ := ofAttribute?_eq_some_iff.1 h
    exact ⟨key, whole, hpiece, hkey, hmarker⟩
  · rintro ⟨key, whole, hpiece, hkey, hmarker⟩
    exact ⟨_, ofAttribute?_eq_some_iff.2 ⟨key, whole, hpiece, hkey, hmarker, rfl⟩⟩

instance (piece : List Char) : Decidable (Identifying piece) :=
  decidable_of_iff _ (isSome_ofAttribute?_iff piece)

instance (subject : String) : Decidable (HasIdentifier subject) := List.decidableBEx _ _

theorem ofAttribute?_eq_none_iff (piece : List Char) : ofAttribute? piece = none ↔ ¬Identifying piece := by
  rw [← isSome_ofAttribute?_iff, Option.not_isSome_iff_eq_none]

/-- A subject carries identifiers exactly if one of its attributes matches. -/
theorem candidates_eq_nil_iff (subject : String) : candidates subject.toList = [] ↔ ¬HasIdentifier subject := by
  simp only [candidates, List.filterMap_eq_nil_iff, ofAttribute?_eq_none_iff, HasIdentifier, not_exists, not_and]

/-- A text without a comma is a single attribute. -/
theorem candidates_of_not_mem {s : List Char} (hs : ',' ∉ s) : candidates s = (ofAttribute? s).toList := by
  unfold candidates
  rw [Text.pieces_of_not_mem hs]
  cases h : ofAttribute? s <;> simp [h]

/-- The identifiers of subjects with commas between them are those of all of them. -/
theorem candidates_joined (subjects : List String) :
    candidates (",".intercalate subjects).toList = subjects.flatMap fun s => candidates s.toList := by
  rw [String.toList_intercalate, ← List.flatMap_map]
  exact candidates_intercalate (List.forall_mem_nil _) _

/-- The identifiers of attributes with commas between them are what each of them carries. -/
theorem candidates_attributes {attributes : List String} (h : ∀ a ∈ attributes, ',' ∉ a.toList) :
    candidates (",".intercalate attributes).toList = attributes.filterMap fun a => ofAttribute? a.toList := by
  rw [candidates_joined, List.filterMap_eq_flatMap_toList]
  exact List.flatMap_congr fun a ha => candidates_of_not_mem (h a ha)

/-- An attribute, and the same one with blanks around it. -/
def Padded (plain padded : String) : Prop :=
  ∃ before after, Text.isBlankText before = true ∧ Text.isBlankText after = true ∧ padded = before ++ plain ++ after

/-- Blanks around an attribute do not change what it carries. -/
theorem Padded.ofAttribute?_eq {plain padded : String} (h : Padded plain padded) :
    ofAttribute? padded.toList = ofAttribute? plain.toList := by
  obtain ⟨before, after, hbefore, hafter, rfl⟩ := h
  rw [String.toList_append, String.toList_append, ofAttribute?, ofAttribute?,
    Text.trimChars_around (List.all_eq_true.1 hbefore) (List.all_eq_true.1 hafter)]

/-- A comma is no blank, so that blanks around an attribute do not make it two. -/
theorem Padded.comma_not_mem {plain padded : String} (h : Padded plain padded) (hplain : ',' ∉ plain.toList) :
    ',' ∉ padded.toList := by
  obtain ⟨before, after, hbefore, hafter, rfl⟩ := h
  have hblank {blank : String} (h : Text.isBlankText blank = true) : ',' ∉ blank.toList :=
    fun hmem => absurd (List.all_eq_true.1 h _ hmem) (by decide)
  simp only [String.toList_append, List.mem_append, not_or]
  exact ⟨⟨hblank hbefore, hplain⟩, hblank hafter⟩

/-- The identifiers of two subjects with a comma between them are those of the one and those of the other. -/
theorem candidates_comma (s t : String) :
    candidates (s ++ "," ++ t).toList = candidates s.toList ++ candidates t.toList := by
  rw [String.toList_append, String.toList_append, List.append_assoc]
  exact candidates_append s.toList t.toList

/-- Where the identifiers of one subject go before those of another, the other one counts only if the one has none. -/
theorem ofSubject_or (selection : UidSelection) (s t : String) :
    String.ofList (((selection.choose (candidates s.toList)).or (selection.choose (candidates t.toList))).getD []) =
      if HasIdentifier s then ofSubject selection s else ofSubject selection t := by
  split
  · rename_i hs
    have hsome : selection.choose (candidates s.toList) ≠ none := by
      rw [Ne, UidSelection.choose_eq_none_iff, candidates_eq_nil_iff]
      exact not_not.2 hs
    obtain ⟨value, hvalue⟩ := Option.ne_none_iff_exists'.1 hsome
    rw [ofSubject, hvalue, Option.some_or]
  · rename_i hs
    have hnone := (UidSelection.choose_eq_none_iff selection _).2 ((candidates_eq_nil_iff s).2 hs)
    rw [ofSubject, hnone, Option.none_or]

/-- Of two subjects with a comma between them, the first one with an identifier has the first one of both. -/
theorem ofSubject_first_append (s t : String) :
    ofSubject .first (s ++ "," ++ t) = if HasIdentifier s then ofSubject .first s else ofSubject .first t := by
  rw [← ofSubject_or, ofSubject, candidates_comma, UidSelection.choose_first_append]

/-- Of two subjects with a comma between them, the last one with an identifier has the last one of both. -/
theorem ofSubject_last_append (s t : String) :
    ofSubject .last (s ++ "," ++ t) = if HasIdentifier t then ofSubject .last t else ofSubject .last s := by
  rw [← ofSubject_or, ofSubject, candidates_comma, UidSelection.choose_last_append]

/-- Every text is a row of attributes with commas between them. -/
theorem exists_attributes (s : String) :
    ∃ attributes : List String, (∀ a ∈ attributes, ',' ∉ a.toList) ∧ ",".intercalate attributes = s := by
  refine ⟨(Text.pieces ',' s.toList).map String.ofList, ?_, ?_⟩
  · intro a ha
    obtain ⟨piece, hpiece, rfl⟩ := List.mem_map.1 ha
    rw [String.toList_ofList]
    exact Text.not_mem_of_mem_pieces hpiece
  · have hmap : ((Text.pieces ',' s.toList).map String.ofList).map String.toList = Text.pieces ',' s.toList := by
      rw [List.map_map]
      exact List.map_id'' (fun piece => String.toList_ofList) _
    rw [← String.toList_inj, String.toList_intercalate, hmap]
    exact Text.intercalate_pieces ',' s.toList

section Attributes

variable {attributes : List String} (hplain : ∀ a ∈ attributes, ',' ∉ a.toList)
include hplain

/-- In reverse order the first identifier is the last one. -/
theorem ofSubject_first_reverse :
    ofSubject .first (",".intercalate attributes.reverse) = ofSubject .last (",".intercalate attributes) := by
  have hreverse : ∀ a ∈ attributes.reverse, ',' ∉ a.toList := fun a ha => hplain a (List.mem_reverse.1 ha)
  rw [ofSubject, ofSubject, candidates_attributes hplain, candidates_attributes hreverse, List.filterMap_reverse,
    UidSelection.choose_first_reverse]

/-- In reverse order the last identifier is the first one. -/
theorem ofSubject_last_reverse :
    ofSubject .last (",".intercalate attributes.reverse) = ofSubject .first (",".intercalate attributes) := by
  have hreverse : ∀ a ∈ attributes.reverse, ',' ∉ a.toList := fun a ha => hplain a (List.mem_reverse.1 ha)
  rw [← ofSubject_first_reverse hreverse, List.reverse_reverse]

/-- Blanks around its attributes do not change the identifier of a subject. -/
theorem ofSubject_padded (selection : UidSelection) {padded : List String}
    (hpadded : List.Forall₂ Padded attributes padded) :
    ofSubject selection (",".intercalate padded) = ofSubject selection (",".intercalate attributes) := by
  have hsame : candidates (",".intercalate padded).toList = candidates (",".intercalate attributes).toList := by
    rw [candidates_joined, candidates_joined]
    -- Padding keeps an attribute a single one, so both rows can be walked through at the same pace.
    induction hpadded with
    | nil => rfl
    | @cons plain padded attributes rest hhead _ ih =>
      obtain ⟨hcomma, hrest⟩ := List.forall_mem_cons.1 hplain
      rw [List.flatMap_cons, List.flatMap_cons, ih hrest, candidates_of_not_mem hcomma,
        candidates_of_not_mem (hhead.comma_not_mem hcomma), hhead.ofAttribute?_eq]
  rw [ofSubject, ofSubject, hsame]

end Attributes

/-- An attribute that does not match may be left out or put in anywhere. -/
theorem ofSubject_idle (selection : UidSelection) (before behind : List String) {idle : String}
    (hcomma : ',' ∉ idle.toList) (hidle : ¬Identifying idle.toList) :
    ofSubject selection (",".intercalate (before ++ idle :: behind)) =
      ofSubject selection (",".intercalate (before ++ behind)) := by
  have hnone : candidates idle.toList = [] := by
    rw [candidates_of_not_mem hcomma, (ofAttribute?_eq_none_iff _).2 hidle, Option.toList_none]
  rw [ofSubject, ofSubject, candidates_joined, candidates_joined, List.flatMap_append, List.flatMap_append,
    List.flatMap_cons, hnone, List.nil_append]

/-- Selecting the identifier of a subject is compositional. Of two subjects with a comma between them, the first one that
has a matching attribute, even one without a value, has the first identifier, and the last one that has one has the last.
Every text is a row of attributes with commas between them. Their reverse order makes the first identifier the last, blanks
around them change nothing, and neither does one that does not match, wherever it stands. An identifier has no comma and does
not end with a blank. -/
theorem selection_compositional :
    (∀ s t : String,
      ofSubject .first (s ++ "," ++ t) = (if HasIdentifier s then ofSubject .first s else ofSubject .first t) ∧
      ofSubject .last (s ++ "," ++ t) = (if HasIdentifier t then ofSubject .last t else ofSubject .last s)) ∧
    (∀ s : String, ∃ attributes : List String,
      (∀ a ∈ attributes, ',' ∉ a.toList) ∧ ",".intercalate attributes = s) ∧
    (∀ attributes : List String, (∀ a ∈ attributes, ',' ∉ a.toList) →
      ofSubject .first (",".intercalate attributes.reverse) = ofSubject .last (",".intercalate attributes) ∧
      ofSubject .last (",".intercalate attributes.reverse) = ofSubject .first (",".intercalate attributes) ∧
      ∀ selection padded, List.Forall₂ Padded attributes padded →
        ofSubject selection (",".intercalate padded) = ofSubject selection (",".intercalate attributes)) ∧
    (∀ selection before idle behind, ',' ∉ idle.toList → ¬Identifying idle.toList →
      ofSubject selection (",".intercalate (before ++ idle :: behind)) =
        ofSubject selection (",".intercalate (before ++ behind))) ∧
    ∀ selection s, ',' ∉ (ofSubject selection s).toList ∧
      ∀ c, (ofSubject selection s).toList.getLast? = some c → Text.isBlank c = false :=
  ⟨fun s t => ⟨ofSubject_first_append s t, ofSubject_last_append s t⟩,
    exists_attributes,
    fun _ hplain => ⟨ofSubject_first_reverse hplain, ofSubject_last_reverse hplain,
      fun selection _ => ofSubject_padded hplain selection⟩,
    fun selection before _ behind => ofSubject_idle selection before behind,
    fun selection s => ⟨comma_not_mem_ofSubject selection s, fun _ => isBlank_of_ofSubject⟩⟩

/-- An attribute that matches without a value is the first identifier, whatever follows it. Its key may be more than the
marker, an attribute of the marker alone does not match, and no more does one with the marker behind its equals sign. -/
theorem selection_compositional_no_value :
    let attributes := ["CN=UID", "UID=", "X-UID=a=b", "UID"]
    let padded := ["CN=UID", "\tUID=", "\u2003X-UID=a=b ", "UID\n"]
    (∀ a ∈ attributes, ',' ∉ a.toList) ∧ List.Forall₂ Padded attributes padded ∧ HasIdentifier "CN=UID,UID=" ∧
      ¬Identifying "UID".toList ∧
      ofSubject .first ("CN=UID,UID=" ++ "," ++ "X-UID=a=b,UID") = "" ∧
      ofSubject .first (",".intercalate attributes.reverse) = "a=b" ∧
      ofSubject .last (",".intercalate padded) = "a=b" ∧
      ofSubject .last (",".intercalate (["CN=UID", "UID=", "X-UID=a=b"] ++ "UID" :: [])) = "a=b" := by
  intro attributes padded
  obtain ⟨happend, -, hrow, hidle, -⟩ := selection_compositional
  have hplain : ∀ a ∈ attributes, ',' ∉ a.toList := by decide
  have hpadded : List.Forall₂ Padded attributes padded :=
    .cons ⟨"", "", rfl, rfl, rfl⟩ (.cons ⟨"\t", "", rfl, rfl, rfl⟩ (.cons ⟨"\u2003", " ", rfl, rfl, rfl⟩
      (.cons ⟨"", "\n", rfl, rfl, rfl⟩ .nil)))
  have hmarker : ¬Identifying "UID".toList := by decide
  have hempty : HasIdentifier "CN=UID,UID=" := by decide
  have hlast : ofSubject .last (",".intercalate attributes) = "a=b" := by decide +kernel
  obtain ⟨hreverse, -, hblanks⟩ := hrow attributes hplain
  refine ⟨hplain, hpadded, hempty, hmarker, ?_, ?_, ?_, ?_⟩
  · rw [(happend _ _).1, if_pos hempty]
    decide +kernel
  · rw [hreverse, hlast]
  · rw [hblanks .last padded hpadded, hlast]
  · rw [hidle .last _ "UID" [] (by decide) hmarker]
    decide +kernel

end ClientId

end ClientAuth
