import ClientAuth.Proofs.Encoding.Base64
import ClientAuth.Text.Pem
import Mathlib.Data.List.Chain

/-!
# Reading armour that was written

A frame is read as the document that it was written for (`Pem.decode_encode_append`): the markers are found where they
stand, since neither the tag nor the data has a dash, and no header is seen, since no two lines of the data are an empty
line apart. What follows the frame does not matter.
-/

namespace ClientAuth

/-- No stretch of a list that is cut up is empty. -/
theorem ne_nil_of_mem_chunks {α : Type} {size : Nat} {l chunk : List α} (h : chunk ∈ chunks size l) : chunk ≠ [] := by
  fun_induction chunks size l with
  | case1 l hl => cases h
  | case2 l hl ih =>
    rcases List.mem_cons.1 h with rfl | h
    · simp only [Bool.or_eq_true, List.isEmpty_iff, beq_iff_eq, not_or] at hl
      rw [Ne, List.take_eq_nil_iff, not_or]
      exact ⟨hl.2, hl.1⟩
    · exact ih h

/-- What a stretch holds is of the list. -/
theorem mem_of_mem_chunks {α : Type} {size : Nat} (hsize : size ≠ 0) {l chunk : List α} (h : chunk ∈ chunks size l)
    {a : α} (ha : a ∈ chunk) : a ∈ l := by
  rw [← flatten_chunks hsize l]
  exact List.mem_flatten_of_mem h ha

namespace Pem

/-! ## Markers -/

/-- The rest of a marker is found where it stands. -/
theorem searchFrom_append (marker found pending after : List Char) :
    searchFrom marker found pending (pending ++ after) = some ([], after) := by
  induction pending generalizing found with
  | nil => simp [searchFrom]
  | cons c pending ih =>
    rw [List.cons_append, searchFrom, if_pos rfl]
    exact ih _

/-- A marker is found after a text that has no character to begin it. -/
theorem searchFrom_of_not_mem {c : Char} {before : List Char} (h : c ∉ before) (pending after : List Char) :
    searchFrom (c :: pending) [] (c :: pending) (before ++ (c :: pending ++ after)) = some (before, after) := by
  induction before with
  | nil => exact searchFrom_append _ _ _ _
  | cons d before ih =>
    obtain ⟨hd, hbefore⟩ := not_or.1 (mt List.mem_cons.2 h)
    rw [List.cons_append, searchFrom, if_neg (Ne.symm hd), ih hbefore]
    rfl

/-- What is found is a marker between what stands before and after it. -/
theorem append_of_searchFrom {marker found pending s : List Char} {cut : List Char × List Char}
    (hmarker : marker = found ++ pending) (h : searchFrom marker found pending s = some cut) :
    found ++ s = cut.1 ++ marker ++ cut.2 := by
  fun_induction searchFrom marker found pending s generalizing cut with
  | case1 found rest =>
    cases h
    rw [hmarker, List.append_nil, List.nil_append]
  | case2 => cases h
  | case3 found pending c rest ih =>
    have hseen := ih (by rw [hmarker, List.append_assoc, List.singleton_append]) h
    rwa [List.append_assoc, List.singleton_append] at hseen
  | case4 found m pending c rest hc ih =>
    obtain ⟨inner, hinner, rfl⟩ := Option.map_eq_some_iff.1 h
    have hrest := ih (List.nil_append _).symm hinner
    rw [List.nil_append] at hrest
    simp only [hrest, List.append_assoc, List.cons_append]

/-- A marker that does not occur is not found. -/
theorem search_eq_none {marker : String} {s : List Char} (h : ¬marker.toList <:+: s) : search marker s = none := by
  cases hs : search marker s with
  | none => rfl
  | some cut =>
    refine absurd ⟨cut.1, cut.2, ?_⟩ h
    rw [← append_of_searchFrom (List.nil_append _).symm hs, List.nil_append]

/-! ## Frames -/

/-- The parts of a frame are found in it, if neither the tag nor the payload has a dash. Blanks in front of the payload are
not part of it. -/
theorem frame?_framed {tag payload : List Char} (htag : '-' ∉ tag) (hpayload : '-' ∉ payload) {gap : List Char}
    (hgap : ∀ c ∈ gap, isFrameBlank c = true) (hstart : ∀ c ∈ payload.head?, isFrameBlank c = false) (after : List Char) :
    frame? ("-----BEGIN ".toList ++ (tag ++ ("-----".toList ++
      (gap ++ (payload ++ ("-----END ".toList ++ (tag ++ ("-----".toList ++ after)))))))) = some ⟨tag, payload, tag⟩ := by
  have hdrop (rest : List Char) : (gap ++ (payload ++ ("-----END ".toList ++ rest))).dropWhile isFrameBlank =
      payload ++ ("-----END ".toList ++ rest) := by
    rw [List.dropWhile_append_of_pos hgap]
    cases payload with
    | nil => rfl
    | cons c payload =>
      rw [List.cons_append, List.dropWhile_cons_of_neg]
      rw [hstart c rfl]
      exact Bool.false_ne_true
  have hbegin (rest : List Char) : search "-----BEGIN " ("-----BEGIN ".toList ++ rest) = some ([], rest) :=
    searchFrom_append _ _ _ _
  have hdashes (rest : List Char) : search "-----" (tag ++ ("-----".toList ++ rest)) = some (tag, rest) :=
    searchFrom_of_not_mem htag _ _
  have hend (rest : List Char) : search "-----END " (payload ++ ("-----END ".toList ++ rest)) = some (payload, rest) :=
    searchFrom_of_not_mem hpayload _ _
  simp only [frame?, hbegin, hdashes, hdrop, hend, bind, Option.bind, pure]

/-! ## Lines -/

/-- A text in which no line feed has a blank after it. -/
def Tight (s : List Char) : Prop :=
  s.IsChain fun c d => c = '\n' → Text.isBlank d = false

/-- A text with an empty line is not tight, however its lines end. -/
theorem Tight.not_within {s : List Char} (h : Tight s) {c : Char} (hc : Text.isBlank c = true) : ¬['\n', c] <:+: s := by
  intro hwithin
  have hpair : List.IsChain (fun c d => c = '\n' → Text.isBlank d = false) ['\n', c] := List.IsChain.infix h hwithin
  have hvisible := List.isChain_pair.1 hpair rfl
  rw [hc] at hvisible
  cases hvisible

/-- A row of lines without blanks does not start with a blank. -/
theorem head?_lines {rows : List (List Char)} (hrows : ∀ row ∈ rows, row ≠ [] ∧ ∀ c ∈ row, Text.isBlank c = false) :
    ∀ c ∈ (rows.flatMap (· ++ lineEnd)).head?, Text.isBlank c = false := by
  intro c hc
  cases rows with
  | nil => cases hc
  | cons row rows =>
    obtain ⟨hne, hrow⟩ := hrows row List.mem_cons_self
    obtain ⟨d, row, rfl⟩ := List.exists_cons_of_ne_nil hne
    obtain rfl : d = c := Option.some.inj hc
    exact hrow d List.mem_cons_self

/-- Whole lines without blanks are tight. -/
theorem tight_lines {rows : List (List Char)} (hrows : ∀ row ∈ rows, row ≠ [] ∧ ∀ c ∈ row, Text.isBlank c = false) :
    Tight (rows.flatMap (· ++ lineEnd)) := by
  have hother (c : Char) (s : List Char) (hc : c ≠ '\n') (hs : Tight s) : Tight (c :: s) :=
    hs.cons fun _ _ hfeed => absurd hfeed hc
  induction rows with
  | nil => exact List.isChain_nil
  | cons row rows ih =>
    obtain ⟨-, hrow⟩ := hrows row List.mem_cons_self
    have hrows' : ∀ row ∈ rows, row ≠ [] ∧ ∀ c ∈ row, Text.isBlank c = false :=
      fun row hrow => hrows row (List.mem_cons_of_mem _ hrow)
    have hrest := ih hrows'
    have hhead := head?_lines hrows'
    rw [List.flatMap_cons, List.append_assoc]
    clear hrows hrows' ih
    induction row with
    | nil => exact hother '\r' _ (by decide) (hrest.cons fun d hd _ => hhead d hd)
    | cons c row ih =>
      refine hother c _ ?_ (ih fun c hc => hrow c (List.mem_cons_of_mem _ hc))
      rintro rfl
      cases hrow _ List.mem_cons_self

variable {s : List Char} (hs : ∀ c ∈ s, Text.isBlank c = false)
include hs

/-- The lines of a text that was broken up. -/
theorem chunks_lines {width : Nat} (hwidth : width ≠ 0) :
    ∀ row ∈ chunks width s, row ≠ [] ∧ ∀ c ∈ row, Text.isBlank c = false :=
  fun _ hrow => ⟨ne_nil_of_mem_chunks hrow, fun _ hc => hs _ (mem_of_mem_chunks hwidth hrow hc)⟩

/-- Nothing is lost of a text that is broken into lines. -/
theorem filter_wrap {width : Nat} (hwidth : width ≠ 0) : (wrap width s).filter (!Text.isBlank ·) = s := by
  have hline : ∀ chunk ∈ chunks width s, (chunk ++ lineEnd).filter (!Text.isBlank ·) = chunk := by
    intro chunk hchunk
    have hkept : chunk.filter (!Text.isBlank ·) = chunk :=
      List.filter_eq_self.2 fun c hc => by rw [hs c (mem_of_mem_chunks hwidth hchunk hc), Bool.not_false]
    rw [List.filter_append, hkept]
    exact List.append_nil chunk
  calc (wrap width s).filter (!Text.isBlank ·)
      = (chunks width s).flatMap fun chunk => (chunk ++ lineEnd).filter (!Text.isBlank ·) := List.filter_flatMap
    _ = (chunks width s).flatMap id := List.flatMap_congr hline
    _ = (chunks width s).flatten := List.flatMap_id
    _ = s := flatten_chunks hwidth s

/-- Data without headers is all data. -/
theorem split_wrap {width : Nat} (hwidth : width ≠ 0) : split (wrap width s) = ([], wrap width s) := by
  -- either end of the headers would be a line feed and then a blank
  have htight : Tight (wrap width s) := tight_lines (chunks_lines hs hwidth)
  have hfeeds : search "\n\n" (wrap width s) = none := search_eq_none (htight.not_within rfl)
  have hreturns : search "\r\n\r\n" (wrap width s) = none := by
    refine search_eq_none fun hwithin => htight.not_within (c := '\r') rfl (List.IsInfix.trans ?_ hwithin)
    exact ⟨['\r'], ['\n'], rfl⟩
  simp only [split, hfeeds, hreturns]

omit hs in
theorem mem_wrap {width : Nat} (hwidth : width ≠ 0) {c : Char} (hc : c ∈ wrap width s) : c ∈ s ∨ c ∈ lineEnd := by
  obtain ⟨chunk, hchunk, hc⟩ := List.mem_flatMap.1 hc
  rcases List.mem_append.1 hc with hc | hc
  · exact .inl (mem_of_mem_chunks hwidth hchunk hc)
  · exact .inr hc

omit hs

/-! ## Documents -/

/-- Standard base64 has no dash. -/
theorem dash_not_mem_encode (bs : Bytes) : '-' ∉ (Base64.encode Base64.standard bs).toList := by
  have hsymbol : ∀ v < 64, Char.ofNat (Base64.standard.symbol v).toNat ≠ '-' := by decide
  rw [Base64.encode, String.toList_ofList, List.mem_map]
  rintro ⟨b, hb, hdash⟩
  rcases Base64.mem_encodeBytes hb with rfl | ⟨v, hv, rfl⟩
  · exact absurd hdash (by decide)
  · exact hsymbol v hv hdash

/-- A frame, without the end of its last line. -/
def framed (tag : String) (contents : Bytes) : List Char :=
  "-----BEGIN ".toList ++ (tag.toList ++ ("-----".toList ++ (lineEnd ++
    (wrap 64 (Base64.encode Base64.standard contents).toList ++ ("-----END ".toList ++ (tag.toList ++ "-----".toList))))))

theorem toList_encode (tag : String) (contents : Bytes) : (encode tag contents).toList = framed tag contents ++ lineEnd := by
  unfold encode framed
  rw [String.toList_ofList]
  simp only [List.append_assoc]

theorem isBlank_of_isFrameBlank {c : Char} (h : isFrameBlank c = true) : Text.isBlank c = true := by
  simp only [isFrameBlank, Bool.or_eq_true, beq_iff_eq] at h
  obtain ((rfl | rfl) | rfl) | rfl := h <;> rfl

/-- The first frame of a text is read as what it was written for. -/
theorem decode_framed {tag : String} (hempty : tag.toList ≠ []) (htag : '-' ∉ tag.toList) (contents : Bytes)
    (after : List Char) : decode (String.ofList (framed tag contents ++ after)) = .ok ⟨tag, contents⟩ := by
  have hvisible : ∀ c ∈ (Base64.encode Base64.standard contents).toList, Text.isBlank c = false :=
    fun c hc => Base64.not_isBlank_of_mem_encode hc
  have hwidth : 64 ≠ 0 := by decide
  have hdash : '-' ∉ wrap 64 (Base64.encode Base64.standard contents).toList := by
    intro h
    rcases mem_wrap hwidth h with h | h
    · exact dash_not_mem_encode contents h
    · revert h
      decide
  have hstart : ∀ c ∈ (wrap 64 (Base64.encode Base64.standard contents).toList).head?, isFrameBlank c = false := by
    intro c hc
    have hfirst := head?_lines (chunks_lines hvisible hwidth) c hc
    by_contra hblank
    rw [isBlank_of_isFrameBlank (Bool.not_eq_false _ ▸ hblank)] at hfirst
    cases hfirst
  have hframe : frame? (framed tag contents ++ after) =
      some ⟨tag.toList, wrap 64 (Base64.encode Base64.standard contents).toList, tag.toList⟩ := by
    have hgap : ∀ c ∈ lineEnd, isFrameBlank c = true := List.all_eq_true.1 rfl
    have h := frame?_framed htag hdash hgap hstart after
    unfold framed
    simpa only [List.append_assoc] using h
  have hdata : String.ofList ((wrap 64 (Base64.encode Base64.standard contents).toList).filter (!Text.isBlank ·)) =
      Base64.encode Base64.standard contents := by
    rw [filter_wrap hvisible hwidth, String.ofList_toList]
  have hnone : tag.toList.isEmpty = false := by rwa [← Bool.not_eq_true, List.isEmpty_iff]
  have hheaders : lines [] = [] := rfl
  unfold decode
  simp only [String.toList_ofList, String.ofList_toList, hframe, hnone, split_wrap hvisible hwidth, hdata,
    Base64.decode_encode, hheaders, List.find?_nil, bind, Except.bind, pure, Except.pure, Except.mapError,
    Bool.false_eq_true, if_false, ne_eq, not_true_eq_false]

end Pem

end ClientAuth
