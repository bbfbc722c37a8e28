import ClientAuth.Certificate.Basic

/-!
# Elements are read out of the octets that write them

A length is read in the one form that it is written in (`length?_eq_some`), so octets that are read as a row of elements are
what these elements are written as, one behind the other (`eq_encode_of_elements?`). What is read of an element therefore
tells its octets: those of an identifier (`Oid.eq_of_ofElement?`), of an attribute (`Attribute.faithful_of_ofElement?`), of
a name (`Name.faithful_of_ofElement?`) and of the names of a certificate (`Certificate.names_of_ofDer?`).
-/

namespace ClientAuth

/-- A value of which something is seen has been given. -/
theorem exists_ok_of_map_toOption {ε α β : Type} {r : Except ε α} {f : α → β} {b : β}
    (h : r.toOption.map f = some b) : ∃ a, r = .ok a ∧ f a = b := by
  cases r with
  | ok a => exact ⟨a, rfl, Option.some.inj h⟩
  | error e => exact nomatch h

namespace Der

/-- A length that is read is what the octets that it takes write, and they are there. -/
theorem length?_eq_some {bs : Bytes} {size used : Nat} (h : length? bs = some (size, used)) :
    bs.take used = encodeLength size ∧ used ≤ bs.length := by
  cases bs with
  | nil => cases h
  | cons b rest =>
    simp only [length?] at h
    split at h
    · rename_i hshort
      obtain ⟨rfl, rfl⟩ := Prod.mk.inj (Option.some.inj h)
      have hshort : b.toNat < 128 := UInt8.lt_iff_toNat_lt.1 hshort
      rw [encodeLength, if_pos hshort, UInt8.ofNat_toNat]
      exact ⟨rfl, Nat.succ_le_succ (Nat.zero_le _)⟩
    · -- The long form is accepted only where the octets are those that the length is written as.
      simp only [Option.ite_none_right_eq_some, Option.some.injEq, Prod.mk.injEq] at h
      obtain ⟨⟨-, -, -, hcanonical⟩, rfl, rfl⟩ := h
      have hall : rest.take (rest.take (b.toNat - 128)).length = rest.take (b.toNat - 128) := by
        rw [List.length_take, List.take_eq_take_iff]
        omega
      rw [hcanonical, List.take_succ_cons, hall]
      exact ⟨rfl, Nat.succ_le_succ (List.length_take_le' _ _)⟩

/-- Octets that are read as a row of elements are what these are written as. -/
theorem eq_encode_of_elements? {bs : Bytes} {row : List Element} (h : elements? bs = some row) :
    bs = row.flatMap Element.encode := by
  fun_induction elements? bs generalizing row with
  | case1 =>
    cases h
    rfl
  | case2 tag rest _ hnone => cases h
  | case3 tag rest htag size used hlength hfits ih =>
    obtain ⟨behind, hbehind, rfl⟩ := Option.map_eq_some_iff.1 h
    obtain ⟨hwritten, hused⟩ := length?_eq_some hlength
    -- Behind the tag stand the length, a content of that length, and the octets that `ih` is about.
    have hsize : ((rest.drop used).take size).length = size := by
      rw [List.length_take, List.length_drop]
      omega
    rw [List.flatMap_cons, ← ih hbehind, Element.encode, hsize, ← hwritten, List.cons_append, List.append_assoc,
      ← List.drop_drop, List.take_append_drop, List.take_append_drop]
  | case4 tag rest _ size used _ hshort => cases h
  | case5 tag rest hno => cases h

/-- The content of an element is what the elements within it are written as. -/
theorem Element.content_of_children? {e : Element} {tag : UInt8} {row : List Element}
    (h : e.children? tag = some row) : e = ⟨tag, row.flatMap encode⟩ := by
  unfold children? at h
  split at h
  · rename_i htag
    rw [← eq_encode_of_elements? h, ← htag]
  · cases h

/-- What an element is written as ends with its content. -/
theorem Element.suffix_encode (e : Element) : e.content <:+ e.encode :=
  (List.suffix_append _ _).trans (List.suffix_cons _ _)

/-- Where members of a row are read one by one, with the octets of each, the row is read with the octets of all. -/
theorem eq_encode_of_mapM {α : Type} {read : Element → Option α} {octets : α → Bytes} {P : α → Prop}
    (hread : ∀ {e a}, read e = some a → P a ∧ e.encode = octets a) {row : List Element} {as : List α}
    (h : row.mapM read = some as) : (∀ a ∈ as, P a) ∧ row.flatMap Element.encode = as.flatMap octets := by
  induction row generalizing as with
  | nil =>
    cases h
    exact ⟨List.forall_mem_nil _, rfl⟩
  | cons e row ih =>
    simp only [List.mapM_cons, Option.bind_eq_bind, Option.bind_eq_some_iff, Option.pure_def, Option.some.injEq] at h
    obtain ⟨a, ha, rest, hrest, rfl⟩ := h
    obtain ⟨hP, hoctets⟩ := hread ha
    obtain ⟨hPs, hall⟩ := ih hrest
    rw [List.flatMap_cons, List.flatMap_cons, hoctets, hall]
    exact ⟨List.forall_mem_cons.2 ⟨hP, hPs⟩, rfl⟩

/-- Looking for an optional field takes elements off the front of a row. -/
theorem suffix_of_skipOptional {number : UInt8} {wellFormed : Element → Bool} {row rest : List Element}
    (h : skipOptional number wellFormed row = some rest) : rest <:+ row := by
  have hskip : row.dropWhile (·.isContext (· < number)) <:+ row := List.dropWhile_suffix _
  unfold skipOptional at h
  split at h
  · cases h
    exact List.nil_suffix
  · rename_i e behind hdrop
    rw [hdrop] at hskip
    split at h
    · split at h
      · cases h
        exact (List.suffix_cons e _).trans hskip
      · cases h
    · cases h
      exact hskip

/-- What is read out of a content keeps it. -/
theorem Oid.content_of_ofContent? {content : Bytes} {o : Oid} (h : ofContent? content = some o) : o.content = content := by
  unfold ofContent? at h
  split at h
  · cases h
  · split at h
    · obtain ⟨arcs, -, rfl⟩ := Option.map_eq_some_iff.1 h
      rfl
    · cases h

/-- An identifier is read out of an element whose content is its own. -/
theorem Oid.eq_of_ofElement? {e : Element} {o : Oid} (h : ofElement? e = some o) :
    e = ⟨Tag.oid, o.content⟩ ∧ ofContent? o.content = some o := by
  unfold ofElement? at h
  split at h
  · rename_i htag
    have hcontent := content_of_ofContent? h
    rw [hcontent, ← htag]
    exact ⟨rfl, h⟩
  · cases h

end Der

open Der (Element Oid)

/-- An attribute that can be read: its type is that of its octets, and its encoding is a type with a value. -/
structure Attribute.Faithful (a : Attribute) : Prop where
  type : Oid.ofContent? a.type.content = some a.type
  encoding : ∃ tag, a.encoding =
    Element.encode ⟨Der.Tag.sequence, Element.encode ⟨Der.Tag.oid, a.type.content⟩ ++ Element.encode ⟨tag, a.value⟩⟩

/-- An attribute is read with its octets. -/
theorem Attribute.faithful_of_ofElement? {e : Element} {a : Attribute} (h : ofElement? e = some a) :
    a.Faithful ∧ e.encode = a.encoding := by
  simp only [ofElement?, Option.bind_eq_bind, Option.bind_eq_some_iff] at h
  obtain ⟨row, hrow, h⟩ := h
  split at h
  · rename_i type value
    simp only [Option.bind_eq_some_iff, Option.pure_def, Option.some.injEq] at h
    obtain ⟨o, ho, rfl⟩ := h
    obtain ⟨htype, hcontent⟩ := Oid.eq_of_ofElement? ho
    have he := Element.content_of_children? hrow
    refine ⟨⟨hcontent, value.tag, ?_⟩, rfl⟩
    rw [he, htype]
    simp only [List.flatMap_cons, List.flatMap_nil, List.append_nil]
  · cases h

/-- The octets of a set of attributes, in the order in which they are written. -/
def AttributeSet.encode (s : AttributeSet) : Bytes :=
  Element.encode ⟨Der.Tag.set, s.written.flatMap (·.encoding)⟩

/-- A set of attributes that can be read, none of them twice. -/
structure AttributeSet.Faithful (s : AttributeSet) : Prop where
  attributes : ∀ a ∈ s.written, a.Faithful
  nodup : (s.written.map (·.encoding)).Nodup

/-- A set is read with its octets. -/
theorem AttributeSet.faithful_of_ofElement? {e : Element} {s : AttributeSet} (h : ofElement? e = some s) :
    s.Faithful ∧ e.encode = s.encode := by
  simp only [ofElement?, Option.bind_eq_bind, Option.bind_eq_some_iff, Option.pure_def] at h
  obtain ⟨row, hrow, attributes, hattributes, h⟩ := h
  split at h
  · rename_i hnodup
    cases h
    obtain ⟨hfaithful, hoctets⟩ := Der.eq_encode_of_mapM Attribute.faithful_of_ofElement? hattributes
    refine ⟨⟨hfaithful, hnodup⟩, ?_⟩
    rw [Element.content_of_children? hrow, hoctets, encode]
  · cases h

/-- The octets of a name. -/
def Name.encode (n : Name) : Bytes :=
  Element.encode ⟨Der.Tag.sequence, n.sets.flatMap AttributeSet.encode⟩

/-- A name that can be read. -/
def Name.Faithful (n : Name) : Prop := ∀ s ∈ n.sets, s.Faithful

/-- A name is read with its octets. -/
theorem Name.faithful_of_ofElement? {e : Element} {n : Name} (h : ofElement? e = some n) :
    n.Faithful ∧ e.encode = n.encode := by
  simp only [ofElement?, Option.bind_eq_bind, Option.bind_eq_some_iff, Option.pure_def, Option.some.injEq] at h
  obtain ⟨row, hrow, sets, hsets, rfl⟩ := h
  obtain ⟨hfaithful, hoctets⟩ := Der.eq_encode_of_mapM AttributeSet.faithful_of_ofElement? hsets
  refine ⟨hfaithful, ?_⟩
  rw [Element.content_of_children? hrow, hoctets, encode]

namespace Certificate

/-- What a certificate keeps of the names in some octets: both can be read, and their octets stand in these, the issuer's
before the subject's. -/
structure Names (c : Certificate) (bs : Bytes) : Prop where
  issuer : c.issuer.Faithful
  subject : c.subject.Faithful
  octets : ∃ before between behind, bs = before ++ c.issuer.encode ++ between ++ c.subject.encode ++ behind

/-- Octets around those that hold the names hold them too. -/
theorem Names.mono {c : Certificate} {bs whole : Bytes} (h : c.Names bs) (hin : bs <:+: whole) : c.Names whole := by
  obtain ⟨before, between, behind, rfl⟩ := h.octets
  obtain ⟨front, back, rfl⟩ := hin
  exact ⟨h.issuer, h.subject, front ++ before, between, behind ++ back, by simp only [List.append_assoc]⟩

theorem names_of_ofSigned? {der : Bytes} {signed : Element} {c : Certificate} (h : ofSigned? der signed = some c) :
    c.Names signed.encode := by
  simp only [ofSigned?, Option.bind_eq_bind, Option.bind_eq_some_iff] at h
  obtain ⟨row, hrow, rest, hrest, h⟩ := h
  split at h
  · rename_i serial algorithm issuer validity subject key trailer
    split at h
    · simp only [Option.bind_eq_some_iff, Option.pure_def, Option.some.injEq] at h
      obtain ⟨issuerName, hissuer, subjectName, hsubject, -, -, -, -, rfl⟩ := h
      obtain ⟨hissuer, hissuerOctets⟩ := Name.faithful_of_ofElement? hissuer
      obtain ⟨hsubject, hsubjectOctets⟩ := Name.faithful_of_ofElement? hsubject
      -- Only a version may stand before the serial number, so the row is known up to what is skipped.
      obtain ⟨version, rfl⟩ := Der.suffix_of_skipOptional hrest
      refine Names.mono ⟨hissuer, hsubject, version.flatMap Element.encode ++ serial.encode ++ algorithm.encode,
        validity.encode, key.encode ++ trailer.flatMap Element.encode, rfl⟩ ?_
      rw [Element.content_of_children? hrow]
      refine List.IsInfix.trans ?_ (Element.suffix_encode _).isInfix
      simp only [List.flatMap_append, List.flatMap_cons, hissuerOctets, hsubjectOctets, List.append_assoc]
      exact List.infix_rfl
    · cases h
  · cases h

/-- The names of a certificate stand in the octets that it was read from. -/
theorem names_of_ofDer? {der : Bytes} {c : Certificate} (h : ofDer? der = some c) : c.Names der := by
  simp only [ofDer?, Option.bind_eq_bind, Option.bind_eq_some_iff] at h
  obtain ⟨elements, helements, h⟩ := h
  split at h
  · rename_i outer
    simp only [Option.bind_eq_some_iff] at h
    obtain ⟨row, hrow, h⟩ := h
    split at h
    · rename_i signed algorithm signature
      split at h
      · refine (names_of_ofSigned? h).mono ?_
        rw [Der.eq_encode_of_elements? helements, List.flatMap_singleton, Element.content_of_children? hrow]
        refine List.IsInfix.trans ?_ (Element.suffix_encode _).isInfix
        exact (List.prefix_append _ _).isInfix
      · cases h
    · cases h
  · cases h

end Certificate

end ClientAuth
