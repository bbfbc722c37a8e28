import ClientAuth.Identity
import ClientAuth.Proofs.Encoding.CertificateText
import ClientAuth.Proofs.Encoding.Elements
import Mathlib.Data.List.Nodup
import Mathlib.Data.List.Permutation

/-!
# Keys tell the types of attributes

The table of short keys pairs ten types with ten names, each of them once, and what the other types are written as is never
one of these names. So a short key in a field stands for one type (`Attribute.keyOf_eq_iff`), and the first common name of a
name can be found among its attributes, by the type, or among its fields, by the key (`Name.commonName?_eq_some_iff`).
`Certificate.keys_tell_types` says it of a certificate and of the identity that it claims.
-/

namespace ClientAuth

namespace Attribute

open Der (Oid)

theorem nodup_types : (shortKeys.map Prod.fst).Nodup := by decide

theorem nodup_names : (shortKeys.map Prod.snd).Nodup := by decide

/-- Arcs with dots between them are no short key: each of these has a letter. -/
theorem dotted_not_mem_names (type : Oid) : type.dotted ∉ shortKeys.map Prod.snd := by
  intro hmem
  obtain ⟨entry, hentry, hname⟩ := List.mem_map.1 hmem
  have hletter : ∀ entry ∈ shortKeys, entry.2.toList.any (fun c => !c.isDigit && c != '.') = true := by decide
  obtain ⟨c, hc, hneither⟩ := List.any_eq_true.1 (hletter entry hentry)
  rw [hname] at hc
  rcases digit_or_dot_of_mem_dotted hc with hdigit | rfl
  · simp [hdigit] at hneither
  · cases hneither

/-- Arcs with dots between them have none of the characters that are told apart in a subject, nor the marker. -/
theorem dotted_plain (type : Oid) :
    Text.mentions ClientId.marker type.dotted.toList = false ∧ ',' ∉ type.dotted.toList ∧ '=' ∉ type.dotted.toList := by
  have hnot {c : Char} (hc : ¬(c.isDigit = true ∨ c = '.')) : c ∉ type.dotted.toList :=
    fun hmem => hc (digit_or_dot_of_mem_dotted hmem)
  exact ⟨Text.mentions_eq_false (hnot (by decide)), hnot (by decide), hnot (by decide)⟩

/-- A type that the table does not have is written with its arcs. -/
theorem keyOf_of_not_mem {type : Oid} (h : type ∉ shortKeys.map Prod.fst) : keyOf type = type.dotted := by
  rcases keyOf_cases type with hmem | ⟨-, hdotted⟩
  · exact absurd (List.mem_map_of_mem hmem) h
  · exact hdotted

/-- A key is a short one exactly for the type that the table pairs with it. -/
theorem keyOf_eq_iff {entry : Oid × String} (hentry : entry ∈ shortKeys) (type : Oid) :
    keyOf type = entry.2 ↔ type = entry.1 := by
  constructor
  · intro hkey
    rcases keyOf_cases type with hmem | ⟨-, hdotted⟩
    · exact congrArg Prod.fst (List.inj_on_of_nodup_map nodup_names hmem hentry hkey)
    · rw [hkey] at hdotted
      exact absurd (hdotted ▸ List.mem_map_of_mem hentry) (dotted_not_mem_names type)
  · rintro rfl
    rcases keyOf_cases entry.1 with hmem | ⟨hnot, -⟩
    · exact congrArg Prod.snd (List.inj_on_of_nodup_map nodup_types hmem hentry rfl)
    · exact absurd (List.mem_map_of_mem hentry) hnot

/-- The types of the table can be read from their octets. -/
theorem ofContent?_of_mem_shortKeys : ∀ entry ∈ shortKeys, Oid.ofContent? entry.1.content = some entry.1 := by decide

/-- A type that was read is one of the table exactly if its octets are. -/
theorem Faithful.type_eq_iff {a : Attribute} (h : a.Faithful) {entry : Oid × String} (hentry : entry ∈ shortKeys) :
    a.type = entry.1 ↔ a.type.content = entry.1.content := by
  constructor
  · exact congrArg Oid.content
  · intro hcontent
    have hread := h.type
    rw [hcontent, ofContent?_of_mem_shortKeys entry hentry] at hread
    exact (Option.some.inj hread).symm

end Attribute

namespace Name

/-- The key of common names. -/
def commonKey : String := "CN"

/-- A field has the key of common names exactly if it lists one. -/
theorem key_eq_commonKey_iff (a : Attribute) : a.key = commonKey ↔ a.type = Attribute.commonName := by
  have hentry : (Attribute.commonName, commonKey) ∈ Attribute.shortKeys := List.mem_cons_self
  exact Attribute.keyOf_eq_iff hentry a.type

/-- The common name of a name is the value of the first field that has the key of common names. -/
theorem commonName?_eq_some_iff (n : Name) (value : String) :
    n.commonName? = some value ↔
      ∃ before behind, n.fields = before ++ (commonKey, value) :: behind ∧ ∀ f ∈ before, f.1 ≠ commonKey := by
  -- The search by type among the attributes is the search by key among the fields.
  have hfind : n.commonName? = (n.fields.find? (·.1 == commonKey)).map Prod.snd := by
    have htest : (fun a : Attribute => a.type == Attribute.commonName) =
        (fun f : String × String => f.1 == commonKey) ∘ fun a => (a.key, a.text) := by
      funext a
      rw [Function.comp_apply, Bool.eq_iff_iff, beq_iff_eq, beq_iff_eq, key_eq_commonKey_iff]
    rw [commonName?, fields, List.find?_map, Option.map_map, htest]
    rfl
  rw [hfind, Option.map_eq_some_iff]
  constructor
  · rintro ⟨⟨key, value⟩, hfirst, rfl⟩
    obtain ⟨hkey, before, behind, hfields, hbefore⟩ := List.find?_eq_some_iff_append.1 hfirst
    obtain rfl : key = commonKey := beq_iff_eq.1 hkey
    exact ⟨before, behind, hfields, fun f hf => by simpa using hbefore f hf⟩
  · rintro ⟨before, behind, hfields, hbefore⟩
    refine ⟨(commonKey, value), List.find?_eq_some_iff_append.2 ⟨beq_self_eq_true _, before, behind, hfields, ?_⟩, rfl⟩
    exact fun f hf => by simpa using hbefore f hf

/-- A name has no common name exactly if no field has the key of common names. -/
theorem commonName?_eq_none_iff (n : Name) : n.commonName? = none ↔ ∀ f ∈ n.fields, f.1 ≠ commonKey := by
  simp only [commonName?, Option.map_eq_none_iff, List.find?_eq_none, beq_iff_eq, fields, List.forall_mem_map, Ne,
    key_eq_commonKey_iff]

/-- How the keys of fields tell the types of the attributes that they list. -/
structure KeyedBy (n : Name) (fields : List (String × String)) : Prop where
  /-- Field by field, a short key stands for the one type that the table pairs with it. -/
  short : List.Forall₂ (fun a f => ∀ entry ∈ Attribute.shortKeys, f.1 = entry.2 ↔ a.type = entry.1) n.attributes fields
  /-- The other types are written with their arcs. -/
  other : List.Forall₂ (fun a f => a.type ∉ Attribute.shortKeys.map Prod.fst → f.1 = a.type.dotted) n.attributes fields
  /-- Attributes have a type of the table exactly if the octets of their types are its own. -/
  octets : ∀ a ∈ n.attributes, ∀ entry ∈ Attribute.shortKeys, a.type = entry.1 ↔ a.type.content = entry.1.content
  /-- The common name is the value of the first field with the key of common names. -/
  commonName : ∀ value, n.commonName? = some value ↔
    ∃ before behind, fields = before ++ (commonKey, value) :: behind ∧ ∀ f ∈ before, f.1 ≠ commonKey
  /-- There is none exactly if there is no such field. -/
  noCommonName : n.commonName? = none ↔ ∀ f ∈ fields, f.1 ≠ commonKey

theorem Faithful.keyedBy_fields {n : Name} (h : n.Faithful) : n.KeyedBy n.fields where
  short := List.forall₂_map_right_iff.2 (List.forall₂_same.2 fun a _ entry hentry => Attribute.keyOf_eq_iff hentry a.type)
  other := List.forall₂_map_right_iff.2 (List.forall₂_same.2 fun a _ => Attribute.keyOf_of_not_mem)
  octets := by
    intro a ha entry hentry
    obtain ⟨s, hs, ha⟩ := List.mem_flatMap.1 ha
    exact ((h s hs).attributes a (List.mem_mergeSort.1 ha)).type_eq_iff hentry
  commonName := n.commonName?_eq_some_iff
  noCommonName := n.commonName?_eq_none_iff

end Name

namespace Certificate

/-- The keys of the fields of a certificate tell the types of its attributes. No two entries of the table of short keys
share a type or a name, and what other types are written as is none of these names and has neither the marker nor a comma
nor an equals sign. In the subject and in the issuer a field has a short key exactly if its attribute has the type that the
table pairs with it, and the common name is the value of the first field with the key of common names. So the identity that
the certificate claims is vouched for by that value of the issuer, and by the whole issuer only if there is no such field. -/
theorem keys_tell_types {der : Bytes} {c : Certificate} (h : fromDer der = .ok c) :
    (Attribute.shortKeys.map Prod.fst).Nodup ∧ (Attribute.shortKeys.map Prod.snd).Nodup ∧
    (∀ type : Der.Oid, type.dotted ∉ Attribute.shortKeys.map Prod.snd ∧
      Text.mentions ClientId.marker type.dotted.toList = false ∧ ',' ∉ type.dotted.toList ∧ '=' ∉ type.dotted.toList) ∧
    c.subject.KeyedBy c.subjectFields ∧ c.issuer.KeyedBy c.issuerFields ∧
    ∀ selection,
      (∀ before value behind, c.issuerFields = before ++ (Name.commonKey, value) :: behind →
        (∀ f ∈ before, f.1 ≠ Name.commonKey) → (Identity.ofCertificate c selection).authenticatedBy = value) ∧
      ((∀ f ∈ c.issuerFields, f.1 ≠ Name.commonKey) →
        (Identity.ofCertificate c selection).authenticatedBy = c.issuer.render) := by
  have hnames := names_of_ofDer? (fromDer_eq_ok_iff.1 h).2
  have hissuer : c.issuer.KeyedBy c.issuerFields := hnames.issuer.keyedBy_fields
  refine ⟨Attribute.nodup_types, Attribute.nodup_names,
    fun type => ⟨Attribute.dotted_not_mem_names type, Attribute.dotted_plain type⟩,
    hnames.subject.keyedBy_fields, hissuer, fun selection => ⟨?named, ?unnamed⟩⟩
  case named =>
    intro before value behind hfields hbefore
    have hvalue := (hissuer.commonName value).2 ⟨before, behind, hfields, hbefore⟩
    rw [Identity.ofCertificate, hvalue, Option.getD_some]
  case unnamed =>
    intro hnone
    rw [Identity.ofCertificate, hissuer.noCommonName.2 hnone, Option.getD_none]

/-- A subject with a given name, which the table does not have, and two common names, the first one of them no UTF-8; and
an issuer without a common name. -/
theorem keys_tell_types_no_utf8 :
    let der : Bytes :=
      [48, 118, 48, 105, 2, 1, 1, 48, 5, 6, 3, 42, 3, 4, 48, 12, 49, 10, 48, 8, 6, 3, 85, 4, 10, 12, 1, 120,
        48, 30, 23, 13, 55, 48, 48, 49, 48, 49, 48, 48, 48, 48, 48, 48, 90, 23, 13, 55, 48, 48, 49, 48, 50, 48, 48, 48,
        48, 48, 48, 90, 48, 34, 49, 20, 48, 8, 6, 3, 85, 4, 42, 12, 1, 65, 48, 8, 6, 3, 85, 4, 3, 12, 1, 255, 49, 10,
        48, 8, 6, 3, 85, 4, 3, 12, 1, 66, 48, 11, 48, 5, 6, 3, 42, 3, 4, 3, 2, 0, 4, 48, 5, 6, 3, 42, 3, 4, 3, 2, 0, 1]
    ∃ c, fromDer der = .ok c ∧ c.subjectFields = [("CN", "\ufffd"), ("2.5.4.42", "A"), ("CN", "B")] ∧
      c.issuerFields = [("O", "x")] ∧ c.subject.commonName? = some "\ufffd" ∧ c.issuer.commonName? = none ∧
      (Identity.ofCertificate c .first).authenticatedBy = "O=x" := by
  intro der
  let written (type : Der.Oid) (b : UInt8) : Attribute :=
    ⟨type, [b], [48, 8, 6, 3] ++ type.content ++ [12, 1, b]⟩
  let givenName : Der.Oid := .ofArcs 2 5 [4, 42]
  let organization : Der.Oid := .ofArcs 2 5 [4, 10]
  let issuer : Name := ⟨[⟨[written organization 120]⟩]⟩
  let subject : Name :=
    ⟨[⟨[written givenName 65, written Attribute.commonName 255]⟩, ⟨[written Attribute.commonName 66]⟩]⟩
  have hread : (fromDer der).toOption.map (fun c => (c.issuer, c.subject)) = some (issuer, subject) := by decide +kernel
  obtain ⟨c, hc, hnames⟩ := exists_ok_of_map_toOption hread
  obtain ⟨hissuer, hsubject⟩ := Prod.mk.inj hnames
  obtain ⟨-, -, -, hkeyed, hkeyedIssuer, hclaimed⟩ := keys_tell_types hc
  have hattributes : c.subject.attributes =
      [written Attribute.commonName 255, written givenName 65, written Attribute.commonName 66] := by
    rw [hsubject]
    cbv
  have hfields : c.subjectFields = [("CN", "\ufffd"), ("2.5.4.42", "A"), ("CN", "B")] := by
    rw [subjectFields, Name.fields, hattributes]
    decide +kernel
  have hissuerFields : c.issuerFields = [("O", "x")] := by
    rw [issuerFields, hissuer]
    decide +kernel
  have hnone : ∀ f ∈ c.issuerFields, f.1 ≠ Name.commonKey := by
    rw [hissuerFields]
    decide
  refine ⟨c, hc, hfields, hissuerFields, ?_, hkeyedIssuer.noCommonName.2 hnone, ?_⟩
  · exact (hkeyed.commonName _).2 ⟨[], _, hfields, List.forall_mem_nil _⟩
  · rw [(hclaimed .first).2 hnone, hissuer]
    decide +kernel

end Certificate

end ClientAuth
