import ClientAuth.Proofs.Encoding.CertificateText
import ClientAuth.Proofs.Encoding.Elements
import Mathlib.Data.List.Permutation

/-!
# Which order the fields of a name have

The fields of a name list its attributes set by set, in the order in which the sets are written. Within a set they stand in
ascending order of their encodings, which is the order in which they are written exactly if the set is written so
(`AttributeSet.Faithful.ordered_eq_written_iff`). `Certificate.fields_follow_encodings` says it of the octets of a
certificate, and what it means for the choice among several identifiers.
-/

namespace ClientAuth

namespace AttributeSet

/-- Every attribute counts once. -/
theorem ordered_perm (s : AttributeSet) : s.ordered.Perm s.written := List.mergeSort_perm _ _

/-- Attributes with another encoding either come before one or behind it. -/
theorem encoding_lt_of_precedes {a b : Attribute} (h : precedes a b = true) (hne : a.encoding ≠ b.encoding) :
    a.encoding < b.encoding := by
  by_contra hnot
  have hle : ¬b.encoding < a.encoding := by simpa [precedes] using h
  exact hne (List.le_antisymm hle hnot)

theorem precedes_of_encoding_lt {a b : Attribute} (h : a.encoding < b.encoding) : precedes a b = true := by
  simpa [precedes] using List.lt_asymm h

/-- The attributes of a set count in ascending order of their encodings. -/
theorem Faithful.pairwise_ordered {s : AttributeSet} (h : s.Faithful) :
    s.ordered.Pairwise fun a b => a.encoding < b.encoding := by
  have hsorted : s.ordered.Pairwise fun a b => precedes a b = true := by
    refine List.pairwise_mergeSort (fun a b c hab hbc => ?_) (fun a b => ?_) _
    · simp only [precedes, Bool.not_eq_true', decide_eq_false_iff_not] at hab hbc ⊢
      exact List.le_trans hab hbc
    · simp only [precedes, Bool.or_eq_true, Bool.not_eq_true', decide_eq_false_iff_not]
      exact List.le_total _ _
  have hdistinct : (s.ordered.map (·.encoding)).Nodup := ((s.ordered_perm.map _).nodup_iff).2 h.nodup
  exact (hsorted.and (List.pairwise_map.1 hdistinct)).imp fun hab => encoding_lt_of_precedes hab.1 hab.2

/-- A set that is written in ascending order of the encodings. -/
def Ascending (s : AttributeSet) : Prop := s.written.Pairwise fun a b => a.encoding < b.encoding

instance (s : AttributeSet) : Decidable s.Ascending := inferInstanceAs (Decidable (List.Pairwise _ _))

/-- The attributes of a set count in the order in which they are written exactly if that is ascending. -/
theorem Faithful.ordered_eq_written_iff {s : AttributeSet} (h : s.Faithful) : s.ordered = s.written ↔ s.Ascending := by
  constructor
  · intro heq
    rw [Ascending, ← heq]
    exact h.pairwise_ordered
  · intro hascending
    exact List.mergeSort_of_pairwise (hascending.imp precedes_of_encoding_lt)

end AttributeSet

/-- The field that lists an attribute. -/
def Attribute.field (a : Attribute) : String × String := (a.key, a.text)

/-- A field is an identifying one exactly if its attribute has the type of user identifiers. -/
theorem Attribute.identifies_field (a : Attribute) : ClientId.identifies a.field = decide (a.type = userId) :=
  Bool.eq_iff_iff.2 ((mentions_keyOf a.type).trans decide_eq_true_iff.symm)

namespace Name

/-- A name whose sets are all written in ascending order of the encodings. -/
def Ascending (n : Name) : Prop := ∀ s ∈ n.sets, s.Ascending

instance (n : Name) : Decidable n.Ascending := List.decidableBAll _ _

/-- Every attribute of a name counts once. -/
theorem attributes_perm (n : Name) : n.attributes.Perm n.written :=
  List.Perm.flatMap (List.Perm.refl n.sets) fun s _ => s.ordered_perm

/-- The attributes of a name count in the order in which they are written exactly if that is ascending in every set. -/
theorem Faithful.attributes_eq_written_iff {n : Name} (h : n.Faithful) : n.attributes = n.written ↔ n.Ascending := by
  obtain ⟨sets⟩ := n
  induction sets with
  | nil => exact ⟨fun _ => List.forall_mem_nil _, fun _ => rfl⟩
  | cons s sets ih =>
    obtain ⟨hs, hsets⟩ := List.forall_mem_cons.1 h
    have hhead := hs.ordered_eq_written_iff
    have htail := ih hsets
    rw [Ascending, List.forall_mem_cons, ← hhead]
    refine Iff.trans ?_ (and_congr_right' htail)
    simp only [attributes, written, List.flatMap_cons]
    -- A set has as many attributes in either order, so the rows agree only if they agree set by set.
    constructor
    · exact fun heq => List.append_inj heq s.ordered_perm.length_eq
    · rintro ⟨heq, hrest⟩
      rw [heq, hrest]

/-- How fields list the attributes of a name. -/
structure ListedBy (n : Name) (fields : List (String × String)) : Prop where
  /-- They list the attributes as these count. -/
  fields : fields = n.attributes.map Attribute.field
  /-- Each attribute counts exactly once. -/
  once : n.attributes.Perm n.written
  /-- The sets follow each other as they are written, and within one the encodings ascend. -/
  rows : ∃ rows : List (List Attribute), n.attributes = rows.flatten ∧
    List.Forall₂ (fun row s => row.Perm s.written ∧ row.Pairwise fun a b => a.encoding < b.encoding) rows n.sets
  /-- That is the order in which the attributes are written exactly if each set is written so. -/
  written : n.attributes = n.written ↔ n.Ascending

theorem Faithful.listedBy_fields {n : Name} (h : n.Faithful) : n.ListedBy n.fields where
  fields := rfl
  once := n.attributes_perm
  rows := by
    refine ⟨n.sets.map AttributeSet.ordered, List.flatMap_def, ?_⟩
    rw [List.forall₂_map_left_iff, List.forall₂_same]
    exact fun s hs => ⟨s.ordered_perm, (h s hs).pairwise_ordered⟩
  written := h.attributes_eq_written_iff

end Name

namespace Certificate

/-- If the fields of the subject are unforged, then its client identifier is the value of the first or last attribute that
has the type of user identifiers, in the order in which attributes count. -/
theorem clientId_of_attributes {c : Certificate} (hunforged : ClientId.Unforged c.subjectFields)
    (selection : UidSelection) :
    c.clientId selection = ((selection.choose (c.subject.attributes.filter (·.type = Attribute.userId))).map fun a =>
      String.ofList (Text.trimEnd a.text.toList)).getD "" := by
  have hfields : c.subjectFields.filter ClientId.identifies =
      (c.subject.attributes.filter (·.type = Attribute.userId)).map Attribute.field := by
    change (c.subject.attributes.map Attribute.field).filter ClientId.identifies = _
    rw [List.filter_map]
    congr 2
    funext a
    exact a.identifies_field
  rw [clientId_eq, hunforged.flatMap_carried, hfields, UidSelection.choose_map, UidSelection.choose_map]
  cases selection.choose (c.subject.attributes.filter (·.type = Attribute.userId)) <;> rfl

/-- The fields of a certificate follow the octets that it was read from, but for the order within a set. The octets of its
names stand in them, and the fields of either name list every attribute once, set by set as written; within a set they
ascend with the encodings, so that they follow the octets exactly if every set is written in that order. With unforged
fields the first or last user identifier in this order is selected. -/
theorem fields_follow_encodings {der : Bytes} {c : Certificate} (h : fromDer der = .ok c) :
    c.Names der ∧ c.issuer.ListedBy c.issuerFields ∧ c.subject.ListedBy c.subjectFields ∧
    (ClientId.Unforged c.subjectFields → ∀ selection, c.clientId selection =
      ((selection.choose (c.subject.attributes.filter (·.type = Attribute.userId))).map fun a =>
        String.ofList (Text.trimEnd a.text.toList)).getD "") := by
  have hnames := names_of_ofDer? (fromDer_eq_ok_iff.1 h).2
  exact ⟨hnames, hnames.issuer.listedBy_fields, hnames.subject.listedBy_fields, clientId_of_attributes⟩

/-- A set with the user identifiers `zoe` and `amy`, written in this order: the first one of the certificate is `amy`. -/
theorem fields_follow_encodings_descending :
    let der : Bytes :=
      [48, 112, 48, 99, 2, 1, 1, 48, 5, 6, 3, 42, 3, 4, 48, 0, 48, 30, 23, 13, 55, 48, 48, 49, 48, 49,
        48, 48, 48, 48, 48, 48, 90, 23, 13, 55, 48, 48, 49, 48, 50, 48, 48, 48, 48, 48, 48, 90, 48, 40, 49, 38,
        48, 17, 6, 10, 9, 146, 38, 137, 147, 242, 44, 100, 1, 1, 12, 3, 122, 111, 101,
        48, 17, 6, 10, 9, 146, 38, 137, 147, 242, 44, 100, 1, 1, 12, 3, 97, 109, 121, 48, 11, 48, 5, 6, 3, 42,
        3, 4, 3, 2, 0, 4, 48, 5, 6, 3, 42, 3, 4, 3, 2, 0, 1]
    ∃ c, fromDer der = .ok c ∧ c.subject.written.map Attribute.field = [("UID", "zoe"), ("UID", "amy")] ∧
      c.subjectFields = [("UID", "amy"), ("UID", "zoe")] ∧ ¬c.subject.Ascending ∧
      ClientId.Unforged c.subjectFields ∧ c.clientId .first = "amy" ∧ c.clientId .last = "zoe" := by
  intro der
  let zoe : Attribute :=
    ⟨Attribute.userId, [122, 111, 101], [48, 17, 6, 10, 9, 146, 38, 137, 147, 242, 44, 100, 1, 1, 12, 3, 122, 111, 101]⟩
  let amy : Attribute :=
    ⟨Attribute.userId, [97, 109, 121], [48, 17, 6, 10, 9, 146, 38, 137, 147, 242, 44, 100, 1, 1, 12, 3, 97, 109, 121]⟩
  have hread : (fromDer der).toOption.map (·.subject) = some ⟨[⟨[zoe, amy]⟩]⟩ := by decide +kernel
  obtain ⟨c, hc, hsubject⟩ := exists_ok_of_map_toOption hread
  obtain ⟨-, -, hlisted, hselected⟩ := fields_follow_encodings hc
  have hattributes : c.subject.attributes = [amy, zoe] := by
    rw [hsubject]
    cbv
  have hwritten : c.subject.written = [zoe, amy] := by
    rw [hsubject]
    rfl
  have hfields : c.subjectFields = [("UID", "amy"), ("UID", "zoe")] := by
    rw [hlisted.fields, hattributes]
    decide +kernel
  have hunforged : ClientId.Unforged c.subjectFields := by
    rw [hfields]
    exact ⟨by decide, by decide⟩
  refine ⟨c, hc, ?_, hfields, ?_, hunforged, ?_, ?_⟩
  · rw [hwritten]
    decide +kernel
  · rw [← hlisted.written, hattributes, hwritten]
    decide
  · rw [hselected hunforged, hattributes]
    decide +kernel
  · rw [hselected hunforged, hattributes]
    decide +kernel

end Certificate

end ClientAuth
