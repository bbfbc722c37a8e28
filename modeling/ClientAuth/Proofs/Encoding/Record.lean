import ClientAuth.Proofs.Encoding.Cipher
import ClientAuth.Proofs.Encoding.Numeral
import ClientAuth.Vault.Entry
import ClientAuth.Wire
import Mathlib.Data.Fintype.Basic
import Mathlib.Tactic.Choose

/-!
# Values survive their documents

A codec is faithful if each value that it writes is cut into tokens from which it reads that value again, and nothing
behind them. A record is read out of an object in whatever order its members stand there, and among whatever others
(`Record.read_of_takes`). So records are faithful if their members are, have different names, and are left out only where
an object without them stands for the same value (`Record.Sound.faithful`). A credential that was put into an envelope is
the one that is found there (`Cipher.discloseValue_encloseValue`).
-/

namespace ClientAuth

namespace Json

/-- A codec reads what it writes, and no further. -/
def Codec.Faithful {α : Type} (c : Codec α) : Prop :=
  ∀ a, ∃ ts, Lexes (c.write a) ts ∧ ∀ more, c.read (ts ++ more) = .ok (a, more)

namespace Codec

theorem faithful_text : text.Faithful := by
  intro s
  exact ⟨[.text (some s)], Lexes.text s, fun _ => rfl⟩

theorem faithful_word : word.Faithful := by
  intro n
  exact ⟨[.number (some (.natural n))], Lexes.natural n, fun _ => rfl⟩

theorem faithful_textOrNull : textOrNull.Faithful := by
  intro s
  exact ⟨[.text (some s)], Lexes.text s, fun _ => rfl⟩

/-- A document holds a value if its tokens are read as that value, and nothing is left. -/
theorem parse_of_lexes {α : Type} {c : Codec α} {text : List Char} {ts : List Token} {a : α} (htext : Lexes text ts)
    (hread : c.read ts = .ok (a, [])) : c.parse (Utf8.encode (String.ofList text)) = .ok a := by
  rw [parse, htext.tokens_eq, hread]

/-- A document holds what was written. -/
theorem Faithful.parse_print {α : Type} {c : Codec α} (hc : c.Faithful) (a : α) :
    c.parse (Utf8.encode (c.print a)) = .ok a := by
  obtain ⟨ts, hlexes, hread⟩ := hc a
  have hall := hread []
  rw [List.append_nil] at hall
  exact parse_of_lexes hlexes hall

end Codec

namespace Record

variable {n : Nat} {τ : Fin n → Type} (r : Record n τ)

/-- A record whose members can be told apart, are read as they were written, and stand for the same value in an object
where they are left out. -/
structure Sound : Prop where
  names : Function.Injective fun i => (r.members i).name
  members : ∀ i, (r.members i).codec.Faithful
  omitted : ∀ i a, (r.members i).omitted a = true → (r.members i).inObject = some a

/-- The members of these positions have been read. -/
def shown (values : (i : Fin n) → τ i) (is : List (Fin n)) : Partial τ :=
  fun i => if i ∈ is then some (values i) else none

variable {r} {values : (i : Fin n) → τ i}

theorem shown_nil : shown values [] = Partial.nothing := by
  funext i
  simp [shown, Partial.nothing]

/-- One more member that has been read. -/
theorem set_shown (is : List (Fin n)) (i : Fin n) : (shown values is).set i (values i) = shown values (is ++ [i]) := by
  funext j
  by_cases hij : i = j
  · subst hij
    simp [shown, Partial.set]
  · have hji : j ≠ i := Ne.symm hij
    simp [shown, Partial.set, hij, hji]

/-- Members that can be told apart are found by their names alone. -/
theorem find?_eq_some_iff (hnames : Function.Injective fun i => (r.members i).name) {name : String} {i : Fin n} :
    r.find? name = some i ↔ name = (r.members i).name := by
  constructor
  · intro h
    have hname := List.find?_some h
    exact (beq_iff_eq.1 hname).symm
  · rintro rfl
    cases hfind : r.find? (r.members i).name with
    | none =>
      have hnone := List.find?_eq_none.1 hfind i (List.mem_finRange i)
      simp at hnone
    | some j =>
      have hname := List.find?_some hfind
      rw [hnames (beq_iff_eq.1 hname)]

theorem Sound.find? (hr : r.Sound) (i : Fin n) : r.find? (r.members i).name = some i :=
  (find?_eq_some_iff hr.names).2 rfl

variable (r) in
/-- The members of a record that an object has, in the order in which they stand there. -/
def positions (es : List (String × List Token)) : List (Fin n) := es.filterMap fun e => r.find? e.1

variable (r values) in
/-- A member of an object is read as the value that it is of the record, or passed over if the record has none of its
name. -/
def Takes (e : String × List Token) : Prop :=
  (∀ i, r.find? e.1 = some i → ∀ more, (r.members i).codec.read (e.2 ++ more) = .ok (values i, more)) ∧
    (r.find? e.1 = none → ∀ more, skipValue (e.2 ++ more) = .ok more)

/-- A member that stands for no value that has been read is taken. -/
theorem readMember_of_takes {is : List (Fin n)} {e : String × List Token} (he : r.Takes values e)
    (hnodup : (is ++ r.positions [e]).Nodup) (more : List Token) :
    r.readMember (shown values is) (memberTokens e ++ more) = .ok (shown values (is ++ r.positions [e]), more) := by
  cases hfind : r.find? e.1 with
  | none =>
    have hnone : r.positions [e] = [] := by simp [positions, hfind]
    simp only [Record.readMember, memberTokens, List.cons_append, readName, bind, Except.bind, hfind, expect, if_true,
      he.2 hfind, pure, Except.pure, hnone, List.append_nil]
  | some i =>
    have hone : r.positions [e] = [i] := by simp [positions, hfind]
    rw [hone] at hnodup ⊢
    have hi : i ∉ is := fun h => (List.nodup_append.1 hnodup).2.2 i h i List.mem_cons_self rfl
    have hunread : (shown values is i).isSome = false := by simp [shown, hi]
    simp only [Record.readMember, memberTokens, List.cons_append, readName, bind, Except.bind, hfind, hunread,
      Bool.false_eq_true, if_false, expect, if_true, he.1 i hfind, pure, Except.pure, set_shown]

/-- Members behind the first one are taken one by one, up to the end of the object. -/
theorem readRest_of_takes (more : List Token) {es : List (String × List Token)} (hes : ∀ e ∈ es, r.Takes values e)
    {is : List (Fin n)} (hnodup : (is ++ r.positions es).Nodup) {fuel : Nat} (hfuel : es.length < fuel) :
    r.readRest fuel (shown values is) (es.flatMap (fun e => .comma :: memberTokens e) ++ .closeBrace :: more) =
      .ok (shown values (is ++ r.positions es), more) := by
  induction es generalizing is fuel with
  | nil =>
    obtain ⟨fuel, rfl⟩ : ∃ k, fuel = k + 1 := ⟨fuel - 1, by omega⟩
    rw [List.flatMap_nil, List.nil_append, positions, List.filterMap_nil, List.append_nil, Record.readRest]
  | cons e es ih =>
    obtain ⟨fuel, rfl⟩ : ∃ k, fuel = k + 1 := ⟨fuel - 1, by omega⟩
    have hsplit : is ++ r.positions (e :: es) = is ++ r.positions [e] ++ r.positions es := by
      rw [List.append_assoc, positions, positions, positions, ← List.filterMap_append, List.singleton_append]
    rw [hsplit] at hnodup ⊢
    rw [List.length_cons] at hfuel
    have hmember := readMember_of_takes (hes e List.mem_cons_self) (List.nodup_append.1 hnodup).1
      (es.flatMap (fun e => .comma :: memberTokens e) ++ .closeBrace :: more)
    have htail := ih (fun e he => hes e (List.mem_cons_of_mem _ he)) hnodup (Nat.lt_of_succ_lt_succ hfuel)
    rw [List.flatMap_cons, List.append_assoc, List.cons_append, Record.readRest]
    simp only [hmember, bind, Except.bind, htail]

/-- Groups of one token or more have as many tokens at least as there are groups. -/
theorem length_le_length_flatMap {ι α : Type} {f : ι → List α} (is : List ι) (hf : ∀ i, 1 ≤ (f i).length) :
    is.length ≤ (is.flatMap f).length := by
  induction is with
  | nil => exact Nat.le_refl 0
  | cons i is ih =>
    have hi := hf i
    rw [List.flatMap_cons, List.length_append, List.length_cons]
    omega

/-- The members of an object are taken, whatever their order. -/
theorem readObject_of_takes (more : List Token) {es : List (String × List Token)} (hes : ∀ e ∈ es, r.Takes values e)
    (hnodup : (r.positions es).Nodup) :
    r.readObject (commaTokens (es.map memberTokens) ++ .closeBrace :: more) =
      .ok (shown values (r.positions es), more) := by
  cases es with
  | nil =>
    rw [positions, List.filterMap_nil, shown_nil]
    rfl
  | cons e es =>
    have hflat : (es.map memberTokens).flatMap (.comma :: ·) = es.flatMap fun e => .comma :: memberTokens e :=
      List.flatMap_map ..
    have hsplit : r.positions (e :: es) = r.positions [e] ++ r.positions es := by
      rw [positions, positions, positions, ← List.filterMap_append, List.singleton_append]
    rw [hsplit] at hnodup ⊢
    have hfirst : ([] ++ r.positions [e]).Nodup := (List.nodup_append.1 hnodup).1
    have hmember := readMember_of_takes (hes e List.mem_cons_self) hfirst
      (es.flatMap (fun e => .comma :: memberTokens e) ++ .closeBrace :: more)
    have hlength : es.length ≤ (es.flatMap fun e => .comma :: memberTokens e).length :=
      length_le_length_flatMap _ fun _ => Nat.succ_le_of_lt (Nat.succ_pos _)
    have hfuel : es.length < (es.flatMap (fun e => .comma :: memberTokens e) ++ .closeBrace :: more).length + 1 := by
      rw [List.length_append]
      omega
    have hrest := readRest_of_takes more (fun e he => hes e (List.mem_cons_of_mem _ he)) hnodup hfuel
    rw [shown_nil, List.nil_append] at hmember
    rw [List.map_cons, commaTokens_cons, hflat, List.append_assoc]
    unfold Record.readObject
    simp only [memberTokens, List.cons_append] at hmember hrest ⊢
    simp only [hmember, bind, Except.bind, hrest]

/-- Members that were left out are filled in as what they were. -/
theorem complete_shown {is l : List (Fin n)} (hl : ∀ i ∈ l, i ∉ is → (r.members i).inObject = some (values i)) :
    r.complete (shown values is) l = .ok (shown values (is ++ l)) := by
  induction l generalizing is with
  | nil => rw [List.append_nil, complete]
  | cons i l ih =>
    have hrest : ∀ j ∈ l, j ∉ is ++ [i] → (r.members j).inObject = some (values j) := fun j hj hnot =>
      hl j (List.mem_cons_of_mem _ hj) fun h => hnot (List.mem_append_left _ h)
    have hnext := ih hrest
    rw [List.append_assoc, List.singleton_append] at hnext
    by_cases hi : i ∈ is
    · have hread : shown values is i = some (values i) := if_pos hi
      have hsame : shown values (is ++ [i]) = shown values is := by
        funext j
        by_cases hj : j = i
        · subst hj
          simp [shown, hi]
        · simp [shown, hj]
      rw [hsame] at hnext
      simp only [complete, hread, hnext]
    · have hunread : shown values is i = none := if_neg hi
      simp only [complete, hunread, hl i List.mem_cons_self hi, set_shown, hnext]

/-- Once every member has been read there is a value for each. -/
theorem all?_shown {is : List (Fin n)} (his : ∀ i, i ∈ is) : (shown values is).all? = some values := by
  have hvalue : ∀ i, shown values is i = some (values i) := fun i => if_pos (his i)
  have hsome : ∀ i, (shown values is i).isSome = true := fun i => by rw [hvalue i]; rfl
  rw [Partial.all?, dif_pos hsome]
  refine congrArg some (funext fun i => ?_)
  simp only [hvalue, Option.get_some]

/-- The members that are written are those that are not left out. -/
theorem filterMap_writeMember? (values : (i : Fin n) → τ i) (is : List (Fin n)) :
    is.filterMap (r.writeMember? values) = (is.filter fun i => !(r.members i).omitted (values i)).map fun i =>
      writeText (r.members i).name ++ ':' :: (r.members i).codec.write (values i) := by
  induction is with
  | nil => rfl
  | cons i is ih =>
    by_cases hi : (r.members i).omitted (values i) = true
    · have hnone : r.writeMember? values i = none := if_pos hi
      rw [List.filterMap_cons_none hnone, ih, List.filter_cons_of_neg (by simp [hi])]
    · have hsome : r.writeMember? values i =
          some (writeText (r.members i).name ++ ':' :: (r.members i).codec.write (values i)) := if_neg hi
      rw [List.filterMap_cons_some hsome, ih, List.filter_cons_of_pos (by simp [hi]), List.map_cons]

/-- A record is read out of an object whose members it takes, if each of its own members stands there once, or not at all
where its absence stands for its value. -/
theorem read_of_takes {es : List (String × List Token)} (hes : ∀ e ∈ es, r.Takes values e)
    (hnodup : (r.positions es).Nodup) (habsent : ∀ i, i ∉ r.positions es → (r.members i).inObject = some (values i))
    (more : List Token) :
    r.read (.openBrace :: commaTokens (es.map memberTokens) ++ [.closeBrace] ++ more) = .ok (values, more) := by
  have hobject := readObject_of_takes more hes hnodup
  have hcomplete : r.complete (shown values (r.positions es)) (List.finRange n) =
      .ok (shown values (r.positions es ++ List.finRange n)) := complete_shown fun i _ => habsent i
  have hall : (shown values (r.positions es ++ List.finRange n)).all? = some values :=
    all?_shown fun i => List.mem_append_right _ (List.mem_finRange i)
  rw [List.append_assoc, List.singleton_append, List.cons_append, read]
  simp only [hobject, bind, Except.bind, hcomplete, read.finish, hall]

/-- Records of sound members are read as they were written. -/
theorem Sound.read_write (hr : r.Sound) (values : (i : Fin n) → τ i) :
    ∃ ts, Lexes (r.write values) ts ∧ ∀ more, r.read (ts ++ more) = .ok (values, more) := by
  choose tokensOf hlexes hread using fun i => hr.members i (values i)
  let written := (List.finRange n).filter fun i => !(r.members i).omitted (values i)
  let entry (i : Fin n) : String × List Token := ((r.members i).name, tokensOf i)
  have hwritten : (List.finRange n).filterMap (r.writeMember? values) =
      written.map fun i => writeText (r.members i).name ++ ':' :: (r.members i).codec.write (values i) :=
    filterMap_writeMember? values (List.finRange n)
  have hmember : ∀ i, Lexes (writeText (r.members i).name ++ ':' :: (r.members i).codec.write (values i))
      (memberTokens (entry i)) := fun i => (hlexes i).member _
  have hpositions : r.positions (written.map entry) = written := by
    rw [positions, List.filterMap_map]
    exact (List.filterMap_congr fun i _ => hr.find? i).trans List.filterMap_some
  have htakes : ∀ e ∈ written.map entry, r.Takes values e := by
    intro e he
    obtain ⟨i, -, rfl⟩ := List.mem_map.1 he
    refine ⟨fun j hj => ?_, fun hnone => ?_⟩
    · obtain rfl := Option.some.inj ((hr.find? i).symm.trans hj)
      exact hread i
    · cases (hr.find? i).symm.trans hnone
  have habsent : ∀ i, i ∉ r.positions (written.map entry) → (r.members i).inObject = some (values i) := by
    intro i hi
    refine hr.omitted i (values i) ?_
    rw [hpositions] at hi
    simpa [written] using hi
  have hnodup : (r.positions (written.map entry)).Nodup := by
    rw [hpositions]
    exact (List.nodup_finRange n).filter _
  refine ⟨.openBrace :: commaTokens ((written.map entry).map memberTokens) ++ [.closeBrace], ?_,
    read_of_takes htakes hnodup habsent⟩
  rw [write, hwritten, List.map_map]
  exact Lexes.cons (by decide) (lexes_commaSeparated (t := .closeBrace) (by decide) written fun i _ => hmember i)

/-- The codec of what the members of a sound record make up is faithful. -/
theorem Sound.faithful (hr : r.Sound) {α : Type} {make : ((i : Fin n) → τ i) → α} {values : α → (i : Fin n) → τ i}
    (hmake : ∀ a, make (values a) = a) : (r.codec make values).Faithful := by
  intro a
  obtain ⟨ts, hlexes, hread⟩ := hr.read_write (values a)
  refine ⟨ts, hlexes, fun more => ?_⟩
  simp only [codec, hread, Except.map, hmake]

end Record

end Json

open Json (Codec)

theorem Identity.faithful_codec : Identity.codec.Faithful := by
  have hsound : Identity.record.Sound := by
    refine ⟨by decide, ?_, ?_⟩
    · intro i
      match i with
      | 0 | 1 | 2 => exact Codec.faithful_textOrNull
    · intro i a h
      match i with
      | 0 | 1 | 2 => cases h
  exact hsound.faithful fun i => rfl

theorem Credential.faithful_codec : Credential.codec.Faithful := by
  have hsound : Credential.record.Sound := by
    refine ⟨by decide, ?_, ?_⟩
    · intro i
      match i with
      | 0 => exact Codec.faithful_text
      | 1 => exact Codec.faithful_word
      | 2 => exact Identity.faithful_codec
    · intro i a h
      match i with
      | 0 | 1 | 2 => cases h
  exact hsound.faithful fun c => rfl

namespace Cipher

/-- A value that was put into an envelope is the one that is found there. -/
theorem discloseValue_encloseValue (c : Cipher) {α : Type} {codec : Codec α} (hcodec : codec.Faithful) {n : Nonces}
    (hn : n.Sized) (a : α) : c.discloseValue codec (c.encloseValue codec n a).1 = .ok a := by
  have hoctets := c.disclose_enclose hn (Utf8.encode (codec.print a))
  have henvelope : (c.encloseValue codec n a).1 = (c.enclose n (Utf8.encode (codec.print a))).1 := rfl
  rw [henvelope, discloseValue, hoctets]
  simp only [bind, Except.bind, hcodec.parse_print a]
  rfl

/-- Putting a value into an envelope draws from the same row of nonces. -/
theorem row_encloseValue (c : Cipher) {α : Type} (codec : Codec α) (n : Nonces) (a : α) :
    (c.encloseValue codec n a).2.row = n.row :=
  c.row_enclose n (Utf8.encode (codec.print a))

end Cipher

end ClientAuth
