import ClientAuth.Proofs.Encoding.Canonical
import ClientAuth.Proofs.Encoding.Record
import ClientAuth.Proofs.Encoding.Tree

/-!
# Wire types survive their documents

A request, a response and an identity are read out of every object that shows their members: in any order, among members of
any other names and values, with absent members left out or null and with empty claims left out, null or empty. What is
written is such an object, so it is read as what was written, and requests of different parameters are written differently
(`wire_types_survive`).
-/

namespace ClientAuth

namespace Json

/-- What stands under a name in an object. -/
def under (name : String) (ms : List (String × Tree)) : List Tree :=
  ms.filterMap fun m => if m.1 = name then some m.2 else none

theorem under_nil (name : String) : under name [] = [] := rfl

theorem under_cons (name : String) (m : String × Tree) (ms : List (String × Tree)) :
    under name (m :: ms) = (if m.1 = name then [m.2] else []) ++ under name ms := by
  by_cases hm : m.1 = name <;> simp [under, hm]

theorem under_append (name : String) (ms ms' : List (String × Tree)) :
    under name (ms ++ ms') = under name ms ++ under name ms' :=
  List.filterMap_append

theorem mem_under {m : String × Tree} {ms : List (String × Tree)} (hm : m ∈ ms) : m.2 ∈ under m.1 ms :=
  List.mem_filterMap.2 ⟨m, hm, if_pos rfl⟩

/-- A codec reads a tree as a value, and no further. -/
def Codec.Takes {α : Type} (c : Codec α) (t : Tree) (a : α) : Prop := ∀ more, c.read (t.tokens ++ more) = .ok (a, more)

/-- A value is read out of a document of a tree that is taken as that value. -/
theorem Codec.Takes.parse_print {α : Type} {c : Codec α} {t : Tree} {a : α} (h : c.Takes t a) :
    c.parse (Utf8.encode t.print) = .ok a := by
  have hall := h []
  rw [List.append_nil] at hall
  exact parse_of_lexes t.lexes hall

/-- What stands under the name of a member shows a value of it: a tree that is read as that value, or nothing where that
stands for the value. -/
def Member.Shows {α : Type} (m : Member α) (ts : List Tree) (a : α) : Prop :=
  (∃ t, ts = [t] ∧ m.codec.Takes t a) ∨ (ts = [] ∧ m.inObject = some a)

theorem Member.Shows.length_le {α : Type} {m : Member α} {ts : List Tree} {a : α} (h : m.Shows ts a) :
    ts.length ≤ 1 := by
  rcases h with ⟨t, rfl, -⟩ | ⟨rfl, -⟩
  · exact Nat.le_refl 1
  · exact Nat.zero_le 1

/-- What stands under a name but once does not change when members are put into another order, or members of unknown names
are added. -/
theorem under_of_perm {names : List String} {ms ms' extra : List (String × Tree)}
    (hextra : ∀ m ∈ extra, m.1 ∉ names) (hperm : ms'.Perm (ms ++ extra)) {name : String} (hname : name ∈ names)
    (hle : (under name ms).length ≤ 1) : under name ms' = under name ms := by
  have hnone : under name extra = [] :=
    List.filterMap_eq_nil_iff.2 fun m hm => if_neg fun h : m.1 = name => hextra m hm (h ▸ hname)
  have hunder : (under name ms').Perm (under name ms) := by
    have hall : (under name ms').Perm (under name (ms ++ extra)) := hperm.filterMap _
    rwa [under_append, hnone, List.append_nil] at hall
  match hms : under name ms, hle with
  | [], _ => exact List.perm_nil.1 (hms ▸ hunder)
  | [t], _ => exact List.perm_singleton.1 (hms ▸ hunder)

namespace Record

variable {n : Nat} {τ : Fin n → Type} {r : Record n τ} {values : (i : Fin n) → τ i}

/-- What stands under the name of a member is what the record counts as that member. -/
theorem count_positions (hnames : Function.Injective fun i => (r.members i).name) (ms : List (String × Tree))
    (i : Fin n) :
    (r.positions (ms.map fun m => (m.1, m.2.tokens))).count i = (under (r.members i).name ms).length := by
  rw [positions, List.filterMap_map, List.count_filterMap, under, List.length_filterMap_eq_countP]
  refine List.countP_congr fun m _ => ?_
  simp [find?_eq_some_iff hnames]

/-- A record is read out of an object that shows its members. -/
theorem read_object (hnames : Function.Injective fun i => (r.members i).name) {ms : List (String × Tree)}
    (hshows : ∀ i, (r.members i).Shows (under (r.members i).name ms) (values i)) (more : List Token) :
    r.read ((Tree.object ms).tokens ++ more) = .ok (values, more) := by
  -- a member is read once, since no more than one tree stands under its name; members of other names are passed over
  have hcount := count_positions hnames ms
  rw [Tree.tokens, Tree.entryTokens_eq_map]
  refine read_of_takes ?takes ?nodup ?absent more
  case takes =>
    refine List.forall_mem_map.2 fun m hm => ⟨fun i hi more => ?_, fun _ more => m.2.skipValue_tokens more⟩
    have hname : m.1 = (r.members i).name := (find?_eq_some_iff hnames).1 hi
    have hunder := mem_under hm
    rw [hname] at hunder
    rcases hshows i with ⟨t, hone, htakes⟩ | ⟨hnone, -⟩
    · rw [hone, List.mem_singleton] at hunder
      rw [hunder]
      exact htakes more
    · rw [hnone] at hunder
      cases hunder
  case nodup =>
    refine List.nodup_iff_count_le_one.2 fun i => ?_
    rw [hcount]
    exact (hshows i).length_le
  case absent =>
    intro i hi
    rw [← List.count_eq_zero, hcount, List.length_eq_zero_iff] at hi
    rcases hshows i with ⟨t, hone, -⟩ | ⟨-, habsent⟩
    · rw [hi] at hone
      cases hone
    · exact habsent

/-- A value of the codec of a record is read out of an object that shows its members. -/
theorem takes_object (hnames : Function.Injective fun i => (r.members i).name) {α : Type}
    {make : ((i : Fin n) → τ i) → α} {valuesOf : α → (i : Fin n) → τ i} {a : α} (hmake : make (valuesOf a) = a)
    {ms : List (String × Tree)}
    (hshows : ∀ i, (r.members i).Shows (under (r.members i).name ms) (valuesOf a i)) :
    (r.codec make valuesOf).Takes (.object ms) a := by
  intro more
  simp only [codec, read_object hnames hshows more, Except.map, hmake]

end Record

/-- A value survives its documents: what is written is an object that shows it; out of each object that shows it, it is
read; and an object goes on showing it in another order, and with more members of names other than these. -/
structure Codec.Survives {α : Type} (c : Codec α) (names : List String) (a : α)
    (shown : List (String × Tree) → Prop) : Prop where
  parse_print : c.parse (Utf8.encode (c.print a)) = .ok a
  print_eq : ∃ ms, shown ms ∧ c.print a = (Tree.object ms).print
  parse_object : ∀ ms, shown ms → c.parse (Utf8.encode (Tree.object ms).print) = .ok a
  rearranged : ∀ ms ms' extra, shown ms → (∀ m ∈ extra, m.1 ∉ names) → ms'.Perm (ms ++ extra) → shown ms'

/-- A value survives if it is read out of each object that shows it, one of which is what is written. -/
theorem Codec.Survives.of_takes {α : Type} {c : Codec α} {names : List String} {a : α}
    {shown : List (String × Tree) → Prop} {written : List (String × Tree)} (hwritten : shown written)
    (hwrite : c.write a = (Tree.object written).write) (htakes : ∀ ms, shown ms → c.Takes (.object ms) a)
    (hperm : ∀ ms ms' extra, shown ms → (∀ m ∈ extra, m.1 ∉ names) → ms'.Perm (ms ++ extra) → shown ms') :
    c.Survives names a shown := by
  have hprint : c.print a = (Tree.object written).print := congrArg String.ofList hwrite
  refine ⟨?_, ⟨written, hwritten, hprint⟩, fun ms hms => (htakes ms hms).parse_print, hperm⟩
  rw [hprint]
  exact (htakes written hwritten).parse_print

end Json

open Json (Codec Tree Member under under_append under_cons under_nil under_of_perm)

/-- Nothing stands there, or null. -/
def ShowsNothing (ts : List Tree) : Prop := ts = [] ∨ ts = [.null]

/-- A text stands there if there is one; otherwise nothing, or null. -/
def ShowsOptional : Option String → List Tree → Prop
  | some s, ts => ts = [.text s]
  | none, ts => ShowsNothing ts

/-- The text of a claim stands there; for an empty claim there may be nothing, or null. -/
def ShowsClaim (s : String) (ts : List Tree) : Prop := ts = [.text s] ∨ s = "" ∧ ShowsNothing ts

theorem length_le_of_eq {ts : List Tree} {t : Tree} (h : ts = [t]) : ts.length ≤ 1 := (congrArg List.length h).le

theorem ShowsNothing.length_le {ts : List Tree} (h : ShowsNothing ts) : ts.length ≤ 1 := by
  rcases h with rfl | h
  · exact Nat.zero_le 1
  · exact length_le_of_eq h

theorem ShowsOptional.length_le {o : Option String} {ts : List Tree} (h : ShowsOptional o ts) : ts.length ≤ 1 := by
  cases o with
  | some s => exact length_le_of_eq h
  | none => exact ShowsNothing.length_le h

theorem ShowsClaim.length_le {s : String} {ts : List Tree} (h : ShowsClaim s ts) : ts.length ≤ 1 := by
  rcases h with h | ⟨-, h⟩
  · exact length_le_of_eq h
  · exact h.length_le

theorem shows_text {m : Member String} (hcodec : m.codec = .text) {s : String} {ts : List Tree} (h : ts = [.text s]) :
    m.Shows ts s := by
  refine Or.inl ⟨.text s, h, fun more => ?_⟩
  rw [hcodec]
  rfl

theorem ShowsOptional.shows {m : Member (Option String)} (hcodec : m.codec = Codec.text.optional)
    (habsent : m.inObject = some none) {o : Option String} {ts : List Tree} (h : ShowsOptional o ts) : m.Shows ts o := by
  cases o with
  | some s =>
    refine Or.inl ⟨.text s, h, fun more => ?_⟩
    rw [hcodec]
    rfl
  | none =>
    rcases h with h | h
    · exact Or.inr ⟨h, habsent⟩
    · refine Or.inl ⟨.null, h, fun more => ?_⟩
      rw [hcodec]
      rfl

theorem ShowsClaim.shows {m : Member String} (hcodec : m.codec = .textOrNull) (habsent : m.inObject = some "")
    {s : String} {ts : List Tree} (h : ShowsClaim s ts) : m.Shows ts s := by
  rcases h with h | ⟨rfl, h | h⟩
  · refine Or.inl ⟨.text s, h, fun more => ?_⟩
    rw [hcodec]
    rfl
  · exact Or.inr ⟨h, habsent⟩
  · refine Or.inl ⟨.null, h, fun more => ?_⟩
    rw [hcodec]
    rfl

namespace Identity

/-- An object shows an identity. Only what stands under the names of the claims counts. -/
structure ShownBy (i : Identity) (ms : List (String × Tree)) : Prop where
  id : ShowsClaim i.id (under "id" ms)
  authenticatedBy : ShowsClaim i.authenticatedBy (under "authenticatedBy" ms)
  displayName : ShowsClaim i.displayName (under "displayName" ms)

/-- The members that are written. -/
def written (i : Identity) : List (String × Tree) :=
  [("id", .text i.id), ("authenticatedBy", .text i.authenticatedBy), ("displayName", .text i.displayName)]

theorem shownBy_written (i : Identity) : i.ShownBy i.written where
  id := Or.inl rfl
  authenticatedBy := Or.inl rfl
  displayName := Or.inl rfl

theorem write_codec (i : Identity) : codec.write i = (Tree.object i.written).write := rfl

variable {i : Identity} {ms : List (String × Tree)}

/-- An identity is read out of each object that shows it. -/
theorem ShownBy.takes (h : i.ShownBy ms) : codec.Takes (.object ms) i := by
  refine Json.Record.takes_object (by decide) rfl fun position => ?_
  match position with
  | 0 => exact h.id.shows rfl rfl
  | 1 => exact h.authenticatedBy.shows rfl rfl
  | 2 => exact h.displayName.shows rfl rfl

/-- An identity survives its documents. -/
theorem survives (i : Identity) : codec.Survives ["id", "authenticatedBy", "displayName"] i i.ShownBy := by
  refine .of_takes i.shownBy_written i.write_codec (fun ms => ShownBy.takes) fun ms ms' extra h hextra hperm => ?_
  refine ⟨?_, ?_, ?_⟩
  · rw [under_of_perm hextra hperm (by decide) h.id.length_le]
    exact h.id
  · rw [under_of_perm hextra hperm (by decide) h.authenticatedBy.length_le]
    exact h.authenticatedBy
  · rw [under_of_perm hextra hperm (by decide) h.displayName.length_le]
    exact h.displayName

end Identity

namespace Enrollment

/-- The identity stands there as an object that shows it, if there is one; otherwise nothing, or null. -/
def ShowsIdentity : Option Identity → List Tree → Prop
  | some i, ts => ∃ claims, ts = [.object claims] ∧ i.ShownBy claims
  | none, ts => ShowsNothing ts

theorem ShowsIdentity.length_le {o : Option Identity} {ts : List Tree} (h : ShowsIdentity o ts) : ts.length ≤ 1 := by
  cases o with
  | some i =>
    obtain ⟨claims, hts, -⟩ := h
    exact length_le_of_eq hts
  | none => exact ShowsNothing.length_le h

namespace Response

/-- An object shows a response. -/
structure ShownBy (r : Response) (ms : List (String × Tree)) : Prop where
  certificate : under "certificate" ms = [.text r.certificate]
  accessToken : under "accessToken" ms = [.text r.accessToken]
  identity : ShowsIdentity r.identity (under "identity" ms)

/-- The members that are written. -/
def written (r : Response) : List (String × Tree) :=
  [("certificate", .text r.certificate), ("accessToken", .text r.accessToken),
    ("identity", r.identity.elim .null fun i => .object i.written)]

theorem shownBy_written (r : Response) : r.ShownBy r.written := by
  refine ⟨rfl, rfl, ?_⟩
  have hunder : under "identity" r.written = [r.identity.elim .null fun i => .object i.written] := rfl
  rw [hunder]
  cases r.identity with
  | some i => exact ⟨i.written, rfl, i.shownBy_written⟩
  | none => exact Or.inr rfl

theorem write_codec (r : Response) : codec.write r = (Tree.object r.written).write := by
  obtain ⟨certificate, accessToken, _ | i⟩ := r <;> rfl

theorem shows_identity {o : Option Identity} {ts : List Tree} (h : ShowsIdentity o ts) :
    (record.members 2).Shows ts o := by
  cases o with
  | some i =>
    obtain ⟨claims, hunder, hclaims⟩ := h
    refine Or.inl ⟨.object claims, hunder, fun more => ?_⟩
    exact congrArg (Except.map fun read => (some read.1, read.2)) (hclaims.takes more)
  | none =>
    rcases h with hnone | hnull
    · exact Or.inr ⟨hnone, rfl⟩
    · exact Or.inl ⟨.null, hnull, fun more => rfl⟩

variable {r : Response} {ms : List (String × Tree)}

/-- A response is read out of each object that shows it. -/
theorem ShownBy.takes (h : r.ShownBy ms) : codec.Takes (.object ms) r := by
  refine Json.Record.takes_object (by decide) rfl fun position => ?_
  match position with
  | 0 => exact shows_text rfl h.certificate
  | 1 => exact shows_text rfl h.accessToken
  | 2 => exact shows_identity h.identity

/-- A response survives its documents. -/
theorem survives (r : Response) : codec.Survives ["certificate", "accessToken", "identity"] r r.ShownBy := by
  refine .of_takes r.shownBy_written r.write_codec (fun ms => ShownBy.takes) fun ms ms' extra h hextra hperm => ?_
  refine ⟨?_, ?_, ?_⟩
  · rw [under_of_perm hextra hperm (by decide) (length_le_of_eq h.certificate)]
    exact h.certificate
  · rw [under_of_perm hextra hperm (by decide) (length_le_of_eq h.accessToken)]
    exact h.accessToken
  · rw [under_of_perm hextra hperm (by decide) h.identity.length_le]
    exact h.identity

end Response

namespace Request

/-- An object shows a request. -/
structure ShownBy (r : Request) (ms : List (String × Tree)) : Prop where
  nonce : under "nonce" ms = [.text r.nonce]
  publicKey : under "publicKey" ms = [.text r.publicKey]
  clientId : ShowsOptional r.clientId (under "clientId" ms)
  displayName : under "displayName" ms = [.text r.displayName]
  team : ShowsOptional r.team (under "team" ms)
  csr : ShowsOptional r.csr (under "csr" ms)
  expiry : under "expiry" ms = [.natural r.expiry]

/-- A member that is written unless it is absent. -/
def writtenOptional (name : String) (o : Option String) : List (String × Tree) :=
  o.toList.map fun s => (name, .text s)

theorem under_writtenOptional (name other : String) (o : Option String) :
    under name (writtenOptional other o) = if other = name then o.toList.map .text else [] := by
  by_cases hother : other = name <;> cases o <;> simp [under, writtenOptional, hother]

theorem showsOptional_written (o : Option String) : ShowsOptional o (o.toList.map .text) := by
  cases o with
  | some s => rfl
  | none => exact Or.inl rfl

/-- The members that are written. -/
def written (r : Request) : List (String × Tree) :=
  ("nonce", .text r.nonce) :: ("publicKey", .text r.publicKey) :: writtenOptional "clientId" r.clientId ++
    ("displayName", .text r.displayName) :: writtenOptional "team" r.team ++ writtenOptional "csr" r.csr ++
    [("expiry", .natural r.expiry)]

theorem shownBy_written (r : Request) : r.ShownBy r.written := by
  have hoptional := showsOptional_written
  constructor <;> simp [written, under_append, under_cons, under_nil, under_writtenOptional, hoptional]

theorem write_codec (r : Request) : codec.write r = (Tree.object r.written).write := by
  rw [Tree.write]
  obtain ⟨nonce, publicKey, _ | clientId, displayName, _ | team, _ | csr, expiry⟩ := r <;>
    simp only [written, writtenOptional, Option.toList, List.map_nil, List.map_cons, List.cons_append, List.nil_append,
      Tree.writeMembers, Tree.write_natural] <;>
    rfl

variable {r : Request} {ms : List (String × Tree)}

theorem shows_expiry {n : UInt64} {ts : List Tree} (h : ts = [.natural n]) : (record.members 6).Shows ts n := by
  refine Or.inl ⟨.natural n, h, fun more => ?_⟩
  rw [Tree.tokens_natural]
  rfl

/-- A request is read out of each object that shows it. -/
theorem ShownBy.takes (h : r.ShownBy ms) : codec.Takes (.object ms) r := by
  refine Json.Record.takes_object (by decide) rfl fun position => ?_
  match position with
  | 0 => exact shows_text rfl h.nonce
  | 1 => exact shows_text rfl h.publicKey
  | 2 => exact h.clientId.shows rfl rfl
  | 3 => exact shows_text rfl h.displayName
  | 4 => exact h.team.shows rfl rfl
  | 5 => exact h.csr.shows rfl rfl
  | 6 => exact shows_expiry h.expiry

/-- A request survives its documents. -/
theorem survives (r : Request) :
    codec.Survives ["nonce", "publicKey", "clientId", "displayName", "team", "csr", "expiry"] r r.ShownBy := by
  refine .of_takes r.shownBy_written r.write_codec (fun ms => ShownBy.takes) fun ms ms' extra h hextra hperm => ?_
  refine ⟨?_, ?_, ?_, ?_, ?_, ?_, ?_⟩
  · rw [under_of_perm hextra hperm (by decide) (length_le_of_eq h.nonce)]
    exact h.nonce
  · rw [under_of_perm hextra hperm (by decide) (length_le_of_eq h.publicKey)]
    exact h.publicKey
  · rw [under_of_perm hextra hperm (by decide) h.clientId.length_le]
    exact h.clientId
  · rw [under_of_perm hextra hperm (by decide) (length_le_of_eq h.displayName)]
    exact h.displayName
  · rw [under_of_perm hextra hperm (by decide) h.team.length_le]
    exact h.team
  · rw [under_of_perm hextra hperm (by decide) h.csr.length_le]
    exact h.csr
  · rw [under_of_perm hextra hperm (by decide) (length_le_of_eq h.expiry)]
    exact h.expiry

/-- Requests that are written alike are of the same nonce and, but for fractions of a second, of the same parameters. -/
theorem eq_of_print_ofParams {n n' : String} {p p' : Params}
    (h : codec.print (ofParams n p) = codec.print (ofParams n' p')) :
    n = n' ∧ p.publicKey = p'.publicKey ∧ p.csr = p'.csr ∧ p.clientId = p'.clientId ∧ p.team = p'.team ∧
      p.displayName = p'.displayName ∧ p.expiry.secs = p'.expiry.secs := by
  have hread := (survives (ofParams n p)).parse_print
  rw [h, (survives (ofParams n' p')).parse_print] at hread
  have hrequest : ofParams n p = ofParams n' p' := (Except.ok.inj hread).symm
  have hencode := Base64.Form.lawful_urlSafe.encode_injective
  exact ⟨congrArg nonce hrequest, hencode (congrArg publicKey hrequest),
    Option.map_injective hencode (congrArg csr hrequest), congrArg clientId hrequest, congrArg team hrequest,
    congrArg displayName hrequest, congrArg expiry hrequest⟩

end Request

/-- Identities, responses and requests survive their documents, also where the answer of the service is read, and requests
of different nonces or parameters are written differently. -/
theorem wire_types_survive :
    (∀ i : Identity, Identity.codec.Survives ["id", "authenticatedBy", "displayName"] i i.ShownBy) ∧
    (∀ r : Response, Response.codec.Survives ["certificate", "accessToken", "identity"] r r.ShownBy) ∧
    (∀ (r : Response) ms, r.ShownBy ms → Response.parse (Utf8.encode (Tree.object ms).print) = .ok r) ∧
    (∀ r : Request, Request.codec.Survives
      ["nonce", "publicKey", "clientId", "displayName", "team", "csr", "expiry"] r r.ShownBy) ∧
    ∀ (n n' : String) (p p' : Params),
      Request.codec.print (Request.ofParams n p) = Request.codec.print (Request.ofParams n' p') →
      n = n' ∧ p.publicKey = p'.publicKey ∧ p.csr = p'.csr ∧ p.clientId = p'.clientId ∧ p.team = p'.team ∧
        p.displayName = p'.displayName ∧ p.expiry.secs = p'.expiry.secs := by
  refine ⟨Identity.survives, Response.survives, fun r ms h => ?_, Request.survives,
    fun n n' p p' => Request.eq_of_print_ofParams⟩
  exact mapError_eq_ok_iff.2 (r.survives.parse_object ms h)

/-- A response is read out of an object in which its members are turned around, among them one that it does not know, and of
whose identity the only claim that is there is null. -/
theorem wire_types_survive_rearranged :
    let r : Response := ⟨"certificate", "token", some .empty⟩
    let claims : List (String × Tree) := [("displayName", .null), ("groups", .array [.text "staff", .object []])]
    let ms : List (String × Tree) :=
      [("identity", .object claims), ("ttl", .natural 3600), ("accessToken", .text "token"),
        ("certificate", .text "certificate")]
    r.ShownBy ms ∧ Response.parse (Utf8.encode (Tree.object ms).print) = .ok r := by
  intro r claims ms
  have hclaims : Identity.empty.ShownBy claims :=
    ⟨Or.inr ⟨rfl, Or.inl rfl⟩, Or.inr ⟨rfl, Or.inl rfl⟩, Or.inr ⟨rfl, Or.inr rfl⟩⟩
  have hshown : r.ShownBy ms := ⟨rfl, rfl, claims, rfl, hclaims⟩
  exact ⟨hshown, wire_types_survive.2.2.1 r ms hshown⟩

end Enrollment

end ClientAuth
