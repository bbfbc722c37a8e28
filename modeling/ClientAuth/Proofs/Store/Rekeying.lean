import ClientAuth.Proofs.Encoding.Opening
import ClientAuth.Proofs.Store.Plain
import ClientAuth.Vault.Entry
import ClientAuth.Wire

/-!
# Protecting an entry anew while others write it

`Vault.rekey` calls the store twice, once to load the entry and once to save an envelope in its place; `Rekeying` tells
between which calls it is. Others may write the entry before, between and after the two (`Vault.interleaved`). As long as
somebody writes it after the second call, or nobody between the two, or there is nothing to protect anew, this is as good as
a rekeying that runs as a whole (`Vault.serial`). Else whatever was written between the two calls is undone, as by no
order of whole operations (`Vault.interleaved_serial_unless_undone`).
-/

namespace ClientAuth

open Json (Codec)

/-- A write to an entry: a value that is saved, with a cipher and nonces of its own, or a removal. -/
inductive Write (α : Type) where
  | save (cipher : Cipher) (n : Nonces) (a : α)
  | remove

namespace Write

variable {α : Type} (codec : Codec α)

/-- The entry that a write leaves. -/
def entry : Write α → Option String
  | .save cipher n a => some (cipher.encloseValue codec n a).1
  | .remove => none

/-- A write that leaves an envelope which one of two ciphers opens to a message. -/
def Repeats (current previous : Cipher) (message : Bytes) (w : Write α) : Prop :=
  ∃ envelope, w.entry codec = some envelope ∧
    (current.disclose envelope = .ok message ∨ previous.disclose envelope = .ok message)

end Write

/-- How far a rekeying is. -/
inductive Rekeying where
  /-- Before it loads the entry. -/
  | loading
  /-- Before it saves an envelope in the place of the entry. -/
  | saving (envelope : String)
  /-- It has ended with an answer. -/
  | ended (answer : Except VaultError Bool)

/-- What can be told of a rekeying and of writes to the same entry: the replies to the writes, how far the rekeying is, and
what a load gives after all of them. -/
structure Rewritten where
  replies : List (Except VaultError Unit)
  rekeying : Rekeying
  entry : Except VaultError (Option String)

/-- An entry that the current cipher does not open, but the previous one does. -/
def Cipher.Outdated (current previous : Cipher) (entry : Option String) (message : Bytes) : Prop :=
  ∃ envelope, entry = some envelope ∧ (∃ e, current.disclose envelope = .error e) ∧
    previous.disclose envelope = .ok message

/-- An envelope that the legacy cipher has made of less than a block is outdated: it is even too short for the authenticated
cipher. -/
theorem Cipher.outdated_of_legacy {current previous : Cipher} (hgcm : current.algorithm = .aes256Gcm)
    (hlegacy : previous.algorithm = .legacyAes128Ecb) {n : Nonces} (hn : n.Sized) {message : Bytes}
    (hshort : message.length < Aes.blockSize) :
    current.Outdated previous (some (previous.enclose n message).1) message := by
  have hpadded : (Padding.add message).length = Aes.blockSize * 1 := by
    simp only [Padding.add, List.length_append, List.length_replicate, Aes.blockSize] at hshort ⊢
    omega
  have hlength : (previous.protect n message).1.length < Aes.Gcm.nonceSize + Aes.Gcm.tagSize := by
    rw [previous.protect_legacy hlegacy, Cipher.length_mapBlocks _ hpadded, hpadded]
    decide
  have hrefused : current.disclose (previous.enclose n message).1 = .error .notAuthentic :=
    (current.disclose_encode _).trans (current.reveal_of_short hgcm hlength)
  exact ⟨_, rfl, ⟨_, hrefused⟩, previous.disclose_enclose hn message⟩

namespace Rekey

variable {current previous : Cipher} {n : Nonces} {entry : Option String}

/-- An outdated entry is to be replaced by an envelope of its message. -/
theorem decide_of_outdated {message : Bytes} (h : current.Outdated previous entry message) :
    decide current previous n entry = (.replace (current.enclose n message).1, (current.enclose n message).2) := by
  obtain ⟨envelope, rfl, ⟨e, hcurrent⟩, hprevious⟩ := h
  unfold decide
  simp only [hcurrent, hprevious]

/-- Only an outdated entry is to be replaced. -/
theorem outdated_of_decide {envelope : String} (h : (decide current previous n entry).1 = .replace envelope) :
    ∃ message, current.Outdated previous entry message := by
  unfold decide at h
  cases entry with
  | none => cases h
  | some old =>
    cases hcurrent : current.disclose old with
    | ok message =>
      simp only [hcurrent] at h
      cases h
    | error e =>
      cases hprevious : previous.disclose old with
      | error e =>
        simp only [hcurrent, hprevious] at h
        cases h
      | ok message => exact ⟨message, old, rfl, ⟨e, hcurrent⟩, hprevious⟩

end Rekey

namespace Vault

variable {σ α : Type} (v : Vault σ) (codec : Codec α) (previous : Cipher) (key : String)

/-- The reply to a write, and the store after it. -/
def write (s : σ) : Write α → Except VaultError Unit × σ
  | .save cipher n a =>
    let (r, s, _) := Vault.save ⟨v.backing, cipher⟩ codec s n key a
    (r, s)
  | .remove => v.remove s key

/-- The replies to writes one after another, and the store after them. -/
def writes (s : σ) : List (Write α) → List (Except VaultError Unit) × σ
  | [] => ([], s)
  | w :: ws =>
    let (r, s) := v.write codec key s w
    let (rs, s) := writes s ws
    (r :: rs, s)

/-- A rekeying up to its next call of the store and what it decides after that. -/
def rekeyStep (s : σ) (n : Nonces) : Rekeying → Rekeying × σ × Nonces
  | .loading =>
    match v.backing.load s key with
    | .error e => (.ended (.error e), s, n)
    | .ok entry =>
      match Rekey.decide v.cipher previous n entry with
      | (.keep, n) => (.ended (.ok false), s, n)
      | (.fail e, n) => (.ended (.error e), s, n)
      | (.replace envelope, n) => (.saving envelope, s, n)
  | .saving envelope =>
    let (r, s) := v.backing.save s key envelope
    (.ended (r.map fun _ => true), s, n)
  | .ended answer => (.ended answer, s, n)

/-- Writes before, between and after the two calls of a rekeying. -/
def interleaved (s : σ) (n : Nonces) (pre mid post : List (Write α)) : Rewritten :=
  let (before, s) := v.writes codec key s pre
  let (rekeying, s, n) := v.rekeyStep previous key s n .loading
  let (between, s) := v.writes codec key s mid
  let (rekeying, s, _) := v.rekeyStep previous key s n rekeying
  let (after, s) := v.writes codec key s post
  ⟨before ++ between ++ after, rekeying, v.backing.load s key⟩

/-- Writes before and after a rekeying that runs as a whole. -/
def serial (s : σ) (n : Nonces) (pre post : List (Write α)) : Rewritten :=
  let (before, s) := v.writes codec key s pre
  let (answer, s, _) := v.rekey previous s n key
  let (after, s) := v.writes codec key s post
  ⟨before ++ after, .ended answer, v.backing.load s key⟩

variable {v codec previous key} {view : σ → String → Option String}

@[simp] theorem rekeyStep_ended (s : σ) (n : Nonces) (answer : Except VaultError Bool) :
    v.rekeyStep previous key s n (.ended answer) = (.ended answer, s, n) := rfl

/-- Two steps in a row are a rekeying as a whole. -/
theorem rekeyStep_of_loaded {s : σ} {n : Nonces} {loaded : Rekeying × σ × Nonces}
    (h : v.rekeyStep previous key s n .loading = loaded) :
    v.rekeyStep previous key loaded.2.1 loaded.2.2 loaded.1 =
      (.ended (v.rekey previous s n key).1, (v.rekey previous s n key).2.1, (v.rekey previous s n key).2.2.1) := by
  subst h
  cases hload : v.backing.load s key with
  | error e => simp only [rekeyStep, rekey, hload]
  | ok entry =>
    obtain ⟨⟨decision, n'⟩, hdecide⟩ : ∃ d, Rekey.decide v.cipher previous n entry = d := ⟨_, rfl⟩
    cases decision with
    | keep => simp only [rekeyStep, rekey, hload, hdecide]
    | fail e => simp only [rekeyStep, rekey, hload, hdecide]
    | replace envelope =>
      obtain ⟨⟨r, s'⟩, hsave⟩ : ∃ q, v.backing.save s key envelope = q := ⟨_, rfl⟩
      cases r with
      | error e => simp only [rekeyStep, rekey, hload, hdecide, hsave, Except.map]
      | ok u => simp only [rekeyStep, rekey, hload, hdecide, hsave, Except.map]

/-- A rekeying that has nothing to save is over after its first step, and leaves the store. -/
theorem rekeyStep_loading_of_not_outdated {s : σ} {entry : Option String} (hentry : v.backing.load s key = .ok entry)
    (n : Nonces) (h : ∀ message, ¬v.cipher.Outdated previous entry message) :
    ∃ answer n', v.rekeyStep previous key s n .loading = (.ended answer, s, n') := by
  obtain ⟨⟨decision, n'⟩, hdecide⟩ : ∃ d, Rekey.decide v.cipher previous n entry = d := ⟨_, rfl⟩
  simp only [rekeyStep, hentry, hdecide]
  cases decision with
  | keep => exact ⟨_, _, rfl⟩
  | fail e => exact ⟨_, _, rfl⟩
  | replace envelope =>
    obtain ⟨message, hmessage⟩ := Rekey.outdated_of_decide (congrArg Prod.fst hdecide)
    exact absurd hmessage (h message)

/-- A rekeying is about to save an envelope of the message that it found. -/
theorem rekeyStep_loading_of_outdated {s : σ} {entry : Option String} (hentry : v.backing.load s key = .ok entry)
    (n : Nonces) {message : Bytes} (h : v.cipher.Outdated previous entry message) :
    v.rekeyStep previous key s n .loading =
      (.saving (v.cipher.enclose n message).1, s, (v.cipher.enclose n message).2) := by
  simp only [rekeyStep, hentry, Rekey.decide_of_outdated h]

/-- Writes in two rows are writes in one. -/
theorem writes_append (s : σ) (ws ws' : List (Write α)) :
    v.writes codec key s (ws ++ ws') =
      ((v.writes codec key s ws).1 ++ (v.writes codec key (v.writes codec key s ws).2 ws').1,
        (v.writes codec key (v.writes codec key s ws).2 ws').2) := by
  induction ws generalizing s with
  | nil => rfl
  | cons w ws ih => simp only [List.cons_append, writes, ih]

/-- With nothing written between its calls, a rekeying runs as a whole. -/
theorem interleaved_nil (s : σ) (n : Nonces) (pre post : List (Write α)) :
    v.interleaved codec previous key s n pre [] post = v.serial codec previous key s n pre post := by
  simp only [interleaved, serial, writes, rekeyStep_of_loaded rfl, List.append_nil]

variable (hb : v.backing.IsMap view)
include hb

/-- A write to a map succeeds and leaves its entry. -/
theorem write_of_isMap (s : σ) (w : Write α) :
    (v.write codec key s w).1 = .ok () ∧ view (v.write codec key s w).2 key = w.entry codec := by
  cases w with
  | save cipher n a => exact ⟨(hb.save s key _).1, hb.view_save s key _⟩
  | remove => exact ⟨(hb.remove s key).1, hb.view_remove s key⟩

/-- Writes to a map succeed. -/
theorem replies_writes (s : σ) (ws : List (Write α)) :
    (v.writes codec key s ws).1 = List.replicate ws.length (.ok ()) := by
  induction ws generalizing s with
  | nil => rfl
  | cons w ws ih => simp only [writes, ih, (write_of_isMap hb s w).1, List.length_cons, List.replicate_succ]

/-- The last of some writes leaves the entry. -/
theorem view_writes (s : σ) (ws : List (Write α)) :
    view (v.writes codec key s ws).2 key = (ws.getLast?.map (Write.entry codec)).getD (view s key) := by
  induction ws generalizing s with
  | nil => rfl
  | cons w ws ih =>
    have hnext : view (v.writes codec key s (w :: ws)).2 key =
        view (v.writes codec key (v.write codec key s w).2 ws).2 key := rfl
    rw [hnext, ih, (write_of_isMap hb s w).2, List.getLast?_cons]
    cases ws.getLast? with
    | none => rfl
    | some last => rfl

/-- Where there are writes, the entry does not depend on what was there before. -/
theorem view_writes_of_ne_nil (s s' : σ) {ws : List (Write α)} (hws : ws ≠ []) :
    view (v.writes codec key s ws).2 key = view (v.writes codec key s' ws).2 key := by
  rw [view_writes hb, view_writes hb, List.getLast?_eq_some_getLast hws]
  rfl

/-- A rekeying that has an envelope to save saves it. -/
theorem rekeyStep_saving (s : σ) (n : Nonces) (envelope : String) :
    (v.rekeyStep previous key s n (.saving envelope)).1 = .ended (.ok true) ∧
      view (v.rekeyStep previous key s n (.saving envelope)).2.1 key = some envelope := by
  refine ⟨?_, hb.view_save s key envelope⟩
  simp only [rekeyStep, (hb.save s key envelope).1, Except.map]

/-- A rekeying as a whole puts an envelope of the same message in the place of an outdated entry. -/
theorem rekey_of_outdated {s : σ} (n : Nonces) {message : Bytes}
    (h : v.cipher.Outdated previous (view s key) message) :
    (v.rekey previous s n key).1 = .ok true ∧
      view (v.rekey previous s n key).2.1 key = some (v.cipher.enclose n message).1 := by
  have hwhole := rekeyStep_of_loaded (rekeyStep_loading_of_outdated (hb.load s key) n h)
  obtain ⟨hanswer, hview⟩ := rekeyStep_saving hb s (v.cipher.enclose n message).2 (v.cipher.enclose n message).1
  rw [hwhole] at hanswer hview
  exact ⟨Rekeying.ended.inj hanswer, hview⟩

/-- A rekeying as a whole leaves any other entry. -/
theorem rekey_of_not_outdated {s : σ} (n : Nonces) (h : ∀ message, ¬v.cipher.Outdated previous (view s key) message) :
    (v.rekey previous s n key).2.1 = s := by
  obtain ⟨answer, n', hloaded⟩ := rekeyStep_loading_of_not_outdated (hb.load s key) n h
  have hwhole := rekeyStep_of_loaded hloaded
  exact (congrArg (·.2.1) hwhole).symm

/-- A message that the entry opens to after a rekeying is one that the entry opened to before it. -/
theorem exists_old_of_rekey {s : σ} {n : Nonces} (hn : n.Sized) {envelope : String} {message : Bytes}
    (hview : view (v.rekey previous s n key).2.1 key = some envelope) (hopen : v.cipher.disclose envelope = .ok message) :
    ∃ old, view s key = some old ∧ (v.cipher.disclose old = .ok message ∨ previous.disclose old = .ok message) := by
  by_cases h : ∃ found, v.cipher.Outdated previous (view s key) found
  · obtain ⟨found, hfound⟩ := h
    obtain ⟨old, hold, -, hprevious⟩ := id hfound
    refine ⟨old, hold, .inr ?_⟩
    rw [(rekey_of_outdated hb n hfound).2, Option.some.injEq] at hview
    rw [← hview, v.cipher.disclose_enclose hn] at hopen
    rw [hprevious, hopen]
  · rw [rekey_of_not_outdated hb n fun found hfound => h ⟨found, hfound⟩] at hview
    exact ⟨envelope, hview, .inl hopen⟩

/-- A rekeying that finds nothing to protect anew is as good as one that runs as a whole before the writes that follow its
load. -/
theorem interleaved_of_not_outdated (s : σ) (n : Nonces) (pre mid post : List (Write α))
    (h : ∀ message, ¬v.cipher.Outdated previous (view (v.writes codec key s pre).2 key) message) :
    v.interleaved codec previous key s n pre mid post = v.serial codec previous key s n pre (mid ++ post) := by
  obtain ⟨answer, n', hloaded⟩ := rekeyStep_loading_of_not_outdated (hb.load _ key) n h
  obtain ⟨hanswer, hstore, -⟩ : _ ∧ _ ∧ _ := by
    simpa only [rekeyStep_ended, Prod.mk.injEq] using rekeyStep_of_loaded hloaded
  simp only [interleaved, serial, hloaded, rekeyStep_ended, ← hanswer, ← hstore, writes_append, List.append_assoc]

/-- A rekeying after whose save there are writes is as good as one that runs as a whole before the writes that follow its
load. -/
theorem interleaved_of_written_after (s : σ) (n : Nonces) (pre mid : List (Write α)) {post : List (Write α)}
    (hpost : post ≠ []) {message : Bytes}
    (h : v.cipher.Outdated previous (view (v.writes codec key s pre).2 key) message) :
    v.interleaved codec previous key s n pre mid post = v.serial codec previous key s n pre (mid ++ post) := by
  simp only [interleaved, serial, rekeyStep_loading_of_outdated (hb.load _ key) n h, (rekeyStep_saving hb _ _ _).1,
    (rekey_of_outdated hb n h).1, writes_append, replies_writes hb, hb.load, List.append_assoc]
  -- the last write leaves the entry, whatever the rekeying has saved before it
  rw [view_writes_of_ne_nil hb _ _ hpost]

/-- A rekeying that saves last leaves an envelope of the message that it has loaded, whatever was written since. -/
theorem interleaved_of_saved_last (s : σ) (n : Nonces) (pre mid : List (Write α)) {message : Bytes}
    (h : v.cipher.Outdated previous (view (v.writes codec key s pre).2 key) message) :
    v.interleaved codec previous key s n pre mid [] =
      ⟨List.replicate (pre ++ mid).length (.ok ()), .ended (.ok true), .ok (some (v.cipher.enclose n message).1)⟩ := by
  simp only [interleaved, rekeyStep_loading_of_outdated (hb.load _ key) n h, (rekeyStep_saving hb _ _ _).1,
    (rekeyStep_saving hb _ _ _).2, writes, replies_writes hb, hb.load, List.append_nil, List.replicate_append_replicate,
    List.length_append]

/-- No order of whole operations brings back a message that none of the writes repeats, if at least one write is there. -/
theorem not_opens_of_serial (s : σ) {n : Nonces} (hn : n.Sized) {message : Bytes} {before after : List (Write α)}
    (hsome : before ++ after ≠ []) (h : ∀ w ∈ before ++ after, ¬w.Repeats codec v.cipher previous message)
    {envelope : String} (hentry : (v.serial codec previous key s n before after).entry = .ok (some envelope)) :
    v.cipher.disclose envelope ≠ .ok message := by
  intro hopen
  have hlast : ∀ (s : σ) (ws : List (Write α)) (old : String), ws ≠ [] → (∀ w ∈ ws, w ∈ before ++ after) →
      view (v.writes codec key s ws).2 key = some old →
        ¬(v.cipher.disclose old = .ok message ∨ previous.disclose old = .ok message) := by
    intro s ws old hne hws hview hold
    rw [view_writes hb, List.getLast?_eq_some_getLast hne] at hview
    exact h _ (hws _ (List.getLast_mem hne)) ⟨old, hview, hold⟩
  have hview : view (v.writes codec key (v.rekey previous (v.writes codec key s before).2 n key).2.1 after).2 key =
      some envelope := by
    simp only [serial, hb.load] at hentry
    exact Except.ok.inj hentry
  by_cases hafter : after = []
  · subst hafter
    obtain ⟨old, hold, hopens⟩ := exists_old_of_rekey hb hn hview hopen
    rw [List.append_nil] at hsome
    exact hlast s before old hsome (fun w hw => List.mem_append_left _ hw) hold hopens
  · exact hlast _ after envelope hafter (fun w hw => List.mem_append_right _ hw) hview (.inl hopen)

/-- A rekeying, and writes to the same entry before, between and after its two calls of the store. If nothing is written
between them, or something after them, or the entry that it loads is not outdated, then all is as if the rekeying had run as
a whole before the writes that follow its load. Else every write succeeds and the rekeying tells that it has protected the
entry anew, but what was written between its calls is undone: the entry opens to the message that was loaded. Unless a
write repeats that message, no order in which the rekeying and the writes run as a whole, whatever nonces are drawn, leaves
such an entry. -/
theorem interleaved_serial_unless_undone (codec : Codec α) (previous : Cipher) (key : String) (s : σ) {n : Nonces}
    (hn : n.Sized) (pre mid post : List (Write α)) :
    let loaded := view (v.writes codec key s pre).2 key
    let out := v.interleaved codec previous key s n pre mid post
    (mid = [] ∨ post ≠ [] ∨ (∀ message, ¬v.cipher.Outdated previous loaded message) →
      out = v.serial codec previous key s n pre (mid ++ post)) ∧
    ∀ message, mid ≠ [] → post = [] → v.cipher.Outdated previous loaded message →
      (∀ r ∈ out.replies, r = .ok ()) ∧ out.rekeying = .ended (.ok true) ∧
      (∃ envelope, out.entry = .ok (some envelope) ∧ v.cipher.disclose envelope = .ok message) ∧
      ((∀ w ∈ pre ++ mid, ¬w.Repeats codec v.cipher previous message) →
        ∀ (before after : List (Write α)) (n' : Nonces), n'.Sized → (before ++ after).Perm (pre ++ mid) →
          ∀ envelope, (v.serial codec previous key s n' before after).entry = .ok (some envelope) →
            v.cipher.disclose envelope ≠ .ok message) := by
  intro loaded out
  refine ⟨?serial, ?undone⟩
  case serial =>
    intro h
    by_cases hloaded : ∃ message, v.cipher.Outdated previous loaded message
    · obtain ⟨message, hmessage⟩ := hloaded
      obtain rfl | hpost | hnone := h
      · exact interleaved_nil s n pre post
      · exact interleaved_of_written_after hb s n pre mid hpost hmessage
      · exact absurd hmessage (hnone message)
    · exact interleaved_of_not_outdated hb s n pre mid post fun message hmessage => hloaded ⟨message, hmessage⟩
  case undone =>
    rintro message hmid rfl hloaded
    have hout : out = _ := interleaved_of_saved_last hb s n pre mid hloaded
    rw [hout]
    refine ⟨fun r hr => List.eq_of_mem_replicate hr, rfl, ⟨_, rfl, v.cipher.disclose_enclose hn message⟩, ?_⟩
    intro hrepeats before after n' hn' hperm envelope hentry
    refine not_opens_of_serial hb s hn' ?_ (fun w hw => hrepeats w (hperm.mem_iff.1 hw)) hentry
    intro hnil
    rw [hnil] at hperm
    exact hmid (List.append_eq_nil_iff.1 hperm.nil_eq.symm).2

omit hb in
/-- What the legacy cipher protects is removed while it is protected anew. After that it is there again. -/
theorem interleaved_serial_unless_undone_removed :
    let current : Cipher := .ofPassword .aes256Gcm "password"
    let previous : Cipher := .ofPassword .legacyAes128Ecb "password"
    let message : Bytes := Utf8.encode "secret"
    let v : Vault Entries := ⟨.memory, current⟩
    let s := Entries.empty.insert "current" (previous.enclose (.ofList []) message).1
    let out := v.interleaved Credential.codec previous "current" s (.ofList []) [] [.remove] []
    (∃ envelope, out.entry = .ok (some envelope) ∧ current.disclose envelope = .ok message) ∧
      ∀ (before after : List (Write Credential)) (n : Nonces), n.Sized → (before ++ after).Perm [.remove] →
        ∀ envelope, (v.serial Credential.codec previous "current" s n before after).entry = .ok (some envelope) →
          current.disclose envelope ≠ .ok message := by
  intro current previous message v s out
  have hgcm : current.algorithm = .aes256Gcm := rfl
  have hlegacy : previous.algorithm = .legacyAes128Ecb := rfl
  clear_value current previous
  have hloaded : current.Outdated previous (s.get? "current") message := by
    have hentry : s.get? "current" = some (previous.enclose (.ofList []) message).1 :=
      (Entries.get?_insert _ _ _ _).trans (if_pos rfl)
    rw [hentry]
    exact Cipher.outdated_of_legacy hgcm hlegacy Nonces.sized_ofList_nil (by decide)
  obtain ⟨-, -, hentry, horders⟩ := (interleaved_serial_unless_undone (v := v) Backing.memory_isMap Credential.codec
    previous "current" s Nonces.sized_ofList_nil [] [.remove] []).2 message (List.cons_ne_nil _ _) rfl hloaded
  refine ⟨hentry, horders ?_⟩
  rintro w hw ⟨envelope, henvelope, -⟩
  obtain rfl := List.mem_singleton.1 hw
  cases henvelope

end Vault

end ClientAuth
