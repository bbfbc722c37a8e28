import ClientAuth.Proofs.Encoding.Record
import ClientAuth.Proofs.Store.Plain

/-!
# A store of protected documents is a map of values

What a vault keeps under a key opens to the value that a map would hold there (`Vault.Holds`), and every operation keeps it
so. Hence each load gives the value that was last saved under that very key and not removed since
(`Vault.credentials_refine_map`).
-/

namespace ClientAuth

open Json (Codec)

namespace Vault

variable {σ α : Type} (v : Vault σ)

/-- The reply of a vault to an operation, and the store and the nonces after it. -/
def perform (codec : Codec α) (s : σ × Nonces) : StoreOp α → StoreReply α × σ × Nonces
  | .save key a => (.done (v.save codec s.1 s.2 key a).1, (v.save codec s.1 s.2 key a).2)
  | .load key => (.found (v.load codec s.1 key), s)
  | .remove key => (.done (v.remove s.1 key).1, (v.remove s.1 key).2, s.2)

/-- A vault holds the values of a map: the entry of each key opens to the value there, and there is none without one.
Nonces that are still to come have their size. -/
structure Holds (view : σ → String → Option String) (codec : Codec α) (s : σ × Nonces) (m : String → Option α) :
    Prop where
  sized : s.2.Sized
  entries : ∀ key, (view s.1 key).map (v.cipher.discloseValue codec) = (m key).map .ok

variable {v} {view : σ → String → Option String} {codec : Codec α} {s : σ × Nonces} {m : String → Option α}

namespace Holds

/-- A load finds the value of the map. -/
theorem load (h : v.Holds view codec s m) (hb : v.backing.IsMap view) (key : String) :
    v.load codec s.1 key = .ok (m key) := by
  have hentry := h.entries key
  unfold Vault.load
  rw [hb.load]
  cases hv : view s.1 key with
  | none =>
    rw [hv] at hentry
    cases hm : m key with
    | none => rfl
    | some a => simp [hm] at hentry
  | some envelope =>
    rw [hv] at hentry
    cases hm : m key with
    | none => simp [hm] at hentry
    | some a =>
      rw [hm] at hentry
      have hopen : v.cipher.discloseValue codec envelope = .ok a := Option.some.inj hentry
      simp only [bind, Except.bind, hopen]
      rfl

/-- The entry of one key has changed, as the map has. -/
theorem update (h : v.Holds view codec s m) (s' : σ × Nonces) (hsized : s'.2.Sized) {key : String}
    {entry : Option String} {a : Option α} (hview : view s'.1 = Function.update (view s.1) key entry)
    (hentry : entry.map (v.cipher.discloseValue codec) = a.map .ok) :
    v.Holds view codec s' (Function.update m key a) := by
  refine ⟨hsized, fun k => ?_⟩
  rw [hview]
  by_cases hk : k = key
  · subst hk
    rw [Function.update_self, Function.update_self, hentry]
  · rw [Function.update_of_ne hk, Function.update_of_ne hk, h.entries k]

/-- A vault replies to an operation as the map of its values, and holds the values of the map after it. -/
theorem perform (h : v.Holds view codec s m) (hb : v.backing.IsMap view) (hcodec : codec.Faithful) (op : StoreOp α) :
    (v.perform codec s op).1 = (op.onMap m).1 ∧ v.Holds view codec (v.perform codec s op).2 (op.onMap m).2 := by
  cases op with
  | save key a =>
    obtain ⟨hsaved, hview⟩ := hb.save s.1 key (v.cipher.encloseValue codec s.2 a).1
    refine ⟨congrArg StoreReply.done hsaved, h.update _ ?_ hview ?_⟩
    · intro k
      exact (congrArg (fun row => (row k).length) (v.cipher.row_encloseValue codec s.2 a)).trans (h.sized k)
    · exact congrArg some (v.cipher.discloseValue_encloseValue hcodec h.sized a)
  | load key => exact ⟨congrArg StoreReply.found (h.load hb key), h⟩
  | remove key =>
    obtain ⟨hremoved, hview⟩ := hb.remove s.1 key
    exact ⟨congrArg StoreReply.done hremoved, h.update ((v.remove s.1 key).2, s.2) h.sized hview rfl⟩

/-- A vault replies to operations one after another as the map of its values. -/
theorem runAll (h : v.Holds view codec s m) (hb : v.backing.IsMap view) (hcodec : codec.Faithful)
    (ops : List (StoreOp α)) :
    (StoreOp.runAll (v.perform codec) s ops).1 = (StoreOp.runAll StoreOp.onMap m ops).1 ∧
      v.Holds view codec (StoreOp.runAll (v.perform codec) s ops).2 (StoreOp.runAll StoreOp.onMap m ops).2 :=
  StoreOp.runAll_simulates (P := fun _ => True) (fun _ _ op h _ => h.perform hb hcodec op) (fun _ _ => trivial) h

end Holds

/-- An operation leaves the entries of other keys as they are. -/
theorem view_perform_of_ne (hb : v.backing.IsMap view) (codec : Codec α) (s : σ × Nonces) {op : StoreOp α} {key : String}
    (hkey : key ≠ op.key) : view (v.perform codec s op).2.1 key = view s.1 key := by
  cases op with
  | save k a => exact hb.view_save_of_ne s.1 _ hkey
  | load k => rfl
  | remove k => exact hb.view_remove_of_ne s.1 hkey

/-- Over a store that behaves as a map, with nothing in it at first, a vault of credentials replies to every row of saves,
loads and removals as a map from keys to credentials: a load gives the credential that was last saved under that very key
and not removed since, or nothing, and never fails. No operation affects the entry of another key. -/
theorem credentials_refine_map {b : Backing σ} (hb : b.IsMap view) (cipher : Cipher) {nonces : Nonces}
    (hn : nonces.Sized) {store : σ} (hstore : ∀ key, view store key = none) (ops : List (StoreOp Credential)) :
    let v : Vault σ := ⟨b, cipher⟩
    let out := StoreOp.runAll (v.perform Credential.codec) (store, nonces) ops
    let plain := StoreOp.runAll StoreOp.onMap (fun _ => none) ops
    out.1 = plain.1 ∧ (∀ key, v.load Credential.codec out.2.1 key = .ok (plain.2 key)) ∧
      ∀ (op : StoreOp Credential) (key : String), key ≠ op.key →
        view (v.perform Credential.codec out.2 op).2.1 key = view out.2.1 key := by
  intro v out plain
  have hempty : v.Holds view Credential.codec (store, nonces) fun _ => none := by
    refine ⟨hn, fun key => ?_⟩
    simp [hstore key]
  obtain ⟨hreplies, hholds⟩ := hempty.runAll hb Credential.faithful_codec ops
  exact ⟨hreplies, hholds.load hb, fun op key hkey => view_perform_of_ne hb Credential.codec out.2 hkey⟩

/-- A credential that is saved over another one is what a load finds, next to the one of another key, until it is
removed. -/
theorem credentials_refine_map_overwritten :
    let v : Vault Entries := ⟨.memory, .ofPassword .aes256Gcm "password"⟩
    let first : Credential := ⟨"Bearer first", 1700000000, .empty⟩
    let second : Credential := ⟨"Bearer \"second\"", 18446744073709551615, ⟨"alice\\123", "Example CA", "Alice 𝒜"⟩⟩
    let ops : List (StoreOp Credential) :=
      [.load "current", .save "current" first, .save "other" first, .save "current" second, .load "current",
        .remove "current", .load "current", .load "other"]
    (StoreOp.runAll (v.perform Credential.codec) (Entries.empty, Nonces.ofList []) ops).1 =
      [.found (.ok none), .done (.ok ()), .done (.ok ()), .done (.ok ()), .found (.ok (some second)), .done (.ok ()),
        .found (.ok none), .found (.ok (some first))] := by
  generalize Cipher.ofPassword .aes256Gcm "password" = cipher
  intro v first second ops
  have h := credentials_refine_map Backing.memory_isMap cipher Nonces.sized_ofList_nil Entries.get?_empty ops
  exact h.1.trans rfl

end Vault

end ClientAuth
