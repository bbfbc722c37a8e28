import ClientAuth.Proofs.Interleaving.Backed
import ClientAuth.Proofs.Interleaving.Progress

/-!
# Memory and store

A fresh manager over a store that can be read brings back what the entry there opens to (`RestoresTo`). So it brings back
the credential that the slot of its predecessor had, in any interleaving, as long as the entry behind that credential is
there. A removal that was on its way before the entry was written takes it away (`Strays`): that of a clear or of a
restore, neither of which looks at the slot again before it removes.
-/

namespace ClientAuth.Interleaving

variable {m : Manager} {σ : Type} {b : Backing σ} {view : σ → String → Option String}

/-! ## A fresh manager -/

/-- A fresh manager over a store, whose restore two rounds have driven to its end. -/
def State.restored (b : Backing σ) (store : σ) (nonces : Nonces) (start finish : Weather × Instant) : State m σ :=
  (State.new store nonces).run b (.restore :: drive 0 [start, finish])

/-- The restore of a fresh manager goes on with what its load was answered with. -/
theorem State.restored_eq (hm : m.cipher.isSome = true) (store : σ) (nonces : Nonces)
    (start finish : Weather × Instant) :
    let a := ((finish.1.world b store).answer (.load m.config.storageKey)).1
    (State.restored b store nonces start finish : State m σ) =
      State.settle ⟨.empty, store, nonces, [],
        Function.update (fun _ => none) 0 (some ⟨.answered (.loading 0) a, false⟩), 1,
        [.ran 0 (.waiting (.loading 0)) finish.2, .performed 0 (.load m.config.storageKey) a, .ran 0 .restore start.2,
          .called 0 .restore]⟩ 0
        (Stage.resume m (.loading 0) a ⟨.empty, nonces, finish.2, []⟩) := by
  obtain ⟨cipher, hc⟩ := Option.isSome_iff_exists.1 hm
  simp [State.restored, drive, State.new, State.add, State.step, State.perform, State.poll, State.scene, Phase.run?,
    Phase.task, Task.start, Manager.startRestore, hc, Stage.call, Slot.empty, State.settle]
  rfl

/-- What the restore of a fresh manager comes to, where the load finds an entry that can be used, or none. -/
theorem State.restored_of_load (hm : m.cipher.isSome = true) {store : σ} (nonces : Nonces)
    (start : Weather × Instant) {finish : Weather × Instant} {entry : Option String} {found : Option Credential}
    (ha : ((finish.1.world b store).answer (.load m.config.storageKey)).1 = .ok entry)
    (hrev : m.revealed entry = .ok found) :
    (State.restored b store nonces start finish : State m σ).slot.credential = found ∧
      (State.restored b store nonces start finish : State m σ).history =
        [.resolved 0 (.ok (found.map (·.headerValue))), .ran 0 (.waiting (.loading 0)) finish.2,
          .performed 0 (.load m.config.storageKey) (Except.ok entry), .ran 0 .restore start.2, .called 0 .restore] := by
  rw [State.restored_eq hm, ha]
  cases found with
  | none => simp [Stage.resume, hrev, State.settle, Slot.empty]
  | some c => simp [Stage.resume, hrev, State.settle, Restoration.finish, Slot.empty, Slot.fill, Scene.record]

/-- What a former manager has put into the store in memory opens to the credential that it was made of. -/
theorem revealed_get?_insert {cipher : Cipher} (hm : m.cipher = some cipher) (c : Credential) :
    m.revealed ((Entries.empty.insert m.config.storageKey
      (cipher.encloseValue Credential.codec (.ofList []) c).1).get? m.config.storageKey) = .ok (some c) := by
  rw [Entries.get?_insert, if_pos rfl]
  exact Manager.revealed_encloseValue hm Nonces.sized_ofList_nil c

/-- A fresh manager over a store brings this back, if it can read the store. -/
def RestoresTo (m : Manager) (b : Backing σ) (store : σ) (found : Option Credential) : Prop :=
  ∀ nonces start finish entry,
    ((Weather.world (Prod.fst finish) b store).answer (.load m.config.storageKey)).1 = .ok entry →
      (State.restored b store nonces start finish : State m σ).slot.credential = found ∧
      .resolved 0 (.ok (found.map (·.headerValue))) ∈
        (State.restored b store nonces start finish : State m σ).history

/-- A fresh manager brings back what the entry in the store opens to. -/
theorem restoresTo_of_view (hb : b.Lawful view) (hm : m.cipher.isSome = true) {store : σ} {found : Option Credential}
    (hrev : m.revealed (view store m.config.storageKey) = .ok found) : RestoresTo m b store found := by
  intro nonces start finish entry ha
  have hentry : entry = view store m.config.storageKey := view_load hb finish.1 store 0 ha
  obtain ⟨hslot, hh⟩ := State.restored_of_load hm nonces start ha (hentry ▸ hrev)
  refine ⟨hslot, ?_⟩
  rw [hh]
  exact List.mem_cons_self

/-! ## The entry behind the credential -/

/-- A credential stems from an event by which an entry that opens to it was saved or loaded. -/
structure Stems (m : Manager) (h : List Event) (c : Credential) (e : Event) (blob : String) : Prop where
  source : (∃ i, e = .saved m i blob) ∨ ∃ j, e = .loaded m j blob
  mem : e ∈ h
  opens : m.revealed (some blob) = .ok (some c)

/-- A removal strays: it takes away an entry that another future has saved or loaded, having been on its way before that,
for a clear that had given an older credential up or for a restore that had found an unusable entry. -/
def Strays (m : Manager) (h : List Event) (e : Event) (k : Nat) : Prop :=
  k ≠ e.future ∧ Before h e (.removed m k) ∧
    ((∃ now, Before h (.ran k .clear now) e) ∨
      ∃ blob err, Before h (.loaded m k blob) e ∧ m.revealed (some blob) = .error err ∧ err.isEntryUnusable = true)

/-- Where the store does not fail, an outdated removal strays. -/
theorem Outdated.strays {h : List Event} {e : Event} {k : Nat} (ho : Outdated m h e k) (fl : Flawless h)
    (hb : Before h e (.removed m k)) : Strays m h e k := by
  rcases ho with ⟨hk, ⟨now, hc⟩ | ⟨a, err, hflaw, hl⟩⟩ | ⟨err, -, hl⟩
  · exact ⟨hk, hb, Or.inl ⟨now, hc⟩⟩
  · refine ⟨hk, hb, Or.inr ?_⟩
    obtain ⟨entry, rfl⟩ : ∃ entry, a = .ok entry := fl k (.load m.config.storageKey) a hl.mem.1
    obtain ⟨entry', he, hrev⟩ := hflaw.2.resolve_left (by simp)
    obtain rfl := Except.ok.inj he
    cases entry with
    | none => cases hrev
    | some blob => exact ⟨blob, err, hl, hrev, hflaw.1⟩
  · obtain ⟨entry, he⟩ : ∃ entry, Except.error err = Except.ok entry := fl k (.load m.config.storageKey) _ hl.mem.2
    cases he

/-- How memory and store agree after any overlap of calls, over a store that does not fail, whatever it held at first. A
credential in the slot stems from an entry that was saved or loaded and that opens to exactly this credential. Either the
entry is there, and a fresh manager brings exactly this credential back; or a removal that strayed has taken it away
since, and then a fresh manager brings nothing back. -/
theorem agrees_unless_strayed (hb : b.Lawful view) (hm : m.cipher.isSome = true) (store : σ) {nonces : Nonces}
    (hn : nonces.Sized) (moves : List Move) (fl : Flawless ((State.new store nonces : State m σ).run b moves).history) :
    let s : State m σ := (State.new store nonces).run b moves
    ∀ c, s.slot.credential = some c →
      ∃ e blob, Stems m s.history c e blob ∧
        ((view s.store m.config.storageKey = some blob ∧ RestoresTo m b s.store (some c)) ∨
          (view s.store m.config.storageKey = none ∧ RestoresTo m b s.store none ∧ ∃ k, Strays m s.history e k)) := by
  intro s c hc
  obtain ⟨e, blob, hrev, R⟩ := (Backed.run hb hm store hn moves (Or.inr fl)).slot c hc
  refine ⟨e, blob, ⟨R.source, R.mem, hrev⟩, ?_⟩
  rcases R.entry with hv | ⟨hv, k, ho, hbefore⟩
  · exact Or.inl ⟨hv, restoresTo_of_view hb hm (by rw [hv, hrev])⟩
  · exact Or.inr ⟨hv, restoresTo_of_view hb hm (by rw [hv]; rfl), k, ho.strays fl hbefore⟩

/-- A manager that has brought back the entry which a former one left. -/
theorem agrees_unless_strayed_restored :
    let cipher : Cipher := .ofPassword .aes256Gcm "password"
    let m : Manager := ⟨{}, .never, some cipher⟩
    let c : Credential := ⟨"Bearer t", 0, ⟨"a", "", ""⟩⟩
    let entry : String := (cipher.encloseValue Credential.codec (.ofList []) c).1
    let r : Weather × Instant := (⟨.ok "nonce", .error .cancelled, {}⟩, ⟨0, 0⟩)
    let s : State m Entries := (State.new (Entries.empty.insert m.config.storageKey entry) (.ofList [])).run .memory
      (.restore :: drive 0 [r, r])
    Flawless s.history ∧ s.slot.credential = some c ∧
      ∃ e blob, Stems m s.history c e blob ∧
        ((s.store.get? m.config.storageKey = some blob ∧ RestoresTo m .memory s.store (some c)) ∨
          (s.store.get? m.config.storageKey = none ∧ RestoresTo m .memory s.store none ∧
            ∃ k, Strays m s.history e k)) := by
  intro cipher m c entry r s
  clear_value cipher
  have hm : m.cipher.isSome = true := rfl
  have ha : ((r.1.world .memory (Entries.empty.insert m.config.storageKey entry)).answer (.load m.config.storageKey)).1 =
      .ok ((Entries.empty.insert m.config.storageKey entry).get? m.config.storageKey) := rfl
  have hrev : m.revealed ((Entries.empty.insert m.config.storageKey entry).get? m.config.storageKey) = .ok (some c) :=
    revealed_get?_insert rfl c
  have hs : s = (State.new (Entries.empty.insert m.config.storageKey entry) (.ofList [])).run .memory
      (.restore :: drive 0 [r, r]) := rfl
  have hrestored := State.restored_of_load hm (.ofList []) r ha hrev
  rw [State.restored, ← hs] at hrestored
  obtain ⟨hslot, hh⟩ := hrestored
  have fl : Flawless s.history := by
    intro i call a hp
    rw [hh] at hp
    simp only [List.mem_cons, reduceCtorEq, false_or, List.not_mem_nil, or_false] at hp
    cases hp
    exact ⟨_, rfl⟩
  have h := agrees_unless_strayed Backing.memory_lawful hm (Entries.empty.insert m.config.storageKey entry)
    Nonces.sized_ofList_nil (.restore :: drive 0 [r, r]) fl
  rw [← hs] at h
  exact ⟨fl, hslot, h c hslot⟩

end ClientAuth.Interleaving
