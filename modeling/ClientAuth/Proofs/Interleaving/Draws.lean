import ClientAuth.Proofs.Interleaving.Provenance
import ClientAuth.Proofs.Store.Ledger
import ClientAuth.Proofs.Store.Migration

/-!
# Nonces are never reused

All that is protected draws from one supply: by callers that hold a cipher, by vaults that save documents or protect
entries anew, and by managers in any interleaving. A `Site` has that supply, a store that notes each text it is given,
the managers over it, and a record of what was protected. By induction over what is done (`Site.balanced_run`), each
sealing that draws has a nonce of its own, no other use takes one, and no two texts that were ever written share one
unless two draws are the same (`Site.nonces_never_reused`).
-/

namespace ClientAuth

open Json (Codec)

/-- A store with a note of each text that it was given, in order. -/
structure Noted (σ : Type) where
  store : σ
  written : List String

/-- A store that notes each text that it is given. -/
def Backing.noting {σ : Type} (b : Backing σ) : Backing (Noted σ) where
  load s key := b.load s.store key
  save s key blob := ((b.save s.store key blob).1, ⟨(b.save s.store key blob).2, s.written ++ [blob]⟩)
  remove s key := ((b.remove s.store key).1, ⟨(b.remove s.store key).2, s.written⟩)

/-- What a rekey protects, if the entry is to be protected anew. -/
def Vault.resealed? {σ : Type} (v : Vault σ) (previous : Cipher) (s : σ) (n : Nonces) (key : String) : Option Sealing :=
  match v.backing.load s key with
  | .error _ => none
  | .ok entry =>
    match (Rekey.decide v.cipher previous n entry).1 with
    | .replace envelope => some (.ofEnvelope v.cipher envelope)
    | .keep | .fail _ => none

/-- A rekey protects nothing and leaves the store and the supply alone, or it protects the message of the entry, hands
the envelope to the store, and does not say that the entry was left as it is. -/
theorem Vault.rekey_cases {σ : Type} (v : Vault σ) (previous : Cipher) (s : σ) (n : Nonces) (key : String) :
    (v.resealed? previous s n key = none ∧ ∃ r, v.rekey previous s n key = (r, s, n, [])) ∨
    ∃ message r events, v.resealed? previous s n key = some (v.cipher.sealing n message) ∧ r ≠ .ok false ∧
      v.rekey previous s n key =
        (r, (v.backing.save s key (v.cipher.enclose n message).1).2, v.cipher.spend n, events) := by
  cases hload : v.backing.load s key with
  | error e => exact Or.inl ⟨by simp only [resealed?, hload], _, rekey_of_load_error hload⟩
  | ok entry =>
    have hsettled : v.cipher.Settled entry →
        v.resealed? previous s n key = none ∧ ∃ r, v.rekey previous s n key = (r, s, n, []) := by
      intro h
      exact ⟨by simp only [resealed?, hload, h.decide], _, rekey_of_settled hload h⟩
    cases entry with
    | none => exact Or.inl (hsettled Cipher.settled_none)
    | some envelope =>
      cases hown : v.cipher.disclose envelope with
      | ok message => exact Or.inl (hsettled (Cipher.settled_some hown))
      | error e =>
        cases hprevious : previous.disclose envelope with
        | error e' =>
          refine Or.inl ⟨?_, _, rekey_of_refused hload hown hprevious⟩
          simp only [resealed?, hload, Rekey.decide_of_refused hown hprevious]
        | ok message =>
          have houtdated : v.cipher.Outdated previous (some envelope) message := ⟨envelope, rfl, ⟨e, hown⟩, hprevious⟩
          have hmade : v.resealed? previous s n key = some (v.cipher.sealing n message) := by
            simp only [resealed?, hload, Rekey.decide_of_outdated houtdated]
            exact congrArg some (Sealing.ofEnvelope_enclose v.cipher n message)
          obtain ⟨⟨r, s'⟩, hsave⟩ : ∃ q, v.backing.save s key (v.cipher.enclose n message).1 = q := ⟨_, rfl⟩
          cases r with
          | ok u =>
            refine Or.inr ⟨message, .ok true, [.rekeyed key previous.algorithm v.cipher.algorithm], hmade, nofun, ?_⟩
            rw [rekey_of_saved hload houtdated hsave, hsave]
            rfl
          | error e =>
            refine Or.inr ⟨message, .error e, [], hmade, nofun, ?_⟩
            rw [rekey_of_save_error hload houtdated hsave, hsave]
            rfl

namespace Interleaving

variable {m : Manager} {σ : Type} {b : Backing σ}

/-- A future waits for a text to be written. -/
def Waits (futures : Nat → Option (Future m)) (i : Nat) (t : String) : Prop :=
  ∃ x c aborted, futures i = some ⟨.unanswered (.waiting (.saving x c t)), aborted⟩

/-- The text that a run waits for to be written. -/
def envelope? : Run → Option String
  | (.waiting (.saving _ _ blob), _) => some blob
  | _ => none

/-- What a run has protected, if it waits for that to be written. -/
def sealing? (m : Manager) (run : Run) : Option Sealing :=
  match envelope? run, m.cipher with
  | some blob, some cipher => some (.ofEnvelope cipher blob)
  | _, _ => none

/-- What a move protects: a poll may put a credential into an envelope. -/
def State.sealed? (s : State m (Noted σ)) : Move → Option Sealing
  | .poll i now =>
    match s.futures i with
    | none => none
    | some f => if f.aborted then none else (f.phase.run? (s.scene now)).bind (sealing? m)
  | _ => none

/-- What matters of a manager. -/
def State.ledger (s : State m (Noted σ)) : Ledger Nat := ⟨s.nonces, s.store.written, Waits s.futures⟩

/-- A text for which a future waits after a future has changed is that of the new future, or it has waited before. -/
theorem Waits.of_update {futures : Nat → Option (Future m)} {i j : Nat} {f : Option (Future m)} {t : String}
    (h : Waits (Function.update futures i f) j t) :
    (j ≠ i ∧ Waits futures j t) ∨
      (j = i ∧ ∃ x c aborted, f = some ⟨.unanswered (.waiting (.saving x c t)), aborted⟩) := by
  obtain ⟨x, c, aborted, hf⟩ := h
  by_cases hj : j = i
  · subst hj
    rw [Function.update_self] at hf
    exact Or.inr ⟨rfl, x, c, aborted, hf⟩
  · rw [Function.update_of_ne hj] at hf
    exact Or.inl ⟨hj, x, c, aborted, hf⟩

/-- A store that notes what it is given has one more note after a save, or none if the save was made to fail. -/
theorem written_save (b : Backing σ) (faults : Faults) (s : Noted σ) (key t : String) :
    ((b.noting.failing faults).save s key t).2.written = s.written ++ [t] ∨
      ((b.noting.failing faults).save s key t).2.written = s.written := by
  rcases b.noting.failing_save_cases faults s key t with hsave | ⟨e, hsave⟩
  · rw [hsave]
    exact Or.inl rfl
  · rw [hsave]
    exact Or.inr rfl

/-- A removal is not noted. -/
theorem written_remove (b : Backing σ) (faults : Faults) (s : Noted σ) (key : String) :
    ((b.noting.failing faults).remove s key).2.written = s.written := by
  rcases b.noting.failing_remove_cases faults s key with hremove | ⟨e, hremove⟩
  · rw [hremove]
    rfl
  · rw [hremove]

/-- A call is noted if it saves a text and was not made to fail. -/
theorem written_answer (b : Backing σ) (w : Weather) (s : Noted σ) (c : Call) :
    (∃ key t, c = .save key t ∧ ((w.world b.noting s).answer c).2.written = s.written ++ [t]) ∨
      ((w.world b.noting s).answer c).2.written = s.written := by
  cases c with
  | save key t =>
    rcases written_save b w.faults s key t with hnoted | hfailed
    · exact Or.inl ⟨key, t, rfl, hnoted⟩
    · exact Or.inr hfailed
  | remove key => exact Or.inr (written_remove b w.faults s key)
  | fetchNonce => exact Or.inr rfl
  | enroll request => exact Or.inr rfl
  | load key => exact Or.inr rfl

/-- The call that a waiting future has made takes effect. -/
theorem State.perform_ledger {s : State m (Noted σ)} {i : Nat} {stage : Stage} {aborted : Bool} (w : Weather)
    (hf : s.futures i = some ⟨.unanswered (.waiting stage), aborted⟩) :
    s.ledger.Step (s.perform b.noting i w stage aborted).ledger none := by
  have hwaits : ∀ j t, (s.perform b.noting i w stage aborted).ledger.waits j t → s.ledger.waits j t ∧ j ≠ i := by
    intro j t ht
    rcases Waits.of_update ht with ⟨hj, hold⟩ | ⟨-, x, c, aborted', hnew⟩
    · exact ⟨hold, hj⟩
    · cases hnew
  rcases written_answer b w s.store (stage.call m) with ⟨key, t, hcall, hnoted⟩ | hsame
  · have hstage : ∃ x c, stage = .saving x c t := by
      cases stage with
      | saving x c blob =>
        obtain rfl : blob = t := (Call.save.inj hcall).2
        exact ⟨x, c, rfl⟩
      | _ => cases hcall
    obtain ⟨x, c, rfl⟩ := hstage
    exact .writes i t ⟨x, c, aborted, hf⟩ rfl hnoted hwaits
  · exact .rests rfl hsame fun j t ht => (hwaits j t ht).1

/-- A new future does not wait for anything to be written. -/
theorem State.add_ledger (s : State m (Noted σ)) (slot : Slot) {t : Task} (ht : ∀ stage, t ≠ .waiting stage) :
    s.ledger.Step (({ s with slot } : State m (Noted σ)).add t).ledger none := by
  refine .rests rfl rfl fun j u hu => ?_
  rcases Waits.of_update hu with ⟨-, hold⟩ | ⟨-, x, c, aborted, hnew⟩
  · exact hold
  · cases hnew
    exact absurd rfl (ht _)

/-- A move that is no poll protects nothing. -/
theorem State.Change.ledger_of_ne_poll {s s' : State m (Noted σ)} {move : Move} (h : State.Change b.noting s move s')
    (hmove : ∀ i now, move ≠ .poll i now) : s.ledger.Step s'.ledger none := by
  cases h with
  | still => exact .rests rfl rfl fun _ _ ht => ht
  | begins _ _ => exact s.add_ledger _ fun _ => nofun
  | @refuses p e _ => exact s.add_ledger s.slot (t := .refused e) fun _ => nofun
  | asksClear => exact s.add_ledger s.slot (t := .clear) fun _ => nofun
  | asksRestore => exact s.add_ledger s.slot (t := .restore) fun _ => nofun
  | performs hf => exact State.perform_ledger _ hf
  | @aborts i f hf _ =>
    refine .rests rfl rfl fun j t ht => ?_
    rcases Waits.of_update ht with ⟨-, hold⟩ | ⟨rfl, x, c, aborted, hnew⟩
    · exact hold
    · obtain ⟨phase, _⟩ := f
      cases hnew
      exact ⟨x, c, _, hf⟩
  | drops _ =>
    refine .rests rfl rfl fun j t ht => ?_
    rcases Waits.of_update ht with ⟨-, hold⟩ | ⟨-, x, c, aborted, hnew⟩
    · exact hold
    · cases hnew
  | cutsOff _ _ => exact absurd rfl (hmove _ _)
  | polls _ _ _ => exact absurd rfl (hmove _ _)

/-- After a poll its future waits for the text that the run waits for, and the others wait for what they did. -/
theorem Waits.of_settle {s : State m σ} {i j : Nat} {run : Run} {t : String}
    (h : Waits (s.settle i run).futures j t) :
    (j ≠ i ∧ Waits s.futures j t) ∨ (j = i ∧ envelope? run = some t) := by
  obtain ⟨progress, s'⟩ := run
  cases progress with
  | finished o =>
    rcases Waits.of_update h with hold | ⟨-, x, c, aborted, hnew⟩
    · exact Or.inl hold
    · cases hnew
  | waiting stage =>
    rcases Waits.of_update h with hold | ⟨hj, x, c, aborted, hnew⟩
    · exact Or.inl hold
    · cases hnew
      exact Or.inr ⟨hj, rfl⟩

/-- After a poll its future waits for the text that the run waits for. -/
theorem Waits.settle (s : State m σ) (i : Nat) {run : Run} {t : String} (h : envelope? run = some t) :
    Waits (s.settle i run).futures i t := by
  obtain ⟨progress, s'⟩ := run
  cases progress with
  | finished o => cases h
  | waiting stage =>
    cases stage with
    | saving x c blob =>
      obtain rfl : blob = t := Option.some.inj h
      exact ⟨x, c, false, Function.update_self i _ s.futures⟩
    | _ => cases h

theorem State.settle_nonces (s : State m σ) (i : Nat) (run : Run) : (s.settle i run).nonces = run.2.nonces := by
  obtain ⟨progress, s'⟩ := run
  cases progress <;> rfl

/-- A run that waits for a text to be written has put a credential into that envelope. -/
theorem seals_of_envelope? {f : Phase m} {s : Scene} {run : Run} {blob : String} (hr : f.run? s = some run)
    (he : envelope? run = some blob) :
    ∃ cipher c, m.cipher = some cipher ∧ blob = (cipher.encloseValue Credential.codec s.nonces c).1 ∧
      run.2.nonces = (cipher.encloseValue Credential.codec s.nonces c).2 ∧
      ∃ stage answer, f = .answered stage answer := by
  obtain ⟨progress, s'⟩ := run
  cases progress with
  | finished o => cases he
  | waiting stage =>
    cases stage with
    | saving x c blob' =>
      obtain rfl : blob' = blob := Option.some.inj he
      cases run?_turn_of_stage hr rfl with
      | seals hm _ _ => exact ⟨_, c, hm, rfl, rfl, _, _, rfl⟩
    | _ => cases he

/-- A run that waits for no text to be written has drawn no nonce. -/
theorem nonces_of_envelope?_eq_none {f : Phase m} {s : Scene} {run : Run} (hr : f.run? s = some run)
    (he : envelope? run = none) : run.2.nonces = s.nonces := by
  rcases run?_surroundings hr with hsame | ⟨x, c, cipher, -, rfl⟩
  · exact hsame.nonces
  · cases he

/-- A poll puts a credential into an envelope, for which its future waits then, or it protects nothing. -/
theorem State.poll_ledger {s : State m (Noted σ)} {i : Nat} {now : Instant} {f : Future m}
    (hf : s.futures i = some f) (ha : f.aborted = false) {run : Run} (hr : f.phase.run? (s.scene now) = some run) :
    s.ledger.Step (({ s with history := .ran i f.phase.task now :: s.history } : State m (Noted σ)).settle i run).ledger
      (s.sealed? (.poll i now)) := by
  have hsealed : s.sealed? (.poll i now) = sealing? m run := by simp [State.sealed?, hf, ha, hr]
  rw [hsealed]
  have hstore := congrArg Noted.written
    (State.settle_store (s := { s with history := .ran i f.phase.task now :: s.history }) i run)
  have hnonces := State.settle_nonces { s with history := .ran i f.phase.task now :: s.history } i run
  cases he : envelope? run with
  | none =>
    have hnothing : sealing? m run = none := by simp only [sealing?, he]
    rw [hnothing]
    refine .rests (hnonces.trans (nonces_of_envelope?_eq_none hr he)) hstore fun j t ht => ?_
    rcases Waits.of_settle ht with ⟨-, hold⟩ | ⟨-, hnew⟩
    · exact hold
    · cases he.symm.trans hnew
  | some blob =>
    obtain ⟨cipher, c, hm, rfl, hspent, -⟩ := seals_of_envelope? hr he
    have hmade : sealing? m run = some (cipher.sealing s.nonces (Utf8.encode (Credential.codec.print c))) := by
      simp only [sealing?, he, hm]
      exact congrArg some (Sealing.ofEnvelope_enclose cipher s.nonces _)
    rw [hmade]
    refine .holds cipher _ i (hnonces.trans hspent) hstore fun j t ht => ?_
    rcases Waits.of_settle ht with ⟨-, hold⟩ | ⟨hj, hnew⟩
    · exact Or.inl hold
    · exact Or.inr ⟨hj, (Option.some.inj (he.symm.trans hnew)).symm⟩

/-- A move after which no future waits for a further text to be written takes no nonce: so it is as long as an exchange
has not come to save, and whenever one fails or is superseded. -/
theorem State.step_nonces (b : Backing σ) (s : State m σ) (move : Move)
    (hwaits : ∀ i t, Waits (s.step b move).futures i t → Waits s.futures i t) : (s.step b move).nonces = s.nonces := by
  have h := s.step_change b move
  generalize s.step b move = s' at h hwaits
  cases h with
  | @polls i now f run hf _ hr =>
    rw [State.settle_nonces]
    cases he : envelope? run with
    | none => exact nonces_of_envelope?_eq_none hr he
    | some blob =>
      obtain ⟨_, _, -, -, -, stage, answer, hphase⟩ := seals_of_envelope? hr he
      -- The future has just come to wait, as it had an answer to take before.
      obtain ⟨x, c, aborted, hold⟩ := hwaits i blob (Waits.settle _ i he)
      obtain rfl := Option.some.inj (hf.symm.trans hold)
      cases hphase
  | _ => rfl

/-- What a move does to what matters of a manager. -/
theorem State.step_ledger (b : Backing σ) (s : State m (Noted σ)) (move : Move) :
    s.ledger.Step (s.step b.noting move).ledger (s.sealed? move) := by
  cases move with
  | poll i now =>
    have hstill : s.ledger.Step s.ledger none := .rests rfl rfl fun _ _ ht => ht
    cases hf : s.futures i with
    | none =>
      simp only [State.step, State.sealed?, hf]
      exact hstill
    | some f =>
      cases ha : f.aborted with
      | true =>
        have hcut : s.step b.noting (.poll i now) =
            { s.abandon i f.phase.task with history := .resolved i (.error .cancelled) :: .abandoned i :: s.history } := by
          simp [State.step, State.poll, State.abandon, hf, ha]
        have hnothing : s.sealed? (.poll i now) = none := by simp [State.sealed?, hf, ha]
        rw [hcut, hnothing]
        exact (State.Change.drops (b := b.noting) hf).ledger_of_ne_poll (fun _ _ h => by cases h)
      | false =>
        cases hr : f.phase.run? (s.scene now) with
        | none =>
          have hidle : s.step b.noting (.poll i now) = s := by simp [State.step, State.poll, hf, ha, hr]
          have hnothing : s.sealed? (.poll i now) = none := by simp [State.sealed?, hf, ha, hr]
          rw [hidle, hnothing]
          exact hstill
        | some run =>
          have hran : s.step b.noting (.poll i now) =
              ({ s with history := .ran i f.phase.task now :: s.history } : State m (Noted σ)).settle i run := by
            simp [State.step, State.poll, hf, ha, hr]
          rw [hran]
          exact State.poll_ledger hf ha hr
  | _ => exact (s.step_change b.noting _).ledger_of_ne_poll fun _ _ h => by cases h

/-! ## All uses of one supply -/

/-- One supply of nonces and all that draws from it: the store, with a note of what it was given, the managers over it,
and a record of what was protected. -/
structure Site (σ : Type) where
  store : Noted σ
  nonces : Nonces
  members : List (Member (Noted σ))
  /-- What was protected, in this order. -/
  sealed : List Sealing

/-- Something that is done: by a caller with a cipher, by a vault with a cipher over the store, some of whose operations
may be made to fail, or by a manager. A manager is started over the store at any time. -/
inductive Use where
  | protect (c : Cipher) (message : Bytes)
  | encloseText (c : Cipher) (message : String)
  | discloseText (c : Cipher) (envelope : String)
  | save {α : Type} (faults : Faults) (c : Cipher) (codec : Codec α) (key : String) (a : α)
  | load {α : Type} (faults : Faults) (c : Cipher) (codec : Codec α) (key : String)
  | remove (faults : Faults) (c : Cipher) (key : String)
  | rekey (faults : Faults) (current previous : Cipher) (key : String)
  | found (m : Manager)
  | move (k : Nat) (move : Move)

namespace Site

/-- Nothing was done yet. -/
def new (store : σ) (nonces : Nonces) : Site σ := ⟨⟨store, []⟩, nonces, [], []⟩

/-- A vault over the store, some of whose operations are made to fail. -/
def vault (b : Backing σ) (faults : Faults) (c : Cipher) : Vault (Noted σ) := ⟨b.noting.failing faults, c⟩

/-- Where a manager stands, with the store and the supply as they are. -/
def current (site : Site σ) (s : State m (Noted σ)) : State m (Noted σ) :=
  { s with store := site.store, nonces := site.nonces }

/-- What a use protects. -/
def sealed? (b : Backing σ) (site : Site σ) : Use → Option Sealing
  | .protect c message => some (c.sealing site.nonces message)
  | .encloseText c message => some (.ofEnvelope c (c.encloseText site.nonces message).1)
  | .save _ c codec _ a => some (.ofEnvelope c (c.encloseValue codec site.nonces a).1)
  | .rekey faults current previous key =>
    (vault b faults current).resealed? previous site.store site.nonces key
  | .move k move =>
    match site.members[k]? with
    | none => none
    | some ⟨_, s⟩ => (site.current s).sealed? move
  | .discloseText _ _ | .load _ _ _ _ | .remove _ _ _ | .found _ => none

/-- What a use leaves behind. To disclose and to load take no supply and leave the store as it is. -/
def after (b : Backing σ) (site : Site σ) : Use → Site σ
  | .protect c message => { site with nonces := (c.protect site.nonces message).2 }
  | .encloseText c message => { site with nonces := (c.encloseText site.nonces message).2 }
  | .save faults c codec key a =>
    let (_, store, nonces) := (vault b faults c).save codec site.store site.nonces key a
    { site with store, nonces }
  | .remove faults c key => { site with store := ((vault b faults c).remove site.store key).2 }
  | .rekey faults current previous key =>
    let (_, store, nonces, _) := (vault b faults current).rekey previous site.store site.nonces key
    { site with store, nonces }
  | .found m => { site with members := site.members ++ [⟨m, .new site.store site.nonces⟩] }
  | .move k move =>
    match site.members[k]? with
    | none => site
    | some ⟨m, s⟩ =>
      let s : State m (Noted σ) := (site.current s).step b.noting move
      { site with store := s.store, nonces := s.nonces, members := site.members.set k ⟨m, s⟩ }
  | .discloseText _ _ | .load _ _ _ _ => site

/-- What a use leaves behind, and what it has protected is put on record. -/
def act (b : Backing σ) (site : Site σ) (use : Use) : Site σ :=
  { site.after b use with sealed := site.sealed ++ (site.sealed? b use).toList }

/-- What any number of uses leave behind. -/
def run (b : Backing σ) (site : Site σ) (uses : List Use) : Site σ := uses.foldl (act b) site

/-- What matters of a site. A text waits at the place of its manager and its future. -/
def ledger (site : Site σ) : Ledger (Nat × Nat) where
  nonces := site.nonces
  written := site.store.written
  waits place t := ∃ member, site.members[place.1]? = some member ∧ Waits member.state.futures place.2 t

/-- What is protected and handed to the store at once is written, or the store was made to fail. -/
theorem ledger_of_save (b : Backing σ) {site site' : Site σ} (faults : Faults) (c : Cipher) (key : String)
    (message : Bytes) (hnonces : site'.nonces = c.spend site.nonces) (hmembers : site'.members = site.members)
    (hstore : site'.store = ((vault b faults c).backing.save site.store key (c.enclose site.nonces message).1).2) :
    site.ledger.Step site'.ledger (some (c.sealing site.nonces message)) := by
  have hwaits : ∀ place t, site'.ledger.waits place t → site.ledger.waits place t := by
    rintro place t ⟨member, hmember, hwait⟩
    exact ⟨member, hmembers ▸ hmember, hwait⟩
  rcases written_save b faults site.store key (c.enclose site.nonces message).1 with hnoted | hfailed
  · exact .stores c message hnonces ((congrArg Noted.written hstore).trans hnoted) hwaits
  · exact .seals c message hnonces ((congrArg Noted.written hstore).trans hfailed) hwaits

/-- A manager that is new waits for nothing. -/
theorem ledger_of_found (site : Site σ) (m : Manager) :
    site.ledger.Step ({ site with members := site.members ++ [⟨m, .new site.store site.nonces⟩] } : Site σ).ledger
      none := by
  refine .rests rfl rfl fun place t ht => ?_
  obtain ⟨member, hmember, hwait⟩ := ht
  rw [List.getElem?_append] at hmember
  split at hmember
  · exact ⟨member, hmember, hwait⟩
  · obtain rfl := List.mem_singleton.1 (List.mem_of_getElem? hmember)
    obtain ⟨x, c, aborted, hnone⟩ := hwait
    cases hnone

/-- A move of one manager does to the site what it does to the manager. -/
theorem ledger_of_move (b : Backing σ) {site : Site σ} {k : Nat} {s : State m (Noted σ)}
    (hk : site.members[k]? = some ⟨m, s⟩) (move : Move) :
    let s' : State m (Noted σ) := (site.current s).step b.noting move
    site.ledger.Step
      ({ site with store := s'.store, nonces := s'.nonces, members := site.members.set k ⟨m, s'⟩ } : Site σ).ledger
      ((site.current s).sealed? move) := by
  intro s'
  have hlt : k < site.members.length := (List.getElem?_eq_some_iff.1 hk).1
  have hplace : Function.Injective fun i : Nat => (k, i) := fun i j h => congrArg Prod.snd h
  refine (State.step_ledger b (site.current s) move).lift hplace ⟨rfl, rfl⟩ ⟨rfl, rfl⟩ ?_ ?_
  · intro i t ht
    exact ⟨⟨m, s⟩, hk, ht⟩
  · rintro ⟨j, i⟩ t ⟨member, hmember, hwait⟩
    by_cases hj : k = j
    · subst hj
      obtain rfl := Option.some.inj ((List.getElem?_set_self hlt).symm.trans hmember)
      exact Or.inl ⟨i, rfl, hwait⟩
    · rw [List.getElem?_set_ne hj] at hmember
      exact Or.inr ⟨⟨member, hmember, hwait⟩, fun i' h => hj (congrArg Prod.fst h)⟩

/-- What a use does to what matters of a site. -/
theorem act_ledger (b : Backing σ) (site : Site σ) (use : Use) :
    site.ledger.Step (site.act b use).ledger (site.sealed? b use) := by
  change site.ledger.Step (site.after b use).ledger (site.sealed? b use)
  have hstill : site.ledger.Step site.ledger none := .rests rfl rfl fun _ _ ht => ht
  cases use with
  | protect c message => exact .seals c message rfl rfl fun _ _ ht => ht
  | encloseText c message =>
    have hmade : site.sealed? b (.encloseText c message) = some (c.sealing site.nonces (Utf8.encode message)) :=
      congrArg some (Sealing.ofEnvelope_enclose c site.nonces _)
    rw [hmade]
    exact .seals c _ rfl rfl fun _ _ ht => ht
  | discloseText c envelope => exact hstill
  | save faults c codec key a =>
    have hmade : site.sealed? b (.save faults c codec key a) =
        some (c.sealing site.nonces (Utf8.encode (codec.print a))) :=
      congrArg some (Sealing.ofEnvelope_enclose c site.nonces _)
    rw [hmade]
    exact ledger_of_save b faults c key _ rfl rfl rfl
  | load faults c codec key => exact hstill
  | remove faults c key => exact .rests rfl (written_remove b faults site.store key) fun _ _ ht => ht
  | rekey faults own previous key =>
    rcases (vault b faults own).rekey_cases previous site.store site.nonces key with
      ⟨hmade, r, hrekey⟩ | ⟨message, r, events, hmade, -, hrekey⟩
    · have hsame : site.after b (.rekey faults own previous key) = site := by simp only [after, hrekey]
      rw [hsame, show site.sealed? b (.rekey faults own previous key) = none from hmade]
      exact hstill
    · rw [show site.sealed? b (.rekey faults own previous key) = some (own.sealing site.nonces message) from hmade]
      refine ledger_of_save b faults own key message ?_ ?_ ?_
      · simp only [after, hrekey]
        rfl
      · rfl
      · simp only [after, hrekey]
        rfl
  | found m => exact site.ledger_of_found m
  | move k move =>
    cases hk : site.members[k]? with
    | none =>
      simp only [after, sealed?, hk]
      exact hstill
    | some member =>
      obtain ⟨m, s⟩ := member
      simp only [after, sealed?, hk]
      exact ledger_of_move b hk move

/-- A rekey that leaves the entry as it is takes no nonce. -/
theorem nonces_of_kept {site : Site σ} {faults : Faults} {own previous : Cipher} {key : String}
    (h : ((vault b faults own).rekey previous site.store site.nonces key).1 = .ok false) :
    (site.act b (.rekey faults own previous key)).nonces = site.nonces := by
  change (site.after b (.rekey faults own previous key)).nonces = site.nonces
  rcases (vault b faults own).rekey_cases previous site.store site.nonces key with
    ⟨-, r, hrekey⟩ | ⟨message, r, events, -, hr, hrekey⟩
  · simp only [after, hrekey]
  · rw [hrekey] at h
    exact absurd h hr

/-- A move after which no further text waits to be written takes no nonce. -/
theorem nonces_of_no_wait {site : Site σ} {k : Nat} {move : Move}
    (h : ∀ place t, (site.act b (.move k move)).ledger.waits place t → site.ledger.waits place t) :
    (site.act b (.move k move)).nonces = site.nonces := by
  change ∀ place t, (site.after b (.move k move)).ledger.waits place t → site.ledger.waits place t at h
  change (site.after b (.move k move)).nonces = site.nonces
  cases hk : site.members[k]? with
  | none => simp only [after, hk]
  | some member =>
    obtain ⟨m, s⟩ := member
    have hlt : k < site.members.length := (List.getElem?_eq_some_iff.1 hk).1
    simp only [after, hk] at h ⊢
    refine State.step_nonces b.noting (site.current s) move fun i t ht => ?_
    obtain ⟨member, hmember, hwait⟩ := h (k, i) t ⟨_, List.getElem?_set_self hlt, ht⟩
    obtain rfl := Option.some.inj (hk.symm.trans hmember)
    exact hwait

/-- Whatever is done, what was protected accounts for what was drawn, for what was written and for what waits. -/
theorem balanced_run (b : Backing σ) {site : Site σ} {start : Nonces} (hn : start.Sized)
    (h : site.ledger.Balanced start site.sealed) (uses : List Use) :
    (site.run b uses).ledger.Balanced start (site.run b uses).sealed := by
  induction uses generalizing site with
  | nil => exact h
  | cons use uses ih => exact ih (h.step hn (act_ledger b site use))

/-- A site where nothing was done yet is balanced. -/
theorem balanced_new (store : σ) (nonces : Nonces) : (new store nonces).ledger.Balanced nonces [] := by
  refine ⟨.nil nonces, .nil ?_⟩
  rintro place t ⟨member, hmember, -⟩
  cases hmember

/-- What a manager draws is what it would draw by itself, if it goes on where the site stands. -/
theorem nonces_run_moves {site : Site σ} {k : Nat} {s : State m (Noted σ)} (hk : site.members[k]? = some ⟨m, s⟩)
    (hs : site.current s = s) (moves : List Move) :
    (site.run b (moves.map (.move k))).nonces = (s.run b.noting moves).nonces := by
  induction moves generalizing site s with
  | nil => exact congrArg State.nonces hs
  | cons move moves ih =>
    have hlt : k < site.members.length := (List.getElem?_eq_some_iff.1 hk).1
    have hact : site.act b (.move k move) =
        { site with
          store := (s.step b.noting move).store
          nonces := (s.step b.noting move).nonces
          members := site.members.set k ⟨m, s.step b.noting move⟩
          sealed := site.sealed ++ (site.sealed? b (.move k move)).toList } := by
      simp only [act, after, hk, hs]
    have hmember : (site.act b (.move k move)).members[k]? = some ⟨m, s.step b.noting move⟩ := by
      rw [hact]
      exact List.getElem?_set_self hlt
    refine ih hmember ?_
    rw [hact]
    rfl

/-- A new manager draws what it would draw by itself. -/
theorem nonces_of_found (site : Site σ) (m : Manager) {k : Nat} (hk : site.members.length = k) (moves : List Move) :
    (site.run b (.found m :: moves.map (.move k))).nonces =
      ((State.new site.store site.nonces : State m (Noted σ)).run b.noting moves).nonces := by
  subst hk
  have hmember : (site.act b (.found m)).members[site.members.length]? = some ⟨m, .new site.store site.nonces⟩ := by
    simp [act, after]
  exact nonces_run_moves hmember rfl moves

/-- An entry that only the previous cipher opens is protected anew, and what is drawn for it is drawn once. -/
theorem nonces_of_outdated {site : Site σ} {own previous : Cipher} {key : String} {entry : Option String}
    {message : Bytes} (hload : b.load site.store.store key = .ok entry)
    (houtdated : own.Outdated previous entry message) :
    (site.act b (.rekey {} own previous key)).nonces = own.spend site.nonces := by
  have hloaded : (vault b {} own).backing.load site.store key = .ok entry := hload
  change (site.after b (.rekey {} own previous key)).nonces = own.spend site.nonces
  obtain ⟨⟨r, store⟩, hsave⟩ :
      ∃ q, (vault b {} own).backing.save site.store key (own.enclose site.nonces message).1 = q := ⟨_, rfl⟩
  cases r with
  | ok u =>
    simp only [after, Vault.rekey_of_saved hloaded houtdated hsave]
    rfl
  | error e =>
    simp only [after, Vault.rekey_of_save_error hloaded houtdated hsave]
    rfl

/-- To protect an entry anew concerns no manager. -/
theorem members_of_rekey (site : Site σ) (faults : Faults) (own previous : Cipher) (key : String) :
    (site.act b (.rekey faults own previous key)).members = site.members := rfl

/-- An exchange that a manager with a cipher begins while none is in flight, and whose answer is accepted, draws for one
message. -/
theorem nonces_of_accepted {s : State m (Noted Entries)} {cipher : Cipher} (hm : m.cipher = some cipher)
    {p : Enrollment.Params} (hp : p.problem? = none) (hidle : s.slot.inFlight = none) {nonce : String}
    {r : Enrollment.Response} {now : Instant} {c : Credential} (ha : m.config.accept p r now = .ok c) :
    let w : Weather := ⟨.ok nonce, .ok r, {}⟩
    (s.run Backing.memory.noting (.obtain p :: drive s.made (List.replicate 4 (w, now)))).nonces =
      cipher.spend s.nonces := by
  intro w
  have hremove : ∀ store key, (Backing.memory.noting.failing {}).remove store key =
      (.ok (), ⟨store.store.erase key, store.written⟩) := fun _ _ => rfl
  rw [State.run_cons, State.step_obtain_of_idle hp hidle]
  simp [drive, List.replicate, State.add, State.step, State.perform, State.poll, State.settle, State.scene, Phase.run?,
    Phase.task, Task.start, Manager.startExchange, hm, Stage.call, Weather.world, World.answer, w, Stage.resume, ha,
    Manager.keep, Slot.isCurrent, Scene.recordRemoval, hremove]
  rfl

/-- Nonces are never reused. Let callers with ciphers protect and disclose texts, let vaults save, load and remove
documents and protect entries anew, over a store some of whose operations may fail, and let managers be started over it
and go through any interleaving, all with ciphers of either algorithm and in any order. Then each message that was
protected with a nonce has drawn one of its own, in their order, and starts with it; no other use has drawn any: each
use takes the next nonce if it protects a message with one, and none else, so that a rekey that leaves the entry as it
is takes none, nor does a move after which no further text waits to be saved. Every text that the store was ever given
is the envelope of a message of its own among those; and so, if no two draws are the same, no two messages that were
protected start with the same nonce, and no two that were written. -/
theorem nonces_never_reused (b : Backing σ) (store : σ) {nonces : Nonces} (hn : nonces.Sized) (uses : List Use) :
    let site : Site σ := (new store nonces).run b uses
    Drawn nonces site.nonces site.sealed ∧
      (∀ use, (site.act b use).nonces =
        if (site.sealed? b use).any Sealing.draws then site.nonces.advance else site.nonces) ∧
      (∀ faults own previous key, ((vault b faults own).rekey previous site.store site.nonces key).1 = .ok false →
        (site.act b (.rekey faults own previous key)).nonces = site.nonces) ∧
      (∀ k move, (∀ place t, (site.act b (.move k move)).ledger.waits place t → site.ledger.waits place t) →
        (site.act b (.move k move)).nonces = site.nonces) ∧
      ∃ sources : List Sealing, sources.Subperm site.sealed ∧ sources.map Sealing.envelope = site.store.written ∧
        (Set.InjOn nonces.row (Set.Ico nonces.drawn site.nonces.drawn) →
          ((drawings site.sealed).map Sealing.nonce).Nodup ∧ ((drawings sources).map Sealing.nonce).Nodup) := by
  intro site
  obtain ⟨hdrawn, hcovers⟩ := balanced_run b hn (balanced_new store nonces) uses
  refine ⟨hdrawn, fun use => (act_ledger b site use).nonces_eq, fun _ _ _ _ => nonces_of_kept,
    fun _ _ => nonces_of_no_wait, ?_⟩
  obtain ⟨sources, hsources, hwritten⟩ := hcovers.exists_sources
  refine ⟨sources, hsources, hwritten, fun hdistinct => ?_⟩
  exact ⟨hdrawn.nodup hdistinct, hdrawn.nodup_of_subperm hdistinct hsources⟩

/-- A legacy entry is protected anew, where there is no entry none is; the entry is loaded, and the same document is saved
under another key; a text is put into a legacy envelope; and a manager over the store obtains a credential. Three nonces
are drawn, for the new envelope of the entry, for that of the other key, and for the credential, and no two of these
start alike. -/
theorem nonces_never_reused_same_document :
    let own : Cipher := .ofPassword .aes256Gcm "password"
    let previous : Cipher := .ofPassword .legacyAes128Ecb "password"
    let m : Manager := ⟨{}, .never, some own⟩
    let p : Enrollment.Params := { publicKey := [4] }
    let r : Enrollment.Response :=
      ⟨"MFswTgIBATAFBgMqAwQwADAeFw03MDAxMDEwMDAwMDBaFw03MDAxMDIwMDAwMDBaMBMxETAPBgoJkiaJk/IsZAEBDAFhMAswBQYDKgMEAwIABDAFBgMqAwQDAgAB", "t", none⟩
    let w : Weather := ⟨.ok "nonce", .ok r, {}⟩
    let uses : List Use :=
      [.save {} previous UidSelection.codec "first" .last, .rekey {} own previous "second",
        .rekey {} own previous "first", .load {} own UidSelection.codec "first",
        .save {} own UidSelection.codec "second" .last, .encloseText previous "text"] ++
        .found m :: (.obtain p :: drive 0 (List.replicate 4 (w, ⟨0, 0⟩))).map (.move 0)
    let site : Site Entries := (new .empty (.ofList [])).run .memory uses
    (Nonces.ofList []).Sized ∧ Set.InjOn (Nonces.ofList []).row (Set.Ico 0 3) ∧ site.nonces.drawn = 3 ∧
      (drawings site.sealed).length = 3 ∧ ((drawings site.sealed).map Sealing.nonce).Nodup := by
  intro own previous m p r w uses site
  have hgcm : own.algorithm = .aes256Gcm := rfl
  have hlegacy : previous.algorithm = .legacyAes128Ecb := rfl
  clear_value own previous
  have hdrawn : site.nonces.drawn = 3 := by
    let message : Bytes := Utf8.encode (UidSelection.codec.print .last)
    let saved : Site Entries := (new .empty (.ofList [])).run .memory
      [.save {} previous UidSelection.codec "first" .last, .rekey {} own previous "second"]
    let rekeyed : Site Entries := saved.act .memory (.rekey {} own previous "first")
    let store (site : Site Entries) : Site Entries := site.run .memory
      [.load {} own UidSelection.codec "first", .save {} own UidSelection.codec "second" .last,
        .encloseText previous "text"]
    have hsaved : saved.nonces = previous.spend (.ofList []) := rfl
    have hload : Backing.memory.load saved.store.store "first" = .ok (some (previous.enclose (.ofList []) message).1) :=
      rfl
    have hrekeyed : rekeyed.nonces = own.spend saved.nonces :=
      nonces_of_outdated hload (Cipher.outdated_of_legacy hgcm hlegacy Nonces.sized_ofList_nil (by decide))
    have hstored : ∀ site, (store site).nonces = previous.spend (own.spend site.nonces) ∧
        (store site).members = site.members := fun _ => ⟨rfl, rfl⟩
    have hmembers : (store rekeyed).members.length = 0 := by
      rw [(hstored rekeyed).2, members_of_rekey]
      rfl
    have hsite : site = (store rekeyed).run .memory
        (.found m :: (.obtain p :: drive 0 (List.replicate 4 (w, ⟨0, 0⟩))).map (.move 0)) := by
      simp only [site, uses, store, rekeyed, saved, run, List.foldl_append, List.foldl_cons, List.foldl_nil]
    have hobtained : site.nonces = own.spend (store rekeyed).nonces := by
      rw [hsite, nonces_of_found (store rekeyed) m hmembers]
      exact nonces_of_accepted (s := .new (store rekeyed).store (store rekeyed).nonces) rfl rfl rfl Config.accept_client
    rw [hobtained, (hstored rekeyed).1, hrekeyed, hsaved]
    simp only [Cipher.spend, hgcm, hlegacy]
    rfl
  have hrow : ∀ i < 3, ∀ j < 3, (Nonces.ofList []).row i = (Nonces.ofList []).row j → i = j := by decide
  have hdistinct : Set.InjOn (Nonces.ofList []).row (Set.Ico 0 3) := by
    intro i hi j hj hij
    exact hrow i hi.2 j hj.2 hij
  obtain ⟨hdraws, -, -, -, sources, -, -, hnodup⟩ := nonces_never_reused .memory Entries.empty Nonces.sized_ofList_nil uses
  have hstart : (Nonces.ofList []).drawn = 0 := rfl
  have hcount := hdraws.count
  rw [hstart, Nat.zero_add] at hcount
  refine ⟨Nonces.sized_ofList_nil, hdistinct, hdrawn, ?_, ?_⟩
  · exact hcount.symm.trans hdrawn
  · refine (hnodup ?_).1
    change Set.InjOn (Nonces.ofList []).row (Set.Ico 0 site.nonces.drawn)
    rw [hdrawn]
    exact hdistinct

end Site

end Interleaving

end ClientAuth
