import ClientAuth.Proofs.Encoding.Record
import ClientAuth.Proofs.Interleaving.Finality
import ClientAuth.Proofs.Interleaving.Surroundings

/-!
# Saved envelopes open

Whatever a manager does, its nonces come from the same row, so that they keep their size. What an exchange saves is an
envelope of the credential that was issued to it, and with nonces of the right size that envelope opens to exactly this
credential (`Opens`), in every interleaving.
-/

namespace ClientAuth

variable {m : Manager}

/-- What a load reveals of an entry. -/
theorem Manager.revealed_some {cipher : Cipher} (hm : m.cipher = some cipher) (blob : String) :
    m.revealed (some blob) = (cipher.discloseValue Credential.codec blob).map some := by
  obtain ⟨config, detector, c⟩ := m
  obtain rfl : c = some cipher := hm
  rfl

/-- With nonces of the right size the envelope of a credential opens to that credential. -/
theorem Manager.revealed_encloseValue {cipher : Cipher} (hm : m.cipher = some cipher) {n : Nonces} (hn : n.Sized)
    (c : Credential) : m.revealed (some (cipher.encloseValue Credential.codec n c).1) = .ok (some c) := by
  rw [revealed_some hm, cipher.discloseValue_encloseValue Credential.faithful_codec hn]
  rfl

namespace Interleaving

variable {σ : Type} {b : Backing σ}

/-! ## Nonces are drawn from one row -/

/-- A poll draws from the same row of nonces. -/
theorem run?_row {f : Phase m} {s : Scene} {run : Run} (hr : f.run? s = some run) :
    run.2.nonces.row = s.nonces.row := by
  rcases run?_surroundings hr with hsame | ⟨x, c, cipher, -, rfl⟩
  · rw [hsame.nonces]
  · exact cipher.row_encloseValue Credential.codec s.nonces c

/-- Every change leaves the row of nonces as it was. -/
theorem State.Change.row {s s' : State m σ} {move : Move} (h : State.Change b s move s') :
    s'.nonces.row = s.nonces.row := by
  cases h with
  | @polls i now f run _ _ hr =>
    have hrow := run?_row hr
    obtain ⟨p, s₁⟩ := run
    cases p <;> exact hrow
  | _ => rfl

/-- Envelopes that wait to be saved, and those that were saved, open to the credentials that they were made of, which
were issued to the exchanges that save them. -/
structure Opens (s : State m σ) : Prop where
  sized : s.nonces.Sized
  waiting : ∀ i f x c blob, s.futures i = some f → f.phase.task = .waiting (.saving x c blob) →
    m.revealed (some blob) = .ok (some c)
  saved : ∀ i blob, .saved m i blob ∈ s.history → ∃ c, Issued m s.history i c ∧ m.revealed (some blob) = .ok (some c)

namespace Opens

variable {s s' : State m σ}

theorem new (store : σ) {nonces : Nonces} (hn : nonces.Sized) : Opens (State.new store nonces : State m σ) := by
  refine ⟨hn, ?_, ?_⟩ <;> simp [State.new]

/-- An envelope that comes to wait to be saved was made with a nonce of the right size. -/
theorem change_waiting (g : Guarded s) (o : Opens s) {move : Move} (h : State.Change b s move s') {i : Nat}
    {f : Future m} {x : Exchange} {c : Credential} {blob : String} (hf : s'.futures i = some f)
    (ht : f.phase.task = .waiting (.saving x c blob)) : m.revealed (some blob) = .ok (some c) := by
  obtain ⟨phase, aborted⟩ := f
  have ha : Arrival b s s' i phase := h.arrival g hf
  cases ha with
  | @stays f hl _ => exact o.waiting i f x c blob hl ht
  | made _ hw _ => exact absurd ht (hw _)
  | performed hl _ => exact o.waiting i _ x c blob hl ht
  | @ran f now stage s₁ hl hr _ =>
    obtain rfl := Task.waiting.inj ht
    obtain ⟨request, r, cipher, -, -, hm, rfl⟩ := run?_saving hr
    exact Manager.revealed_encloseValue hm o.sized c

/-- A saved envelope waited to be saved. -/
theorem change_saved (ht : Traced s) (o : Opens s) {move : Move} (h : State.Change b s move s') {i : Nat}
    {blob : String} (hs : .saved m i blob ∈ s'.history) :
    ∃ c, Issued m s'.history i c ∧ m.revealed (some blob) = .ok (some c) := by
  have hold : .saved m i blob ∈ s.history → ∃ c, Issued m s'.history i c ∧ m.revealed (some blob) = .ok (some c) := by
    intro hm
    obtain ⟨c, hi, hr⟩ := o.saved i blob hm
    exact ⟨c, hi.mono h.history_suffix, hr⟩
  rcases h.store_cases with ⟨-, es, hh, hes⟩ | ⟨j, w, stage, aborted, hf, rfl⟩
  · rw [hh, List.mem_append] at hs
    exact hold (hs.resolve_left (hes _ _ _))
  · rw [State.perform_history, List.mem_cons] at hs
    rcases hs with he | hs
    · injection he with hj hcall
      subst hj
      cases stage with
      | saving x c blob' =>
        obtain rfl : blob = blob' := (Call.save.inj hcall).2
        have hissued := ((ht.live i _ hf).issued_of_saving rfl).1
        exact ⟨c, hissued.of_own.mono h.history_suffix, o.waiting i _ x c blob hf rfl⟩
      | _ => cases hcall
    · exact hold hs

theorem change (g : Guarded s) (ht : Traced s) (o : Opens s) {move : Move} (h : State.Change b s move s') :
    Opens s' where
  sized k := by rw [h.row]; exact o.sized k
  waiting _ _ _ _ _ hf hw := o.change_waiting g h hf hw
  saved _ _ hs := o.change_saved ht h hs

/-- In every interleaving saved envelopes open to what was issued. -/
theorem run (b : Backing σ) (store : σ) {nonces : Nonces} (hn : nonces.Sized) (moves : List Move) :
    Opens ((State.new store nonces : State m σ).run b moves) :=
  State.new_run_induction (new store hn)
    (fun moves _ o => o.change (Guarded.run b store nonces moves) (Traced.run b store nonces moves)
      (State.step_change b _ _)) moves

end Opens

end Interleaving

end ClientAuth
