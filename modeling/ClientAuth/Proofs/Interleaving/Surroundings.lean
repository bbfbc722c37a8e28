import ClientAuth.Proofs.Interleaving.Basic

/-!
# What a run leaves alone

A run reads the clock and draws nonces. It never moves the clock, and it draws nonces in one place only, where an exchange
puts the credential that it is about to save into an envelope (`Stage.resume_surroundings`, `Task.start_surroundings`).
-/

namespace ClientAuth

open Enrollment (TransportError Response)

variable {m : Manager}

/-- It is the same time, and the same nonces are left to be drawn. -/
structure Scene.SameSurroundings (s s' : Scene) : Prop where
  now : s'.now = s.now
  nonces : s'.nonces = s.nonces

theorem Scene.recordRemoval_surroundings (s : Scene) (r : Except VaultError Unit) :
    s.SameSurroundings (s.recordRemoval r) := by
  cases r with
  | ok => exact ⟨rfl, rfl⟩
  | error e => exact ⟨rfl, rfl⟩

theorem Manager.giveUp_surroundings (x : Exchange) (e : AuthError) (s : Scene) :
    s.SameSurroundings (m.giveUp x e s).2 := by
  unfold Manager.giveUp
  split
  · exact ⟨rfl, rfl⟩
  · exact ⟨rfl, rfl⟩

theorem Manager.cache_surroundings (x : Exchange) (c : Credential) (s : Scene) :
    s.SameSurroundings (m.cache x c s).2 := by
  unfold Manager.cache
  split
  · exact ⟨rfl, rfl⟩
  · exact Manager.giveUp_surroundings _ _ _

/-- A run that has put a credential into an envelope of the manager's cipher, which waits to be saved now. -/
def Encloses (m : Manager) (s : Scene) (run : Run) : Prop :=
  ∃ x c cipher, m.cipher = some cipher ∧
    run = (.waiting (.saving x c (cipher.encloseValue Credential.codec s.nonces c).1),
      { s with nonces := (cipher.encloseValue Credential.codec s.nonces c).2 })

theorem Manager.keep_surroundings (x : Exchange) (c : Credential) (s : Scene) :
    s.SameSurroundings (m.keep x c s).2 ∨ Encloses m s (m.keep x c s) := by
  unfold Manager.keep
  split
  · cases hm : m.cipher with
    | none => exact Or.inl (Manager.cache_surroundings _ _ _)
    | some cipher => exact Or.inr ⟨x, c, cipher, hm, rfl⟩
  · exact Or.inl (Manager.giveUp_surroundings _ _ _)

theorem Restoration.fail_surroundings (e : VaultError) (s : Scene) :
    s.SameSurroundings (Restoration.fail e s).2 := by
  unfold Restoration.fail
  split
  · exact ⟨rfl, rfl⟩
  · exact ⟨rfl, rfl⟩

theorem Restoration.finish_surroundings (g : Nat) (c : Credential) (s : Scene) :
    s.SameSurroundings (Restoration.finish g c s).2 := by
  unfold Restoration.finish
  split
  · exact ⟨rfl, rfl⟩
  · exact ⟨rfl, rfl⟩

/-- Going on with an answer draws no nonce unless a credential is put into an envelope. -/
theorem Stage.resume_surroundings (stage : Stage) (answer : (stage.call m).Answer) (s : Scene) :
    s.SameSurroundings (stage.resume m answer s).2 ∨ Encloses m s (stage.resume m answer s) := by
  cases stage with
  | removingOld x => exact Or.inl (Scene.recordRemoval_surroundings s answer)
  | fetchingNonce x =>
    rcases (answer : Except TransportError String) with e | nonce
    · exact Or.inl (Manager.giveUp_surroundings _ _ _)
    · exact Or.inl ⟨rfl, rfl⟩
  | enrolling x request =>
    rcases (answer : Except TransportError Response) with e | r
    · exact Or.inl (Manager.giveUp_surroundings _ _ _)
    · cases ha : m.config.accept x.params r s.now with
      | error e =>
        simp only [Stage.resume, ha]
        exact Or.inl (Manager.giveUp_surroundings _ _ _)
      | ok c =>
        simp only [Stage.resume, ha]
        exact Manager.keep_surroundings _ _ _
  | saving x c blob =>
    rcases (answer : Except VaultError Unit) with e | u
    · exact Or.inl (Manager.giveUp_surroundings _ _ _)
    · exact Or.inl (Manager.cache_surroundings _ _ _)
  | cleaningUp x e =>
    have hsame := Scene.recordRemoval_surroundings s answer
    exact Or.inl ⟨hsame.now, hsame.nonces⟩
  | removing =>
    rcases (answer : Except VaultError Unit) with e | u
    · exact Or.inl ⟨rfl, rfl⟩
    · exact Or.inl ⟨rfl, rfl⟩
  | loading g =>
    rcases (answer : Except VaultError (Option String)) with e | entry
    · exact Or.inl (Restoration.fail_surroundings _ _)
    · cases hr : m.revealed entry with
      | error e =>
        simp only [Stage.resume, hr]
        exact Or.inl (Restoration.fail_surroundings _ _)
      | ok found =>
        simp only [Stage.resume, hr]
        cases found with
        | none => exact Or.inl ⟨rfl, rfl⟩
        | some c => exact Or.inl (Restoration.finish_surroundings _ _ _)
  | discarding e => exact Or.inl (Scene.recordRemoval_surroundings s answer)

/-- The first step of a task draws no nonce. -/
theorem Task.start_surroundings (t : Task) (s : Scene) : s.SameSurroundings (t.start m s).2 := by
  cases t with
  | clear =>
    simp only [Task.start, Manager.startClear]
    split
    · exact ⟨rfl, rfl⟩
    · exact ⟨rfl, rfl⟩
  | restore =>
    simp only [Task.start, Manager.startRestore]
    split
    · exact ⟨rfl, rfl⟩
    · split
      · exact ⟨rfl, rfl⟩
      · exact ⟨rfl, rfl⟩
  | refused | exchange | waiting => exact ⟨rfl, rfl⟩

namespace Interleaving

/-- A poll leaves clock and nonces alone unless it puts a credential into an envelope. -/
theorem run?_surroundings {f : Phase m} {s : Scene} {run : Run} (hr : f.run? s = some run) :
    s.SameSurroundings run.2 ∨ Encloses m s run := by
  cases f with
  | answered stage a =>
    obtain rfl := Option.some.inj hr
    exact Stage.resume_surroundings stage a s
  | unanswered t =>
    cases t with
    | waiting stage => cases hr
    | refused | exchange | clear | restore =>
      obtain rfl := Option.some.inj hr
      exact Or.inl (Task.start_surroundings _ s)

/-- The clock stands still during a poll. -/
theorem run?_now {f : Phase m} {s : Scene} {run : Run} (hr : f.run? s = some run) : run.2.now = s.now := by
  rcases run?_surroundings hr with hsame | ⟨x, c, cipher, -, rfl⟩
  · exact hsame.now
  · rfl

end Interleaving

end ClientAuth
