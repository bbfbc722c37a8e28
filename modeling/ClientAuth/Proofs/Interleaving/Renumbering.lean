import ClientAuth.Proofs.Interleaving.Turn

/-!
# Generations under other numbers

Nothing but the numbers of generations tells one exchange from another, and numbers are only ever compared. So they may be
replaced by others, as long as different ones stay different and the one that comes next is still the next: tasks then run
as they did, up to the new numbers (`Task.start_alike`, `Stage.resume_alike`). What is logged plays no part in this.
-/

namespace ClientAuth

variable {f : Nat → Nat}

namespace Slot

/-- A slot with other numbers for its generations. -/
def renumber (f : Nat → Nat) (s : Slot) : Slot := ⟨s.credential, s.inFlight.map f, f s.generation⟩

@[simp] theorem renumber_generation (s : Slot) : (s.renumber f).generation = f s.generation := rfl

@[simp] theorem isSome_inFlight_renumber (s : Slot) : (s.renumber f).inFlight.isSome = s.inFlight.isSome :=
  Option.isSome_map

theorem fill_renumber (s : Slot) (c : Credential) : (s.renumber f).fill c = (s.fill c).renumber f := rfl

/-- The next generation is the next one still. -/
theorem clear_renumber {s : Slot} (hnext : f (s.generation + 1) = f s.generation + 1) :
    (s.renumber f).clear = s.clear.renumber f := by
  simp only [renumber, clear, hnext]

/-- An exchange starts as it did, with the new number of its ticket. -/
theorem start?_renumber {s : Slot} (hnext : f (s.generation + 1) = f s.generation + 1) :
    (s.renumber f).start? = s.start?.map fun p => (f p.1, p.2.renumber f) := by
  unfold start?
  rw [isSome_inFlight_renumber]
  split
  · rfl
  · simp only [renumber, hnext, Option.map_some]

variable (hf : f.Injective)
include hf

theorem inFlight_renumber_eq_some_iff (s : Slot) (ticket : Nat) :
    (s.renumber f).inFlight = some (f ticket) ↔ s.inFlight = some ticket := by
  simp only [renumber, Option.map_eq_some_iff, hf.eq_iff, exists_eq_right]

/-- Where a slot stands does not depend on the numbers. -/
theorem state_renumber (s : Slot) : (s.renumber f).state = s.state :=
  if_congr (inFlight_renumber_eq_some_iff hf s s.generation) rfl rfl

theorem isCurrent_renumber (s : Slot) (ticket : Nat) : (s.renumber f).isCurrent (f ticket) = s.isCurrent ticket := by
  rw [Bool.eq_iff_iff, isCurrent, isCurrent, beq_iff_eq, beq_iff_eq]
  exact hf.eq_iff

theorem release_renumber (s : Slot) (ticket : Nat) : (s.renumber f).release (f ticket) = (s.release ticket).renumber f := by
  simp only [release, inFlight_renumber_eq_some_iff hf]
  split <;> rfl

end Slot

/-- An exchange with another number for its ticket. -/
def Exchange.renumber (f : Nat → Nat) (x : Exchange) : Exchange := { x with ticket := f x.ticket }

@[simp] theorem Exchange.renumber_ticket (x : Exchange) : (x.renumber f).ticket = f x.ticket := rfl

namespace Stage

/-- A stage with other numbers for generations. -/
def renumber (f : Nat → Nat) : Stage → Stage
  | removingOld x => removingOld (x.renumber f)
  | fetchingNonce x => fetchingNonce (x.renumber f)
  | enrolling x request => enrolling (x.renumber f) request
  | saving x c blob => saving (x.renumber f) c blob
  | cleaningUp x e => cleaningUp (x.renumber f) e
  | removing => removing
  | loading generation => loading (f generation)
  | discarding e => discarding e

/-- No call tells a generation. -/
theorem call_renumber (m : Manager) (stage : Stage) : (stage.renumber f).call m = stage.call m := by
  cases stage <;> rfl

/-- The same answer, to the same call. -/
def renumberAnswer (f : Nat → Nat) {m : Manager} {stage : Stage} (a : (stage.call m).Answer) :
    ((stage.renumber f).call m).Answer :=
  cast (congrArg Call.Answer (call_renumber m stage).symm) a

end Stage

/-- A task with other numbers for generations. -/
def Task.renumber (f : Nat → Nat) : Task → Task
  | refused e => refused e
  | exchange x => exchange (x.renumber f)
  | clear => clear
  | restore => restore
  | waiting stage => waiting (stage.renumber f)

namespace Task

theorem ticket?_renumber (t : Task) : (t.renumber f).ticket? = t.ticket?.map f := by
  cases t with
  | waiting stage => cases stage <;> rfl
  | _ => rfl

@[simp] theorem isObtain_renumber (t : Task) : (t.renumber f).isObtain = t.isObtain := by
  cases t with
  | waiting stage => cases stage <;> rfl
  | _ => rfl

/-- A task that is dropped releases the guard with the new number. -/
theorem drop_renumber (hf : f.Injective) (t : Task) (slot : Slot) :
    (t.renumber f).drop (slot.renumber f) = (t.drop slot).renumber f := by
  simp only [drop, ticket?_renumber]
  cases t.ticket? with
  | none => rfl
  | some ticket => exact slot.release_renumber hf ticket

end Task

theorem Exchange.renumber_eq_self {x : Exchange} (h : f x.ticket = x.ticket) : x.renumber f = x := by
  rw [Exchange.renumber, h]

/-- A task keeps its numbers if they are left as they are. -/
theorem Task.renumber_eq_self {t : Task} (hticket : ∀ x, t.exchange? = some x → f x.ticket = x.ticket)
    (hloading : ∀ k, t = .waiting (.loading k) → f k = k) : t.renumber f = t := by
  cases t with
  | refused e => rfl
  | exchange x => exact congrArg Task.exchange (Exchange.renumber_eq_self (hticket x rfl))
  | clear => rfl
  | restore => rfl
  | waiting stage =>
    refine congrArg Task.waiting ?_
    cases stage with
    | removingOld x => exact congrArg Stage.removingOld (Exchange.renumber_eq_self (hticket x rfl))
    | fetchingNonce x => exact congrArg Stage.fetchingNonce (Exchange.renumber_eq_self (hticket x rfl))
    | enrolling x request => exact congrArg (Stage.enrolling · request) (Exchange.renumber_eq_self (hticket x rfl))
    | saving x c blob => exact congrArg (Stage.saving · c blob) (Exchange.renumber_eq_self (hticket x rfl))
    | cleaningUp x e => exact congrArg (Stage.cleaningUp · e) (Exchange.renumber_eq_self (hticket x rfl))
    | removing => rfl
    | loading k => exact congrArg Stage.loading (hloading k rfl)
    | discarding e => rfl

/-- How far a task has come, with other numbers for generations. -/
def Progress.renumber (f : Nat → Nat) : Progress → Progress
  | waiting stage => waiting (stage.renumber f)
  | finished o => finished o

/-- Two scenes that differ in the numbers of generations, and in what was logged. -/
structure Scene.Alike (f : Nat → Nat) (s t : Scene) : Prop where
  slot : t.slot = s.slot.renumber f
  nonces : t.nonces = s.nonces
  now : t.now = s.now

/-- Two runs that differ in the numbers of generations, and in what was logged. -/
structure Run.Alike (f : Nat → Nat) (r r' : Run) : Prop where
  progress : r'.1 = r.1.renumber f
  scene : r.2.Alike f r'.2

variable {s t : Scene}

theorem Scene.Alike.record (h : s.Alike f t) (e e' : LogEvent) : (s.record e).Alike f (t.record e') := ⟨h.1, h.2, h.3⟩

theorem Scene.Alike.recordRemoval (h : s.Alike f t) (r : Except VaultError Unit) :
    (s.recordRemoval r).Alike f (t.recordRemoval r) := by
  cases r with
  | ok u => exact h
  | error e => exact h.record _ _

/-- The slot is changed in the same way in both scenes. -/
theorem Scene.Alike.withSlot (h : s.Alike f t) {slot slot' : Slot} (hslot : slot' = slot.renumber f) :
    ({ s with slot := slot } : Scene).Alike f { t with slot := slot' } := ⟨hslot, h.2, h.3⟩

/-- An exchange is begun or refused as it was. -/
theorem Exchange.begin_renumber (p : Enrollment.Params) {slot : Slot}
    (hnext : f (slot.generation + 1) = f slot.generation + 1) :
    begin p (slot.renumber f) = ((begin p slot).1.map (·.renumber f), (begin p slot).2.renumber f) := by
  unfold begin
  cases p.problem? with
  | some problem => rfl
  | none =>
    rw [Slot.start?_renumber hnext]
    cases slot.start? with
    | none => rfl
    | some started => rfl

theorem Task.ofBegun_renumber (r : Except AuthError Exchange) :
    Task.ofBegun (r.map (·.renumber f)) = (Task.ofBegun r).renumber f := by
  cases r <;> rfl

theorem Restoration.fail_alike (e : VaultError) (h : s.Alike f t) : Run.Alike f (fail e s) (fail e t) := by
  unfold fail
  split
  · exact ⟨rfl, h⟩
  · exact ⟨rfl, h⟩

namespace Manager

variable (m : Manager)

theorem startExchange_alike (x : Exchange) (h : s.Alike f t) :
    Run.Alike f (m.startExchange x s) (m.startExchange (x.renumber f) t) := by
  refine ⟨?_, h⟩
  unfold startExchange
  split <;> rfl

theorem startClear_alike (hnext : f (s.slot.generation + 1) = f s.slot.generation + 1) (h : s.Alike f t) :
    Run.Alike f (m.startClear s) (m.startClear t) := by
  have hclear : t.slot.clear = s.slot.clear.renumber f := by
    rw [h.slot]
    exact Slot.clear_renumber hnext
  unfold startClear
  split
  · exact ⟨rfl, h.withSlot hclear⟩
  · exact ⟨rfl, (h.withSlot hclear).record _ _⟩

theorem startRestore_alike (h : s.Alike f t) : Run.Alike f (m.startRestore s) (m.startRestore t) := by
  unfold startRestore
  rw [h.slot, Slot.isSome_inFlight_renumber]
  split
  · exact ⟨rfl, h⟩
  · split
    · exact ⟨rfl, h⟩
    · exact ⟨rfl, h⟩

end Manager

/-- A task starts as it did. -/
theorem Task.start_alike (m : Manager) (task : Task) (hnext : f (s.slot.generation + 1) = f s.slot.generation + 1)
    (h : s.Alike f t) : Run.Alike f (task.start m s) ((task.renumber f).start m t) := by
  cases task with
  | refused e => exact ⟨rfl, h⟩
  | exchange x => exact m.startExchange_alike x h
  | clear => exact m.startClear_alike hnext h
  | restore => exact m.startRestore_alike h
  | waiting stage => exact ⟨rfl, h⟩

variable (hf : f.Injective)
include hf

theorem Exchange.fail_alike (x : Exchange) (e : AuthError) (h : s.Alike f t) :
    Run.Alike f (x.fail e s) ((x.renumber f).fail e t) := by
  have hcurrent : t.slot.isCurrent (f x.ticket) = s.slot.isCurrent x.ticket := by
    rw [h.slot, Slot.isCurrent_renumber hf]
  have hrelease : t.slot.release (f x.ticket) = (s.slot.release x.ticket).renumber f := by
    rw [h.slot, Slot.release_renumber hf]
  refine ⟨?_, h.withSlot hrelease⟩
  simp only [fail, renumber_ticket, hcurrent, Progress.renumber]

theorem Restoration.finish_alike (generation : Nat) (c : Credential) (h : s.Alike f t) :
    Run.Alike f (finish generation c s) (finish (f generation) c t) := by
  have hfill : t.slot.fill c = (s.slot.fill c).renumber f := by rw [h.slot, Slot.fill_renumber]
  unfold finish
  simp only [h.slot, Slot.renumber_generation, Slot.isSome_inFlight_renumber, ne_eq, hf.eq_iff]
  split
  · exact ⟨rfl, h⟩
  · exact ⟨rfl, (h.record _ _).withSlot hfill⟩

namespace Manager

variable (m : Manager)

theorem giveUp_alike (x : Exchange) (e : AuthError) (h : s.Alike f t) :
    Run.Alike f (m.giveUp x e s) (m.giveUp (x.renumber f) e t) := by
  unfold giveUp
  split
  · exact ⟨rfl, h.record _ _⟩
  · exact x.fail_alike hf e (h.record _ _)

theorem cache_alike (x : Exchange) (c : Credential) (h : s.Alike f t) :
    Run.Alike f (m.cache x c s) (m.cache (x.renumber f) c t) := by
  have hcurrent : t.slot.isCurrent (f x.ticket) = s.slot.isCurrent x.ticket := by
    rw [h.slot, Slot.isCurrent_renumber hf]
  have hfill : (t.slot.fill c).release (f x.ticket) = ((s.slot.fill c).release x.ticket).renumber f := by
    rw [h.slot, Slot.fill_renumber, Slot.release_renumber hf]
  simp only [cache, Exchange.renumber_ticket, hcurrent]
  split
  · exact ⟨rfl, (h.record _ _).withSlot hfill⟩
  · exact m.giveUp_alike hf x .cancelled h

theorem keep_alike (x : Exchange) (c : Credential) (h : s.Alike f t) :
    Run.Alike f (m.keep x c s) (m.keep (x.renumber f) c t) := by
  have hcurrent : t.slot.isCurrent (f x.ticket) = s.slot.isCurrent x.ticket := by
    rw [h.slot, Slot.isCurrent_renumber hf]
  simp only [keep, Exchange.renumber_ticket, hcurrent]
  split
  · split
    · exact m.cache_alike hf x c h
    · rw [h.nonces]
      exact ⟨rfl, h.slot, rfl, h.now⟩
  · exact m.giveUp_alike hf x .cancelled h

end Manager

/-- A waiting task runs on as it did. -/
theorem Stage.resume_alike (m : Manager) (stage : Stage) (a : (stage.call m).Answer) (h : s.Alike f t) :
    Run.Alike f (stage.resume m a s) ((stage.renumber f).resume m (renumberAnswer f a) t) := by
  cases stage with
  | removingOld x => exact ⟨rfl, h.recordRemoval a⟩
  | fetchingNonce x =>
    cases (a : Except Enrollment.TransportError String) with
    | ok nonce => exact ⟨rfl, h⟩
    | error e => exact m.giveUp_alike hf x _ h
  | enrolling x request =>
    cases (a : Except Enrollment.TransportError Enrollment.Response) with
    | error e => exact m.giveUp_alike hf x _ h
    | ok response =>
      change Run.Alike f (resume m (enrolling x request) (.ok response) s)
        (resume m (enrolling (x.renumber f) request) (.ok response) t)
      simp only [resume, h.now, Exchange.renumber]
      split
      · exact m.keep_alike hf x _ h
      · exact m.giveUp_alike hf x _ h
  | saving x c blob =>
    cases (a : Except VaultError Unit) with
    | ok u => exact m.cache_alike hf x c h
    | error e => exact m.giveUp_alike hf x _ h
  | cleaningUp x e => exact x.fail_alike hf e (h.recordRemoval a)
  | removing =>
    cases (a : Except VaultError Unit) with
    | ok u => exact ⟨rfl, h.record _ _⟩
    | error e => exact ⟨rfl, h⟩
  | loading generation =>
    cases (a : Except VaultError (Option String)) with
    | error e => exact Restoration.fail_alike e h
    | ok entry =>
      change Run.Alike f (resume m (loading generation) (.ok entry) s)
        (resume m (loading (f generation)) (.ok entry) t)
      simp only [resume]
      split
      · exact Restoration.fail_alike _ h
      · exact ⟨rfl, h⟩
      · exact Restoration.finish_alike hf generation _ h
  | discarding e => exact ⟨rfl, h.recordRemoval a⟩

end ClientAuth
