import ClientAuth.Session.World
import Mathlib.Logic.Function.Basic

/-!
# Interleavings of the futures of one manager

A caller of a manager gets a future for every call of obtain, clear and restore, and polls, drops or aborts it as it
likes. Here every order in which that can go is a list of moves. A poll carries a task from one await point to the next;
the call that the task waits for is performed by a move of its own, which may come long before the poll that takes the
answer, or never. So a future can be dropped before its call takes effect, and between the effect and the answer.

`State.run` plays any list of moves. `State.history` keeps what has happened, newest first, so that statements about
the order of events are statements about a list.
-/

namespace ClientAuth

open Enrollment (Params Response TransportError)

/-- Whether a task comes from a call of obtain; only such a call can be had with a handle to abort it. -/
def Task.isObtain : Task → Bool
  | refused _ | exchange _ => true
  | waiting stage => stage.exchange?.isSome
  | clear | restore => false

/-- The task of an exchange that was asked for: it was begun or refused. -/
def Task.ofBegun : Except AuthError Exchange → Task
  | .ok x => .exchange x
  | .error e => .refused e

namespace Interleaving

/-- What the service and the store answer at a moment. -/
structure Weather where
  nonce : Except TransportError String
  enroll : Except TransportError Response
  faults : Faults := {}

/-- The world at a moment. -/
def Weather.world {σ : Type} (w : Weather) (b : Backing σ) (store : σ) : World σ where
  backing := b
  store
  faults := w.faults
  nonceAnswer := w.nonce
  enrollAnswer := w.enroll

/-- How far a future has come. -/
inductive Phase (m : Manager) where
  /-- The task has not run yet, or its call has not been performed. -/
  | unanswered (t : Task)
  /-- The call of the task was performed, and the task was not polled since. -/
  | answered (stage : Stage) (answer : (stage.call m).Answer)

namespace Phase

variable {m : Manager}

/-- The task of a future. -/
def task : Phase m → Task
  | unanswered t => t
  | answered stage _ => .waiting stage

/-- What a poll comes to: nothing while the call of the task is outstanding. -/
def run? : Phase m → Scene → Option Run
  | unanswered (.waiting _), _ => none
  | unanswered t, s => some (t.start m s)
  | answered stage answer, s => some (stage.resume m answer s)

end Phase

/-- A future of a manager. -/
structure Future (m : Manager) where
  phase : Phase m
  aborted : Bool

/-- Something that has happened. -/
inductive Event where
  /-- The call that made a future. -/
  | called (i : Nat) (t : Task)
  /-- A poll carried a task on to its next await point or to its end. -/
  | ran (i : Nat) (t : Task) (now : Instant)
  /-- The call that a task waits for took effect. -/
  | performed (i : Nat) (c : Call) (a : c.Answer)
  /-- A future was dropped, by its owner or since it was aborted. -/
  | abandoned (i : Nat)
  | resolved (i : Nat) (o : Outcome)

/-- The future that an event is about. -/
def Event.future : Event → Nat
  | called i _ | ran i _ _ | performed i _ _ | abandoned i | resolved i _ => i

/-- What has happened to a future. -/
def own (i : Nat) (h : List Event) : List Event := h.filter (·.future = i)

/-- The first event happened before the second; the history is newest first. -/
def Before (h : List Event) (e e' : Event) : Prop := [e', e].Sublist h

/-- What can be done next. -/
inductive Move where
  | obtain (p : Params)
  | clear
  | restore
  | poll (i : Nat) (now : Instant)
  /-- The call that a future waits for takes effect. -/
  | perform (i : Nat) (w : Weather)
  | abort (i : Nat)
  | drop (i : Nat)

/-- The future that a move is about; the calls that make futures are about none. -/
def Move.future? : Move → Option Nat
  | obtain _ | clear | restore => none
  | poll i _ | perform i _ | abort i | drop i => some i

/-- A manager's slot, the store behind it, and the futures that were made, by the order of their making. -/
structure State (m : Manager) (σ : Type) where
  slot : Slot
  store : σ
  nonces : Nonces
  log : List LogEvent
  /-- The futures that have neither resolved nor been dropped. -/
  futures : Nat → Option (Future m)
  /-- How many futures were made. -/
  made : Nat
  /-- What has happened, newest first. -/
  history : List Event

namespace State

variable {m : Manager} {σ : Type}

/-- A new manager over a store. -/
def new (store : σ) (nonces : Nonces) : State m σ := ⟨.empty, store, nonces, [], fun _ => none, 0, []⟩

/-- What a task sees when it is polled. -/
def scene (s : State m σ) (now : Instant) : Scene := ⟨s.slot, s.nonces, now, s.log⟩

/-- Makes a future. -/
def add (s : State m σ) (t : Task) : State m σ :=
  { s with
    futures := Function.update s.futures s.made (some ⟨.unanswered t, false⟩)
    made := s.made + 1
    history := .called s.made t :: s.history }

/-- Keeps what a task has come to. -/
def settle (s : State m σ) (i : Nat) (run : Run) : State m σ :=
  let s := { s with slot := run.2.slot, nonces := run.2.nonces, log := run.2.log }
  match run.1 with
  | .waiting stage => { s with futures := Function.update s.futures i (some ⟨.unanswered (.waiting stage), false⟩) }
  | .finished o => { s with futures := Function.update s.futures i none, history := .resolved i o :: s.history }

/-- Drops a future at its task. -/
def abandon (s : State m σ) (i : Nat) (t : Task) : State m σ :=
  { s with
    slot := t.drop s.slot
    futures := Function.update s.futures i none
    history := .abandoned i :: s.history }

/-- Polls a future. One that was aborted is dropped and resolves. -/
def poll (s : State m σ) (i : Nat) (now : Instant) (f : Future m) : State m σ :=
  if f.aborted then
    let s := s.abandon i f.phase.task
    { s with history := .resolved i (.error .cancelled) :: s.history }
  else
    match f.phase.run? (s.scene now) with
    | none => s
    | some run => { s with history := .ran i f.phase.task now :: s.history }.settle i run

/-- Performs the call that a future waits for. -/
def perform (b : Backing σ) (s : State m σ) (i : Nat) (w : Weather) (stage : Stage) (aborted : Bool) : State m σ :=
  let (a, store) := (w.world b s.store).answer (stage.call m)
  { s with
    store
    futures := Function.update s.futures i (some ⟨.answered stage a, aborted⟩)
    history := .performed i (stage.call m) a :: s.history }

/-- The state after a move. A move about a future that is gone, or that cannot be made now, changes nothing. -/
def step (b : Backing σ) (s : State m σ) : Move → State m σ
  | .obtain p => { s with slot := (Exchange.begin p s.slot).2 }.add (.ofBegun (Exchange.begin p s.slot).1)
  | .clear => s.add .clear
  | .restore => s.add .restore
  | .poll i now =>
    match s.futures i with
    | none => s
    | some f => s.poll i now f
  | .perform i w =>
    match s.futures i with
    | some ⟨.unanswered (.waiting stage), aborted⟩ => s.perform b i w stage aborted
    | _ => s
  | .abort i =>
    match s.futures i with
    | none => s
    | some f =>
      if f.phase.task.isObtain then { s with futures := Function.update s.futures i (some { f with aborted := true }) }
      else s
  | .drop i =>
    match s.futures i with
    | none => s
    | some f => s.abandon i f.phase.task

/-- The state after any number of moves. -/
def run (b : Backing σ) (s : State m σ) (moves : List Move) : State m σ := moves.foldl (step b) s

/-- The ticket of the guard that a future holds. -/
def guard? (s : State m σ) (i : Nat) : Option Nat := (s.futures i).bind (·.phase.task.ticket?)

end State

end Interleaving

end ClientAuth
