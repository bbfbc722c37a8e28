import ClientAuth.Session.World

/-!
# Sessions

In a session any number of managers share one world, and their tasks are run on by name. A task runs only when it is
polled: it then makes its calls, one after another, until one has to wait or the task ends. A task that was aborted ends
as soon as it is polled, and one that is dropped never runs again; either way its guard is released.
-/

namespace ClientAuth

/-- A bound on the calls that a waiting task still makes. -/
def Stage.callsLeft : Stage → Nat
  | removingOld _ => 5
  | fetchingNonce _ => 4
  | enrolling _ _ => 3
  | saving _ _ _ | loading _ => 2
  | cleaningUp _ _ | removing | discarding _ => 1

/-- Runs a task on until a call has to wait or the task ends, for at most a number of calls. -/
def Manager.advance {σ : Type} (m : Manager) : (calls : Nat) → World σ → Run → Run × World σ
  | 0, w, run => (run, w)
  | _ + 1, w, (.finished o, s) => ((.finished o, s), w)
  | calls + 1, w, (.waiting stage, s) =>
    if w.holds (stage.call m) then ((.waiting stage, s), w)
    else
      let (answer, w) := w.perform (stage.call m)
      m.advance calls w (stage.resume m answer s)

/-- Polls a task. -/
def Manager.poll {σ : Type} (m : Manager) (t : Task) (w : World σ) (s : Scene) : Run × World σ :=
  match t.start m s with
  | (.finished o, s) => ((.finished o, s), w)
  | (.waiting stage, s) => m.advance stage.callsLeft w (.waiting stage, s)

/-- A manager in a session, with its slot. -/
structure Client where
  manager : Manager
  slot : Slot
  deriving DecidableEq, Repr

/-- A task in a session: the place of its client, its serial number, and what it is. -/
structure Pending where
  client : Nat
  serial : Nat
  task : Task
  deriving DecidableEq, Repr

/-- What polling a task gives. -/
inductive Poll where
  /-- There is no such task. -/
  | absent
  /-- The task waits. -/
  | pending
  /-- The task has ended, and is gone. -/
  | finished (outcome : Outcome)

/-- Managers in a shared world, and their tasks. -/
structure Session (σ : Type) where
  world : World σ
  nonces : Nonces
  now : Instant
  /-- All managers there ever were, in the order of their making. -/
  clients : List Client := []
  /-- The places of managers by name. -/
  names : List (String × Nat) := []
  /-- The tasks by name. -/
  tasks : List (String × Pending) := []
  /-- The serial numbers of the tasks that handles abort, by name. -/
  handles : List (String × Nat) := []
  /-- The serial numbers of the tasks that were aborted. -/
  aborted : List Nat := []
  /-- How many tasks there ever were. -/
  begun : Nat := 0
  /-- What was logged since the log was last taken. -/
  log : List LogEvent := []

namespace Session

variable {σ : Type} (s : Session σ)

/-- Adds a manager. A former one of that name loses the name, but its tasks go on. -/
def addManager (name : String) (m : Manager) : Session σ :=
  { s with
    clients := s.clients ++ [⟨m, .empty⟩]
    names := (name, s.clients.length) :: s.names }

/-- The place of a manager. -/
def place? (name : String) : Option Nat := s.names.lookup name

/-- A manager with its slot. -/
def client? (name : String) : Option Client := do s.clients[← s.place? name]?

/-- Changes the slot of the client at a place. -/
def modifySlot (place : Nat) (f : Slot → Slot) : Session σ :=
  { s with clients := s.clients.modify place fun c => { c with slot := f c.slot } }

/-- Without a task, whatever becomes of its guard. -/
def forget (id : String) : Session σ := { s with tasks := s.tasks.filter (·.1 != id) }

/-- Drops a task and releases its guard. -/
def drop (id : String) : Session σ :=
  match s.tasks.lookup id with
  | none => s
  | some p => (s.forget id).modifySlot p.client p.task.drop

/-- Adds a task, in the place of a former one of that name, which is dropped. -/
def enqueue (id : String) (place : Nat) (t : Task) : Session σ :=
  let s := s.drop id
  { s with tasks := (id, ⟨place, s.begun, t⟩) :: s.tasks, begun := s.begun + 1 }

/-- Keeps a handle on the latest task. -/
def keepHandle (id : String) : Session σ := { s with handles := (id, s.begun - 1) :: s.handles }

/-- Asks the manager at a place for a credential. The exchange starts before a former task of that name is dropped. -/
def obtain (place : Nat) (id : String) (p : Enrollment.Params) : Session σ :=
  match s.clients[place]? with
  | none => s
  | some c =>
    let (started, slot) := Exchange.begin p c.slot
    let t := match started with
      | .ok x => .exchange x
      | .error e => .refused e
    (s.modifySlot place fun _ => slot).enqueue id place t

/-- Aborts through the latest handle of a name. -/
def abort (id : String) : Session σ := { s with aborted := (s.handles.lookup id).toList ++ s.aborted }

/-- Polls a task. -/
def poll (id : String) : Poll × Session σ :=
  match s.tasks.lookup id with
  | none => (.absent, s)
  | some p =>
    if s.aborted.contains p.serial then (.finished (.error .cancelled), s.drop id)
    else
      match s.clients[p.client]? with
      | none => (.absent, s)
      | some c =>
        let ((progress, scene), world) := c.manager.poll p.task s.world ⟨c.slot, s.nonces, s.now, s.log⟩
        let s := { s with world, nonces := scene.nonces, log := scene.log }
        let s := (s.modifySlot p.client fun _ => scene.slot).forget id
        match progress with
        | .waiting stage => (.pending, { s with tasks := (id, { p with task := .waiting stage }) :: s.tasks })
        | .finished o => (.finished o, s)

/-- Takes the log, which starts anew. -/
def takeLog : List LogEvent × Session σ := (s.log, { s with log := [] })

end Session

end ClientAuth
