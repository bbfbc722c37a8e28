import ClientAuth.Proofs.Store.FileNames
import ClientAuth.Proofs.Store.Plain

/-!
# Interleavings of calls on a store of files

Calls on a store of files act on the directory one action at a time (`Filing.act`), in any order among each other. While a
save writes its temporary file, any content may be in it (`Filing.spill`); writing and renaming may fail (`Filing.fail`);
and all calls may stop at once, as when the process ends (`Filing.stop`). A call that acts with no other in between does
what `FileStore` does (`Filing.perform_alone`).

`Filing.history` keeps what has come of the calls, newest first. Of a key, the blob that was saved last and not removed
since is `blobAfter`.
-/

namespace ClientAuth

/-- A call: an operation, and the random number that a save draws. -/
structure FileCall where
  op : StoreOp String
  suffix : UInt64
  deriving DecidableEq, Repr

namespace FileCall

/-- The random number that is drawn for a call, if any. -/
def drawn : FileCall → Option UInt64
  | ⟨.save _ _, suffix⟩ => some suffix
  | ⟨.load _, _⟩ | ⟨.remove _, _⟩ => none

/-- The names of the files that a call uses. -/
def names : FileCall → List String
  | ⟨.save key _, suffix⟩ => [FileStore.temporaryName key suffix, FileStore.entryName key]
  | ⟨.load key, _⟩ | ⟨.remove key, _⟩ => [FileStore.entryName key]

/-- A call with a key that is not empty, and names that the file system accepts. -/
structure Accepted (c : FileCall) : Prop where
  key : c.op.key ≠ ""
  names : ∀ name ∈ c.names, Directory.checkName name = .ok ()

/-- Where a call is accepted, so is a load of its key. -/
theorem Accepted.load {c : FileCall} (h : c.Accepted) : Accepted ⟨.load c.op.key, c.suffix⟩ := by
  obtain ⟨op, suffix⟩ := c
  refine ⟨h.key, fun name hname => h.names name ?_⟩
  cases op with
  | load key => exact hname
  | save key blob => exact List.mem_cons_of_mem _ hname
  | remove key => exact hname

end FileCall

/-- How far a call has come. -/
inductive FileJob where
  /-- A load, before it reads. -/
  | loading (key : String)
  /-- A save, before the first of the actions that are due. -/
  | saving (key blob : String) (due : List FileAction)
  /-- A removal, before it deletes. -/
  | removing (key : String)
  deriving DecidableEq, Repr

/-- What a call sets out to do. -/
def FileJob.first : FileCall → FileJob
  | ⟨.load key, _⟩ => .loading key
  | ⟨.save key blob, suffix⟩ => .saving key blob (FileStore.saveActions key blob suffix)
  | ⟨.remove key, _⟩ => .removing key

/-- The key that a call is about. -/
def FileJob.key : FileJob → String
  | .loading key | .saving key _ _ | .removing key => key

theorem FileJob.key_first (c : FileCall) : (FileJob.first c).key = c.op.key := by
  obtain ⟨op, suffix⟩ := c
  cases op <;> rfl

/-- How many actions a call has left. -/
def FileJob.left : FileJob → Nat
  | .loading _ | .removing _ => 1
  | .saving _ _ due => due.length

/-- What has come of a call; calls are numbered in the order in which they were made. -/
inductive FileEvent where
  | loaded (i : Nat) (key : String) (entry : Option String)
  | saved (i : Nat) (key blob : String)
  | removed (i : Nat) (key : String)
  | failed (i : Nat) (e : VaultError)

namespace FileEvent

/-- The call that an event is about. -/
def call : FileEvent → Nat
  | loaded i _ _ | saved i _ _ | removed i _ | failed i _ => i

/-- Whether the call has succeeded. -/
def Succeeds : FileEvent → Prop
  | failed _ _ => False
  | loaded _ _ _ | saved _ _ _ | removed _ _ => True

/-- Whether an event can come of a call. -/
def Answers (c : FileCall) : FileEvent → Prop
  | loaded _ key _ => c.op = .load key
  | saved _ key blob => c.op = .save key blob
  | removed _ key => c.op = .remove key
  | failed _ _ => True

/-- The reply to the operation of the call. -/
def reply (op : StoreOp String) : FileEvent → StoreReply String
  | loaded _ _ entry => .found (.ok entry)
  | saved _ _ _ | removed _ _ => .done (.ok ())
  | failed _ e =>
    match op with
    | .load _ => .found (.error e)
    | .save _ _ | .remove _ => .done (.error e)

end FileEvent

/-- The blob of a key: the one that was saved last, unless the key was removed since. -/
def blobAfter (key : String) : List FileEvent → Option String
  | [] => none
  | .saved _ k blob :: h => if k = key then some blob else blobAfter key h
  | .removed _ k :: h => if k = key then none else blobAfter key h
  | .loaded _ _ _ :: h | .failed _ _ :: h => blobAfter key h

/-- An event that is no save of a key and no removal of it leaves its blob. -/
theorem blobAfter_cons {key : String} {e : FileEvent} (hsaved : ∀ i blob, e ≠ .saved i key blob)
    (hremoved : ∀ i, e ≠ .removed i key) (h : List FileEvent) : blobAfter key (e :: h) = blobAfter key h := by
  cases e with
  | loaded i k entry => rfl
  | failed i err => rfl
  | saved i k blob =>
    have hk : k ≠ key := fun hk => hsaved i blob (congrArg (FileEvent.saved i · blob) hk)
    exact if_neg hk
  | removed i k =>
    have hk : k ≠ key := fun hk => hremoved i (congrArg (FileEvent.removed i) hk)
    exact if_neg hk

/-- What a call comes to if nothing fails, where this has come of the others by then. -/
def FileJob.outcome (i : Nat) (h : List FileEvent) : FileJob → FileEvent
  | .loading key => .loaded i key (blobAfter key h)
  | .saving key blob _ => .saved i key blob
  | .removing key => .removed i key

theorem FileJob.call_outcome (i : Nat) (h : List FileEvent) (job : FileJob) : (job.outcome i h).call = i := by
  cases job <;> rfl

theorem FileJob.succeeds_outcome (i : Nat) (h : List FileEvent) (job : FileJob) : (job.outcome i h).Succeeds := by
  cases job <;> trivial

/-- What can happen next among calls on a store of files. -/
inductive FileMove where
  /-- A call is made. -/
  | call (c : FileCall)
  /-- A call does its next action. -/
  | act (i : Nat)
  /-- The temporary file that a save is about to write has some content already. -/
  | spill (i : Nat) (content : Bytes)
  /-- The next action of a save fails. -/
  | fail (i : Nat) (e : IoError)
  /-- All calls stop where they are. -/
  | stop

/-- The call that is made by a move. -/
def FileMove.call? : FileMove → Option FileCall
  | call c => some c
  | act _ | spill _ _ | fail _ _ | stop => none

/-- The call that does an action by a move. -/
def FileMove.actor? : FileMove → Option Nat
  | act i => some i
  | call _ | spill _ _ | fail _ _ | stop => none

/-- A directory, the calls that were made on it, how far those under way have come, and what has come of the others. -/
structure Filing where
  directory : Directory
  calls : List FileCall
  jobs : Nat → Option FileJob
  history : List FileEvent

namespace Filing

/-- No call has been made yet. -/
def start (d : Directory) : Filing := ⟨d, [], fun _ => none, []⟩

/-- A call goes on with a job. -/
def proceed (s : Filing) (i : Nat) (job : FileJob) : Filing :=
  { s with jobs := Function.update s.jobs i (some job) }

/-- A call ends. -/
def conclude (s : Filing) (e : FileEvent) : Filing :=
  { s with jobs := Function.update s.jobs e.call none, history := e :: s.history }

/-- A call is made; one with an empty key is refused at once. -/
def call (s : Filing) (c : FileCall) : Filing :=
  let made := { s with calls := s.calls ++ [c] }
  match FileStore.checkKey c.op.key with
  | .ok () => made.proceed s.calls.length (.first c)
  | .error e => made.conclude (.failed s.calls.length e)

/-- A call does its next action. -/
def act (s : Filing) (i : Nat) : Filing :=
  match s.jobs i with
  | none => s
  | some (.loading key) =>
    match FileStore.entryOf (s.directory.read (FileStore.entryName key)) with
    | .ok entry => s.conclude (.loaded i key entry)
    | .error e => s.conclude (.failed i e)
  | some (.saving key blob []) => s.conclude (.saved i key blob)
  | some (.saving key blob (a :: due)) =>
    match s.directory.perform a with
    | .error e => s.conclude (.failed i (.io e))
    | .ok d =>
      let acted := { s with directory := d }
      if due.isEmpty then acted.conclude (.saved i key blob) else acted.proceed i (.saving key blob due)
  | some (.removing key) =>
    match s.directory.perform (.delete (FileStore.entryName key)) with
    | .ok d => { s with directory := d }.conclude (.removed i key)
    | .error e => s.conclude (if e.kind = "NotFound" then .removed i key else .failed i (.io e))

/-- The file that a save is about to write gets some content. -/
def spill (s : Filing) (i : Nat) (content : Bytes) : Filing :=
  match s.jobs i with
  | some (.saving _ _ (.write name _ :: _)) =>
    match s.directory.perform (.write name content) with
    | .ok d => { s with directory := d }
    | .error _ => s
  | _ => s

/-- A save ends as its next action fails. -/
def fail (s : Filing) (i : Nat) (e : IoError) : Filing :=
  match s.jobs i with
  | some (.saving _ _ _) => s.conclude (.failed i (.io e))
  | _ => s

/-- All calls stop. -/
def stop (s : Filing) : Filing := { s with jobs := fun _ => none }

/-- Plays a move. -/
def step (s : Filing) : FileMove → Filing
  | .call c => s.call c
  | .act i => s.act i
  | .spill i content => s.spill i content
  | .fail i e => s.fail i e
  | .stop => s.stop

/-- Plays moves one after another, on a directory without files. -/
def run (moves : List FileMove) : Filing := moves.foldl step (start .empty)

theorem run_concat (moves : List FileMove) (m : FileMove) : run (moves ++ [m]) = (run moves).step m := by
  rw [run, List.foldl_append]
  rfl

@[simp] theorem proceed_jobs_self (s : Filing) (i : Nat) (job : FileJob) : (s.proceed i job).jobs i = some job :=
  Function.update_self _ _ _

@[simp] theorem conclude_jobs_self (s : Filing) (e : FileEvent) : (s.conclude e).jobs e.call = none :=
  Function.update_self _ _ _

variable {s : Filing} {i : Nat}

/-- The jobs when a call goes on: its own and the former ones of other calls. -/
theorem jobs_of_proceed {j : Nat} {job job' : FileJob} (h : (s.proceed i job).jobs j = some job') :
    (j = i ∧ job' = job) ∨ (j ≠ i ∧ s.jobs j = some job') := by
  by_cases hj : j = i
  · subst hj
    rw [proceed_jobs_self] at h
    exact .inl ⟨rfl, (Option.some.inj h).symm⟩
  · exact .inr ⟨hj, (Function.update_of_ne hj _ _).symm.trans h⟩

/-- The jobs when a call ends: those of other calls. -/
theorem jobs_of_conclude {e : FileEvent} {j : Nat} {job : FileJob} (h : (s.conclude e).jobs j = some job) :
    j ≠ e.call ∧ s.jobs j = some job := by
  by_cases hj : j = e.call
  · subst hj
    rw [conclude_jobs_self] at h
    cases h
  · exact ⟨hj, (Function.update_of_ne hj _ _).symm.trans h⟩

/-- The events about another call are the former ones when a call ends. -/
theorem history_of_conclude {e : FileEvent} {j : Nat} (hj : j ≠ e.call) :
    ∀ e' ∈ (s.conclude e).history, e' ∈ s.history ∨ e'.call ≠ j := by
  intro e' he'
  rcases List.mem_cons.1 he' with rfl | hmem
  · exact .inr hj.symm
  · exact .inl hmem

/-- A call that goes on with the job it has stays where it is. -/
theorem proceed_of_jobs {job : FileJob} (h : s.jobs i = some job) : s.proceed i job = s := by
  rw [proceed, ← h, Function.update_eq_self]

/-- A call that is not under way does nothing. -/
theorem act_of_none (h : s.jobs i = none) : s.act i = s := by
  simp only [act, h]

/-- A call that has just ended does nothing. -/
theorem act_of_ended {out : Filing} {e : FileEvent} (h : out = s.conclude e) : out.act e.call = out := by
  subst h
  exact act_of_none (conclude_jobs_self s e)

/-- A call with a key that is not empty sets out. -/
theorem call_of_ok {c : FileCall} (h : FileStore.checkKey c.op.key = .ok ()) :
    s.call c = { s with calls := s.calls ++ [c] }.proceed s.calls.length (.first c) := by
  simp only [call, h]

/-- A call with an empty key ends. -/
theorem call_of_error {c : FileCall} {e : VaultError} (h : FileStore.checkKey c.op.key = .error e) :
    s.call c = { s with calls := s.calls ++ [c] }.conclude (.failed s.calls.length e) := by
  simp only [call, h]

variable {key blob : String}

/-- A load reads the file of the key. -/
theorem act_of_loading (h : s.jobs i = some (.loading key)) :
    s.act i =
      match FileStore.entryOf (s.directory.read (FileStore.entryName key)) with
      | .ok entry => s.conclude (.loaded i key entry)
      | .error e => s.conclude (.failed i e) := by
  simp only [act, h]

/-- A save performs the first action that is due. -/
theorem act_of_saving {a : FileAction} {due : List FileAction} (h : s.jobs i = some (.saving key blob (a :: due))) :
    s.act i =
      match s.directory.perform a with
      | .error e => s.conclude (.failed i (.io e))
      | .ok d =>
        let acted := { s with directory := d }
        if due.isEmpty then acted.conclude (.saved i key blob) else acted.proceed i (.saving key blob due) := by
  simp only [act, h]

/-- A removal deletes the file of the key. -/
theorem act_of_removing (h : s.jobs i = some (.removing key)) :
    s.act i =
      match s.directory.perform (.delete (FileStore.entryName key)) with
      | .ok d => { s with directory := d }.conclude (.removed i key)
      | .error e => s.conclude (if e.kind = "NotFound" then .removed i key else .failed i (.io e)) := by
  simp only [act, h]

variable {suffix : UInt64}

/-- A save writes its blob to its temporary file, if the names that it uses are accepted. -/
theorem act_writes (hc : FileCall.Accepted ⟨.save key blob, suffix⟩)
    (h : s.jobs i = some (.first ⟨.save key blob, suffix⟩)) :
    s.act i =
      { s with directory := s.directory.insert (FileStore.temporaryName key suffix) (Utf8.encode blob) }.proceed i
        (.saving key blob [.rename (FileStore.temporaryName key suffix) (FileStore.entryName key)]) := by
  have hwrite := Directory.perform_write (d := s.directory) (hc.names _ List.mem_cons_self) (Utf8.encode blob)
  rw [act_of_saving h, hwrite]
  exact if_neg Bool.false_ne_true

/-- A save whose blob is in its temporary file makes that the file of its key. -/
theorem act_renames (hc : FileCall.Accepted ⟨.save key blob, suffix⟩)
    (h : s.jobs i = some (.saving key blob [.rename (FileStore.temporaryName key suffix) (FileStore.entryName key)]))
    (hget : s.directory.get? (FileStore.temporaryName key suffix) = some (Utf8.encode blob)) :
    s.act i =
      ({ s with
          directory := (s.directory.erase (FileStore.temporaryName key suffix)).insert (FileStore.entryName key)
            (Utf8.encode blob) }
        |>.conclude (.saved i key blob)) := by
  have hrename := Directory.perform_rename (hc.names _ List.mem_cons_self)
    (hc.names _ (List.mem_cons_of_mem _ List.mem_cons_self)) hget
  rw [act_of_saving h, hrename]
  exact if_pos rfl

/-- A removal leaves no file of its key, whether there was one or not. -/
theorem act_removes (hc : FileCall.Accepted ⟨.remove key, suffix⟩) (h : s.jobs i = some (.removing key)) :
    s.act i = { s with directory := s.directory.erase (FileStore.entryName key) }.conclude (.removed i key) := by
  cases hget : s.directory.get? (FileStore.entryName key) with
  | some content => rw [act_of_removing h, Directory.perform_delete (hc.names _ List.mem_cons_self) hget]
  | none =>
    rw [act_of_removing h, Directory.perform_delete_of_none (hc.names _ List.mem_cons_self) hget,
      Directory.erase_of_none hget]
    exact congrArg s.conclude (if_pos rfl)

/-- A call has ended with what the store of files does at once, which is told by its reply and what it leaves. -/
def Does (s : Filing) (i : Nat) (op : StoreOp String) (out : Filing) (plain : StoreReply String × FileStore) : Prop :=
  out.directory = plain.2.directory ∧ out.jobs i = none ∧
    ∃ e : FileEvent, e.call = i ∧ out.history = e :: s.history ∧ e.reply op = plain.1

/-- A call that ends with its next action has ended so, whatever it is told to do after that. -/
theorem does_of_ended {q : Filing} {op : StoreOp String} {plain : StoreReply String × FileStore} (e : FileEvent)
    (hact : s.act e.call = q.conclude e) (hhistory : q.history = s.history)
    (hplain : plain = (e.reply op, ⟨q.directory, plain.2.temporaries⟩)) :
    s.Does e.call op ((s.act e.call).act e.call) plain := by
  rw [act_of_ended hact, hact, hplain]
  exact ⟨rfl, conclude_jobs_self q e, e, rfl, congrArg (e :: ·) hhistory, rfl⟩

/-- A load does what the store of files does. -/
theorem does_load (h : s.jobs i = some (.loading key)) (hkey : FileStore.checkKey key = .ok ()) (t : Nat) :
    s.Does i (.load key) ((s.act i).act i) (FileStore.backing.perform ⟨s.directory, t⟩ (.load key)) := by
  simp only [FileStore.backing, Backing.perform, FileStore.load_of_checkKey hkey]
  cases hread : FileStore.entryOf (s.directory.read (FileStore.entryName key)) with
  | ok entry =>
    have hact : s.act i = s.conclude (.loaded i key entry) := by rw [act_of_loading h, hread]
    exact does_of_ended (.loaded i key entry) hact rfl rfl
  | error e =>
    have hact : s.act i = s.conclude (.failed i e) := by rw [act_of_loading h, hread]
    exact does_of_ended (.failed i e) hact rfl rfl

/-- A removal does what the store of files does. -/
theorem does_remove (h : s.jobs i = some (.removing key)) (hkey : FileStore.checkKey key = .ok ()) (t : Nat) :
    s.Does i (.remove key) ((s.act i).act i) (FileStore.backing.perform ⟨s.directory, t⟩ (.remove key)) := by
  simp only [FileStore.backing, Backing.perform, FileStore.remove, hkey]
  cases hdelete : s.directory.perform (.delete (FileStore.entryName key)) with
  | ok d =>
    have hact : s.act i = { s with directory := d }.conclude (.removed i key) := by rw [act_of_removing h, hdelete]
    exact does_of_ended (.removed i key) hact rfl rfl
  | error e =>
    have hact : s.act i = s.conclude (if e.kind = "NotFound" then .removed i key else .failed i (.io e)) := by
      rw [act_of_removing h, hdelete]
    by_cases hkind : e.kind = "NotFound"
    · rw [if_pos hkind] at hact
      refine does_of_ended (.removed i key) hact rfl ?_
      simp only [if_pos hkind, FileEvent.reply]
    · rw [if_neg hkind] at hact
      refine does_of_ended (.failed i (.io e)) hact rfl ?_
      simp only [if_neg hkind, FileEvent.reply]

/-- A save does what the store of files does. -/
theorem does_save (t : Nat) (h : s.jobs i = some (.first ⟨.save key blob, UInt64.ofNat (t + 1)⟩))
    (hkey : FileStore.checkKey key = .ok ()) :
    s.Does i (.save key blob) ((s.act i).act i) (FileStore.backing.perform ⟨s.directory, t⟩ (.save key blob)) := by
  simp only [FileJob.first, FileStore.saveActions] at h
  simp only [FileStore.backing, Backing.perform, FileStore.save, hkey, FileStore.saveActions, Directory.performAll]
  cases hwrite : s.directory.perform (.write (FileStore.temporaryName key (UInt64.ofNat (t + 1))) (Utf8.encode blob)) with
  | error e =>
    have hact : s.act i = s.conclude (.failed i (.io e)) := by rw [act_of_saving h, hwrite]
    exact does_of_ended (.failed i (.io e)) hact rfl rfl
  | ok d =>
    have hact : s.act i = { s with directory := d }.proceed i (.saving key blob
        [.rename (FileStore.temporaryName key (UInt64.ofNat (t + 1))) (FileStore.entryName key)]) := by
      rw [act_of_saving h, hwrite]
      exact if_neg Bool.false_ne_true
    rw [hact, act_of_saving (proceed_jobs_self _ _ _)]
    simp only [proceed]
    cases d.perform (.rename (FileStore.temporaryName key (UInt64.ofNat (t + 1))) (FileStore.entryName key)) with
    | error e => exact ⟨rfl, conclude_jobs_self _ (.failed i (.io e)), .failed i (.io e), rfl, rfl, rfl⟩
    | ok d' => exact ⟨rfl, conclude_jobs_self _ (.saved i key blob), .saved i key blob, rfl, rfl, rfl⟩

/-- A call with an empty key does what the store of files does, which is nothing. -/
theorem does_refused {op : StoreOp String} {e : VaultError} (hkey : FileStore.checkKey op.key = .error e) (x : UInt64)
    (t : Nat) :
    s.Does s.calls.length op (s.call ⟨op, x⟩) (FileStore.backing.perform ⟨s.directory, t⟩ op) := by
  rw [call_of_error (c := ⟨op, x⟩) hkey]
  have hended := conclude_jobs_self { s with calls := s.calls ++ [⟨op, x⟩] } (.failed s.calls.length e)
  cases op with
  | load key =>
    have hplain : FileStore.load ⟨s.directory, t⟩ key = .error e := by
      simp only [StoreOp.key] at hkey
      simp only [FileStore.load, hkey, bind, Except.bind]
    exact ⟨rfl, hended, .failed s.calls.length e, rfl, rfl, congrArg StoreReply.found hplain.symm⟩
  | save key blob =>
    have hplain : FileStore.save ⟨s.directory, t⟩ key blob = (.error e, ⟨s.directory, t⟩) := by
      simp only [StoreOp.key] at hkey
      simp only [FileStore.save, hkey]
    simp only [FileStore.backing, Backing.perform, hplain]
    exact ⟨rfl, hended, .failed s.calls.length e, rfl, rfl, rfl⟩
  | remove key =>
    have hplain : FileStore.remove ⟨s.directory, t⟩ key = (.error e, ⟨s.directory, t⟩) := by
      simp only [StoreOp.key] at hkey
      simp only [FileStore.remove, hkey]
    simp only [FileStore.backing, Backing.perform, hplain]
    exact ⟨rfl, hended, .failed s.calls.length e, rfl, rfl, rfl⟩

/-- A call that is made and then acts with no other in between replies as the store of files does, and leaves the directory
as that does. -/
theorem perform_alone (s : Filing) (op : StoreOp String) (t : Nat) :
    let i := s.calls.length
    s.Does i op (((s.call ⟨op, UInt64.ofNat (t + 1)⟩).act i).act i)
      (FileStore.backing.perform ⟨s.directory, t⟩ op) := by
  intro i
  cases hkey : FileStore.checkKey op.key with
  | error e =>
    have hcall := call_of_error (s := s) (c := ⟨op, UInt64.ofNat (t + 1)⟩) hkey
    have hended : (s.call ⟨op, UInt64.ofNat (t + 1)⟩).act i = s.call ⟨op, UInt64.ofNat (t + 1)⟩ := act_of_ended hcall
    rw [hended, hended]
    exact does_refused hkey _ t
  | ok u =>
    have hcall := call_of_ok (s := s) (c := ⟨op, UInt64.ofNat (t + 1)⟩) hkey
    have hjob : (s.call ⟨op, UInt64.ofNat (t + 1)⟩).jobs i = some (.first ⟨op, UInt64.ofNat (t + 1)⟩) := by
      rw [hcall]
      exact proceed_jobs_self _ _ _
    rw [hcall] at hjob ⊢
    cases op with
    | load key => exact does_load hjob hkey t
    | save key blob => exact does_save t hjob hkey
    | remove key => exact does_remove hjob hkey t

end Filing

end ClientAuth
