import ClientAuth.Proofs.Store.Completion

/-!
# A store of files is a map at every moment

At every point of every interleaving, a load on a store of files gives what a map would, calls that go on take effect and
come to their end, and the operations reply one after another as those of a store in memory (`Filing.atomic_map`).
-/

namespace ClientAuth

open FileStore (entryName temporaryName)

namespace FileStore

variable {s : FileStore} {key : String}

/-- A save that is accepted succeeds, and changes the file of its key alone among those of keys. -/
theorem save_of_accepted {blob : String} (hc : FileCall.Accepted ⟨.save key blob, UInt64.ofNat (s.temporaries + 1)⟩) :
    ∃ d, s.save key blob = (.ok (), ⟨d, s.temporaries + 1⟩) ∧ ∀ k, d.get? (entryName k) =
      if k = key then some (Utf8.encode blob) else s.directory.get? (entryName k) := by
  have hkey : checkKey key = .ok () := checkKey_of_ne hc.key
  have htmp := hc.names _ List.mem_cons_self
  have hentry := hc.names _ (List.mem_cons_of_mem _ List.mem_cons_self)
  have hother : ∀ k, entryName k ≠ temporaryName key (UInt64.ofNat (s.temporaries + 1)) :=
    fun _ => (temporaryName_ne_entryName _ _ _).symm
  simp only [save, hkey, saveActions, Directory.performAll]
  generalize temporaryName key (UInt64.ofNat (s.temporaries + 1)) = tmp at htmp hother
  have hwrite := Directory.perform_write (d := s.directory) htmp (Utf8.encode blob)
  have hrename := Directory.perform_rename htmp hentry (Directory.get?_insert_self s.directory tmp (Utf8.encode blob))
  refine ⟨((s.directory.insert tmp (Utf8.encode blob)).erase tmp).insert (entryName key) (Utf8.encode blob), ?_, ?_⟩
  · simp only [hwrite, hrename, Except.mapError]
  · intro k
    simp only [Directory.get?_insert, Directory.get?_erase, if_neg (hother k), entryName_injective.eq_iff]

/-- A removal that is accepted succeeds, and changes the file of its key alone. -/
theorem remove_of_accepted {suffix : UInt64} (hc : FileCall.Accepted ⟨.remove key, suffix⟩) :
    ∃ d, s.remove key = (.ok (), ⟨d, s.temporaries⟩) ∧ ∀ k, d.get? (entryName k) =
      if k = key then none else s.directory.get? (entryName k) := by
  have hkey : checkKey key = .ok () := checkKey_of_ne hc.key
  have hentry := hc.names _ List.mem_cons_self
  refine ⟨s.directory.erase (entryName key), ?_, fun k => ?_⟩
  · cases hget : s.directory.get? (entryName key) with
    | some content => simp only [remove, hkey, Directory.perform_delete hentry hget]
    | none =>
      simp only [remove, hkey, Directory.perform_delete_of_none hentry hget, Directory.erase_of_none hget,
        Directory.failure, if_pos]
  · simp only [Directory.get?_erase, entryName_injective.eq_iff]

/-- A store of files has the entries of a store in memory. -/
def Mirrors (s : FileStore) (entries : Entries) : Prop :=
  ∀ key, s.directory.get? (entryName key) = (entries.get? key).map Utf8.encode

/-- A store of files replies as a store in memory, and goes on having its entries. -/
theorem Mirrors.perform {entries : Entries} (h : s.Mirrors entries) {op : StoreOp String}
    (hop : ∀ suffix, FileCall.Accepted ⟨op, suffix⟩) :
    (backing.perform s op).1 = (Backing.memory.perform entries op).1 ∧
      (backing.perform s op).2.Mirrors (Backing.memory.perform entries op).2 := by
  cases op with
  | load key =>
    have hload : s.load key = .ok (entries.get? key) :=
      (load_of_checkKey (checkKey_of_ne (hop 0).key) s).trans
        (Directory.entryOf_read ((hop 0).names _ List.mem_cons_self) (h key))
    exact ⟨congrArg StoreReply.found hload, h⟩
  | save key blob =>
    -- a store of files draws numbers that count, and names with any number are accepted
    obtain ⟨d, hsave, hget⟩ := save_of_accepted (hop (UInt64.ofNat (s.temporaries + 1)))
    simp only [backing, Backing.perform, hsave, Backing.memory]
    refine ⟨trivial, fun k => (hget k).trans ?_⟩
    rw [Entries.get?_insert, h k]
    by_cases hk : k = key
    · rw [if_pos hk, if_pos hk]
      rfl
    · rw [if_neg hk, if_neg hk]
  | remove key =>
    obtain ⟨d, hremove, hget⟩ := remove_of_accepted (s := s) (hop 0)
    simp only [backing, Backing.perform, hremove, Backing.memory]
    refine ⟨trivial, fun k => (hget k).trans ?_⟩
    rw [Entries.get?_erase, h k]
    by_cases hk : k = key
    · rw [if_pos hk, if_pos hk]
      rfl
    · rw [if_neg hk, if_neg hk]

end FileStore

namespace Filing

/-- A store of files is a map, at every moment of any run of calls that are interleaved, fail or stop, if they have keys
that are not empty, names that the file system accepts, and random numbers that do not repeat. Each load has found the blob
that was saved last under its key and not removed since, as far as saves and removals had taken effect by then, and so would
a load at the end. Keys have files of their own, and no temporary file is that of a key. What the load of a key gives is
changed only by a save of that key, when its file is renamed, and by a removal of it; so a save that fails or stops before
changes no load. Nothing fails but what was made to fail. When all calls have succeeded, there is one file for each key that
has a blob, and no other. One after another, operations reply as those of a store in memory.

Calls do come to their end. A removal that acts has ended, and nothing is found under its key; a save that acts has its
renaming to do yet, or has ended, and its blob is found under its key. Whatever other calls do in between, a call that does
all its actions has ended with what it was made for, unless it was made to fail or all calls stopped. A call that is made and
acts with no other in between ends at once, and replies and leaves the directory as an operation of `FileStore` does. -/
theorem atomic_map {moves : List FileMove} (hcalls : ∀ c ∈ moves.filterMap FileMove.call?, c.Accepted)
    (hfresh : ((moves.filterMap FileMove.call?).filterMap FileCall.drawn).Nodup) :
    let s := run moves
    (∀ i key entry earlier, .loaded i key entry :: earlier <:+ s.history → entry = blobAfter key earlier) ∧
    (∀ key suffix, FileCall.Accepted ⟨.load key, suffix⟩ →
      (∀ t, FileStore.load ⟨s.directory, t⟩ key = .ok (blobAfter key s.history)) ∧
      ∀ i, s.jobs i = some (.loading key) →
        (s.act i).history = .loaded i key (blobAfter key s.history) :: s.history) ∧
    (Function.Injective entryName ∧ ∀ key suffix key', temporaryName key suffix ≠ entryName key') ∧
    (∀ before m after key suffix t, moves = before ++ m :: after → FileCall.Accepted ⟨.load key, suffix⟩ →
      (∀ i blob, (run (before ++ [m])).history ≠ .saved i key blob :: (run before).history) →
      (∀ i, (run (before ++ [m])).history ≠ .removed i key :: (run before).history) →
        FileStore.load ⟨(run (before ++ [m])).directory, t⟩ key = FileStore.load ⟨(run before).directory, t⟩ key) ∧
    (∀ i e, .failed i e ∈ s.history → ∃ io, .fail i io ∈ moves ∧ e = .io io) ∧
    ((∀ i < s.calls.length, ∃ e ∈ s.history, e.call = i ∧ e.Succeeds) →
      s.directory.names.Nodup ∧
        ∀ name, name ∈ s.directory.names ↔ ∃ key, blobAfter key s.history ≠ none ∧ name = entryName key) ∧
    (∀ (ops : List (StoreOp String)) (t : Nat), (∀ op ∈ ops, ∀ suffix, FileCall.Accepted ⟨op, suffix⟩) →
      (StoreOp.runAll FileStore.backing.perform ⟨.empty, t⟩ ops).1 =
        (StoreOp.runAll Backing.memory.perform .empty ops).1) ∧
    (∀ i key, s.jobs i = some (.removing key) →
      (s.act i).jobs i = none ∧ (s.act i).history = .removed i key :: s.history ∧
        ∀ t, FileStore.load ⟨(s.act i).directory, t⟩ key = .ok none) ∧
    (∀ i key blob due, s.jobs i = some (.saving key blob due) →
      (due.length = 2 ∧ (s.act i).history = s.history ∧
        ∃ due', (s.act i).jobs i = some (.saving key blob due') ∧ due'.length = 1) ∨
      (due.length = 1 ∧ (s.act i).jobs i = none ∧ (s.act i).history = .saved i key blob :: s.history ∧
        ∀ t, FileStore.load ⟨(s.act i).directory, t⟩ key = .ok (some blob))) ∧
    (∀ before c after, moves = before ++ .call c :: after → .stop ∉ after →
      (∀ e, .fail (run before).calls.length e ∉ after) →
      (FileJob.first c).left ≤ (after.filterMap FileMove.actor?).count (run before).calls.length →
        ∃ e ∈ s.history, e.call = (run before).calls.length ∧ e.Succeeds ∧ e.Answers c) ∧
    ∀ op t, s.Does s.calls.length op
      (((s.call ⟨op, UInt64.ofNat (t + 1)⟩).act s.calls.length).act s.calls.length)
      (FileStore.backing.perform ⟨s.directory, t⟩ op) := by
  intro s
  have hfiled : Filed moves s := Filed.run hcalls hfresh
  refine ⟨hfiled.loads, ?now, ⟨FileStore.entryName_injective, FileStore.temporaryName_ne_entryName⟩, ?point,
    hfiled.failures, fun hdone => ⟨hfiled.distinct.nodup_names, hfiled.mem_names_iff hdone⟩, ?alone,
    fun _ _ => hfiled.act_removing hfresh, fun _ _ _ _ => hfiled.act_saving hfresh, ?ends, s.perform_alone⟩
  case now =>
    intro key suffix hc
    refine ⟨hfiled.load hc, fun i hjob => ?_⟩
    rw [hfiled.act_loads hc hjob]
    rfl
  case point =>
    rintro before m after key suffix t rfl hc hsaved hremoved
    have hbefore : Filed before (run before) := Filed.run_before hcalls hfresh
    rw [List.append_cons] at hcalls hfresh
    have hafter : Filed (before ++ [m]) (run (before ++ [m])) := Filed.run_before hcalls hfresh
    rw [hbefore.load hc, hafter.load hc]
    have hm : ∀ c, m = .call c → c.Accepted := by
      rintro c rfl
      refine hcalls c ?_
      simp [FileMove.call?]
    rw [run_concat] at hsaved hremoved ⊢
    rcases (hbefore.step_change hm).history_cases with heq | ⟨e, heq, -⟩
    · rw [heq]
    · rw [heq] at hsaved hremoved ⊢
      rw [blobAfter_cons (fun i blob he => hsaved i blob (he ▸ rfl)) fun i he => hremoved i (he ▸ rfl)]
  case alone =>
    intro ops t hops
    have hempty : FileStore.Mirrors ⟨.empty, t⟩ .empty := fun _ => rfl
    exact (StoreOp.runAll_simulates (fun _ _ _ h hop => h.perform hop) hops hempty).1
  case ends =>
    rintro before c after rfl hstop hfail hacts
    exact Filed.ended_of_call hcalls hfresh hstop hfail hacts

/-- Two saves of a key overlap, a load comes between their renames, and a removal is called before the later one. A third
save breaks off while it writes: the key keeps the blob of the save that was renamed last, until the removal acts. -/
theorem atomic_map_disturbed :
    let moves : List FileMove :=
      [.call ⟨.save "key" "first", 1⟩, .call ⟨.save "key" "second", 2⟩, .act 0, .act 1, .act 1, .call ⟨.load "key", 0⟩,
        .act 2, .call ⟨.remove "key", 0⟩, .act 0, .call ⟨.save "key" "third", 3⟩, .spill 4 (Utf8.encode "th"),
        .fail 4 ⟨"StorageFull", none⟩]
    let s := run moves
    s.history =
        [.failed 4 (.io ⟨"StorageFull", none⟩), .saved 0 "key" "first", .loaded 2 "key" (some "second"),
          .saved 1 "key" "second"] ∧
      FileStore.load ⟨s.directory, 0⟩ "key" = .ok (some "first") ∧
      (s.act 3).history = .removed 3 "key" :: s.history ∧ (s.act 3).jobs 3 = none ∧
      FileStore.load ⟨(s.act 3).directory, 0⟩ "key" = .ok none := by
  intro moves s
  have hshort : ∀ c ∈ moves.filterMap FileMove.call?,
      c.op.key ≠ "" ∧ ∀ name ∈ c.names, name.utf8ByteSize ≤ Directory.maxNameLength := by decide
  have hcalls : ∀ c ∈ moves.filterMap FileMove.call?, c.Accepted :=
    fun c hc => ⟨(hshort c hc).1, fun name hname => if_pos ((hshort c hc).2 name hname)⟩
  have h := atomic_map hcalls (by decide)
  have hload := (h.2.1 "key" 0 (hcalls ⟨.load "key", 0⟩ (by decide))).1 0
  obtain ⟨hended, hremoved, hgone⟩ := h.2.2.2.2.2.2.2.1 3 "key" rfl
  exact ⟨rfl, hload.trans rfl, hremoved, hended, hgone 0⟩

end Filing

end ClientAuth
