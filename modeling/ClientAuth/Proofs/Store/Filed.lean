import ClientAuth.Proofs.Store.Filing
import Mathlib.Data.List.Induction

/-!
# What a directory holds among interleaved calls

Where names are accepted and random numbers do not repeat, a move does one of a few things (`Filing.Change`), and each of
them keeps what `Filed` says of the directory: under the name of a key is its blob, whole, and all other files are left by
saves that have not taken effect. So it holds after any moves (`Filed.run`).
-/

namespace ClientAuth

open FileStore (entryName temporaryName)

/-- Two saves have temporary files of their own. -/
theorem FileCall.temporaryName_ne {calls : List FileCall} (hfresh : (calls.filterMap drawn).Nodup) {i j : Nat}
    (hij : i ≠ j) {key key' blob blob' : String} {suffix suffix' : UInt64}
    (hi : calls[i]? = some ⟨.save key blob, suffix⟩) (hj : calls[j]? = some ⟨.save key' blob', suffix'⟩) :
    temporaryName key suffix ≠ temporaryName key' suffix' := by
  have hpairs := List.pairwise_iff_getElem.1 (List.pairwise_filterMap.1 hfresh)
  obtain ⟨hilt, hi⟩ := List.getElem?_eq_some_iff.1 hi
  obtain ⟨hjlt, hj⟩ := List.getElem?_eq_some_iff.1 hj
  intro h
  have hsuffix := FileStore.suffix_of_temporaryName h
  rcases Nat.lt_or_gt_of_ne hij with hlt | hgt
  · exact hpairs i j hilt hjlt hlt suffix (by rw [hi]; rfl) suffix' (by rw [hj]; rfl) hsuffix
  · exact hpairs j i hjlt hilt hgt suffix' (by rw [hj]; rfl) suffix (by rw [hi]; rfl) hsuffix.symm

/-- A call under way has done nothing yet, or it is a save whose whole blob is in its temporary file. -/
def FileJob.Fits (d : Directory) (c : FileCall) (job : FileJob) : Prop :=
  job = .first c ∨ ∃ key blob, c.op = .save key blob ∧
    job = .saving key blob [.rename (temporaryName key c.suffix) (entryName key)] ∧
    d.get? (temporaryName key c.suffix) = some (Utf8.encode blob)

/-- What a move does, if the names of calls are accepted. -/
inductive Filing.Change (s : Filing) : FileMove → Filing → Prop where
  | still {m : FileMove} (hm : m.call? = none) : Change s m s
  | calls {c : FileCall} (hc : c.Accepted) :
      Change s (.call c) ({ s with calls := s.calls ++ [c] }.proceed s.calls.length (.first c))
  | loads {i : Nat} {key : String} {suffix : UInt64} (hcall : s.calls[i]? = some ⟨.load key, suffix⟩) :
      Change s (.act i) (s.conclude (.loaded i key (blobAfter key s.history)))
  | writes {m : FileMove} (hm : m.call? = none) {i : Nat} {key blob : String} {suffix : UInt64} {content : Bytes}
      {job job' : FileJob} (hcall : s.calls[i]? = some ⟨.save key blob, suffix⟩) (hjob : s.jobs i = some job)
      (hfits : job'.Fits (s.directory.insert (temporaryName key suffix) content) ⟨.save key blob, suffix⟩) :
      Change s m ({ s with directory := s.directory.insert (temporaryName key suffix) content }.proceed i job')
  | renames {i : Nat} {key blob : String} {suffix : UInt64} (hcall : s.calls[i]? = some ⟨.save key blob, suffix⟩) :
      Change s (.act i)
        ({ s with directory := (s.directory.erase (temporaryName key suffix)).insert (entryName key) (Utf8.encode blob) }
          |>.conclude (.saved i key blob))
  | removes {i : Nat} {key : String} {suffix : UInt64} (hcall : s.calls[i]? = some ⟨.remove key, suffix⟩) :
      Change s (.act i) ({ s with directory := s.directory.erase (entryName key) }.conclude (.removed i key))
  | fails {i : Nat} {e : IoError} {c : FileCall} (hcall : s.calls[i]? = some c) :
      Change s (.fail i e) (s.conclude (.failed i (.io e)))
  | stops : Change s .stop s.stop

/-- A call that was made stays as it was. -/
theorem Filing.Change.call_eq {s s' : Filing} {m : FileMove} (hc : s.Change m s') {i : Nat} {c : FileCall}
    (hcall : s.calls[i]? = some c) : s'.calls[i]? = some c := by
  cases hc with
  | calls hc =>
    obtain ⟨hlt, -⟩ := List.getElem?_eq_some_iff.1 hcall
    exact (List.getElem?_append_left hlt).trans hcall
  | _ => exact hcall

/-- A move adds at most one event. It comes of a call; a load has found the blob of that moment, of a save that has taken
effect there is no temporary file any more, and a failure is that of the move. -/
theorem Filing.Change.history_cases {s s' : Filing} {m : FileMove} (hc : s.Change m s') :
    s'.history = s.history ∨ ∃ e : FileEvent, s'.history = e :: s.history ∧
      (∃ c, s.calls[e.call]? = some c ∧ e.Answers c) ∧
      (∀ i key entry, e = .loaded i key entry → entry = blobAfter key s.history) ∧
      (∀ i key blob suffix, e = .saved i key blob → s.calls[i]? = some ⟨.save key blob, suffix⟩ →
        s'.directory.get? (temporaryName key suffix) = none) ∧
      ∀ i err, e = .failed i err → ∃ io, m = .fail i io ∧ err = .io io := by
  cases hc with
  | still hm => exact .inl rfl
  | stops => exact .inl rfl
  | calls haccepted => exact .inl rfl
  | writes hm hcall hjob hfits => exact .inl rfl
  | loads hcall =>
    refine .inr ⟨_, rfl, ⟨_, hcall, rfl⟩, ?_, nofun, nofun⟩
    rintro i key entry ⟨⟩
    rfl
  | @renames i key blob suffix hcall =>
    refine .inr ⟨_, rfl, ⟨_, hcall, rfl⟩, nofun, ?_, nofun⟩
    rintro i key blob suffix' ⟨⟩ hcall'
    obtain ⟨⟩ := Option.some.inj (hcall.symm.trans hcall')
    exact (Directory.get?_insert_of_ne (FileStore.temporaryName_ne_entryName _ _ _)).trans (Directory.get?_erase_self _ _)
  | removes hcall => exact .inr ⟨_, rfl, ⟨_, hcall, rfl⟩, nofun, nofun, nofun⟩
  | fails hcall =>
    refine .inr ⟨_, rfl, ⟨_, hcall, trivial⟩, nofun, nofun, ?_⟩
    rintro i err ⟨⟩
    exact ⟨_, rfl, rfl⟩

/-- A file that is there after a move was there before it, or is that of a key, or is one that a save is writing. -/
theorem Filing.Change.file_cases {s s' : Filing} {m : FileMove} (hc : s.Change m s') {name : String} {content : Bytes}
    (hget : s'.directory.get? name = some content) :
    s.directory.get? name = some content ∨ (∃ key, name = entryName key) ∨
      ∃ i key blob suffix job, s.calls[i]? = some ⟨.save key blob, suffix⟩ ∧ s.jobs i = some job ∧
        name = temporaryName key suffix ∧ s'.history = s.history := by
  cases hc with
  | still hm => exact .inl hget
  | stops => exact .inl hget
  | calls haccepted => exact .inl hget
  | loads hcall => exact .inl hget
  | fails hcall => exact .inl hget
  | removes hcall => exact .inl (Directory.get?_of_erase hget)
  | @renames i key blob suffix hcall =>
    by_cases hname : name = entryName key
    · exact .inr (.inl ⟨key, hname⟩)
    · exact .inl (Directory.get?_of_erase ((Directory.get?_insert_of_ne hname).symm.trans hget))
  | @writes m hm i key blob suffix content' job job' hcall hjob hfits =>
    by_cases hname : name = temporaryName key suffix
    · exact .inr (.inr ⟨i, key, blob, suffix, job, hcall, hjob, hname, rfl⟩)
    · exact .inl ((Directory.get?_insert_of_ne hname).symm.trans hget)

/-- What holds of a directory after moves. -/
structure Filed (moves : List FileMove) (s : Filing) : Prop where
  /-- The calls are those that the moves make. -/
  calls : s.calls = moves.filterMap FileMove.call?
  /-- A call under way has not been answered. -/
  jobs : ∀ i job, s.jobs i = some job →
    ∃ c, s.calls[i]? = some c ∧ c.Accepted ∧ job.Fits s.directory c ∧ ∀ e ∈ s.history, e.call ≠ i
  /-- Each event has come of a call. -/
  answers : ∀ e ∈ s.history, ∃ c, s.calls[e.call]? = some c ∧ e.Answers c
  /-- The file of a key has its blob. -/
  entries : ∀ key, s.directory.get? (entryName key) = (blobAfter key s.history).map Utf8.encode
  /-- A load has found the blob of that moment. -/
  loads : ∀ i key entry earlier, .loaded i key entry :: earlier <:+ s.history → entry = blobAfter key earlier
  /-- All files are those of keys or temporary ones of saves that have not taken effect. -/
  files : ∀ name content, s.directory.get? name = some content → (∃ key, name = entryName key) ∨
    ∃ i key blob suffix, s.calls[i]? = some ⟨.save key blob, suffix⟩ ∧ name = temporaryName key suffix ∧
      .saved i key blob ∉ s.history
  /-- Only what was made to fail has failed. -/
  failures : ∀ i e, .failed i e ∈ s.history → ∃ io, .fail i io ∈ moves ∧ e = .io io
  /-- No two files share a name. -/
  distinct : s.directory.Distinct

namespace Filed

open Filing (Change)

variable {moves : List FileMove} {s s' : Filing} {m : FileMove}

/-- A load finds the blob of its key. -/
theorem act_loads (h : Filed moves s) {i : Nat} {key : String} {suffix : UInt64} (hc : FileCall.Accepted ⟨.load key, suffix⟩)
    (hjob : s.jobs i = some (.loading key)) : s.act i = s.conclude (.loaded i key (blobAfter key s.history)) := by
  have hread := Directory.entryOf_read (hc.names _ List.mem_cons_self) (h.entries key)
  rw [Filing.act_of_loading hjob, hread]

/-- An action of a call does one of these things. -/
theorem act_change (h : Filed moves s) (i : Nat) : s.Change (.act i) (s.act i) := by
  cases hjob : s.jobs i with
  | none =>
    rw [Filing.act_of_none hjob]
    exact .still rfl
  | some job =>
    obtain ⟨⟨op, suffix⟩, hcall, hc, hfits, -⟩ := h.jobs i job hjob
    rcases hfits with rfl | ⟨key, blob, rfl, rfl, hget⟩
    · cases op with
      | load key =>
        rw [h.act_loads hc hjob]
        exact .loads hcall
      | save key blob =>
        rw [Filing.act_writes hc hjob]
        exact .writes rfl hcall hjob (.inr ⟨key, blob, rfl, rfl, Directory.get?_insert_self _ _ _⟩)
      | remove key =>
        rw [Filing.act_removes hc hjob]
        exact .removes hcall
    · rw [Filing.act_renames hc hjob hget]
      exact .renames hcall

/-- Content in a temporary file before it is written is a thing of these. -/
theorem spill_change (h : Filed moves s) (i : Nat) (content : Bytes) :
    s.Change (.spill i content) (s.spill i content) := by
  cases hjob : s.jobs i with
  | none =>
    simp only [Filing.spill, hjob]
    exact .still rfl
  | some job =>
    obtain ⟨⟨op, suffix⟩, hcall, hc, hfits, -⟩ := h.jobs i job hjob
    rcases hfits with rfl | ⟨key, blob, rfl, rfl, hget⟩
    · cases op with
      | load key =>
        simp only [Filing.spill, hjob, FileJob.first]
        exact .still rfl
      | save key blob =>
        have hwrite := Directory.perform_write (d := s.directory) (hc.names _ List.mem_cons_self) content
        have hspill : s.spill i content =
            { s with directory := s.directory.insert (temporaryName key suffix) content }.proceed i
              (.first ⟨.save key blob, suffix⟩) := by
          have hstays := Filing.proceed_of_jobs
            (s := { s with directory := s.directory.insert (temporaryName key suffix) content }) hjob
          rw [hstays]
          simp only [Filing.spill, hjob, FileJob.first, FileStore.saveActions, hwrite]
        rw [hspill]
        exact .writes rfl hcall hjob (.inl rfl)
      | remove key =>
        simp only [Filing.spill, hjob, FileJob.first]
        exact .still rfl
    · simp only [Filing.spill, hjob]
      exact .still rfl

/-- A failure is a thing of these. -/
theorem fail_change (h : Filed moves s) (i : Nat) (e : IoError) : s.Change (.fail i e) (s.fail i e) := by
  cases hjob : s.jobs i with
  | none =>
    simp only [Filing.fail, hjob]
    exact .still rfl
  | some job =>
    obtain ⟨c, hcall, -, -, -⟩ := h.jobs i job hjob
    cases job with
    | saving key blob due =>
      simp only [Filing.fail, hjob]
      exact .fails hcall
    | loading key =>
      simp only [Filing.fail, hjob]
      exact .still rfl
    | removing key =>
      simp only [Filing.fail, hjob]
      exact .still rfl

/-- A move does one of these things. -/
theorem step_change (h : Filed moves s) (hm : ∀ c, m = .call c → c.Accepted) : s.Change m (s.step m) := by
  cases m with
  | call c =>
    have hc := hm c rfl
    have hcall : s.step (.call c) = _ := Filing.call_of_ok (FileStore.checkKey_of_ne hc.key)
    rw [hcall]
    exact .calls hc
  | act i => exact h.act_change i
  | spill i content => exact h.spill_change i content
  | fail i e => exact h.fail_change i e
  | stop => exact .stops

/-- The calls are those of the moves. -/
theorem change_calls (h : Filed moves s) (hc : s.Change m s') : s'.calls = (moves ++ [m]).filterMap FileMove.call? := by
  rw [List.filterMap_append, ← h.calls]
  cases hc with
  | still hm => simp [hm]
  | calls hc => rfl
  | loads hcall => exact (List.append_nil _).symm
  | writes hm hcall hjob hfits =>
    simp only [List.filterMap_cons, hm, List.filterMap_nil]
    exact (List.append_nil _).symm
  | renames hcall => exact (List.append_nil _).symm
  | removes hcall => exact (List.append_nil _).symm
  | fails hcall => exact (List.append_nil _).symm
  | stops => exact (List.append_nil _).symm

/-- A call that a move is not about stays under way. -/
theorem keeps (h : Filed moves s) (hc : s.Change m s') {j : Nat} {job : FileJob} (hjob : s.jobs j = some job)
    (hhistory : ∀ e ∈ s'.history, e ∈ s.history ∨ e.call ≠ j)
    (hget : ∀ key blob suffix, s.calls[j]? = some ⟨.save key blob, suffix⟩ →
      s'.directory.get? (temporaryName key suffix) = s.directory.get? (temporaryName key suffix)) :
    ∃ c, s'.calls[j]? = some c ∧ c.Accepted ∧ job.Fits s'.directory c ∧ ∀ e ∈ s'.history, e.call ≠ j := by
  obtain ⟨c, hcall, haccepted, hfits, hunanswered⟩ := h.jobs j job hjob
  refine ⟨c, hc.call_eq hcall, haccepted, ?_, ?_⟩
  · rcases hfits with hfirst | ⟨key, blob, hop, hdue, hwhole⟩
    · exact .inl hfirst
    · obtain ⟨op, suffix⟩ := c
      subst hop
      exact .inr ⟨key, blob, rfl, hdue, (hget key blob suffix hcall).trans hwhole⟩
  · intro e he
    exact (hhistory e he).elim (hunanswered e) id

/-- A call under way has not been answered. -/
theorem change_jobs (h : Filed moves s) (hc : s.Change m s') (hfresh : (s.calls.filterMap FileCall.drawn).Nodup)
    (j : Nat) (job : FileJob) (hjob : s'.jobs j = some job) :
    ∃ c, s'.calls[j]? = some c ∧ c.Accepted ∧ job.Fits s'.directory c ∧ ∀ e ∈ s'.history, e.call ≠ j := by
  have hkeeps : s.jobs j = some job → _ → _ → _ := h.keeps hc
  cases hc with
  | still hm => exact h.jobs j job hjob
  | stops => cases hjob
  | calls haccepted =>
    rcases Filing.jobs_of_proceed hjob with ⟨rfl, rfl⟩ | ⟨-, hold⟩
    · refine ⟨_, List.getElem?_concat_length, haccepted, .inl rfl, ?_⟩
      intro e he hcall
      obtain ⟨c, hc, -⟩ := h.answers e he
      rw [hcall, List.getElem?_eq_none (Nat.le_refl _)] at hc
      cases hc
    · exact hkeeps hold (fun e he => .inl he) fun _ _ _ _ => rfl
  | loads hcall =>
    obtain ⟨hj, hold⟩ := Filing.jobs_of_conclude hjob
    exact hkeeps hold (Filing.history_of_conclude hj) fun _ _ _ _ => rfl
  | fails hcall =>
    obtain ⟨hj, hold⟩ := Filing.jobs_of_conclude hjob
    exact hkeeps hold (Filing.history_of_conclude hj) fun _ _ _ _ => rfl
  | removes hcall =>
    obtain ⟨hj, hold⟩ := Filing.jobs_of_conclude hjob
    refine hkeeps hold (Filing.history_of_conclude hj) fun key blob suffix _ => ?_
    exact Directory.get?_erase_of_ne (FileStore.temporaryName_ne_entryName _ _ _)
  | renames hcall =>
    obtain ⟨hj, hold⟩ := Filing.jobs_of_conclude hjob
    refine hkeeps hold (Filing.history_of_conclude hj) fun key blob suffix hother => ?_
    -- the temporary file of another save is neither the one that goes nor the entry that comes
    have hname := FileCall.temporaryName_ne hfresh hj hother hcall
    exact (Directory.get?_insert_of_ne (FileStore.temporaryName_ne_entryName _ _ _)).trans
      (Directory.get?_erase_of_ne hname)
  | writes hm hcall hold hfits =>
    rcases Filing.jobs_of_proceed hjob with ⟨rfl, rfl⟩ | ⟨hj, hother⟩
    · obtain ⟨c, hc, haccepted, -, hunanswered⟩ := h.jobs _ _ hold
      obtain rfl := Option.some.inj (hcall.symm.trans hc)
      exact ⟨_, hcall, haccepted, hfits, hunanswered⟩
    · refine hkeeps hother (fun e he => .inl he) fun key blob suffix hcall' => ?_
      exact Directory.get?_insert_of_ne (FileCall.temporaryName_ne hfresh hj hcall' hcall)

/-- Each event has come of a call. -/
theorem change_answers (h : Filed moves s) (hc : s.Change m s') :
    ∀ e ∈ s'.history, ∃ c, s'.calls[e.call]? = some c ∧ e.Answers c := by
  have hold : ∀ e ∈ s.history, ∃ c, s'.calls[e.call]? = some c ∧ e.Answers c := by
    intro e he
    obtain ⟨c, hcall, hanswers⟩ := h.answers e he
    exact ⟨c, hc.call_eq hcall, hanswers⟩
  intro e he
  rcases hc.history_cases with heq | ⟨new, heq, ⟨c, hcall, hanswers⟩, -⟩
  · exact hold e (heq ▸ he)
  · rw [heq] at he
    rcases List.mem_cons.1 he with rfl | hmem
    · exact ⟨c, hc.call_eq hcall, hanswers⟩
    · exact hold e hmem

/-- The file of a key has its blob. -/
theorem change_entries (h : Filed moves s) (hc : s.Change m s') (key : String) :
    s'.directory.get? (entryName key) = (blobAfter key s'.history).map Utf8.encode := by
  cases hc with
  | still hm => exact h.entries key
  | stops => exact h.entries key
  | calls haccepted => exact h.entries key
  | loads hcall => exact h.entries key
  | fails hcall => exact h.entries key
  | writes hm hcall hjob hfits =>
    exact (Directory.get?_insert_of_ne (FileStore.temporaryName_ne_entryName _ _ _).symm).trans (h.entries key)
  | @renames i k blob suffix hcall =>
    by_cases hk : k = key
    · subst hk
      have hblob : blobAfter k (.saved i k blob :: s.history) = some blob := if_pos rfl
      exact (Directory.get?_insert_self _ _ _).trans (congrArg (Option.map Utf8.encode) hblob.symm)
    · have hblob : blobAfter key (.saved i k blob :: s.history) = blobAfter key s.history := if_neg hk
      have hget : (s.directory.erase (temporaryName k suffix)).get? (entryName key) = s.directory.get? (entryName key) :=
        Directory.get?_erase_of_ne (FileStore.temporaryName_ne_entryName _ _ _).symm
      have hname : entryName key ≠ entryName k := FileStore.entryName_injective.ne (Ne.symm hk)
      exact ((Directory.get?_insert_of_ne hname).trans hget).trans
        ((h.entries key).trans (congrArg (Option.map Utf8.encode) hblob.symm))
  | @removes i k suffix hcall =>
    by_cases hk : k = key
    · subst hk
      have hblob : blobAfter k (.removed i k :: s.history) = none := if_pos rfl
      exact (Directory.get?_erase_self _ _).trans (congrArg (Option.map Utf8.encode) hblob.symm)
    · have hblob : blobAfter key (.removed i k :: s.history) = blobAfter key s.history := if_neg hk
      have hname : entryName key ≠ entryName k := FileStore.entryName_injective.ne (Ne.symm hk)
      exact (Directory.get?_erase_of_ne hname).trans
        ((h.entries key).trans (congrArg (Option.map Utf8.encode) hblob.symm))

/-- A load has found the blob of that moment. -/
theorem change_loads (h : Filed moves s) (hc : s.Change m s') {i : Nat} {key : String} {entry : Option String}
    {earlier : List FileEvent} (hloaded : .loaded i key entry :: earlier <:+ s'.history) :
    entry = blobAfter key earlier := by
  rcases hc.history_cases with heq | ⟨e, heq, -, hfound, -⟩
  · rw [heq] at hloaded
    exact h.loads i key entry earlier hloaded
  · rw [heq] at hloaded
    rcases List.suffix_cons_iff.1 hloaded with hnew | hold
    · obtain ⟨rfl, rfl⟩ := List.cons.inj hnew
      exact hfound i key entry rfl
    · exact h.loads i key entry earlier hold

/-- All files are those of keys or temporary ones of saves that have not taken effect. -/
theorem change_files (h : Filed moves s) (hc : s.Change m s') (name : String) (content : Bytes)
    (hget : s'.directory.get? name = some content) :
    (∃ key, name = entryName key) ∨ ∃ i key blob suffix, s'.calls[i]? = some ⟨.save key blob, suffix⟩ ∧
      name = temporaryName key suffix ∧ .saved i key blob ∉ s'.history := by
  rcases hc.file_cases hget with hold | hentry | ⟨i, key, blob, suffix, job, hcall, hjob, rfl, hhistory⟩
  · rcases h.files name content hold with hentry | ⟨i, key, blob, suffix, hcall, rfl, hunsaved⟩
    · exact .inl hentry
    · refine .inr ⟨i, key, blob, suffix, hc.call_eq hcall, rfl, ?_⟩
      rcases hc.history_cases with heq | ⟨e, heq, -, -, hgone, -⟩
      · rwa [heq]
      · rw [heq]
        intro hsaved
        rcases List.mem_cons.1 hsaved with rfl | hmem
        · rw [hgone i key blob suffix rfl hcall] at hget
          cases hget
        · exact hunsaved hmem
  · exact .inl hentry
  · refine .inr ⟨i, key, blob, suffix, hc.call_eq hcall, rfl, ?_⟩
    obtain ⟨-, -, -, -, hunanswered⟩ := h.jobs i job hjob
    rw [hhistory]
    exact fun hsaved => hunanswered _ hsaved rfl

/-- Only what was made to fail has failed. -/
theorem change_failures (h : Filed moves s) (hc : s.Change m s') (i : Nat) (e : VaultError)
    (hfailed : .failed i e ∈ s'.history) : ∃ io, .fail i io ∈ moves ++ [m] ∧ e = .io io := by
  have hold : .failed i e ∈ s.history → ∃ io, .fail i io ∈ moves ++ [m] ∧ e = .io io := by
    intro hmem
    obtain ⟨io, hio, he⟩ := h.failures i e hmem
    exact ⟨io, List.mem_append_left _ hio, he⟩
  rcases hc.history_cases with heq | ⟨new, heq, -, -, -, hfails⟩
  · exact hold (heq ▸ hfailed)
  · rw [heq] at hfailed
    rcases List.mem_cons.1 hfailed with rfl | hmem
    · obtain ⟨io, rfl, he⟩ := hfails i e rfl
      exact ⟨io, List.mem_append_right _ List.mem_cons_self, he⟩
    · exact hold hmem

/-- No two files share a name. -/
theorem change_distinct (h : Filed moves s) (hc : s.Change m s') : s'.directory.Distinct := by
  cases hc with
  | still hm => exact h.distinct
  | stops => exact h.distinct
  | calls haccepted => exact h.distinct
  | loads hcall => exact h.distinct
  | fails hcall => exact h.distinct
  | removes hcall => exact h.distinct.erase _
  | renames hcall => exact (h.distinct.erase _).insert _ _
  | writes hm hcall hjob hfits => exact h.distinct.insert _ _

/-- Before any move all this holds. -/
theorem start : Filed [] (Filing.start .empty) where
  calls := rfl
  jobs := nofun
  answers := nofun
  entries _ := rfl
  loads _ _ _ _ h := absurd (List.suffix_nil.1 h) (List.cons_ne_nil _ _)
  files := nofun
  failures := nofun
  distinct := Directory.distinct_empty

/-- Each move keeps it. -/
theorem change (h : Filed moves s) (hc : s.Change m s')
    (hfresh : ((moves.filterMap FileMove.call?).filterMap FileCall.drawn).Nodup) : Filed (moves ++ [m]) s' where
  calls := h.change_calls hc
  jobs := h.change_jobs hc (h.calls ▸ hfresh)
  answers := h.change_answers hc
  entries := h.change_entries hc
  loads _ _ _ _ := h.change_loads hc
  files := h.change_files hc
  failures := h.change_failures hc
  distinct := h.change_distinct hc

/-- After any moves it holds, if names are accepted and random numbers do not repeat. -/
theorem run (hcalls : ∀ c ∈ moves.filterMap FileMove.call?, c.Accepted)
    (hfresh : ((moves.filterMap FileMove.call?).filterMap FileCall.drawn).Nodup) : Filed moves (Filing.run moves) := by
  induction moves using List.reverseRecOn with
  | nil => exact start
  | append_singleton moves m ih =>
    rw [List.filterMap_append] at hcalls hfresh
    rw [List.filterMap_append] at hfresh
    -- the calls before the last move are accepted and draw no number twice either
    have hbefore := (List.nodup_append.1 hfresh).1
    have hfiled := ih (fun c hc => hcalls c (List.mem_append_left _ hc)) hbefore
    have hm : ∀ c, m = .call c → c.Accepted := by
      rintro c rfl
      exact hcalls c (List.mem_append_right _ List.mem_cons_self)
    rw [Filing.run_concat]
    exact hfiled.change (hfiled.step_change hm) hbefore

/-- It holds at any point of a run. -/
theorem run_before {after : List FileMove} (hcalls : ∀ c ∈ (moves ++ after).filterMap FileMove.call?, c.Accepted)
    (hfresh : (((moves ++ after).filterMap FileMove.call?).filterMap FileCall.drawn).Nodup) :
    Filed moves (Filing.run moves) := by
  rw [List.filterMap_append] at hcalls hfresh
  rw [List.filterMap_append] at hfresh
  exact run (fun c hc => hcalls c (List.mem_append_left _ hc)) (List.nodup_append.1 hfresh).1

/-- A load that is accepted finds the blob of its key. -/
theorem load (h : Filed moves s) {key : String} {suffix : UInt64} (hc : FileCall.Accepted ⟨.load key, suffix⟩) (t : Nat) :
    FileStore.load ⟨s.directory, t⟩ key = .ok (blobAfter key s.history) := by
  have hread := Directory.entryOf_read (hc.names _ List.mem_cons_self) (h.entries key)
  exact (FileStore.load_of_checkKey (FileStore.checkKey_of_ne hc.key) _).trans hread

/-- When all calls have succeeded, there is one file for each key that has a blob, and no other. -/
theorem mem_names_iff (h : Filed moves s)
    (hdone : ∀ i < s.calls.length, ∃ e ∈ s.history, e.call = i ∧ e.Succeeds) (name : String) :
    name ∈ s.directory.names ↔ ∃ key, blobAfter key s.history ≠ none ∧ name = entryName key := by
  rw [Directory.mem_names_iff]
  constructor
  · rintro ⟨content, hget⟩
    rcases h.files name content hget with ⟨key, rfl⟩ | ⟨i, key, blob, suffix, hcall, -, hunsaved⟩
    · refine ⟨key, ?_, rfl⟩
      intro hnone
      rw [h.entries key, hnone] at hget
      cases hget
    · obtain ⟨hlt, -⟩ := List.getElem?_eq_some_iff.1 hcall
      obtain ⟨e, he, rfl, hsucceeds⟩ := hdone i hlt
      obtain ⟨c, hc, hanswers⟩ := h.answers e he
      obtain rfl := Option.some.inj (hcall.symm.trans hc)
      cases e with
      | loaded j k entry => cases hanswers
      | removed j k => cases hanswers
      | failed j err => exact hsucceeds.elim
      | saved j k b =>
        cases hanswers
        exact absurd he hunsaved
  · rintro ⟨key, hblob, rfl⟩
    obtain ⟨blob, hblob⟩ := Option.ne_none_iff_exists'.1 hblob
    exact ⟨Utf8.encode blob, by rw [h.entries key, hblob]; rfl⟩

end Filed

end ClientAuth
