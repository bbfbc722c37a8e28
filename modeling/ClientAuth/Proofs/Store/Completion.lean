import ClientAuth.Proofs.Store.Filed

/-!
# Calls on a store of files come to their end

An action takes a call one action closer to its end, or ends it with what it set out for (`Filed.act_progress`), and
nothing that is done by others holds it up (`Filing.step_jobs_of_other`). So a call that does as many actions as it has
ends, in any run, unless it is made to fail or all calls stop (`Filed.ended_of_acts`).
-/

namespace ClientAuth

namespace FileMove

variable {m : FileMove} {i : Nat}

theorem eq_act_of_actor? (h : m.actor? = some i) : m = .act i := by
  cases m with
  | act j => exact congrArg FileMove.act (Option.some.inj h)
  | _ => cases h

/-- A move of something else adds no action of a call. -/
theorem count_actors_of_ne (h : m.actor? ≠ some i) (moves : List FileMove) :
    ((m :: moves).filterMap actor?).count i = (moves.filterMap actor?).count i := by
  cases hm : m.actor? with
  | none => rw [List.filterMap_cons_none hm]
  | some j =>
    rw [List.filterMap_cons_some hm, List.count_cons_of_ne]
    exact fun hj => h (hj ▸ hm)

end FileMove

namespace Filing

variable {s q : Filing} {i : Nat}

/-- All calls but one are left where they are, and what has come of calls is kept. -/
structure LeavesOthers (s : Filing) (i : Nat) (s' : Filing) : Prop where
  jobs : ∀ j, j ≠ i → s'.jobs j = s.jobs j
  history : s.history <:+ s'.history

namespace LeavesOthers

theorem refl (s : Filing) (i : Nat) : s.LeavesOthers i s := ⟨fun _ _ => rfl, List.suffix_refl _⟩

/-- To end a call leaves the others, whatever becomes of the directory and of the list of calls. -/
theorem conclude (hjobs : q.jobs = s.jobs) (hhistory : q.history = s.history) {e : FileEvent} (he : e.call = i) :
    s.LeavesOthers i (q.conclude e) := by
  subst he
  refine ⟨fun j hj => ?_, hhistory ▸ List.suffix_cons e q.history⟩
  exact (Function.update_of_ne hj _ _).trans (congrFun hjobs j)

/-- To let a call go on leaves the others. -/
theorem proceed (hjobs : q.jobs = s.jobs) (hhistory : q.history = s.history) (job : FileJob) :
    s.LeavesOthers i (q.proceed i job) := by
  refine ⟨fun j hj => ?_, hhistory ▸ List.suffix_refl q.history⟩
  exact (Function.update_of_ne hj _ _).trans (congrFun hjobs j)

/-- A call that is made leaves the others. -/
theorem call (s : Filing) (c : FileCall) : s.LeavesOthers s.calls.length (s.call c) := by
  cases hkey : FileStore.checkKey c.op.key with
  | ok u =>
    rw [call_of_ok hkey]
    apply proceed <;> rfl
  | error e =>
    rw [call_of_error hkey]
    apply conclude <;> rfl

/-- A call that acts leaves the others. -/
theorem act (s : Filing) (i : Nat) : s.LeavesOthers i (s.act i) := by
  cases hjob : s.jobs i with
  | none =>
    rw [act_of_none hjob]
    exact refl s i
  | some job =>
    cases job with
    | loading key =>
      rw [act_of_loading hjob]
      split
      · apply conclude <;> rfl
      · apply conclude <;> rfl
    | saving key blob due =>
      cases due with
      | nil =>
        simp only [Filing.act, hjob]
        apply conclude <;> rfl
      | cons a due =>
        rw [act_of_saving hjob]
        split
        · apply conclude <;> rfl
        · dsimp only
          split
          · apply conclude <;> rfl
          · apply proceed <;> rfl
    | removing key =>
      rw [act_of_removing hjob]
      split
      · apply conclude <;> rfl
      · refine conclude (s := s) rfl rfl ?_
        split <;> rfl

/-- A call that fails leaves the others. -/
theorem fail (s : Filing) (i : Nat) (e : IoError) : s.LeavesOthers i (s.fail i e) := by
  unfold Filing.fail
  split
  · apply conclude <;> rfl
  · exact refl s i

end LeavesOthers

/-- What is in a file that is about to be written is of no concern to the calls. -/
theorem spill_jobs (s : Filing) (i : Nat) (content : Bytes) :
    (s.spill i content).jobs = s.jobs ∧ (s.spill i content).history = s.history := by
  unfold spill
  split
  · split
    · exact ⟨rfl, rfl⟩
    · exact ⟨rfl, rfl⟩
  · exact ⟨rfl, rfl⟩

/-- What has come of calls is kept. -/
theorem history_suffix_step (s : Filing) (m : FileMove) : s.history <:+ (s.step m).history := by
  cases m with
  | call c => exact (LeavesOthers.call s c).history
  | act i => exact (LeavesOthers.act s i).history
  | spill i content => exact (spill_jobs s i content).2 ▸ List.suffix_refl s.history
  | fail i e => exact (LeavesOthers.fail s i e).history
  | stop => exact List.suffix_refl s.history

theorem history_suffix_run (before after : List FileMove) : (run before).history <:+ (run (before ++ after)).history := by
  induction after using List.reverseRecOn with
  | nil => simp only [List.append_nil, List.suffix_refl]
  | append_singleton after m ih =>
    rw [← List.append_assoc, run_concat]
    exact ih.trans (history_suffix_step _ m)

/-- A call stays where it is as long as it does nothing, does not fail and is not stopped. -/
theorem step_jobs_of_other {m : FileMove} (hi : i < s.calls.length) (hact : m.actor? ≠ some i)
    (hfail : ∀ e, m ≠ .fail i e) (hstop : m ≠ .stop) : (s.step m).jobs i = s.jobs i := by
  cases m with
  | call c => exact (LeavesOthers.call s c).jobs i (Nat.ne_of_lt hi)
  | act j =>
    have hj : i ≠ j := fun h => hact (congrArg some h.symm)
    exact (LeavesOthers.act s j).jobs i hj
  | spill j content => exact congrFun (spill_jobs s j content).1 i
  | fail j e =>
    have hj : i ≠ j := fun h => hfail e (h ▸ rfl)
    exact (LeavesOthers.fail s j e).jobs i hj
  | stop => exact absurd rfl hstop

end Filing

namespace Filed

variable {moves : List FileMove} {s : Filing}

/-- An action of a call ends it with what it set out for, or leaves it one action closer to that. -/
theorem act_progress (h : Filed moves s) {i : Nat} {job : FileJob} (hjob : s.jobs i = some job) :
    (job.left = 1 ∧ (s.act i).jobs i = none ∧ (s.act i).history = job.outcome i s.history :: s.history) ∨
    ∃ job', (s.act i).jobs i = some job' ∧ (s.act i).history = s.history ∧ job.left = job'.left + 1 ∧ job'.left = 1 ∧
      ∀ history, job'.outcome i history = job.outcome i history := by
  obtain ⟨⟨op, suffix⟩, -, hc, hfits, -⟩ := h.jobs i job hjob
  rcases hfits with rfl | ⟨key, blob, rfl, rfl, hget⟩
  · cases op with
    | load key =>
      rw [h.act_loads hc hjob]
      exact .inl ⟨rfl, Filing.conclude_jobs_self _ _, rfl⟩
    | save key blob =>
      rw [Filing.act_writes hc hjob]
      exact .inr ⟨_, Filing.proceed_jobs_self _ _ _, rfl, rfl, rfl, fun _ => rfl⟩
    | remove key =>
      rw [Filing.act_removes hc hjob]
      exact .inl ⟨rfl, Filing.conclude_jobs_self _ _, rfl⟩
  · rw [Filing.act_renames hc hjob hget]
    exact .inl ⟨rfl, Filing.conclude_jobs_self _ _, rfl⟩

theorem left_pos (h : Filed moves s) {i : Nat} {job : FileJob} (hjob : s.jobs i = some job) : 0 < job.left := by
  rcases h.act_progress hjob with ⟨hone, -⟩ | ⟨job', -, -, hmore, -⟩ <;> omega

/-- After an action of a call a load of its key is accepted, and finds the blob. -/
theorem load_of_act (h : Filed moves s) (hfresh : ((moves.filterMap FileMove.call?).filterMap FileCall.drawn).Nodup)
    {i : Nat} {job : FileJob} (hjob : s.jobs i = some job) (t : Nat) :
    FileStore.load ⟨(s.act i).directory, t⟩ job.key = .ok (blobAfter job.key (s.act i).history) := by
  obtain ⟨c, -, hc, hfits, -⟩ := h.jobs i job hjob
  have hkey : job.key = c.op.key := by
    rcases hfits with rfl | ⟨key, blob, hop, rfl, -⟩
    · exact FileJob.key_first c
    · rw [hop]
      rfl
  rw [hkey]
  exact (h.change (h.act_change i) hfresh).load hc.load t

/-- A removal that acts has ended, and nothing is found under its key. -/
theorem act_removing (h : Filed moves s) (hfresh : ((moves.filterMap FileMove.call?).filterMap FileCall.drawn).Nodup)
    {i : Nat} {key : String} (hjob : s.jobs i = some (.removing key)) :
    (s.act i).jobs i = none ∧ (s.act i).history = .removed i key :: s.history ∧
      ∀ t, FileStore.load ⟨(s.act i).directory, t⟩ key = .ok none := by
  rcases h.act_progress hjob with ⟨-, hjobs, hhistory⟩ | ⟨job', -, -, hleft, hleft', -⟩
  · refine ⟨hjobs, hhistory, fun t => (h.load_of_act hfresh hjob t).trans ?_⟩
    rw [hhistory]
    exact congrArg Except.ok (if_pos rfl)
  · rw [hleft'] at hleft
    cases hleft

/-- A save that acts has its renaming to do yet, or has ended, and its blob is found under its key. -/
theorem act_saving (h : Filed moves s) (hfresh : ((moves.filterMap FileMove.call?).filterMap FileCall.drawn).Nodup)
    {i : Nat} {key blob : String} {due : List FileAction} (hjob : s.jobs i = some (.saving key blob due)) :
    (due.length = 2 ∧ (s.act i).history = s.history ∧
      ∃ due', (s.act i).jobs i = some (.saving key blob due') ∧ due'.length = 1) ∨
    (due.length = 1 ∧ (s.act i).jobs i = none ∧ (s.act i).history = .saved i key blob :: s.history ∧
      ∀ t, FileStore.load ⟨(s.act i).directory, t⟩ key = .ok (some blob)) := by
  rcases h.act_progress hjob with ⟨hleft, hjobs, hhistory⟩ | ⟨job', hjobs, hhistory, hleft, hleft', hsame⟩
  · refine .inr ⟨hleft, hjobs, hhistory, fun t => (h.load_of_act hfresh hjob t).trans ?_⟩
    rw [hhistory]
    exact congrArg Except.ok (if_pos rfl)
  · have houtcome := hsame []
    cases job' with
    | loading key' => cases houtcome
    | removing key' => cases houtcome
    | saving key' blob' due' =>
      obtain ⟨⟩ := houtcome
      rw [hleft'] at hleft
      exact .inl ⟨hleft, hhistory, due', hjobs, hleft'⟩

/-- A call under way that does as many actions as it has left has ended, and succeeded, unless it failed or was stopped,
whatever other calls have done in between. -/
theorem ended_of_acts {before after : List FileMove} {i : Nat} {job : FileJob}
    (hcalls : ∀ c ∈ (before ++ after).filterMap FileMove.call?, c.Accepted)
    (hfresh : (((before ++ after).filterMap FileMove.call?).filterMap FileCall.drawn).Nodup)
    (hjob : (Filing.run before).jobs i = some job) (hstop : .stop ∉ after) (hfail : ∀ e, .fail i e ∉ after)
    (hacts : job.left ≤ (after.filterMap FileMove.actor?).count i) :
    ∃ e ∈ (Filing.run (before ++ after)).history, e.call = i ∧ e.Succeeds := by
  -- by induction on the moves that follow: each is an action of the call, or leaves the call where it is
  induction after generalizing before job with
  | nil =>
    have hleft := (run_before hcalls hfresh).left_pos hjob
    exact absurd hleft (Nat.not_lt.2 hacts)
  | cons m after ih =>
    have hbefore : Filed before (Filing.run before) := run_before hcalls hfresh
    rw [List.append_cons] at hcalls hfresh ⊢
    rw [List.mem_cons, not_or] at hstop
    have hlater : ∀ e, .fail i e ∉ after := fun e he => hfail e (List.mem_cons_of_mem _ he)
    by_cases hm : m.actor? = some i
    · obtain rfl : m = .act i := FileMove.eq_act_of_actor? hm
      have hstep : Filing.run (before ++ [.act i]) = (Filing.run before).act i := Filing.run_concat before _
      rw [List.filterMap_cons_some hm, List.count_cons_self] at hacts
      rcases hbefore.act_progress hjob with ⟨-, -, hended⟩ | ⟨job', hjob', -, hleft, -⟩
      · refine ⟨job.outcome i (Filing.run before).history, ?_, job.call_outcome i _, job.succeeds_outcome i _⟩
        refine (Filing.history_suffix_run _ after).subset ?_
        rw [hstep, hended]
        exact List.mem_cons_self
      · exact ih hcalls hfresh (hstep ▸ hjob') hstop.2 hlater (by omega)
    · obtain ⟨c, hcall, -⟩ := hbefore.jobs i job hjob
      have hi : i < (Filing.run before).calls.length := (List.getElem?_eq_some_iff.1 hcall).1
      have hnow : ∀ e, m ≠ .fail i e := fun e he => hfail e (he ▸ List.mem_cons_self)
      have hjob' : (Filing.run (before ++ [m])).jobs i = some job := by
        rw [Filing.run_concat, Filing.step_jobs_of_other hi hm hnow (Ne.symm hstop.1)]
        exact hjob
      refine ih hcalls hfresh hjob' hstop.2 hlater ?_
      rwa [FileMove.count_actors_of_ne hm] at hacts

/-- A call that is made and does all its actions has ended, and succeeded, unless it failed or was stopped. -/
theorem ended_of_call {before after : List FileMove} {c : FileCall}
    (hcalls : ∀ c' ∈ (before ++ .call c :: after).filterMap FileMove.call?, c'.Accepted)
    (hfresh : (((before ++ .call c :: after).filterMap FileMove.call?).filterMap FileCall.drawn).Nodup)
    (hstop : .stop ∉ after) (hfail : ∀ e, .fail (Filing.run before).calls.length e ∉ after)
    (hacts : (FileJob.first c).left ≤ (after.filterMap FileMove.actor?).count (Filing.run before).calls.length) :
    ∃ e ∈ (Filing.run (before ++ .call c :: after)).history,
      e.call = (Filing.run before).calls.length ∧ e.Succeeds ∧ e.Answers c := by
  have hbefore : Filed before (Filing.run before) := run_before hcalls hfresh
  have hend : Filed (before ++ .call c :: after) (Filing.run (before ++ .call c :: after)) := run hcalls hfresh
  have hcall : (Filing.run (before ++ .call c :: after)).calls[(Filing.run before).calls.length]? = some c := by
    rw [hend.calls, hbefore.calls, List.filterMap_append, List.getElem?_append_right (Nat.le_refl _), Nat.sub_self]
    rfl
  have haccepted : c.Accepted := hcalls c (by simp [FileMove.call?])
  have hjob : (Filing.run (before ++ [.call c])).jobs (Filing.run before).calls.length = some (.first c) := by
    have hmade := Filing.call_of_ok (s := Filing.run before) (FileStore.checkKey_of_ne haccepted.key)
    rw [Filing.run_concat]
    exact (congrArg (Filing.jobs · _) hmade).trans (Filing.proceed_jobs_self _ _ _)
  rw [List.append_cons] at hcalls hfresh
  obtain ⟨e, he, hi, hsucceeds⟩ := ended_of_acts hcalls hfresh hjob hstop hfail hacts
  rw [← List.append_cons] at he
  obtain ⟨c', hc', hanswers⟩ := hend.answers e he
  rw [hi, hcall] at hc'
  exact ⟨e, he, hi, hsucceeds, Option.some.inj hc' ▸ hanswers⟩

end Filed

end ClientAuth
