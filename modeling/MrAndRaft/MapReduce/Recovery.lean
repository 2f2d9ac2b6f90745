import MrAndRaft.MapReduce.Reissue

/-! Whatever has become of the workers so far, new ones can finish the job: the timers give
back what is in progress, and each task that is handed out again can be reported. -/

namespace MrAndRaft.MapReduce

namespace Coordinator

variable {c : Coordinator} {ty : TaskType} {i : Nat} {st' : Status}

def unfinished (c : Coordinator) : Nat := c.remaining .map + c.remaining .reduce

theorem unfinished_setStatus (h : c.status ty i = some st') (st : Status) :
    (c.setStatus ty i st).unfinished + (if st' = .completed then 0 else 1) =
      c.unfinished + if st = .completed then 0 else 1 := by
  have hrem := remaining_setStatus h st
  cases ty with
  | map =>
    have hother : (c.setStatus .map i st).remaining .reduce = c.remaining .reduce :=
      remaining_setStatus_ne (by decide) i st
    unfold unfinished
    omega
  | reduce =>
    have hother : (c.setStatus .reduce i st).remaining .map = c.remaining .map :=
      remaining_setStatus_ne (by decide) i st
    unfold unfinished
    omega

theorem detectStraggler_inProgress (h : c.status ty i = some .inProgress) :
    c.detectStraggler i ty = some (c.setStatus ty i .unstarted) := by
  obtain ⟨task, htask, hst⟩ := Option.map_eq_some_iff.mp h
  simp [detectStraggler, htask, hst]

theorem markComplete_inProgress (h : c.status ty i = some .inProgress) :
    c.markComplete ⟨i, some ty⟩ = some ((c.setStatus ty i .completed).decrement ty) := by
  obtain ⟨task, htask, hst⟩ := Option.map_eq_some_iff.mp h
  simp [markComplete, htask, hst]

theorem handOut_of_unstarted (h : c.status ty i = some .unstarted) :
    ∃ j task, (c.tasks ty)[j]? = some task ∧ task.status = .unstarted ∧
      c.handOut ty = some (c.setStatus ty j .inProgress, task) := by
  obtain ⟨task, htask, hst⟩ := Option.map_eq_some_iff.mp h
  cases hh : c.handOut ty with
  | none =>
    cases hfind : (c.tasks ty).findIdx? (·.status = .unstarted) with
    | none =>
      have hnot := List.findIdx?_eq_none_iff.mp hfind task (List.mem_of_getElem? htask)
      simp [hst] at hnot
    | some j =>
      obtain ⟨hj, -⟩ := List.findIdx?_eq_some_iff_getElem.mp hfind
      simp [handOut, hfind, List.getElem?_eq_getElem hj] at hh
  | some next =>
    obtain ⟨j, hj, hunstarted, hc⟩ := handOut_spec hh
    exact ⟨j, next.2, hj, hunstarted, by rw [← hc]⟩

def current (c : Coordinator) : TaskType := if c.mapsLeft ≠ 0 then .map else .reduce

@[simp] theorem current_setStatus (c : Coordinator) (ty : TaskType) (i : Nat) (st : Status) :
    (c.setStatus ty i st).current = c.current := by
  cases ty <;> rfl

theorem getTask_of_unstarted (hok : c.Ok) (h : c.status c.current i = some .unstarted) :
    ∃ j task, (c.tasks c.current)[j]? = some task ∧ task.status = .unstarted ∧
      c.getTask = (c.setStatus c.current j .inProgress, c.reply task c.current,
        some (task.num, c.current)) := by
  obtain ⟨j, task, htask, hst, hout⟩ := handOut_of_unstarted h
  refine ⟨j, task, htask, hst, ?_⟩
  by_cases hmaps : c.mapsLeft ≠ 0
  · rw [current, if_pos hmaps] at hout ⊢
    rw [getTask, if_pos hmaps, hout]
    rfl
  · have hcurrent : c.current = .reduce := if_neg hmaps
    rw [hcurrent] at h hout ⊢
    have hleft : c.reducesLeft ≠ 0 := by
      intro hzero
      have hrem : c.remaining .reduce = 0 := by
        have hleft := hok.left .reduce
        rw [left, hzero] at hleft
        omega
      cases completed_of_remaining hrem h
    rw [getTask, if_neg hmaps, if_neg hleft, hout]
    rfl

theorem Ok.exists_open (hok : c.Ok) (h : 0 < c.unfinished) :
    ∃ i st, c.status c.current i = some st ∧ st ≠ .completed := by
  have hpos : 0 < c.remaining c.current := by
    have hleft := hok.left .map
    rw [Coordinator.left] at hleft
    by_cases hmaps : c.mapsLeft ≠ 0
    · rw [current, if_pos hmaps]
      omega
    · rw [current, if_neg hmaps]
      unfold unfinished at h
      omega
  obtain ⟨task, htask, hst⟩ := List.countP_pos_iff.mp hpos
  obtain ⟨i, hi⟩ := List.getElem?_of_mem htask
  exact ⟨i, task.status, status_of_getElem? hi, by simpa using hst⟩

theorem Ok.done_of_unfinished (hok : c.Ok) (h : c.unfinished = 0) : c.done = true := by
  have hleft := hok.left .reduce
  have hzero : c.reducesLeft = 0 := by
    rw [Coordinator.left] at hleft
    unfold unfinished at h
    omega
  simpa [done] using hzero

end Coordinator

namespace Job

variable {files : List Bytes} {nReduce : Nat} {σ : List Job} {s : Job} {ty : TaskType} {i : Nat}

/-- No report of a task that was among the first `n` replies. -/
def Event.After (n : Nat) : Event → Prop
  | .markComplete k => n ≤ k
  | .getTask | .detectStraggler _ => True

theorem Event.After.mono {m n : Nat} {e : Event} (h : e.After n) (hle : m ≤ n) : e.After m := by
  cases e with
  | markComplete k => exact Nat.le_trans hle h
  | getTask | detectStraggler => trivial

theorem Run.takeBack (h : Run files nReduce (s :: σ))
    (hst : s.coordinator.status ty i = some .inProgress) :
    ∃ k timers, s.step (.detectStraggler k) =
      .ok ⟨s.coordinator.setStatus ty i .unstarted, s.replies, timers⟩ := by
  obtain ⟨t, ht, -⟩ := (h.watched ty i s List.mem_cons_self).inProgress hst
  have hmem : t ∈ s.timersOf ty i := by simp [ht]
  obtain ⟨hmem, hwatches⟩ := List.mem_filter.mp hmem
  obtain ⟨hty, hidx⟩ : t.taskType = ty ∧ t.idx = i := by simpa [Timer.watches] using hwatches
  obtain ⟨k, hk⟩ := List.getElem?_of_mem hmem
  refine ⟨k, s.timers.eraseIdx k, ?_⟩
  simp only [step, hk, hty, hidx, Coordinator.detectStraggler_inProgress hst, setCoordinator]

theorem Run.handOut_report (h : Run files nReduce (s :: σ))
    (hst : s.coordinator.status s.coordinator.current i = some .unstarted) :
    ∃ t s', s.step .getTask = .ok t ∧ t.step (.markComplete s.replies.length) = .ok s' ∧
      s.replies.length ≤ s'.replies.length ∧
      s'.coordinator.unfinished + 1 = s.coordinator.unfinished := by
  obtain ⟨j, task, htask, hunstarted, hget⟩ :=
    Coordinator.getTask_of_unstarted (h.ok s List.mem_cons_self) hst
  obtain rfl : task.num = j := h.num_eq List.mem_cons_self htask
  generalize s.coordinator.current = ty at htask hget
  have hj := Coordinator.status_of_getElem? htask
  rw [hunstarted] at hj
  generalize hmid : s.coordinator.setStatus ty task.num .inProgress = c at hget
  have hprogress : c.status ty task.num = some .inProgress := by
    rw [← hmid, Coordinator.status_setStatus hj]
    simp
  have hreply : (⟨(s.coordinator.reply task ty).id, (s.coordinator.reply task ty).taskType⟩ :
      MarkCompleteArgs) = ⟨task.num, some ty⟩ := by
    cases ty <;> rfl
  let replies := s.replies ++ [s.coordinator.reply task ty]
  let timers := s.timers ++ [⟨task.num, ty, s.replies.length⟩]
  have hfirst : s.step .getTask = .ok ⟨c, replies, timers⟩ := by
    simp [step, hget, replies, timers]
  have hsecond : step ⟨c, replies, timers⟩ (.markComplete s.replies.length) =
      .ok ⟨(c.setStatus ty task.num .completed).decrement ty, replies, timers⟩ := by
    simp only [step, replies, List.getElem?_concat_length, hreply,
      Coordinator.markComplete_inProgress hprogress, setCoordinator]
  refine ⟨_, _, hfirst, hsecond, by simp [replies], ?_⟩
  have hmiddle := Coordinator.unfinished_setStatus hj .inProgress
  have hlast := Coordinator.unfinished_setStatus hprogress .completed
  rw [hmid] at hmiddle
  simp only [reduceCtorEq, if_false, if_true] at hmiddle hlast
  have hdec : ((c.setStatus ty task.num .completed).decrement ty).unfinished =
      (c.setStatus ty task.num .completed).unfinished := by
    simp [Coordinator.unfinished]
  rw [hdec]
  omega

theorem Run.complete (h : Run files nReduce (s :: σ))
    (hst : s.coordinator.status s.coordinator.current i = some .unstarted) :
    ∃ s' τ, [Event.getTask, .markComplete s.replies.length].foldlM step s = .ok s' ∧
      Run files nReduce (s' :: τ) ∧ s.replies.length ≤ s'.replies.length ∧
      s'.coordinator.unfinished + 1 = s.coordinator.unfinished := by
  obtain ⟨t, s', hfirst, hsecond, hlen, hfewer⟩ := h.handOut_report hst
  refine ⟨s', _, ?_, .step (.step h hfirst) hsecond, hlen, hfewer⟩
  simp only [List.foldlM_cons, List.foldlM_nil, hfirst, hsecond, bind, Except.bind, pure,
    Except.pure]

theorem Run.complete_one (h : Run files nReduce (s :: σ)) (hpos : 0 < s.coordinator.unfinished) :
    ∃ (es : List Event) (s' : Job) (τ : List Job), es.length ≤ 3 ∧
      (∀ e ∈ es, e.After s.replies.length) ∧ es.foldlM step s = .ok s' ∧
      Run files nReduce (s' :: τ) ∧ s.replies.length ≤ s'.replies.length ∧
      s'.coordinator.unfinished + 1 = s.coordinator.unfinished := by
  obtain ⟨i, st, hst, hne⟩ := (h.ok s List.mem_cons_self).exists_open hpos
  cases st with
  | completed => exact absurd rfl hne
  | unstarted =>
    obtain ⟨s', τ, hrun⟩ := h.complete hst
    exact ⟨_, s', τ, by simp, by simp [Event.After], hrun⟩
  | inProgress =>
    generalize hcurrent : s.coordinator.current = ty at hst
    obtain ⟨k, timers, hback⟩ := h.takeBack hst
    have hfree : (s.coordinator.setStatus ty i .unstarted).status ty i = some .unstarted := by
      rw [Coordinator.status_setStatus hst, if_pos ⟨rfl, rfl⟩]
    have hsame := Coordinator.unfinished_setStatus hst .unstarted
    simp only [reduceCtorEq, if_false] at hsame
    obtain ⟨s', τ, hfold, hrun, hlen, hfewer⟩ :=
      Run.complete (.step h hback) (i := i) (by simpa [hcurrent] using hfree)
    refine ⟨[.detectStraggler k, .getTask, .markComplete s.replies.length], s', τ, by simp,
      by simp [Event.After], ?_, hrun, hlen, ?_⟩
    · rw [List.foldlM_cons, hback]
      exact hfold
    · exact hfewer.trans (Nat.add_right_cancel hsame)

/-- From every state the job can be brought to its end in at most three steps for each task
that is open, with no report of a worker that has been given a task so far. -/
theorem Run.can_finish (h : Run files nReduce (s :: σ)) :
    ∃ (es : List Event) (s' : Job), es.length ≤ 3 * s.coordinator.unfinished ∧
      (∀ e ∈ es, e.After s.replies.length) ∧ es.foldlM step s = .ok s' ∧
      s'.coordinator.done = true := by
  generalize hn : s.coordinator.unfinished = n
  induction n generalizing s σ with
  | zero => exact ⟨[], s, by simp, by simp, rfl, (h.ok s List.mem_cons_self).done_of_unfinished hn⟩
  | succ n ih =>
    obtain ⟨es, t, τ, hes, hnew, hfold, hrun, hlen, hfewer⟩ := h.complete_one (by omega)
    obtain ⟨es', s', hes', hnew', hfold', hdone⟩ := ih hrun (by omega)
    refine ⟨es ++ es', s', by rw [List.length_append]; omega, ?_, ?_, hdone⟩
    · intro e he
      rcases List.mem_append.mp he with he | he
      · exact hnew e he
      · exact (hnew' e he).mono hlen
    · rw [List.foldlM_append, hfold]
      exact hfold'

theorem can_finish_abandoned : ∃ (s : Job) (σ : List Job) (es : List Event) (s' : Job),
    Run [[97]] 1 (s :: σ) ∧ s.coordinator.status .reduce 0 = some .inProgress ∧ es.length ≤ 3 ∧
      (∀ e ∈ es, e.After 2) ∧ es.foldlM step s = .ok s' ∧ s'.coordinator.done = true := by
  obtain ⟨s, σ, h, hst, hreplies, hopen⟩ := exists_run [[97]] 1
    (fun s => s.coordinator.status .reduce 0 = some .inProgress ∧ s.replies.length = 2 ∧
      s.coordinator.unfinished = 1)
    [.getTask, .markComplete 0, .getTask] (by decide)
  obtain ⟨es, s', hes, hnew, hfold, hdone⟩ := h.can_finish
  rw [hopen] at hes
  rw [hreplies] at hnew
  exact ⟨s, σ, es, s', h, hst, hes, hnew, hfold, hdone⟩

end Job

end MrAndRaft.MapReduce
