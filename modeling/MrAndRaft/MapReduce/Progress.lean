import Mathlib.Algebra.GroupWithZero.Nat
import MrAndRaft.MapReduce.Finality
import MrAndRaft.MapReduce.Recovery

/-! A worker that is left alone finishes its task, so a job of coordinator and workers can be
finished from every state. -/

namespace MrAndRaft.MapReduce

section Work

variable (app : App) (std : Stdlib) (fs₀ : Files) (files : List Bytes) (nReduce : Nat)

def unread (r m : Nat) : Nat :=
  ((List.range' m (files.length - m)).map fun i =>
    (bucket std nReduce (emitted app fs₀ files i) r).length + 2).sum

/-- A bound on the file operations that task `i` is away from its end, if each read takes one
byte. -/
def work (i : Nat) : Phase → Nat
  | .openInput =>
    ((files[i]?.bind fs₀).getD []).length + nReduce + 2 * (emitted app fs₀ files i).length + 5
  | .readInput content => ((files[i]?.bind fs₀).getD []).length - content.length + nReduce +
      2 * (emitted app fs₀ files i).length + 4
  | .create _ j => nReduce - j + 2 * (emitted app fs₀ files i).length + 3
  | .openPartition kva => 2 * kva.length + 2
  | .appendTo _ kva => 2 * kva.length + 3
  | .openBucket m _ =>
    unread app std fs₀ files nReduce i m + (reduceLines app std fs₀ files nReduce i).length + 4
  | .readBucket m content _ =>
    (bucket std nReduce (emitted app fs₀ files m) i).length - content.length + 1 +
      unread app std fs₀ files nReduce i (m + 1) +
      (reduceLines app std fs₀ files nReduce i).length + 4
  | .createOut _ => (reduceLines app std fs₀ files nReduce i).length + 3
  | .print _ lines => lines.length + 2
  | .finished | .dead => 0

variable {app std fs₀ files nReduce} {fs : Files} {phase : Phase} {i r m : Nat}

theorem unread_of_lt (h : m < files.length) : unread app std fs₀ files nReduce r m =
    (bucket std nReduce (emitted app fs₀ files m) r).length + 2 +
      unread app std fs₀ files nReduce r (m + 1) := by
  have hsucc : files.length - m = files.length - (m + 1) + 1 := by omega
  rw [unread, hsucc, List.range'_succ]
  simp [unread]

def Advances (app : App) (std : Stdlib) (fs₀ : Files) (files : List Bytes) (nReduce i : Nat)
    (phase next : Phase) : Prop :=
  next ≠ .dead ∧ work app std fs₀ files nReduce i next < work app std fs₀ files nReduce i phase

theorem length_read_le {p c buf : Bytes} (h : fs p = some c) (hbuf : buf <+: c) (n : Nat) :
    (buf ++ fs.read p buf.length n).length ≤ c.length :=
  (FileSystem.read_append_prefix h hbuf n).length_le

theorem Progress.mapAdvances {f : Bytes} (hn : nReduce ≠ 0) (hf : files[i]? = some f)
    (hin : Readable fs₀ files i)
    (h : Progress app std fs₀ files nReduce fs .map i phase) (hphase : phase ≠ .finished) :
    Advances app std fs₀ files nReduce i phase (Attempt.fileOp app std 0 fs
      ⟨{ fileName := f, taskType := some .map, nReduce := nReduce, id := i }, phase⟩).2 := by
  cases h with
  | @openInput _ f' hf' hfs =>
    obtain rfl : f' = f := Option.some.inj (hf'.symm.trans hf)
    have hsome : (fs f').isSome := by simpa [Readable, hf, hfs] using hin
    simp [Advances, Attempt.fileOp, hsome, work]
  | @readInput _ f' c content hf' hfs hc hcontent =>
    obtain rfl : f' = f := Option.some.inj (hf'.symm.trans hf)
    have hread : fs f' = some c := hfs.trans hc
    by_cases hchunk : fs.read f' content.length 0 = []
    · simp only [Advances, Attempt.fileOp, hchunk, if_true, work]
      exact ⟨by simp, by omega⟩
    · have hlen := length_read_le hread hcontent 0
      have hpos := List.length_pos_iff.mpr hchunk
      simp only [List.length_append] at hlen
      simp only [Advances, Attempt.fileOp, hchunk, if_false, work, hf, hc, Option.bind_some,
        Option.getD_some, List.length_append]
      exact ⟨by simp, by omega⟩
  | @create _ j =>
    by_cases hj : j < nReduce
    · simp only [Advances, Attempt.fileOp, hj, if_true, work]
      exact ⟨by simp, by omega⟩
    · simp only [Advances, Attempt.fileOp, hj, if_false, work]
      exact ⟨by simp, by omega⟩
  | @openPartition _ kva =>
    cases kva with
    | nil => simp [Advances, Attempt.fileOp, work]
    | cons kv kva =>
      simp only [Advances, Attempt.fileOp, hn, if_false, work, List.length_cons]
      exact ⟨by simp, by omega⟩
  | appendTo => simp [Advances, Attempt.fileOp, work]
  | finished => exact absurd rfl hphase

theorem Progress.reduceAdvances (hr : r < nReduce)
    (hmaps : ∀ m < files.length, Complete app std fs₀ files nReduce fs .map m)
    (h : Progress app std fs₀ files nReduce fs .reduce r phase) (hphase : phase ≠ .finished) :
    Advances app std fs₀ files nReduce r phase (Attempt.fileOp app std 0 fs
      ⟨{ taskType := some .reduce, id := r, nMap := files.length }, phase⟩).2 := by
  cases h with
  | @openBucket _ m hm =>
    by_cases hlt : m < files.length
    · have hunread : unread app std fs₀ files nReduce r m = _ := unread_of_lt hlt
      simp only [Advances, Attempt.fileOp, hlt, if_true, (hmaps m hlt).2 r hr, Option.isSome_some,
        work, hunread, List.length_nil]
      exact ⟨by simp, by omega⟩
    · simp only [Advances, Attempt.fileOp, hlt, if_false, work]
      exact ⟨by simp, by omega⟩
  | @readBucket _ m content hm hcontent =>
    have hread := (hmaps m hm).2 r hr
    by_cases hchunk : fs.read (intermediateName m r) content.length 0 = []
    · simp only [Advances, Attempt.fileOp, hchunk, if_true, work]
      exact ⟨by simp, by omega⟩
    · have hlen := length_read_le hread hcontent 0
      have hpos := List.length_pos_iff.mpr hchunk
      simp only [List.length_append] at hlen
      simp only [Advances, Attempt.fileOp, hchunk, if_false, work, List.length_append]
      exact ⟨by simp, by omega⟩
  | createOut =>
    simp only [Advances, Attempt.fileOp, work, reduceLines]
    exact ⟨by simp, by omega⟩
  | @print _ lines =>
    cases lines <;> simp [Advances, Attempt.fileOp, work]
  | finished => exact absurd rfl hphase

end Work

variable {app : App} {std : Stdlib} {fs₀ : Files} {files : List Bytes} {nReduce : Nat}

theorem Pool.Ok.advances {settled : TaskType → Nat → Prop} {p : Pool} {k : Nat} {a : Attempt}
    (hn : nReduce ≠ 0) (hin : ∀ i < files.length, Readable fs₀ files i)
    (h : Ok app std fs₀ files nReduce settled p) (ha : p.attempts[k]? = some a) (hlive : a.Live)
    (hphase : a.phase ≠ .finished) :
    Advances app std fs₀ files nReduce a.reply.id a.phase (a.fileOp app std 0 p.fs).2 := by
  obtain ⟨ty, i, hw⟩ := h.working k a ha hlive
  obtain ⟨reply, phase⟩ := a
  cases ty with
  | map =>
    have hlt := lt_of_assignment hw.assigned
    obtain ⟨f, hf, hreply⟩ := Option.map_eq_some_iff.mp hw.assigned
    cases hreply
    exact hw.progress.mapAdvances hn hf (hin i hlt) hphase
  | reduce =>
    obtain ⟨hr, hreply⟩ := Option.ite_none_right_eq_some.mp hw.assigned
    cases hreply
    exact hw.progress.reduceAdvances hr (fun m hm => h.complete .map m (hw.maps rfl m hm)) hphase

namespace System

open History

variable {s : System} {σ : List System} {k : Nat} {a : Attempt} {e : Event}

abbrev CanReach (app : App) (std : Stdlib) (fs₀ : Files) (files : List Bytes) (nReduce : Nat)
    (σ : List System) (P : System → Prop) : Prop :=
  History.CanReach (init fs₀ files nReduce)
    (fun s e s' => HandsOutFree s e ∧ s.step app std e = .ok s') σ P

def Idle (s : System) : Prop := ∀ (k : Nat) (a : Attempt), s.pool.attempts[k]? = some a → ¬ a.Live

theorem handsOutFree_of_ne (h : e ≠ .getTask) : s.HandsOutFree e :=
  fun he => absurd he h

theorem Run.canFinish (hn : nReduce ≠ 0) (hsep : Separate files nReduce)
    (hin : ∀ i < files.length, Readable fs₀ files i)
    (h : Run app std fs₀ files nReduce HandsOutFree (s :: σ)) (ha : s.pool.attempts[k]? = some a)
    (hlive : a.Live) :
    CanReach app std fs₀ files nReduce (s :: σ) fun s' => s'.job = s.job ∧
      (∃ b, s'.pool.attempts[k]? = some b ∧ b.phase = .finished) ∧
      ∀ k' ≠ k, s'.pool.attempts[k']? = s.pool.attempts[k']? := by
  generalize hw : work app std fs₀ files nReduce a.reply.id a.phase = w
  induction w using Nat.strong_induction_on generalizing s σ a with
  | _ w ih =>
    by_cases hphase : a.phase = .finished
    · exact .here h ⟨rfl, ⟨a, ha, hphase⟩, fun _ _ => rfl⟩
    · have hok := (Run.forall_ok hsep h s List.mem_cons_self).pool
      obtain ⟨hnext, hless⟩ := hok.advances hn hin ha hlive hphase
      let t : System := { s with pool := s.pool.fileOp app std k 0 }
      have hstep : s.HandsOutFree (.fileOp k 0) ∧ s.step app std (.fileOp k 0) = .ok t :=
        ⟨handsOutFree_of_ne (by simp), rfl⟩
      have hattempts : t.pool.attempts = s.pool.attempts.modify k
          ({ · with phase := (a.fileOp app std 0 s.pool.fs).2 }) :=
        congrArg Pool.attempts (Pool.fileOp_of_getElem? ha 0)
      have hself : t.pool.attempts[k]? =
          some { a with phase := (a.fileOp app std 0 s.pool.fs).2 } := by
        rw [hattempts, List.getElem?_modify, ha]
        simp
      refine ((ih _ (hw ▸ hless) (.step h hstep) hself hnext rfl).imp ?_).of_cons
      rintro s' ⟨hjob, hfin, hother⟩
      refine ⟨hjob, hfin, fun k' hk => (hother k' hk).trans ?_⟩
      rw [hattempts, List.getElem?_modify_ne _ _ (Ne.symm hk)]

theorem Run.canIdle (h : Run app std fs₀ files nReduce HandsOutFree (s :: σ)) :
    CanReach app std fs₀ files nReduce (s :: σ) fun s' => s'.job = s.job ∧ s'.Idle := by
  -- they crash in the order of their tasks, and the dead stay dead
  have hfirst : ∀ m : Nat, CanReach app std fs₀ files nReduce (s :: σ) fun s' => s'.job = s.job ∧
      s'.pool.attempts.length = s.pool.attempts.length ∧
      ∀ k < m, ∀ a : Attempt, s'.pool.attempts[k]? = some a → ¬ a.Live := by
    intro m
    induction m with
    | zero => exact .here h ⟨rfl, rfl, by simp⟩
    | succ m ih =>
      refine ih.trans ?_
      rintro t τ hrun ⟨hjob, hlen, hdead⟩
      let t' : System := { t with pool := t.pool.setPhase m .dead }
      have hstep : t.HandsOutFree (.crash m) ∧ t.step app std (.crash m) = .ok t' :=
        ⟨handsOutFree_of_ne (by simp), rfl⟩
      refine (CanReach.here (.step hrun hstep) ⟨hjob, ?_, fun k hk a ha => ?_⟩).of_cons
      · simpa [t', Pool.setPhase] using hlen
      · obtain ⟨b, hb, ⟨-, rfl⟩ | ⟨hne, rfl⟩⟩ := Pool.getElem?_setPhase ha
        · exact fun hlive => hlive rfl
        · exact hdead k (by omega) a hb
  refine (hfirst s.pool.attempts.length).imp ?_
  rintro t ⟨hjob, hlen, hdead⟩
  refine ⟨hjob, fun k a ha => ?_⟩
  exact hdead k (hlen ▸ (List.getElem?_eq_some_iff.mp ha).1) a ha

theorem Run.canFree (h : Run app std fs₀ files nReduce HandsOutFree (s :: σ)) (hidle : s.Idle)
    (hpos : 0 < s.job.coordinator.unfinished) :
    CanReach app std fs₀ files nReduce (s :: σ) fun t => t.Idle ∧
      t.job.coordinator.unfinished = s.job.coordinator.unfinished ∧
      ∃ i, t.job.coordinator.status t.job.coordinator.current i = some .unstarted := by
  obtain ⟨τ, hτ⟩ := h.job s List.mem_cons_self
  obtain ⟨i, st, hst, hne⟩ := (hτ.ok s.job List.mem_cons_self).exists_open hpos
  cases st with
  | completed => exact absurd rfl hne
  | unstarted => exact .here h ⟨hidle, rfl, i, hst⟩
  | inProgress =>
    obtain ⟨k, timers, hback⟩ := hτ.takeBack hst
    have hstep : s.HandsOutFree (.detectStraggler k) ∧ s.step app std (.detectStraggler k) =
        .ok { s with job := ⟨s.job.coordinator.setStatus s.job.coordinator.current i .unstarted,
          s.job.replies, timers⟩ } := by
      refine ⟨handsOutFree_of_ne (by simp), ?_⟩
      simp only [step, hback]
      rfl
    have hsame := Coordinator.unfinished_setStatus hst .unstarted
    simp only [reduceCtorEq, if_false] at hsame
    refine (CanReach.here (.step h hstep) ⟨hidle, Nat.add_right_cancel hsame, i, ?_⟩).of_cons
    rw [Coordinator.current_setStatus, Coordinator.status_setStatus hst, if_pos ⟨rfl, rfl⟩]

theorem Run.canComplete {i : Nat} (hn : nReduce ≠ 0) (hsep : Separate files nReduce)
    (hin : ∀ i < files.length, Readable fs₀ files i)
    (h : Run app std fs₀ files nReduce HandsOutFree (s :: σ)) (hidle : s.Idle)
    (hst : s.job.coordinator.status s.job.coordinator.current i = some .unstarted) :
    CanReach app std fs₀ files nReduce (s :: σ) fun t => t.Idle ∧
      t.job.coordinator.unfinished + 1 = s.job.coordinator.unfinished := by
  obtain ⟨τ, hτ⟩ := h.job s List.mem_cons_self
  have hlen : s.pool.attempts.length = s.job.replies.length := by
    rw [← (Run.forall_ok hsep h s List.mem_cons_self).replies, List.length_map]
  obtain ⟨j, task, -, -, hget⟩ :=
    Coordinator.getTask_of_unstarted (hτ.ok s.job List.mem_cons_self) hst
  obtain ⟨job, job', hfirst, hsecond, -, hfewer⟩ := hτ.handOut_report hst
  let t : System := ⟨job, s.pool.start s.job.coordinator.getTask.2.1⟩
  have hstep : s.HandsOutFree .getTask ∧ s.step app std .getTask = .ok t := by
    refine ⟨fun _ _ _ a ha hlive => ?_, ?_⟩
    · obtain ⟨k, hk⟩ := List.getElem?_of_mem ha
      exact absurd hlive (hidle k a hk)
    · simp only [step, hfirst]
      rfl
  have hnew : t.pool.attempts[s.job.replies.length]? =
      some (.start s.job.coordinator.getTask.2.1) := by
    rw [← hlen]
    exact List.getElem?_concat_length
  have hlive : (Attempt.start s.job.coordinator.getTask.2.1).Live := by
    rw [hget]
    cases s.job.coordinator.current <;> simp [Attempt.Live, Attempt.start, Coordinator.reply]
  refine ((Run.canFinish hn hsep hin (.step h hstep) hnew hlive).trans ?_).of_cons
  rintro u υ hrun ⟨hjob, ⟨b, hb, hfin⟩, hother⟩
  have hreport : u.HandsOutFree (.markComplete s.job.replies.length) ∧
      u.step app std (.markComplete s.job.replies.length) =
        .ok ⟨job', u.pool.setPhase s.job.replies.length .dead⟩ := by
    refine ⟨handsOutFree_of_ne (by simp), ?_⟩
    simp only [step, hb, hfin, if_true, hjob, t, hsecond]
    rfl
  refine (CanReach.here (.step hrun hreport) ⟨fun k a ha => ?_, hfewer⟩).of_cons
  obtain ⟨c, hc, ⟨-, rfl⟩ | ⟨hne, rfl⟩⟩ := Pool.getElem?_setPhase ha
  · exact fun hlive => hlive rfl
  · rw [hother k hne] at hc
    rcases Pool.getElem?_start hc with hc | ⟨hk, -⟩
    · exact hidle k a hc
    · exact absurd (hk.trans hlen) hne

theorem Run.canFinishAll (hn : nReduce ≠ 0) (hsep : Separate files nReduce)
    (hin : ∀ i < files.length, Readable fs₀ files i)
    (h : Run app std fs₀ files nReduce HandsOutFree (s :: σ)) (hidle : s.Idle) :
    CanReach app std fs₀ files nReduce (s :: σ) fun t => t.job.coordinator.done = true := by
  generalize hleft : s.job.coordinator.unfinished = left
  induction left generalizing s σ with
  | zero =>
    obtain ⟨τ, hτ⟩ := h.job s List.mem_cons_self
    exact .here h ((hτ.ok s.job List.mem_cons_self).done_of_unfinished hleft)
  | succ left ih =>
    refine (h.canFree hidle (by omega)).trans ?_
    rintro t τ hrun ⟨ht, hsame, i, hst⟩
    refine (Run.canComplete hn hsep hin hrun ht hst).trans ?_
    rintro u υ hrun' ⟨hu, hfewer⟩
    exact ih hrun' hu (by omega)

/-- From every state the job can be brought to its end, if the inputs are there: whatever is going
on, the workers can crash, the timers go off, and new workers do what is left.  And a worker that
has not crashed can finish its task while nothing else happens. -/
theorem Run.reaches_done (hsep : Separate files nReduce)
    (hin : ∀ i < files.length, Readable fs₀ files i)
    (h : Run app std fs₀ files nReduce HandsOutFree (s :: σ)) :
    CanReach app std fs₀ files nReduce (s :: σ) (fun t => t.job.coordinator.done = true) ∧
      (nReduce ≠ 0 → ∀ (k : Nat) (a : Attempt), s.pool.attempts[k]? = some a → a.Live →
        CanReach app std fs₀ files nReduce (s :: σ) fun t => t.job = s.job ∧
          (∃ b, t.pool.attempts[k]? = some b ∧ b.phase = .finished) ∧
          ∀ k' ≠ k, t.pool.attempts[k']? = s.pool.attempts[k']?) := by
  refine ⟨?_, fun hn k a ha hlive => Run.canFinish hn hsep hin h ha hlive⟩
  by_cases hn : nReduce = 0
  · -- without reduce tasks `Done` holds from the start
    obtain ⟨τ, hτ⟩ := h.job s List.mem_cons_self
    have hleft := (hτ.ok s.job List.mem_cons_self).left .reduce
    have hnil := List.length_eq_zero_iff.mp ((hτ.length_reduceTasks List.mem_cons_self).trans hn)
    exact .here h (by simpa [Coordinator.left, Coordinator.remaining, Coordinator.tasks, hnil,
      Coordinator.done] using hleft)
  · exact h.canIdle.trans fun t τ hrun ht => Run.canFinishAll hn hsep hin hrun ht.2

theorem reaches_done_crashed : ∃ s σ, Run countApp .json oneFile [[97]] 1 HandsOutFree (s :: σ) ∧
    s.Idle ∧ s.job.coordinator.status .map 0 = some .inProgress ∧
      CanReach countApp .json oneFile [[97]] 1 (s :: σ) fun t =>
        t.job.coordinator.done = true := by
  obtain ⟨s, σ, h, hst, hattempts⟩ := exists_run HandsOutFree
    (fun s => s.job.coordinator.status .map 0 = some .inProgress ∧
      s.pool.attempts.map Attempt.phase = [.dead])
    [.getTask, .fileOp 0 0, .crash 0] (by decide +kernel)
  have hidle : s.Idle := by
    intro k a ha hlive
    have hmem : a.phase ∈ s.pool.attempts.map Attempt.phase :=
      List.mem_map_of_mem (List.mem_of_getElem? ha)
    rw [hattempts] at hmem
    exact hlive (List.mem_singleton.mp hmem)
  have hin : ∀ i < [[97]].length, Readable oneFile [[97]] i := by
    intro i hi
    obtain rfl : i = 0 := by simpa using hi
    simp [Readable, oneFile]
  exact ⟨s, σ, h, hidle, hst, (h.reaches_done (by decide) hin).1⟩

end System

end MrAndRaft.MapReduce
