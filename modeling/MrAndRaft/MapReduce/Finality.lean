import MrAndRaft.MapReduce.Phases
import MrAndRaft.MapReduce.Pool

/-! The coordinator together with its workers: what a completed task has written stays as
it is, provided that no task is handed out while another worker may still be at it. -/

namespace MrAndRaft.MapReduce

structure System where
  job : Job
  pool : Pool

/-- Each attempt is a worker of its own; `markComplete k` is the coordinator handling the
report of attempt `k`, and a crash loses a report that was not handled. -/
inductive System.Event where
  | getTask
  | detectStraggler (k : Nat)
  | markComplete (k : Nat)
  | crash (k : Nat)
  | fileOp (k n : Nat)
  deriving DecidableEq, Repr

namespace System

def init (fs : Files) (files : List Bytes) (nReduce : Nat) : System :=
  ⟨.init files nReduce, ⟨fs, []⟩⟩

def step (app : App) (std : Stdlib) (s : System) : Event → Except Job.Fault System
  | .getTask => do
    let job ← s.job.step .getTask
    return ⟨job, s.pool.start s.job.coordinator.getTask.2.1⟩
  | .detectStraggler k => do
    let job ← s.job.step (.detectStraggler k)
    return { s with job }
  | .markComplete k =>
    match s.pool.attempts[k]? with
    | none => throw .disabled
    | some a => do
      if a.phase = .finished then
        let job ← s.job.step (.markComplete k)
        return ⟨job, s.pool.setPhase k .dead⟩
      else throw .disabled
  | .crash k => return { s with pool := s.pool.setPhase k .dead }
  | .fileOp k n => return { s with pool := s.pool.fileOp app std k n }

def Run (app : App) (std : Stdlib) (fs : Files) (files : List Bytes) (nReduce : Nat)
    (ok : System → Event → Prop) (σ : List System) : Prop :=
  History.Run (init fs files nReduce) (fun s e s' => ok s e ∧ s.step app std e = .ok s') σ

/-- No worker is at the task, and no report of it is on its way. -/
def Free (s : System) (ty : TaskType) (i : Nat) : Prop :=
  ∀ a ∈ s.pool.attempts, a.Live → ¬ a.At ty i

instance (s : System) (ty : TaskType) (i : Nat) : Decidable (s.Free ty i) :=
  inferInstanceAs (Decidable (∀ a ∈ s.pool.attempts, a.Live → ¬ a.At ty i))

def HandsOutFree (s : System) (e : Event) : Prop :=
  e = .getTask → ∀ t ∈ s.job.coordinator.getTask.2.2, s.Free t.2 t.1

instance (s : System) (e : Event) : Decidable (s.HandsOutFree e) :=
  inferInstanceAs (Decidable (_ → ∀ t ∈ s.job.coordinator.getTask.2.2, s.Free t.2 t.1))

variable {app : App} {std : Stdlib} {fs₀ : Files} {files : List Bytes} {nReduce : Nat}
  {ok : System → Event → Prop} {σ : List System} {s s' : System} {e : Event} {ty : TaskType}
  {i k : Nat}

inductive Stepped (app : App) (std : Stdlib) (s : System) : Event → System → Prop
  | getTask {job : Job} : s.job.step .getTask = .ok job →
      Stepped app std s .getTask ⟨job, s.pool.start s.job.coordinator.getTask.2.1⟩
  | detectStraggler {k : Nat} {job : Job} : s.job.step (.detectStraggler k) = .ok job →
      Stepped app std s (.detectStraggler k) { s with job }
  | markComplete {k : Nat} {a : Attempt} {job : Job} : s.pool.attempts[k]? = some a →
      a.phase = .finished → s.job.step (.markComplete k) = .ok job →
      Stepped app std s (.markComplete k) ⟨job, s.pool.setPhase k .dead⟩
  | crash {k : Nat} : Stepped app std s (.crash k) { s with pool := s.pool.setPhase k .dead }
  | fileOp {k n : Nat} : Stepped app std s (.fileOp k n)
      { s with pool := s.pool.fileOp app std k n }

theorem step_cases (h : s.step app std e = .ok s') : Stepped app std s e s' := by
  cases e with
  | getTask =>
    cases hjob : s.job.step .getTask with
    | error x => simp [step, hjob, bind, Except.bind] at h
    | ok job =>
      simp only [step, hjob, bind, Except.bind, pure, Except.pure, Except.ok.injEq] at h
      exact h ▸ .getTask hjob
  | detectStraggler k =>
    cases hjob : s.job.step (.detectStraggler k) with
    | error x => simp [step, hjob, bind, Except.bind] at h
    | ok job =>
      simp only [step, hjob, bind, Except.bind, pure, Except.pure, Except.ok.injEq] at h
      exact h ▸ .detectStraggler hjob
  | markComplete k =>
    simp only [step] at h
    split at h
    · cases h
    · rename_i a ha
      split at h
      · rename_i hphase
        cases hjob : s.job.step (.markComplete k) with
        | error x => simp [hjob, bind, Except.bind] at h
        | ok job =>
          simp only [hjob, bind, Except.bind, pure, Except.pure, Except.ok.injEq] at h
          exact h ▸ .markComplete ha hphase hjob
      · cases h
  | crash k =>
    cases h
    exact .crash
  | fileOp k n =>
    cases h
    exact .fileOp

theorem Stepped.job (h : Stepped app std s e s') :
    s'.job = s.job ∨ ∃ e', s.job.step e' = .ok s'.job := by
  cases h with
  | getTask hjob | detectStraggler hjob | markComplete _ _ hjob => exact .inr ⟨_, hjob⟩
  | crash | fileOp => exact .inl rfl

theorem Run.job (h : Run app std fs₀ files nReduce ok σ) :
    ∀ s ∈ σ, ∃ τ, Job.Run files nReduce (s.job :: τ) := by
  refine History.Run.forall_mem h ⟨[], .init⟩ ?_
  rintro s e s' ⟨τ, hτ⟩ ⟨-, hstep⟩
  rcases (step_cases hstep).job with hjob | ⟨e', hjob⟩
  · exact ⟨τ, hjob ▸ hτ⟩
  · exact ⟨_, .step hτ hjob⟩

def Completed (s : System) (ty : TaskType) (i : Nat) : Prop :=
  s.job.coordinator.status ty i = some .completed

theorem Stepped.completed (h : Stepped app std s e s') (hc : s.Completed ty i) :
    s'.Completed ty i := by
  rcases h.job with hjob | ⟨e', hjob⟩
  · rw [Completed, hjob]
    exact hc
  · exact (Job.step_moved hjob).status_completed hc

theorem assignment_eq {σ : List Job} {job : Job} {task : Task} (h : Job.Run files nReduce σ)
    (hjob : job ∈ σ) (hi : (job.coordinator.tasks ty)[i]? = some task) :
    assignment files nReduce ty i = some (job.coordinator.reply task ty) := by
  have hinput := h.getElem?_inputs hjob hi
  rw [Coordinator.getElem?_inputs_make] at hinput
  cases ty with
  | map =>
    obtain ⟨f, hf, heq⟩ := Option.map_eq_some_iff.mp hinput
    obtain ⟨hnum, hfile⟩ := Prod.mk.inj heq
    simp only [assignment, hf, Option.map_some, Coordinator.reply, ← hnum, ← hfile,
      h.nReduce_eq job hjob]
  | reduce =>
    obtain ⟨hlt, heq⟩ := Option.ite_none_right_eq_some.mp hinput
    obtain ⟨hnum, -⟩ := Prod.mk.inj (Option.some.inj heq)
    have hlen : job.coordinator.mapTasks.length = files.length := by
      simpa [Coordinator.tasks, Coordinator.make] using h.length_tasks hjob .map
    simp only [assignment, hlt, if_true, Coordinator.reply, ← hnum, hlen]

structure Ok (app : App) (std : Stdlib) (fs₀ : Files) (files : List Bytes) (nReduce : Nat)
    (s : System) : Prop where
  replies : s.pool.attempts.map Attempt.reply = s.job.replies
  pool : Pool.Ok app std fs₀ files nReduce s.Completed s.pool
  inputs : ∀ m < files.length, ¬ s.Completed .map m → ∀ f ∈ files, s.pool.fs f = fs₀ f

theorem Ok.stepped_inputs (hsep : Separate files nReduce) (h : s.Ok app std fs₀ files nReduce)
    (hstep : Stepped app std s e s') :
    ∀ m < files.length, ¬ s'.Completed .map m → ∀ f ∈ files, s'.pool.fs f = fs₀ f := by
  intro m hm hopen f hf
  have hbefore := h.inputs m hm (fun hc => hopen (hstep.completed hc)) f hf
  cases hstep with
  | getTask | detectStraggler | markComplete | crash => exact hbefore
  | @fileOp k n =>
    refine (h.pool.fileOp_fs k n fun a ha ty i hw hown => ?_).trans hbefore
    cases ty with
    | map =>
      obtain ⟨j, hj, rfl⟩ := hown
      exact hsep _ hf i (lt_of_assignment hw.assigned) j hj rfl
    | reduce => exact hopen (hw.maps rfl m hm)

theorem Ok.getTask {τ : List Job} {job : Job} (h : s.Ok app std fs₀ files nReduce)
    (hrun : Job.Run files nReduce (s.job :: τ)) (hfree : s.HandsOutFree .getTask)
    (hjob : s.job.step .getTask = .ok job) :
    (s.pool.start s.job.coordinator.getTask.2.1).attempts.map Attempt.reply = job.replies ∧
      Pool.Ok app std fs₀ files nReduce (fun ty i => job.coordinator.status ty i = some .completed)
        (s.pool.start s.job.coordinator.getTask.2.1) := by
  cases Job.step_cases hjob with
  | @getTask c reply straggler hget hgot =>
    have hfree := hfree rfl
    rw [hget] at hfree ⊢
    refine ⟨by simp [Pool.start, Attempt.start, h.replies], ?_⟩
    cases hgot with
    | task ty i task hi hst hphase =>
      have hstatus : s.job.coordinator.status ty i = some .unstarted := by
        rw [Coordinator.status_of_getElem? hi, hst]
      have hopen : ¬ s.Completed ty i := by
        rw [Completed, hstatus]
        simp
      refine (h.pool.start (assignment_eq hrun List.mem_cons_self hi) hopen ?_ ?_ ?_).congr
        fun ty' i' => Coordinator.completed_setStatus hstatus (by simp) (by simp)
      · intro hty m hm
        have hmaps : s.job.coordinator.remaining .map = 0 := by
          have := (hrun.ok _ List.mem_cons_self).left .map
          rw [Coordinator.left, hphase hty] at this
          omega
        have hlen := hrun.length_tasks List.mem_cons_self .map
        have hlt : m < (s.job.coordinator.tasks .map).length := by
          rw [hlen]
          simpa [Coordinator.tasks, Coordinator.make] using hm
        have hm := Coordinator.status_of_getElem? (List.getElem?_eq_getElem hlt)
        rw [Coordinator.completed_of_remaining hmaps hm] at hm
        exact hm
      · have hnum := hrun.num_eq List.mem_cons_self hi
        exact hnum ▸ hfree (task.num, ty) rfl
      · rintro rfl f hf
        obtain ⟨hlt, -⟩ := List.getElem?_eq_some_iff.mp hf
        exact h.inputs i hlt hopen f (List.mem_of_getElem? hf)
    | wait | done => exact h.pool.start_idle rfl

theorem Ok.step {τ : List Job} (hsep : Separate files nReduce) (h : s.Ok app std fs₀ files nReduce)
    (hrun : Job.Run files nReduce (s.job :: τ)) (hfree : s.HandsOutFree e)
    (hstep : s.step app std e = .ok s') : s'.Ok app std fs₀ files nReduce := by
  have hkill : ∀ k, (s.pool.setPhase k .dead).attempts.map Attempt.reply = s.job.replies := by
    intro k
    rw [Pool.map_reply_setPhase, h.replies]
  have hinputs := h.stepped_inputs hsep (step_cases hstep)
  cases step_cases hstep with
  | getTask hjob =>
    obtain ⟨hreplies, hpool⟩ := h.getTask hrun hfree hjob
    exact ⟨hreplies, hpool, hinputs⟩
  | detectStraggler hjob =>
    cases Job.step_cases hjob with
    | expired => exact ⟨h.replies, h.pool, hinputs⟩
    | takenBack _ hst =>
      exact ⟨h.replies, h.pool.congr fun ty i => Coordinator.completed_setStatus hst nofun nofun,
        hinputs⟩
  | @markComplete k a job ha hphase hjob =>
    have hreply : s.job.replies[k]? = some a.reply := by
      rw [← h.replies, List.getElem?_map, ha, Option.map_some]
    cases Job.step_cases hjob with
    | ignored => exact ⟨hkill k, h.pool.kill k, hinputs⟩
    | @completed _ r ty hr hty hst =>
      obtain rfl := Option.some.inj (hreply.symm.trans hr)
      refine ⟨hkill k, (h.pool.settle ha hphase ⟨hty, rfl⟩).congr fun ty' i' => ?_, hinputs⟩
      rw [Completed, Coordinator.status_decrement, Coordinator.status_setStatus hst]
      split
      · simp [*]
      · simp [*, Completed]
  | crash => exact ⟨hkill _, h.pool.kill _, hinputs⟩
  | fileOp =>
    exact ⟨by rw [Pool.map_reply_fileOp, h.replies], h.pool.fileOp hsep.unshared _ _, hinputs⟩

theorem Ok.init (fs : Files) (files : List Bytes) (nReduce : Nat) :
    (init fs files nReduce).Ok app std fs files nReduce := by
  refine ⟨rfl, (Pool.Ok.init fs).congr fun ty i => ⟨fun hc => ?_, False.elim⟩, fun _ _ _ _ _ => rfl⟩
  cases Coordinator.status_make hc

theorem Run.forall_ok (hsep : Separate files nReduce) (h : Run app std fs₀ files nReduce HandsOutFree σ) :
    ∀ s ∈ σ, s.Ok app std fs₀ files nReduce := by
  refine h.within.forall_mem (.init fs₀ files nReduce) ?_
  rintro s e s' hs ⟨⟨hfree, hstep⟩, hmem, -⟩
  obtain ⟨τ, hτ⟩ := h.job s hmem
  exact hs.step hsep hτ hfree hstep

theorem completed_final (hsep : Separate files nReduce)
    (h : Run app std fs₀ files nReduce HandsOutFree σ) :
    (∀ s ∈ σ, ∀ ty i, s.job.coordinator.status ty i = some .completed →
      Complete app std fs₀ files nReduce s.pool.fs ty i) ∧
    σ.Pairwise fun later earlier => ∀ ty i,
      earlier.job.coordinator.status ty i = some .completed →
        ∀ name, Owns nReduce ty i name → later.pool.fs name = earlier.pool.fs name := by
  have hcomplete : ∀ s ∈ σ, ∀ ty i, s.Completed ty i →
      Complete app std fs₀ files nReduce s.pool.fs ty i :=
    fun s hs => (Run.forall_ok hsep h s hs).pool.complete
  refine ⟨hcomplete, ?_⟩
  have hlater : σ.Pairwise fun later earlier => ∀ ty i,
      earlier.Completed ty i → later.Completed ty i := by
    refine h.pairwise (fun hab hbc ty i hc => hbc ty i (hab ty i hc)) ?_
    rintro s e s' ⟨-, hstep⟩ ty i hc
    exact (step_cases hstep).completed hc
  refine List.Pairwise.imp_of_mem ?_ hlater
  intro later earlier hl he hle ty i hc name hname
  exact (hcomplete later hl ty i (hle ty i hc)).eq (hcomplete earlier he ty i hc) hname

def countApp : App where
  mapf _ content := [⟨content, [49]⟩]
  reducef _ values := itoa values.length

def oneFile : Files := Function.update (fun _ => none) [97] (some [120])

theorem exists_run (ok : System → Event → Prop) [∀ s e, Decidable (ok s e)] (P : System → Prop)
    [DecidablePred P] (es : List Event)
    (h : (History.exec (fun s e => decide (ok s e)) (step countApp .json)
      (init oneFile [[97]] 1) es).any fun s => decide (P s)) :
    ∃ s σ, Run countApp .json oneFile [[97]] 1 ok (s :: σ) ∧ P s :=
  History.exists_run ok P es h

def crashed : List Event :=
  List.flatten [[.getTask], List.replicate 4 (.fileOp 0 0),
    [.crash 0, .detectStraggler 0, .getTask], List.replicate 8 (.fileOp 1 0),
    [.markComplete 1, .getTask], List.replicate 7 (.fileOp 2 99), [.markComplete 2]]

theorem completed_final_crashed : ∃ s σ, Run countApp .json oneFile [[97]] 1 HandsOutFree (s :: σ) ∧
    s.pool.fs (outName 0) = some [120, 32, 49, 10] ∧
      Complete countApp .json oneFile [[97]] 1 s.pool.fs .reduce 0 := by
  obtain ⟨s, σ, h, hstatus, hout⟩ := exists_run HandsOutFree
    (fun s => s.job.coordinator.status .reduce 0 = some .completed ∧
      s.pool.fs (outName 0) = some [120, 32, 49, 10]) crashed (by decide +kernel)
  have hsep : Separate [[97]] 1 := by decide
  exact ⟨s, σ, h, hout, (completed_final hsep h).1 s List.mem_cons_self .reduce 0 hstatus⟩

/-- The first worker is only slow: it completes the task, and then the second one empties
the file. -/
def reissued : List Event :=
  List.flatten [[.getTask, .detectStraggler 0, .getTask], List.replicate 8 (.fileOp 0 0),
    [.markComplete 0], List.replicate 4 (.fileOp 1 0)]

theorem completed_overwritten : ∃ s σ,
    Run countApp .json oneFile [[97]] 1 (fun _ _ => True) (s :: σ) ∧
      s.job.coordinator.status .map 0 = some .completed ∧
      s.pool.fs (intermediateName 0 0) = some [] ∧
      ¬ Complete countApp .json oneFile [[97]] 1 s.pool.fs .map 0 :=
  exists_run (fun _ _ => True) _ reissued (by decide +kernel)

end System

end MrAndRaft.MapReduce
