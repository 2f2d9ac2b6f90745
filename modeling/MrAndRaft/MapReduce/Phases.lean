import MrAndRaft.MapReduce.Coordinator

/-! The phases of a job: map tasks, reduce tasks, done.  Reports and timers may come
late or twice, but each acts only on a task that is in progress. -/

namespace MrAndRaft.MapReduce

namespace Coordinator

variable {c c' : Coordinator} {ty ty' : TaskType} {i j : Nat} {st st' : Status} {task : Task}

def status (c : Coordinator) (ty : TaskType) (i : Nat) : Option Status :=
  (c.tasks ty)[i]?.map (·.status)

theorem status_of_getElem? (h : (c.tasks ty)[i]? = some task) :
    c.status ty i = some task.status := by
  simp [status, h]

theorem tasks_setStatus (c : Coordinator) (ty ty' : TaskType) (i : Nat) (st : Status) :
    (c.setStatus ty i st).tasks ty' =
      if ty' = ty then (c.tasks ty').modify i ({ · with status := st }) else c.tasks ty' := by
  cases ty <;> cases ty' <;> rfl

@[simp] theorem tasks_decrement (ty ty' : TaskType) : (c.decrement ty).tasks ty' = c.tasks ty' := by
  cases ty <;> cases ty' <;> rfl

@[simp] theorem status_decrement (ty ty' : TaskType) :
    (c.decrement ty).status ty' i = c.status ty' i := by
  simp [status]

@[simp] theorem left_setStatus (ty ty' : TaskType) (i : Nat) (st : Status) :
    (c.setStatus ty i st).left ty' = c.left ty' := by
  cases ty <;> cases ty' <;> rfl

theorem left_decrement (c : Coordinator) (ty ty' : TaskType) :
    (c.decrement ty).left ty' = if ty' = ty then c.left ty' - 1 else c.left ty' := by
  cases ty <;> cases ty' <;> rfl

theorem status_setStatus (h : c.status ty i = some st') (st : Status) :
    (c.setStatus ty i st).status ty' j = if ty' = ty ∧ j = i then some st else c.status ty' j := by
  obtain ⟨task, htask, -⟩ := Option.map_eq_some_iff.mp h
  rw [status, tasks_setStatus]
  by_cases hty : ty' = ty
  · subst hty
    by_cases hj : j = i
    · subst hj
      simp [htask]
    · simp [hj, List.getElem?_modify_ne _ _ (Ne.symm hj), status]
  · simp [hty, status]

def remaining (c : Coordinator) (ty : TaskType) : Nat :=
  (c.tasks ty).countP (·.status ≠ .completed)

@[simp] theorem remaining_decrement (ty ty' : TaskType) :
    (c.decrement ty).remaining ty' = c.remaining ty' := by
  simp [remaining]

theorem remaining_setStatus_ne (h : ty' ≠ ty) (i : Nat) (st : Status) :
    (c.setStatus ty i st).remaining ty' = c.remaining ty' := by
  rw [remaining, tasks_setStatus, if_neg h, remaining]

theorem remaining_setStatus (h : c.status ty i = some st') (st : Status) :
    (c.setStatus ty i st).remaining ty + (if st' = .completed then 0 else 1) =
      c.remaining ty + if st = .completed then 0 else 1 := by
  obtain ⟨task, htask, rfl⟩ := Option.map_eq_some_iff.mp h
  obtain ⟨hi, hget⟩ := List.getElem?_eq_some_iff.mp htask
  obtain ⟨before, a, after, heq, hlen, hmod⟩ :=
    List.exists_of_modify (fun t : Task => { t with status := st }) hi
  obtain rfl : a = task := by
    rw [← Option.some.injEq, ← htask, heq, ← hlen]
    simp
  rw [remaining, tasks_setStatus, if_pos rfl, hmod, remaining, heq]
  simp only [List.countP_append, List.countP_cons]
  by_cases h1 : a.status = .completed <;> by_cases h2 : st = .completed <;> simp [h1, h2] <;> omega

theorem forall_completed (h : c.remaining ty = 0) : ∀ task ∈ c.tasks ty, task.status = .completed := by
  intro task htask
  simpa using List.countP_eq_zero.mp h task htask

theorem completed_of_remaining (h : c.remaining ty = 0) (hst : c.status ty i = some st) :
    st = .completed := by
  obtain ⟨task, htask, rfl⟩ := Option.map_eq_some_iff.mp hst
  exact forall_completed h task (List.mem_of_getElem? htask)

inductive Moved (c : Coordinator) : Coordinator → Prop
  | same : Moved c c
  | handedOut (ty : TaskType) (i : Nat) : c.status ty i = some .unstarted →
      (ty = .reduce → c.mapsLeft = 0) → Moved c (c.setStatus ty i .inProgress)
  | takenBack (ty : TaskType) (i : Nat) : c.status ty i = some .inProgress →
      Moved c (c.setStatus ty i .unstarted)
  | completed (ty : TaskType) (i : Nat) : c.status ty i = some .inProgress →
      Moved c ((c.setStatus ty i .completed).decrement ty)

theorem handOut_spec (h : c.handOut ty = some (c', task)) :
    ∃ i, (c.tasks ty)[i]? = some task ∧ task.status = .unstarted ∧
      c' = c.setStatus ty i .inProgress := by
  simp only [handOut, Option.bind_eq_bind, Option.bind_eq_some_iff, pure, Option.some.injEq,
    Prod.mk.injEq] at h
  obtain ⟨i, hi, task', htask, rfl, rfl⟩ := h
  obtain ⟨hlt, hst, -⟩ := List.findIdx?_eq_some_iff_getElem.mp hi
  rw [List.getElem?_eq_getElem hlt, Option.some.injEq] at htask
  refine ⟨i, by rw [List.getElem?_eq_getElem hlt, htask], ?_, rfl⟩
  simpa [htask] using hst

def reply (c : Coordinator) (task : Task) : TaskType → GetTaskReply
  | .map =>
    { fileName := task.filename, taskType := some .map, nReduce := c.nReduce, id := task.num }
  | .reduce => { taskType := some .reduce, id := task.num, nMap := c.mapTasks.length }

inductive GotTask (c : Coordinator) :
    Coordinator → GetTaskReply → Option (Nat × TaskType) → Prop
  | task (ty : TaskType) (i : Nat) (task : Task) :
      (c.tasks ty)[i]? = some task → task.status = .unstarted →
      (ty = .reduce → c.mapsLeft = 0) →
      GotTask c (c.setStatus ty i .inProgress) (c.reply task ty) (some (task.num, ty))
  | wait : GotTask c c {} none
  | done : c.mapsLeft = 0 → c.reducesLeft = 0 → GotTask c c { done := true } none

theorem getTask_spec (c : Coordinator) : GotTask c c.getTask.1 c.getTask.2.1 c.getTask.2.2 := by
  unfold getTask
  split
  · split
    · exact .wait
    · rename_i _ task h
      obtain ⟨i, hi, hst, rfl⟩ := handOut_spec h
      exact .task .map i task hi hst nofun
  · rename_i hmaps
    have hmaps : c.mapsLeft = 0 := not_not.mp hmaps
    split
    · exact .done hmaps ‹_›
    · split
      · exact .wait
      · rename_i _ task h
        obtain ⟨i, hi, hst, rfl⟩ := handOut_spec h
        exact .task .reduce i task hi hst fun _ => hmaps

theorem GotTask.moved {reply : GetTaskReply} {straggler : Option (Nat × TaskType)}
    (h : GotTask c c' reply straggler) : Moved c c' := by
  cases h with
  | task ty i task hi hst hphase =>
    exact .handedOut ty i (by rw [status_of_getElem? hi, hst]) hphase
  | wait | done => exact .same

theorem detectStraggler_spec (h : c.detectStraggler i ty = some c') :
    c' = c ∨ c.status ty i = some .inProgress ∧ c' = c.setStatus ty i .unstarted := by
  simp only [detectStraggler, Option.bind_eq_bind, Option.bind_eq_some_iff] at h
  obtain ⟨task, htask, h⟩ := h
  split at h <;> cases h
  · exact .inr ⟨by rw [status_of_getElem? htask, ‹task.status = _›], rfl⟩
  · exact .inl rfl

theorem markComplete_spec {args : MarkCompleteArgs} (h : c.markComplete args = some c') :
    c' = c ∨ ∃ ty, args.taskType = some ty ∧ c.status ty args.id = some .inProgress ∧
      c' = (c.setStatus ty args.id .completed).decrement ty := by
  unfold markComplete at h
  split at h
  · cases h
    exact .inl rfl
  · rename_i ty hty
    simp only [Option.bind_eq_bind, Option.bind_eq_some_iff] at h
    obtain ⟨task, htask, h⟩ := h
    split at h <;> cases h
    · exact .inr ⟨ty, hty, by rw [status_of_getElem? htask, ‹task.status = _›], rfl⟩
    · exact .inl rfl

theorem isSome_detectStraggler (h : i < (c.tasks ty).length) : (c.detectStraggler i ty).isSome := by
  simp only [detectStraggler, List.getElem?_eq_getElem h, Option.bind_eq_bind, Option.bind_some]
  split <;> rfl

theorem isSome_markComplete {args : MarkCompleteArgs}
    (h : ∀ ty, args.taskType = some ty → args.id < (c.tasks ty).length) :
    (c.markComplete args).isSome := by
  unfold markComplete
  split
  · rfl
  · rename_i ty hty
    simp only [List.getElem?_eq_getElem (h ty hty), Option.bind_eq_bind, Option.bind_some]
    split <;> rfl

def inputs (c : Coordinator) (ty : TaskType) : List (Nat × Bytes) :=
  (c.tasks ty).map fun t => (t.num, t.filename)

theorem inputs_setStatus (c : Coordinator) (ty' : TaskType) (i : Nat) (st : Status) :
    (c.setStatus ty' i st).inputs ty = c.inputs ty := by
  rw [inputs, tasks_setStatus]
  split
  · apply List.ext_getElem?
    intro j
    rw [inputs, List.getElem?_map, List.getElem?_map, List.getElem?_modify]
    cases (c.tasks ty)[j]? with
    | none => rfl
    | some t => by_cases hij : i = j <;> simp [hij]
  · rfl

@[simp] theorem inputs_decrement (ty ty' : TaskType) : (c.decrement ty').inputs ty = c.inputs ty := by
  simp [inputs]

@[simp] theorem length_inputs (c : Coordinator) (ty : TaskType) :
    (c.inputs ty).length = (c.tasks ty).length := by
  simp [inputs]

theorem completed_setStatus (h : c.status ty i = some st') (hst' : st' ≠ .completed)
    (hst : st ≠ .completed) : (c.setStatus ty i st).status ty' j = some .completed ↔
      c.status ty' j = some .completed := by
  rw [status_setStatus h]
  split
  · rename_i heq
    obtain ⟨rfl, rfl⟩ := heq
    simp [h, hst, hst']
  · rfl

namespace Moved

theorem inputs (h : Moved c c') (ty : TaskType) : c'.inputs ty = c.inputs ty := by
  cases h with
  | same => rfl
  | handedOut | takenBack => exact inputs_setStatus _ _ _ _
  | completed => rw [inputs_decrement, inputs_setStatus]

theorem nReduce_eq (h : Moved c c') : c'.nReduce = c.nReduce := by
  cases h with
  | same => rfl
  | handedOut ty | takenBack ty | completed ty => cases ty <;> rfl

theorem status_completed (h : Moved c c') (hst : c.status ty i = some .completed) :
    c'.status ty i = some .completed := by
  cases h with
  | same => exact hst
  | handedOut ty' j hj | takenBack ty' j hj =>
    rw [status_setStatus hj, if_neg]
    · exact hst
    · rintro ⟨rfl, rfl⟩
      rw [hst] at hj
      cases hj
  | completed ty' j hj =>
    rw [status_decrement, status_setStatus hj]
    split
    · rfl
    · exact hst

end Moved

structure Ok (c : Coordinator) : Prop where
  left : ∀ ty, c.left ty = c.remaining ty
  phase : ∀ i st, c.status .reduce i = some st → st ≠ .unstarted → c.remaining .map = 0

theorem Ok.remaining_setStatus (h : c.Ok) (hi : c.status ty i = some st') (hst' : st' ≠ .completed)
    (hphase : ty = .reduce → c.remaining .map = 0) (st : Status) :
    ∀ j st₂, (c.setStatus ty i st).status .reduce j = some st₂ → st₂ ≠ .unstarted →
      (c.setStatus ty i st).remaining .map = 0 := by
  intro j st₂ hj hst₂
  rw [status_setStatus hi] at hj
  cases ty with
  | map =>
    simp only [reduceCtorEq, false_and, if_false] at hj
    exact absurd (completed_of_remaining (h.phase j st₂ hj hst₂) hi) hst'
  | reduce =>
    rw [remaining_setStatus_ne (show TaskType.map ≠ .reduce from nofun)]
    exact hphase rfl

theorem Ok.setStatus (h : c.Ok) (hi : c.status ty i = some st') (hst' : st' ≠ .completed)
    (hphase : ty = .reduce → c.remaining .map = 0) {st : Status} (hst : st ≠ .completed) :
    (c.setStatus ty i st).Ok := by
  refine ⟨fun ty' => ?_, h.remaining_setStatus hi hst' hphase st⟩
  rw [left_setStatus, h.left]
  by_cases hty : ty' = ty
  · subst hty
    have hcount := Coordinator.remaining_setStatus hi st
    rw [if_neg hst, if_neg hst'] at hcount
    omega
  · rw [remaining_setStatus_ne hty]

theorem Ok.moved (h : c.Ok) (hm : Moved c c') : c'.Ok := by
  cases hm with
  | same => exact h
  | handedOut ty i hi hphase =>
    refine h.setStatus hi nofun (fun hty => ?_) nofun
    have := h.left .map
    rw [Coordinator.left, hphase hty] at this
    omega
  | takenBack ty i hi =>
    refine h.setStatus hi nofun (fun hty => ?_) nofun
    subst hty
    exact h.phase i _ hi nofun
  | completed ty i hi =>
    refine ⟨fun ty' => ?_, ?_⟩
    · rw [left_decrement, left_setStatus, remaining_decrement, h.left]
      by_cases hty : ty' = ty
      · subst hty
        have := Coordinator.remaining_setStatus hi .completed
        simp only [reduceCtorEq, if_false, if_true] at this ⊢
        omega
      · rw [if_neg hty, remaining_setStatus_ne hty]
    · simp only [status_decrement, remaining_decrement]
      refine h.remaining_setStatus hi nofun (fun hty => ?_) _
      subst hty
      exact h.phase i _ hi nofun

theorem getElem?_inputs_make (files : List Bytes) (nReduce i : Nat) (ty : TaskType) :
    ((make files nReduce).inputs ty)[i]? = match ty with
      | .map => files[i]?.map fun f => (i, f)
      | .reduce => if i < nReduce then some (i, []) else none := by
  cases ty with
  | map => simp [inputs, tasks, make, Function.comp_def]
  | reduce =>
    by_cases hi : i < nReduce <;> simp [inputs, tasks, make, hi]

theorem unstarted_make (files : List Bytes) (nReduce : Nat) :
    ∀ task ∈ (make files nReduce).tasks ty, task.status = .unstarted := by
  intro task htask
  cases ty with
  | map =>
    obtain ⟨i, hi, rfl⟩ := List.mem_mapIdx.mp htask
    rfl
  | reduce =>
    obtain ⟨i, -, rfl⟩ := List.mem_map.mp htask
    rfl

theorem status_make {files : List Bytes} {nReduce : Nat}
    (h : (make files nReduce).status ty i = some st) : st = .unstarted := by
  obtain ⟨task, htask, rfl⟩ := Option.map_eq_some_iff.mp h
  exact unstarted_make files nReduce task (List.mem_of_getElem? htask)

theorem Ok.make (files : List Bytes) (nReduce : Nat) : (make files nReduce).Ok where
  left ty := by
    have hall : (Coordinator.make files nReduce).remaining ty =
        ((Coordinator.make files nReduce).tasks ty).length := by
      rw [remaining, List.countP_eq_length]
      intro task htask
      simp [unstarted_make files nReduce task htask]
    rw [hall]
    cases ty <;> simp [Coordinator.left, tasks, Coordinator.make]
  phase i st hst hne := absurd (status_make hst) hne

end Coordinator

namespace Job

variable {files : List Bytes} {nReduce : Nat} {σ : List Job} {s s' : Job} {e : Event}

theorem setCoordinator_eq {o : Option Coordinator} (h : s.setCoordinator o = .ok s') :
    ∃ c, o = some c ∧ s' = { s with coordinator := c } := by
  cases o with
  | none => cases h
  | some c => exact ⟨c, rfl, (Except.ok.inj h).symm⟩

inductive Stepped (s : Job) : Event → Job → Prop
  | getTask {c : Coordinator} {reply : GetTaskReply} {straggler : Option (Nat × TaskType)} :
      s.coordinator.getTask = (c, reply, straggler) →
      Coordinator.GotTask s.coordinator c reply straggler →
      Stepped s .getTask ⟨c, s.replies ++ [reply],
        s.timers ++ straggler.toList.map fun t => ⟨t.1, t.2, s.replies.length⟩⟩
  | ignored {k : Nat} {r : GetTaskReply} : s.replies[k]? = some r → Stepped s (.markComplete k) s
  | completed {k : Nat} {r : GetTaskReply} {ty : TaskType} : s.replies[k]? = some r →
      r.taskType = some ty → s.coordinator.status ty r.id = some .inProgress →
      Stepped s (.markComplete k)
        { s with coordinator := (s.coordinator.setStatus ty r.id .completed).decrement ty }
  | expired {k : Nat} {t : Timer} : s.timers[k]? = some t →
      Stepped s (.detectStraggler k) { s with timers := s.timers.eraseIdx k }
  | takenBack {k : Nat} {t : Timer} : s.timers[k]? = some t →
      s.coordinator.status t.taskType t.idx = some .inProgress →
      Stepped s (.detectStraggler k)
        ⟨s.coordinator.setStatus t.taskType t.idx .unstarted, s.replies, s.timers.eraseIdx k⟩

theorem step_cases (h : s.step e = .ok s') : Stepped s e s' := by
  cases e with
  | getTask =>
    have hgot := s.coordinator.getTask_spec
    simp only [step, Except.ok.injEq] at h
    exact h ▸ .getTask rfl hgot
  | markComplete k =>
    simp only [step] at h
    split at h
    · cases h
    · rename_i r hr
      obtain ⟨c, hc, rfl⟩ := setCoordinator_eq h
      obtain rfl | ⟨ty, hty, hst, rfl⟩ := Coordinator.markComplete_spec hc
      · exact .ignored hr
      · exact .completed hr hty hst
  | detectStraggler k =>
    simp only [step] at h
    split at h
    · cases h
    · rename_i t ht
      obtain ⟨c, hc, rfl⟩ := setCoordinator_eq h
      obtain rfl | ⟨hst, rfl⟩ := Coordinator.detectStraggler_spec hc
      · exact .expired ht
      · exact .takenBack ht hst

theorem step_moved (h : s.step e = .ok s') : Coordinator.Moved s.coordinator s'.coordinator := by
  cases step_cases h with
  | getTask _ hgot => exact hgot.moved
  | ignored | expired => exact .same
  | completed _ _ hst => exact .completed _ _ hst
  | takenBack _ hst => exact .takenBack _ _ hst

theorem Run.ok (h : Run files nReduce σ) : ∀ s ∈ σ, s.coordinator.Ok := by
  refine History.Run.forall_mem h (.make files nReduce) ?_
  intro s e s' hs hstep
  exact hs.moved (step_moved hstep)

theorem Run.inputs (h : Run files nReduce σ) :
    ∀ s ∈ σ, ∀ ty, s.coordinator.inputs ty = (Coordinator.make files nReduce).inputs ty := by
  refine History.Run.forall_mem h (fun _ => rfl) ?_
  intro s e s' hs hstep ty
  rw [(step_moved hstep).inputs, hs ty]

theorem Run.length_tasks (h : Run files nReduce σ) (hs : s ∈ σ) (ty : TaskType) :
    (s.coordinator.tasks ty).length = ((Coordinator.make files nReduce).tasks ty).length := by
  rw [← Coordinator.length_inputs, h.inputs s hs, Coordinator.length_inputs]

theorem Run.nReduce_eq (h : Run files nReduce σ) : ∀ s ∈ σ, s.coordinator.nReduce = nReduce := by
  refine History.Run.forall_mem h rfl ?_
  intro s e s' hs hstep
  rw [(step_moved hstep).nReduce_eq, hs]

theorem Run.getElem?_inputs {ty : TaskType} {i : Nat} {task : Task} (h : Run files nReduce σ)
    (hs : s ∈ σ) (hi : (s.coordinator.tasks ty)[i]? = some task) :
    ((Coordinator.make files nReduce).inputs ty)[i]? = some (task.num, task.filename) := by
  rw [← h.inputs s hs ty, Coordinator.inputs, List.getElem?_map, hi, Option.map_some]

theorem Run.num_eq {ty : TaskType} {i : Nat} {task : Task} (h : Run files nReduce σ) (hs : s ∈ σ)
    (hi : (s.coordinator.tasks ty)[i]? = some task) : task.num = i := by
  have hinput := h.getElem?_inputs hs hi
  rw [Coordinator.getElem?_inputs_make] at hinput
  cases ty with
  | map =>
    obtain ⟨f, -, heq⟩ := Option.map_eq_some_iff.mp hinput
    exact (congrArg Prod.fst heq).symm
  | reduce =>
    obtain ⟨-, heq⟩ := Option.ite_none_right_eq_some.mp hinput
    exact (congrArg Prod.fst (Option.some.inj heq)).symm

theorem Run.length_reduceTasks (h : Run files nReduce σ) (hs : s ∈ σ) :
    s.coordinator.reduceTasks.length = nReduce := by
  simpa [Coordinator.tasks, Coordinator.make] using h.length_tasks hs .reduce

structure InRange (s : Job) : Prop where
  replies : ∀ r ∈ s.replies, ∀ ty, r.taskType = some ty → r.id < (s.coordinator.tasks ty).length
  timers : ∀ t ∈ s.timers, t.idx < (s.coordinator.tasks t.taskType).length

theorem InRange.moved {c : Coordinator} (h : s.InRange) (hm : Coordinator.Moved s.coordinator c) :
    { s with coordinator := c }.InRange := by
  have hlen : ∀ ty, (c.tasks ty).length = (s.coordinator.tasks ty).length := by
    intro ty
    rw [← Coordinator.length_inputs, hm.inputs, Coordinator.length_inputs]
  exact ⟨fun r hr ty hty => hlen ty ▸ h.replies r hr ty hty, fun t ht => hlen _ ▸ h.timers t ht⟩

theorem Run.inRange (h : Run files nReduce σ) : ∀ s ∈ σ, s.InRange := by
  refine h.within.forall_mem ⟨nofun, nofun⟩ ?_
  rintro s e s' hs ⟨hstep, hmem, -⟩
  have hs' := hs.moved (step_moved hstep)
  cases step_cases hstep with
  | ignored | completed => exact hs'
  | expired | takenBack => exact ⟨hs'.replies, fun t ht => hs'.timers t (List.mem_of_mem_eraseIdx ht)⟩
  | getTask _ hgot =>
    cases hgot with
    | task ty i task hi =>
      -- the reply and the timer both name the task at position `i`
      have hlt : task.num < ((s.coordinator.setStatus ty i .inProgress).tasks ty).length := by
        rw [h.num_eq hmem hi, ← Coordinator.length_inputs, Coordinator.inputs_setStatus,
          Coordinator.length_inputs]
        exact (List.getElem?_eq_some_iff.mp hi).1
      constructor
      · intro r hr ty' hty'
        rcases List.mem_append.mp hr with hr | hr
        · exact hs'.replies r hr ty' hty'
        · obtain rfl := List.mem_singleton.mp hr
          cases ty <;> cases hty' <;> exact hlt
      · intro t ht
        rcases List.mem_append.mp ht with ht | ht
        · exact hs'.timers t ht
        · obtain rfl := List.mem_singleton.mp ht
          exact hlt
    | wait | done =>
      refine ⟨fun r hr ty hty => ?_, by simpa using hs'.timers⟩
      rcases List.mem_append.mp hr with hr | hr
      · exact hs'.replies r hr ty hty
      · rw [List.mem_singleton.mp hr] at hty
        cases hty

theorem Run.step_ne (h : Run files nReduce σ) (hs : s ∈ σ) (e : Event) :
    s.step e ≠ .error .outOfRange := by
  have hset : ∀ {t : Job} {o : Option Coordinator}, o.isSome →
      t.setCoordinator o ≠ .error .outOfRange := by
    intro t o ho
    cases o with
    | none => cases ho
    | some c => nofun
  have hin := h.inRange s hs
  cases e with
  | getTask => nofun
  | markComplete k =>
    simp only [step]
    cases hr : s.replies[k]? with
    | none => nofun
    | some r => exact hset (Coordinator.isSome_markComplete (hin.replies r (List.mem_of_getElem? hr)))
  | detectStraggler k =>
    simp only [step]
    cases ht : s.timers[k]? with
    | none => nofun
    | some t => exact hset (Coordinator.isSome_detectStraggler (hin.timers t (List.mem_of_getElem? ht)))

theorem done_reducesLeft {c : Coordinator} (h : c.done = true ∨ c.getTask.2.1.done = true) :
    c.reducesLeft = 0 := by
  rcases h with h | h
  · simpa [Coordinator.done] using h
  · have hgot := c.getTask_spec
    generalize c.getTask.1 = c', c.getTask.2.1 = reply, c.getTask.2.2 = straggler at h hgot
    cases hgot with
    | task ty => cases ty <;> cases h
    | wait => cases h
    | done _ hr => exact hr

/-- The counters count the tasks that are not completed, a completed task stays
completed, no reduce task starts before all map tasks are completed, and the job is said
to be done only when every task is completed. -/
theorem phases (hn : 1 ≤ nReduce) (h : Run files nReduce σ) :
    (∀ s ∈ σ,
      s.coordinator.mapsLeft = s.coordinator.mapTasks.countP (·.status ≠ .completed) ∧
      s.coordinator.reducesLeft = s.coordinator.reduceTasks.countP (·.status ≠ .completed) ∧
      (∀ r ∈ s.coordinator.reduceTasks, r.status ≠ .unstarted →
        ∀ m ∈ s.coordinator.mapTasks, m.status = .completed) ∧
      (s.coordinator.done = true ∨ s.coordinator.getTask.2.1.done = true →
        ∀ ty, ∀ task ∈ s.coordinator.tasks ty, task.status = .completed)) ∧
    σ.Pairwise fun later earlier => ∀ ty i,
      earlier.coordinator.status ty i = some .completed →
        later.coordinator.status ty i = some .completed := by
  constructor
  · intro s hs
    have hok := h.ok s hs
    have hphase : ∀ r ∈ s.coordinator.tasks .reduce, r.status ≠ .unstarted →
        ∀ m ∈ s.coordinator.tasks .map, m.status = .completed := by
      intro r hr hst
      obtain ⟨i, hi⟩ := List.getElem?_of_mem hr
      exact Coordinator.forall_completed
        (hok.phase i r.status (Coordinator.status_of_getElem? hi) hst)
    refine ⟨hok.left .map, hok.left .reduce, hphase, fun hdone => ?_⟩
    have hreduce : ∀ r ∈ s.coordinator.tasks .reduce, r.status = .completed := by
      have hleft := hok.left .reduce
      rw [Coordinator.left, done_reducesLeft hdone] at hleft
      exact Coordinator.forall_completed (by omega)
    rintro (_ | _)
    · -- with at least one reduce task, completed, the map phase must be over
      have hpos : 0 < s.coordinator.reduceTasks.length := by
        rw [h.length_reduceTasks hs]
        exact hn
      have hr : s.coordinator.reduceTasks[0] ∈ s.coordinator.tasks .reduce :=
        List.getElem_mem hpos
      exact hphase _ hr (by rw [hreduce _ hr]; nofun)
    · exact hreduce
  · refine h.pairwise (fun hab hbc ty i hst => hbc ty i (hab ty i hst)) ?_
    intro s e s' hstep ty i hst
    exact (step_moved hstep).status_completed hst

theorem exists_run (files : List Bytes) (nReduce : Nat) (P : Job → Prop) [DecidablePred P]
    (es : List Event)
    (h : (History.exec (fun _ _ => true) step (init files nReduce) es).any fun s => decide (P s)) :
    ∃ s σ, Run files nReduce (s :: σ) ∧ P s := by
  obtain ⟨s, σ, hrun, hs⟩ := History.exists_run (fun _ _ => True) P es (by simpa using h)
  exact ⟨s, σ, hrun.mono fun _ _ _ hs => hs.2, hs⟩

theorem phases_reissued : ∃ s σ, Run [[97]] 1 (s :: σ) ∧
    s.coordinator.mapsLeft = 0 ∧ s.coordinator.done = true ∧
      (∀ ty, ∀ task ∈ s.coordinator.tasks ty, task.status = .completed) := by
  obtain ⟨s, σ, h, hmaps, hdone⟩ := exists_run [[97]] 1
    (fun s => s.coordinator.mapsLeft = 0 ∧ s.coordinator.done = true)
    [.getTask, .detectStraggler 0, .getTask, .markComplete 0, .markComplete 1, .getTask,
      .detectStraggler 0, .markComplete 2, .getTask] (by decide)
  exact ⟨s, σ, h, hmaps, hdone,
    ((phases (le_refl 1) h).1 s List.mem_cons_self).2.2.2 (.inl hdone)⟩

end Job

end MrAndRaft.MapReduce
