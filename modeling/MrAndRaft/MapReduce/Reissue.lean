import MrAndRaft.MapReduce.Phases

/-! Hand-outs of a task and the timers they start.  A timer knows the index of its task and
nothing else; that it acts only on the hand-out that started it follows from what can happen
to a task while a timer is pending. -/

namespace MrAndRaft.MapReduce

def GetTaskReply.handsOut (ty : TaskType) (i : Nat) (r : GetTaskReply) : Bool :=
  r.taskType = some ty ∧ r.id = i

def Timer.watches (ty : TaskType) (i : Nat) (t : Timer) : Bool :=
  t.taskType = ty ∧ t.idx = i

theorem Coordinator.detectStraggler_cases {c c' : Coordinator} {ty : TaskType} {i : Nat}
    (h : c.detectStraggler i ty = some c') :
    c.status ty i = some .inProgress ∧ c' = c.setStatus ty i .unstarted ∨
      c.status ty i ≠ some .inProgress ∧ c' = c := by
  simp only [detectStraggler, Option.bind_eq_bind, Option.bind_eq_some_iff] at h
  obtain ⟨task, htask, h⟩ := h
  rw [status_of_getElem? htask]
  split at h <;> cases h
  · exact .inl ⟨congrArg some ‹_›, rfl⟩
  · exact .inr ⟨by simpa using ‹_›, rfl⟩

theorem length_filter_eraseIdx {α : Type} {p : α → Bool} {l : List α} {k : Nat} {a : α}
    (h : l[k]? = some a) :
    ((l.eraseIdx k).filter p).length + (if p a then 1 else 0) = (l.filter p).length := by
  obtain ⟨hk, rfl⟩ := List.getElem?_eq_some_iff.mp h
  have hl : l.filter p = (l.take k ++ l[k] :: l.drop (k + 1)).filter p := by
    rw [← List.drop_eq_getElem_cons hk, List.take_append_drop]
  rw [hl, List.eraseIdx_eq_take_drop_succ, List.filter_append, List.filter_append, List.filter_cons]
  split
  · simp [Nat.add_assoc]
  · simp

theorem filter_eraseIdx {α : Type} {p : α → Bool} {l : List α} {k : Nat} {a : α}
    (h : l[k]? = some a) (hp : p a = false) : (l.eraseIdx k).filter p = l.filter p := by
  have hlen := length_filter_eraseIdx (p := p) h
  rw [hp] at hlen
  exact ((List.eraseIdx_sublist l k).filter p).eq_of_length hlen

namespace Job

variable {files : List Bytes} {nReduce : Nat} {σ : List Job} {s s' : Job} {e : Event}
  {ty : TaskType} {i k : Nat}

def timersOf (s : Job) (ty : TaskType) (i : Nat) : List Timer := s.timers.filter (Timer.watches ty i)

def handOuts (s : Job) (ty : TaskType) (i : Nat) : Nat :=
  s.replies.countP (GetTaskReply.handsOut ty i)

structure LatestHandOut (s : Job) (ty : TaskType) (i k : Nat) : Prop where
  handsOut : ∃ r, s.replies[k]? = some r ∧ r.handsOut ty i = true
  last : ∀ k' r, k < k' → s.replies[k']? = some r → r.handsOut ty i = false

inductive TaskStep (ty : TaskType) (i : Nat) (s : Job) : Event → Job → Prop
  | handedOut (r : GetTaskReply) (s' : Job) : s.coordinator.status ty i = some .unstarted →
      s'.coordinator.status ty i = some .inProgress → s'.replies = s.replies ++ [r] →
      r.handsOut ty i = true → s'.timersOf ty i = s.timersOf ty i ++ [⟨i, ty, s.replies.length⟩] →
      TaskStep ty i s .getTask s'
  | completed (k : Nat) (s' : Job) : s.coordinator.status ty i = some .inProgress →
      s'.coordinator.status ty i = some .completed → s'.replies = s.replies →
      s'.timersOf ty i = s.timersOf ty i → TaskStep ty i s (.markComplete k) s'
  | takenBack (k : Nat) (t : Timer) (s' : Job) : s.timers[k]? = some t → t.watches ty i = true →
      s.coordinator.status ty i = some .inProgress →
      s'.coordinator.status ty i = some .unstarted → s'.replies = s.replies →
      (s'.timersOf ty i).length + 1 = (s.timersOf ty i).length →
      TaskStep ty i s (.detectStraggler k) s'
  | expired (k : Nat) (s' : Job) : s.coordinator.status ty i ≠ some .inProgress →
      s'.coordinator.status ty i = s.coordinator.status ty i → s'.replies = s.replies →
      (s'.timersOf ty i).length ≤ (s.timersOf ty i).length →
      TaskStep ty i s (.detectStraggler k) s'
  | other (e : Event) (s' : Job) (rs : List GetTaskReply) :
      s'.coordinator.status ty i = s.coordinator.status ty i →
      s'.timersOf ty i = s.timersOf ty i → s'.replies = s.replies ++ rs →
      (∀ r ∈ rs, r.handsOut ty i = false) → TaskStep ty i s e s'

theorem handsOut_reply (c : Coordinator) (task : Task) (ty' : TaskType) :
    (c.reply task ty').handsOut ty i = decide (ty' = ty ∧ task.num = i) := by
  cases ty' <;> simp [Coordinator.reply, GetTaskReply.handsOut]

theorem taskStep_detectStraggler (h : s.step (.detectStraggler k) = .ok s') (ty : TaskType)
    (i : Nat) : TaskStep ty i s (.detectStraggler k) s' := by
  simp only [step] at h
  split at h
  · cases h
  · rename_i t ht
    obtain ⟨c, hc, rfl⟩ := setCoordinator_eq h
    have hlen := length_filter_eraseIdx (p := Timer.watches ty i) ht
    by_cases hw : t.watches ty i = true
    · rw [if_pos hw] at hlen
      obtain ⟨rfl, rfl⟩ : t.taskType = ty ∧ t.idx = i := by simpa [Timer.watches] using hw
      rcases Coordinator.detectStraggler_cases hc with ⟨hst, rfl⟩ | ⟨hst, rfl⟩
      · exact .takenBack k t _ ht hw hst (by simp [Coordinator.status_setStatus hst]) rfl hlen
      · exact .expired k _ hst rfl rfl (by simp only [timersOf]; omega)
    · have hsame : ¬ (ty = t.taskType ∧ i = t.idx) := by
        rintro ⟨rfl, rfl⟩
        simp [Timer.watches] at hw
      have htimers := filter_eraseIdx ht (Bool.eq_false_iff.mpr hw)
      rcases Coordinator.detectStraggler_cases hc with ⟨hst, rfl⟩ | ⟨-, rfl⟩
      · exact .other _ _ [] (by simp [Coordinator.status_setStatus hst, hsame]) htimers (by simp)
          (by simp)
      · exact .other _ _ [] rfl htimers (by simp) (by simp)

theorem Run.taskStep (h : Run files nReduce σ) (hs : s ∈ σ) (hstep : s.step e = .ok s')
    (ty : TaskType) (i : Nat) : TaskStep ty i s e s' := by
  cases step_cases hstep with
  | @getTask c reply straggler _ hgot =>
    cases hgot with
    | task ty' j task hj hst _ =>
      have hnum := h.num_eq hs hj
      have hstatus := Coordinator.status_of_getElem? hj
      rw [hst] at hstatus
      by_cases hsame : ty = ty' ∧ i = j
      · obtain ⟨rfl, rfl⟩ := hsame
        refine .handedOut _ _ hstatus ?_ rfl ?_ ?_
        · simp [Coordinator.status_setStatus hstatus]
        · simp [handsOut_reply, hnum]
        · simp [timersOf, Timer.watches, hnum]
      · have hdiff : ¬ (ty' = ty ∧ j = i) := fun ⟨h₁, h₂⟩ => hsame ⟨h₁.symm, h₂.symm⟩
        refine .other _ _ [s.coordinator.reply task ty'] ?_ ?_ rfl ?_
        · simp [Coordinator.status_setStatus hstatus, hsame]
        · simp only [timersOf, Option.toList_some, List.map_cons, List.map_nil, List.filter_append]
          simp [Timer.watches, hnum, hdiff]
        · simp only [List.mem_singleton, forall_eq, handsOut_reply, hnum, decide_eq_false_iff_not]
          exact hdiff
    | wait => exact .other _ _ [{}] rfl (by simp [timersOf]) rfl (by simp [GetTaskReply.handsOut])
    | done =>
      exact .other _ _ [{ done := true }] rfl (by simp [timersOf]) rfl
        (by simp [GetTaskReply.handsOut])
  | ignored => exact .other _ _ [] rfl rfl (by simp) (by simp)
  | @completed k r ty' _ _ hst =>
    by_cases hsame : ty = ty' ∧ i = r.id
    · obtain ⟨rfl, rfl⟩ := hsame
      exact .completed k _ hst (by simp [Coordinator.status_setStatus hst]) rfl rfl
    · exact .other _ _ [] (by simp [Coordinator.status_setStatus hst, hsame]) rfl (by simp) (by simp)
  | expired | takenBack => exact taskStep_detectStraggler hstep ty i

theorem LatestHandOut.append {rs : List GetTaskReply} (h : s.LatestHandOut ty i k)
    (hreplies : s'.replies = s.replies ++ rs) (hrs : ∀ r ∈ rs, r.handsOut ty i = false) :
    s'.LatestHandOut ty i k := by
  obtain ⟨r, hr, hout⟩ := h.handsOut
  have hlt := (List.getElem?_eq_some_iff.mp hr).1
  refine ⟨⟨r, ?_, hout⟩, fun k' r' hk hr' => ?_⟩
  · rw [hreplies, List.getElem?_append_left hlt, hr]
  · rw [hreplies] at hr'
    rcases Nat.lt_or_ge k' s.replies.length with hk' | hk'
    · rw [List.getElem?_append_left hk'] at hr'
      exact h.last k' r' hk hr'
    · rw [List.getElem?_append_right hk'] at hr'
      exact hrs r' (List.mem_of_getElem? hr')

theorem latestHandOut_concat {r : GetTaskReply} (hreplies : s'.replies = s.replies ++ [r])
    (hr : r.handsOut ty i = true) : s'.LatestHandOut ty i s.replies.length := by
  refine ⟨⟨r, by simp [hreplies], hr⟩, fun k' r' hk hr' => ?_⟩
  have hlt := (List.getElem?_eq_some_iff.mp hr').1
  rw [hreplies, List.length_append, List.length_singleton] at hlt
  omega

structure Watched (s : Job) (ty : TaskType) (i : Nat) : Prop where
  unstarted : s.coordinator.status ty i = some .unstarted → s.timersOf ty i = []
  inProgress : s.coordinator.status ty i = some .inProgress →
    ∃ t, s.timersOf ty i = [t] ∧ s.LatestHandOut ty i t.reply
  completed : s.coordinator.status ty i = some .completed → (s.timersOf ty i).length ≤ 1

theorem Watched.step (h : s.Watched ty i) (hstep : TaskStep ty i s e s') : s'.Watched ty i := by
  cases hstep with
  | handedOut r s' hst hst' hreplies hr htimers =>
    rw [h.unstarted hst, List.nil_append] at htimers
    refine ⟨by simp [hst'], fun _ => ?_, by simp [hst']⟩
    exact ⟨_, htimers, latestHandOut_concat hreplies hr⟩
  | completed k s' hst hst' _ htimers =>
    obtain ⟨t, ht, -⟩ := h.inProgress hst
    exact ⟨by simp [hst'], by simp [hst'], fun _ => by simp [htimers, ht]⟩
  | takenBack k t s' _ _ hst hst' _ hlen =>
    obtain ⟨t, ht, -⟩ := h.inProgress hst
    rw [ht, List.length_singleton] at hlen
    exact ⟨fun _ => List.length_eq_zero_iff.mp (by omega), by simp [hst'], by simp [hst']⟩
  | expired k s' hst hst' _ hle =>
    refine ⟨fun hun => ?_, fun hin => absurd (hst' ▸ hin) hst, fun hdone => ?_⟩
    · rw [h.unstarted (hst' ▸ hun)] at hle
      exact List.length_eq_zero_iff.mp (by simpa using hle)
    · exact hle.trans (h.completed (hst' ▸ hdone))
  | other e s' rs hst' htimers hreplies hrs =>
    refine ⟨fun hun => ?_, fun hin => ?_, fun hdone => ?_⟩
    · rw [htimers, h.unstarted (hst' ▸ hun)]
    · obtain ⟨t, ht, hlatest⟩ := h.inProgress (hst' ▸ hin)
      exact ⟨t, htimers.trans ht, hlatest.append hreplies hrs⟩
    · rw [htimers]
      exact h.completed (hst' ▸ hdone)

theorem Run.watched (h : Run files nReduce σ) (ty : TaskType) (i : Nat) :
    ∀ s ∈ σ, s.Watched ty i := by
  refine h.within.forall_mem ?_ ?_
  · have hnone : ∀ st, (init files nReduce).coordinator.status ty i = some st → st = .unstarted :=
      fun _ => Coordinator.status_make
    exact ⟨fun _ => rfl, fun hst => absurd (hnone _ hst) (by simp), fun _ => Nat.zero_le 1⟩
  · rintro s e s' hs ⟨hstep, hmem, -⟩
    exact hs.step (Run.taskStep h hmem hstep ty i)

def resets (ty : TaskType) (i : Nat) : List Job → Nat
  | s' :: s :: σ =>
    (if s.coordinator.status ty i = some .inProgress ∧
        s'.coordinator.status ty i = some .unstarted then 1 else 0) + resets ty i (s :: σ)
  | _ => 0

/-- Every hand-out is taken back or is the one that the status speaks of. -/
def Accounted (ty : TaskType) (i : Nat) : List Job → Prop
  | [] => True
  | s :: σ => ∀ st, s.coordinator.status ty i = some st →
      s.handOuts ty i = resets ty i (s :: σ) + if st = .unstarted then 0 else 1

theorem Accounted.step (h : Accounted ty i (s :: σ)) (hstep : TaskStep ty i s e s') :
    Accounted ty i (s' :: s :: σ) := by
  intro st hst
  rw [resets, handOuts]
  cases hstep with
  | handedOut r s' hold hnew hreplies hr _ =>
    have := h _ hold
    obtain rfl := Option.some.inj (hnew.symm.trans hst)
    rw [handOuts] at this
    simp [hreplies, hr, hold, this]
  | completed k s' hold hnew hreplies _ =>
    have := h _ hold
    obtain rfl := Option.some.inj (hnew.symm.trans hst)
    rw [handOuts] at this
    simp [hreplies, hnew, this]
  | takenBack k t s' _ _ hold hnew hreplies _ =>
    have := h _ hold
    obtain rfl := Option.some.inj (hnew.symm.trans hst)
    rw [handOuts] at this
    simp [hreplies, hold, hnew, this, Nat.add_comm]
  | expired k s' hold hsame hreplies _ =>
    have := h st (hsame ▸ hst)
    rw [handOuts] at this
    simp [hreplies, hold, this]
  | other e s' rs hsame _ hreplies hrs =>
    have := h st (hsame ▸ hst)
    have hnone : rs.countP (GetTaskReply.handsOut ty i) = 0 :=
      List.countP_eq_zero.mpr fun r hr => by simp [hrs r hr]
    rw [handOuts] at this
    rw [hreplies, List.countP_append, hnone, hsame, if_neg]
    · omega
    · rintro ⟨h₁, h₂⟩
      simp [h₁] at h₂

theorem Run.accounted (h : Run files nReduce σ) (ty : TaskType) (i : Nat) : Accounted ty i σ := by
  induction h with
  | init =>
    intro st hst
    obtain rfl := Coordinator.status_make hst
    rfl
  | step hrun hstep ih => exact ih.step (Run.taskStep hrun List.mem_cons_self hstep ty i)

/-- Whatever came before, a task in progress has one pending timer, started by its latest
hand-out, an unstarted task has none and a completed one at most one; so only the timer of the
latest hand-out takes a task back, and the hand-outs are counted by the resets. -/
theorem reissue_accounting (h : Run files nReduce (s :: σ)) {st : Status}
    (hst : s.coordinator.status ty i = some st) :
    (st = .inProgress → ∃ t, s.timersOf ty i = [t] ∧ s.LatestHandOut ty i t.reply) ∧
    (st = .unstarted → s.timersOf ty i = []) ∧
    (st = .completed → (s.timersOf ty i).length ≤ 1) ∧
    (∀ e s', s.step e = .ok s' → st = .inProgress →
      s'.coordinator.status ty i = some .unstarted →
      ∃ k t, e = .detectStraggler k ∧ s.timers[k]? = some t ∧ t.watches ty i = true ∧
        s.LatestHandOut ty i t.reply) ∧
    s.handOuts ty i = resets ty i (s :: σ) + if st = .unstarted then 0 else 1 := by
  have hw := h.watched ty i s List.mem_cons_self
  refine ⟨fun hin => hw.inProgress (hin ▸ hst), fun hun => hw.unstarted (hun ▸ hst),
    fun hdone => hw.completed (hdone ▸ hst), ?_, h.accounted ty i st hst⟩
  rintro e s' hstep rfl hst'
  obtain ⟨t₀, ht₀, hlatest⟩ := hw.inProgress hst
  cases h.taskStep List.mem_cons_self hstep ty i with
  | handedOut r _ hold => simp [hst] at hold
  | completed k _ _ hnew => simp [hst'] at hnew
  | expired k _ hold => exact absurd hst hold
  | other e _ rs hsame => simp [hst, hst'] at hsame
  | takenBack k t _ ht hwatch =>
    have hmem : t ∈ s.timersOf ty i := List.mem_filter.mpr ⟨List.mem_of_getElem? ht, hwatch⟩
    rw [ht₀, List.mem_singleton] at hmem
    exact ⟨k, t, rfl, ht, hwatch, hmem ▸ hlatest⟩

theorem reissue_accounting_reissued : ∃ s σ, Run [[97]] 1 (s :: σ) ∧
    s.coordinator.status .map 0 = some .inProgress ∧
    (∃ t, s.timersOf .map 0 = [t] ∧ s.LatestHandOut .map 0 t.reply) ∧
    s.handOuts .map 0 = resets .map 0 (s :: σ) + 1 := by
  obtain ⟨s, σ, h, hst⟩ := exists_run [[97]] 1
    (fun s => s.coordinator.status .map 0 = some .inProgress)
    [.getTask, .detectStraggler 0, .getTask] (by decide)
  have hacc := reissue_accounting h hst
  exact ⟨s, σ, h, hst, hacc.1 rfl, hacc.2.2.2.2⟩

end Job

end MrAndRaft.MapReduce
