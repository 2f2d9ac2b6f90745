import MrAndRaft.Lib.Prefix
import MrAndRaft.MapReduce.Results

/-! Workers that never share a task: the files of a task that was settled hold its result
whatever the other workers do. -/

namespace MrAndRaft.MapReduce

variable {app : App} {std : Stdlib} {fs₀ : Files} {files : List Bytes} {nReduce : Nat}
  {settled settled' : TaskType → Nat → Prop} {p : Pool} {a : Attempt} {ty : TaskType} {i k : Nat}

def Separate (files : List Bytes) (nReduce : Nat) : Prop :=
  ∀ f ∈ files, ∀ i < files.length, ∀ j < nReduce, f ≠ intermediateName i j

instance : Decidable (Separate files nReduce) :=
  inferInstanceAs (Decidable (∀ f ∈ files, ∀ i < files.length, ∀ j < nReduce, _ ≠ _))

def Unshared (files : List Bytes) (nReduce : Nat) : Prop :=
  ∀ t < files.length, ∀ i < files.length, ∀ j < nReduce,
    files[t]? = some (intermediateName i j) → i = t

instance : Decidable (Unshared files nReduce) :=
  inferInstanceAs (Decidable (∀ t < files.length, ∀ i < files.length, ∀ j < nReduce, _ → _))

theorem Separate.unshared (h : Separate files nReduce) : Unshared files nReduce :=
  fun _ _ i hi j hj hf => absurd rfl (h _ (List.mem_of_getElem? hf) i hi j hj)

theorem lt_of_assignment {reply : GetTaskReply}
    (h : assignment files nReduce .map i = some reply) : i < files.length := by
  obtain ⟨f, hf, -⟩ := Option.map_eq_some_iff.mp h
  exact (List.getElem?_eq_some_iff.mp hf).1

namespace Attempt

def Live (a : Attempt) : Prop := a.phase ≠ .dead

def At (a : Attempt) (ty : TaskType) (i : Nat) : Prop := a.reply.taskType = some ty ∧ a.reply.id = i

instance : Decidable a.Live := inferInstanceAs (Decidable (_ ≠ _))

instance : Decidable (a.At ty i) := inferInstanceAs (Decidable (_ ∧ _))

theorem at_of_assignment (h : assignment files nReduce ty i = some a.reply) : a.At ty i := by
  cases ty with
  | map =>
    obtain ⟨f, -, hreply⟩ := Option.map_eq_some_iff.mp h
    rw [At, ← hreply]
    exact ⟨rfl, rfl⟩
  | reduce =>
    obtain ⟨-, hreply⟩ := Option.ite_none_right_eq_some.mp h
    rw [At, ← Option.some.inj hreply]
    exact ⟨rfl, rfl⟩

theorem At.inj {ty' : TaskType} {i' : Nat} (h : a.At ty i) (h' : a.At ty' i') :
    ty = ty' ∧ i = i' :=
  ⟨Option.some.inj (h.1.symm.trans h'.1), h.2.symm.trans h'.2⟩

end Attempt

namespace Pool

/-- A worker that is alive works on a task of the job that is not settled, and on a
reduce task only when all map tasks are settled. -/
structure Working (app : App) (std : Stdlib) (fs₀ : Files) (files : List Bytes) (nReduce : Nat)
    (settled : TaskType → Nat → Prop) (fs : Files) (a : Attempt) (ty : TaskType) (i : Nat) :
    Prop where
  assigned : assignment files nReduce ty i = some a.reply
  unsettled : ¬ settled ty i
  maps : ty = .reduce → ∀ m < files.length, settled .map m
  progress : Progress app std fs₀ files nReduce fs ty i a.phase

structure Ok (app : App) (std : Stdlib) (fs₀ : Files) (files : List Bytes) (nReduce : Nat)
    (settled : TaskType → Nat → Prop) (p : Pool) : Prop where
  working : ∀ (k : Nat) (a : Attempt), p.attempts[k]? = some a → a.Live →
    ∃ ty i, Working app std fs₀ files nReduce settled p.fs a ty i
  alone : ∀ (k : Nat) (a : Attempt) (k' : Nat) (b : Attempt), p.attempts[k]? = some a →
    p.attempts[k']? = some b → a.Live → b.Live → ∀ ty i, a.At ty i → b.At ty i → k = k'
  complete : ∀ ty i, settled ty i → Complete app std fs₀ files nReduce p.fs ty i

theorem getElem?_start {reply : GetTaskReply} (h : (p.start reply).attempts[k]? = some a) :
    p.attempts[k]? = some a ∨ k = p.attempts.length ∧ a = .start reply :=
  Position.of_concat h

theorem getElem?_setPhase {phase : Phase} {k' : Nat}
    (h : (p.setPhase k phase).attempts[k']? = some a) :
    ∃ b, p.attempts[k']? = some b ∧ (k' = k ∧ a = { b with phase } ∨ k' ≠ k ∧ a = b) := by
  rw [Pool.setPhase, List.getElem?_modify] at h
  obtain ⟨b, hb, rfl⟩ := Option.map_eq_some_iff.mp h
  refine ⟨b, hb, ?_⟩
  by_cases hk : k = k'
  · exact .inl ⟨hk.symm, by simp [hk]⟩
  · exact .inr ⟨Ne.symm hk, by simp [hk]⟩

@[simp] theorem map_reply_setPhase (p : Pool) (k : Nat) (phase : Phase) :
    (p.setPhase k phase).attempts.map Attempt.reply = p.attempts.map Attempt.reply := by
  apply List.ext_getElem?
  intro j
  rw [Pool.setPhase, List.getElem?_map, List.getElem?_map, List.getElem?_modify]
  cases p.attempts[j]? with
  | none => rfl
  | some a => by_cases hkj : k = j <;> simp [hkj]

theorem fileOp_of_getElem? (ha : p.attempts[k]? = some a) (n : Nat) :
    p.fileOp app std k n = { p.setPhase k (a.fileOp app std n p.fs).2 with
      fs := (a.fileOp app std n p.fs).1 } := by
  rw [Pool.fileOp, ha]

@[simp] theorem map_reply_fileOp (p : Pool) (k n : Nat) :
    (p.fileOp app std k n).attempts.map Attempt.reply = p.attempts.map Attempt.reply := by
  cases ha : p.attempts[k]? with
  | none => rw [Pool.fileOp, ha]
  | some a =>
    rw [fileOp_of_getElem? ha]
    exact map_reply_setPhase p k _

namespace Ok

theorem init (fs : Files) : Ok app std fs files nReduce (fun _ _ => False) ⟨fs, []⟩ where
  working _ _ ha := by simp at ha
  alone _ _ _ _ ha := by simp at ha
  complete _ _ hs := hs.elim

theorem congr (h : Ok app std fs₀ files nReduce settled p)
    (hsettled : ∀ ty i, settled' ty i ↔ settled ty i) :
    Ok app std fs₀ files nReduce settled' p := by
  have : settled' = settled := funext fun ty => funext fun i => propext (hsettled ty i)
  exact this ▸ h

theorem update (h : Ok app std fs₀ files nReduce settled p) {phase : Phase} {fs : Files}
    (hself : ∀ a, p.attempts[k]? = some a → phase ≠ .dead → a.Live ∧
      ∃ ty i, Working app std fs₀ files nReduce settled' fs { a with phase } ty i)
    (hothers : ∀ k' ≠ k, ∀ a, p.attempts[k']? = some a → a.Live → ∀ ty i,
      Working app std fs₀ files nReduce settled p.fs a ty i →
        Working app std fs₀ files nReduce settled' fs a ty i)
    (hcomplete : ∀ ty i, settled' ty i → Complete app std fs₀ files nReduce fs ty i) :
    Ok app std fs₀ files nReduce settled' { p.setPhase k phase with fs } := by
  refine ⟨fun k' a ha hlive => ?_, fun k₁ a k₂ b ha hb hla hlb ty i hta htb => ?_, hcomplete⟩
  · obtain ⟨b, hb, ⟨rfl, rfl⟩ | ⟨hk, rfl⟩⟩ := getElem?_setPhase ha
    · exact (hself b hb hlive).2
    · obtain ⟨ty, i, hw⟩ := h.working k' a hb hlive
      exact ⟨ty, i, hothers k' hk a hb hlive ty i hw⟩
  · -- a phase that is not `dead` is that of a worker who was alive
    have hback : ∀ {k' : Nat} {c : Attempt}, (p.setPhase k phase).attempts[k']? = some c →
        c.Live → c.At ty i → ∃ d : Attempt, p.attempts[k']? = some d ∧ d.Live ∧ d.At ty i := by
      intro k' c hc hlive hat
      obtain ⟨d, hd, ⟨rfl, rfl⟩ | ⟨-, rfl⟩⟩ := getElem?_setPhase hc
      · exact ⟨d, hd, (hself d hd hlive).1, hat⟩
      · exact ⟨c, hd, hlive, hat⟩
    obtain ⟨a', ha', hla', hta'⟩ := hback ha hla hta
    obtain ⟨b', hb', hlb', htb'⟩ := hback hb hlb htb
    exact h.alone k₁ a' k₂ b' ha' hb' hla' hlb' ty i hta' htb'

theorem start_idle (h : Ok app std fs₀ files nReduce settled p) {reply : GetTaskReply}
    (hreply : reply.taskType = none) : Ok app std fs₀ files nReduce settled (p.start reply) := by
  have hback : ∀ {k : Nat} {a : Attempt}, (p.start reply).attempts[k]? = some a → a.Live →
      p.attempts[k]? = some a := by
    intro k a ha hlive
    rcases getElem?_start ha with ha | ⟨-, rfl⟩
    · exact ha
    · exact absurd hlive (by simp [Attempt.Live, Attempt.start, hreply])
  refine ⟨fun k a ha hlive => h.working k a (hback ha hlive) hlive, ?_, h.complete⟩
  intro k a k' b ha hb hla hlb
  exact h.alone k a k' b (hback ha hla) (hback hb hlb) hla hlb

theorem start (h : Ok app std fs₀ files nReduce settled p) {reply : GetTaskReply}
    (hreply : assignment files nReduce ty i = some reply) (hsettled : ¬ settled ty i)
    (hmaps : ty = .reduce → ∀ m < files.length, settled .map m)
    (halone : ∀ a ∈ p.attempts, a.Live → ¬ a.At ty i)
    (hin : ty = .map → ∀ f, files[i]? = some f → p.fs f = fs₀ f) :
    Ok app std fs₀ files nReduce settled (p.start reply) := by
  have hat : (Attempt.start reply).At ty i := Attempt.at_of_assignment hreply
  have hnew : ∀ {k : Nat} {a : Attempt} {ty' i'}, p.attempts[k]? = some a → a.Live →
      a.At ty' i' → ¬ (Attempt.start reply).At ty' i' := by
    intro k a ty' i' ha hlive ha' hb'
    obtain ⟨rfl, rfl⟩ := hat.inj hb'
    exact halone a (List.mem_of_getElem? ha) hlive ha'
  refine ⟨fun k a ha hlive => ?_, fun k a k' b ha hb hla hlb ty' i' hta htb => ?_, h.complete⟩
  · rcases getElem?_start ha with ha | ⟨-, rfl⟩
    · exact h.working k a ha hlive
    · exact ⟨ty, i, hreply, hsettled, hmaps, .start hreply hin⟩
  · rcases getElem?_start ha with ha | ⟨rfl, rfl⟩ <;> rcases getElem?_start hb with hb | ⟨rfl, rfl⟩
    · exact h.alone k a k' b ha hb hla hlb ty' i' hta htb
    · exact absurd htb (hnew ha hla hta)
    · exact absurd hta (hnew hb hlb htb)
    · rfl

theorem kill (h : Ok app std fs₀ files nReduce settled p) (k : Nat) :
    Ok app std fs₀ files nReduce settled (p.setPhase k .dead) :=
  h.update (fun _ _ hdead => absurd rfl hdead) (fun _ _ _ _ _ _ _ hw => hw) h.complete

theorem settle (h : Ok app std fs₀ files nReduce settled p) (ha : p.attempts[k]? = some a)
    (hphase : a.phase = .finished) (hat : a.At ty i) :
    Ok app std fs₀ files nReduce (fun ty' i' => settled ty' i' ∨ ty' = ty ∧ i' = i)
      (p.setPhase k .dead) := by
  have hlive : a.Live := by simp [Attempt.Live, hphase]
  refine h.update (fun _ _ hdead => absurd rfl hdead) ?_ ?_
  · intro k' hk b hb hlb ty' i' hw
    refine ⟨hw.assigned, ?_, fun hty m hm => .inl (hw.maps hty m hm), hw.progress⟩
    rintro (hs | ⟨rfl, rfl⟩)
    · exact hw.unsettled hs
    · exact hk (h.alone k' b k a hb ha hlb hlive _ _ (Attempt.at_of_assignment hw.assigned) hat)
  · rintro ty' i' (hs | ⟨rfl, rfl⟩)
    · exact h.complete ty' i' hs
    · obtain ⟨ty', i', hw⟩ := h.working k a ha hlive
      obtain ⟨rfl, rfl⟩ := (Attempt.at_of_assignment hw.assigned).inj hat
      have hprogress := hw.progress
      rw [hphase] at hprogress
      cases hprogress with
      | finished hcomplete => exact hcomplete

theorem proceeds (h : Ok app std fs₀ files nReduce settled p)
    (hw : Working app std fs₀ files nReduce settled p.fs a ty i) (n : Nat) :
    Proceeds app std fs₀ files nReduce p.fs ty i (a.fileOp app std n p.fs) :=
  hw.progress.fileOp hw.assigned (fun hty m hm => h.complete .map m (hw.maps hty m hm)) n

theorem fileOp_fs (h : Ok app std fs₀ files nReduce settled p) (k n : Nat) {name : Bytes}
    (hname : ∀ a, p.attempts[k]? = some a → ∀ ty i,
      Working app std fs₀ files nReduce settled p.fs a ty i → ¬ Owns nReduce ty i name) :
    (p.fileOp app std k n).fs name = p.fs name := by
  cases ha : p.attempts[k]? with
  | none => rw [Pool.fileOp, ha]
  | some a =>
    rw [fileOp_of_getElem? ha]
    by_cases hlive : a.Live
    · obtain ⟨ty, i, hw⟩ := h.working k a ha hlive
      exact (h.proceeds hw n).2 name (hname a ha ty i hw)
    · have hdead : a.phase = .dead := not_not.mp hlive
      simp only [Attempt.fileOp, hdead]

theorem fileOp (hsep : Unshared files nReduce) (h : Ok app std fs₀ files nReduce settled p)
    (k n : Nat) : Ok app std fs₀ files nReduce settled (p.fileOp app std k n) := by
  cases ha : p.attempts[k]? with
  | none =>
    rw [Pool.fileOp, ha]
    exact h
  | some a =>
    rw [fileOp_of_getElem? ha]
    by_cases hlive : a.Live
    · obtain ⟨ty, i, hw⟩ := h.working k a ha hlive
      have hat := Attempt.at_of_assignment hw.assigned
      obtain ⟨hnext, hsame⟩ := h.proceeds hw n
      generalize a.fileOp app std n p.fs = next at hnext hsame ⊢
      refine h.update ?_ ?_ ?_
      · intro b hb hdead
        obtain rfl := Option.some.inj (ha.symm.trans hb)
        exact ⟨hlive, ty, i, hw.assigned, hw.unsettled, hw.maps, hnext.resolve_left hdead⟩
      · intro k' hk b hb hlb ty' i' hw'
        have hother : ¬ (ty = ty' ∧ i = i') := by
          rintro ⟨rfl, rfl⟩
          exact hk (h.alone k' b k a hb ha hlb hlive _ _ (Attempt.at_of_assignment hw'.assigned) hat)
        refine ⟨hw'.assigned, hw'.unsettled, hw'.maps, hw'.progress.frame ?_ ?_⟩
        · exact fun name hname => hsame name fun hown => hother (hown.inj hname)
        · -- while a map task is open only map workers are alive, and they write their own files
          rintro rfl f hf
          refine hsame f fun hown => ?_
          have hlt := lt_of_assignment hw'.assigned
          cases ty with
          | map =>
            obtain ⟨j, hj, rfl⟩ := hown
            exact hother ⟨rfl, hsep i' hlt i (lt_of_assignment hw.assigned) j hj hf⟩
          | reduce => exact hw'.unsettled (hw.maps rfl i' hlt)
      · intro ty' i' hs
        refine (h.complete ty' i' hs).frame fun name hname => hsame name fun hown => ?_
        obtain ⟨rfl, rfl⟩ := hown.inj hname
        exact hw.unsettled hs
    · have hdead : a.phase = .dead := not_not.mp hlive
      simp only [Attempt.fileOp, hdead]
      exact h.kill k

end Ok

end Pool

end MrAndRaft.MapReduce
