import MrAndRaft.Raft.Local

/-! The messages on `applyCh`.  Both apply loops start after `lastApplied`, so an
instance hands over every index once, in order, whatever its log and its commit index
do in between. -/

namespace MrAndRaft

variable {n : Nat} {Cmd : Type}

namespace Raft

variable {rf rf' : Raft Cmd}

inductive HandsOver (rf rf' : Raft Cmd) : Prop
  | intro (msgs : List (ApplyMsg Cmd)) : rf'.applyCh = rf.applyCh ++ msgs →
      rf.lastApplied ≤ rf'.lastApplied →
      Delivers rf'.log rf.lastApplied rf'.lastApplied msgs → HandsOver rf rf'

theorem handsOver_of_eq (hch : rf'.applyCh = rf.applyCh)
    (hlast : rf'.lastApplied = rf.lastApplied) : HandsOver rf rf' := by
  refine .intro [] (by simp [hch]) hlast.ge ⟨?_, by simp, by simp⟩
  simp [hlast]

theorem HandsOver.of_eq {rf₀ : Raft Cmd} (h : HandsOver rf rf')
    (hch : rf.applyCh = rf₀.applyCh) (hlast : rf.lastApplied = rf₀.lastApplied) :
    HandsOver rf₀ rf' := by
  obtain ⟨msgs, hmsgs, hle, hd⟩ := h
  rw [hch] at hmsgs
  rw [hlast] at hle hd
  exact .intro msgs hmsgs hle hd

theorem Committed.handsOver {index : Nat} (h : Committed rf index rf') : HandsOver rf rf' := by
  cases h with
  | intro msgs hd =>
    refine .intro msgs rfl (Nat.le_add_right _ _) ⟨?_, hd.valid, hd.command⟩
    rw [hd.indices]
    simp

theorem Followed.handsOver {leaderCommit : Nat} (h : Followed leaderCommit rf rf') :
    HandsOver rf rf' := by
  cases h with
  | unchanged => exact handsOver_of_eq rfl rfl
  | committed _ _ hc => exact hc.handsOver

theorem Scanned.handsOver {peers : Nat} (h : Scanned peers rf rf') : HandsOver rf rf' := by
  cases h with
  | unchanged => exact handsOver_of_eq rfl rfl
  | committed _ _ _ _ _ _ _ hc => exact hc.handsOver

def Streams (rf : Raft Cmd) : Prop :=
  rf.applyCh.map (·.commandIndex) = List.range' 1 rf.lastApplied

theorem Streams.handsOver (h : rf.Streams) (hs : HandsOver rf rf') : rf'.Streams := by
  obtain ⟨msgs, hmsgs, hle, hd⟩ := hs
  rw [Streams, hmsgs, List.map_append, h, hd.indices]
  rw [Nat.add_comm rf.lastApplied 1, List.range'_append_1, Nat.add_sub_cancel' hle]

theorem streams_make [Inhabited Cmd] (saved : Option (Persistent Cmd)) :
    (make saved).Streams := by
  cases saved <;> rfl

end Raft

variable {s s' : Cluster n Cmd} {p : Fin n} {e : Event n Cmd}

theorem PeerStep.handsOver {rf : Raft Cmd} (h : PeerStep s p e rf) :
    (s.peer p).HandsOver rf := by
  cases h with
  | same => exact Raft.handsOver_of_eq rfl rfl
  | candidate rf hrf =>
    subst hrf
    exact Raft.handsOver_of_eq rfl rfl
  | started _ _ h => cases h <;> exact Raft.handsOver_of_eq rfl rfl
  | voted _ _ _ _ _ _ h => cases h <;> exact Raft.handsOver_of_eq (by simp) (by simp)
  | counted _ _ _ _ _ _ _ _ h => cases h <;> exact Raft.handsOver_of_eq rfl rfl
  | appended _ _ _ _ _ _ _ h =>
    cases h with
    | stale | short | conflict => exact Raft.handsOver_of_eq (by simp) (by simp)
    | agree _ _ _ _ _ hf => exact hf.handsOver.of_eq (by simp) (by simp)
  | acknowledged _ _ _ _ _ _ _ h =>
    cases h with
    | ignored | deposed | backedOff => exact Raft.handsOver_of_eq rfl rfl
    | matched _ _ _ _ _ _ hs => exact hs.handsOver.of_eq rfl rfl
    | rejected _ _ _ _ hs => exact hs.handsOver

variable [Inhabited Cmd] {ok : Cluster n Cmd → Event n Cmd → Prop} {σ : List (Cluster n Cmd)}

theorem Run.streams (h : Run ok σ) : ∀ s ∈ σ, ∀ p, (s.peer p).Streams := by
  refine History.Run.forall_mem h (fun p => Raft.streams_make none) ?_
  intro s e s' ih hs p
  rcases (step_spec hs.2).peer_cases p with hp | ⟨-, heq⟩
  · exact (ih p).handsOver hp.handsOver
  · rw [heq]
    exact Raft.streams_make _

theorem apply_stream (h : Run ok σ) : ∀ s ∈ σ,
    (∀ p, (s.peer p).applyCh.map (·.commandIndex) =
      List.range' 1 (s.peer p).applyCh.length) ∧
    ∀ e s', s.step e = .ok s' → ∀ p,
      (e = .crash p ∧ (s'.peer p).applyCh = []) ∨
      ∃ msgs, (s'.peer p).applyCh = (s.peer p).applyCh ++ msgs ∧
        ∀ m ∈ msgs, m.commandValid = true ∧
          ∃ entry, (s'.peer p).log[m.commandIndex]? = some entry ∧ entry.command = m.command := by
  intro s hs
  refine ⟨fun p => ?_, fun e s' hstep p => ?_⟩
  · have hstream := h.streams s hs p
    have hlen := congrArg List.length hstream
    rw [List.length_map, List.length_range'] at hlen
    rw [hlen]
    exact hstream
  · rcases (step_spec hstep).peer_cases p with hp | ⟨rfl, heq⟩
    · obtain ⟨msgs, hmsgs, -, hd⟩ := hp.handsOver
      exact .inr ⟨msgs, hmsgs, fun m hm => ⟨hd.valid m hm, hd.command m hm⟩⟩
    · left
      refine ⟨rfl, ?_⟩
      rw [heq]
      cases s.saved p <;> rfl

/-- Peer 0 commits two commands and restarts with neither saved; peer 1 becomes leader,
commits a third one, and brings peer 0 up to date. -/
def restarted : List (Event 3 Nat) :=
  [.persist 0, .becomeCandidate 0, .persist 1, .requestVote 0, .receivedVote 0,
    .sendRequestVote 0, .persist 0, .start 0 7, .start 0 8, .sendHeartBeats 0, .appendEntries 2,
    .persist 1, .heartBeat 2, .sendAppendEntries 2, .crash 0, .persist 1, .becomeCandidate 1,
    .persist 2, .requestVote 3, .receivedVote 3, .sendRequestVote 3, .start 1 9, .persist 1,
    .sendHeartBeats 1, .appendEntries 6, .persist 0, .heartBeat 6, .sendAppendEntries 6,
    .appendEntries 7, .persist 2, .heartBeat 7, .sendAppendEntries 7, .persist 1,
    .sendHeartBeats 1, .appendEntries 9, .persist 2, .heartBeat 9, .sendAppendEntries 9,
    .persist 1, .sendHeartBeats 1, .appendEntries 10]

theorem apply_stream_restarted : ∃ (s : Cluster 3 Nat) (σ : List (Cluster 3 Nat)),
    Run (fun _ _ => True) (s :: σ) ∧
      (s.peer 0).applyCh = [⟨true, 7, 1⟩, ⟨true, 8, 2⟩, ⟨true, 9, 3⟩] ∧
      (s.peer 0).applyCh.map (·.commandIndex) = List.range' 1 (s.peer 0).applyCh.length := by
  obtain ⟨s, σ, hrun, hch⟩ := exists_run (fun _ _ => True)
    (fun s : Cluster 3 Nat =>
      (s.peer 0).applyCh = [⟨true, 7, 1⟩, ⟨true, 8, 2⟩, ⟨true, 9, 3⟩]) restarted
    (by decide +kernel)
  exact ⟨s, σ, hrun, hch, (apply_stream hrun s List.mem_cons_self).1 0⟩

end MrAndRaft
