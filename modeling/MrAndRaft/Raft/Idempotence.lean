import MrAndRaft.Raft.InRange

/-! A request that the network delivers twice in a row.  What the first delivery leaves
behind is a state in which the handler changes nothing and gives the same reply. -/

namespace MrAndRaft.Raft

variable {Cmd : Type} {rf rf' : Raft Cmd}

theorem observe_of_le {term : Nat} (h : term ≤ rf.currentTerm) : rf.observe term = rf :=
  if_neg (by omega)

theorem Committed.again {index : Nat} (h : Committed rf index rf') :
    rf'.commitTo index = some rf' := by
  cases h with
  | intro msgs _ =>
    have hdone : index - (rf.lastApplied + (index - rf.lastApplied)) = 0 := by omega
    simp [commitTo, applyCommitted, hdone, applyRounds]

theorem Followed.again {leaderCommit : Nat} (h : Followed leaderCommit rf rf') :
    rf'.followCommit leaderCommit = some rf' := by
  cases h with
  | unchanged hle => exact if_neg (by omega)
  | committed _ _ hc =>
    have hindex : (if rf'.log.length - 1 < leaderCommit then rf'.log.length - 1 else leaderCommit) =
        min leaderCommit (rf.log.length - 1) := by
      rw [hc.frame.log]
      split <;> omega
    unfold followCommit
    split
    · rw [hindex]
      exact hc.again
    · rfl

theorem Appended.again {args : AppendEntriesArgs Cmd} {reply : AppendEntriesReply}
    (h : Appended args rf rf' reply) : rf'.appendEntries args = some (rf', reply) := by
  cases h with
  | stale hlt => exact appendEntries_of_stale hlt
  | short hle hshort =>
    have hterm := observe_term_of_le hle
    rw [appendEntries_of_short hterm.le (by rwa [observe_log]), observe_of_le hterm.ge]
  | conflict prev hle hprev hne =>
    -- the log has been cut at `prevLogIndex`, so now it is too short
    have hterm : ((rf.observe args.term).setLog (rf.log.take args.prevLogIndex)).currentTerm =
        args.term := observe_term_of_le hle
    rw [appendEntries_of_short hterm.le (List.length_take_le ..), observe_of_le hterm.ge]
  | agree prev rf' hle hprev heq hf =>
    have hterm : rf'.currentTerm = args.term :=
      hf.frame.currentTerm.trans (observe_term_of_le hle)
    have hlog : rf'.log = rf.log.take (args.prevLogIndex + 1) ++ args.entries := hf.frame.log
    have hlt := (List.getElem?_eq_some_iff.mp hprev).1
    have hlen : (rf.log.take (args.prevLogIndex + 1)).length = args.prevLogIndex + 1 := by
      rw [List.length_take]
      omega
    have hprev' : rf'.log[args.prevLogIndex]? = some prev := by
      rw [hlog, List.getElem?_append_left (by omega), List.getElem?_take, if_pos (by omega)]
      exact hprev
    have hsame : (rf'.observe args.term).setLog
        (rf'.log.take (args.prevLogIndex + 1) ++ args.entries) = rf' := by
      rw [observe_of_le hterm.ge, hlog, List.take_left' hlen, ← hlog]
      rfl
    rw [appendEntries_of_agree hterm.le hprev' heq, hsame, hf.again]
    rfl

theorem requestVote_of_le {args : RequestVoteArgs} {last : LogEntry Cmd}
    (hle : rf.currentTerm ≤ args.term) (hlast : rf.log[rf.log.length - 1]? = some last) :
    rf.requestVote args = some
      (if ((rf.observe args.term).votedFor = none ∨
            (rf.observe args.term).votedFor = some args.candidateId) ∧
          upToDate args (rf.log.length - 1) last.term
        then ((rf.observe args.term).setVote args.candidateId, ⟨0, true⟩)
        else (rf.observe args.term, ⟨0, false⟩)) := by
  rw [requestVote, if_neg (by omega)]
  simp only [observe_log, hlast, Option.bind_eq_bind, Option.bind_some]
  split
  · simp [setVote]
  · rfl

theorem requestVote_again {args : RequestVoteArgs} {reply : RequestVoteReply}
    (h : rf.requestVote args = some (rf', reply)) (hlog : rf.log ≠ []) :
    rf'.requestVote args = some (rf', reply) := by
  obtain ⟨last, hlast⟩ := last_isSome hlog
  by_cases hlt : args.term < rf.currentTerm
  · rw [requestVote, if_pos hlt] at h
    cases h
    exact if_pos hlt
  · have hle : rf.currentTerm ≤ args.term := by omega
    have hterm := observe_term_of_le hle
    rw [requestVote_of_le hle hlast] at h
    split at h
    · -- the vote now is for this candidate
      rename_i hgrant
      cases h
      have hterm' : ((rf.observe args.term).setVote args.candidateId).currentTerm = args.term :=
        hterm
      rw [requestVote_of_le hterm'.le (by simpa using hlast), observe_of_le hterm'.ge]
      simp [hgrant.2, setVote]
    · rename_i hrefuse
      cases h
      rw [requestVote_of_le hterm.le (by simpa using hlast), observe_of_le hterm.ge, observe_log,
        if_neg hrefuse]

/-- Delivering a request a second time gives the same reply and changes nothing; since
`applyCh` is part of the state, nothing is sent on it either. -/
theorem handlers_idempotent (rf : Raft Cmd) (hlog : rf.log ≠ []) :
    (∀ args : AppendEntriesArgs Cmd, ∃ rf' reply, rf.appendEntries args = some (rf', reply) ∧
      rf'.appendEntries args = some (rf', reply)) ∧
    ∀ args : RequestVoteArgs, ∃ rf' reply, rf.requestVote args = some (rf', reply) ∧
      rf'.requestVote args = some (rf', reply) := by
  constructor
  · intro args
    obtain ⟨⟨rf', reply⟩, h⟩ := Option.isSome_iff_exists.mp (rf.appendEntries_isSome args)
    exact ⟨rf', reply, h, (appendEntries_spec h).again⟩
  · intro args
    obtain ⟨⟨rf', reply⟩, h⟩ := Option.isSome_iff_exists.mp (requestVote_isSome args hlog)
    exact ⟨rf', reply, h, requestVote_again h hlog⟩

def voter : Raft Nat :=
  { (make none : Raft Nat) with
    currentTerm := 2, votedFor := some 1, log := [⟨0, 0⟩, ⟨1, 7⟩, ⟨2, 8⟩]
    commitIndex := 1, lastApplied := 1, applyCh := [⟨true, 7, 1⟩] }

theorem handlers_idempotent_voter :
    (∀ args : AppendEntriesArgs Nat, ∃ rf' reply, voter.appendEntries args = some (rf', reply) ∧
      rf'.appendEntries args = some (rf', reply)) ∧
    ∀ args : RequestVoteArgs, ∃ rf' reply, voter.requestVote args = some (rf', reply) ∧
      rf'.requestVote args = some (rf', reply) :=
  handlers_idempotent voter (by decide)

end MrAndRaft.Raft
