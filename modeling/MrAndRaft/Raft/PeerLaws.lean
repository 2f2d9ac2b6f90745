import MrAndRaft.Raft.Peer

/-! What each piece of code run under `rf.mu` can do, one law a function. -/

namespace MrAndRaft.Raft

variable {Cmd : Type} {rf rf' : Raft Cmd}

@[simp] theorem stepDown_log (term : Nat) : (rf.stepDown term).log = rf.log := rfl
@[simp] theorem stepDown_currentTerm (term : Nat) : (rf.stepDown term).currentTerm = term := rfl
@[simp] theorem stepDown_votedFor (term : Nat) : (rf.stepDown term).votedFor = none := rfl
@[simp] theorem stepDown_state (term : Nat) : (rf.stepDown term).state = .follower := rfl

@[simp] theorem observe_log (term : Nat) : (rf.observe term).log = rf.log := by
  unfold observe; split <;> rfl

@[simp] theorem observe_commitIndex (term : Nat) :
    (rf.observe term).commitIndex = rf.commitIndex := by
  unfold observe; split <;> rfl

@[simp] theorem observe_lastApplied (term : Nat) :
    (rf.observe term).lastApplied = rf.lastApplied := by
  unfold observe; split <;> rfl

@[simp] theorem observe_applyCh (term : Nat) : (rf.observe term).applyCh = rf.applyCh := by
  unfold observe; split <;> rfl

@[simp] theorem observe_nextIndex (term : Nat) : (rf.observe term).nextIndex = rf.nextIndex := by
  unfold observe; split <;> rfl

@[simp] theorem observe_matchIndex (term : Nat) :
    (rf.observe term).matchIndex = rf.matchIndex := by
  unfold observe; split <;> rfl

@[simp] theorem observe_currentTerm (term : Nat) :
    (rf.observe term).currentTerm = max rf.currentTerm term := by
  unfold observe
  split
  · simp only [stepDown_currentTerm]; omega
  · omega

theorem currentTerm_le_observe (rf : Raft Cmd) (term : Nat) :
    rf.currentTerm ≤ (rf.observe term).currentTerm := by
  rw [observe_currentTerm]; omega

theorem observe_term_of_le {term : Nat} (h : rf.currentTerm ≤ term) :
    (rf.observe term).currentTerm = term := by
  rw [observe_currentTerm]; omega

theorem observe_of_state_ne {term : Nat} (h : (rf.observe term).state ≠ .follower) :
    rf.observe term = rf := by
  unfold observe at h ⊢
  split at h
  · exact absurd rfl h
  · rw [if_neg ‹_›]

@[simps] def setLog (rf : Raft Cmd) (log : List (LogEntry Cmd)) : Raft Cmd := { rf with log }

@[simps] def setVote (rf : Raft Cmd) (candidate : Nat) : Raft Cmd :=
  { rf with votedFor := some candidate }

theorem setAt_eq_some {xs ys : List Nat} {i v : Nat} (h : setAt xs i v = some ys) :
    i < xs.length ∧ ys = xs.set i v := by
  unfold setAt at h
  split at h
  · exact ⟨‹_›, (Option.some.inj h).symm⟩
  · cases h

theorem mem_others {peers : Nat} {me q : Fin peers} : q ∈ others me ↔ q ≠ me := by
  simp [others]

theorem others_nodup {peers : Nat} (me : Fin peers) : (others me).Nodup :=
  (List.nodup_finRange peers).filter _

inductive Started (me : Nat) (command : Cmd) (rf : Raft Cmd) : Raft Cmd → Prop
  | refused : rf.state ≠ .leader → Started me command rf rf
  | appended : rf.state = .leader → me < rf.matchIndex.length → me < rf.nextIndex.length →
      Started me command rf
        { rf with
          log := rf.log ++ [⟨rf.currentTerm, command⟩]
          matchIndex := rf.matchIndex.set me rf.log.length
          nextIndex := rf.nextIndex.set me (rf.log.length + 1) }

theorem start_spec {me : Nat} {command : Cmd} {r : Int × Nat × Bool}
    (h : rf.start me command = some (rf', r)) : Started me command rf rf' := by
  unfold start at h
  split at h
  · cases h
    exact .refused ‹_›
  · rename_i hl
    simp only [Option.bind_eq_bind, Option.bind_eq_some_iff, pure, Option.some.injEq,
      Prod.mk.injEq] at h
    obtain ⟨ms, hms, ns, hns, rfl, -⟩ := h
    obtain ⟨hm, rfl⟩ := setAt_eq_some hms
    obtain ⟨hn, rfl⟩ := setAt_eq_some hns
    simpa using Started.appended (not_not.mp hl) hm hn

theorem becomeCandidate_spec {me : Nat} {args : RequestVoteArgs}
    (h : rf.becomeCandidate me = some (rf', args)) :
    ∃ last, rf.log[rf.log.length - 1]? = some last ∧
      args = ⟨rf.currentTerm + 1, me, rf.log.length - 1, last.term⟩ ∧
      rf' = { rf with
        state := .candidate, currentTerm := rf.currentTerm + 1,
        votedFor := some me, votes := 1 } := by
  unfold becomeCandidate at h
  simp only [Option.bind_eq_bind, Option.bind_eq_some_iff, pure, Option.some.injEq,
    Prod.mk.injEq] at h
  obtain ⟨last, hlast, rfl, rfl⟩ := h
  exact ⟨last, hlast, rfl, rfl⟩

theorem upToDate_cases {args : RequestVoteArgs} {lastIndex lastTerm : Nat}
    (h : upToDate args lastIndex lastTerm) :
    args.lastLogTerm = lastTerm ∧ lastIndex ≤ args.lastLogIndex ∨ lastTerm < args.lastLogTerm := by
  unfold upToDate at h
  split at h
  · exact .inl ⟨‹_›, of_decide_eq_true h⟩
  · exact .inr (of_decide_eq_true h)

inductive Voted (args : RequestVoteArgs) (rf : Raft Cmd) : Raft Cmd → RequestVoteReply → Prop
  | stale : args.term < rf.currentTerm → Voted args rf rf ⟨rf.currentTerm, false⟩
  | refused : rf.currentTerm ≤ args.term → Voted args rf (rf.observe args.term) ⟨0, false⟩
  | granted (last : LogEntry Cmd) : rf.currentTerm ≤ args.term →
      rf.log[rf.log.length - 1]? = some last → upToDate args (rf.log.length - 1) last.term →
      ((rf.observe args.term).votedFor = none ∨
        (rf.observe args.term).votedFor = some args.candidateId) →
      Voted args rf ((rf.observe args.term).setVote args.candidateId) ⟨0, true⟩

theorem requestVote_spec {args : RequestVoteArgs} {reply : RequestVoteReply}
    (h : rf.requestVote args = some (rf', reply)) : Voted args rf rf' reply := by
  unfold requestVote at h
  split at h
  · cases h
    exact .stale ‹_›
  · rename_i hge
    simp only [Option.bind_eq_bind, Option.bind_eq_some_iff] at h
    obtain ⟨last, hlast, h⟩ := h
    rw [observe_log] at hlast
    split at h
    · rename_i hv
      cases h
      exact .granted last (by omega) hlast (by simpa using hv.2) hv.1
    · cases h
      exact .refused (by omega)

inductive Counted (peers : Nat) (reply : RequestVoteReply) (rf : Raft Cmd) :
    Raft Cmd → Option (AppendEntriesArgs Cmd) → Prop
  | deposed : rf.currentTerm < reply.term → Counted peers reply rf (rf.stepDown reply.term) none
  | refused : reply.term ≤ rf.currentTerm → reply.voteGranted = false →
      Counted peers reply rf rf none
  | counted : reply.term ≤ rf.currentTerm → reply.voteGranted = true →
      Counted peers reply rf { rf with votes := rf.votes + 1 } none
  | elected : reply.term ≤ rf.currentTerm → reply.voteGranted = true →
      peers / 2 < rf.votes + 1 → rf.state = .candidate →
      Counted peers reply rf
        { rf with
          votes := rf.votes + 1
          state := .leader
          nextIndex := List.replicate peers rf.log.length
          matchIndex := List.replicate peers 0 } (some {})

theorem sendRequestVote_spec {peers : Nat} {reply : RequestVoteReply}
    {out : Option (AppendEntriesArgs Cmd)} (h : rf.sendRequestVote peers reply = (rf', out)) :
    Counted peers reply rf rf' out := by
  unfold sendRequestVote at h
  split at h
  · cases h
    exact .deposed ‹_›
  · rename_i hle
    split at h
    · rename_i hg
      simp only at h
      split at h
      · rename_i hw
        cases h
        exact .elected (by omega) hg hw.1 hw.2
      · cases h
        exact .counted (by omega) hg
    · rename_i hg
      cases h
      exact .refused (by omega) (by simpa using hg)

structure Delivers (log : List (LogEntry Cmd)) (lo hi : Nat) (msgs : List (ApplyMsg Cmd)) :
    Prop where
  indices : msgs.map ApplyMsg.commandIndex = List.range' (lo + 1) (hi - lo)
  valid : ∀ m ∈ msgs, m.commandValid = true
  command : ∀ m ∈ msgs, ∃ e, log[m.commandIndex]? = some e ∧ e.command = m.command

theorem Delivers.range {log : List (LogEntry Cmd)} {lo hi : Nat} {msgs : List (ApplyMsg Cmd)}
    (h : Delivers log lo hi msgs) {m : ApplyMsg Cmd} (hm : m ∈ msgs) :
    lo < m.commandIndex ∧ m.commandIndex ≤ hi := by
  have hmem : m.commandIndex ∈ List.range' (lo + 1) (hi - lo) :=
    h.indices ▸ List.mem_map_of_mem hm
  have := List.mem_range'_1.mp hmem
  omega

theorem applyRounds_spec {k : Nat} (h : rf.applyRounds k = some rf') :
    ∃ msgs, Delivers rf.log rf.lastApplied (rf.lastApplied + k) msgs ∧
      rf' = { rf with applyCh := rf.applyCh ++ msgs, lastApplied := rf.lastApplied + k } := by
  induction k generalizing rf with
  | zero =>
    cases h
    exact ⟨[], ⟨by simp, by simp, by simp⟩, by simp⟩
  | succ k ih =>
    simp only [applyRounds, Option.bind_eq_bind, Option.bind_eq_some_iff] at h
    obtain ⟨e, he, h⟩ := h
    obtain ⟨msgs, hd, rfl⟩ := ih h
    refine ⟨⟨true, e.command, rf.lastApplied + 1⟩ :: msgs, ⟨?_, ?_, ?_⟩, ?_⟩
    · have := hd.indices
      simp only [Nat.add_sub_cancel_left] at this ⊢
      simp [this, List.range'_succ]
    · simpa using hd.valid
    · simpa [he] using hd.command
    · simp only [List.append_assoc, List.singleton_append, Raft.mk.injEq, and_true, true_and]
      omega

/-- `rf'` differs from `rf` in `commitIndex`, `lastApplied` and `applyCh` at most. -/
structure CommitFrame (rf rf' : Raft Cmd) : Prop where
  currentTerm : rf'.currentTerm = rf.currentTerm
  votedFor : rf'.votedFor = rf.votedFor
  state : rf'.state = rf.state
  votes : rf'.votes = rf.votes
  log : rf'.log = rf.log
  nextIndex : rf'.nextIndex = rf.nextIndex
  matchIndex : rf'.matchIndex = rf.matchIndex

theorem CommitFrame.refl (rf : Raft Cmd) : CommitFrame rf rf := ⟨rfl, rfl, rfl, rfl, rfl, rfl, rfl⟩

inductive Committed (rf : Raft Cmd) (index : Nat) : Raft Cmd → Prop
  | intro (msgs : List (ApplyMsg Cmd)) : Delivers rf.log rf.lastApplied index msgs →
      Committed rf index
        { rf with
          commitIndex := index
          applyCh := rf.applyCh ++ msgs
          lastApplied := rf.lastApplied + (index - rf.lastApplied) }

theorem Committed.frame {index : Nat} (h : Committed rf index rf') : CommitFrame rf rf' := by
  cases h
  exact ⟨rfl, rfl, rfl, rfl, rfl, rfl, rfl⟩

theorem commitTo_spec {index : Nat} (h : rf.commitTo index = some rf') :
    Committed rf index rf' := by
  obtain ⟨msgs, hd, rfl⟩ := applyRounds_spec h
  refine .intro msgs ⟨?_, hd.valid, hd.command⟩
  have := hd.indices
  simpa using this

inductive Followed (leaderCommit : Nat) (rf : Raft Cmd) : Raft Cmd → Prop
  | unchanged : leaderCommit ≤ rf.commitIndex → Followed leaderCommit rf rf
  | committed (rf' : Raft Cmd) : rf.commitIndex < leaderCommit →
      Committed rf (min leaderCommit (rf.log.length - 1)) rf' → Followed leaderCommit rf rf'

theorem Followed.frame {leaderCommit : Nat} (h : Followed leaderCommit rf rf') :
    CommitFrame rf rf' := by
  cases h with
  | unchanged => exact .refl rf
  | committed _ _ hc => exact hc.frame

theorem followCommit_spec {leaderCommit : Nat} (h : rf.followCommit leaderCommit = some rf') :
    Followed leaderCommit rf rf' := by
  unfold followCommit at h
  split at h
  · refine .committed rf' ‹_› ?_
    convert commitTo_spec h using 1
    split <;> omega
  · cases h
    exact .unchanged (by omega)

inductive Appended (args : AppendEntriesArgs Cmd) (rf : Raft Cmd) :
    Raft Cmd → AppendEntriesReply → Prop
  | stale : args.term < rf.currentTerm → Appended args rf rf ⟨rf.currentTerm, false⟩
  | short : rf.currentTerm ≤ args.term → rf.log.length ≤ args.prevLogIndex →
      Appended args rf (rf.observe args.term) ⟨args.term, false⟩
  | conflict (prev : LogEntry Cmd) : rf.currentTerm ≤ args.term →
      rf.log[args.prevLogIndex]? = some prev → args.prevLogTerm ≠ prev.term →
      Appended args rf ((rf.observe args.term).setLog (rf.log.take args.prevLogIndex))
        ⟨args.term, false⟩
  | agree (prev : LogEntry Cmd) (rf' : Raft Cmd) : rf.currentTerm ≤ args.term →
      rf.log[args.prevLogIndex]? = some prev → args.prevLogTerm = prev.term →
      Followed args.leaderCommit
        ((rf.observe args.term).setLog (rf.log.take (args.prevLogIndex + 1) ++ args.entries))
        rf' →
      Appended args rf rf' ⟨args.term, true⟩

theorem Appended.of_success {args : AppendEntriesArgs Cmd} {reply : AppendEntriesReply}
    (h : Appended args rf rf' reply) (hsucc : reply.success = true) :
    rf'.currentTerm = args.term ∧
      rf'.log = rf.log.take (args.prevLogIndex + 1) ++ args.entries ∧
      ∃ prev, rf.log[args.prevLogIndex]? = some prev ∧ args.prevLogTerm = prev.term := by
  cases h with
  | stale | short | conflict => cases hsucc
  | agree prev rf' hle hprev hterm hf =>
    exact ⟨hf.frame.currentTerm.trans (observe_term_of_le hle), hf.frame.log, prev, hprev, hterm⟩

theorem appendEntries_spec {args : AppendEntriesArgs Cmd} {reply : AppendEntriesReply}
    (h : rf.appendEntries args = some (rf', reply)) : Appended args rf rf' reply := by
  unfold appendEntries at h
  split at h
  · cases h
    exact .stale ‹_›
  · rename_i hge
    have hle : rf.currentTerm ≤ args.term := by omega
    have hterm := observe_term_of_le hle
    dsimp only at h
    rw [hterm, observe_log] at h
    split at h
    · cases h
      exact .short hle ‹_›
    · simp only [Option.bind_eq_bind, Option.bind_eq_some_iff] at h
      obtain ⟨prev, hprev, h⟩ := h
      split at h
      · rename_i hne
        cases h
        convert Appended.conflict prev hle hprev hne using 1
        rw [setLog, hterm]
      · rename_i heq
        obtain ⟨rf₂, h₂, h⟩ := Option.map_eq_some_iff.mp h
        obtain ⟨rfl, rfl⟩ := Prod.mk.inj h
        refine .agree prev rf₂ hle hprev (not_not.mp heq) (followCommit_spec ?_)
        rw [← h₂, setLog, hterm]

/-! The other way round: what the handler does for a request of no smaller term. -/

theorem appendEntries_of_stale {args : AppendEntriesArgs Cmd} (h : args.term < rf.currentTerm) :
    rf.appendEntries args = some (rf, ⟨rf.currentTerm, false⟩) := if_pos h

theorem appendEntries_of_short {args : AppendEntriesArgs Cmd} (hle : rf.currentTerm ≤ args.term)
    (h : rf.log.length ≤ args.prevLogIndex) :
    rf.appendEntries args = some (rf.observe args.term, ⟨args.term, false⟩) := by
  rw [appendEntries, if_neg (by omega)]
  simp [h, Nat.max_eq_right hle]

theorem appendEntries_of_agree {args : AppendEntriesArgs Cmd} {prev : LogEntry Cmd}
    (hle : rf.currentTerm ≤ args.term) (hprev : rf.log[args.prevLogIndex]? = some prev)
    (h : args.prevLogTerm = prev.term) :
    rf.appendEntries args =
      (((rf.observe args.term).setLog
        (rf.log.take (args.prevLogIndex + 1) ++ args.entries)).followCommit args.leaderCommit).map
        (·, ⟨args.term, true⟩) := by
  have hlt := (List.getElem?_eq_some_iff.mp hprev).1
  rw [appendEntries, if_neg (by omega)]
  simp [hprev, h, setLog, Nat.max_eq_right hle, Nat.not_le.mpr hlt]

inductive Scanned (peers : Nat) (rf : Raft Cmd) : Raft Cmd → Prop
  | unchanged : Scanned peers rf rf
  | committed (N : Nat) (e : LogEntry Cmd) (rf' : Raft Cmd) : rf.commitIndex ≤ N →
      rf.log[N]? = some e → e.term = rf.currentTerm → peers / 2 < rf.matchCount N →
      Committed rf N rf' → Scanned peers rf rf'

theorem Scanned.frame {peers : Nat} (h : Scanned peers rf rf') : CommitFrame rf rf' := by
  cases h with
  | unchanged => exact .refl rf
  | committed _ _ _ _ _ _ _ hc => exact hc.frame

theorem commitScan_spec {peers k : Nat} (h : rf.commitScan peers k = some rf') :
    Scanned peers rf rf' := by
  induction k with
  | zero =>
    cases h
    exact .unchanged
  | succ N ih =>
    rw [commitScan] at h
    split at h
    · cases h
      exact .unchanged
    · rename_i hN
      simp only [Option.bind_eq_bind, Option.bind_eq_some_iff] at h
      obtain ⟨e, he, h⟩ := h
      by_cases ht : e.term = rf.currentTerm
      · rw [if_pos ht] at h
        split at h
        · rename_i hc
          exact .committed N e rf' (by omega) he ht hc.1 (commitTo_spec h)
        · exact ih h
      · rw [if_neg ht, if_neg (by simp)] at h
        exact ih h

inductive Acknowledged (peers server : Nat) (args : AppendEntriesArgs Cmd)
    (reply : AppendEntriesReply) (rf : Raft Cmd) : Raft Cmd → Prop
  | ignored : rf.state ≠ .leader → Acknowledged peers server args reply rf rf
  | deposed : rf.state = .leader → rf.currentTerm < reply.term →
      Acknowledged peers server args reply rf (rf.stepDown reply.term)
  | matched (rf' : Raft Cmd) : rf.state = .leader → reply.term ≤ rf.currentTerm →
      reply.success = true → server < rf.matchIndex.length → server < rf.nextIndex.length →
      Scanned peers
        { rf with
          matchIndex := rf.matchIndex.set server (args.entries.length + args.prevLogIndex)
          nextIndex := rf.nextIndex.set server (args.entries.length + args.prevLogIndex + 1) } rf' →
      Acknowledged peers server args reply rf rf'
  | backedOff (next : Nat) : rf.state = .leader → reply.term ≤ rf.currentTerm →
      reply.success = false → rf.nextIndex[server]? = some next → 1 < next →
      Acknowledged peers server args reply rf
        { rf with nextIndex := rf.nextIndex.set server (next / 2) }
  | rejected (rf' : Raft Cmd) : rf.state = .leader → reply.term ≤ rf.currentTerm →
      reply.success = false → Scanned peers rf rf' → Acknowledged peers server args reply rf rf'

theorem sendAppendEntries_spec {peers server : Nat} {args : AppendEntriesArgs Cmd}
    {reply : AppendEntriesReply} (h : rf.sendAppendEntries peers server args reply = some rf') :
    Acknowledged peers server args reply rf rf' := by
  unfold sendAppendEntries at h
  split at h
  · cases h
    exact .ignored ‹_›
  · rename_i hl
    have hlead := not_not.mp hl
    split at h
    · cases h
      exact .deposed hlead ‹_›
    · rename_i hterm
      split at h
      · rename_i hsucc
        simp only [Option.bind_eq_bind, Option.bind_eq_some_iff] at h
        obtain ⟨ms, hms, ns, hns, h⟩ := h
        obtain ⟨hm, rfl⟩ := setAt_eq_some hms
        obtain ⟨hn, rfl⟩ := setAt_eq_some hns
        exact .matched rf' hlead (by omega) hsucc hm hn (commitScan_spec h)
      · rename_i hsucc
        have hfail : reply.success = false := by simpa using hsucc
        simp only [Option.bind_eq_bind, Option.bind_eq_some_iff] at h
        obtain ⟨next, hnext, h⟩ := h
        split at h
        · simp only [Option.bind_eq_some_iff] at h
          obtain ⟨ns, hns, h⟩ := h
          obtain ⟨hn, rfl⟩ := setAt_eq_some hns
          cases h
          exact .backedOff next hlead (by omega) hfail hnext ‹_›
        · exact .rejected rf' hlead (by omega) hfail (commitScan_spec h)

structure HeartBeat (me peer : Nat) (rf : Raft Cmd) (args : AppendEntriesArgs Cmd) : Prop where
  term : args.term = rf.currentTerm
  leaderId : args.leaderId = me
  leaderCommit : args.leaderCommit = rf.commitIndex
  next : rf.nextIndex[peer]? = some (args.prevLogIndex + 1)
  suffix : args.prevLogIndex + 1 < rf.log.length →
    ∃ prev, rf.log[args.prevLogIndex]? = some prev ∧ args.prevLogTerm = prev.term ∧
      args.entries = rf.log.drop (args.prevLogIndex + 1)
  empty : rf.log.length ≤ args.prevLogIndex + 1 →
    ∃ last, rf.log[rf.log.length - 1]? = some last ∧ args.prevLogTerm = last.term ∧
      args.entries = []

theorem heartBeat_spec {me peer : Nat} {args : AppendEntriesArgs Cmd}
    (h : rf.heartBeat me peer = some args) : HeartBeat me peer rf args := by
  unfold heartBeat at h
  simp only [Option.bind_eq_bind, Option.bind_eq_some_iff] at h
  obtain ⟨next, hnext, h⟩ := h
  split at h
  · rename_i hlt
    cases next with
    | zero => simp at h
    | succ next =>
      simp only [Nat.add_one_ne_zero, if_false, Nat.add_sub_cancel,
        Option.bind_eq_some_iff] at h
      obtain ⟨prev, hprev, h⟩ := h
      cases h
      exact ⟨rfl, rfl, rfl, hnext, fun _ => ⟨prev, hprev, rfl, rfl⟩,
        fun (hle : rf.log.length ≤ next + 1) => by omega⟩
  · rename_i hlt
    simp only [Option.bind_eq_some_iff] at h
    obtain ⟨last, hlast, h⟩ := h
    cases next with
    | zero =>
      have hnil : rf.log = [] := List.length_eq_zero_iff.mp (by omega)
      simp [hnil] at hlast
    | succ next =>
      cases h
      exact ⟨rfl, rfl, rfl, hnext, fun (hlt : next + 1 < rf.log.length) => by omega,
        fun _ => ⟨last, hlast, rfl, rfl⟩⟩

theorem mapM_pair_eq_some {α β : Type} {f : α → Option β} {xs : List α} {ys : List (α × β)}
    (h : (xs.mapM fun x => (f x).map (Prod.mk x)) = some ys) :
    ys.map Prod.fst = xs ∧ ∀ y ∈ ys, f y.1 = some y.2 := by
  induction xs generalizing ys with
  | nil =>
    cases h
    simp
  | cons x xs ih =>
    simp only [List.mapM_cons, Option.bind_eq_bind, Option.bind_eq_some_iff,
      Option.map_eq_some_iff, pure, Option.some.injEq] at h
    obtain ⟨y, ⟨b, hb, rfl⟩, zs, hzs, rfl⟩ := h
    obtain ⟨h1, h2⟩ := ih hzs
    simpa [h1, hb] using h2

theorem sendHeartBeats_spec {peers : Nat} {me : Fin peers}
    {requests : List (Fin peers × AppendEntriesArgs Cmd)}
    (h : rf.sendHeartBeats me = some requests) :
    (rf.state ≠ .leader ∧ requests = []) ∨
      (rf.state = .leader ∧ requests.map Prod.fst = others me ∧
        ∀ r ∈ requests, HeartBeat me r.1 rf r.2) := by
  unfold sendHeartBeats at h
  split at h
  · cases h
    exact .inl ⟨‹_›, rfl⟩
  · rename_i hl
    obtain ⟨h1, h2⟩ := mapM_pair_eq_some h
    exact .inr ⟨not_not.mp hl, h1, fun r hr => heartBeat_spec (h2 r hr)⟩

end MrAndRaft.Raft
