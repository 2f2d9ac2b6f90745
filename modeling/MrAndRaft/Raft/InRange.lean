import MrAndRaft.Raft.ApplyStream

/-! Index expressions.  The entry at index 0 of every log has term 0 and is never cut
off, because a request with `PrevLogIndex` 0 has `PrevLogTerm` 0, and a leader has an
entry of at least 1 in `nextIndex` for every peer. -/

namespace MrAndRaft

variable {n : Nat} {Cmd : Type}

namespace Raft

variable {rf rf' : Raft Cmd}

theorem setAt_of_lt {xs : List Nat} {i : Nat} (v : Nat) (h : i < xs.length) :
    setAt xs i v = some (xs.set i v) := if_pos h

theorem last_isSome (h : rf.log ≠ []) : ∃ last, rf.log[rf.log.length - 1]? = some last := by
  have := List.length_pos_iff.mpr h
  exact ⟨_, List.getElem?_eq_getElem (by omega)⟩

theorem applyRounds_isSome {k : Nat} (h : k ≠ 0 → rf.lastApplied + k < rf.log.length) :
    (rf.applyRounds k).isSome := by
  induction k generalizing rf with
  | zero => rfl
  | succ k ih =>
    have hlt : rf.lastApplied + (k + 1) < rf.log.length := h (Nat.succ_ne_zero k)
    rw [applyRounds, List.getElem?_eq_getElem (by omega)]
    apply ih
    intro _
    simp only
    omega

theorem commitTo_isSome {index : Nat} (h : index < rf.log.length) : (rf.commitTo index).isSome := by
  apply applyRounds_isSome
  intro hk
  simp only at hk ⊢
  omega

theorem followCommit_isSome (leaderCommit : Nat) (h : rf.log ≠ []) :
    (rf.followCommit leaderCommit).isSome := by
  have := List.length_pos_iff.mpr h
  unfold followCommit
  split
  · apply commitTo_isSome
    split <;> omega
  · rfl

theorem commitScan_isSome (peers : Nat) {k : Nat} (h : k ≤ rf.log.length) :
    (rf.commitScan peers k).isSome := by
  induction k with
  | zero => rfl
  | succ N ih =>
    rw [commitScan, List.getElem?_eq_getElem h]
    split
    · rfl
    · simp only [Option.bind_eq_bind, Option.bind_some]
      generalize (if rf.log[N].term = rf.currentTerm then rf.matchCount N else 0) = count
      split
      · exact commitTo_isSome h
      · exact ih (by omega)

theorem becomeCandidate_isSome (me : Nat) (h : rf.log ≠ []) : (rf.becomeCandidate me).isSome := by
  obtain ⟨last, hlast⟩ := last_isSome h
  simp [becomeCandidate, hlast]

theorem requestVote_isSome (args : RequestVoteArgs) (h : rf.log ≠ []) :
    (rf.requestVote args).isSome := by
  obtain ⟨last, hlast⟩ := last_isSome h
  unfold requestVote
  split
  · rfl
  · simp only [observe_log, hlast, Option.bind_eq_bind, Option.bind_some]
    split <;> rfl

theorem appendEntries_isSome (args : AppendEntriesArgs Cmd) : (rf.appendEntries args).isSome := by
  unfold appendEntries
  split
  · rfl
  · simp only [observe_log]
    split
    · rfl
    · rename_i hlt
      rw [List.getElem?_eq_getElem (by omega)]
      simp only [Option.bind_eq_bind, Option.bind_some]
      split
      · rfl
      · rw [Option.isSome_map]
        apply followCommit_isSome
        have hne : rf.log ≠ [] := List.ne_nil_of_length_pos (by omega)
        simp [hne]

structure Indexed (peers : Nat) (rf : Raft Cmd) : Prop where
  next : rf.nextIndex.length = peers
  matched : rf.matchIndex.length = peers
  pos : ∀ i ∈ rf.nextIndex, 1 ≤ i

theorem start_isSome {peers : Nat} (me : Fin peers) (command : Cmd)
    (h : rf.state = .leader → rf.Indexed peers) : (rf.start me command).isSome := by
  unfold start
  split
  · rfl
  · rename_i hlead
    have hi := h (not_not.mp hlead)
    have hm : me.val < rf.matchIndex.length := hi.matched.symm ▸ me.isLt
    have hn : me.val < rf.nextIndex.length := hi.next.symm ▸ me.isLt
    simp [setAt_of_lt _ hm, setAt_of_lt _ hn]

theorem sendAppendEntries_isSome {peers : Nat} (server : Fin peers)
    (args : AppendEntriesArgs Cmd) (reply : AppendEntriesReply)
    (h : rf.state = .leader → rf.Indexed peers) :
    (rf.sendAppendEntries peers server args reply).isSome := by
  unfold sendAppendEntries
  split
  · rfl
  · rename_i hlead
    have hi := h (not_not.mp hlead)
    have hm : server.val < rf.matchIndex.length := hi.matched.symm ▸ server.isLt
    have hn : server.val < rf.nextIndex.length := hi.next.symm ▸ server.isLt
    split
    · rfl
    · split
      · simp only [setAt_of_lt _ hm, setAt_of_lt _ hn, Option.bind_eq_bind, Option.bind_some]
        exact commitScan_isSome peers le_rfl
      · rw [List.getElem?_eq_getElem hn]
        simp only [setAt_of_lt _ hn, Option.bind_eq_bind, Option.bind_some]
        split
        · rfl
        · exact commitScan_isSome peers le_rfl

theorem heartBeat_isSome_of_next (me : Nat) {peer next : Nat} (hnext : rf.nextIndex[peer]? = some next)
    (hpos : 1 ≤ next) (hlog : rf.log ≠ []) : (rf.heartBeat me peer).isSome := by
  obtain ⟨last, hlast⟩ := last_isSome hlog
  unfold heartBeat
  rw [hnext]
  simp only [Option.bind_eq_bind, Option.bind_some]
  split
  · rw [if_neg (by omega), List.getElem?_eq_getElem (by omega)]
    rfl
  · rw [hlast]
    rfl

theorem heartBeat_isSome {peers : Nat} (me : Nat) (peer : Fin peers) (h : rf.Indexed peers)
    (hlog : rf.log ≠ []) : (rf.heartBeat me peer).isSome := by
  have hlt : peer.val < rf.nextIndex.length := h.next.symm ▸ peer.isLt
  exact heartBeat_isSome_of_next me (List.getElem?_eq_getElem hlt) (h.pos _ (List.getElem_mem hlt))
    hlog

theorem isSome_mapM_iff {α β : Type} {f : α → Option β} {xs : List α} :
    (xs.mapM f).isSome ↔ ∀ x ∈ xs, (f x).isSome := by
  induction xs with
  | nil => simp
  | cons x xs ih =>
    rw [List.forall_mem_cons, ← ih]
    cases hx : f x <;> cases hxs : xs.mapM f <;> simp [hx, hxs]

theorem sendHeartBeats_isSome {peers : Nat} (me : Fin peers)
    (h : rf.state = .leader → rf.Indexed peers) (hlog : rf.log ≠ []) :
    (rf.sendHeartBeats me).isSome := by
  unfold sendHeartBeats
  split
  · rfl
  · rename_i hlead
    apply isSome_mapM_iff.mpr
    intro peer _
    rw [Option.isSome_map]
    exact heartBeat_isSome me peer (h (not_not.mp hlead)) hlog

end Raft

def Sentinel (log : List (LogEntry Cmd)) : Prop := ∃ first rest, log = first :: rest ∧ first.term = 0

namespace Sentinel

variable {log : List (LogEntry Cmd)}

theorem ne_nil (h : Sentinel log) : log ≠ [] := by
  obtain ⟨first, rest, rfl, -⟩ := h
  exact List.cons_ne_nil _ _

theorem term_zero (h : Sentinel log) {first : LogEntry Cmd} (hfirst : log[0]? = some first) :
    first.term = 0 := by
  obtain ⟨first', rest, rfl, hterm⟩ := h
  cases hfirst
  exact hterm

theorem append (h : Sentinel log) (entries : List (LogEntry Cmd)) : Sentinel (log ++ entries) := by
  obtain ⟨first, rest, rfl, hterm⟩ := h
  exact ⟨first, rest ++ entries, rfl, hterm⟩

theorem take (h : Sentinel log) {k : Nat} (hk : k ≠ 0) : Sentinel (log.take k) := by
  obtain ⟨first, rest, rfl, hterm⟩ := h
  obtain ⟨k, rfl⟩ := Nat.exists_eq_succ_of_ne_zero hk
  exact ⟨first, rest.take k, rfl, hterm⟩

end Sentinel

def KeepsFirst (args : AppendEntriesArgs Cmd) : Prop := args.prevLogIndex = 0 → args.prevLogTerm = 0

structure InRange (peers : Nat) (rf : Raft Cmd) : Prop where
  sentinel : Sentinel rf.log
  indexed : rf.state = .leader → rf.Indexed peers

namespace InRange

variable {peers : Nat} {rf rf' : Raft Cmd}

theorem of_follower (h : Sentinel rf.log) (hstate : rf.state ≠ .leader) : InRange peers rf :=
  ⟨h, fun hlead => absurd hlead hstate⟩

theorem congr (h : InRange peers rf) (hlog : Sentinel rf'.log) (hstate : rf'.state = rf.state)
    (hnext : rf'.nextIndex = rf.nextIndex) (hmatch : rf'.matchIndex = rf.matchIndex) :
    InRange peers rf' := by
  refine ⟨hlog, fun hlead => ?_⟩
  obtain ⟨hlen, hmatched, hpos⟩ := h.indexed (hstate ▸ hlead)
  exact ⟨hnext ▸ hlen, hmatch ▸ hmatched, hnext ▸ hpos⟩

theorem frame (h : InRange peers rf) (hf : Raft.CommitFrame rf rf') : InRange peers rf' :=
  h.congr (hf.log ▸ h.sentinel) hf.state hf.nextIndex hf.matchIndex

theorem observe (h : InRange peers rf) (term : Nat) : InRange peers (rf.observe term) := by
  by_cases hstate : (rf.observe term).state = .follower
  · exact .of_follower (by simpa using h.sentinel) (by simp [hstate])
  · rw [Raft.observe_of_state_ne hstate]
    exact h

theorem setIndex (h : InRange peers rf) {log : List (LogEntry Cmd)} (hlog : Sentinel log)
    (server m : Nat) {next : Nat} (hnext : 1 ≤ next) :
    InRange peers { rf with
      log, matchIndex := rf.matchIndex.set server m, nextIndex := rf.nextIndex.set server next } := by
  refine ⟨hlog, fun hlead => ?_⟩
  obtain ⟨hlen, hmatched, hpos⟩ := h.indexed hlead
  refine ⟨by simpa using hlen, by simpa using hmatched, fun i hi => ?_⟩
  rcases List.mem_or_eq_of_mem_set hi with hi | rfl
  · exact hpos i hi
  · exact hnext

theorem started {me : Nat} {command : Cmd} (h : InRange peers rf)
    (hs : rf.Started me command rf') : InRange peers rf' := by
  cases hs with
  | refused => exact h
  | appended => exact h.setIndex (h.sentinel.append _) me _ (Nat.le_add_left 1 _)

theorem counted {reply : RequestVoteReply} {out : Option (AppendEntriesArgs Cmd)}
    (h : InRange peers rf) (hc : rf.Counted peers reply rf' out) : InRange peers rf' := by
  cases hc with
  | deposed => exact .of_follower h.sentinel (by simp)
  | refused => exact h
  | counted => exact h.congr h.sentinel rfl rfl rfl
  | elected =>
    refine ⟨h.sentinel, fun _ => ⟨by simp, by simp, fun i hi => ?_⟩⟩
    obtain ⟨-, rfl⟩ := List.mem_replicate.mp hi
    exact List.length_pos_iff.mpr h.sentinel.ne_nil

theorem appended {args : AppendEntriesArgs Cmd} {reply : AppendEntriesReply}
    (h : InRange peers rf) (hargs : KeepsFirst args) (ha : rf.Appended args rf' reply) :
    InRange peers rf' := by
  cases ha with
  | stale => exact h
  | short => exact h.observe _
  | conflict prev _ hprev hne =>
    refine (h.observe args.term).congr (h.sentinel.take fun hzero => hne ?_) rfl rfl rfl
    rw [hzero] at hprev
    rw [hargs hzero, h.sentinel.term_zero hprev]
  | agree prev rf' _ _ _ hf =>
    have hlog := (h.sentinel.take (Nat.succ_ne_zero args.prevLogIndex)).append args.entries
    refine (h.observe args.term).congr ?_ hf.frame.state hf.frame.nextIndex hf.frame.matchIndex
    rw [hf.frame.log]
    exact hlog

theorem acknowledged {server : Nat} {args : AppendEntriesArgs Cmd} {reply : AppendEntriesReply}
    (h : InRange peers rf) (ha : rf.Acknowledged peers server args reply rf') :
    InRange peers rf' := by
  cases ha with
  | ignored => exact h
  | deposed => exact .of_follower h.sentinel (by simp)
  | matched rf' _ _ _ _ _ hs =>
    exact (h.setIndex h.sentinel server _ (Nat.le_add_left 1 _)).frame hs.frame
  | backedOff next _ _ _ _ hlt =>
    refine ⟨h.sentinel, fun hlead => ?_⟩
    obtain ⟨hlen, hmatched, hpos⟩ := h.indexed hlead
    refine ⟨by simpa using hlen, hmatched, fun i hi => ?_⟩
    rcases List.mem_or_eq_of_mem_set hi with hi | rfl
    · exact hpos i hi
    · omega
  | rejected _ _ _ _ hs => exact h.frame hs.frame

theorem heartBeat {me peer : Nat} {args : AppendEntriesArgs Cmd} (h : InRange peers rf)
    (hb : rf.HeartBeat me peer args) : KeepsFirst args := by
  intro hzero
  rcases Nat.lt_or_ge (args.prevLogIndex + 1) rf.log.length with hlt | hge
  · obtain ⟨prev, hprev, hterm, -⟩ := hb.suffix hlt
    rw [hzero] at hprev
    rw [hterm, h.sentinel.term_zero hprev]
  · obtain ⟨last, hlast, hterm, -⟩ := hb.empty hge
    rw [show rf.log.length - 1 = 0 by omega] at hlast
    rw [hterm, h.sentinel.term_zero hlast]

end InRange

variable [Inhabited Cmd]

theorem local_inRange : Local (fun (_ : Fin n) (rf : Raft Cmd) => InRange n rf) KeepsFirst where
  make _ := .of_follower ⟨_, [], rfl, rfl⟩ (by simp [Raft.make, Raft.readPersist])
  restart _ _ h := .of_follower h.sentinel (by simp [Raft.make, Raft.readPersist])
  candidate _ _ h := .of_follower h.sentinel (by simp)
  started _ _ _ _ h hs := h.started hs
  voted _ _ _ _ _ h hv := by
    cases hv with
    | stale => exact h
    | refused => exact h.observe _
    | granted => exact (h.observe _).congr (h.observe _).sentinel rfl rfl rfl
  counted _ _ _ _ _ h hc := h.counted hc
  appended _ _ _ _ _ h hargs ha := h.appended hargs ha
  acknowledged _ _ _ _ _ _ h _ ha := h.acknowledged ha
  first _ := rfl
  heartBeat _ _ _ _ h _ hb := h.heartBeat hb

theorem orPanic_ne {α β : Type} {x : Option α} (f : α → β) (h : x.isSome) :
    Cluster.orPanic x f ≠ .error .outOfRange := by
  obtain ⟨a, rfl⟩ := Option.isSome_iff_exists.mp h
  nofun

theorem Cluster.step_inRange {s : Cluster n Cmd} (h : ∀ p, InRange n (s.peer p))
    (e : Event n Cmd) : s.step e ≠ .error .outOfRange := by
  have hlog := fun p => (h p).sentinel.ne_nil
  cases e with
  | becomeCandidate p =>
    rw [Cluster.step]
    split
    · exact orPanic_ne _ (Raft.becomeCandidate_isSome p (hlog p))
    · simp
  | sendHeartBeats p =>
    rw [Cluster.step]
    split
    · exact orPanic_ne _ (Raft.sendHeartBeats_isSome p (h p).indexed (hlog p))
    · simp
  | start p command => exact orPanic_ne _ (Raft.start_isSome p command (h p).indexed)
  | requestVote k =>
    rw [Cluster.step]
    split
    · split
      · exact orPanic_ne _ (Raft.requestVote_isSome _ (hlog _))
      · simp
    · simp
  | appendEntries k =>
    rw [Cluster.step]
    split
    · split
      · exact orPanic_ne _ (Raft.appendEntries_isSome _)
      · simp
    · simp
  | sendAppendEntries k =>
    rw [Cluster.step]
    repeat' split
    all_goals first
      | exact orPanic_ne _ (Raft.sendAppendEntries_isSome _ _ _ (h _).indexed)
      | simp
  | persist | receivedVote | heartBeat | sendRequestVote | crash =>
    rw [Cluster.step]
    repeat' split
    all_goals simp

variable {ok : Cluster n Cmd → Event n Cmd → Prop} {σ : List (Cluster n Cmd)}

/-- The last part says that `PrevLogIndex`, which is `nextIndex[peer] - 1` over the
integers, is not negative. -/
theorem in_range (h : Run ok σ) : ∀ s ∈ σ,
    (∀ e, s.step e ≠ .error .outOfRange) ∧
    (∀ p, ∃ first rest, (s.peer p).log = first :: rest ∧ first.term = 0) ∧
    (∀ c ∈ s.appendCalls, c.args.prevLogIndex = 0 → c.args.prevLogTerm = 0) ∧
    ∀ p, (s.peer p).state = .leader → (∀ next ∈ (s.peer p).nextIndex, 1 ≤ next) ∧
      ∀ peer : Fin n, ∃ (next : Nat) (args : AppendEntriesArgs Cmd),
        (s.peer p).nextIndex[peer]? = some next ∧ (s.peer p).heartBeat p peer = some args ∧
        (args.prevLogIndex : Int) = next - 1 := by
  intro s hs
  have hold := local_inRange.run h s hs
  refine ⟨Cluster.step_inRange hold.peer, fun p => (hold.peer p).sentinel, hold.args, ?_⟩
  intro p hlead
  have hi := (hold.peer p).indexed hlead
  refine ⟨hi.pos, fun peer => ?_⟩
  obtain ⟨args, hargs⟩ := Option.isSome_iff_exists.mp
    (Raft.heartBeat_isSome p peer hi (hold.peer p).sentinel.ne_nil)
  exact ⟨args.prevLogIndex + 1, args, (Raft.heartBeat_spec hargs).next, hargs, by simp⟩

theorem in_range_restarted : ∃ (s : Cluster 3 Nat) (σ : List (Cluster 3 Nat)),
    Run (fun _ _ => True) (s :: σ) ∧ Leads s 1 2 ∧ (s.peer 1).nextIndex = [1, 4, 4] ∧
      (∀ e, s.step e ≠ .error .outOfRange) ∧ ∀ next ∈ (s.peer 1).nextIndex, 1 ≤ next := by
  obtain ⟨s, σ, hrun, hlead, hnext⟩ := exists_run (fun _ _ => True)
    (fun s : Cluster 3 Nat => Leads s 1 2 ∧ (s.peer 1).nextIndex = [1, 4, 4]) restarted
    (by decide +kernel)
  have hrange := in_range hrun s List.mem_cons_self
  exact ⟨s, σ, hrun, hlead, hnext, hrange.1, (hrange.2.2.2 1 hlead.1).1⟩

end MrAndRaft
