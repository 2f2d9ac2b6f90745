import MrAndRaft.Lib.Quorum
import MrAndRaft.Raft.InRange

/-! The commit rule of a leader: what `sendAppendEntries` does with acknowledgements. -/

namespace MrAndRaft.Raft

variable {Cmd : Type} {rf rf' : Raft Cmd} {peers : Nat}

structure Leading (peers : Nat) (rf : Raft Cmd) : Prop where
  leader : rf.state = .leader
  matchLength : rf.matchIndex.length = peers
  nextLength : rf.nextIndex.length = peers

structure Replicated (rf : Raft Cmd) (N : Nat) : Prop where
  current : ∃ e, rf.log[N]? = some e ∧ e.term = rf.currentTerm
  majority : rf.matchIndex.length / 2 < rf.matchCount N

/-- The first two assignments for a reply that says Success. -/
@[simps] def acknowledge (server : Nat) (args : AppendEntriesArgs Cmd) (rf : Raft Cmd) :
    Raft Cmd :=
  { rf with
    matchIndex := rf.matchIndex.set server (args.entries.length + args.prevLogIndex)
    nextIndex := rf.nextIndex.set server (args.entries.length + args.prevLogIndex + 1) }

inductive ScanResult (rf rf' : Raft Cmd) : Prop where
  | commits (N : Nat) : IsGreatest ({N | rf.Replicated N} ∩ Set.Ici rf.commitIndex) N →
      Committed rf N rf' → ScanResult rf rf'
  | nothing : (∀ N, rf.Replicated N → N < rf.commitIndex) → rf' = rf → ScanResult rf rf'

theorem ScanResult.frame (h : ScanResult rf rf') : CommitFrame rf rf' := by
  cases h with
  | commits N _ hc => exact hc.frame
  | nothing _ heq => exact heq ▸ .refl rf

theorem ScanResult.commitIndex (h : ScanResult rf rf') :
    GreatestFrom {N | rf.Replicated N} rf.commitIndex rf'.commitIndex := by
  cases h with
  | commits N hN hc =>
    cases hc
    exact .greatest hN
  | nothing hlt heq => exact .stays hlt (heq ▸ rfl)

theorem commitScan_result {k : Nat} (hlead : rf.state = .leader)
    (hlen : rf.matchIndex.length = peers)
    (habove : ∀ N, rf.Replicated N → N < k ∨ N < rf.commitIndex)
    (h : rf.commitScan peers k = some rf') : ScanResult rf rf' := by
  induction k with
  | zero =>
    cases h
    exact .nothing (fun N hN => (habove N hN).resolve_left (by omega)) rfl
  | succ k ih =>
    rw [commitScan] at h
    split at h
    · cases h
      refine .nothing (fun N hN => ?_) rfl
      have := habove N hN
      omega
    · rename_i hk
      simp only [Option.bind_eq_bind, Option.bind_eq_some_iff] at h
      obtain ⟨e, he, h⟩ := h
      by_cases hrep : rf.Replicated k
      · obtain ⟨e', he', hterm⟩ := hrep.current
        obtain rfl := Option.some.inj (he.symm.trans he')
        rw [if_pos hterm, if_pos ⟨hlen ▸ hrep.majority, hlead⟩] at h
        refine .commits k ⟨⟨hrep, not_lt.mp hk⟩, fun N hN => ?_⟩ (commitTo_spec h)
        have := habove N hN.1
        have hle : rf.commitIndex ≤ N := hN.2
        omega
      · rw [if_neg] at h
        · refine ih (fun N hN => ?_) h
          have hne : N ≠ k := fun heq => hrep (heq ▸ hN)
          have := habove N hN
          omega
        · rintro ⟨hcount, -⟩
          split at hcount
          · rename_i hterm
            exact hrep ⟨⟨e, he, hterm⟩, hlen ▸ hcount⟩
          · omega

theorem replicated_congr (hlog : rf'.log = rf.log) (hterm : rf'.currentTerm = rf.currentTerm)
    (hmatch : rf'.matchIndex = rf.matchIndex) :
    {N | rf'.Replicated N} = {N | rf.Replicated N} := by
  ext N
  constructor
  · rintro ⟨hcur, hmaj⟩
    rw [hlog, hterm] at hcur
    rw [hmatch, matchCount, hmatch] at hmaj
    exact ⟨hcur, hmaj⟩
  · rintro ⟨hcur, hmaj⟩
    rw [← hlog, ← hterm] at hcur
    rw [← hmatch, matchCount, ← hmatch] at hmaj
    exact ⟨hcur, hmaj⟩

theorem Replicated.lt_length {N : Nat} (h : rf.Replicated N) : N < rf.log.length := by
  obtain ⟨e, he, -⟩ := h.current
  exact (List.getElem?_eq_some_iff.mp he).1

theorem sendAppendEntries_success (server : Fin peers) (args : AppendEntriesArgs Cmd)
    {reply : AppendEntriesReply} (hlead : rf.state = .leader)
    (hmatch : rf.matchIndex.length = peers) (hnext : rf.nextIndex.length = peers)
    (hterm : reply.term ≤ rf.currentTerm) (hsucc : reply.success = true) :
    ∃ rf', rf.sendAppendEntries peers server args reply = some rf' ∧
      ScanResult (rf.acknowledge server args) rf' := by
  have hm : server.val < rf.matchIndex.length := hmatch.symm ▸ server.isLt
  have hn : server.val < rf.nextIndex.length := hnext.symm ▸ server.isLt
  have heq : rf.sendAppendEntries peers server args reply =
      (rf.acknowledge server args).commitScan peers rf.log.length := by
    rw [sendAppendEntries, if_neg (by simp [hlead]), if_neg (by omega), if_pos hsucc]
    simp only [setAt_of_lt _ hm, setAt_of_lt _ hn, Option.bind_eq_bind, Option.bind_some]
    rfl
  have hsome : ((rf.acknowledge server args).commitScan peers rf.log.length).isSome :=
    commitScan_isSome peers le_rfl
  obtain ⟨rf', h⟩ := Option.isSome_iff_exists.mp hsome
  refine ⟨rf', heq.trans h, commitScan_result hlead ?_ (fun N hN => .inl hN.lt_length) h⟩
  rw [acknowledge_matchIndex, List.length_set, hmatch]

/-- A Success reply moves `commitIndex` to the greatest index, from where it is on, of an
entry of the current term that more than half of the peers have, and hands over all that
was not applied up to there; if there is no such index it changes nothing. -/
theorem sendAppendEntries_commits (rf : Raft Cmd) (server : Fin peers)
    (args : AppendEntriesArgs Cmd) (reply : AppendEntriesReply) (hlead : rf.state = .leader)
    (hmatch : rf.matchIndex.length = peers) (hnext : rf.nextIndex.length = peers)
    (hterm : reply.term ≤ rf.currentTerm) (hsucc : reply.success = true) :
    ∃ rf', rf.sendAppendEntries peers server args reply = some rf' ∧
      rf'.matchIndex = (rf.acknowledge server args).matchIndex ∧
      (IsGreatest {N | rf.commitIndex ≤ N ∧ (rf.acknowledge server args).Replicated N}
          rf'.commitIndex ∧
        (∃ msgs, Delivers rf.log rf.lastApplied rf'.commitIndex msgs ∧
          rf'.applyCh = rf.applyCh ++ msgs) ∨
       (∀ N, rf.commitIndex ≤ N → ¬ (rf.acknowledge server args).Replicated N) ∧
        rf'.commitIndex = rf.commitIndex ∧ rf'.applyCh = rf.applyCh) ∧
      rf.commitIndex ≤ rf'.commitIndex ∧
      ∀ N e, rf'.commitIndex < N → rf.log[N]? = some e → e.term = rf.currentTerm →
        (rf.acknowledge server args).matchCount N ≤ peers / 2 := by
  obtain ⟨rf', h, hscan⟩ := sendAppendEntries_success server args hlead hmatch hnext hterm hsucc
  refine ⟨rf', h, hscan.frame.matchIndex, ?_, hscan.commitIndex.le, fun N e hN he hterm => ?_⟩
  · cases hscan with
    | commits N hN hc =>
      cases hc with
      | intro msgs hd =>
        exact .inl ⟨⟨⟨hN.1.2, hN.1.1⟩, fun N' hN' => hN.2 ⟨hN'.2, hN'.1⟩⟩, msgs, hd, rfl⟩
    | nothing hlt heq =>
      subst heq
      exact .inr ⟨fun N hle hN => absurd (hlt N hN) (not_lt.mpr hle), rfl, rfl⟩
  · by_contra hcount
    have hrep : (rf.acknowledge server args).Replicated N :=
      ⟨⟨e, he, hterm⟩, by
        rw [acknowledge_matchIndex, List.length_set, hmatch]
        exact not_le.mp hcount⟩
    exact absurd (hscan.commitIndex.le_of_mem hrep) (not_le.mpr hN)

def leaderWith (n : Nat) (commands : List Nat) : Raft Nat :=
  { (make none : Raft Nat) with
    state := .leader, currentTerm := 1, log := ⟨0, 0⟩ :: commands.map (⟨1, ·⟩)
    nextIndex := (List.replicate n 1).set 0 (commands.length + 1)
    matchIndex := (List.replicate n 0).set 0 commands.length }

theorem sendAppendEntries_commits_leaderWith : ∃ rf', (leaderWith 3 [7, 8]).sendAppendEntries 3 1
      { term := 1, entries := [⟨1, 7⟩] } ⟨1, true⟩ = some rf' ∧ rf'.matchIndex = [2, 1, 0] ∧
    ∀ N e, rf'.commitIndex < N → (leaderWith 3 [7, 8]).log[N]? = some e → e.term = 1 →
      ((leaderWith 3 [7, 8]).acknowledge 1 { term := 1, entries := [⟨1, 7⟩] }).matchCount N ≤ 1 := by
  obtain ⟨rf', h, hmatch, -, -, habove⟩ := sendAppendEntries_commits (leaderWith 3 [7, 8])
    (1 : Fin 3) { term := 1, entries := [⟨1, 7⟩] } ⟨1, true⟩ rfl rfl rfl le_rfl rfl
  exact ⟨rf', h, hmatch, habove⟩

end MrAndRaft.Raft
