import MrAndRaft.Raft.BackOff

/-! The requests that one leader builds in one term, delivered to a follower in any order.
The handler cuts the log after `prevLogIndex`, so a request that ends before an acknowledged
index takes acknowledged entries back. -/

namespace MrAndRaft.Raft

variable {Cmd : Type} {rf rf' : Raft Cmd} {L P : List (LogEntry Cmd)} {T : Nat}

/-- A request that the leader of term `T` built in `sendHeartBeats`, at a time when its log was
a prefix of `L`. -/
def Built (T : Nat) (L : List (LogEntry Cmd)) (args : AppendEntriesArgs Cmd) : Prop :=
  ∃ (leader : Raft Cmd) (me peer next : Nat), leader.state = .leader ∧
    leader.currentTerm = T ∧ leader.log <+: L ∧ leader.nextIndex[peer]? = some next ∧
    next ≤ leader.log.length ∧ leader.heartBeat me peer = some args

theorem Built.carries {args : AppendEntriesArgs Cmd} (h : Built T L args) :
    args.term = T ∧ ∃ L', L' <+: L ∧ Carries L' args := by
  obtain ⟨leader, me, peer, next, -, hterm, hpre, hnext, hle, hargs⟩ := h
  have hb := heartBeat_spec hargs
  have heq : args.prevLogIndex + 1 = next := Option.some.inj (hb.next.symm.trans hnext)
  exact ⟨hb.term.trans hterm, leader.log, hpre, hb.carries (heq ▸ hle)⟩

inductive Delivery (Cmd : Type) where
  | append (args : AppendEntriesArgs Cmd)
  | vote (args : RequestVoteArgs)

def handle (rf : Raft Cmd) : Delivery Cmd → Option (Raft Cmd)
  | .append args => (rf.appendEntries args).map Prod.fst
  | .vote args => (rf.requestVote args).map Prod.fst

def lastIndex (args : AppendEntriesArgs Cmd) : Nat := args.prevLogIndex + args.entries.length

structure Ready (T : Nat) (L : List (LogEntry Cmd)) (rf : Raft Cmd) : Prop where
  term : rf.currentTerm ≤ T
  sentinel : ∃ a, L[0]? = some a ∧ a.term = 0
  sentinel' : ∃ b, rf.log[0]? = some b ∧ b.term = 0
  matched : Matched rf.log L

theorem Ready.log_ne_nil (h : Ready T L rf) : rf.log ≠ [] := by
  obtain ⟨b, hb, -⟩ := h.sentinel'
  rintro hnil
  simp [hnil] at hb

theorem Ready.of_isPrefix (h : Ready T L rf) (hpre : rf'.log <+: rf.log) (hne : rf'.log ≠ [])
    (hterm : rf'.currentTerm ≤ T) : Ready T L rf' where
  term := hterm
  sentinel := h.sentinel
  sentinel' := sentinel_of_isPrefix hpre hne h.sentinel'
  matched := h.matched.prefix_left hpre

theorem Ready.delivered (h : Ready T L rf) {args : AppendEntriesArgs Cmd} (hb : Built T L args) :
    ∃ L' rf' reply, L' <+: L ∧ Carries L' args ∧ rf.appendEntries args = some (rf', reply) ∧
      Delivered L' args rf rf' reply ∧ rf'.currentTerm = T := by
  obtain ⟨hterm, L', hpre, hc⟩ := hb.carries
  obtain ⟨⟨rf', reply⟩, hhandled⟩ := Option.isSome_iff_exists.mp (rf.appendEntries_isSome args)
  obtain ⟨hdel, hcur⟩ := (appendEntries_spec hhandled).delivered (hterm ▸ h.term) hc
    (h.matched.prefix_right hpre)
  exact ⟨L', rf', reply, hpre, hc, hhandled, hdel, hcur.trans hterm⟩

end MrAndRaft.Raft
