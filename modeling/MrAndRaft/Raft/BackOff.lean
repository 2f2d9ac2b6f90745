import Mathlib.Data.Nat.Log
import MrAndRaft.Raft.CommitRule
import MrAndRaft.Raft.Replication

/-! One leader and one follower whose logs match: what a request of the leader does to the
follower's log, and how `nextIndex` is halved until the follower has the leader's log. -/

namespace MrAndRaft

variable {Cmd : Type} {F L L' : List (LogEntry Cmd)}

def Matched (F L : List (LogEntry Cmd)) : Prop :=
  ∀ i a b, F[i]? = some a → L[i]? = some b → a.term = b.term → F.take (i + 1) = L.take (i + 1)

namespace Matched

theorem prefix_right (h : Matched F L) (hpre : L' <+: L) : Matched F L' := by
  intro i a b ha hb hterm
  have hlt := (List.getElem?_eq_some_iff.mp hb).1
  rw [h i a b ha (Prefix.getElem? hpre hb) hterm, Prefix.take_eq hpre hlt]

theorem prefix_left {F' : List (LogEntry Cmd)} (h : Matched F L) (hpre : F' <+: F) :
    Matched F' L := by
  intro i a b ha hb hterm
  have hlt := (List.getElem?_eq_some_iff.mp ha).1
  rw [← h i a b (Prefix.getElem? hpre ha) hb hterm, Prefix.take_eq hpre hlt]

theorem of_isPrefix (hpre : F <+: L) : Matched F L := by
  intro i a b ha _ _
  exact (Prefix.take_eq hpre (List.getElem?_eq_some_iff.mp ha).1).symm

end Matched

theorem Run.matched {n : Nat} [Inhabited Cmd] {σ : List (Cluster n Cmd)} {s t : Cluster n Cmd}
    (h : Run CrashFree σ) (hone : OneLeader σ) (hs : s ∈ σ) (ht : t ∈ σ) (p q : Fin n) :
    Matched (s.peer p).log (t.peer q).log := fun _ _ _ ha hb hterm =>
  (h.logOk hone s hs p).matching h hone (h.logOk hone t ht q) ha hb hterm

namespace Raft

variable {rf rf' : Raft Cmd} {args : AppendEntriesArgs Cmd} {reply : AppendEntriesReply}

/-- What a request that describes `L` does to a follower: it hands over the whole of `L`,
finds the log too short, or cuts it where it differs. -/
inductive Delivered (L : List (LogEntry Cmd)) (args : AppendEntriesArgs Cmd) (rf rf' : Raft Cmd) :
    AppendEntriesReply → Prop where
  | took (hlog : rf'.log = L) : Delivered L args rf rf' ⟨args.term, true⟩
  | short (hlen : rf.log.length ≤ args.prevLogIndex) (hlog : rf'.log = rf.log) :
      Delivered L args rf rf' ⟨args.term, false⟩
  | cut (a b : LogEntry Cmd) (ha : rf.log[args.prevLogIndex]? = some a)
      (hb : L[args.prevLogIndex]? = some b) (hne : b.term ≠ a.term)
      (hlog : rf'.log = rf.log.take args.prevLogIndex) : Delivered L args rf rf' ⟨args.term, false⟩

theorem Appended.delivered (h : Appended args rf rf' reply) (hle : rf.currentTerm ≤ args.term)
    (hc : Carries L args) (hm : Matched rf.log L) :
    Delivered L args rf rf' reply ∧ rf'.currentTerm = args.term := by
  obtain ⟨b, hb, hterm⟩ := hc.prev
  cases h with
  | stale hlt => omega
  | short _ hlen => exact ⟨.short hlen (observe_log _), observe_term_of_le hle⟩
  | conflict a _ ha hne => exact ⟨.cut a b ha hb (hterm ▸ hne) rfl, observe_term_of_le hle⟩
  | agree a rf' _ ha heq hf =>
    refine ⟨.took ?_, hf.frame.currentTerm.trans (observe_term_of_le hle)⟩
    have htake := hm _ a b ha hb (heq.symm.trans hterm)
    rw [hf.frame.log, setLog_log, htake, hc.entries, List.take_append_drop]

theorem Delivered.term_eq (h : Delivered L args rf rf' reply) : reply.term = args.term := by
  cases h <;> rfl

theorem Delivered.takes (h : Delivered L args rf rf' reply) (hsuccess : reply.success = true) :
    reply = ⟨args.term, true⟩ ∧ rf'.log = L := by
  cases h with
  | took hlog => exact ⟨rfl, hlog⟩
  | short | cut => cases hsuccess

theorem Delivered.rejects (h : Delivered L args rf rf' reply) (hfail : reply.success = false)
    (hL : ∃ a, L[0]? = some a ∧ a.term = 0) (hF : ∃ b, rf.log[0]? = some b ∧ b.term = 0) :
    0 < args.prevLogIndex ∧ rf'.log <+: rf.log ∧ rf'.log ≠ [] := by
  obtain ⟨a₀, ha₀, hzero⟩ := hL
  obtain ⟨b₀, hb₀, hzero'⟩ := hF
  have hlen := (List.getElem?_eq_some_iff.mp hb₀).1
  cases h with
  | took => cases hfail
  | short hshort hsame =>
    rw [hsame]
    exact ⟨by omega, List.prefix_rfl, List.length_pos_iff.mp hlen⟩
  | cut b a hb ha hne hcut =>
    -- the entries at index 0 have the same term
    have hpos : args.prevLogIndex ≠ 0 := by
      intro hp
      rw [hp] at ha hb
      obtain rfl := Option.some.inj (ha₀.symm.trans ha)
      obtain rfl := Option.some.inj (hb₀.symm.trans hb)
      exact hne (hzero.trans hzero'.symm)
    refine ⟨Nat.pos_of_ne_zero hpos, hcut ▸ List.take_prefix _ _, ?_⟩
    rw [hcut]
    exact List.length_pos_iff.mp (by rw [List.length_take]; omega)

variable {peers : Nat} {server : Fin peers} {leader follower : Raft Cmd} {next : Nat}

/-- One heartbeat of the leader to `server`, from `sendHeartBeats` to `sendAppendEntries`; the
last component is `reply.Success`. -/
def round (me : Nat) (server : Fin peers) (leader follower : Raft Cmd) :
    Option (Raft Cmd × Raft Cmd × Bool) := do
  let args ← leader.heartBeat me server
  let handled ← follower.appendEntries args
  let leader ← leader.sendAppendEntries peers server args handled.2
  return (leader, handled.1, handled.2.success)

def untilSuccess (me : Nat) (server : Fin peers) :
    Nat → Raft Cmd → Raft Cmd → Option (Raft Cmd × Raft Cmd)
  | 0, _, _ => none
  | k + 1, leader, follower => do
    let done ← round me server leader follower
    if done.2.2 then return (done.1, done.2.1) else untilSuccess me server k done.1 done.2.1

structure Follows (server : Fin peers) (next : Nat) (leader follower : Raft Cmd) : Prop where
  leading : Leading peers leader
  nextIndex : leader.nextIndex[server.val]? = some next
  pos : 1 ≤ next
  le : next ≤ leader.log.length
  sentinel : ∃ a, leader.log[0]? = some a ∧ a.term = 0
  sentinel' : ∃ b, follower.log[0]? = some b ∧ b.term = 0
  matched : Matched follower.log leader.log
  term : follower.currentTerm ≤ leader.currentTerm

theorem sendAppendEntries_rejected (h : Leading peers rf) (args : AppendEntriesArgs Cmd)
    {reply : AppendEntriesReply} (hnext : rf.nextIndex[server.val]? = some next) (hlt : 1 < next)
    (hterm : reply.term ≤ rf.currentTerm) (hfail : reply.success = false) :
    rf.sendAppendEntries peers server args reply =
      some { rf with nextIndex := rf.nextIndex.set server (next / 2) } := by
  have hn : server.val < rf.nextIndex.length := h.nextLength.symm ▸ server.isLt
  rw [sendAppendEntries, if_neg (by simp [h.leader]), if_neg (by omega), if_neg (by simp [hfail])]
  simp [hnext, hlt, setAt_of_lt _ hn]

theorem sentinel_of_isPrefix {l l' : List (LogEntry Cmd)} (hpre : l' <+: l) (hne : l' ≠ [])
    (h : ∃ b, l[0]? = some b ∧ b.term = 0) : ∃ b, l'[0]? = some b ∧ b.term = 0 := by
  rwa [Prefix.getElem?_eq hpre (List.length_pos_iff.mpr hne)] at h

theorem Follows.halved (h : Follows server next leader follower) (hlt : 1 < next)
    (hpre : rf.log <+: follower.log) (hne : rf.log ≠ [])
    (hterm : rf.currentTerm = leader.currentTerm) :
    Follows server (next / 2)
      { leader with nextIndex := leader.nextIndex.set server (next / 2) } rf where
  leading := ⟨h.leading.leader, h.leading.matchLength, List.length_set.trans h.leading.nextLength⟩
  nextIndex := List.getElem?_set_self (List.getElem?_eq_some_iff.mp h.nextIndex).1
  pos := by omega
  le := by
    have := h.le
    simp only
    omega
  sentinel := h.sentinel
  sentinel' := sentinel_of_isPrefix hpre hne h.sentinel'
  matched := h.matched.prefix_left hpre
  term := hterm.le

theorem Follows.request (h : Follows server next leader follower) (me : Nat) :
    ∃ args, leader.heartBeat me server = some args ∧ args.prevLogIndex + 1 = next ∧
      args.term = leader.currentTerm ∧ Carries leader.log args := by
  have hlog : leader.log ≠ [] := by
    obtain ⟨a, ha, -⟩ := h.sentinel
    rintro hnil
    simp [hnil] at ha
  obtain ⟨args, hargs⟩ := Option.isSome_iff_exists.mp
    (heartBeat_isSome_of_next me h.nextIndex h.pos hlog)
  have hb := heartBeat_spec hargs
  have hprev : args.prevLogIndex + 1 = next := Option.some.inj (hb.next.symm.trans h.nextIndex)
  exact ⟨args, hargs, hprev, hb.term, hb.carries (hprev ▸ h.le)⟩

theorem round_eq {me : Nat}
    (hargs : leader.heartBeat me server = some args)
    (hhandled : follower.appendEntries args = some (rf, reply)) :
    round me server leader follower =
      (leader.sendAppendEntries peers server args reply).map (·, rf, reply.success) := by
  simp only [round, hargs, hhandled, Option.bind_eq_bind, Option.bind_some]
  cases leader.sendAppendEntries peers server args reply <;> rfl

theorem Follows.accepted (h : Follows server next leader follower)
    (hc : Carries leader.log args) (hterm : args.term = leader.currentTerm) :
    ∃ leader', leader.sendAppendEntries peers server args ⟨args.term, true⟩ = some leader' ∧
      leader'.log = leader.log ∧
      leader'.matchIndex[server.val]? = some (leader.log.length - 1) ∧
      leader'.nextIndex[server.val]? = some leader.log.length := by
  have hcurrent : (⟨args.term, true⟩ : AppendEntriesReply).term ≤ leader.currentTerm := hterm.le
  obtain ⟨leader', hsend, hscan⟩ := sendAppendEntries_success server args h.leading.leader
    h.leading.matchLength h.leading.nextLength hcurrent rfl
  have hlen := hc.length
  have hm : server.val < leader.matchIndex.length := h.leading.matchLength.symm ▸ server.isLt
  have hn : server.val < leader.nextIndex.length := h.leading.nextLength.symm ▸ server.isLt
  refine ⟨leader', hsend, hscan.frame.log, ?_, ?_⟩
  · rw [hscan.frame.matchIndex, acknowledge_matchIndex, List.getElem?_set_self hm]
    congr 1
    omega
  · rw [hscan.frame.nextIndex, acknowledge_nextIndex, List.getElem?_set_self hn]
    congr 1
    omega

theorem Follows.round (h : Follows server next leader follower) (me : Nat) :
    (∃ leader' follower', Raft.round me server leader follower = some (leader', follower', true) ∧
      follower'.log = leader.log ∧ leader'.log = leader.log ∧
      leader'.matchIndex[server.val]? = some (leader.log.length - 1) ∧
      leader'.nextIndex[server.val]? = some leader.log.length) ∨
    (1 < next ∧ ∃ leader' follower',
      Raft.round me server leader follower = some (leader', follower', false) ∧
      leader'.log = leader.log ∧ Follows server (next / 2) leader' follower') := by
  obtain ⟨args, hargs, hprev, hargsTerm, hc⟩ := h.request me
  obtain ⟨⟨follower', reply⟩, hhandled⟩ := Option.isSome_iff_exists.mp
    (follower.appendEntries_isSome args)
  obtain ⟨hdel, hterm⟩ := (appendEntries_spec hhandled).delivered (hargsTerm ▸ h.term) hc h.matched
  rw [round_eq hargs hhandled]
  cases hsuccess : reply.success with
  | true =>
    obtain ⟨rfl, hlog⟩ := hdel.takes hsuccess
    obtain ⟨leader', hsend, hrest⟩ := h.accepted hc hargsTerm
    exact .inl ⟨leader', follower', congrArg (Option.map (·, follower', true)) hsend, hlog, hrest⟩
  | false =>
    obtain ⟨hpos, hpre, hne⟩ := hdel.rejects hsuccess h.sentinel h.sentinel'
    have hlt : 1 < next := by omega
    have hle : reply.term ≤ leader.currentTerm := (hdel.term_eq.trans hargsTerm).le
    have hsend := sendAppendEntries_rejected h.leading args h.nextIndex hlt hle hsuccess
    exact .inr ⟨hlt, _, follower', congrArg (Option.map (·, follower', false)) hsend, rfl,
      h.halved hlt hpre hne (hterm.trans hargsTerm)⟩

theorem backOff_converges (me : Nat) (h : Follows server next leader follower) :
    ∃ leader' follower',
      untilSuccess me server (Nat.log 2 next + 1) leader follower = some (leader', follower') ∧
      follower'.log = leader.log ∧ leader'.log = leader.log ∧
      leader'.matchIndex[server.val]? = some (leader.log.length - 1) ∧
      leader'.nextIndex[server.val]? = some leader.log.length := by
  induction next using Nat.strong_induction_on generalizing leader follower with
  | h next ih =>
    rcases h.round me with ⟨leader', follower', hround, hdone⟩ |
      ⟨hlt, leader', follower', hround, hlog, hnext⟩
    · exact ⟨leader', follower', by simp [untilSuccess, hround], hdone⟩
    · obtain ⟨leader'', follower'', hrest, hdone⟩ := ih (next / 2) (by omega) hnext
      rw [hlog] at hdone
      refine ⟨leader'', follower'', ?_, hdone⟩
      rw [Nat.log_of_one_lt_of_le (by decide) hlt]
      simpa [untilSuccess, hround] using hrest

theorem backOff_converges_leaderWith : ∃ leader' follower',
    untilSuccess 0 (⟨1, by decide⟩ : Fin 2) 2 { leaderWith 2 [7, 8] with nextIndex := [3, 3] } (make none) =
      some (leader', follower') ∧
    follower'.log = (leaderWith 2 [7, 8]).log ∧ leader'.nextIndex[1]? = some 3 := by
  have hmatched : Matched (make none : Raft Nat).log (leaderWith 2 [7, 8]).log :=
    .of_isPrefix ⟨_, rfl⟩
  have h : Follows (⟨1, by decide⟩ : Fin 2) 3 { leaderWith 2 [7, 8] with nextIndex := [3, 3] } (make none) :=
    ⟨⟨rfl, rfl, rfl⟩, rfl, by decide, by decide, ⟨_, rfl, rfl⟩, ⟨_, rfl, rfl⟩, hmatched, by decide⟩
  obtain ⟨leader', follower', hrounds, hlog, -, -, hnext⟩ := backOff_converges 0 h
  rw [show Nat.log 2 3 + 1 = 2 by decide] at hrounds
  exact ⟨leader', follower', hrounds, hlog, hnext⟩

end Raft

end MrAndRaft
