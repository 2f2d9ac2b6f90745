import Mathlib.Data.List.Forall2
import Mathlib.Logic.Relation
import MrAndRaft.Raft.CommitRule

/-! Success replies that reach a leader in different orders.  `matchIndex` keeps the last
one of each server, so the order matters unless each server's replies come in the order of
the indices they acknowledge. -/

namespace MrAndRaft.Raft

structure Ack (peers : Nat) (Cmd : Type) where
  server : Fin peers
  args : AppendEntriesArgs Cmd
  reply : AppendEntriesReply

variable {Cmd : Type} {rf rf' : Raft Cmd} {peers : Nat}

def Ack.index (a : Ack peers Cmd) : Nat := a.args.entries.length + a.args.prevLogIndex

def receive (acks : List (Ack peers Cmd)) (rf : Raft Cmd) : Option (Raft Cmd) :=
  acks.foldlM (fun rf a => rf.sendAppendEntries peers a.server a.args a.reply) rf

theorem receive_cons_eq {a : Ack peers Cmd}
    (h : rf.sendAppendEntries peers a.server a.args a.reply = some rf')
    (acks : List (Ack peers Cmd)) : rf.receive (a :: acks) = rf'.receive acks := by
  rw [receive, List.foldlM_cons, h]
  rfl

structure Credited (rf : Raft Cmd) (a : Ack peers Cmd) : Prop where
  success : a.reply.success = true
  term_le : a.reply.term ≤ rf.currentTerm

theorem Credited.of_term {a : Ack peers Cmd} (h : Credited rf a)
    (hterm : rf'.currentTerm = rf.currentTerm) : Credited rf' a := ⟨h.success, hterm ▸ h.term_le⟩

/-- No reply acknowledges less than `matchIndex` says of its server when it is processed. -/
structure InOrder (matchIndex : List Nat) (acks : List (Ack peers Cmd)) : Prop where
  fresh : ∀ a ∈ acks, ∀ m, matchIndex[a.server.val]? = some m → m ≤ a.index
  sorted : acks.Pairwise fun a b => a.server = b.server → a.index ≤ b.index

theorem InOrder.tail {ms : List Nat} {a : Ack peers Cmd} {acks : List (Ack peers Cmd)}
    (h : InOrder ms (a :: acks)) : InOrder (ms.set a.server a.index) acks where
  fresh b hb m hm := by
    by_cases hs : a.server = b.server
    · have hle := List.rel_of_pairwise_cons h.sorted hb hs
      rw [hs] at hm
      have hlt := (List.getElem?_eq_some_iff.mp hm).1
      rw [List.length_set] at hlt
      rw [List.getElem?_set_self hlt] at hm
      exact Option.some.inj hm ▸ hle
    · rw [List.getElem?_set_ne (fun heq => hs (Fin.ext heq))] at hm
      exact h.fresh b (List.mem_cons_of_mem a hb) m hm
  sorted := h.sorted.of_cons

section Growth

variable {ms ms' : List Nat}

theorem countP_le_of_forall₂ (h : List.Forall₂ (· ≤ ·) ms ms') (N : Nat) :
    ms.countP (N ≤ ·) ≤ ms'.countP (N ≤ ·) := by
  induction h with
  | nil => exact le_rfl
  | cons hle _ ih =>
    rw [List.countP_cons, List.countP_cons]
    simp only [decide_eq_true_eq]
    split <;> split <;> omega

theorem forall₂_set {i v : Nat} (h : ∀ m, ms[i]? = some m → m ≤ v) :
    List.Forall₂ (· ≤ ·) ms (ms.set i v) := by
  induction ms generalizing i with
  | nil => exact .nil
  | cons m ms ih =>
    cases i with
    | zero => exact .cons (h m rfl) (List.forall₂_refl _)
    | succ i => exact .cons le_rfl (ih h)

theorem forall₂_trans {ms'' : List Nat} (h : List.Forall₂ (· ≤ ·) ms ms')
    (h' : List.Forall₂ (· ≤ ·) ms' ms'') : List.Forall₂ (· ≤ ·) ms ms'' := by
  induction h generalizing ms'' with
  | nil => exact h'
  | cons hle _ ih =>
    cases h' with
    | cons hle' h' => exact .cons (hle.trans hle') (ih h')

end Growth

theorem replicated_mono (hlog : rf'.log = rf.log) (hterm : rf'.currentTerm = rf.currentTerm)
    (hmatch : List.Forall₂ (· ≤ ·) rf.matchIndex rf'.matchIndex) :
    {N | rf.Replicated N} ⊆ {N | rf'.Replicated N} := by
  rintro N ⟨hcur, hmaj⟩
  refine ⟨by rwa [hlog, hterm], ?_⟩
  rw [← hmatch.length_eq]
  exact hmaj.trans_le (countP_le_of_forall₂ hmatch N)

theorem Leading.receive_one (h : Leading peers rf) {a : Ack peers Cmd} (ha : Credited rf a) :
    ∃ rf', rf.sendAppendEntries peers a.server a.args a.reply = some rf' ∧ Leading peers rf' ∧
      rf'.log = rf.log ∧ rf'.currentTerm = rf.currentTerm ∧
      rf'.matchIndex = rf.matchIndex.set a.server a.index ∧
      GreatestFrom {N | rf'.Replicated N} rf.commitIndex rf'.commitIndex := by
  obtain ⟨rf', hsend, hscan⟩ := sendAppendEntries_success a.server a.args h.leader h.matchLength
    h.nextLength ha.term_le ha.success
  have hf := hscan.frame
  refine ⟨rf', hsend, ⟨hf.state.trans h.leader, ?_, ?_⟩, hf.log, hf.currentTerm, hf.matchIndex, ?_⟩
  · rw [hf.matchIndex, acknowledge_matchIndex, List.length_set, h.matchLength]
  · rw [hf.nextIndex, acknowledge_nextIndex, List.length_set, h.nextLength]
  · have hsame : {N | rf'.Replicated N} = {N | (rf.acknowledge a.server a.args).Replicated N} :=
      replicated_congr hf.log hf.currentTerm hf.matchIndex
    rw [hsame]
    exact hscan.commitIndex

def recorded (ms : List Nat) (acks : List (Ack peers Cmd)) : List Nat :=
  acks.foldl (fun ms a => ms.set a.server a.index) ms

theorem acknowledged_cons (a : Ack peers Cmd) (acks : List (Ack peers Cmd)) (i : Nat) :
    {x | ∃ b ∈ a :: acks, b.server.val = i ∧ b.index = x} =
      if a.server.val = i then insert a.index {x | ∃ b ∈ acks, b.server.val = i ∧ b.index = x}
      else {x | ∃ b ∈ acks, b.server.val = i ∧ b.index = x} := by
  ext x
  simp only [List.exists_mem_cons_iff, Set.mem_ofPred_eq]
  split
  · rename_i hs
    simp [hs, eq_comm]
  · rename_i hs
    simp [hs]

theorem recorded_greatest {ms : List Nat} {acks : List (Ack peers Cmd)} (h : InOrder ms acks)
    {i m : Nat} (hm : ms[i]? = some m) :
    ∃ m', (recorded ms acks)[i]? = some m' ∧
      IsGreatest (insert m {x | ∃ a ∈ acks, a.server.val = i ∧ a.index = x}) m' := by
  induction acks generalizing ms m with
  | nil => exact ⟨m, hm, by simp [IsGreatest, upperBounds]⟩
  | cons a acks ih =>
    have hlt := (List.getElem?_eq_some_iff.mp hm).1
    rw [acknowledged_cons]
    split
    · rename_i hs
      obtain ⟨m', hm', hmax⟩ := ih h.tail (by rw [← hs, List.getElem?_set_self (hs ▸ hlt)])
      have hle : m ≤ m' := (h.fresh a List.mem_cons_self m (hs ▸ hm)).trans (hmax.2 (.inl rfl))
      refine ⟨m', hm', ?_⟩
      rw [← max_eq_right hle]
      exact hmax.insert m
    · rename_i hs
      exact ih h.tail (by rwa [List.getElem?_set_ne hs])

theorem recorded_length (ms : List Nat) (acks : List (Ack peers Cmd)) :
    (recorded ms acks).length = ms.length := by
  induction acks generalizing ms with
  | nil => rfl
  | cons a acks ih => exact (ih _).trans List.length_set

theorem recorded_perm {ms : List Nat} {acks acks' : List (Ack peers Cmd)}
    (hperm : acks.Perm acks') (h : InOrder ms acks) (h' : InOrder ms acks') :
    recorded ms acks = recorded ms acks' := by
  refine List.ext_getElem? fun i => ?_
  by_cases hi : i < ms.length
  · obtain ⟨m, hm, hmax⟩ := recorded_greatest h (List.getElem?_eq_getElem hi)
    obtain ⟨m', hm', hmax'⟩ := recorded_greatest h' (List.getElem?_eq_getElem hi)
    simp only [hperm.mem_iff] at hmax
    rw [hm, hm', hmax.unique hmax']
  · rw [List.getElem?_eq_none (by rw [recorded_length]; omega),
      List.getElem?_eq_none (by rw [recorded_length]; omega)]

/-- The run lemma: from where the commit index would be after a scan, a list of replies
takes it to where it would be after one scan at the end. -/
theorem Leading.receive_from (h : Leading peers rf) {acks : List (Ack peers Cmd)}
    (hacks : ∀ a ∈ acks, Credited rf a) (hord : InOrder rf.matchIndex acks) {c : Nat}
    (hc : GreatestFrom {N | rf.Replicated N} c rf.commitIndex) :
    ∃ rf', rf.receive acks = some rf' ∧ Leading peers rf' ∧ rf'.log = rf.log ∧
      rf'.currentTerm = rf.currentTerm ∧ rf'.matchIndex = recorded rf.matchIndex acks ∧
      GreatestFrom {N | rf'.Replicated N} c rf'.commitIndex := by
  induction acks generalizing rf with
  | nil => exact ⟨rf, rfl, h, rfl, rfl, rfl, hc⟩
  | cons a acks ih =>
    obtain ⟨rf₁, hsend, h₁, hlog, hterm, hmatch, hcommit⟩ :=
      h.receive_one (hacks a List.mem_cons_self)
    have hgrow : List.Forall₂ (· ≤ ·) rf.matchIndex rf₁.matchIndex :=
      hmatch ▸ forall₂_set (hord.fresh a List.mem_cons_self)
    have hc₁ := hc.trans (replicated_mono hlog hterm hgrow) hcommit
    have hacks₁ : ∀ b ∈ acks, Credited rf₁ b := fun b hb =>
      (hacks b (List.mem_cons_of_mem a hb)).of_term hterm
    obtain ⟨rf', hrest, h', hlog', hterm', hmatch', hcommit'⟩ :=
      ih h₁ hacks₁ (hmatch ▸ hord.tail) hc₁
    refine ⟨rf', (receive_cons_eq hsend acks).trans hrest, h', hlog'.trans hlog, hterm'.trans hterm,
      ?_, hcommit'⟩
    rw [hmatch', hmatch]
    rfl

theorem Leading.receive_cons (h : Leading peers rf) {a : Ack peers Cmd}
    {acks : List (Ack peers Cmd)} (hacks : ∀ b ∈ a :: acks, Credited rf b)
    (hord : InOrder rf.matchIndex (a :: acks)) :
    ∃ rf', rf.receive (a :: acks) = some rf' ∧ rf'.log = rf.log ∧
      rf'.currentTerm = rf.currentTerm ∧ rf'.matchIndex = recorded rf.matchIndex (a :: acks) ∧
      GreatestFrom {N | rf'.Replicated N} rf.commitIndex rf'.commitIndex := by
  obtain ⟨rf₁, hsend, h₁, hlog, hterm, hmatch, hcommit⟩ :=
    h.receive_one (hacks a List.mem_cons_self)
  have hacks₁ : ∀ b ∈ acks, Credited rf₁ b := fun b hb =>
    (hacks b (List.mem_cons_of_mem a hb)).of_term hterm
  obtain ⟨rf', hrest, -, hlog', hterm', hmatch', hcommit'⟩ :=
    h₁.receive_from hacks₁ (hmatch ▸ hord.tail) hcommit
  refine ⟨rf', (receive_cons_eq hsend acks).trans hrest, hlog'.trans hlog, hterm'.trans hterm,
    ?_, hcommit'⟩
  rw [hmatch', hmatch]
  rfl

def OwnMatch (me : Fin peers) (rf : Raft Cmd) : Prop :=
  ∀ m, rf.matchIndex[me.val]? = some m → m ≤ rf.log.length

/-- What the leader `me` does with what it is called with and with the replies it gets.  Success
replies come in order, and no request cuts its log below `matchIndex[me]`. -/
inductive LeaderStep (me : Fin peers) (rf rf' : Raft Cmd) : Prop where
  | reply (a : Ack peers Cmd) (hne : a.server ≠ me)
      (hord : a.reply.success = true → InOrder rf.matchIndex [a])
      (h : rf.sendAppendEntries peers a.server a.args a.reply = some rf')
  | start (command : Cmd) (r : Int × Nat × Bool) (h : rf.start me command = some (rf', r))
  | requestVote (args : RequestVoteArgs) (r : RequestVoteReply)
      (h : rf.requestVote args = some (rf', r))
  | vote (r : RequestVoteReply) (out : Option (AppendEntriesArgs Cmd))
      (h : rf.sendRequestVote peers r = (rf', out))
  | appendEntries (args : AppendEntriesArgs Cmd) (r : AppendEntriesReply)
      (h : rf.appendEntries args = some (rf', r)) (hkept : OwnMatch me rf')

def StaysLeader (me : Fin peers) (rf rf' : Raft Cmd) : Prop :=
  rf.state = .leader ∧ LeaderStep me rf rf' ∧ rf'.state = .leader

theorem Appended.matchIndex {args : AppendEntriesArgs Cmd} {r : AppendEntriesReply}
    (h : rf.Appended args rf' r) : rf'.matchIndex = rf.matchIndex := by
  cases h with
  | stale => rfl
  | short => exact observe_matchIndex _
  | conflict => exact observe_matchIndex _
  | agree _ _ _ _ _ hf => exact hf.frame.matchIndex.trans (observe_matchIndex _)

theorem LeaderStep.grows {me : Fin peers} (hlead : rf.state = .leader) (h : LeaderStep me rf rf')
    (hown : OwnMatch me rf) :
    List.Forall₂ (· ≤ ·) rf.matchIndex rf'.matchIndex ∧ OwnMatch me rf' := by
  have same : rf'.matchIndex = rf.matchIndex → rf'.log = rf.log →
      List.Forall₂ (· ≤ ·) rf.matchIndex rf'.matchIndex ∧ OwnMatch me rf' := by
    intro hmatch hlog
    refine ⟨hmatch ▸ List.forall₂_refl _, ?_⟩
    unfold OwnMatch
    rwa [hmatch, hlog]
  cases h with
  | reply a hne hord h =>
    cases sendAppendEntries_spec h with
    | ignored => exact same rfl rfl
    | deposed => exact same rfl rfl
    | backedOff => exact same rfl rfl
    | rejected _ _ _ _ hs => exact same hs.frame.matchIndex hs.frame.log
    | matched _ _ _ hsucc _ _ hs =>
      have hmatch : rf'.matchIndex = rf.matchIndex.set a.server a.index := hs.frame.matchIndex
      refine ⟨hmatch ▸ forall₂_set ((hord hsucc).fresh a (by simp)), fun m hm => ?_⟩
      rw [hmatch, List.getElem?_set_ne (fun heq => hne (Fin.ext heq))] at hm
      exact hs.frame.log ▸ hown m hm
  | start command r h =>
    cases start_spec h with
    | refused => exact same rfl rfl
    | appended _ hlt _ =>
      refine ⟨forall₂_set hown, fun m hm => ?_⟩
      rw [List.getElem?_set_self hlt] at hm
      rw [← Option.some.inj hm, List.length_append]
      omega
  | requestVote args r h =>
    cases requestVote_spec h with
    | stale => exact same rfl rfl
    | refused | granted => exact same (observe_matchIndex _) (observe_log _)
  | vote r out h =>
    cases sendRequestVote_spec h with
    | deposed | refused | counted => exact same rfl rfl
    | elected _ _ _ hcand => simp [hlead] at hcand
  | appendEntries args r h hkept =>
    exact ⟨(appendEntries_spec h).matchIndex ▸ List.forall₂_refl _, hkept⟩

theorem leaderSteps_grow {me : Fin peers} (h : Relation.ReflTransGen (StaysLeader me) rf rf')
    (hown : OwnMatch me rf) :
    List.Forall₂ (· ≤ ·) rf.matchIndex rf'.matchIndex ∧ OwnMatch me rf' := by
  induction h with
  | refl => exact ⟨List.forall₂_refl _, hown⟩
  | tail _ hstep ih =>
    obtain ⟨hle, hown'⟩ := hstep.2.1.grows hstep.1 ih.2
    exact ⟨forall₂_trans ih.1 hle, hown'⟩

theorem Leading.grows_iff (h : Leading peers rf) {a : Ack peers Cmd} (ha : Credited rf a)
    (hsend : rf.sendAppendEntries peers a.server a.args a.reply = some rf') :
    List.Forall₂ (· ≤ ·) rf.matchIndex rf'.matchIndex ↔ InOrder rf.matchIndex [a] := by
  obtain ⟨rf₁, hsend₁, -, -, -, hmatch, -⟩ := h.receive_one ha
  obtain rfl : rf₁ = rf' := Option.some.inj (hsend₁.symm.trans hsend)
  rw [hmatch]
  constructor
  · intro hle
    refine ⟨fun b hb m hm => ?_, List.pairwise_singleton _ _⟩
    obtain rfl := List.mem_singleton.mp hb
    obtain ⟨hlt, rfl⟩ := List.getElem?_eq_some_iff.mp hm
    have hget := hle.get (i := b.server.val) hlt (by rwa [List.length_set])
    simpa using hget
  · exact fun hord => forall₂_set (hord.fresh a (by simp))

theorem reply_order_irrelevant (h : Leading peers rf) {acks acks' : List (Ack peers Cmd)}
    (hperm : acks.Perm acks') (hacks : ∀ a ∈ acks, Credited rf a)
    (hord : InOrder rf.matchIndex acks) (hord' : InOrder rf.matchIndex acks') :
    (∃ rf₁ rf₂, rf.receive acks = some rf₁ ∧ rf.receive acks' = some rf₂ ∧
      rf₁.matchIndex = rf₂.matchIndex ∧ rf₁.commitIndex = rf₂.commitIndex) ∧
    (∀ me : Fin peers, OwnMatch me rf → ∀ rf₁ rf₂ : Raft Cmd,
      Relation.ReflTransGen (StaysLeader me) rf rf₁ →
      Relation.ReflTransGen (StaysLeader me) rf₁ rf₂ →
      List.Forall₂ (· ≤ ·) rf₁.matchIndex rf₂.matchIndex) ∧
    ∀ a : Ack peers Cmd, Credited rf a → ∀ rf' : Raft Cmd,
      rf.sendAppendEntries peers a.server a.args a.reply = some rf' →
      (List.Forall₂ (· ≤ ·) rf.matchIndex rf'.matchIndex ↔ InOrder rf.matchIndex [a]) := by
  refine ⟨?_, fun me hown rf₁ rf₂ h₁ h₂ => (leaderSteps_grow h₂ (leaderSteps_grow h₁ hown).2).1,
    fun a ha rf' hsend => h.grows_iff ha hsend⟩
  cases acks with
  | nil =>
    obtain rfl := hperm.nil_eq
    exact ⟨rf, rf, rfl, rfl, rfl, rfl⟩
  | cons a as =>
    cases acks' with
    | nil => exact absurd hperm.symm.nil_eq (by simp)
    | cons a' as' =>
      obtain ⟨rf₁, h₁, hlog₁, hterm₁, hmatch₁, hcommit₁⟩ := h.receive_cons hacks hord
      obtain ⟨rf₂, h₂, hlog₂, hterm₂, hmatch₂, hcommit₂⟩ :=
        h.receive_cons (fun b hb => hacks b (hperm.mem_iff.mpr hb)) hord'
      have hmatch : rf₁.matchIndex = rf₂.matchIndex := by
        rw [hmatch₁, hmatch₂, recorded_perm hperm hord hord']
      have hsame : {N | rf₁.Replicated N} = {N | rf₂.Replicated N} :=
        replicated_congr (hlog₁.trans hlog₂.symm) (hterm₁.trans hterm₂.symm) hmatch
      exact ⟨rf₁, rf₂, h₁, h₂, hmatch, (hsame ▸ hcommit₁).unique hcommit₂⟩

def ackWith (server : Fin 5) (commands : List Nat) : Ack 5 Nat where
  server := server
  args := { term := 1, entries := commands.map (⟨1, ·⟩) }
  reply := ⟨1, true⟩

theorem reply_order_irrelevant_leaderWith : ∃ rf₁ rf₂,
    (leaderWith 5 [7, 8]).receive [ackWith 1 [7], ackWith 1 [7, 8], ackWith 2 [7, 8]] = some rf₁ ∧
    (leaderWith 5 [7, 8]).receive [ackWith 2 [7, 8], ackWith 1 [7], ackWith 1 [7, 8]] = some rf₂ ∧
    rf₁.matchIndex = rf₂.matchIndex ∧ rf₁.commitIndex = rf₂.commitIndex := by
  have hlead : Leading 5 (leaderWith 5 [7, 8]) := ⟨rfl, rfl, rfl⟩
  have hperm : ([ackWith 1 [7], ackWith 1 [7, 8]] ++ [ackWith 2 [7, 8]]).Perm
      ([ackWith 2 [7, 8]] ++ [ackWith 1 [7], ackWith 1 [7, 8]]) := List.perm_append_comm
  have hcredited : ∀ server commands, Credited (leaderWith 5 [7, 8]) (ackWith server commands) :=
    fun _ _ => ⟨rfl, le_rfl⟩
  refine (reply_order_irrelevant hlead hperm (by simp [hcredited]) ⟨?_, ?_⟩ ⟨?_, ?_⟩).1
  all_goals simp [leaderWith, ackWith, Ack.index]

/-- The leader sends `[7]` to peer 1, is given `8`, and sends `[7, 8]` to peers 1 and 2.  When
the first reply of peer 1 is overtaken by the second, `matchIndex[1]` falls back to 1 and the
entry at 2 is not committed. -/
theorem receive_overtaken :
    (leaderWith 5 [7]).start 0 8 = some (leaderWith 5 [7, 8], 2, 1, true) ∧
    (leaderWith 5 [7]).heartBeat 0 1 = some (ackWith 1 [7]).args ∧
    (leaderWith 5 [7, 8]).heartBeat 0 1 = some (ackWith 1 [7, 8]).args ∧
    (leaderWith 5 [7, 8]).heartBeat 0 2 = some (ackWith 2 [7, 8]).args ∧
    ((leaderWith 5 [7, 8]).receive [ackWith 1 [7], ackWith 1 [7, 8], ackWith 2 [7, 8]]).map
      (fun rf => (rf.matchIndex, rf.commitIndex)) = some ([2, 2, 2, 0, 0], 2) ∧
    ((leaderWith 5 [7, 8]).receive [ackWith 1 [7, 8], ackWith 1 [7], ackWith 2 [7, 8]]).map
      (fun rf => (rf.matchIndex, rf.commitIndex)) = some ([2, 1, 2, 0, 0], 1) := by
  decide

end MrAndRaft.Raft
