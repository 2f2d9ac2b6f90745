import MrAndRaft.Raft.LogMatching

/-! What a leader knows of its followers: `nextIndex` and `matchIndex`. -/

namespace MrAndRaft

variable {n : Nat} {Cmd : Type} {s s' : Cluster n Cmd} {p q : Fin n} {e : Event n Cmd} {T : Nat}

def Cluster.appendReply (s : Cluster n Cmd) : Event n Cmd → Option (AppendCall n Cmd)
  | .sendAppendEntries k => s.appendCalls[k]?
  | _ => none

def FreshAcks (s : Cluster n Cmd) (e : Event n Cmd) : Prop :=
  ∀ c ∈ s.appendReply e, ∀ r ∈ c.stage.reply, r.success = true →
    (s.peer c.src).state = .leader → c.sentTerm = (s.peer c.src).currentTerm

instance (s : Cluster n Cmd) (e : Event n Cmd) : Decidable (FreshAcks s e) :=
  inferInstanceAs (Decidable (∀ c ∈ s.appendReply e, _))

inductive IndexStep (s : Cluster n Cmd) (p : Fin n) (rf : Raft Cmd) : Event n Cmd → Prop
  | same (e : Event n Cmd) : rf.nextIndex = (s.peer p).nextIndex →
      rf.matchIndex = (s.peer p).matchIndex → IndexStep s p rf e
  | started (command : Cmd) : rf.log = (s.peer p).log ++ [⟨(s.peer p).currentTerm, command⟩] →
      rf.nextIndex = (s.peer p).nextIndex.set p ((s.peer p).log.length + 1) →
      rf.matchIndex = (s.peer p).matchIndex.set p (s.peer p).log.length →
      IndexStep s p rf (.start p command)
  | acknowledged (k : Nat) (c : AppendCall n Cmd) (r : AppendEntriesReply) :
      s.appendCalls[k]? = some c → c.src = p → c.stage = .returned r → r.success = true →
      rf.nextIndex = (s.peer p).nextIndex.set c.dst
        (c.args.entries.length + c.args.prevLogIndex + 1) →
      rf.matchIndex = (s.peer p).matchIndex.set c.dst
        (c.args.entries.length + c.args.prevLogIndex) →
      IndexStep s p rf (.sendAppendEntries k)
  | backedOff (e : Event n Cmd) (server next : Nat) :
      (s.peer p).nextIndex[server]? = some next → 1 < next →
      rf.nextIndex = (s.peer p).nextIndex.set server (next / 2) →
      rf.matchIndex = (s.peer p).matchIndex → IndexStep s p rf e

theorem IndexStep.observe {rf : Raft Cmd} {term : Nat}
    (hnext : rf.nextIndex = ((s.peer p).observe term).nextIndex)
    (hmatch : rf.matchIndex = ((s.peer p).observe term).matchIndex) : IndexStep s p rf e := by
  rw [Raft.observe_nextIndex] at hnext
  rw [Raft.observe_matchIndex] at hmatch
  exact .same e hnext hmatch

theorem PeerStep.indexStep {rf : Raft Cmd} (h : PeerStep s p e rf)
    (hlead : (s.peer p).state = .leader) : IndexStep s p rf e := by
  cases h with
  | same => exact .same _ rfl rfl
  | candidate rf hrf =>
    subst hrf
    exact .same _ rfl rfl
  | started command rf h =>
    cases h with
    | refused => exact .same _ rfl rfl
    | appended => exact .started command rfl rfl rfl
  | voted _ _ _ _ _ _ h =>
    cases h with
    | stale => exact .same _ rfl rfl
    | refused => exact .observe rfl rfl
    | granted => exact .observe rfl rfl
  | counted k c r rf out hk hsrc hst h =>
    cases h with
    | deposed | refused | counted => exact .same _ rfl rfl
    | elected _ _ _ hcand => simp [hlead] at hcand
  | appended _ _ _ _ _ _ _ h =>
    cases h with
    | stale => exact .same _ rfl rfl
    | short => exact .observe rfl rfl
    | conflict => exact .observe rfl rfl
    | agree _ _ _ _ _ hf => exact .observe hf.frame.nextIndex hf.frame.matchIndex
  | acknowledged k c r rf hk hsrc hst h =>
    cases h with
    | ignored | deposed => exact .same _ rfl rfl
    | matched _ _ _ hsucc _ _ hs =>
      exact .acknowledged k c r hk hsrc hst hsucc hs.frame.nextIndex hs.frame.matchIndex
    | backedOff next _ _ _ hnext hlt => exact .backedOff _ c.dst next hnext hlt rfl rfl
    | rejected _ _ _ _ hs => exact .same _ hs.frame.nextIndex hs.frame.matchIndex

/-- `q` replied Success to a request of `p` sent in term `T` that ended at index `m`. -/
def AckedBy (s : Cluster n Cmd) (p : Fin n) (T : Nat) (q : Fin n) (m : Nat) : Prop :=
  ∃ c ∈ s.appendCalls, c.src = p ∧ c.dst = q ∧ c.sentTerm = T ∧
    c.args.prevLogIndex + c.args.entries.length = m ∧
    ∃ r, c.stage = .received r ∧ r.success = true

theorem AckedBy.advance {m : Nat} (h : AckedBy s p T q m)
    (ha : Advance s.appendCalls s'.appendCalls) : AckedBy s' p T q m := by
  obtain ⟨c, hc, hsrc, hdst, hterm, hm, r, hst, hsucc⟩ := h
  obtain ⟨k, hk⟩ := List.mem_iff_getElem?.mp hc
  obtain ⟨c', hc', hl⟩ := ha k c hk
  refine ⟨c', List.mem_of_getElem? hc', ?_⟩
  rw [hl.src, hl.dst, hl.sentTerm, hl.args]
  exact ⟨hsrc, hdst, hterm, hm, r, hl.received r hst, hsucc⟩

theorem Raft.HeartBeat.carries {rf : Raft Cmd} {me peer : Nat} {args : AppendEntriesArgs Cmd}
    (hb : rf.HeartBeat me peer args) (hle : args.prevLogIndex + 1 ≤ rf.log.length) :
    Carries rf.log args := by
  rcases Nat.lt_or_eq_of_le hle with hlt | heq
  · obtain ⟨prev, hprev, hterm, hent⟩ := hb.suffix hlt
    exact ⟨⟨prev, hprev, hterm⟩, hent⟩
  · obtain ⟨last, hlast, hterm, hent⟩ := hb.empty heq.ge
    rw [← heq, Nat.add_sub_cancel] at hlast
    exact ⟨⟨last, hlast, hterm⟩, by rw [hent, List.drop_of_length_le heq.ge]⟩

section Runs

variable [Inhabited Cmd] {σ : List (Cluster n Cmd)}

structure IndexOk (n : Nat) (rf : Raft Cmd) : Prop where
  nextLength : rf.nextIndex.length = n
  matchLength : rf.matchIndex.length = n
  next : ∀ x ∈ rf.nextIndex, 1 ≤ x ∧ x ≤ rf.log.length
  matched : ∀ m ∈ rf.matchIndex, m < rf.log.length

omit [Inhabited Cmd] in
theorem IndexOk.carries {rf : Raft Cmd} (h : IndexOk n rf) {me peer : Nat}
    {args : AppendEntriesArgs Cmd} (hb : rf.HeartBeat me peer args) : Carries rf.log args :=
  hb.carries (h.next _ (List.mem_of_getElem? hb.next)).2

omit [Inhabited Cmd] in
theorem IndexOk.update {rf rf' : Raft Cmd} (h : IndexOk n rf)
    (hlog : rf.log.length ≤ rf'.log.length)
    (hnextLength : rf'.nextIndex.length = rf.nextIndex.length)
    (hmatchLength : rf'.matchIndex.length = rf.matchIndex.length)
    (hnext : ∀ x ∈ rf'.nextIndex, x ∈ rf.nextIndex ∨ 1 ≤ x ∧ x ≤ rf'.log.length)
    (hmatch : ∀ m ∈ rf'.matchIndex, m ∈ rf.matchIndex ∨ m < rf'.log.length) : IndexOk n rf' where
  nextLength := hnextLength.trans h.nextLength
  matchLength := hmatchLength.trans h.matchLength
  next x hx := by
    rcases hnext x hx with hx | hx
    · exact ⟨(h.next x hx).1, (h.next x hx).2.trans hlog⟩
    · exact hx
  matched m hm := by
    rcases hmatch m hm with hm | hm
    · exact (h.matched m hm).trans_le hlog
    · exact hm

theorem Run.request_length (h : Run CrashFree (s :: σ)) (hone : OneLeader (s :: σ))
    (hok : ∀ t ∈ s :: σ, ∀ p, (t.peer p).state = .leader → IndexOk n (t.peer p))
    {c : AppendCall n Cmd} (hc : c ∈ s.appendCalls) (hlog : (s.peer c.src).log ≠ [])
    (hterm : c.sentTerm = (s.peer c.src).currentTerm) :
    c.args.entries.length + c.args.prevLogIndex + 1 ≤ (s.peer c.src).log.length := by
  obtain ⟨-, t, ht, hsent⟩ := h.sentIn s List.mem_cons_self c hc
  cases hsent with
  | first _ hargs =>
    rw [hargs]
    exact List.length_pos_iff.mpr hlog
  | heartBeat hlead _ hb =>
    have hlen := ((hok t ht c.src hlead.1).carries hb).length
    have hle := (h.leader_log_prefix hone ht hlead hterm.symm).length_le
    omega

theorem Run.log_ne_nil (h : Run CrashFree σ) (hone : OneLeader σ) (hs : s ∈ σ) (p : Fin n) :
    (s.peer p).log ≠ [] := by
  intro hnil
  simpa [hnil] using (h.logOk hone s hs p).sentinel

theorem Run.indexOk (h : Run (fun s e => CrashFree s e ∧ FreshAcks s e) σ) (hone : OneLeader σ) :
    ∀ s ∈ σ, ∀ p, (s.peer p).state = .leader → IndexOk n (s.peer p) := by
  have hcf := h.crashFree
  refine History.Run.forall_mem_of_history h (fun p hp => by cases hp) ?_
  rintro s e s' τ hτ hrun ih ⟨⟨hce, hfresh⟩, hstep⟩ p hlead
  have hs : s ∈ σ := hτ.subset (by simp)
  have hs' : s' ∈ σ := hτ.subset (by simp)
  have hone' : OneLeader (s :: τ) := hone.subset fun t ht => hτ.subset (List.mem_cons_of_mem _ ht)
  have hpeer := (step_spec hstep).peerStep hce p
  have hne := hcf.log_ne_nil hone hs p
  cases hpeer.roleStep.leaderFrom hlead with
  | elected k c r _ _ _ _ _ _ _ hnext hmatch =>
    have hlog : (s'.peer p).log = (s.peer p).log := by
      cases hpeer.logStep with
      | same _ heq => exact heq
    have hpos := List.length_pos_iff.mpr hne
    refine ⟨by simp [hnext], by simp [hmatch], fun x hx => ?_, fun m hm => ?_⟩
    · obtain rfl := (List.mem_replicate.mp (hnext ▸ hx)).2
      exact ⟨hpos, hlog ▸ le_rfl⟩
    · obtain rfl := (List.mem_replicate.mp (hmatch ▸ hm)).2
      exact hlog ▸ hpos
  | stays _ hlead₀ hterm =>
    have hok := ih s List.mem_cons_self p hlead₀
    have hgrow : (s.peer p).log.length ≤ (s'.peer p).log.length := by
      rcases hcf.leader_logStep hone hs' hs ⟨hlead, rfl⟩ hpeer.logStep with heq | ⟨_, -, heq⟩
      · rw [heq]
      · simp [heq]
    cases hpeer.indexStep hlead₀ with
    | same _ hnext hmatch =>
      exact hok.update hgrow (by rw [hnext]) (by rw [hmatch]) (fun x hx => .inl (hnext ▸ hx))
        fun m hm => .inl (hmatch ▸ hm)
    | started command heq hnext hmatch =>
      refine hok.update hgrow (by simp [hnext]) (by simp [hmatch])
        (fun x hx => ?_) fun m hm => ?_
      · exact (List.mem_or_eq_of_mem_set (hnext ▸ hx)).imp_right fun hx => by simp [hx, heq]
      · exact (List.mem_or_eq_of_mem_set (hmatch ▸ hm)).imp_right fun hm => by simp [hm, heq]
    | acknowledged k c r hk hsrc hst hsucc hnext hmatch =>
      subst hsrc
      have hcur := hfresh c hk r (by simp [hst, Stage.reply]) hsucc hlead₀
      have hle := (show Run CrashFree (s :: τ) from Run.crashFree hrun).request_length hone' ih
        (List.mem_of_getElem? hk) hne hcur
      refine hok.update hgrow (by simp [hnext]) (by simp [hmatch])
        (fun x hx => ?_) fun m hm => ?_
      · exact (List.mem_or_eq_of_mem_set (hnext ▸ hx)).imp_right fun hx => by omega
      · exact (List.mem_or_eq_of_mem_set (hmatch ▸ hm)).imp_right fun hm => by omega
    | backedOff _ server next hold hlt hnext hmatch =>
      have hle := hok.next next (List.mem_of_getElem? hold)
      refine hok.update hgrow (by simp [hnext]) (by rw [hmatch])
        (fun x hx => ?_) fun m hm => .inl (hmatch ▸ hm)
      exact (List.mem_or_eq_of_mem_set (hnext ▸ hx)).imp_right fun hx => by omega

theorem Run.ackedBy (h : Run (fun s e => CrashFree s e ∧ FreshAcks s e) σ) :
    ∀ s ∈ σ, ∀ p T, Leads s p T → ∀ q, q ≠ p → ∀ m, (s.peer p).matchIndex[q.val]? = some m →
      0 < m → AckedBy s p T q m := by
  refine History.Run.forall_mem h (fun p T hl => by cases hl.1) ?_
  rintro s e s' ih ⟨⟨hce, hfresh⟩, hstep⟩ p T ⟨hlead, rfl⟩ q hq m hm hpos
  have hs := step_spec hstep
  have hpeer := hs.peerStep hce p
  have hadv := (hs.appendCallStep hce).advance
  cases hpeer.roleStep.leaderFrom hlead with
  | elected k c r _ _ _ _ _ _ _ _ hmatch =>
    have hmem := List.mem_of_getElem? hm
    rw [hmatch] at hmem
    exact absurd (List.mem_replicate.mp hmem).2 (by omega)
  | stays _ hlead₀ hterm =>
    have old : (s.peer p).matchIndex[q.val]? = some m → AckedBy s' p (s'.peer p).currentTerm q m :=
      fun hm₀ => (ih p _ ⟨hlead₀, hterm.symm⟩ q hq m hm₀ hpos).advance hadv
    have hval : ∀ r : Fin n, r ≠ q → r.val ≠ q.val := fun r hr heq => hr (Fin.ext heq)
    cases hpeer.indexStep hlead₀ with
    | same _ _ hmatch => exact old (hmatch ▸ hm)
    | started command _ _ hmatch =>
      rw [hmatch, List.getElem?_set_ne (hval p hq.symm)] at hm
      exact old hm
    | acknowledged k c r hk hsrc hst hsucc _ hmatch =>
      by_cases hdst : c.dst = q
      · subst hsrc hdst
        obtain ⟨hlt, -⟩ := List.getElem?_eq_some_iff.mp hm
        rw [hmatch, List.length_set] at hlt
        rw [hmatch, List.getElem?_set_self hlt] at hm
        refine ⟨_, List.mem_of_getElem? (hs.received_append hk hst), rfl, rfl, ?_, ?_, r, rfl,
          hsucc⟩
        · exact (hfresh c hk r (by simp [hst, Stage.reply]) hsucc hlead₀).trans hterm.symm
        · exact (Nat.add_comm _ _).trans (Option.some.inj hm)
      · rw [hmatch, List.getElem?_set_ne (hval c.dst hdst)] at hm
        exact old hm
    | backedOff _ _ _ _ _ _ hmatch => exact old (hmatch ▸ hm)

abbrev FreshReplies (s : Cluster n Cmd) (e : Event n Cmd) : Prop :=
  CrashFree s e ∧ FreshVotes s e ∧ FreshAcks s e

theorem Run.freshVotes (h : Run FreshReplies σ) : FreshRun σ :=
  h.mono fun _ _ hok => ⟨hok.1, hok.2.1⟩

theorem Run.freshAcks (h : Run FreshReplies σ) : Run (fun s e => CrashFree s e ∧ FreshAcks s e) σ :=
  h.mono fun _ _ hok => ⟨hok.1, hok.2.2⟩

theorem ack_provenance (h : Run FreshReplies σ) (hs : s ∈ σ) (hlead : Leads s p T) (hq : q ≠ p) :
    (∀ m, (s.peer p).matchIndex[q.val]? = some m → 0 < m →
      AckedBy s p T q m ∧ m ≤ (s.peer p).log.length - 1) ∧
    (∀ x, (s.peer p).nextIndex[q.val]? = some x → x ≤ (s.peer p).log.length) := by
  have hacks := h.freshAcks
  have hone := h.freshVotes.oneLeader
  have hok := hacks.indexOk hone s hs p hlead.1
  refine ⟨fun m hm hpos => ⟨hacks.ackedBy s hs p T hlead q hq m hm hpos, ?_⟩, fun x hx => ?_⟩
  · have := hok.matched m (List.mem_of_getElem? hm)
    omega
  · exact (hok.next x (List.mem_of_getElem? hx)).2

/-- Peer 1 acknowledges an entry of peer 0's first leadership; the reply arrives after
peer 2 has deposed peer 0 and elected it again in term 3. -/
def lateAck : List (Event 3 Nat) :=
  replication ++ [.persist 1, .heartBeat 2, .persist 2, .becomeCandidate 2, .persist 2,
    .becomeCandidate 2, .requestVote 4, .persist 0, .becomeCandidate 0, .requestVote 7,
    .persist 2, .receivedVote 7, .sendRequestVote 7, .sendAppendEntries 2]

theorem unproven_match_lateAck : ∃ (s : Cluster 3 Nat) (σ : List (Cluster 3 Nat)),
    Run CrashFree (s :: σ) ∧ Leads s 0 3 ∧ (s.peer 0).matchIndex[1]? = some 1 ∧
      ¬ AckedBy s 0 3 1 1 := by
  obtain ⟨s, σ, hrun, hlead, hmatch, hall⟩ := exists_run CrashFree (fun s => Leads s 0 3 ∧
    (s.peer 0).matchIndex[1]? = some 1 ∧ ∀ c ∈ s.appendCalls, c.sentTerm = 3 →
      c.args.prevLogIndex + c.args.entries.length = 0) lateAck (by decide)
  refine ⟨s, σ, hrun, hlead, hmatch, ?_⟩
  rintro ⟨c, hc, -, -, hterm, hm, -⟩
  rw [hall c hc hterm] at hm
  cases hm

theorem ack_provenance_replication : ∃ (s : Cluster 3 Nat) (σ : List (Cluster 3 Nat)),
    Run FreshReplies (s :: σ) ∧ Leads s 0 1 ∧ (s.peer 0).matchIndex[1]? = some 1 ∧
      AckedBy s 0 1 1 1 := by
  obtain ⟨s, σ, hrun, hlead, hmatch⟩ := exists_run FreshReplies
    (fun s => Leads s 0 1 ∧ (s.peer 0).matchIndex[1]? = some 1)
    (replication ++ [.persist 1, .heartBeat 2, .sendAppendEntries 2]) (by decide)
  exact ⟨s, σ, hrun, hlead, hmatch,
    ((ack_provenance hrun List.mem_cons_self hlead (by decide)).1 1 hmatch (by decide)).1⟩

end Runs

end MrAndRaft
