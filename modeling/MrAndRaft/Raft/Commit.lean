import MrAndRaft.Raft.Completeness

/-! What is committed is chosen, so every peer applies the same commands. -/

namespace MrAndRaft

open Quorum

variable {n : Nat} {Cmd : Type} {s s' : Cluster n Cmd} {p q : Fin n} {e : Event n Cmd} {t : Nat}
  {P : List (LogEntry Cmd)}

inductive CommitStep (s : Cluster n Cmd) (p : Fin n) (rf : Raft Cmd) : Event n Cmd → Prop
  | same (e : Event n Cmd) : rf.commitIndex = (s.peer p).commitIndex →
      rf.applyCh = (s.peer p).applyCh → CommitStep s p rf e
  | scanned (e : Event n Cmd) (x : LogEntry Cmd) (msgs : List (ApplyMsg Cmd)) :
      rf.state = .leader → rf.log[rf.commitIndex]? = some x → x.term = rf.currentTerm →
      n / 2 < rf.matchCount rf.commitIndex →
      Raft.Delivers rf.log (s.peer p).lastApplied rf.commitIndex msgs →
      rf.applyCh = (s.peer p).applyCh ++ msgs → CommitStep s p rf e
  | followed (k : Nat) (c : AppendCall n Cmd) (prev : LogEntry Cmd) (msgs : List (ApplyMsg Cmd)) :
      s.appendCalls[k]? = some c → c.dst = p → (s.peer p).currentTerm ≤ c.args.term →
      rf.currentTerm = c.args.term → (s.peer p).log[c.args.prevLogIndex]? = some prev →
      c.args.prevLogTerm = prev.term →
      rf.log = (s.peer p).log.take (c.args.prevLogIndex + 1) ++ c.args.entries →
      (s.peer p).commitIndex < c.args.leaderCommit →
      rf.commitIndex = min c.args.leaderCommit (rf.log.length - 1) →
      Raft.Delivers rf.log (s.peer p).lastApplied rf.commitIndex msgs →
      rf.applyCh = (s.peer p).applyCh ++ msgs → CommitStep s p rf (.appendEntries k)

theorem CommitStep.of_scanned {rf rf' : Raft Cmd} (hrf : rf.Scanned n rf')
    (hlead : rf.state = .leader) (hcommit : rf.commitIndex = (s.peer p).commitIndex)
    (happlied : rf.lastApplied = (s.peer p).lastApplied)
    (hch : rf.applyCh = (s.peer p).applyCh) : CommitStep s p rf' e := by
  cases hrf with
  | unchanged => exact .same e hcommit hch
  | committed N x _ _ hx hterm hmaj hc =>
    cases hc with
    | intro msgs hd => exact .scanned e x msgs hlead hx hterm hmaj (happlied ▸ hd) (by simp [hch])

theorem PeerStep.commitStep {rf : Raft Cmd} (h : PeerStep s p e rf) : CommitStep s p rf e := by
  cases h with
  | same => exact .same _ rfl rfl
  | candidate rf hrf =>
    subst hrf
    exact .same _ rfl rfl
  | started _ _ h => cases h <;> exact .same _ rfl rfl
  | voted _ _ _ _ _ _ h => cases h <;> exact .same _ (by simp) (by simp)
  | counted _ _ _ _ _ _ _ _ h => cases h <;> exact .same _ rfl rfl
  | appended k c reply rf hk hst hdst h =>
    cases h with
    | stale => exact .same _ rfl rfl
    | short => exact .same _ (by simp) (by simp)
    | conflict => exact .same _ (by simp) (by simp)
    | agree prev rf hle hprev heq hf =>
      have hterm := hf.frame.currentTerm.trans (Raft.observe_term_of_le hle)
      cases hf with
      | unchanged => exact .same _ (by simp) (by simp)
      | committed _ hlt hc =>
        cases hc with
        | intro msgs hd =>
          rw [Raft.setLog_commitIndex, Raft.observe_commitIndex] at hlt
          simp only [Raft.setLog_lastApplied, Raft.observe_lastApplied] at hd
          exact .followed k c prev msgs hk hdst hle hterm hprev heq rfl hlt rfl hd (by simp)
  | acknowledged k c r rf hk hsrc hst h =>
    cases h with
    | ignored | deposed | backedOff => exact .same _ rfl rfl
    | matched _ hlead _ _ _ _ hs => exact .of_scanned hs hlead rfl rfl rfl
    | rejected _ hlead _ _ hs => exact .of_scanned hs hlead rfl rfl rfl

section Runs

variable [Inhabited Cmd] {σ τ : List (Cluster n Cmd)}

/-- The state in which a request was accepted: its receiver then had the log of the
leader that sent it. -/
structure AcceptedIn (σ : List (Cluster n Cmd)) (s : Cluster n Cmd) (c : AppendCall n Cmd) :
    Prop where
  term : (s.peer c.dst).currentTerm = c.args.term
  length : c.args.prevLogIndex + c.args.entries.length + 1 = (s.peer c.dst).log.length
  log : ∃ t ∈ σ, ∃ p, Leads t p c.args.term ∧ (s.peer c.dst).log = (t.peer p).log
  acked : AckedTo s c.dst c.args.term (c.args.prevLogIndex + c.args.entries.length)

theorem Run.acceptedIn (h : Run FreshReplies σ) : ∀ s ∈ σ, ∀ c ∈ s.appendCalls,
    0 < c.args.term → ∀ r, c.stage.reply = some r → r.success = true →
      ∃ s₀ ∈ σ, AcceptedIn σ s₀ c := by
  have hcf := h.crashFree
  have hone := h.freshVotes.oneLeader
  refine History.Run.forall_mem h.within (by simp [Cluster.init]) ?_
  rintro s e s' ih ⟨hs, hmem, hmem'⟩ c hc hpos r hr hsucc
  obtain ⟨k, hk⟩ := List.mem_iff_getElem?.mp hc
  cases (step_spec hs.2).appendCall_cases hs.1.1 hk with
  | kept hold =>
    obtain ⟨c₀, hc₀, hl, hreply⟩ := hold
    obtain ⟨s₀, hs₀, hacc⟩ :=
      ih c₀ (List.mem_of_getElem? hc₀) (hl.args ▸ hpos) r (hreply ▸ hr) hsucc
    refine ⟨s₀, hs₀, ?_⟩
    constructor <;> rw [hl.dst, hl.args]
    · exact hacc.term
    · exact hacc.length
    · exact hacc.log
    · exact hacc.acked
  | handled c₀ r₀ hc₀ hl _ hr₀ happ =>
    obtain rfl : r₀ = r := Option.some.inj (hr₀.symm.trans hr)
    obtain ⟨t, ht, hlead, hcar, -⟩ := h.carries hmem' hc hpos
    rw [← hl.dst, ← hl.args] at happ
    obtain ⟨hterm, hlog, prev, hprev, hsame⟩ := happ.of_success hsucc
    rw [(hcf.logOk hone s hmem c.dst).take_append hcf hone (hcf.logOk hone t ht c.src) hcar hprev
      hsame] at hlog
    exact ⟨s', hmem', hterm, hlog ▸ hcar.length, ⟨t, ht, c.src, hlead, hlog⟩,
      c, hc, rfl, rfl, le_rfl, r₀, hr, hsucc⟩
  | heartBeat _ _ hst => simp [hst, Stage.reply] at hr
  | first _ _ hst => simp [hst, Stage.reply] at hr

theorem AcceptedIn.holds (h : Run CrashFree σ) (hone : OneLeader σ) {c : AppendCall n Cmd}
    (hacc : AcceptedIn σ s c) (hP : LeaderHas σ c.args.term P)
    (hlen : P.length ≤ c.args.prevLogIndex + c.args.entries.length + 1) :
    Holds s c.dst c.args.term P := by
  obtain ⟨t, ht, p, hlead, hlog⟩ := hacc.log
  have hle := hacc.length
  refine ⟨hacc.term.ge, hlog ▸ hP.of_le h hone ht hlead (hlog ▸ by omega), fun _ => .inr ?_⟩
  obtain ⟨c', hc', hdst, hterm, hm, hr⟩ := hacc.acked
  exact ⟨c', hc', hdst, hterm, by omega, hr⟩

theorem Run.chosen_of_scan (h : Run FreshReplies σ) (hs : s ∈ σ) {N : Nat} {x : LogEntry Cmd}
    (hlead : (s.peer p).state = .leader) (hx : (s.peer p).log[N]? = some x)
    (hterm : x.term = (s.peer p).currentTerm) (hmaj : n / 2 < (s.peer p).matchCount N) :
    Chosen σ (s.peer p).currentTerm ((s.peer p).log.take (N + 1)) := by
  have hcf := h.crashFree
  have hone := h.freshVotes.oneLeader
  have hpos := hcf.term_pos s hs p (by simp [hlead])
  have hok := h.freshAcks.indexOk hone s hs p hlead
  obtain ⟨hN, -⟩ := List.getElem?_eq_some_iff.mp hx
  have hlen : ((s.peer p).log.take (N + 1)).length = N + 1 := by
    simp only [List.length_take]; omega
  have hN0 : 0 < N := by
    refine Nat.pos_of_ne_zero fun hzero => ?_
    rw [hzero, (hcf.logOk hone s hs p).sentinel] at hx
    obtain rfl := Option.some.inj hx
    exact hpos.ne hterm
  have hP : LeaderHas σ (s.peer p).currentTerm ((s.peer p).log.take (N + 1)) :=
    ⟨s, hs, p, ⟨hlead, rfl⟩, List.take_prefix _ _⟩
  obtain ⟨Q, hcard, hQ⟩ := exists_card_eq_countP _ (N ≤ ·) hok.matchLength
  refine ⟨hpos, ⟨x, ?_, hterm⟩, hP, Q, majority_of_half_lt (hcard ▸ hmaj), fun q hq => ?_⟩
  · rw [hlen, Nat.add_sub_cancel, List.getElem?_take_of_lt (by omega), hx]
  · obtain ⟨m, hm, hNm⟩ := hQ q hq
    have hNm : N ≤ m := of_decide_eq_true hNm
    by_cases hqp : q = p
    · subst hqp
      exact ⟨s, hs, rfl, le_rfl, List.take_prefix _ _, fun _ => .inl hlead⟩
    · obtain ⟨c, hc, hsrc, hdst, hsent, hcm, r, hst, hsucc⟩ :=
        h.freshAcks.ackedBy s hs p _ ⟨hlead, rfl⟩ q hqp m hm (by omega)
      have hct : c.args.term = (s.peer p).currentTerm := by
        rcases hcf.args_cases hs hc with hargs | ⟨-, hsame⟩
        · simp only [hargs, List.length_nil] at hcm
          omega
        · exact hsame.trans hsent
      obtain ⟨s₀, hs₀, hacc⟩ :=
        h.acceptedIn s hs c hc (hct ▸ hpos) r (by simp [hst, Stage.reply]) hsucc
      have hhold := hacc.holds hcf hone (hct ▸ hP) (by omega)
      exact ⟨s₀, hs₀, hdst ▸ hacc.term.trans hct, hdst ▸ hct ▸ hhold⟩

/-- The committed part of a log is part of a chosen prefix that its peer holds. -/
def CommitOk (σ : List (Cluster n Cmd)) (s : Cluster n Cmd) (q : Fin n) : Prop :=
  (s.peer q).commitIndex = 0 ∨ ∃ t P, Chosen σ t P ∧ (s.peer q).commitIndex < P.length ∧
    Holds s q t (P.take ((s.peer q).commitIndex + 1))

theorem Chosen.holds_step (h : Run Steady σ) (hτ : s' :: s :: τ <:+ σ) (hP : Chosen σ t P)
    {i : Nat} (hq : Holds s q t (P.take i)) : Holds s' q t (P.take i) := by
  obtain ⟨s₀, hs₀, p, hlead, hpre⟩ := hP.leader
  refine h.holds_step hτ hP.pos ⟨s₀, hs₀, p, hlead, (List.take_prefix _ _).trans hpre⟩ hq ?_
  intro s₁ hs₁ p' hlt hlead'
  have hs₁ : s₁ ∈ σ := hτ.subset (List.mem_cons_of_mem _ hs₁)
  exact (List.take_prefix _ _).trans (hP.leader_has h _ hlt s₁ hs₁ p' hlead')

omit [Inhabited Cmd] in
theorem CommitOk.follow {t : Cluster n Cmd} {c : AppendCall n Cmd} (ht : CommitOk σ t c.src)
    (hlead : Leads t c.src c.args.term) (hcommit : c.args.leaderCommit = (t.peer c.src).commitIndex)
    (hpos : 0 < c.args.leaderCommit) (hterm : (s.peer q).currentTerm = c.args.term)
    (hlog : (s.peer q).log = (t.peer c.src).log)
    (hindex : (s.peer q).commitIndex = min c.args.leaderCommit ((s.peer q).log.length - 1))
    (hack : AckedTo s q c.args.term ((s.peer q).log.length - 1)) : CommitOk σ s q := by
  rcases ht with hzero | ⟨u, P, hP, hlt, hhold⟩
  · omega
  · have hle := hhold.log.length_le
    rw [List.length_take, ← hcommit, ← hlog] at hle
    rw [← hcommit] at hlt
    have heq : (s.peer q).commitIndex = c.args.leaderCommit := by omega
    refine .inr ⟨u, P, hP, heq ▸ hlt, ?_, ?_, fun hnow => .inr ?_⟩
    · exact hterm ▸ hlead.2 ▸ hhold.term
    · rw [heq, hlog, hcommit]
      exact hhold.log
    · obtain ⟨c', hc', hdst, hterm', hm, hr⟩ := hack
      refine ⟨c', hc', hdst, by rw [hterm', ← hterm, hnow], ?_, hr⟩
      rw [List.length_take]
      omega

theorem Run.commitOk (h : Run Steady σ) : ∀ s ∈ σ, ∀ q, CommitOk σ s q := by
  have hfresh := h.freshReplies
  have hcf := hfresh.crashFree
  have hone := hfresh.freshVotes.oneLeader
  refine History.Run.forall_mem_of_history h (fun q => .inl rfl) ?_
  intro s e s' τ hτ hrun ih hstep q
  have hsub : s :: τ <:+ σ := (List.suffix_cons _ _).trans hτ
  have hs : s ∈ σ := hsub.subset List.mem_cons_self
  have hs' : s' ∈ σ := hτ.subset List.mem_cons_self
  have hstep' := step_spec hstep.2
  cases (hstep'.peerStep hstep.1.1 q).commitStep with
  | same _ heq =>
    rcases ih s List.mem_cons_self q with hzero | ⟨t, P, hP, hlt, hhold⟩
    · exact .inl (heq.trans hzero)
    · rw [← heq] at hlt hhold
      exact .inr ⟨t, P, hP, hlt, hP.holds_step h hτ hhold⟩
  | scanned _ x msgs hlead hx hterm hmaj =>
    obtain ⟨hlt, -⟩ := List.getElem?_eq_some_iff.mp hx
    refine .inr ⟨_, _, hfresh.chosen_of_scan hs' hlead hx hterm hmaj, ?_, le_rfl, ?_,
      fun _ => .inl hlead⟩
    · simp only [List.length_take]; omega
    · exact (List.take_prefix _ _).trans (List.take_prefix _ _)
  | followed k c prev msgs hk hdst hle hct hprev hsame hlog hlt hindex =>
    subst hdst
    have hc := List.mem_of_getElem? hk
    have hrun' : Run Steady (s :: τ) := hrun
    have hpos : 0 < c.args.term := by
      rcases hcf.args_cases hs hc with hargs | ⟨hpos, -⟩
      · simp [hargs] at hlt
      · exact hpos
    obtain ⟨t, ht, hlead, hcar, hcommit⟩ := hrun'.freshReplies.carries List.mem_cons_self hc hpos
    rw [(hcf.logOk hone s hs c.dst).take_append hcf hone
      (hcf.logOk hone t (hsub.subset ht) c.src) hcar hprev hsame] at hlog
    refine (ih t ht c.src).follow hlead hcommit (by omega) hct hlog hindex ?_
    have hlen := hcar.length
    refine ⟨_, List.mem_of_getElem? (hstep'.acknowledges hk hle hprev hsame), rfl, rfl, ?_, _, rfl,
      rfl⟩
    simp only [hlog]
    omega

theorem Chosen.agree (h : Run Steady σ) {u i : Nat} {R : List (LogEntry Cmd)} {a b : LogEntry Cmd}
    (hP : Chosen σ t P) (hR : Chosen σ u R) (ha : P[i]? = some a) (hb : R[i]? = some b) :
    a = b := by
  have hcf := h.freshReplies.crashFree
  have hone := h.freshReplies.freshVotes.oneLeader
  obtain ⟨s, hs, p, hp, hPpre⟩ := hP.leader
  obtain ⟨s', hs', p', hp', hRpre⟩ := hR.leader
  have common : ∀ L : List (LogEntry Cmd), P <+: L → R <+: L → a = b := fun L hPL hRL =>
    Option.some.inj ((Prefix.getElem? hPL ha).symm.trans (Prefix.getElem? hRL hb))
  rcases Nat.lt_trichotomy t u with hlt | rfl | hgt
  · exact common _ (hP.leader_has h u hlt s' hs' p' hp') hRpre
  · rcases hcf.leader_logs hone hs hs' hp hp' with hle | hle
    · exact common _ (hPpre.trans hle) hRpre
    · exact common _ hPpre (hRpre.trans hle)
  · exact common _ hPpre (hR.leader_has h t hgt s hs p hp)

omit [Inhabited Cmd] in
theorem CommitOk.chosen {i : Nat} {x : LogEntry Cmd} (h : CommitOk σ s q) (hi : 0 < i)
    (hle : i ≤ (s.peer q).commitIndex) (hx : (s.peer q).log[i]? = some x) :
    ∃ t P, Chosen σ t P ∧ P[i]? = some x ∧ t ≤ (s.peer q).currentTerm := by
  rcases h with hzero | ⟨t, P, hP, hlt, hhold⟩
  · omega
  · refine ⟨t, P, hP, ?_, hhold.term⟩
    rw [← List.getElem?_take_of_lt (Nat.lt_succ_of_le hle), ← hx]
    exact (Prefix.getElem?_eq hhold.log (by simp only [List.length_take]; omega)).symm

theorem Run.applied_chosen (h : Run Steady σ) : ∀ s ∈ σ, ∀ q, ∀ m ∈ (s.peer q).applyCh,
    ∃ t P x, Chosen σ t P ∧ P[m.commandIndex]? = some x ∧ x.command = m.command := by
  refine History.Run.forall_mem h.within (by simp [Cluster.init, Raft.make, Raft.readPersist]) ?_
  rintro s e s' ih ⟨⟨⟨hce, -⟩, hstep⟩, -, hs'⟩ q m hm
  have delivered : ∀ {lo msgs}, Raft.Delivers (s'.peer q).log lo (s'.peer q).commitIndex msgs →
      m ∈ msgs → ∃ t P x, Chosen σ t P ∧ P[m.commandIndex]? = some x ∧ x.command = m.command := by
    intro lo msgs hd hm
    obtain ⟨x, hx, hcmd⟩ := hd.command m hm
    obtain ⟨hlo, hhi⟩ := hd.range hm
    obtain ⟨t, P, hP, hPx, -⟩ := (h.commitOk s' hs' q).chosen (by omega) hhi hx
    exact ⟨t, P, x, hP, hPx, hcmd⟩
  cases ((step_spec hstep).peerStep hce q).commitStep with
  | same _ _ heq => exact ih q m (heq ▸ hm)
  | scanned _ x msgs _ _ _ _ hd heq =>
    rcases List.mem_append.mp (heq ▸ hm) with hm | hm
    · exact ih q m hm
    · exact delivered hd hm
  | followed k c prev msgs _ _ _ _ _ _ _ _ _ hd heq =>
    rcases List.mem_append.mp (heq ▸ hm) with hm | hm
    · exact ih q m hm
    · exact delivered hd hm

theorem Run.applied_agree (h : Run Steady σ) {s' : Cluster n Cmd} (hs : s ∈ σ) (hs' : s' ∈ σ)
    {m m' : ApplyMsg Cmd} (hm : m ∈ (s.peer p).applyCh) (hm' : m' ∈ (s'.peer q).applyCh)
    (hindex : m.commandIndex = m'.commandIndex) : m.command = m'.command := by
  obtain ⟨t, P, x, hP, hx, hcmd⟩ := h.applied_chosen s hs p m hm
  obtain ⟨u, R, y, hR, hy, hcmd'⟩ := h.applied_chosen s' hs' q m' hm'
  rw [← hcmd, ← hcmd', hP.agree h hR hx (hindex ▸ hy)]

/-- Peer 1 handles the second request of peer 0 before the first, which then takes
back the entry that the second had brought and that is already committed. -/
def reordered : List (Event 3 Nat) :=
  election ++ [.start 0 7, .persist 0, .sendHeartBeats 0, .start 0 8, .persist 0,
    .sendHeartBeats 0, .appendEntries 4, .persist 1, .heartBeat 4, .sendAppendEntries 4,
    .appendEntries 2, .persist 1, .becomeCandidate 1, .persist 2, .requestVote 3,
    .receivedVote 3, .sendRequestVote 3, .start 1 9, .persist 1, .sendHeartBeats 1,
    .appendEntries 9, .persist 2, .heartBeat 9, .sendAppendEntries 9, .persist 1,
    .sendHeartBeats 1, .appendEntries 11, .persist 2, .heartBeat 11, .sendAppendEntries 11]

def committed : List (Event 3 Nat) :=
  replication ++ [.persist 1, .heartBeat 2, .sendAppendEntries 2, .persist 0, .sendHeartBeats 0,
    .appendEntries 4]

end Runs

end MrAndRaft
