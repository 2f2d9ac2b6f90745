import MrAndRaft.Raft.Commit

/-! Orderly runs: replies are processed in the term of their request, and the requests
of one leadership to one follower in the order sent. -/

namespace MrAndRaft

variable {n : Nat} {Cmd : Type} {s : Cluster n Cmd} {p q : Fin n} {e : Event n Cmd}

def InTerm (s : Cluster n Cmd) (e : Event n Cmd) : Prop :=
  (∀ c ∈ s.voteReply e, c.sentTerm = (s.peer c.src).currentTerm) ∧
    ∀ c ∈ s.appendReply e, c.sentTerm = (s.peer c.src).currentTerm

def Cluster.laterRequests (s : Cluster n Cmd) : Event n Cmd → List (AppendCall n Cmd)
  | .appendEntries k => s.appendCalls.drop (k + 1)
  | _ => []

def InOrder (s : Cluster n Cmd) (e : Event n Cmd) : Prop :=
  ∀ c ∈ s.appendRequest e, ∀ c' ∈ s.laterRequests e, c'.src = c.src → c'.dst = c.dst →
    c'.sentTerm = c.sentTerm → c'.stage = .sent

abbrev Orderly (s : Cluster n Cmd) (e : Event n Cmd) : Prop :=
  CrashFree s e ∧ InTerm s e ∧ InOrder s e

instance (s : Cluster n Cmd) (e : Event n Cmd) : Decidable (InTerm s e) :=
  inferInstanceAs (Decidable (_ ∧ _))

instance (s : Cluster n Cmd) (e : Event n Cmd) : Decidable (InOrder s e) :=
  inferInstanceAs (Decidable (∀ c ∈ s.appendRequest e, _))

theorem mem_of_voteReply {c : VoteCall n} (h : c ∈ s.voteReply e) : c ∈ s.voteCalls := by
  cases e <;> first | exact List.mem_of_getElem? h | cases h

variable [Inhabited Cmd] {σ : List (Cluster n Cmd)}

theorem Orderly.freshReplies (h : Run CrashFree σ) (hs : s ∈ σ) (he : Orderly s e) :
    FreshReplies s e := by
  obtain ⟨hce, ⟨hvote, happend⟩, -⟩ := he
  refine ⟨hce, fun c hc r _ _ _ => ?_, fun c hc r _ _ _ => happend c hc⟩
  exact (h.voteCallOk s hs c (mem_of_voteReply hc)).sentTerm.symm.trans (hvote c hc)

theorem Run.requests_grow (h : Run FreshReplies σ) : ∀ s ∈ σ, ∀ (k k' : Nat)
    (c c' : AppendCall n Cmd), k' < k → s.appendCalls[k']? = some c' →
    s.appendCalls[k]? = some c → c'.src = c.src → c'.sentTerm = c.sentTerm → 0 < c.args.term →
    c'.args.prevLogIndex + c'.args.entries.length ≤
      c.args.prevLogIndex + c.args.entries.length := by
  have hcf := h.crashFree
  have hone := h.freshVotes.oneLeader
  have hidx := h.freshAcks.indexOk hone
  refine History.Run.forall_mem_of_history h (by simp [Cluster.init]) ?_
  intro s e s' τ hτ hrun ih hstep k k' c c' hlt hk' hk hsrc hsent hpos
  have hsub : s :: τ <:+ σ := (List.suffix_cons _ _).trans hτ
  have hs : s ∈ σ := hsub.subset List.mem_cons_self
  have hrun' : Run FreshReplies (s :: τ) := hrun
  have hfrom := (step_spec hstep.2).appendCall_cases hstep.1.1 hk
  have hfrom' := (step_spec hstep.2).appendCall_cases hstep.1.1 hk'
  rcases Nat.lt_or_ge k s.appendCalls.length with hold | hnew
  · obtain ⟨c₀, hc₀, hl⟩ := hfrom.old hold
    obtain ⟨c₀', hc₀', hl'⟩ := hfrom'.old (hlt.trans hold)
    rw [hl.src, hl'.src] at hsrc
    rw [hl.sentTerm, hl'.sentTerm] at hsent
    rw [hl.args] at hpos ⊢
    rw [hl'.args]
    exact ih s List.mem_cons_self k k' c₀ c₀' hlt hc₀' hc₀ hsrc hsent hpos
  · rcases hfrom.new hnew with hargs | ⟨hlead, hterm, hb⟩
    · simp [hargs] at hpos
    have hlen := ((hidx s hs c.src hlead).carries hb).length
    rcases Nat.lt_or_ge k' s.appendCalls.length with hold' | hnew'
    · obtain ⟨c₀, hc₀, hl⟩ := hfrom'.old hold'
      have hsrc₀ : c₀.src = c.src := hl.src.symm.trans hsrc
      have hle := hrun'.crashFree.request_length (hone.subset hsub.subset)
        (fun t ht => hidx t (hsub.subset ht)) (List.mem_of_getElem? hc₀)
        (hcf.log_ne_nil hone hs _) (by rw [hsrc₀, ← hterm, ← hsent, hl.sentTerm])
      rw [hsrc₀] at hle
      rw [hl.args]
      omega
    · rcases hfrom'.new hnew' with hargs | ⟨hlead', -, hb'⟩
      · simp [hargs]
      · have hlen' := ((hidx s hs c'.src hlead').carries hb').length
        rw [hsrc] at hlen'
        omega

theorem Run.steady (h : Run Orderly σ) : Run Steady σ := by
  have hcf : Run CrashFree σ := h.crashFree
  have hfresh : Run FreshReplies σ := History.Run.mono h.within fun s e s' hs =>
    ⟨hs.1.1.freshReplies hcf hs.2.1, hs.1.2⟩
  have hone := hfresh.freshVotes.oneLeader
  refine History.Run.mono h.within ?_
  rintro s e s' ⟨⟨he, hstep⟩, hs, -⟩
  obtain ⟨hce, hvote, hack⟩ := he.freshReplies hcf hs
  refine ⟨⟨hce, hvote, hack, fun c hc _ c' hc' hdst hterm r hr hsucc => ?_⟩, hstep⟩
  have horder := he.2.2 c hc
  cases step_spec hstep with
  | appendEntries k c₀ rf reply hk hst =>
    obtain rfl : c₀ = c := Option.some.inj (hk.symm.trans hc)
    rcases hcf.args_cases hs hc' with hargs | ⟨hpos', hsent'⟩
    · simp [hargs]
    have hmem := List.mem_of_getElem? hk
    rcases hcf.args_cases hs hmem with hargs | ⟨hpos, hsent⟩
    · rw [hterm, hargs] at hpos'
      cases hpos'
    obtain ⟨-, t, ht, hlead, -⟩ := hcf.leads_of_append hs hmem hpos
    obtain ⟨-, t', ht', hlead', -⟩ := hcf.leads_of_append hs hc' hpos'
    have hsrc : c'.src = c₀.src := hone t' ht' t ht _ _ _ (hterm ▸ hlead') hlead
    have hsame : c'.sentTerm = c₀.sentTerm := by rw [← hsent', ← hsent, hterm]
    -- the acknowledged request has been handled, so it is not a later one
    obtain ⟨k', hk'⟩ := List.mem_iff_getElem?.mp hc'
    have hlt : k' < k := by
      rcases Nat.lt_trichotomy k' k with hlt | rfl | hgt
      · exact hlt
      · obtain rfl : c' = c₀ := Option.some.inj (hk'.symm.trans hk)
        simp [hst, Stage.reply] at hr
      · have hdrop : (s.appendCalls.drop (k + 1))[k' - (k + 1)]? = some c' := by
          rw [List.getElem?_drop, Nat.add_sub_cancel' hgt, hk']
        have hnew := horder c' (List.mem_of_getElem? hdrop) hsrc hdst hsame
        simp [hnew, Stage.reply] at hr
    exact hfresh.requests_grow s hs k k' c₀ c' hlt hk' hk hsrc hsame hpos
  | persist | becomeCandidate | sendHeartBeats | start | requestVote | receivedVote | heartBeat
  | sendRequestVote | sendAppendEntries | crash => cases hc

theorem Run.committed_kept (h : Run Orderly σ) {t : Cluster n Cmd} (hs : s ∈ σ) (ht : t ∈ σ)
    {T U : Nat} (hp : Leads s p T) (hq : Leads t q U) (hlt : T < U) {i : Nat} {x : LogEntry Cmd}
    (hi : i ≤ (s.peer p).commitIndex) (hx : (s.peer p).log[i]? = some x) :
    (t.peer q).log[i]? = some x := by
  have hsteady := h.steady
  have hcf := hsteady.freshReplies.crashFree
  have hone := hsteady.freshReplies.freshVotes.oneLeader
  rcases Nat.eq_zero_or_pos i with rfl | hpos
  · rw [(hcf.logOk hone t ht q).sentinel, ← hx, (hcf.logOk hone s hs p).sentinel]
  · obtain ⟨u, P, hP, hPx, hle⟩ := (hsteady.commitOk s hs p).chosen hpos hi hx
    have hpre := hP.leader_has hsteady U (by rw [hp.2] at hle; omega) t ht q hq
    exact Prefix.getElem? hpre hPx

def succession : List (Event 3 Nat) :=
  committed ++ [.persist 1, .becomeCandidate 1, .persist 2, .requestVote 3, .receivedVote 3,
    .sendRequestVote 3]

end MrAndRaft
