import MrAndRaft.Lib.Quorum
import MrAndRaft.Raft.Messages

/-! Elections.  `sendRequestVote` does not compare the term of the request with
`currentTerm`, so a vote granted in an earlier term can be counted.  When none is,
the votes a leader has counted are a majority of votes cast in its term. -/

namespace MrAndRaft

open Quorum

variable {n : Nat} {Cmd : Type} {s s' : Cluster n Cmd} {p q : Fin n} {e : Event n Cmd} {T : Nat}

def Cluster.voteReply (s : Cluster n Cmd) : Event n Cmd → Option (VoteCall n)
  | .sendRequestVote k => s.voteCalls[k]?
  | _ => none

def FreshVotes (s : Cluster n Cmd) (e : Event n Cmd) : Prop :=
  ∀ c ∈ s.voteReply e, ∀ r ∈ c.stage.reply, r.voteGranted = true →
    (s.peer c.src).state = .candidate → c.args.term = (s.peer c.src).currentTerm

instance (s : Cluster n Cmd) (e : Event n Cmd) : Decidable (FreshVotes s e) :=
  inferInstanceAs (Decidable (∀ c ∈ s.voteReply e, _))

/-- No term has two leaders, at one moment or at different ones. -/
def OneLeader (σ : List (Cluster n Cmd)) : Prop :=
  ∀ s ∈ σ, ∀ t ∈ σ, ∀ p q T, Leads s p T → Leads t q T → p = q

theorem OneLeader.subset {σ τ : List (Cluster n Cmd)} (h : OneLeader σ) (hτ : τ ⊆ σ) :
    OneLeader τ :=
  fun s hs t ht => h s (hτ hs) t (hτ ht)

inductive RoleStep (s : Cluster n Cmd) (p : Fin n) (rf : Raft Cmd) : Event n Cmd → Prop
  | follower (e : Event n Cmd) : rf.state = .follower → RoleStep s p rf e
  | same (e : Event n Cmd) : rf.state = (s.peer p).state →
      rf.currentTerm = (s.peer p).currentTerm → rf.votes = (s.peer p).votes → RoleStep s p rf e
  | stood : rf.state = .candidate → rf.currentTerm = (s.peer p).currentTerm + 1 →
      rf.votes = 1 → RoleStep s p rf (.becomeCandidate p)
  | counted (k : Nat) (c : VoteCall n) (r : RequestVoteReply) : s.voteCalls[k]? = some c →
      c.src = p → c.stage = .returned r → r.voteGranted = true →
      rf.state = (s.peer p).state → rf.currentTerm = (s.peer p).currentTerm →
      rf.votes = (s.peer p).votes + 1 → RoleStep s p rf (.sendRequestVote k)
  | elected (k : Nat) (c : VoteCall n) (r : RequestVoteReply) : s.voteCalls[k]? = some c →
      c.src = p → c.stage = .returned r → r.voteGranted = true →
      (s.peer p).state = .candidate → rf.state = .leader → n / 2 < (s.peer p).votes + 1 →
      rf.currentTerm = (s.peer p).currentTerm →
      rf.nextIndex = List.replicate n (s.peer p).log.length →
      rf.matchIndex = List.replicate n 0 → RoleStep s p rf (.sendRequestVote k)

theorem RoleStep.observe {rf : Raft Cmd} {term : Nat}
    (hstate : rf.state = ((s.peer p).observe term).state)
    (hterm : rf.currentTerm = ((s.peer p).observe term).currentTerm)
    (hvotes : rf.votes = ((s.peer p).observe term).votes) : RoleStep s p rf e := by
  by_cases hst : ((s.peer p).observe term).state = .follower
  · exact .follower e (hstate.trans hst)
  · rw [Raft.observe_of_state_ne hst] at hstate hterm hvotes
    exact .same e hstate hterm hvotes

theorem PeerStep.roleStep {rf : Raft Cmd} (h : PeerStep s p e rf) : RoleStep s p rf e := by
  cases h with
  | same => exact .same _ rfl rfl rfl
  | candidate rf hrf =>
    subst hrf
    exact .stood rfl rfl rfl
  | started _ _ h => cases h <;> exact .same _ rfl rfl rfl
  | voted _ _ _ _ _ _ h =>
    cases h with
    | stale => exact .same _ rfl rfl rfl
    | refused => exact .observe rfl rfl rfl
    | granted => exact .observe rfl rfl rfl
  | counted k c r rf out hk hsrc hst h =>
    cases h with
    | deposed => exact .follower _ rfl
    | refused => exact .same _ rfl rfl rfl
    | counted _ hg => exact .counted k c r hk hsrc hst hg rfl rfl rfl
    | elected _ hg hmaj hcand =>
      exact .elected k c r hk hsrc hst hg hcand rfl hmaj rfl rfl rfl
  | appended _ _ _ _ _ _ _ h =>
    cases h with
    | stale => exact .same _ rfl rfl rfl
    | short => exact .observe rfl rfl rfl
    | conflict => exact .observe rfl rfl rfl
    | agree _ _ _ _ _ hf => exact .observe hf.frame.state hf.frame.currentTerm hf.frame.votes
  | acknowledged _ _ _ _ _ _ _ h =>
    cases h with
    | ignored | backedOff => exact .same _ rfl rfl rfl
    | deposed => exact .follower _ rfl
    | matched _ _ _ _ _ _ hs => exact .same _ hs.frame.state hs.frame.currentTerm hs.frame.votes
    | rejected _ _ _ _ hs => exact .same _ hs.frame.state hs.frame.currentTerm hs.frame.votes

inductive LeaderFrom (s : Cluster n Cmd) (p : Fin n) (rf : Raft Cmd) : Event n Cmd → Prop
  | stays (e : Event n Cmd) : (s.peer p).state = .leader →
      rf.currentTerm = (s.peer p).currentTerm → LeaderFrom s p rf e
  | elected (k : Nat) (c : VoteCall n) (r : RequestVoteReply) : s.voteCalls[k]? = some c →
      c.src = p → c.stage = .returned r → r.voteGranted = true →
      (s.peer p).state = .candidate → n / 2 < (s.peer p).votes + 1 →
      rf.currentTerm = (s.peer p).currentTerm →
      rf.nextIndex = List.replicate n (s.peer p).log.length →
      rf.matchIndex = List.replicate n 0 → LeaderFrom s p rf (.sendRequestVote k)

theorem RoleStep.leaderFrom {rf : Raft Cmd} (h : RoleStep s p rf e) (hlead : rf.state = .leader) :
    LeaderFrom s p rf e := by
  cases h with
  | follower _ hst => simp [hst] at hlead
  | same _ hst hterm => exact .stays _ (hst ▸ hlead) hterm
  | stood hst => simp [hst] at hlead
  | counted _ _ _ _ _ _ _ hst hterm => exact .stays _ (hst ▸ hlead) hterm
  | elected k c r hk hsrc hst hg hcand _ hmaj hterm hnext hmatch =>
    exact .elected k c r hk hsrc hst hg hcand hmaj hterm hnext hmatch

/-- `p` has counted the vote of the last argument in its election of term `T`. -/
inductive CountedFor (s : Cluster n Cmd) (p : Fin n) (T : Nat) : Fin n → Prop
  | self : CountedFor s p T p
  | reply (c : VoteCall n) (r : RequestVoteReply) : c ∈ s.voteCalls → c.src = p →
      c.args.term = T → c.stage = .received r → r.voteGranted = true → CountedFor s p T c.dst

theorem CountedFor.advance (h : CountedFor s p T q) (ha : Advance s.voteCalls s'.voteCalls) :
    CountedFor s' p T q := by
  cases h with
  | self => exact .self
  | reply c r hc hsrc hterm hst hg =>
    obtain ⟨k, hk⟩ := List.mem_iff_getElem?.mp hc
    obtain ⟨c', hc', hl⟩ := ha k c hk
    rw [← hl.dst]
    exact .reply c' r (List.mem_of_getElem? hc') (hl.src.trans hsrc) (hl.args ▸ hterm)
      (hl.received r hst) hg

def Tally (s : Cluster n Cmd) (p : Fin n) : Prop :=
  (s.peer p).state = .candidate → ∃ Q : Finset (Fin n), Q.card = (s.peer p).votes ∧
    ∀ q ∈ Q, CountedFor s p (s.peer p).currentTerm q

section Runs

variable [Inhabited Cmd] {σ : List (Cluster n Cmd)}

abbrev FreshRun (σ : List (Cluster n Cmd)) : Prop :=
  Run (fun s e => CrashFree s e ∧ FreshVotes s e) σ

theorem Run.crashFree {ok : Cluster n Cmd → Event n Cmd → Prop}
    (h : Run (fun s e => CrashFree s e ∧ ok s e) σ) : Run CrashFree σ :=
  h.mono fun _ _ hok => hok.1

theorem Run.not_countedFor (h : Run CrashFree σ) (hs : s ∈ σ) {k : Nat} {c : VoteCall n}
    {r : RequestVoteReply} (hk : s.voteCalls[k]? = some c) (hst : c.stage = .returned r) :
    ¬ CountedFor s c.src c.args.term c.dst := by
  have hne := (h.voteCallOk s hs c (List.mem_of_getElem? hk)).dst_ne
  intro hcounted
  generalize hq : c.dst = q at hcounted
  cases hcounted with
  | self => exact hne hq
  | reply c' r' hc' hsrc hterm hst' =>
    obtain ⟨k', hk'⟩ := List.mem_iff_getElem?.mp hc'
    obtain rfl : k = k' := h.voteCall_unique hs hk hk' (by simp [voteKey, hsrc, hterm, hq])
    obtain rfl : c = c' := Option.some.inj (hk.symm.trans hk')
    simp [hst] at hst'

theorem Run.tally (h : FreshRun σ) : ∀ s ∈ σ, ∀ p, Tally s p := by
  refine History.Run.forall_mem h.within (fun p hp => by cases hp) ?_
  rintro s e s' ih ⟨⟨⟨hcf, hfresh⟩, hstep⟩, hmem, -⟩ p hcand
  have hs := step_spec hstep
  have hadv := (hs.voteCallStep hcf).advance
  cases (hs.peerStep hcf p).roleStep with
  | follower _ hst => simp [hst] at hcand
  | same _ hst hterm hvotes =>
    obtain ⟨Q, hcard, hQ⟩ := ih p (hst ▸ hcand)
    exact ⟨Q, hcard.trans hvotes.symm, fun q hq => hterm ▸ (hQ q hq).advance hadv⟩
  | stood _ _ hvotes => exact ⟨{p}, by simp [hvotes], by simpa using .self⟩
  | counted k c r hk hsrc hst hg hstate hterm hvotes =>
    subst hsrc
    have hcand' := hstate.symm.trans hcand
    have hnow : c.args.term = (s.peer c.src).currentTerm :=
      hfresh c hk r (by simp [hst, Stage.reply]) hg hcand'
    obtain ⟨Q, hcard, hQ⟩ := ih c.src hcand'
    have hnew : c.dst ∉ Q := fun hq =>
      h.crashFree.not_countedFor hmem hk hst (hnow ▸ hQ c.dst hq)
    refine ⟨insert c.dst Q, by rw [Finset.card_insert_of_notMem hnew, hcard, hvotes], ?_⟩
    intro q hq
    rw [hterm]
    rcases Finset.mem_insert.mp hq with rfl | hq
    · exact .reply { c with stage := .received r } r
        (List.mem_of_getElem? (hs.received_vote hk hst)) rfl hnow rfl hg
    · exact (hQ q hq).advance hadv
  | elected _ _ _ _ _ _ _ _ hlead => simp [hlead] at hcand

def Won (σ : List (Cluster n Cmd)) (p : Fin n) (T : Nat) : Prop :=
  ∃ Q : Finset (Fin n), Majority Q ∧ ∀ q ∈ Q, ∃ s ∈ σ,
    (s.peer q).currentTerm = T ∧ (s.peer q).votedFor = some p.val

theorem Won.unique (h : Run CrashFree σ) (hp : Won σ p T) (hq : Won σ q T) : p = q := by
  obtain ⟨P, hP, hvotesP⟩ := hp
  obtain ⟨Q, hQ, hvotesQ⟩ := hq
  obtain ⟨x, hxP, hxQ⟩ := hP.meet hQ
  obtain ⟨s, hs, hsT, hsv⟩ := hvotesP x hxP
  obtain ⟨t, ht, htT, htv⟩ := hvotesQ x hxQ
  exact Fin.ext (h.vote_unique hs ht (hsT.trans htT.symm) hsv htv)

theorem Run.majority (h : FreshRun σ) (hs : s ∈ σ) {k : Nat} {c : VoteCall n}
    {r : RequestVoteReply} (hfresh : FreshVotes s (.sendRequestVote k))
    (hk : s.voteCalls[k]? = some c) (hst : c.stage = .returned r) (hg : r.voteGranted = true)
    (hcand : (s.peer c.src).state = .candidate) (hmaj : n / 2 < (s.peer c.src).votes + 1) :
    ∃ Q : Finset (Fin n), Majority Q ∧ ∀ q ∈ Q, q = c.src ∨ ∃ c' ∈ s.voteCalls,
      c'.src = c.src ∧ c'.args.term = (s.peer c.src).currentTerm ∧
      ∃ s₀ ∈ σ, VotedIn s₀ q c'.args := by
  have hreply : c.stage.reply = some r := by simp [hst, Stage.reply]
  have hnow := hfresh c hk r hreply hg hcand
  obtain ⟨Q, hcard, hQ⟩ := h.tally s hs c.src hcand
  have hnew : c.dst ∉ Q := fun hq =>
    h.crashFree.not_countedFor hs hk hst (hnow ▸ hQ c.dst hq)
  refine ⟨insert c.dst Q, majority_of_half_lt ?_, fun q hq => ?_⟩
  · rwa [Finset.card_insert_of_notMem hnew, hcard]
  · rcases Finset.mem_insert.mp hq with rfl | hq
    · exact .inr ⟨c, List.mem_of_getElem? hk, rfl, hnow,
        h.crashFree.votedIn s hs c (List.mem_of_getElem? hk) r hreply hg⟩
    · cases hQ q hq with
      | self => exact .inl rfl
      | reply c' r' hc' hsrc hterm hst' hg' =>
        exact .inr ⟨c', hc', hsrc, hterm,
          h.crashFree.votedIn s hs c' hc' r' (by simp [hst', Stage.reply]) hg'⟩

theorem Run.won (h : FreshRun σ) : ∀ s ∈ σ, ∀ p T, Leads s p T → Won σ p T := by
  refine History.Run.forall_mem h.within (fun p T hl => by cases hl.1) ?_
  rintro s e s' ih ⟨⟨⟨hcf, hfresh⟩, hstep⟩, hmem, -⟩ p T ⟨hlead, rfl⟩
  cases ((step_spec hstep).peerStep hcf p).roleStep.leaderFrom hlead with
  | stays _ hst hterm => exact ih p _ ⟨hst, hterm.symm⟩
  | elected k c r hk hsrc hst hg hcand hmaj hterm =>
    subst hsrc
    obtain ⟨Q, hQ, hvotes⟩ := h.majority hmem hfresh hk hst hg hcand hmaj
    refine ⟨Q, hQ, fun q hq => ?_⟩
    rcases hvotes q hq with rfl | ⟨c', hc', hsrc', hterm', s₀, hs₀, hv⟩
    · exact ⟨s, hmem, hterm.symm, h.crashFree.selfVote s hmem c.src (by simp [hcand])⟩
    · refine ⟨s₀, hs₀, hv.term.trans (hterm'.trans hterm.symm), hv.vote.trans ?_⟩
      rw [(h.crashFree.voteCallOk s hmem c' hc').candidate, hsrc']

theorem Run.oneLeader (h : FreshRun σ) : OneLeader σ :=
  fun s hs t ht p q T hp hq => (h.won s hs p T hp).unique h.crashFree (h.won t ht q T hq)

theorem election_safety (h : FreshRun σ) {t : Cluster n Cmd} (hs : s ∈ σ) (ht : t ∈ σ)
    (hp : Leads s p T) (hq : Leads t q T) : p = q :=
  h.oneLeader s hs t ht p q T hp hq

/-- Peer 1 votes for peer 0 in term 1; peer 0 gives up and stands again in term 2,
where the vote of term 1 is counted while peers 1 and 2 elect peer 1. -/
def lateVote : List (Event 3 Nat) :=
  [.persist 0, .becomeCandidate 0, .persist 1, .requestVote 0, .receivedVote 0,
    .persist 0, .becomeCandidate 0, .persist 1, .becomeCandidate 1, .persist 2,
    .requestVote 5, .receivedVote 5, .sendRequestVote 5, .sendRequestVote 0]

theorem two_leaders_lateVote : ∃ (s : Cluster 3 Nat) (σ : List (Cluster 3 Nat)),
    Run CrashFree (s :: σ) ∧ Leads s 0 2 ∧ Leads s 1 2 :=
  exists_run CrashFree (fun s => Leads s 0 2 ∧ Leads s 1 2) lateVote (by decide)

def election : List (Event 3 Nat) :=
  [.persist 0, .becomeCandidate 0, .persist 1, .requestVote 0, .receivedVote 0, .sendRequestVote 0]

theorem election_safety_election : ∃ (s : Cluster 3 Nat) (σ : List (Cluster 3 Nat)),
    FreshRun (s :: σ) ∧ Leads s 0 1 ∧ ∀ t ∈ s :: σ, ∀ q, Leads t q 1 → 0 = q := by
  obtain ⟨s, σ, hrun, hlead⟩ := exists_run (fun s e => CrashFree s e ∧ FreshVotes s e)
    (fun s => Leads s 0 1) election (by decide)
  exact ⟨s, σ, hrun, hlead, fun t ht q hq =>
    election_safety hrun List.mem_cons_self ht hlead hq⟩

def Raft.ballot (rf : Raft Cmd) (me : Nat) : Option RequestVoteArgs :=
  rf.log[rf.log.length - 1]?.map fun last =>
    ⟨rf.currentTerm, me, rf.log.length - 1, last.term⟩

theorem Run.term_pos (h : Run CrashFree σ) :
    ∀ s ∈ σ, ∀ p, (s.peer p).state ≠ .follower → 0 < (s.peer p).currentTerm := by
  refine History.Run.forall_mem h (fun p hp => absurd rfl hp) ?_
  intro s e s' ih hs p hp
  have hprec := ((step_spec hs.2).peerStep hs.1 p).precedes
  rcases Nat.eq_or_lt_of_le hprec.term with heq | hlt
  · rw [← heq]
    refine ih p fun hf => ?_
    rcases hprec.role heq with hst | ⟨hcand, -⟩
    · exact hp (hst.trans hf)
    · simp [hf] at hcand
  · exact Nat.zero_lt_of_lt hlt

theorem Run.leads_of_append (h : Run CrashFree σ) (hs : s ∈ σ) {c : AppendCall n Cmd}
    (hc : c ∈ s.appendCalls) (hpos : 0 < c.args.term) :
    c.dst ≠ c.src ∧ ∃ s₀ ∈ σ, Leads s₀ c.src c.args.term ∧
      (s₀.peer c.src).HeartBeat c.src c.dst c.args := by
  obtain ⟨hne, s₀, hs₀, hsent⟩ := h.sentIn s hs c hc
  cases hsent with
  | first _ hargs => simp [hargs] at hpos
  | heartBeat hlead hterm hb => exact ⟨hne, s₀, hs₀, hterm ▸ hlead, hb⟩

theorem Run.args_cases (h : Run CrashFree σ) (hs : s ∈ σ) {c : AppendCall n Cmd}
    (hc : c ∈ s.appendCalls) : c.args = {} ∨ 0 < c.args.term ∧ c.args.term = c.sentTerm := by
  obtain ⟨-, s₀, hs₀, hsent⟩ := h.sentIn s hs c hc
  cases hsent with
  | first _ hargs => exact .inl hargs
  | heartBeat hlead hterm =>
    have hpos := h.term_pos s₀ hs₀ c.src (by simp [hlead.1])
    exact .inr ⟨by rwa [hterm, ← hlead.2], hterm⟩

theorem Run.log_eq (h : Run CrashFree σ) (hs : s ∈ σ) {rf : Raft Cmd} (hl : LogStep s p rf e)
    (hcand : (s.peer p).state = .candidate) (hterm : rf.currentTerm = (s.peer p).currentTerm)
    (hno : ∀ s₀ ∈ σ, ∀ q, ¬ Leads s₀ q rf.currentTerm) : rf.log = (s.peer p).log := by
  have hpos : 0 < rf.currentTerm := hterm ▸ h.term_pos s hs p (by simp [hcand])
  have absent : ∀ (k : Nat) (c : AppendCall n Cmd), s.appendCalls[k]? = some c →
      rf.currentTerm ≠ c.args.term := by
    intro k c hk hct
    obtain ⟨-, s₀, hs₀, hlead, -⟩ :=
      h.leads_of_append hs (List.mem_of_getElem? hk) (hct ▸ hpos)
    exact hno s₀ hs₀ c.src (hct ▸ hlead)
  cases hl with
  | same _ heq => exact heq
  | started command hlead => simp [hlead] at hcand
  | cut k c prev hk _ _ _ hct => exact absurd hct (absent k c hk)
  | spliced k c prev hk _ _ _ hct => exact absurd hct (absent k c hk)

theorem Run.ballot (h : Run CrashFree σ) : ∀ s ∈ σ, ∀ p, (s.peer p).state = .candidate →
    (∀ s₀ ∈ σ, ∀ q, ¬ Leads s₀ q (s.peer p).currentTerm) →
    ∀ c ∈ s.voteCalls, c.src = p → c.args.term = (s.peer p).currentTerm →
      (s.peer p).ballot p = some c.args := by
  refine History.Run.forall_mem h.within (fun p hp => by cases hp) ?_
  rintro s e s' ih ⟨⟨hcf, hstep⟩, hmem, -⟩ p hcand hno c hc rfl hterm
  have hs := step_spec hstep
  have hpeer := hs.peerStep hcf c.src
  obtain ⟨k, hk⟩ := List.mem_iff_getElem?.mp hc
  have still : (s.peer c.src).state = .candidate →
      (s'.peer c.src).currentTerm = (s.peer c.src).currentTerm →
      (s'.peer c.src).ballot c.src = some c.args := by
    intro hcand' hterm'
    have hlog := h.log_eq hmem hpeer.logStep hcand' hterm' hno
    have old : ∀ c₀, s.voteCalls[k]? = some c₀ → c₀.Later c →
        (s.peer c.src).ballot c.src = some c.args := by
      intro c₀ hc₀ hl
      rw [hl.args] at hterm ⊢
      exact ih c.src hcand' (hterm' ▸ hno) c₀ (List.mem_of_getElem? hc₀) hl.src.symm
        (hterm.trans hterm')
    have hbefore : (s.peer c.src).ballot c.src = some c.args := by
      cases hs.voteCall_cases hcf hk with
      | kept hold =>
        obtain ⟨c₀, hc₀, hl, -⟩ := hold
        exact old c₀ hc₀ hl
      | handled c₀ r hc₀ hl => exact old c₀ hc₀ hl
      | issued last _ _ _ _ _ _ hrf =>
        rw [hrf] at hterm'
        simp at hterm'
    rwa [Raft.ballot, hlog, hterm']
  cases hpeer.roleStep with
  | follower _ hst => simp [hst] at hcand
  | same _ hst hterm' => exact still (hst ▸ hcand) hterm'
  | stood _ hterm' =>
    have old : ∀ c₀, s.voteCalls[k]? = some c₀ → c₀.Later c →
        (s'.peer c.src).ballot c.src = some c.args := by
      intro c₀ hc₀ hl
      have hle := (h.voteCallOk s hmem c₀ (List.mem_of_getElem? hc₀)).term_le
      rw [← hl.args, ← hl.src] at hle
      omega
    cases hs.voteCall_cases hcf hk with
    | kept hold =>
      obtain ⟨c₀, hc₀, hl, -⟩ := hold
      exact old c₀ hc₀ hl
    | handled c₀ r hc₀ hl => exact old c₀ hc₀ hl
    | issued last _ hlast _ _ _ hargs hrf => simp [Raft.ballot, hrf, hlast, ← hargs]
  | counted _ _ _ _ _ _ _ hst hterm' => exact still (hst ▸ hcand) hterm'
  | elected _ _ _ _ _ _ _ _ hlead => simp [hlead] at hcand

/-- The moment before `p` became leader of `T`, the head of the history: a majority
had voted for the log `p` then had. -/
structure Elected (s : Cluster n Cmd) (τ : List (Cluster n Cmd)) (p : Fin n) (T : Nat) : Prop where
  candidate : (s.peer p).state = .candidate
  term : (s.peer p).currentTerm = T
  noLeader : ∀ s₀ ∈ s :: τ, ∀ q, ¬ Leads s₀ q T
  quorum : ∃ Q : Finset (Fin n), Majority Q ∧ ∃ args, (s.peer p).ballot p = some args ∧
    ∀ q ∈ Q, ∃ s₀ ∈ s :: τ, VotedIn s₀ q args

omit [Inhabited Cmd] in
theorem votedIn_self {args : RequestVoteArgs} (hb : (s.peer p).ballot p = some args)
    (hv : (s.peer p).votedFor = some p.val) : VotedIn s p args := by
  obtain ⟨last, hlast, rfl⟩ := Option.map_eq_some_iff.mp hb
  exact ⟨rfl, hv, last, hlast, by simp [Raft.upToDate]⟩

theorem Run.not_leads_earlier (h : Run CrashFree (s :: σ)) (hcand : (s.peer p).state = .candidate)
    {t : Cluster n Cmd} (ht : t ∈ s :: σ) : ¬ Leads t p (s.peer p).currentTerm := by
  intro hl
  rcases List.mem_cons.mp ht with rfl | ht
  · simp [hl.1] at hcand
  · rcases ((List.pairwise_cons.mp h.precedes).1 t ht p).role hl.2 with hst | ⟨-, hst⟩
    · simp [hst, hl.1] at hcand
    · simp [hst] at hcand

theorem Run.elected_of_vote (h : FreshRun (s :: σ)) {k : Nat} {c : VoteCall n}
    {r : RequestVoteReply} (hfresh : FreshVotes s (.sendRequestVote k))
    (hk : s.voteCalls[k]? = some c) (hst : c.stage = .returned r) (hg : r.voteGranted = true)
    (hcand : (s.peer c.src).state = .candidate) (hmaj : n / 2 < (s.peer c.src).votes + 1)
    (hno : ∀ s₀ ∈ s :: σ, ∀ q, ¬ Leads s₀ q (s.peer c.src).currentTerm) :
    Elected s σ c.src (s.peer c.src).currentTerm := by
  have hballot := h.crashFree.ballot s List.mem_cons_self c.src hcand hno
  have hb := hballot c (List.mem_of_getElem? hk) rfl
    (hfresh c hk r (by simp [hst, Stage.reply]) hg hcand)
  obtain ⟨Q, hQ, hvotes⟩ := h.majority List.mem_cons_self hfresh hk hst hg hcand hmaj
  refine ⟨hcand, rfl, hno, Q, hQ, c.args, hb, fun q hq => ?_⟩
  rcases hvotes q hq with rfl | ⟨c', hc', hsrc', hterm', s₀, hs₀, hv⟩
  · have hself := h.crashFree.selfVote s List.mem_cons_self c.src (by simp [hcand])
    exact ⟨s, List.mem_cons_self, votedIn_self hb hself⟩
  · have hargs : c'.args = c.args :=
      Option.some.inj ((hballot c' hc' hsrc' hterm').symm.trans hb)
    exact ⟨s₀, hs₀, hargs ▸ hv⟩

theorem Run.elected (h : FreshRun σ) :
    ∀ t ∈ σ, ∀ p T, Leads t p T → ∃ s τ, s :: τ <:+ σ ∧ Elected s τ p T := by
  have hone := h.oneLeader
  induction h with
  | init =>
    intro t ht p T hl
    obtain rfl := List.mem_singleton.mp ht
    cases hl.1
  | @step s s' σ e hrun hstep ih =>
    have hrun : FreshRun (s :: σ) := hrun
    have before : ∀ t ∈ s :: σ, ∀ p T, Leads t p T →
        ∃ s₀ τ, s₀ :: τ <:+ s' :: s :: σ ∧ Elected s₀ τ p T := by
      intro t ht p T hl
      obtain ⟨s₀, τ, hτ, hel⟩ := ih hrun.oneLeader t ht p T hl
      exact ⟨s₀, τ, hτ.trans (List.suffix_cons _ _), hel⟩
    intro t ht p T hl
    rcases List.mem_cons.mp ht with rfl | ht
    · obtain ⟨⟨hcf, hfresh⟩, hstep⟩ := hstep
      obtain ⟨hlead, rfl⟩ := id hl
      cases ((step_spec hstep).peerStep hcf p).roleStep.leaderFrom hlead with
      | stays _ hst hterm => exact before s List.mem_cons_self p _ ⟨hst, hterm.symm⟩
      | elected k c r hk hsrc hst hg hcand hmaj hterm =>
        subst hsrc
        refine ⟨s, σ, List.suffix_cons _ _, ?_⟩
        rw [hterm] at hl ⊢
        refine hrun.elected_of_vote hfresh hk hst hg hcand hmaj fun s₀ hs₀ q hq => ?_
        obtain rfl := hone s₀ (List.mem_cons_of_mem _ hs₀) t List.mem_cons_self q c.src _ hq hl
        exact hrun.crashFree.not_leads_earlier hcand hs₀ hq
    · exact before t ht p T hl

end Runs

end MrAndRaft
