import Mathlib.Algebra.GroupWithZero.Nat
import MrAndRaft.Raft.ClusterLaws

/-! Crash-free runs: terms only grow, a role changes within a term only from
candidate to leader, and a vote once given in a term stays. -/

namespace MrAndRaft

variable {n : Nat} {Cmd : Type}

/-- The states visited, latest first, by a run all of whose events satisfy `ok`
where they happen. -/
def Run [Inhabited Cmd] (ok : Cluster n Cmd → Event n Cmd → Prop) (σ : List (Cluster n Cmd)) :
    Prop :=
  History.Run Cluster.init (fun s e s' => ok s e ∧ s.step e = .ok s') σ

def CrashFree (_ : Cluster n Cmd) (e : Event n Cmd) : Prop := e.crashFree

instance (s : Cluster n Cmd) (e : Event n Cmd) : Decidable (CrashFree s e) :=
  inferInstanceAs (Decidable (_ = _))

def Leads (s : Cluster n Cmd) (p : Fin n) (T : Nat) : Prop :=
  (s.peer p).state = .leader ∧ (s.peer p).currentTerm = T

instance (s : Cluster n Cmd) (p : Fin n) (T : Nat) : Decidable (Leads s p T) :=
  inferInstanceAs (Decidable (_ ∧ _))

structure Raft.Precedes (a b : Raft Cmd) : Prop where
  term : a.currentTerm ≤ b.currentTerm
  vote : a.currentTerm = b.currentTerm → ∀ c, a.votedFor = some c → b.votedFor = some c
  role : a.currentTerm = b.currentTerm →
    b.state = a.state ∨ a.state = .candidate ∧ b.state = .leader

namespace Raft.Precedes

variable {a b c rf rf' : Raft Cmd}

theorem refl (a : Raft Cmd) : a.Precedes a :=
  ⟨le_rfl, fun _ _ h => h, fun _ => .inl rfl⟩

theorem trans (h : a.Precedes b) (h' : b.Precedes c) : a.Precedes c where
  term := h.term.trans h'.term
  vote heq v hv := by
    have := h.term
    have := h'.term
    exact h'.vote (by omega) v (h.vote (by omega) v hv)
  role heq := by
    have := h.term
    have := h'.term
    rcases h.role (by omega) with h1 | ⟨h1, h2⟩ <;> rcases h'.role (by omega) with h3 | ⟨h3, h4⟩
    · exact .inl (h3.trans h1)
    · exact .inr ⟨h1 ▸ h3, h4⟩
    · exact .inr ⟨h1, h3.trans h2⟩
    · rw [h2] at h3
      cases h3

theorem of_term_lt (h : a.currentTerm < b.currentTerm) : a.Precedes b :=
  ⟨h.le, fun heq => absurd heq h.ne, fun heq => absurd heq h.ne⟩

theorem of_eq (hterm : b.currentTerm = a.currentTerm) (hvote : b.votedFor = a.votedFor)
    (hstate : b.state = a.state) : a.Precedes b :=
  ⟨hterm.ge, fun _ _ hc => hvote.trans hc, fun _ => .inl hstate⟩

theorem observe (rf : Raft Cmd) (term : Nat) : rf.Precedes (rf.observe term) := by
  unfold Raft.observe
  split
  · exact of_term_lt ‹_›
  · exact refl rf

end Raft.Precedes

namespace Raft

variable {rf rf' : Raft Cmd}

theorem Started.precedes {me : Nat} {command : Cmd} (h : Started me command rf rf') :
    rf.Precedes rf' := by
  cases h
  · exact .refl rf
  · exact .of_eq rfl rfl rfl

theorem Voted.precedes {args : RequestVoteArgs} {reply : RequestVoteReply}
    (h : Voted args rf rf' reply) : rf.Precedes rf' := by
  cases h with
  | stale => exact .refl rf
  | refused => exact .observe rf _
  | granted last hle _ _ hv =>
    refine (Precedes.observe rf args.term).trans ⟨le_rfl, fun _ c hc => ?_, fun _ => .inl rfl⟩
    rcases hv with hv | hv
    · rw [hv] at hc
      cases hc
    · rw [hv] at hc
      exact hc

theorem Counted.precedes {peers : Nat} {reply : RequestVoteReply}
    {out : Option (AppendEntriesArgs Cmd)} (h : Counted peers reply rf rf' out) :
    rf.Precedes rf' := by
  cases h with
  | deposed hlt => exact .of_term_lt hlt
  | refused => exact .refl rf
  | counted => exact .of_eq rfl rfl rfl
  | elected _ _ _ hcand => exact ⟨le_rfl, fun _ c hc => hc, fun _ => .inr ⟨hcand, rfl⟩⟩

theorem Appended.precedes {args : AppendEntriesArgs Cmd} {reply : AppendEntriesReply}
    (h : Appended args rf rf' reply) : rf.Precedes rf' := by
  cases h with
  | stale => exact .refl rf
  | short => exact .observe rf _
  | conflict => exact (Precedes.observe rf _).trans (.of_eq rfl rfl rfl)
  | agree _ _ _ _ _ hf =>
    exact (Precedes.observe rf _).trans
      (.of_eq hf.frame.currentTerm hf.frame.votedFor hf.frame.state)

theorem Acknowledged.precedes {peers server : Nat} {args : AppendEntriesArgs Cmd}
    {reply : AppendEntriesReply} (h : Acknowledged peers server args reply rf rf') :
    rf.Precedes rf' := by
  cases h with
  | ignored => exact .refl rf
  | deposed _ hlt => exact .of_term_lt hlt
  | matched _ _ _ _ _ _ hs => exact .of_eq hs.frame.currentTerm hs.frame.votedFor hs.frame.state
  | backedOff => exact .of_eq rfl rfl rfl
  | rejected _ _ _ _ hs => exact .of_eq hs.frame.currentTerm hs.frame.votedFor hs.frame.state

end Raft

variable {s s' : Cluster n Cmd} {p q : Fin n} {e : Event n Cmd}

theorem PeerStep.precedes {rf : Raft Cmd} (h : PeerStep s p e rf) : (s.peer p).Precedes rf := by
  cases h with
  | same => exact .refl _
  | candidate rf hrf =>
    subst hrf
    exact .of_term_lt (Nat.lt_succ_self _)
  | started _ _ h => exact h.precedes
  | voted _ _ _ _ _ _ h => exact h.precedes
  | counted _ _ _ _ _ _ _ _ h => exact h.precedes
  | appended _ _ _ _ _ _ _ h => exact h.precedes
  | acknowledged _ _ _ _ _ _ _ h => exact h.precedes

def SelfVote (p : Fin n) (rf : Raft Cmd) : Prop :=
  rf.state ≠ .follower → rf.votedFor = some p.val

theorem selfVote_of_follower {rf : Raft Cmd} (h : rf.state = .follower) : SelfVote p rf :=
  fun hne => absurd h hne

namespace SelfVote

variable {rf rf' : Raft Cmd}

theorem congr (h : SelfVote p rf) (hstate : rf'.state = rf.state)
    (hvote : rf'.votedFor = rf.votedFor) : SelfVote p rf' :=
  fun hne => hvote.trans (h fun hf => hne (hstate.trans hf))

theorem observe (h : SelfVote p rf) (term : Nat) : SelfVote p (rf.observe term) := by
  unfold Raft.observe
  split
  · exact selfVote_of_follower rfl
  · exact h

theorem setVote (h : SelfVote p rf) {c : Nat} (hv : rf.votedFor = none ∨ rf.votedFor = some c) :
    SelfVote p (rf.setVote c) := by
  intro hne
  have hme := h hne
  rcases hv with hv | hv
  · rw [hv] at hme
    cases hme
  · exact hv.symm.trans hme

end SelfVote

theorem PeerStep.selfVote {rf : Raft Cmd} (h : PeerStep s p e rf) (hself : SelfVote p (s.peer p)) :
    SelfVote p rf := by
  cases h with
  | same => exact hself
  | candidate rf hrf =>
    subst hrf
    exact fun _ => rfl
  | started _ _ h => cases h <;> exact hself
  | voted _ _ _ _ _ _ h =>
    cases h with
    | stale => exact hself
    | refused => exact hself.observe _
    | granted _ _ _ _ hv => exact (hself.observe _).setVote hv
  | counted _ _ _ _ _ _ _ _ h =>
    cases h with
    | deposed => exact selfVote_of_follower rfl
    | refused => exact hself
    | counted => exact hself
    | elected _ _ _ hcand => exact fun _ => hself (by simp [hcand])
  | appended _ _ _ _ _ _ _ h =>
    cases h with
    | stale => exact hself
    | short => exact hself.observe _
    | conflict => exact (hself.observe _).congr rfl rfl
    | agree _ _ _ _ _ hf => exact (hself.observe _).congr hf.frame.state hf.frame.votedFor
  | acknowledged _ _ _ _ _ _ _ h =>
    cases h with
    | ignored => exact hself
    | deposed => exact selfVote_of_follower rfl
    | matched _ _ _ _ _ _ hs => exact hself.congr hs.frame.state hs.frame.votedFor
    | backedOff => exact hself
    | rejected _ _ _ _ hs => exact hself.congr hs.frame.state hs.frame.votedFor

section Runs

variable [Inhabited Cmd] {ok : Cluster n Cmd → Event n Cmd → Prop} {σ : List (Cluster n Cmd)}

theorem Run.mono {ok' : Cluster n Cmd → Event n Cmd → Prop} (h : Run ok σ)
    (hok : ∀ s e, ok s e → ok' s e) : Run ok' σ :=
  History.Run.mono h fun s e _ hs => ⟨hok s e hs.1, hs.2⟩

theorem exists_run (ok : Cluster n Cmd → Event n Cmd → Prop) [∀ s e, Decidable (ok s e)]
    (P : Cluster n Cmd → Prop) [DecidablePred P] (es : List (Event n Cmd))
    (h : (History.exec (fun s e => decide (ok s e)) Cluster.step Cluster.init es).any
      fun s => decide (P s)) : ∃ s σ, Run ok (s :: σ) ∧ P s :=
  History.exists_run ok P es h

theorem Run.precedes (h : Run CrashFree σ) :
    σ.Pairwise fun later earlier => ∀ p, (earlier.peer p).Precedes (later.peer p) :=
  History.Run.pairwise h (fun hab hbc p => (hab p).trans (hbc p))
    fun _ _ _ hs p => ((step_spec hs.2).peerStep hs.1 p).precedes

theorem Run.selfVote (h : Run CrashFree σ) : ∀ s ∈ σ, ∀ p, SelfVote p (s.peer p) := by
  refine History.Run.forall_mem h (fun p => selfVote_of_follower rfl) ?_
  intro s e s' ih hs p
  exact ((step_spec hs.2).peerStep hs.1 p).selfVote (ih p)

structure VotedIn (s : Cluster n Cmd) (q : Fin n) (args : RequestVoteArgs) : Prop where
  term : (s.peer q).currentTerm = args.term
  vote : (s.peer q).votedFor = some args.candidateId
  upToDate : ∃ last, (s.peer q).log[(s.peer q).log.length - 1]? = some last ∧
    Raft.upToDate args ((s.peer q).log.length - 1) last.term

omit [Inhabited Cmd] in
theorem votedIn_of_granted {args : RequestVoteArgs} {r : RequestVoteReply} {rf : Raft Cmd}
    (h : rf.Voted args (s.peer q) r) (hg : r.voteGranted = true) : VotedIn s q args := by
  generalize hrf' : s.peer q = rf' at h
  cases h with
  | stale => cases hg
  | refused => cases hg
  | granted last hle hlast hup =>
    refine ⟨?_, ?_, last, ?_, ?_⟩ <;> rw [hrf']
    · simp only [Raft.setVote_currentTerm, Raft.observe_currentTerm]
      omega
    · rfl
    · simpa using hlast
    · simpa using hup

theorem Run.votedIn (h : Run CrashFree σ) :
    ∀ s ∈ σ, ∀ c ∈ s.voteCalls, ∀ r, c.stage.reply = some r → r.voteGranted = true →
      ∃ s₀ ∈ σ, VotedIn s₀ c.dst c.args := by
  refine History.Run.forall_mem h.within (by simp [Cluster.init]) ?_
  rintro s e s' ih ⟨hs, -, hs'⟩ c hc r hr hg
  obtain ⟨k, hk⟩ := List.mem_iff_getElem?.mp hc
  cases (step_spec hs.2).voteCall_cases hs.1 hk with
  | kept hold =>
    obtain ⟨c₀, hc₀, hl, hreply⟩ := hold
    rw [hl.dst, hl.args]
    exact ih c₀ (List.mem_of_getElem? hc₀) r (hreply ▸ hr) hg
  | handled c₀ r₀ hc₀ hl _ hr₀ hv =>
    obtain rfl : r₀ = r := Option.some.inj (hr₀.symm.trans hr)
    rw [hl.dst, hl.args]
    exact ⟨s', hs', votedIn_of_granted hv hg⟩
  | issued _ _ _ _ hst => simp [hst, Stage.reply] at hr

theorem Run.vote_unique (h : Run CrashFree σ) {s t : Cluster n Cmd} (hs : s ∈ σ) (ht : t ∈ σ)
    {q : Fin n} {a b : Nat} (hterm : (s.peer q).currentTerm = (t.peer q).currentTerm)
    (ha : (s.peer q).votedFor = some a) (hb : (t.peer q).votedFor = some b) : a = b := by
  rcases History.comparable (fun _ _ => .refl _) h.precedes hs ht with hst | hts
  · exact Option.some.inj (((hst q).vote hterm a ha).symm.trans hb)
  · exact Option.some.inj (ha.symm.trans ((hts q).vote hterm.symm b hb))

/-- `p` supported candidate `c` in term `T`: by its own candidacy or by a reply that
granted the vote. -/
inductive Supports (σ : List (Cluster n Cmd)) (p : Fin n) (T : Nat) : Nat → Prop
  | self (s : Cluster n Cmd) : s ∈ σ → (s.peer p).state = .candidate →
      (s.peer p).currentTerm = T → Supports σ p T p
  | granted (s : Cluster n Cmd) (c : VoteCall n) (r : RequestVoteReply) : s ∈ σ →
      c ∈ s.voteCalls → c.dst = p → c.args.term = T → c.stage.reply = some r →
      r.voteGranted = true → Supports σ p T c.args.candidateId

theorem Supports.voted (h : Run CrashFree σ) {T c : Nat} (hsup : Supports σ p T c) :
    ∃ s ∈ σ, (s.peer p).currentTerm = T ∧ (s.peer p).votedFor = some c := by
  cases hsup with
  | self s hs hcand hterm => exact ⟨s, hs, hterm, h.selfVote s hs p (by simp [hcand])⟩
  | granted s c r hs hc hdst hterm hr hg =>
    obtain ⟨s₀, hs₀, hv⟩ := h.votedIn s hs c hc r hr hg
    rw [hdst] at hv
    exact ⟨s₀, hs₀, hv.term.trans hterm, hv.vote⟩

theorem single_vote (h : Run CrashFree σ) :
    (∀ p T c c', Supports σ p T c → Supports σ p T c' → c = c') ∧
    (∀ s ∈ σ, ∀ p, (s.peer p).state = .candidate ∨ (s.peer p).state = .leader →
      (s.peer p).votedFor = some p.val) ∧
    σ.Pairwise fun later earlier => ∀ p,
      (earlier.peer p).currentTerm ≤ (later.peer p).currentTerm := by
  refine ⟨fun p T c c' hc hc' => ?_, fun s hs p hst => ?_, ?_⟩
  · obtain ⟨s, hs, hterm, hv⟩ := hc.voted h
    obtain ⟨t, ht, hterm', hv'⟩ := hc'.voted h
    exact h.vote_unique hs ht (hterm.trans hterm'.symm) hv hv'
  · refine h.selfVote s hs p ?_
    rcases hst with hst | hst <;> simp [hst]
  · exact h.precedes.imp fun hab p => (hab p).term

end Runs

instance threePeers : NeZero 3 := ⟨Nat.succ_ne_zero 2⟩

def splitVote : List (Event 3 Nat) :=
  [.persist 0, .becomeCandidate 0, .persist 1, .requestVote 0, .receivedVote 0,
    .persist 0, .becomeCandidate 0, .persist 1, .becomeCandidate 1]

theorem single_vote_splitVote : ∃ (s : Cluster 3 Nat) (σ : List (Cluster 3 Nat)),
    Run CrashFree (s :: σ) ∧ Supports (s :: σ) 1 1 0 ∧ Supports (s :: σ) 1 2 1 ∧
      ∀ c, Supports (s :: σ) 1 1 c → c = 0 := by
  obtain ⟨s, σ, hrun, hvote, hcand, hterm⟩ := exists_run CrashFree
    (fun s => s.voteCalls[0]? = some ⟨0, 1, 1, ⟨1, 0, 0, 0⟩, .returned ⟨0, true⟩, false⟩ ∧
      (s.peer 1).state = .candidate ∧ (s.peer 1).currentTerm = 2) splitVote (by decide)
  have h1 : Supports (s :: σ) 1 1 0 :=
    .granted s _ ⟨0, true⟩ List.mem_cons_self (List.mem_of_getElem? hvote) rfl rfl rfl rfl
  exact ⟨s, σ, hrun, h1, .self s List.mem_cons_self hcand hterm,
    fun c hc => (single_vote hrun).1 1 1 c 0 hc h1⟩

end MrAndRaft
