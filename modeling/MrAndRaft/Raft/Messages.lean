import Mathlib.Data.List.Nodup
import MrAndRaft.Raft.Votes

/-! Where the RPCs of a crash-free run come from. -/

namespace MrAndRaft

variable {n : Nat} {Cmd : Type} [Inhabited Cmd] {σ : List (Cluster n Cmd)} {s s' : Cluster n Cmd}

structure VoteCallOk (s : Cluster n Cmd) (c : VoteCall n) : Prop where
  dst_ne : c.dst ≠ c.src
  candidate : c.args.candidateId = c.src
  sentTerm : c.sentTerm = c.args.term
  term_pos : 0 < c.args.term
  term_le : c.args.term ≤ (s.peer c.src).currentTerm

theorem Run.voteCallOk (h : Run CrashFree σ) : ∀ s ∈ σ, ∀ c ∈ s.voteCalls, VoteCallOk s c := by
  refine History.Run.forall_mem h (by simp [Cluster.init]) ?_
  intro s e s' ih hs c hc
  obtain ⟨k, hk⟩ := List.mem_iff_getElem?.mp hc
  have hstep := step_spec hs.2
  have old : ∀ c₀, s.voteCalls[k]? = some c₀ → c₀.Later c → VoteCallOk s' c := by
    intro c₀ hc₀ hl
    have ok := ih c₀ (List.mem_of_getElem? hc₀)
    have hterm := (hstep.peerStep hs.1 c₀.src).precedes.term
    constructor <;> simp only [hl.src, hl.dst, hl.args, hl.sentTerm]
    · exact ok.dst_ne
    · exact ok.candidate
    · exact ok.sentTerm
    · exact ok.term_pos
    · exact ok.term_le.trans hterm
  cases hstep.voteCall_cases hs.1 hk with
  | kept hold =>
    obtain ⟨c₀, hc₀, hl, -⟩ := hold
    exact old c₀ hc₀ hl
  | handled c₀ r hc₀ hl => exact old c₀ hc₀ hl
  | issued last hlen hlast hne hst hterm hargs hpeer =>
    refine ⟨hne, ?_, hterm, ?_, ?_⟩
    · rw [hargs]
    · rw [hargs]
      exact Nat.succ_pos _
    · rw [hpeer, hargs]

def voteKey (c : VoteCall n) : Fin n × Fin n × Nat := (c.src, c.dst, c.args.term)

theorem Run.voteKey_nodup (h : Run CrashFree σ) : ∀ s ∈ σ, (s.voteCalls.map voteKey).Nodup := by
  have hok := h.voteCallOk
  refine History.Run.forall_mem h.within (by simp [Cluster.init]) ?_
  rintro s e s' hnd ⟨hs, hmem, -⟩
  cases step_spec hs.2 with
  | becomeCandidate p last rf args hlast hargs hrf =>
    simp only [Cluster.callVotes, Cluster.setTicker_voteCalls, Cluster.setPeer_voteCalls,
      List.map_append, List.map_map]
    refine List.nodup_append.mpr ⟨hnd, ?_, ?_⟩
    · refine List.Nodup.map (fun a b hab => ?_) (Raft.others_nodup p)
      exact (Prod.mk.inj (Prod.mk.inj hab).2).1
    · intro a ha b hb hab
      obtain ⟨c, hc, rfl⟩ := List.mem_map.mp ha
      obtain ⟨q, -, rfl⟩ := List.mem_map.mp hb
      have hle := (hok s hmem c hc).term_le
      simp only [voteKey, Function.comp_apply, Prod.mk.injEq, hargs] at hab
      rw [hab.1, hab.2.2] at hle
      omega
  | requestVote k c rf reply hk => exact (map_set_stage voteKey (fun _ _ => rfl) hk).symm ▸ hnd
  | receivedVote k c reply hk => exact (map_set_stage voteKey (fun _ _ => rfl) hk).symm ▸ hnd
  | sendRequestVote k c reply rf out hk =>
    exact (map_set_stage voteKey (fun _ _ => rfl) hk).symm ▸ hnd
  | persist | sendHeartBeats | start | appendEntries | heartBeat | sendAppendEntries => exact hnd
  | crash => cases hs.1

theorem Run.voteCall_unique (h : Run CrashFree σ) (hs : s ∈ σ) {k k' : Nat} {c c' : VoteCall n}
    (hk : s.voteCalls[k]? = some c) (hk' : s.voteCalls[k']? = some c')
    (heq : voteKey c = voteKey c') : k = k' := by
  obtain ⟨hlt, -⟩ := List.getElem?_eq_some_iff.mp hk
  refine (List.getElem?_inj (by simpa using hlt) (h.voteKey_nodup s hs)).mp ?_
  simp [hk, hk', heq]

inductive SentIn (s : Cluster n Cmd) (c : AppendCall n Cmd) : Prop
  | first : Leads s c.src c.sentTerm → c.args = {} → SentIn s c
  | heartBeat : Leads s c.src c.sentTerm → c.args.term = c.sentTerm →
      (s.peer c.src).HeartBeat c.src c.dst c.args → SentIn s c

omit [Inhabited Cmd] in
theorem SentIn.later {c c' : AppendCall n Cmd} (h : SentIn s c) (hl : c.Later c') :
    SentIn s c' := by
  cases h with
  | first hlead hargs => exact .first (hl.src ▸ hl.sentTerm ▸ hlead) (hl.args ▸ hargs)
  | heartBeat hlead hterm hb =>
    refine .heartBeat ?_ ?_ ?_ <;> simp only [hl.src, hl.dst, hl.sentTerm, hl.args]
    · exact hlead
    · exact hterm
    · exact hb

theorem Run.sentIn (h : Run CrashFree σ) :
    ∀ s ∈ σ, ∀ c ∈ s.appendCalls, c.dst ≠ c.src ∧ ∃ s₀ ∈ σ, SentIn s₀ c := by
  refine History.Run.forall_mem h.within (by simp [Cluster.init]) ?_
  rintro s e s' ih ⟨hs, hmem, hmem'⟩ c hc
  obtain ⟨k, hk⟩ := List.mem_iff_getElem?.mp hc
  have old : ∀ c₀, s.appendCalls[k]? = some c₀ → c₀.Later c →
      c.dst ≠ c.src ∧ ∃ s₀ ∈ σ, SentIn s₀ c := by
    intro c₀ hc₀ hl
    obtain ⟨hne, s₀, hs₀, hsent⟩ := ih c₀ (List.mem_of_getElem? hc₀)
    exact ⟨hl.dst ▸ hl.src ▸ hne, s₀, hs₀, hsent.later hl⟩
  cases (step_spec hs.2).appendCall_cases hs.1 hk with
  | kept hold =>
    obtain ⟨c₀, hc₀, hl, -⟩ := hold
    exact old c₀ hc₀ hl
  | handled c₀ r hc₀ hl => exact old c₀ hc₀ hl
  | heartBeat hlen hne hst hlead hterm hb hpeer =>
    exact ⟨hne, s, hmem, .heartBeat ⟨hlead, hterm.symm⟩ (hb.term.trans hterm.symm) hb⟩
  | first hlen hne hst hlead hterm hargs =>
    exact ⟨hne, s', hmem', .first ⟨hlead, hterm.symm⟩ hargs⟩

end MrAndRaft
