import MrAndRaft.Raft.Replication

/-! What a request says about its sender.  `sendHeartBeats` builds it from the leader's
log; the first requests of a new leader are `AppendEntriesArgs{}`. -/

namespace MrAndRaft

variable {n : Nat} {Cmd : Type} {s s' : Cluster n Cmd} {p : Fin n} {e : Event n Cmd}

structure Describes (rf : Raft Cmd) (me : Nat) (args : AppendEntriesArgs Cmd) : Prop where
  leader : rf.state = .leader
  term : args.term = rf.currentTerm
  leaderId : args.leaderId = me
  prev : ∃ prev, rf.log[args.prevLogIndex]? = some prev ∧ args.prevLogTerm = prev.term
  entries : args.entries = rf.log.drop (args.prevLogIndex + 1)

def Raft.NextInLog (rf : Raft Cmd) (peer : Nat) : Prop :=
  ∀ next ∈ rf.nextIndex[peer]?, next ≤ rf.log.length

instance (rf : Raft Cmd) (peer : Nat) : Decidable (rf.NextInLog peer) :=
  inferInstanceAs (Decidable (∀ next ∈ rf.nextIndex[peer]?, next ≤ rf.log.length))

theorem Raft.HeartBeat.describes {rf : Raft Cmd} {me peer : Nat}
    {args : AppendEntriesArgs Cmd} (hlead : rf.state = .leader) (h : rf.HeartBeat me peer args) :
    Describes rf me args ↔ rf.NextInLog peer := by
  have hnext : rf.NextInLog peer ↔ args.prevLogIndex + 1 ≤ rf.log.length := by
    simp [NextInLog, h.next]
  rw [hnext]
  constructor
  · rintro ⟨-, -, -, ⟨prev, hprev, -⟩, -⟩
    exact (List.getElem?_eq_some_iff.mp hprev).1
  · intro hle
    rcases Nat.lt_or_eq_of_le hle with hlt | heq
    · obtain ⟨prev, hprev, hterm, hentries⟩ := h.suffix hlt
      exact ⟨hlead, h.term, h.leaderId, ⟨prev, hprev, hterm⟩, hentries⟩
    · obtain ⟨last, hlast, hterm, hnil⟩ := h.empty heq.ge
      rw [show rf.log.length - 1 = args.prevLogIndex by omega] at hlast
      refine ⟨hlead, h.term, h.leaderId, ⟨last, hlast, hterm⟩, ?_⟩
      rw [hnil, heq, List.drop_length]

theorem Step.new_request [Inhabited Cmd] (h : Step s e s') {k : Nat}
    (hk : s.appendCalls.length ≤ k) {c : AppendCall n Cmd} (hc : s'.appendCalls[k]? = some c) :
    (e = .sendHeartBeats c.src ∧ s'.peer = s.peer ∧ (s.peer c.src).state = .leader ∧
      (s.peer c.src).HeartBeat c.src c.dst c.args) ∨
    (∃ j, e = .sendRequestVote j) ∧ c.args = {} := by
  have hold : s.appendCalls[k]? = none := List.getElem?_eq_none hk
  cases h with
  | sendHeartBeats p requests hreq =>
    rcases Position.of_append hc with hc | ⟨-, hnew⟩
    · simp [hold] at hc
    · obtain ⟨⟨q, args⟩, hr, rfl⟩ := List.mem_map.mp hnew
      rcases hreq with rfl | ⟨hlead, -, hall⟩
      · cases hr
      · exact .inl ⟨rfl, rfl, hlead, hall _ hr⟩
  | sendRequestVote j c' reply rf out _ _ _ hrf =>
    rcases Position.of_append hc with hc | ⟨-, hnew⟩
    · simp [hold] at hc
    · obtain ⟨⟨q, args⟩, hr, rfl⟩ := List.mem_map.mp hnew
      cases hrf with
      | deposed | refused | counted => cases hr
      | elected =>
        obtain ⟨q', -, heq⟩ := List.mem_map.mp hr
        obtain ⟨rfl, rfl⟩ := Prod.mk.inj heq
        exact .inr ⟨⟨j, rfl⟩, rfl⟩
  | persist | appendEntries | heartBeat | sendAppendEntries | crash =>
    have hlen : k < s.appendCalls.length := by
      simpa using (List.getElem?_eq_some_iff.mp hc).1
    omega
  | becomeCandidate | start | requestVote | receivedVote =>
    simp [hold] at hc

variable [Inhabited Cmd] {σ : List (Cluster n Cmd)}

theorem Run.same_request (h : Run CrashFree σ) {t : Cluster n Cmd} (hs : s ∈ σ) (ht : t ∈ σ)
    {k : Nat} {c c' : AppendCall n Cmd} (hc : s.appendCalls[k]? = some c)
    (hc' : t.appendCalls[k]? = some c') : c'.src = c.src ∧ c'.dst = c.dst ∧ c'.args = c.args := by
  have hadv := History.Run.pairwise (R := fun s t : Cluster n Cmd =>
    Advance s.appendCalls t.appendCalls) h Advance.trans
    fun s e s' hstep => ((step_spec hstep.2).appendCallStep hstep.1).advance
  rcases History.comparable (fun s => Advance.refl s.appendCalls) hadv hs ht with hst | hts
  · obtain ⟨c₁, hc₁, hl⟩ := hst k c hc
    obtain rfl : c₁ = c' := Option.some.inj (hc₁.symm.trans hc')
    exact ⟨hl.src, hl.dst, hl.args⟩
  · obtain ⟨c₁, hc₁, hl⟩ := hts k c' hc'
    obtain rfl : c₁ = c := Option.some.inj (hc₁.symm.trans hc)
    exact ⟨hl.src.symm, hl.dst.symm, hl.args.symm⟩

theorem Run.not_describes (h : Run CrashFree σ) (hs : s ∈ σ) (p : Fin n) :
    ¬ Describes (s.peer p) p ({} : AppendEntriesArgs Cmd) := by
  intro hd
  have hpos := h.term_pos s hs p (by simp [hd.leader])
  have hterm := hd.term
  simp only at hterm
  omega

/-- The reply to a request of term 1 reaches peer 0 when it leads in term 3 with a
shorter log. -/
def shortenedLog : List (Event 3 Nat) :=
  List.flatten [election, [
    .persist 0, .sendHeartBeats 0, .start 0 7, .persist 0, .sendHeartBeats 0,
    .appendEntries 4, .persist 1, .heartBeat 4, .appendEntries 2, .persist 2,
    .becomeCandidate 2, .persist 2, .becomeCandidate 2, .requestVote 5, .persist 1,
    .receivedVote 5, .sendRequestVote 5, .persist 2, .sendHeartBeats 2, .appendEntries 8,
    .persist 0, .becomeCandidate 0, .requestVote 6, .persist 1, .receivedVote 6,
    .sendRequestVote 6, .sendAppendEntries 4, .persist 0, .sendHeartBeats 0]]

end MrAndRaft
