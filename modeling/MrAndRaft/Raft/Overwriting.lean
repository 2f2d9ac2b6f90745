import MrAndRaft.Raft.Aliasing
import MrAndRaft.Raft.Orderly
import MrAndRaft.Raft.Requests

/-! The safety of the cluster as far as no request is overwritten before it is encoded, and the
run in which one is. -/

namespace MrAndRaft

variable {n : Nat} {Cmd : Type}

theorem OneLeader.of_leader {σ : List (Cluster n Cmd)} (leader : Nat → Fin n)
    (h : ∀ s ∈ σ, ∀ p, (s.peer p).state = .leader → leader (s.peer p).currentTerm = p) :
    OneLeader σ := by
  rintro s hs t ht p q T ⟨hp, rfl⟩ ⟨hq, hT⟩
  rw [← h s hs p hp, ← hT, h t ht q hq]

namespace Aliased

variable [Inhabited Cmd] {s s' t : Aliased n Cmd} {p q : Fin n} {cap : Fin n → Nat}
  {σ τ : List (Aliased n Cmd)} {ok ok' : Cluster n Cmd → MrAndRaft.Event n Cmd → Prop}

theorem Run.oneLeader (h : Run cap (Kept FreshReplies) σ) : OneLeader (σ.map (·.cluster)) := by
  obtain ⟨τ, hτ, hmem, -⟩ := h.cluster
  refine hτ.freshVotes.oneLeader.subset fun t ht => ?_
  obtain ⟨s, hs, rfl⟩ := List.mem_map.mp ht
  exact hmem s hs

theorem Run.last_step (h : Run cap (Kept ok) σ) (hτ : s' :: s :: τ <:+ σ) :
    s'.cluster = s.cluster ∨ ∃ e c, ok s.cluster e ∧ s.step (.step e c) = .ok s' ∧
      s.cluster.step e = .ok s'.cluster := by
  cases History.Run.of_suffix h hτ (by simp) with
  | step _ hstep =>
    refine (step_cluster hstep.1.2 hstep.2).imp_right ?_
    rintro ⟨e, c, rfl, hcluster⟩
    exact ⟨e, c, hstep.1.1, hstep.2, hcluster⟩

theorem log_matching (h : Run cap (Kept CrashFree) σ) (hone : OneLeader (σ.map (·.cluster))) :
    (∀ s ∈ σ, ∀ t ∈ σ, ∀ p q (i : Nat) (a b : LogEntry Cmd), (s.peer p).log[i]? = some a →
      (t.peer q).log[i]? = some b → a.term = b.term →
      ∀ j ≤ i, (s.peer p).log[j]? = (t.peer q).log[j]?) ∧
    (∀ s s' τ, s' :: s :: τ <:+ σ → ∀ p, (s.peer p).state = .leader →
      (s'.peer p).state = .leader → (s'.peer p).log = (s.peer p).log ∨
        ∃ command c, s.step (.step (.start p command) c) = .ok s' ∧
          (s'.peer p).log = (s.peer p).log ++ [⟨(s.peer p).currentTerm, command⟩]) := by
  obtain ⟨ρ, hρ, hmem, hback⟩ := h.cluster
  have hone : OneLeader ρ := hone.subset fun t ht => by
    obtain ⟨s, hs, rfl⟩ := hback t ht
    exact List.mem_map_of_mem hs
  refine ⟨fun s hs t ht p q i a b ha hb hterm => ?_, fun s s' τ hτ p _ hlead => ?_⟩
  · exact hρ.logs_match hone (hmem s hs) (hmem t ht) ha hb hterm
  · rcases h.last_step hτ with heq | ⟨e, c, hce, hstep, hcluster⟩
    · simp [peer, heq]
    · have hs := hmem s (hτ.subset (by simp))
      have hs' := hmem s' (hτ.subset (by simp))
      have hpeer := (step_spec hcluster).peerStep hce p
      refine (hρ.leader_logStep hone hs' hs ⟨hlead, rfl⟩ hpeer.logStep).imp_right ?_
      rintro ⟨command, rfl, heq⟩
      exact ⟨command, c, hstep, heq⟩

theorem log_matching_replication : ∃ (s : Aliased 3 Nat) (σ : List (Aliased 3 Nat)),
    Run (fun _ => 1) (Kept CrashFree) (s :: σ) ∧ OneLeader ((s :: σ).map (·.cluster)) ∧
      (s.peer 0).log[1]? = some ⟨1, 7⟩ ∧ ∀ j ≤ 1, (s.peer 0).log[j]? = (s.peer 1).log[j]? := by
  obtain ⟨s, σ, hrun, h0, h1⟩ := exists_kept FreshReplies
    (fun s => (s.peer 0).log[1]? = some ⟨1, 7⟩ ∧ (s.peer 1).log[1]? = some ⟨1, 7⟩) replication
    (by decide)
  have hcf : Run (fun _ => 1) (Kept CrashFree) (s :: σ) := hrun.imp fun _ _ h => h.1
  exact ⟨s, σ, hcf, hrun.oneLeader, h0, (log_matching hcf hrun.oneLeader).1 s List.mem_cons_self s
    List.mem_cons_self 0 1 1 _ _ h0 h1 rfl⟩

theorem term_order (h : Run cap (Kept ok) σ) : ∀ s ∈ σ,
    (∀ p, (s.peer p).log.Pairwise (fun a b => a.term ≤ b.term) ∧
      ∀ e ∈ (s.peer p).log, e.term ≤ (s.peer p).currentTerm) ∧
    ∀ c ∈ s.calls, ∀ first rest, c.args.entries = first :: rest →
      c.args.prevLogTerm ≤ first.term ∧
      c.args.entries.Pairwise (fun a b => a.term ≤ b.term) ∧
      ∀ e ∈ c.args.entries, e.term ≤ c.args.term := by
  intro s hs
  obtain ⟨ρ, hρ, hmem, -⟩ := h.cluster
  have hold := local_termsOk.run hρ s.cluster (hmem s hs)
  refine ⟨fun p => ⟨(hold.peer p).sorted, (hold.peer p).bound⟩, fun c hc first rest heq => ?_⟩
  have hargs := hold.args c hc
  exact ⟨hargs.prev first (by simp [heq]), hargs.sorted, hargs.bound⟩

theorem term_order_sharedTerm : ∃ (s : Aliased 3 Nat) (σ : List (Aliased 3 Nat)),
    Run (fun _ => 1) (Kept fun _ _ => True) (s :: σ) ∧ Leads s.cluster 0 2 ∧ Leads s.cluster 1 2 ∧
      (s.peer 2).log = [⟨0, 0⟩, ⟨2, 7⟩] ∧
      (s.peer 2).log.Pairwise (fun a b => a.term ≤ b.term) := by
  obtain ⟨s, σ, hrun, h0, h1, hlog⟩ := exists_kept (fun _ _ => True)
    (fun s : Cluster 3 Nat => Leads s 0 2 ∧ Leads s 1 2 ∧
      (s.peer 2).log = [⟨0, 0⟩, ⟨2, 7⟩]) sharedTerm (by decide +kernel)
  exact ⟨s, σ, hrun, h0, h1, hlog, ((term_order hrun s List.mem_cons_self).1 2).1⟩

theorem state_machine_safety (h : Run cap (Kept Steady) σ) (hs : s ∈ σ) (ht : t ∈ σ)
    {m m' : ApplyMsg Cmd} (hm : m ∈ (s.peer p).applyCh) (hm' : m' ∈ (t.peer q).applyCh)
    (hindex : m.commandIndex = m'.commandIndex) : m.command = m'.command := by
  obtain ⟨ρ, hρ, hmem, -⟩ := h.cluster
  exact hρ.applied_agree (hmem s hs) (hmem t ht) hm hm' hindex

theorem state_machine_safety_committed : ∃ (s : Aliased 3 Nat) (σ : List (Aliased 3 Nat)),
    Run (fun _ => 1) (Kept Steady) (s :: σ) ∧ ⟨true, 7, 1⟩ ∈ (s.peer 0).applyCh ∧
      ⟨true, 7, 1⟩ ∈ (s.peer 1).applyCh ∧
      ∀ t ∈ s :: σ, ∀ q, ∀ m ∈ (t.peer q).applyCh, 1 = m.commandIndex → 7 = m.command := by
  obtain ⟨s, σ, hrun, h0, h1⟩ := exists_kept Steady
    (fun s => ⟨true, 7, 1⟩ ∈ (s.peer 0).applyCh ∧ ⟨true, 7, 1⟩ ∈ (s.peer 1).applyCh) committed
    (by decide +kernel)
  exact ⟨s, σ, hrun, h0, h1, fun t ht q m hm hindex =>
    state_machine_safety hrun List.mem_cons_self ht h0 hm hindex⟩

theorem applied_differ_reordered : ∃ (s : Aliased 3 Nat) (σ : List (Aliased 3 Nat)),
    Run (fun _ => 1) (Kept CrashFree) (s :: σ) ∧ OneLeader ((s :: σ).map (·.cluster)) ∧
      ⟨true, 8, 2⟩ ∈ (s.peer 0).applyCh ∧ ⟨true, 9, 2⟩ ∈ (s.peer 1).applyCh := by
  obtain ⟨s, σ, hrun, h0, h1⟩ := exists_kept FreshReplies
    (fun s => ⟨true, 8, 2⟩ ∈ (s.peer 0).applyCh ∧ ⟨true, 9, 2⟩ ∈ (s.peer 1).applyCh) reordered
    (by decide +kernel)
  exact ⟨s, σ, hrun.imp fun _ _ h => h.1, hrun.oneLeader, h0, h1⟩

theorem leader_completeness (h : Run cap (Kept Orderly) σ) (hs : s ∈ σ) (ht : t ∈ σ) {T U : Nat}
    (hp : Leads s.cluster p T) (hq : Leads t.cluster q U) (hlt : T < U) {i : Nat}
    {x : LogEntry Cmd} (hi : i ≤ (s.peer p).commitIndex) (hx : (s.peer p).log[i]? = some x) :
    (t.peer q).log[i]? = some x := by
  obtain ⟨ρ, hρ, hmem, -⟩ := h.cluster
  exact hρ.committed_kept (hmem s hs) (hmem t ht) hp hq hlt hi hx

theorem leader_completeness_succession : ∃ (s : Aliased 3 Nat) (σ : List (Aliased 3 Nat)),
    Run (fun _ => 1) (Kept Orderly) (s :: σ) ∧ Leads s.cluster 0 1 ∧ Leads s.cluster 1 2 ∧
      (s.peer 0).commitIndex = 1 ∧ (s.peer 1).log[1]? = some ⟨1, 7⟩ := by
  obtain ⟨s, σ, hrun, h0, h1, hcommit, hlog⟩ := exists_kept Orderly (fun s => Leads s 0 1 ∧
    Leads s 1 2 ∧ (s.peer 0).commitIndex = 1 ∧ (s.peer 0).log[1]? = some ⟨1, 7⟩) succession
    (by decide)
  exact ⟨s, σ, hrun, h0, h1, hcommit, leader_completeness hrun List.mem_cons_self
    List.mem_cons_self h0 h1 (by decide) hcommit.ge hlog⟩

/-- The requests of the step from `s` to `s'` that describe their sender, whenever they are looked
at. -/
theorem describes_iff (h : Run cap (Kept CrashFree) σ) : ∀ s s' τ, s' :: s :: τ <:+ σ → ∀ t ∈ σ,
    ∀ (k : Nat) c, s.calls.length ≤ k → k < s'.calls.length → t.calls[k]? = some c →
      (Describes (s'.peer c.src) c.src c.args ↔
        (∃ b, s.step (.step (.sendHeartBeats c.src) b) = .ok s') ∧
          (s.peer c.src).NextInLog c.dst) := by
  intro s s' τ hτ t ht k c hk hk' hc
  obtain ⟨ρ, hρ, hmem, -⟩ := h.cluster
  have hs' := hmem s' (hτ.subset (by simp))
  obtain ⟨c', hc'⟩ : ∃ c', s'.calls[k]? = some c' := ⟨_, List.getElem?_eq_getElem hk'⟩
  obtain ⟨hsrc, hdst, hargs⟩ := hρ.same_request hs' (hmem t ht) hc' hc
  rw [hsrc, hdst, hargs]
  constructor
  · intro hd
    rcases h.last_step hτ with heq | ⟨e, b, -, hstep, hcluster⟩
    · have hlen : s'.calls.length = s.calls.length := by simp [calls, heq]
      omega
    rcases (step_spec hcluster).new_request hk hc' with ⟨rfl, hpeer, hlead, hb⟩ | ⟨-, hempty⟩
    · rw [peer, hpeer] at hd
      exact ⟨⟨b, hstep⟩, (hb.describes hlead).mp hd⟩
    · rw [hempty] at hd
      exact absurd hd (hρ.not_describes hs' c'.src)
  · rintro ⟨⟨b, hstep⟩, hnext⟩
    have hcluster : s.cluster.step (.sendHeartBeats c'.src) = .ok s'.cluster := by
      obtain ⟨r, -, hr, rfl⟩ := step_eq hstep
      have hi : s.Intact (.step (.sendHeartBeats c'.src) b) := fun w hw => by cases hw
      rw [after_cluster hi hr, hr]
    rcases (step_spec hcluster).new_request hk hc' with ⟨-, hpeer, hlead, hb⟩ | ⟨⟨j, heq⟩, -⟩
    · rw [peer, hpeer]
      exact (hb.describes hlead).mpr hnext
    · cases heq

theorem describes_iff_heartBeat : ∃ (s s' : Aliased 3 Nat) (σ : List (Aliased 3 Nat))
    (c : AppendCall 3 Nat), Run (fun _ => 1) (Kept CrashFree) (s' :: s :: σ) ∧
      s'.calls[2]? = some c ∧ c.args.entries = [⟨1, 7⟩] ∧ Describes (s'.peer c.src) c.src c.args := by
  obtain ⟨s, σ, hrun, hlen, hnext, hreq⟩ := exists_kept CrashFree
    (fun s : Cluster 3 Nat => s.appendCalls.length = 2 ∧ (s.peer 0).NextInLog 1 ∧
      (s.step (.sendHeartBeats 0)).toOption.bind (·.appendCalls[2]?) =
        some ⟨0, 1, 1, ⟨1, 0, 0, 0, [⟨1, 7⟩], 0⟩, .sent, false⟩)
    (election ++ [.start 0 7, .persist 0]) (by decide)
  cases hstep : s.cluster.step (.sendHeartBeats 0) with
  | error f => simp [hstep, Except.toOption] at hreq
  | ok t =>
    have hafter : s.step (.step (.sendHeartBeats 0) 0) = .ok (s.after (.sendHeartBeats 0) 0 t) := by
      simp [step, ready, hstep, Except.map]
    have hkept : s.Kept CrashFree (.step (.sendHeartBeats 0) 0) := ⟨rfl, fun w hw => by cases hw⟩
    have hc : (s.after (.sendHeartBeats 0) 0 t).calls[2]? =
        some ⟨0, 1, 1, ⟨1, 0, 0, 0, [⟨1, 7⟩], 0⟩, .sent, false⟩ := by
      rw [calls, after_cluster hkept.2 hstep]
      simpa [hstep, Except.toOption] using hreq
    have hrun' : Run (fun _ => 1) (Kept CrashFree) (s.after (.sendHeartBeats 0) 0 t :: s :: σ) :=
      .step hrun ⟨hkept, hafter⟩
    refine ⟨s, _, σ, _, hrun', hc, rfl, ?_⟩
    exact (describes_iff hrun' s _ σ List.suffix_rfl _ List.mem_cons_self 2 _ hlen.le
      (List.getElem?_eq_some_iff.mp hc).1 hc).mpr ⟨⟨0, hafter⟩, hnext⟩

/-- The first request of a new leader, and one that starts beyond the end of its log. -/
theorem undescribed_shortenedLog : ∃ (s : Aliased 3 Nat) (σ : List (Aliased 3 Nat)),
    Run (fun _ => 1) (Kept CrashFree) (s :: σ) ∧
      (∃ c ∈ s.calls, c.src = 0 ∧ c.sentTerm = 1 ∧
        ∀ t ∈ s :: σ, ¬ Describes (t.peer 0) 0 c.args) ∧
      ∃ c ∈ s.calls, c.src = 0 ∧ c.args.term = 3 ∧ Leads s.cluster 0 3 ∧
        (s.peer 0).log.length ≤ c.args.prevLogIndex := by
  obtain ⟨s, σ, hrun, ⟨c, hc, hsrc, hsent, hargs⟩, hbeyond⟩ := exists_kept CrashFree
    (fun s : Cluster 3 Nat =>
      (∃ c ∈ s.appendCalls, c.src = 0 ∧ c.sentTerm = 1 ∧ c.args = {}) ∧
      ∃ c ∈ s.appendCalls, c.src = 0 ∧ c.args.term = 3 ∧ Leads s 0 3 ∧
        (s.peer 0).log.length ≤ c.args.prevLogIndex) shortenedLog (by decide +kernel)
  refine ⟨s, σ, hrun, ⟨c, hc, hsrc, hsent, fun t ht => ?_⟩, hbeyond⟩
  obtain ⟨ρ, hρ, hmem, -⟩ := hrun.cluster
  rw [hargs]
  exact hρ.not_describes (hmem t ht) 0

section Overwritten

def elected (p : Fin 5) (votes : List (Fin 5 × Nat)) : List (MrAndRaft.Event 5 Nat) :=
  [.persist p, .becomeCandidate p] ++
    votes.flatMap (fun v => [.persist v.1, .requestVote v.2, .receivedVote v.2]) ++
    votes.map fun v => .sendRequestVote v.2

def steps (cap : Nat) (es : List (MrAndRaft.Event 5 Nat)) : List (Event 5 Nat) :=
  es.map (.step · cap)

/-- Peer 0 leads in term 1 and sends peer 4 first 7 and then, in RPC 11, the 8 after it.  Before
`Call` encodes RPC 11, peer 2 has led in terms 2 and 4 and cut the log of peer 0, which leads
again in term 5 and writes 9 and 10 where 7 and 8 were.  Peer 4 takes RPC 11. -/
def overwritten : List (Event 5 Nat) :=
  List.flatten [
    steps 2 (elected 0 [(1, 0), (2, 1)] ++ [.start 0 7, .persist 0, .sendHeartBeats 0]),
    [.encode 7],
    steps 4 [.appendEntries 7, .persist 4, .heartBeat 7, .sendAppendEntries 7, .start 0 8,
      .persist 0, .sendHeartBeats 0],
    steps 2 (elected 2 [(1, 5), (3, 6)] ++
      [.start 2 6, .persist 3, .becomeCandidate 3, .requestVote 10] ++
      elected 2 [(1, 13), (3, 14)] ++ [.persist 2, .sendHeartBeats 2]),
    [.encode 20],
    steps 0 ([.appendEntries 20] ++ elected 0 [(1, 16), (3, 18)] ++ [.start 0 9, .start 0 10]),
    [.encode 11],
    steps 4 [.appendEntries 11, .persist 4, .heartBeat 11]]

def usurped : List (Event 5 Nat) :=
  List.flatten [
    steps 0 [.persist 0, .sendHeartBeats 0],
    [.encode 28, .encode 30],
    steps 4 ([.appendEntries 28, .persist 1, .heartBeat 28, .appendEntries 30, .persist 3,
      .heartBeat 30, .sendAppendEntries 28, .sendAppendEntries 30, .requestVote 19] ++
      elected 4 [(1, 21), (3, 23)])]

def leaders : List (Fin 5) := [0, 0, 2, 0, 2, 0, 4]

def Usurped (σ : List (Aliased 5 Nat)) : Prop :=
  (∀ s ∈ σ, ∀ p, (s.peer p).state = .leader → leaders.getD (s.peer p).currentTerm 0 = p) ∧
  (∃ s ∈ σ, s.calls[11]? = some ⟨0, 4, 1, ⟨1, 0, 1, 1, [⟨5, 10⟩], 0⟩, .sent, false⟩ ∧
    s.shares 11 = none) ∧
  (∃ s ∈ σ, (s.peer 4).currentTerm = 1 ∧ ⟨5, 10⟩ ∈ (s.peer 4).log) ∧
  ∃ s ∈ σ, Leads s.cluster 0 5 ∧ Leads s.cluster 4 6 ∧ (s.peer 0).commitIndex = 2 ∧
    (s.peer 0).log = [⟨0, 0⟩, ⟨5, 9⟩, ⟨5, 10⟩] ∧ (s.peer 4).log = [⟨0, 0⟩, ⟨1, 7⟩, ⟨5, 10⟩]

instance (σ : List (Aliased 5 Nat)) : Decidable (Usurped σ) :=
  inferInstanceAs (Decidable (_ ∧ _ ∧ _ ∧ _))

theorem exists_usurped : ∃ σ : List (Aliased 5 Nat), Run (fun _ => 1) (Over Orderly) σ ∧
    Usurped σ := by
  have hfire : ∀ (s : Aliased 5 Nat) e s',
      (if s.Over Orderly e then (s.step e).toOption else none) = some s' →
      s.Over Orderly e ∧ s.step e = .ok s' := by
    intro s e s' h
    split at h
    · exact ⟨‹_›, History.toOption_eq_some h⟩
    · cases h
  obtain ⟨s, σ, hrun, husurped⟩ := History.exists_trace _ hfire (init fun _ => 1) Usurped
    (overwritten ++ usurped) (by decide +kernel)
  exact ⟨s :: σ, hrun, husurped⟩

theorem logs_differ_overwritten : ∃ σ : List (Aliased 5 Nat), Run (fun _ => 1) (Over CrashFree) σ ∧
    OneLeader (σ.map (·.cluster)) ∧ ∃ s ∈ σ, (s.peer 0).log[2]? = some ⟨5, 10⟩ ∧
      (s.peer 4).log[2]? = some ⟨5, 10⟩ ∧ (s.peer 0).log[1]? = some ⟨5, 9⟩ ∧
      (s.peer 4).log[1]? = some ⟨1, 7⟩ := by
  obtain ⟨σ, hrun, hled, -, -, s, hs, -, -, -, h0, h4⟩ := exists_usurped
  refine ⟨σ, History.Run.mono hrun ?_, .of_leader (leaders.getD · 0) ?_, s, hs, ?_⟩
  · exact fun s e s' hs => ⟨hs.1.imp fun _ _ h => h.1, hs.2⟩
  · exact List.forall_mem_map.mpr hled
  · simp [h0, h4]

theorem terms_unordered_overwritten : ∃ σ : List (Aliased 5 Nat), Run (fun _ => 1) (Over Orderly) σ ∧
    (∃ s ∈ σ, ∃ e ∈ (s.peer 4).log, (s.peer 4).currentTerm < e.term) ∧
    ∃ s ∈ σ, ∃ c ∈ s.calls, c.stage = .sent ∧ ∃ e ∈ c.args.entries, c.args.term < e.term := by
  obtain ⟨σ, hrun, -, ⟨s, hs, hc, -⟩, ⟨t, ht, hterm, hlog⟩, -⟩ := exists_usurped
  refine ⟨σ, hrun, ⟨t, ht, _, hlog, by simp [hterm]⟩, s, hs, _, List.mem_of_getElem? hc, rfl, ?_⟩
  exact ⟨_, List.mem_cons_self, by simp⟩

theorem committed_lost_overwritten : ∃ σ : List (Aliased 5 Nat), Run (fun _ => 1) (Over Orderly) σ ∧
    ∃ s ∈ σ, Leads s.cluster 0 5 ∧ Leads s.cluster 4 6 ∧ 1 ≤ (s.peer 0).commitIndex ∧
      (s.peer 0).log[1]? = some ⟨5, 9⟩ ∧ (s.peer 4).log[1]? = some ⟨1, 7⟩ := by
  obtain ⟨σ, hrun, -, -, -, s, hs, hp, hq, hcommit, h0, h4⟩ := exists_usurped
  exact ⟨σ, hrun, s, hs, hp, hq, by simp [hcommit], by simp [h0], by simp [h4]⟩

end Overwritten

end Aliased

end MrAndRaft
