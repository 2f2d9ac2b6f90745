import MrAndRaft.Lib.Prefix
import MrAndRaft.Raft.Election
import MrAndRaft.Raft.TermOrder

/-! Log matching.  Every entry of a log was put there by the leader of its term, and
what stands up to it was then a prefix of that leader's log. -/

namespace MrAndRaft

variable {n : Nat} {Cmd : Type} [Inhabited Cmd] {σ : List (Cluster n Cmd)} {s s' : Cluster n Cmd}
  {p q : Fin n} {e : Event n Cmd} {T : Nat}

structure LogOk (σ : List (Cluster n Cmd)) (log : List (LogEntry Cmd)) : Prop where
  sentinel : log[0]? = some ⟨0, default⟩
  origin : ∀ i e, 0 < i → log[i]? = some e →
    ∃ s ∈ σ, ∃ p, Leads s p e.term ∧ log.take (i + 1) <+: (s.peer p).log

theorem Run.leader_logStep (h : Run CrashFree σ) (hone : OneLeader σ) {t : Cluster n Cmd}
    (ht : t ∈ σ) (hs : s ∈ σ) {rf : Raft Cmd} (hlead : Leads t p rf.currentTerm)
    (hl : LogStep s p rf e) : rf.log = (s.peer p).log ∨ ∃ command, e = .start p command ∧
      rf.log = (s.peer p).log ++ [⟨(s.peer p).currentTerm, command⟩] := by
  have hpos : 0 < rf.currentTerm := hlead.2 ▸ h.term_pos t ht p (by simp [hlead.1])
  have foreign : ∀ (k : Nat) (c : AppendCall n Cmd), s.appendCalls[k]? = some c → c.dst = p →
      rf.currentTerm ≠ c.args.term := by
    rintro k c hk rfl hct
    obtain ⟨hne, s₀, hs₀, hlead', -⟩ :=
      h.leads_of_append hs (List.mem_of_getElem? hk) (hct ▸ hpos)
    exact hne (hone t ht s₀ hs₀ c.dst c.src _ hlead (hct ▸ hlead'))
  cases hl with
  | same _ heq => exact .inl heq
  | started command _ _ _ heq => exact .inr ⟨command, rfl, heq⟩
  | cut k c prev hk _ hdst _ hct => exact absurd hct (foreign k c hk hdst)
  | spliced k c prev hk _ hdst _ hct => exact absurd hct (foreign k c hk hdst)

theorem Run.leader_log_grows (h : Run CrashFree σ) (hone : OneLeader σ) {t : Cluster n Cmd}
    (ht : t ∈ σ) (hlead : Leads t p T) :
    σ.Pairwise fun later earlier => (earlier.peer p).currentTerm ≤ (later.peer p).currentTerm ∧
      ((earlier.peer p).currentTerm = T → (later.peer p).currentTerm = T →
        (earlier.peer p).log <+: (later.peer p).log) := by
  refine History.Run.pairwise h.within (fun hab hbc => ⟨hab.1.trans hbc.1, fun ha hc => ?_⟩) ?_
  · have hb := Nat.le_antisymm (hc ▸ hbc.1) (ha ▸ hab.1)
    exact (hab.2 ha hb).trans (hbc.2 hb hc)
  rintro s e s' ⟨hs, hmem, -⟩
  have hpeer := (step_spec hs.2).peerStep hs.1 p
  refine ⟨hpeer.precedes.term, fun _ hT => ?_⟩
  rcases h.leader_logStep hone ht hmem (hT ▸ hlead) hpeer.logStep with heq | ⟨_, -, heq⟩
  · exact heq ▸ List.prefix_rfl
  · exact heq ▸ List.prefix_append _ _

theorem Run.leader_log_prefix (h : Run CrashFree (s :: σ)) (hone : OneLeader (s :: σ))
    {t : Cluster n Cmd} (ht : t ∈ s :: σ) (hp : Leads t p T) (hs : (s.peer p).currentTerm = T) :
    (t.peer p).log <+: (s.peer p).log := by
  have hgrow := (List.pairwise_cons.mp (h.leader_log_grows hone ht hp)).1
  rcases List.mem_cons.mp ht with rfl | ht
  · exact List.prefix_rfl
  · exact (hgrow t ht).2 hp.2 hs

theorem Run.leader_logs (h : Run CrashFree σ) (hone : OneLeader σ) {t : Cluster n Cmd}
    (hs : s ∈ σ) (ht : t ∈ σ) (hp : Leads s p T) (hq : Leads t q T) :
    (s.peer p).log <+: (t.peer q).log ∨ (t.peer q).log <+: (s.peer p).log := by
  obtain rfl := hone s hs t ht p q T hp hq
  rcases History.comparable (fun _ => ⟨le_rfl, fun _ _ => List.prefix_rfl⟩)
    (h.leader_log_grows hone hs hp) hs ht with hst | hts
  · exact .inl (hst.2 hp.2 hq.2)
  · exact .inr (hts.2 hq.2 hp.2)

theorem LogOk.matching (h : Run CrashFree σ) (hone : OneLeader σ) {A B : List (LogEntry Cmd)}
    (hA : LogOk σ A) (hB : LogOk σ B) {i : Nat} {a b : LogEntry Cmd} (ha : A[i]? = some a)
    (hb : B[i]? = some b) (hterm : a.term = b.term) : A.take (i + 1) = B.take (i + 1) := by
  obtain ⟨hiA, -⟩ := List.getElem?_eq_some_iff.mp ha
  obtain ⟨hiB, -⟩ := List.getElem?_eq_some_iff.mp hb
  rcases Nat.eq_zero_or_pos i with rfl | hi
  · rw [List.take_one, List.take_one, List.head?_eq_getElem?, List.head?_eq_getElem?,
      hA.sentinel, hB.sentinel]
  · obtain ⟨s, hs, p, hp, hpre⟩ := hA.origin i a hi ha
    obtain ⟨t, ht, q, hq, hqre⟩ := hB.origin i b hi hb
    have hcomp := h.leader_logs hone hs ht hp (hterm ▸ hq)
    have hlen : (A.take (i + 1)).length = (B.take (i + 1)).length := by
      simp only [List.length_take]; omega
    exact (Prefix.of_comparable hpre hqre hcomp hlen.le).eq_of_length hlen

theorem LogOk.cut {A B : List (LogEntry Cmd)} (h : LogOk σ B) (hAB : A <+: B)
    (hne : A ≠ []) : LogOk σ A := by
  have hlen : 0 < A.length := List.length_pos_iff.mpr hne
  refine ⟨(Prefix.getElem?_eq hAB hlen).symm.trans h.sentinel, fun i e hi he => ?_⟩
  obtain ⟨hlt, -⟩ := List.getElem?_eq_some_iff.mp he
  obtain ⟨s, hs, p, hp, hpre⟩ := h.origin i e hi (Prefix.getElem? hAB he)
  rw [Prefix.take_eq hAB hlt] at hpre
  exact ⟨s, hs, p, hp, hpre⟩

theorem LogOk.last {log : List (LogEntry Cmd)} (h : LogOk σ log) {e : LogEntry Cmd}
    (he : log[log.length - 1]? = some e) (hpos : 0 < e.term) :
    ∃ s ∈ σ, ∃ p, Leads s p e.term ∧ log <+: (s.peer p).log := by
  have hi : 0 < log.length - 1 := by
    refine Nat.pos_of_ne_zero fun hzero => ?_
    rw [hzero, h.sentinel] at he
    obtain rfl := Option.some.inj he
    exact hpos.false
  obtain ⟨s, hs, p, hlead, hpre⟩ := h.origin _ e hi he
  rw [List.take_of_length_le (by omega)] at hpre
  exact ⟨s, hs, p, hlead, hpre⟩

theorem LogOk.concat {log : List (LogEntry Cmd)} {command : Cmd} (h : LogOk σ log) (hs : s ∈ σ)
    (hlead : Leads s p T) (hlog : (s.peer p).log = log ++ [⟨T, command⟩]) :
    LogOk σ (log ++ [⟨T, command⟩]) := by
  obtain ⟨hlen, -⟩ := List.getElem?_eq_some_iff.mp h.sentinel
  refine ⟨(List.getElem?_append_left hlen).trans h.sentinel, fun i e hi he => ?_⟩
  rcases Nat.lt_trichotomy i log.length with hlt | rfl | hgt
  · rw [List.getElem?_append_left hlt] at he
    rw [List.take_append_of_le_length hlt]
    exact h.origin i e hi he
  · obtain rfl : (⟨T, command⟩ : LogEntry Cmd) = e := by simpa using he
    exact ⟨s, hs, p, hlead, hlog ▸ List.take_prefix _ _⟩
  · rw [List.getElem?_eq_none (by simp; omega)] at he
    cases he

/-- What the invariant makes of `LogStep`: a log grows at its end, is cut, or is
replaced by the log of a leader of its term. -/
inductive LogFrom (τ : List (Cluster n Cmd)) (s : Cluster n Cmd) (p : Fin n) (rf : Raft Cmd) :
    Event n Cmd → Prop
  | grown (command : Cmd) : (s.peer p).state = .leader → rf.state = .leader →
      rf.currentTerm = (s.peer p).currentTerm →
      rf.log = (s.peer p).log ++ [⟨(s.peer p).currentTerm, command⟩] →
      LogFrom τ s p rf (.start p command)
  | kept (e : Event n Cmd) : rf.log <+: (s.peer p).log → rf.log ≠ [] → LogFrom τ s p rf e
  | copied (e : Event n Cmd) (t : Cluster n Cmd) (q : Fin n) : t ∈ τ →
      Leads t q rf.currentTerm → rf.log = (t.peer q).log → LogFrom τ s p rf e

/-- The request describes the part of `L` after `prevLogIndex`. -/
structure Carries (L : List (LogEntry Cmd)) (args : AppendEntriesArgs Cmd) : Prop where
  prev : ∃ prev, L[args.prevLogIndex]? = some prev ∧ args.prevLogTerm = prev.term
  entries : args.entries = L.drop (args.prevLogIndex + 1)

omit [Inhabited Cmd] in
theorem Carries.length {L : List (LogEntry Cmd)} {args : AppendEntriesArgs Cmd}
    (h : Carries L args) : args.prevLogIndex + args.entries.length + 1 = L.length := by
  obtain ⟨prev, hprev, -⟩ := h.prev
  obtain ⟨hlt, -⟩ := List.getElem?_eq_some_iff.mp hprev
  rw [h.entries, List.length_drop]
  omega

section Requests

variable {τ : List (Cluster n Cmd)} {c : AppendCall n Cmd}

theorem Run.prevLogTerm_zero (h : Run CrashFree τ) (hok : ∀ t ∈ τ, ∀ q, LogOk σ (t.peer q).log)
    (hs : s ∈ τ) (hc : c ∈ s.appendCalls) (hzero : c.args.prevLogIndex = 0) :
    c.args.prevLogTerm = 0 := by
  obtain ⟨-, t, ht, hsent⟩ := h.sentIn s hs c hc
  cases hsent with
  | first _ hargs => rw [hargs]
  | heartBeat _ _ hb =>
    have hsen := (hok t ht c.src).sentinel
    obtain ⟨hlen, -⟩ := List.getElem?_eq_some_iff.mp hsen
    rcases Nat.lt_or_ge (c.args.prevLogIndex + 1) (t.peer c.src).log.length with hlt | hge
    · obtain ⟨prev, hprev, hterm, -⟩ := hb.suffix hlt
      rw [hzero, hsen] at hprev
      rw [hterm, ← Option.some.inj hprev]
    · obtain ⟨last, hlast, hterm, -⟩ := hb.empty hge
      rw [show (t.peer c.src).log.length - 1 = 0 by omega, hsen] at hlast
      rw [hterm, ← Option.some.inj hlast]

theorem Run.carries_of_entries (h : Run CrashFree τ) (hs : s ∈ τ) (hc : c ∈ s.appendCalls)
    (hne : c.args.entries ≠ []) :
    ∃ t ∈ τ, Leads t c.src c.args.term ∧ Carries (t.peer c.src).log c.args := by
  obtain ⟨-, t, ht, hsent⟩ := h.sentIn s hs c hc
  cases hsent with
  | first _ hargs => simp [hargs] at hne
  | heartBeat hlead hterm hb =>
    rcases Nat.lt_or_ge (c.args.prevLogIndex + 1) (t.peer c.src).log.length with hlt | hge
    · obtain ⟨prev, hprev, hpt, hent⟩ := hb.suffix hlt
      exact ⟨t, ht, hterm ▸ hlead, ⟨prev, hprev, hpt⟩, hent⟩
    · obtain ⟨-, -, -, hnil⟩ := hb.empty hge
      exact absurd hnil hne

theorem LogOk.take_append (h : Run CrashFree σ) (hone : OneLeader σ)
    {log L : List (LogEntry Cmd)} {args : AppendEntriesArgs Cmd} {prev : LogEntry Cmd}
    (hlog : LogOk σ log) (hL : LogOk σ L) (hc : Carries L args)
    (hprev : log[args.prevLogIndex]? = some prev) (hterm : args.prevLogTerm = prev.term) :
    log.take (args.prevLogIndex + 1) ++ args.entries = L := by
  obtain ⟨prev', hprev', hterm'⟩ := hc.prev
  rw [hlog.matching h hone hL hprev hprev' (hterm.symm.trans hterm'), hc.entries,
    List.take_append_drop]

theorem LogStep.logFrom (h : Run CrashFree σ) (hone : OneLeader σ) (hτ : Run CrashFree τ)
    (hok : ∀ t ∈ τ, ∀ q, LogOk σ (t.peer q).log) (hs : s ∈ τ) {rf : Raft Cmd}
    (hl : LogStep s p rf e) : LogFrom τ s p rf e := by
  have hp := hok s hs p
  obtain ⟨hlen, -⟩ := List.getElem?_eq_some_iff.mp hp.sentinel
  have hne : (s.peer p).log ≠ [] := List.length_pos_iff.mp hlen
  cases hl with
  | same _ heq => exact .kept _ (heq ▸ List.prefix_rfl) (heq ▸ hne)
  | started command hlead hlead' hterm heq => exact .grown command hlead hlead' hterm heq
  | cut k c prev hk _ _ _ _ hprev hdiff heq =>
    refine .kept _ (heq ▸ List.take_prefix _ _) ?_
    have hpos : c.args.prevLogIndex ≠ 0 := by
      intro hzero
      rw [hzero, hp.sentinel] at hprev
      obtain rfl := Option.some.inj hprev
      exact hdiff (hτ.prevLogTerm_zero hok hs (List.mem_of_getElem? hk) hzero)
    simpa [heq, List.take_eq_nil_iff, hne] using hpos
  | spliced k c prev hk _ _ _ hct hprev hsame heq =>
    by_cases hnil : c.args.entries = []
    · rw [hnil, List.append_nil] at heq
      exact .kept _ (heq ▸ List.take_prefix _ _) (by simp [heq, hne])
    · obtain ⟨t, ht, hlead, hcar⟩ := hτ.carries_of_entries hs (List.mem_of_getElem? hk) hnil
      rw [hp.take_append h hone (hok t ht c.src) hcar hprev hsame] at heq
      exact .copied _ t c.src ht (hct ▸ hlead) heq

end Requests

theorem Run.logOk (h : Run CrashFree σ) (hone : OneLeader σ) :
    ∀ s ∈ σ, ∀ p, LogOk σ (s.peer p).log := by
  refine History.Run.forall_mem_of_history h (fun p => ⟨rfl, fun i e hi he => ?_⟩) ?_
  · rw [List.getElem?_eq_none hi] at he
    cases he
  intro s e s' τ hτ hrun ih hstep p
  have hs' : s' ∈ σ := hτ.subset List.mem_cons_self
  cases LogStep.logFrom h hone hrun ih List.mem_cons_self
    ((step_spec hstep.2).peerStep hstep.1 p).logStep with
  | grown command hlead hlead' hterm heq =>
    exact heq ▸ (ih s List.mem_cons_self p).concat hs' ⟨hlead', hterm⟩ heq
  | kept _ hpre hne => exact (ih s List.mem_cons_self p).cut hpre hne
  | copied _ t q ht _ heq => exact heq ▸ ih t ht q

omit [Inhabited Cmd] in
theorem term_le_last {L : List (LogEntry Cmd)} (h : L.Pairwise fun a b => a.term ≤ b.term)
    {i : Nat} {a b : LogEntry Cmd} (ha : L[i]? = some a) (hb : L[L.length - 1]? = some b) :
    a.term ≤ b.term :=
  Prefix.rel_last (R := fun a b : LogEntry Cmd => a.term ≤ b.term) (fun _ => le_rfl) h ha hb

theorem Run.logs_match (h : Run CrashFree σ) (hone : OneLeader σ) {t : Cluster n Cmd} (hs : s ∈ σ)
    (ht : t ∈ σ) {i : Nat} {a b : LogEntry Cmd} (ha : (s.peer p).log[i]? = some a)
    (hb : (t.peer q).log[i]? = some b) (hterm : a.term = b.term) :
    ∀ j ≤ i, (s.peer p).log[j]? = (t.peer q).log[j]? := by
  intro j hj
  have hmatch := (h.logOk hone s hs p).matching h hone (h.logOk hone t ht q) ha hb hterm
  rw [← List.getElem?_take_of_lt (Nat.lt_succ_of_le hj), hmatch,
    List.getElem?_take_of_lt (Nat.lt_succ_of_le hj)]

def replication : List (Event 3 Nat) :=
  election ++ [.start 0 7, .persist 0, .sendHeartBeats 0, .appendEntries 2]

end MrAndRaft
