import MrAndRaft.Raft.Replication

/-! Leader completeness.  A prefix of the log that a majority has secured in the term
of its last entry is in the log of every later leader. -/

namespace MrAndRaft

open Quorum

variable {n : Nat} {Cmd : Type} {s s' : Cluster n Cmd} {p q : Fin n} {e : Event n Cmd} {t : Nat}
  {P : List (LogEntry Cmd)}

def Cluster.appendRequest (s : Cluster n Cmd) : Event n Cmd → Option (AppendCall n Cmd)
  | .appendEntries k => s.appendCalls[k]?
  | _ => none

/-- A follower handles a request of its term only if the request reaches as far as
every one it has acknowledged in that term. -/
def NoShrink (s : Cluster n Cmd) (e : Event n Cmd) : Prop :=
  ∀ c ∈ s.appendRequest e, c.args.term = (s.peer c.dst).currentTerm →
    ∀ c' ∈ s.appendCalls, c'.dst = c.dst → c'.args.term = c.args.term →
      ∀ r ∈ c'.stage.reply, r.success = true →
        c'.args.prevLogIndex + c'.args.entries.length ≤
          c.args.prevLogIndex + c.args.entries.length

instance (s : Cluster n Cmd) (e : Event n Cmd) : Decidable (NoShrink s e) :=
  inferInstanceAs (Decidable (∀ c ∈ s.appendRequest e, _))

def AckedTo (s : Cluster n Cmd) (q : Fin n) (t m : Nat) : Prop :=
  ∃ c ∈ s.appendCalls, c.dst = q ∧ c.args.term = t ∧
    m ≤ c.args.prevLogIndex + c.args.entries.length ∧
    ∃ r, c.stage.reply = some r ∧ r.success = true

theorem AckedTo.advance {m : Nat} (h : AckedTo s q t m)
    (ha : Advance s.appendCalls s'.appendCalls) : AckedTo s' q t m := by
  obtain ⟨c, hc, hdst, hterm, hm, r, hr, hsucc⟩ := h
  obtain ⟨k, hk⟩ := List.mem_iff_getElem?.mp hc
  obtain ⟨c', hc', hl⟩ := ha k c hk
  refine ⟨c', List.mem_of_getElem? hc', ?_⟩
  rw [hl.dst, hl.args]
  exact ⟨hdst, hterm, hm, r, hl.reply r hr, hsucc⟩

/-- `q` holds `P` since term `t`; while still in that term it does so as the leader
or by an acknowledgement. -/
structure Holds (s : Cluster n Cmd) (q : Fin n) (t : Nat) (P : List (LogEntry Cmd)) : Prop where
  term : t ≤ (s.peer q).currentTerm
  log : P <+: (s.peer q).log
  secured : (s.peer q).currentTerm = t →
    (s.peer q).state = .leader ∨ AckedTo s q t (P.length - 1)

section Runs

variable [Inhabited Cmd] {σ τ : List (Cluster n Cmd)}

abbrev Steady (s : Cluster n Cmd) (e : Event n Cmd) : Prop :=
  CrashFree s e ∧ FreshVotes s e ∧ FreshAcks s e ∧ NoShrink s e

theorem Run.freshReplies (h : Run Steady σ) : Run FreshReplies σ :=
  h.mono fun _ _ hok => ⟨hok.1, hok.2.1, hok.2.2.1⟩

theorem Run.carries (h : Run FreshReplies σ) (hs : s ∈ σ) {c : AppendCall n Cmd}
    (hc : c ∈ s.appendCalls) (hpos : 0 < c.args.term) :
    ∃ s₀ ∈ σ, Leads s₀ c.src c.args.term ∧ Carries (s₀.peer c.src).log c.args ∧
      c.args.leaderCommit = (s₀.peer c.src).commitIndex := by
  have hone := h.freshVotes.oneLeader
  obtain ⟨-, s₀, hs₀, hlead, hb⟩ := h.crashFree.leads_of_append hs hc hpos
  have hok := h.freshAcks.indexOk hone s₀ hs₀ c.src hlead.1
  exact ⟨s₀, hs₀, hlead, hok.carries hb, hb.leaderCommit⟩

def LeaderHas (σ : List (Cluster n Cmd)) (t : Nat) (P : List (LogEntry Cmd)) : Prop :=
  ∃ s ∈ σ, ∃ p, Leads s p t ∧ P <+: (s.peer p).log

theorem LeaderHas.of_le (h : Run CrashFree σ) (hone : OneLeader σ) (hP : LeaderHas σ t P)
    (hs : s ∈ σ) (hlead : Leads s p t) (hlen : P.length ≤ (s.peer p).log.length) :
    P <+: (s.peer p).log := by
  obtain ⟨s₀, hs₀, q, hq, hpre⟩ := hP
  exact Prefix.of_comparable hpre List.prefix_rfl (h.leader_logs hone hs₀ hs hq hlead) hlen

theorem Run.request_has (h : Run FreshReplies (s :: τ)) (hσ : Run CrashFree σ)
    (hone : OneLeader σ) (hτ : s :: τ <:+ σ) (hpos : 0 < t) (hP : LeaderHas σ t P)
    (hq : Holds s q t P) {k : Nat} {c : AppendCall n Cmd} (hns : NoShrink s (.appendEntries k))
    (hk : s.appendCalls[k]? = some c) (hdst : c.dst = q)
    (hle : (s.peer q).currentTerm ≤ c.args.term)
    (hleaders : ∀ s₀ ∈ s :: τ, ∀ p, t < c.args.term → Leads s₀ p c.args.term →
      P <+: (s₀.peer p).log) :
    ∃ s₀ ∈ s :: τ, Carries (s₀.peer c.src).log c.args ∧ P <+: (s₀.peer c.src).log := by
  have hc := List.mem_of_getElem? hk
  have hterm := hq.term
  obtain ⟨s₀, hs₀, hlead, hcar, -⟩ := h.carries List.mem_cons_self hc (by omega)
  refine ⟨s₀, hs₀, hcar, ?_⟩
  rcases Nat.lt_or_eq_of_le (hterm.trans hle) with hlt | heq
  · exact hleaders s₀ hs₀ c.src hlt hlead
  · have hnow : (s.peer q).currentTerm = t := by omega
    rcases hq.secured hnow with hleader | ⟨c', hc', hdst', hterm', hm, r, hr, hsucc⟩
    · have hne := (h.crashFree.sentIn s List.mem_cons_self c hc).1
      have hsame := hone s (hτ.subset List.mem_cons_self) s₀ (hτ.subset hs₀) q c.src t
        ⟨hleader, hnow⟩ (heq ▸ hlead)
      exact absurd (hdst.trans hsame) hne
    · have hreach := hns c hk (by rw [hdst, hnow, heq]) c' hc' (hdst'.trans hdst.symm)
        (hterm'.trans heq) r hr hsucc
      have hlen := hcar.length
      exact hP.of_le hσ hone (hτ.subset hs₀) (heq ▸ hlead) (by omega)

theorem Run.holds_step (h : Run Steady σ) (hτ : s' :: s :: τ <:+ σ) (hpos : 0 < t)
    (hP : LeaderHas σ t P) (hq : Holds s q t P)
    (hleaders : ∀ s₀ ∈ s :: τ, ∀ p, t < (s'.peer q).currentTerm →
      Leads s₀ p (s'.peer q).currentTerm → P <+: (s₀.peer p).log) : Holds s' q t P := by
  have hcf := h.freshReplies.crashFree
  have hone := h.freshReplies.freshVotes.oneLeader
  have hsub : s :: τ <:+ σ := (List.suffix_cons _ _).trans hτ
  have hrun : Run FreshReplies (s :: τ) := History.Run.of_suffix h.freshReplies hsub (by simp)
  have hok := fun s₀ hs₀ p => hcf.logOk hone s₀ (hsub.subset hs₀) p
  cases History.Run.of_suffix h hτ (by simp) with
  | @step _ _ _ e _ hstep =>
    obtain ⟨⟨hce, -, -, hns⟩, hstep⟩ := hstep
    have hs := step_spec hstep
    have hpeer := hs.peerStep hce q
    refine ⟨hq.term.trans hpeer.precedes.term, ?_, fun hnow => ?_⟩
    · cases hpeer.logStep with
      | same _ heq => exact heq ▸ hq.log
      | started _ _ _ _ heq => exact heq ▸ hq.log.trans (List.prefix_append _ _)
      | cut k c prev hk _ hdst hle hct hprev hdiff heq =>
        obtain ⟨s₀, hs₀, hcar, hpre⟩ := hrun.request_has hcf hone hsub hpos hP hq hns hk hdst hle
          (hct ▸ hleaders)
        obtain ⟨prev', hprev', hterm'⟩ := hcar.prev
        have hlen : P.length ≤ c.args.prevLogIndex := by
          refine Prefix.length_le_of_ne hq.log hpre fun hsame => hdiff ?_
          rw [hprev, hprev'] at hsame
          rw [hterm', Option.some.inj hsame]
        rw [heq]
        exact List.prefix_take_iff.mpr ⟨hq.log, hlen⟩
      | spliced k c prev hk _ hdst hle hct hprev hsame heq =>
        obtain ⟨s₀, hs₀, hcar, hpre⟩ := hrun.request_has hcf hone hsub hpos hP hq hns hk hdst hle
          (hct ▸ hleaders)
        rw [heq, (hok s List.mem_cons_self q).take_append hcf hone (hok s₀ hs₀ c.src) hcar hprev
          hsame]
        exact hpre
    · have hbefore : (s.peer q).currentTerm = t :=
        Nat.le_antisymm (hnow ▸ hpeer.precedes.term) hq.term
      rcases hq.secured hbefore with hlead | hack
      · rcases hpeer.precedes.role (hbefore.trans hnow.symm) with hst | ⟨hcand, -⟩
        · exact .inl (hst.trans hlead)
        · simp [hlead] at hcand
      · exact .inr (hack.advance (hs.appendCallStep hce).advance)

theorem Run.holds (h : Run Steady σ) (hτ : s :: τ <:+ σ) (hpos : 0 < t) (hP : LeaderHas σ t P)
    {s₀ : Cluster n Cmd} (hs₀ : s₀ ∈ s :: τ) (hq : Holds s₀ q t P)
    (hleaders : ∀ s₁ ∈ s :: τ, ∀ p v, t < v → v ≤ (s.peer q).currentTerm → Leads s₁ p v →
      P <+: (s₁.peer p).log) : Holds s q t P := by
  induction τ generalizing s with
  | nil =>
    obtain rfl := List.mem_singleton.mp hs₀
    exact hq
  | cons s₁ τ ih =>
    rcases List.mem_cons.mp hs₀ with rfl | hs₀
    · exact hq
    · have hsub : s₁ :: τ <:+ σ := (List.suffix_cons _ _).trans hτ
      have hprec := History.Run.of_suffix h.freshReplies.crashFree hτ (by simp)
      have hmono := ((List.pairwise_cons.mp (Run.precedes hprec)).1 s₁ List.mem_cons_self q).term
      refine h.holds_step hτ hpos hP (ih hsub hs₀ fun s₂ hs₂ p v hv hle hlead => ?_) ?_
      · exact hleaders s₂ (List.mem_cons_of_mem _ hs₂) p v hv (hle.trans hmono) hlead
      · exact fun s₂ hs₂ p hlt hlead =>
          hleaders s₂ (List.mem_cons_of_mem _ hs₂) p _ hlt le_rfl hlead

/-- A majority has secured `P` in the term of its last entry. -/
structure Chosen (σ : List (Cluster n Cmd)) (t : Nat) (P : List (LogEntry Cmd)) : Prop where
  pos : 0 < t
  last : ∃ e, P[P.length - 1]? = some e ∧ e.term = t
  leader : LeaderHas σ t P
  quorum : ∃ Q : Finset (Fin n), Majority Q ∧
    ∀ q ∈ Q, ∃ s ∈ σ, (s.peer q).currentTerm = t ∧ Holds s q t P

theorem LogOk.of_upToDate (h : Run CrashFree σ) (hone : OneLeader σ) {A B : List (LogEntry Cmd)}
    {a b x : LogEntry Cmd} (hA : LogOk σ A) (hB : LogOk σ B)
    (hsorted : A.Pairwise fun a b => a.term ≤ b.term) (hP : P <+: A)
    (hx : P[P.length - 1]? = some x) (hpos : 0 < x.term) (ha : A[A.length - 1]? = some a)
    (hb : B[B.length - 1]? = some b)
    (hup : b.term = a.term ∧ A.length ≤ B.length ∨ a.term < b.term)
    (hleader : ∀ s ∈ σ, ∀ p, x.term < b.term → Leads s p b.term → B <+: (s.peer p).log →
      P <+: (s.peer p).log) : P <+: B := by
  have hxa : x.term ≤ a.term := term_le_last hsorted (Prefix.getElem? hP hx) ha
  rcases hup with ⟨hterm, hlen⟩ | hlt
  · obtain ⟨s, hs, p, hp, hApre⟩ := hA.last ha (by omega)
    obtain ⟨s', hs', p', hp', hBpre⟩ := hB.last hb (by omega)
    exact hP.trans (Prefix.of_comparable hApre hBpre
      (h.leader_logs hone hs hs' hp (hterm ▸ hp')) hlen)
  · obtain ⟨s, hs, p, hp, hBpre⟩ := hB.last hb (by omega)
    have hPpre := hleader s hs p (by omega) hp hBpre
    refine Prefix.of_le hPpre hBpre ?_
    by_contra hlen
    have hBP : B <+: P := Prefix.of_le hBpre hPpre (by omega)
    have hbx : b.term ≤ x.term := term_le_last (hsorted.sublist hP.sublist)
      (Prefix.getElem? hBP hb) hx
    omega

theorem Elected.candidate_has (h : Run CrashFree (s :: τ)) (hone : OneLeader (s :: τ)) {u : Nat}
    (hel : Elected s τ p u) {s₂ : Cluster n Cmd} (hs₂ : s₂ ∈ s :: τ) {args : RequestVoteArgs}
    (hballot : (s.peer p).ballot p = some args) (hvote : VotedIn s₂ q args)
    (hlast : ∃ e, P[P.length - 1]? = some e ∧ e.term = t) (hpos : 0 < t)
    (hP : P <+: (s₂.peer q).log)
    (hleaders : ∀ s₀ ∈ s :: τ, ∀ p' v, t < v → v < u → Leads s₀ p' v → P <+: (s₀.peer p').log) :
    P <+: (s.peer p).log := by
  obtain ⟨x, hx, rfl⟩ := hlast
  obtain ⟨b, hb, rfl⟩ := Option.map_eq_some_iff.mp hballot
  obtain ⟨a, ha, hup⟩ := hvote.upToDate
  have hsorted := (h.termsOk s₂ hs₂ q).sorted
  have hbu := (h.termsOk s List.mem_cons_self p).bound b (List.mem_of_getElem? hb)
  have hlen := List.length_pos_iff.mpr (h.log_ne_nil hone List.mem_cons_self p)
  refine (h.logOk hone s₂ hs₂ q).of_upToDate h hone (h.logOk hone s List.mem_cons_self p) hsorted
    hP hx hpos ha hb ?_ fun s₀ hs₀ p' hlt hlead _ => ?_
  · refine (Raft.upToDate_cases hup).imp (fun heq => ⟨heq.1, ?_⟩) id
    have hle : (s₂.peer q).log.length - 1 ≤ (s.peer p).log.length - 1 := heq.2
    omega
  · refine hleaders s₀ hs₀ p' _ hlt (Nat.lt_of_le_of_ne (hel.term ▸ hbu) fun heq => ?_) hlead
    exact hel.noLeader s₀ hs₀ p' (heq ▸ hlead)

/-- Leader completeness, by induction on the later leader's term. -/
theorem Chosen.leader_has (h : Run Steady σ) (hP : Chosen σ t P) :
    ∀ u, t < u → ∀ s ∈ σ, ∀ p, Leads s p u → P <+: (s.peer p).log := by
  have hfresh := h.freshReplies
  have hcf := hfresh.crashFree
  have hone := hfresh.freshVotes.oneLeader
  intro u
  induction u using Nat.strong_induction_on with
  | _ u ih =>
    intro hu s hs p hlead
    obtain ⟨s₁, τ, hτ, hel⟩ := hfresh.freshVotes.elected s hs p u hlead
    obtain ⟨Q, hQ, args, hballot, hvotes⟩ := hel.quorum
    obtain ⟨Q', hQ', hheld⟩ := hP.quorum
    obtain ⟨q, hqQ, hqQ'⟩ := hQ.meet hQ'
    obtain ⟨s₂, hs₂, hvote⟩ := hvotes q hqQ
    obtain ⟨s₀, hs₀, hterm₀, hhold⟩ := hheld q hqQ'
    have hvoteTerm : (s₂.peer q).currentTerm = u := by
      obtain ⟨last, -, rfl⟩ := Option.map_eq_some_iff.mp hballot
      exact hvote.term.trans hel.term
    -- the voter secured `P` before it voted and still holds it
    obtain ⟨τ₂, hτ₂⟩ := History.exists_suffix_of_mem hs₂
    have hmem₀ : s₀ ∈ s₂ :: τ₂ := by
      rcases History.mem_or_later hcf.precedes (hτ₂.trans hτ) hs₀ with hmem | hlater
      · exact hmem
      · have := (hlater q).term
        omega
    have hheld₂ : Holds s₂ q t P := by
      refine h.holds (hτ₂.trans hτ) hP.pos hP.leader hmem₀ hhold fun s₃ hs₃ p' v hv hle hl => ?_
      rcases Nat.lt_or_eq_of_le (hvoteTerm ▸ hle) with hlt | rfl
      · exact ih v hlt hv s₃ ((hτ₂.trans hτ).subset hs₃) p' hl
      · exact absurd hl (hel.noLeader s₃ (hτ₂.subset hs₃) p')
    have hcand : P <+: (s₁.peer p).log :=
      hel.candidate_has (History.Run.of_suffix hcf hτ (by simp))
        (hone.subset fun _ ht => hτ.subset ht) hs₂ hballot hvote hP.last hP.pos hheld₂.log
        fun s₃ hs₃ p' v hv hlt hl => ih v hlt hv s₃ (hτ.subset hs₃) p' hl
    rcases History.mem_or_later (hcf.leader_log_grows hone hs hlead) hτ hs with hmem | hlater
    · exact absurd hlead (hel.noLeader s hmem p)
    · exact hcand.trans (hlater.2 hel.term hlead.2)

end Runs

end MrAndRaft
