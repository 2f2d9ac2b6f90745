import MrAndRaft.Raft.Aliasing
import MrAndRaft.Raft.Completeness

/-! Durability of promises.  `persist` runs in the ticker only, so a reply can leave
before what it promises is saved. -/

namespace MrAndRaft

variable {n : Nat} {Cmd : Type} {s s' : Cluster n Cmd} {p q : Fin n} {e : Event n Cmd} {T : Nat}

namespace Cluster

def memory (s : Cluster n Cmd) (p : Fin n) : Persistent Cmd := (s.peer p).persist

def disk [Inhabited Cmd] (s : Cluster n Cmd) (p : Fin n) : Persistent Cmd :=
  (Raft.make (s.saved p)).persist

def voteReturn (s : Cluster n Cmd) : Event n Cmd → Option (VoteCall n)
  | .receivedVote k => s.voteCalls[k]?
  | _ => none

def appendReturn (s : Cluster n Cmd) : Event n Cmd → Option (AppendCall n Cmd)
  | .heartBeat k => s.appendCalls[k]?
  | _ => none

end Cluster

/-- A handler returns a promise only while what is saved is what is in memory. -/
def SavedReplies (s : Cluster n Cmd) (e : Event n Cmd) : Prop :=
  (∀ c ∈ s.voteReturn e, ∀ r ∈ c.stage.reply, r.voteGranted = true →
    s.saved c.dst = some (s.memory c.dst)) ∧
  ∀ c ∈ s.appendReturn e, ∀ r ∈ c.stage.reply, r.success = true →
    s.saved c.dst = some (s.memory c.dst)

namespace AppendEntriesArgs

def terms (args : AppendEntriesArgs Cmd) : List Nat :=
  args.prevLogTerm :: args.entries.map (·.term)

/-- What `acked` reaches lies before `PrevLogIndex`, or `args` has it again from there on. -/
def Repeats (args acked : AppendEntriesArgs Cmd) : Prop :=
  acked.prevLogIndex + acked.entries.length < args.prevLogIndex ∨
    acked.prevLogIndex ≤ args.prevLogIndex ∧
      acked.terms[args.prevLogIndex - acked.prevLogIndex]? = some args.prevLogTerm ∧
      acked.entries.drop (args.prevLogIndex - acked.prevLogIndex) <+: args.entries

instance [DecidableEq Cmd] (args acked : AppendEntriesArgs Cmd) : Decidable (args.Repeats acked) :=
  inferInstanceAs (Decidable (_ ∨ _))

end AppendEntriesArgs

/-- A peer handles a request of its term only if the request repeats every one that the peer has
acknowledged in that term. -/
def Repeating (s : Cluster n Cmd) (e : Event n Cmd) : Prop :=
  ∀ c ∈ s.appendRequest e, c.args.term = (s.peer c.dst).currentTerm →
    ∀ c' ∈ s.appendCalls, c'.dst = c.dst → c'.args.term = c.args.term →
      ∀ r ∈ c'.stage.reply, r.success = true → c.args.Repeats c'.args

namespace Carries

variable {P log : List (LogEntry Cmd)} {acked args : AppendEntriesArgs Cmd} {x : LogEntry Cmd}

theorem terms (h : Carries P acked) : acked.terms = (P.drop acked.prevLogIndex).map (·.term) := by
  obtain ⟨x, hx, hterm⟩ := h.prev
  obtain ⟨hlt, rfl⟩ := List.getElem?_eq_some_iff.mp hx
  rw [List.drop_eq_getElem_cons hlt, List.map_cons, ← hterm, ← h.entries]
  rfl

theorem getElem?_of_terms (h : Carries P acked) {i t : Nat} (hle : acked.prevLogIndex ≤ i)
    (ht : acked.terms[i - acked.prevLogIndex]? = some t) : ∃ y, P[i]? = some y ∧ y.term = t := by
  rw [h.terms, List.getElem?_map, List.getElem?_drop, Nat.add_sub_cancel' hle] at ht
  exact Option.map_eq_some_iff.mp ht

theorem prefix_take (h : Carries P acked) (hr : args.Repeats acked) (hP : P <+: log)
    (hx : log[args.prevLogIndex]? = some x) (hne : args.prevLogTerm ≠ x.term) :
    P <+: log.take args.prevLogIndex := by
  have hlen := h.length
  rcases hr with hlt | ⟨hle, hterm, -⟩
  · exact List.prefix_take_iff.mpr ⟨hP, by omega⟩
  · obtain ⟨y, hy, hyt⟩ := h.getElem?_of_terms hle hterm
    obtain rfl : x = y := Option.some.inj (hx.symm.trans (Prefix.getElem? hP hy))
    exact absurd hyt.symm hne

theorem prefix_splice (h : Carries P acked) (hr : args.Repeats acked) (hP : P <+: log) :
    P <+: log.take (args.prevLogIndex + 1) ++ args.entries := by
  have hlen := h.length
  rcases hr with hlt | ⟨hle, hterm, hent⟩
  · exact (List.prefix_take_iff.mpr ⟨hP, by omega⟩).trans (List.prefix_append _ _)
  · obtain ⟨y, hy, -⟩ := h.getElem?_of_terms hle hterm
    obtain ⟨hlt, -⟩ := List.getElem?_eq_some_iff.mp hy
    rw [h.entries, List.drop_drop, show acked.prevLogIndex + 1 +
      (args.prevLogIndex - acked.prevLogIndex) = args.prevLogIndex + 1 by omega] at hent
    rw [Prefix.take_eq hP hlt]
    nth_rewrite 1 [← List.take_append_drop (args.prevLogIndex + 1) P]
    exact (List.prefix_append_right_inj _).mpr hent

end Carries

section Stages

variable {Reply : Type} {ran : Reply → Prop} {left : Prop} {mem disk mem' disk' : Persistent Cmd}
  {st st' : Stage Reply}

/-- What one event does to the state of a server and to the stage of an RPC to it.  `ran` is what
the handler did in the event, and `left` that the handler returned in it. -/
inductive StageStep (e : Event n Cmd) (ran : Reply → Prop) (left : Prop)
    (mem disk : Persistent Cmd) (st : Stage Reply) :
    Persistent Cmd → Persistent Cmd → Stage Reply → Prop
  | stays (mem' : Persistent Cmd) : e.crashFree ∨ mem' = mem →
      StageStep e ran left mem disk st mem' disk st
  | persisted : StageStep e ran left mem disk st mem mem st
  | crashed : StageStep e ran left mem disk st disk disk st.serverCrash
  | handled (r : Reply) (mem' : Persistent Cmd) : ran r →
      StageStep e ran left mem disk st mem' disk (.handled r)
  | returned (r : Reply) : st = .handled r → left →
      StageStep e ran left mem disk st mem disk (.returned r)
  | received (r : Reply) (mem' : Persistent Cmd) : st = .returned r → e.crashFree →
      StageStep e ran left mem disk st mem' disk (.received r)

def Stage.Left (st : Stage Reply) (r : Reply) : Prop := st = .returned r ∨ st = .received r

theorem Stage.Left.reply {r : Reply} (h : st.Left r) : st.reply = some r := by
  rcases h with rfl | rfl <;> rfl

/-- A promise holds in memory and, once the handler has returned, on disk. -/
def Held (H : Persistent Cmd → Prop) (mem disk : Persistent Cmd) (st : Stage Reply) : Prop :=
  H mem ∧ ∀ r, st.Left r → H disk

theorem StageStep.held (h : StageStep e ran left mem disk st mem' disk' st') {r : Reply}
    (hr : st'.reply = some r) :
    (ran r ∧ st' = .handled r) ∨ (st.reply = some r ∧ ∀ H : Persistent Cmd → Prop,
      (e.crashFree → H mem → H mem') → (left → H mem → H disk) → Held H mem disk st →
      Held H mem' disk' st') := by
  cases h with
  | stays _ hmem =>
    refine .inr ⟨hr, fun H hstep _ hheld => ⟨?_, hheld.2⟩⟩
    rcases hmem with hce | rfl
    · exact hstep hce hheld.1
    · exact hheld.1
  | persisted => exact .inr ⟨hr, fun H _ _ hheld => ⟨hheld.1, fun _ _ => hheld.1⟩⟩
  | crashed =>
    cases st with
    | sent | handled | lost => cases hr
    | returned r₀ => exact .inr ⟨hr, fun H _ _ hheld => ⟨hheld.2 r₀ (.inl rfl), hheld.2⟩⟩
    | received r₀ => exact .inr ⟨hr, fun H _ _ hheld => ⟨hheld.2 r₀ (.inr rfl), hheld.2⟩⟩
  | handled r' _ hran =>
    cases hr
    exact .inl ⟨hran, rfl⟩
  | returned r' hst hleft =>
    cases hr
    subst hst
    exact .inr ⟨rfl, fun H _ hsaved hheld => ⟨hheld.1, fun _ _ => hsaved hleft hheld.1⟩⟩
  | received r' _ hst hce =>
    cases hr
    subst hst
    exact .inr ⟨rfl, fun H hstep _ hheld =>
      ⟨hstep hce hheld.1, fun _ _ => hheld.2 r (.inl rfl)⟩⟩

theorem StageStep.ne_sent (h : StageStep e ran left mem disk st mem' disk' st')
    (hne : st' ≠ .sent) : st ≠ .sent ∨ ∃ r, ran r := by
  cases h with
  | stays | persisted => exact .inl hne
  | crashed =>
    refine .inl ?_
    rintro rfl
    exact hne rfl
  | handled r _ hran => exact .inr ⟨r, hran⟩
  | returned r hst | received r _ hst => exact .inl (by simp [hst])

end Stages

section Steps

variable [Inhabited Cmd]

theorem Cluster.disk_update_self (saved : Fin n → Option (Persistent Cmd)) (d : Persistent Cmd) :
    (Raft.make (Function.update saved p (some d) p)).persist = d := by
  simp [Raft.make, Raft.readPersist, Raft.persist]

theorem Cluster.disk_eq_memory (h : s.saved p = some (s.memory p)) : s.disk p = s.memory p := by
  simp [disk, h, Raft.make, Raft.readPersist, Raft.persist]

section Calls

variable {Args Reply : Type} {ran : Call n Args Reply → Reply → Prop} {left : Prop}
  {calls : List (Call n Args Reply)} {k : Nat} {c c' : Call n Args Reply}

theorem stageStep_persist {ran : Reply → Prop} :
    StageStep (.persist p : Event n Cmd) ran left (s.memory c.dst) (s.disk c.dst) c.stage
      (s.memory c.dst)
      (Raft.make (Function.update s.saved p (some (s.peer p).persist) c.dst)).persist c.stage := by
  by_cases hdst : c.dst = p
  · subst hdst
    rw [Cluster.disk_update_self]
    exact .persisted
  · rw [Function.update_of_ne hdst]
    exact .stays _ (.inl rfl)

theorem stageStep_crash (hk : (calls.map (Call.crash p))[k]? = some c') :
    ∃ c, calls[k]? = some c ∧ c'.dst = c.dst ∧ c'.args = c.args ∧
      StageStep (.crash p : Event n Cmd) (ran c) left (s.memory c.dst) (s.disk c.dst) c.stage
        (Function.update s.peer p (Raft.make (s.saved p)) c.dst).persist (s.disk c.dst)
        c'.stage := by
  simp only [List.getElem?_map, Option.map_eq_some_iff] at hk
  obtain ⟨c, hc, rfl⟩ := hk
  refine ⟨c, hc, rfl, rfl, ?_⟩
  by_cases hdst : c.dst = p
  · subst hdst
    rw [Function.update_self]
    simp only [Call.crash, if_pos]
    exact .crashed
  · rw [Function.update_of_ne hdst]
    simp only [Call.crash, if_neg hdst]
    exact .stays _ (.inr rfl)

end Calls

theorem Step.voteStage (h : Step s e s') {k : Nat} {c' : VoteCall n}
    (hk : s'.voteCalls[k]? = some c') : c'.stage = .sent ∨ ∃ c, s.voteCalls[k]? = some c ∧
      c'.dst = c.dst ∧ c'.args = c.args ∧
      StageStep e (fun r => (s.peer c.dst).Voted c.args (s'.peer c.dst) r) (e = .receivedVote k)
        (s.memory c.dst) (s.disk c.dst) c.stage (s'.memory c.dst) (s'.disk c.dst) c'.stage := by
  cases h with
  | persist p => exact .inr ⟨c', hk, rfl, rfl, stageStep_persist⟩
  | becomeCandidate =>
    rcases Position.of_append hk with hk | ⟨-, hnew⟩
    · exact .inr ⟨c', hk, rfl, rfl, .stays _ (.inl rfl)⟩
    · obtain ⟨q, -, rfl⟩ := List.mem_map.mp hnew
      exact .inl rfl
  | requestVote i c rf reply hi hst hrf =>
    rcases Position.of_set hk with ⟨rfl, rfl⟩ | ⟨-, hk⟩
    · exact .inr ⟨c, hi, rfl, rfl, .handled reply _ (by simpa using hrf)⟩
    · exact .inr ⟨c', hk, rfl, rfl, .stays _ (.inl rfl)⟩
  | receivedVote i c reply hi hst =>
    rcases Position.of_set hk with ⟨rfl, rfl⟩ | ⟨-, hk⟩
    · exact .inr ⟨c, hi, rfl, rfl, .returned reply hst rfl⟩
    · exact .inr ⟨c', hk, rfl, rfl, .stays _ (.inl rfl)⟩
  | sendRequestVote i c reply rf out hi hst =>
    rcases Position.of_set hk with ⟨rfl, rfl⟩ | ⟨-, hk⟩
    · exact .inr ⟨c, hi, rfl, rfl, .received reply _ hst rfl⟩
    · exact .inr ⟨c', hk, rfl, rfl, .stays _ (.inl rfl)⟩
  | sendHeartBeats | start | appendEntries | heartBeat | sendAppendEntries =>
    exact .inr ⟨c', hk, rfl, rfl, .stays _ (.inl rfl)⟩
  | crash p => exact .inr (stageStep_crash hk)

theorem Step.appendStage (h : Step s e s') {k : Nat} {c' : AppendCall n Cmd}
    (hk : s'.appendCalls[k]? = some c') : c'.stage = .sent ∨
      ∃ c, s.appendCalls[k]? = some c ∧ c'.dst = c.dst ∧ c'.args = c.args ∧
        StageStep e
          (fun r => e = .appendEntries k ∧ (s.peer c.dst).Appended c.args (s'.peer c.dst) r)
          (e = .heartBeat k)
          (s.memory c.dst) (s.disk c.dst) c.stage (s'.memory c.dst) (s'.disk c.dst) c'.stage := by
  cases h with
  | persist p => exact .inr ⟨c', hk, rfl, rfl, stageStep_persist⟩
  | sendHeartBeats | sendRequestVote =>
    rcases Position.of_append hk with hk | ⟨-, hnew⟩
    · exact .inr ⟨c', hk, rfl, rfl, .stays _ (.inl rfl)⟩
    · obtain ⟨r, -, rfl⟩ := List.mem_map.mp hnew
      exact .inl rfl
  | appendEntries i c rf reply hi hst hrf =>
    rcases Position.of_set hk with ⟨rfl, rfl⟩ | ⟨-, hk⟩
    · exact .inr ⟨c, hi, rfl, rfl, .handled reply _ ⟨rfl, by simpa using hrf⟩⟩
    · exact .inr ⟨c', hk, rfl, rfl, .stays _ (.inl rfl)⟩
  | heartBeat i c reply hi hst =>
    rcases Position.of_set hk with ⟨rfl, rfl⟩ | ⟨-, hk⟩
    · exact .inr ⟨c, hi, rfl, rfl, .returned reply hst rfl⟩
    · exact .inr ⟨c', hk, rfl, rfl, .stays _ (.inl rfl)⟩
  | sendAppendEntries i c reply rf hi hst =>
    rcases Position.of_set hk with ⟨rfl, rfl⟩ | ⟨-, hk⟩
    · exact .inr ⟨c, hi, rfl, rfl, .received reply _ hst rfl⟩
    · exact .inr ⟨c', hk, rfl, rfl, .stays _ (.inl rfl)⟩
  | becomeCandidate | start | requestVote | receivedVote =>
    exact .inr ⟨c', hk, rfl, rfl, .stays _ (.inl rfl)⟩
  | crash p => exact .inr (stageStep_crash hk)

end Steps

def VoteHeld (T candidate : Nat) (d : Persistent Cmd) : Prop :=
  T < d.currentTerm ∨ d.currentTerm = T ∧ d.votedFor = some candidate

def LogHeld (T : Nat) (P : List (LogEntry Cmd)) (d : Persistent Cmd) : Prop :=
  T < d.currentTerm ∨ d.currentTerm = T ∧ P <+: d.log

theorem VoteHeld.precedes {candidate : Nat} {rf rf' : Raft Cmd}
    (h : VoteHeld T candidate rf.persist) (hprec : rf.Precedes rf') :
    VoteHeld T candidate rf'.persist := by
  have hle := hprec.term
  rcases h with hlt | ⟨heq, hv⟩
  · exact .inl (Nat.lt_of_lt_of_le hlt hle)
  · rcases Nat.lt_or_eq_of_le hle with hlt | heq'
    · exact .inl (heq ▸ hlt)
    · exact .inr ⟨heq'.symm.trans heq, hprec.vote heq' candidate hv⟩

theorem LogHeld.of_same_term {P : List (LogEntry Cmd)} {rf rf' : Raft Cmd}
    (h : LogHeld T P rf.persist) (hle : rf.currentTerm ≤ rf'.currentTerm)
    (hkeep : rf.currentTerm = T → rf'.currentTerm = T → P <+: rf.log → P <+: rf'.log) :
    LogHeld T P rf'.persist := by
  rcases h with hlt | ⟨heq, hP⟩
  · exact .inl (Nat.lt_of_lt_of_le hlt hle)
  · have heq : rf.currentTerm = T := heq
    rcases Nat.lt_or_eq_of_le hle with hlt | heq'
    · exact .inl (heq ▸ hlt)
    · exact .inr ⟨heq'.symm.trans heq, hkeep heq (heq'.symm.trans heq) hP⟩

theorem LogHeld.repeating {P : List (LogEntry Cmd)} {rf : Raft Cmd} {c : AppendCall n Cmd}
    {r : AppendEntriesReply} (h : LogHeld c.args.term P (s.memory c.dst))
    (hle : (s.peer c.dst).currentTerm ≤ rf.currentTerm) (hl : LogStep s c.dst rf e)
    (hrep : Repeating s e) (hc : c ∈ s.appendCalls) (hr : c.stage.reply = some r)
    (hsucc : r.success = true) (hcar : Carries P c.args) :
    LogHeld c.args.term P rf.persist := by
  refine h.of_same_term hle fun hnow hthen hP => ?_
  have hrepeats : ∀ (k : Nat) (c' : AppendCall n Cmd), e = .appendEntries k →
      s.appendCalls[k]? = some c' → c'.dst = c.dst → rf.currentTerm = c'.args.term →
      c'.args.Repeats c.args := by
    rintro k c' rfl hk hdst hct
    exact hrep c' hk (by rw [hdst, hnow, ← hthen, hct]) c hc hdst.symm
      (hthen.symm.trans hct) r hr hsucc
  cases hl with
  | same _ hlog => exact hlog ▸ hP
  | started _ _ _ _ hlog => exact hlog ▸ hP.trans (List.prefix_append _ _)
  | cut k c' prev hk _ hdst _ hct hprev hne hlog =>
    rw [hlog]
    exact hcar.prefix_take (hrepeats k c' rfl hk hdst hct) hP hprev hne
  | spliced k c' prev hk _ hdst _ hct _ _ hlog =>
    rw [hlog]
    exact hcar.prefix_splice (hrepeats k c' rfl hk hdst hct) hP

theorem Run.acked_kept [Inhabited Cmd] {σ : List (Cluster n Cmd)} (h : Run Steady (s' :: s :: σ))
    {c : AppendCall n Cmd} {r : AppendEntriesReply} {P : List (LogEntry Cmd)}
    (hc : c ∈ s.appendCalls) (hr : c.stage.reply = some r) (hsucc : r.success = true)
    (hlog : LogOk (s' :: s :: σ) P) (hcar : Carries P c.args) (hP : P <+: (s.peer c.dst).log)
    (hnow : (s.peer c.dst).currentTerm = c.args.term)
    (hthen : (s'.peer c.dst).currentTerm = c.args.term) : P <+: (s'.peer c.dst).log := by
  have hfresh := h.freshReplies
  have hcf := hfresh.crashFree
  have hone := hfresh.freshVotes.oneLeader
  have hlen := hcar.length
  rcases hcf.args_cases (.tail _ (.head _)) hc with hargs | ⟨hpos, -⟩
  · -- the first requests of a leader bring the sentinel only
    have hlog' := hcf.logOk hone s' (.head _) c.dst
    have htake := hlog.matching hcf hone hlog' hlog.sentinel hlog'.sentinel rfl
    simp only [hargs, List.length_nil] at hlen
    rw [List.take_of_length_le hlen.ge] at htake
    exact htake ▸ List.take_prefix _ _
  · obtain ⟨s₀, hs₀, hlead, hcar₀, -⟩ := hfresh.carries (.tail _ (.head _)) hc hpos
    obtain ⟨prev, hprev, hterm⟩ := hcar.prev
    have hcopy := hlog.take_append hcf hone (hcf.logOk hone s₀ hs₀ c.src) hcar₀ hprev hterm
    rw [hcar.entries, List.take_append_drop] at hcopy
    have hholds : Holds s c.dst c.args.term P :=
      ⟨hnow.ge, hP, fun _ => .inr ⟨c, hc, rfl, rfl, by omega, r, hr, hsucc⟩⟩
    refine (h.holds_step List.suffix_rfl hpos ⟨s₀, hs₀, c.src, hlead, hcopy ▸ List.prefix_rfl⟩
      hholds fun _ _ _ hlt => ?_).log
    exact absurd hthen hlt.ne'

instance (s : Cluster n Cmd) (e : Event n Cmd) [DecidableEq Cmd] : Decidable (SavedReplies s e) :=
  inferInstanceAs (Decidable (_ ∧ _))

instance [DecidableEq Cmd] (s : Cluster n Cmd) (e : Event n Cmd) : Decidable (Repeating s e) :=
  inferInstanceAs (Decidable (∀ c ∈ s.appendRequest e, _))

namespace Aliased

variable [Inhabited Cmd] {s s' : Aliased n Cmd} {cap : Fin n → Nat} {σ τ : List (Aliased n Cmd)}
  {ok : Aliased n Cmd → Event n Cmd → Prop} {k : Nat} {P : List (LogEntry Cmd)}

theorem Run.encoded (h : Run cap ok σ) : ∀ s ∈ σ, ∀ (k : Nat) (c : AppendCall n Cmd),
    s.calls[k]? = some c → c.stage ≠ .sent → s.shares k = none := by
  refine History.Run.forall_mem h (by simp [init, calls, Cluster.init]) ?_
  rintro s (⟨e, b⟩ | j) s' ih ⟨-, hstep⟩ k c hc hne
  · obtain ⟨t, hready, ht, rfl⟩ := step_eq hstep
    obtain ⟨c₁, hc₁, hst, -⟩ := getElem?_after hc
    rcases (step_spec ht).appendStage hc₁ with hsent | ⟨c₀, hc₀, -, -, hstage⟩
    · exact absurd (hst.trans hsent) hne
    · rw [shares_after (List.getElem?_eq_some_iff.mp hc₀).1]
      rcases hstage.ne_sent (hst ▸ hne) with hne₀ | ⟨r, rfl, -⟩
      · exact ih k c₀ hc₀ hne₀
      · simpa [ready] using hready
  · obtain rfl := encode_eq hstep
    by_cases hkj : k = j
    · exact hkj ▸ Function.update_self _ _ _
    · exact (Function.update_of_ne hkj _ _).trans (ih k c hc hne)

theorem Run.appendStage {e : MrAndRaft.Event n Cmd} {b : Nat} (h : Run cap ok (s :: σ))
    (hstep : s.step (.step e b) = .ok s') {c' : AppendCall n Cmd} (hk : s'.calls[k]? = some c')
    (hne : c'.stage ≠ .sent) : ∃ c, s.calls[k]? = some c ∧ c'.dst = c.dst ∧ c'.args = c.args ∧
      StageStep e (fun r => e = .appendEntries k ∧ (s.peer c.dst).Appended c.args (s'.peer c.dst) r)
        (e = .heartBeat k) (s.cluster.memory c.dst) (s.cluster.disk c.dst) c.stage
        (s'.cluster.memory c.dst) (s'.cluster.disk c.dst) c'.stage := by
  have hrun : Run cap (fun _ _ => True) (s' :: s :: σ) :=
    .step (History.Run.mono h fun _ _ _ hs => ⟨trivial, hs.2⟩) ⟨trivial, hstep⟩
  have hnone := hrun.encoded s' List.mem_cons_self k c' hk hne
  obtain ⟨t, -, ht, rfl⟩ := step_eq hstep
  obtain ⟨c₁, hc₁, hst, heq⟩ := getElem?_after hk
  rcases (step_spec ht).appendStage hc₁ with hsent | ⟨c, hc, hstage⟩
  · exact absurd (hst.trans hsent) hne
  · rw [shares_after (List.getElem?_eq_some_iff.mp hc).1] at hnone
    obtain rfl := heq hnone
    exact ⟨c, hc, hstage⟩

theorem Run.votes_held (h : Run cap (Over SavedReplies) σ) : ∀ s ∈ σ, ∀ c ∈ s.cluster.voteCalls,
    ∀ r, c.stage.reply = some r → r.voteGranted = true →
      Held (VoteHeld c.args.term c.args.candidateId) (s.cluster.memory c.dst)
        (s.cluster.disk c.dst) c.stage := by
  refine History.Run.forall_mem h (by simp [init, Cluster.init]) ?_
  rintro s (⟨e, b⟩ | j) s' ih ⟨hsaved, hstep⟩ c' hc' r hr hg
  · obtain ⟨k, hk⟩ := List.mem_iff_getElem?.mp hc'
    obtain ⟨t, -, ht, rfl⟩ := step_eq hstep
    rcases (step_spec ht).voteStage hk with hsent | ⟨c, hc, hdst, hargs, hst⟩
    · simp [hsent, Stage.reply] at hr
    rw [hdst, hargs]
    rcases hst.held hr with ⟨hv, hst'⟩ | ⟨hr₀, hold⟩
    · have hvoted := votedIn_of_granted hv hg
      rw [hst']
      exact ⟨.inr ⟨hvoted.term, hvoted.vote⟩, fun r hleft => by cases hleft <;> contradiction⟩
    · refine hold _ (fun hce hheld => ?_) ?_ (ih c (List.mem_of_getElem? hc) r hr₀ hg)
      · exact hheld.precedes ((step_spec ht).peerStep hce c.dst).precedes
      · rintro rfl hmem
        rwa [Cluster.disk_eq_memory (hsaved.1 c hc r hr₀ hg)]
  · obtain rfl := encode_eq hstep
    exact ih c' hc' r hr hg

def LogAfter (σ : List (Aliased n Cmd)) (k : Nat) (q : Fin n) (P : List (LogEntry Cmd)) : Prop :=
  ∃ s s' τ b, s' :: s :: τ <:+ σ ∧ s.step (.step (.appendEntries k) b) = .ok s' ∧
    P = (s'.peer q).log

theorem LogAfter.mono {q : Fin n} (h : LogAfter σ k q P) (hτ : σ <:+ τ) : LogAfter τ k q P := by
  obtain ⟨s, s', υ, b, hsuf, hstep⟩ := h
  exact ⟨s, s', υ, b, hsuf.trans hτ, hstep⟩

def Keeps (cap : Fin n → Nat) (ok : Aliased n Cmd → Event n Cmd → Prop) : Prop :=
  ∀ s s' σ e b, Run cap ok (s :: σ) → ok s (.step e b) → s.step (.step e b) = .ok s' → e.crashFree →
    ∀ (k : Nat) (c : AppendCall n Cmd) r P, s.calls[k]? = some c → c.stage.reply = some r →
      r.success = true → LogAfter (s :: σ) k c.dst P → Carries P c.args →
      LogHeld c.args.term P (s.cluster.memory c.dst) →
      LogHeld c.args.term P (s'.cluster.memory c.dst)

theorem Run.acks_held (h : Run cap ok (s :: σ)) (hsaved : ∀ s e, ok s e → s.Over SavedReplies e)
    (hkeep : Keeps cap ok) : ∀ (k : Nat) (c : AppendCall n Cmd), s.calls[k]? = some c →
    ∀ r, c.stage.reply = some r → r.success = true →
      ∃ P, LogAfter (s :: σ) k c.dst P ∧ Carries P c.args ∧
        Held (LogHeld c.args.term P) (s.cluster.memory c.dst) (s.cluster.disk c.dst) c.stage := by
  generalize hρ : s :: σ = ρ at h
  induction h generalizing s σ with
  | init =>
    cases hρ
    simp [init, calls, Cluster.init]
  | @step s s' σ e hrun hstep ih =>
    cases hρ
    intro k c' hk r hr hsucc
    have ih := ih rfl
    obtain ⟨hok, hstep⟩ := hstep
    cases e with
    | encode j =>
      obtain rfl := encode_eq hstep
      obtain ⟨P, hP, hrest⟩ := ih k c' hk r hr hsucc
      exact ⟨P, hP.mono (List.suffix_cons _ _), hrest⟩
    | step e b =>
      obtain ⟨c, hc, hdst, hargs, hst⟩ :=
        Run.appendStage hrun hstep hk (by rintro hsent; simp [hsent, Stage.reply] at hr)
      rw [hdst, hargs]
      rcases hst.held hr with ⟨⟨rfl, happ⟩, hst'⟩ | ⟨hr₀, hold⟩
      · obtain ⟨hterm, hlog, prev, hprev, hsame⟩ := happ.of_success hsucc
        obtain ⟨hlt, -⟩ := List.getElem?_eq_some_iff.mp hprev
        refine ⟨_, ⟨s, s', σ, b, List.suffix_rfl, hstep, rfl⟩, ⟨⟨prev, ?_, hsame⟩, ?_⟩, ?_⟩
        · rw [hlog, List.getElem?_append_left (by simp; omega), List.getElem?_take_of_lt (by omega),
            hprev]
        · rw [hlog, List.drop_append_of_le_length (by simp; omega), List.drop_of_length_le (by simp),
            List.nil_append]
        · rw [hst']
          exact ⟨.inr ⟨hterm, List.prefix_rfl⟩, fun r hleft => by cases hleft <;> contradiction⟩
      · obtain ⟨P, hP, hcar, hheld⟩ := ih k c hc r hr₀ hsucc
        refine ⟨P, hP.mono (List.suffix_cons _ _), hcar, hold _ (fun hce hmem => ?_) ?_ hheld⟩
        · exact hkeep s s' σ e b hrun hok hstep hce k c r P hc hr₀ hsucc hP hcar hmem
        · rintro rfl hmem
          rwa [Cluster.disk_eq_memory ((hsaved s _ hok).2 c hc r hr₀ hsucc)]

abbrev Repeated (s : Cluster n Cmd) (e : MrAndRaft.Event n Cmd) : Prop :=
  SavedReplies s e ∧ Repeating s e

theorem keeps_repeated : Keeps cap (Over Repeated : Aliased n Cmd → Event n Cmd → Prop) := by
  intro s s' σ e b _ hok hstep hce k c r P hc hr hsucc _ hcar hheld
  obtain ⟨t, -, ht, rfl⟩ := step_eq hstep
  have hpeer := (step_spec ht).peerStep hce c.dst
  exact hheld.repeating hpeer.precedes.term hpeer.logStep hok.2 (List.mem_of_getElem? hc) hr hsucc
    hcar

abbrev SavedSteady (s : Cluster n Cmd) (e : MrAndRaft.Event n Cmd) : Prop :=
  SavedReplies s e ∧ Steady s e

theorem keeps_savedSteady : Keeps cap (Kept SavedSteady : Aliased n Cmd → Event n Cmd → Prop) := by
  intro s s' σ e b hrun ⟨hok, hi⟩ hstep hce k c r P hc hr hsucc hafter hcar hheld
  obtain ⟨ρ, hρ, hmem, -⟩ := (hrun.imp fun _ _ h => h.2).cluster_cons
  have hcluster : s.cluster.step e = .ok s'.cluster := by
    obtain ⟨t, -, ht, rfl⟩ := step_eq hstep
    rw [after_cluster hi ht, ht]
  have hsteady : MrAndRaft.Run Steady (s'.cluster :: s.cluster :: ρ) := .step hρ ⟨hok.2, hcluster⟩
  have hfresh := hsteady.freshReplies
  obtain ⟨s₁, s₁', τ, b', hsuf, -, rfl⟩ := hafter
  have hlog := hfresh.crashFree.logOk hfresh.freshVotes.oneLeader s₁'.cluster
    (.tail _ (hmem s₁' (hsuf.subset (by simp)))) c.dst
  have hpeer := (step_spec hcluster).peerStep hce c.dst
  exact hheld.of_same_term hpeer.precedes.term fun hnow hthen hP =>
    hsteady.acked_kept (List.mem_of_getElem? hc) hr hsucc hlog hcar hP hnow hthen

theorem promises_durable (h : Run cap (Over SavedReplies) (s :: σ)) :
    (∀ c ∈ s.cluster.voteCalls, ∀ r, c.stage = .returned r ∨ c.stage = .received r →
      r.voteGranted = true →
        c.args.term < (Raft.make (s.cluster.saved c.dst)).currentTerm ∨
        (Raft.make (s.cluster.saved c.dst)).currentTerm = c.args.term ∧
          (Raft.make (s.cluster.saved c.dst)).votedFor = some c.args.candidateId) ∧
    (Run cap (Over Repeated) (s :: σ) ∨ Run cap (Kept SavedSteady) (s :: σ) →
      ∀ (k : Nat) (c : AppendCall n Cmd), s.calls[k]? = some c → ∀ r,
        c.stage = .returned r ∨ c.stage = .received r → r.success = true →
        ∃ P, LogAfter (s :: σ) k c.dst P ∧
          P.length = c.args.prevLogIndex + c.args.entries.length + 1 ∧
          (c.args.term < (Raft.make (s.cluster.saved c.dst)).currentTerm ∨
            (Raft.make (s.cluster.saved c.dst)).currentTerm = c.args.term ∧
              P <+: (Raft.make (s.cluster.saved c.dst)).log)) := by
  constructor
  · intro c hc r hleft hg
    exact (h.votes_held s List.mem_cons_self c hc r (Stage.Left.reply hleft) hg).2 r hleft
  · intro hacks k c hk r hleft hsucc
    have held : ∃ P, LogAfter (s :: σ) k c.dst P ∧ Carries P c.args ∧
        Held (LogHeld c.args.term P) (s.cluster.memory c.dst) (s.cluster.disk c.dst) c.stage := by
      rcases hacks with h | h
      · exact h.acks_held (fun _ _ hok => hok.imp fun _ _ h => h.1) keeps_repeated k c hk r
          (Stage.Left.reply hleft) hsucc
      · exact h.acks_held (fun _ _ hok => hok.1.imp fun _ _ h => h.1) keeps_savedSteady k c hk r
          (Stage.Left.reply hleft) hsucc
    obtain ⟨P, hP, hcar, hheld⟩ := held
    exact ⟨P, hP, hcar.length.symm, hheld.2 r hleft⟩

/-- Peer 1 has called `persist` before it handles the request of peer 0, and its reply
leaves before it does so again. -/
def unsavedVote : List (MrAndRaft.Event 3 Nat) :=
  [.persist 0, .becomeCandidate 0, .persist 1, .requestVote 0, .receivedVote 0]

theorem vote_lost_unsavedVote : ∃ (s : Aliased 3 Nat) (σ : List (Aliased 3 Nat)),
    Run (fun _ => 1) (Kept CrashFree) (s :: σ) ∧ ∃ c ∈ s.cluster.voteCalls, c.dst = 1 ∧
      c.stage = .returned ⟨0, true⟩ ∧ c.args.term = 1 ∧
      (Raft.make (s.cluster.saved 1)).currentTerm = 0 :=
  exists_kept CrashFree (fun s => ∃ c ∈ s.voteCalls, c.dst = 1 ∧ c.stage = .returned ⟨0, true⟩ ∧
    c.args.term = 1 ∧ (Raft.make (s.saved 1)).currentTerm = 0) unsavedVote (by decide)

def savedPromises : List (MrAndRaft.Event 3 Nat) :=
  [.persist 0, .becomeCandidate 0, .requestVote 0, .persist 1, .receivedVote 0,
    .sendRequestVote 0, .start 0 7, .persist 0, .sendHeartBeats 0, .appendEntries 2, .persist 1,
    .heartBeat 2]

theorem promises_durable_savedPromises : ∃ (s : Aliased 3 Nat) (σ : List (Aliased 3 Nat)),
    Run (fun _ => 1) (Over Repeated) (s :: σ) ∧ Run (fun _ => 1) (Kept SavedSteady) (s :: σ) ∧
      ∃ P, LogAfter (s :: σ) 2 1 P ∧ P.length = 2 ∧
        (1 < (Raft.make (s.cluster.saved 1)).currentTerm ∨
          (Raft.make (s.cluster.saved 1)).currentTerm = 1 ∧
            P <+: (Raft.make (s.cluster.saved 1)).log) := by
  obtain ⟨s, σ, hrun, hack⟩ := exists_kept (fun s e => SavedReplies s e ∧ Repeating s e ∧ Steady s e)
    (fun s => s.appendCalls[2]? =
      some ⟨0, 1, 1, ⟨1, 0, 0, 0, [⟨1, 7⟩], 0⟩, .returned ⟨1, true⟩, false⟩) savedPromises
    (by decide)
  have hover : ∀ {ok : Cluster 3 Nat → MrAndRaft.Event 3 Nat → Prop},
      (∀ s e, SavedReplies s e ∧ Repeating s e ∧ Steady s e → ok s e) →
      Run (fun _ => 1) (Over ok) (s :: σ) := fun hok =>
    History.Run.mono hrun fun _ _ _ hs => ⟨hs.1.1.imp hok, hs.2⟩
  have hrep : Run (fun _ => 1) (Over Repeated) (s :: σ) := hover fun _ _ h => ⟨h.1, h.2.1⟩
  refine ⟨s, σ, hrep, hrun.imp fun _ _ h => ⟨h.1, h.2.2⟩, ?_⟩
  exact (promises_durable (hover fun _ _ h => h.1)).2 (.inl hrep) 2 _ hack ⟨1, true⟩ (.inl rfl) rfl

end Aliased

end MrAndRaft
