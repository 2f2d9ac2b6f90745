import MrAndRaft.Raft.Local

/-! The terms along a log and along the entries of a request.  A log is spliced from a
local prefix and the entries of a request, and `PrevLogTerm` is what joins the two. -/

namespace MrAndRaft

variable {n : Nat} {Cmd : Type}

structure TermsOk (rf : Raft Cmd) : Prop where
  sorted : rf.log.Pairwise fun a b => a.term ≤ b.term
  bound : ∀ e ∈ rf.log, e.term ≤ rf.currentTerm

structure EntriesOk (args : AppendEntriesArgs Cmd) : Prop where
  prev : ∀ e ∈ args.entries, args.prevLogTerm ≤ e.term
  sorted : args.entries.Pairwise fun a b => a.term ≤ b.term
  bound : ∀ e ∈ args.entries, e.term ≤ args.term

theorem EntriesOk.of_nil {args : AppendEntriesArgs Cmd} (h : args.entries = []) :
    EntriesOk args := by
  constructor <;> simp [h]

namespace TermsOk

variable {rf rf' : Raft Cmd}

theorem of_sublist (h : TermsOk rf) (hlog : rf'.log.Sublist rf.log)
    (hterm : rf.currentTerm ≤ rf'.currentTerm) : TermsOk rf' where
  sorted := h.sorted.sublist hlog
  bound e he := (h.bound e (hlog.subset he)).trans hterm

theorem of_eq (h : TermsOk rf) (hlog : rf'.log = rf.log)
    (hterm : rf.currentTerm ≤ rf'.currentTerm) : TermsOk rf' :=
  h.of_sublist (hlog ▸ List.Sublist.refl _) hterm

theorem frame (h : TermsOk rf) (hf : Raft.CommitFrame rf rf') : TermsOk rf' :=
  h.of_eq hf.log hf.currentTerm.ge

theorem observe (h : TermsOk rf) (term : Nat) : TermsOk (rf.observe term) :=
  h.of_eq (by simp) (rf.currentTerm_le_observe term)

theorem le_of_getElem? (h : TermsOk rf) {i j : Nat} {a b : LogEntry Cmd} (hij : i ≤ j)
    (ha : rf.log[i]? = some a) (hb : rf.log[j]? = some b) : a.term ≤ b.term := by
  obtain ⟨hi, rfl⟩ := List.getElem?_eq_some_iff.mp ha
  obtain ⟨hj, rfl⟩ := List.getElem?_eq_some_iff.mp hb
  rcases hij.eq_or_lt with rfl | hlt
  · exact le_rfl
  · exact List.pairwise_iff_getElem.mp h.sorted i j hi hj hlt

theorem started {me : Nat} {command : Cmd} (h : TermsOk rf) (hs : rf.Started me command rf') :
    TermsOk rf' := by
  cases hs with
  | refused => exact h
  | appended =>
    constructor
    · refine List.pairwise_append.mpr ⟨h.sorted, List.pairwise_singleton _ _, ?_⟩
      intro a ha b hb
      rw [List.mem_singleton.mp hb]
      exact h.bound a ha
    · intro e he
      rcases List.mem_append.mp he with he | he
      · exact h.bound e he
      · rw [List.mem_singleton.mp he]

theorem spliced {args : AppendEntriesArgs Cmd} {prev : LogEntry Cmd} (h : TermsOk rf)
    (hargs : EntriesOk args) (hprev : rf.log[args.prevLogIndex]? = some prev)
    (hterm : args.prevLogTerm = prev.term) (hle : rf.currentTerm ≤ args.term)
    (hlog : rf'.log = rf.log.take (args.prevLogIndex + 1) ++ args.entries)
    (hcur : rf'.currentTerm = args.term) : TermsOk rf' := by
  have hsub := List.take_sublist (args.prevLogIndex + 1) rf.log
  constructor
  · rw [hlog]
    refine List.pairwise_append.mpr ⟨h.sorted.sublist hsub, hargs.sorted, ?_⟩
    intro a ha b hb
    obtain ⟨i, hi⟩ := List.mem_iff_getElem?.mp ha
    rw [List.getElem?_take] at hi
    split at hi
    · calc a.term ≤ prev.term := h.le_of_getElem? (by omega) hi hprev
        _ = args.prevLogTerm := hterm.symm
        _ ≤ b.term := hargs.prev b hb
    · cases hi
  · intro e he
    rw [hlog] at he
    rw [hcur]
    rcases List.mem_append.mp he with he | he
    · exact (h.bound e (hsub.subset he)).trans hle
    · exact hargs.bound e he

theorem appended {args : AppendEntriesArgs Cmd} {reply : AppendEntriesReply} (h : TermsOk rf)
    (hargs : EntriesOk args) (ha : rf.Appended args rf' reply) : TermsOk rf' := by
  cases ha with
  | stale => exact h
  | short => exact h.observe _
  | conflict => exact h.of_sublist (List.take_sublist _ _) (rf.currentTerm_le_observe _)
  | agree prev rf' hle hprev hterm hf =>
    exact h.spliced hargs hprev hterm hle hf.frame.log
      (hf.frame.currentTerm.trans (Raft.observe_term_of_le hle))

theorem acknowledged {peers server : Nat} {args : AppendEntriesArgs Cmd}
    {reply : AppendEntriesReply} (h : TermsOk rf)
    (ha : rf.Acknowledged peers server args reply rf') : TermsOk rf' := by
  cases ha with
  | ignored => exact h
  | deposed _ hlt => exact h.of_eq rfl hlt.le
  | matched _ _ _ _ _ _ hs => exact h.of_eq hs.frame.log hs.frame.currentTerm.ge
  | backedOff => exact h.of_eq rfl le_rfl
  | rejected _ _ _ _ hs => exact h.frame hs.frame

theorem heartBeat {me peer : Nat} {args : AppendEntriesArgs Cmd} (h : TermsOk rf)
    (hb : rf.HeartBeat me peer args) : EntriesOk args := by
  rcases Nat.lt_or_ge (args.prevLogIndex + 1) rf.log.length with hlt | hge
  · obtain ⟨prev, hprev, hterm, hentries⟩ := hb.suffix hlt
    have hsub : args.entries.Sublist rf.log := hentries ▸ List.drop_sublist _ _
    refine ⟨fun e he => ?_, h.sorted.sublist hsub, fun e he => ?_⟩
    · rw [hentries] at he
      obtain ⟨i, hi⟩ := List.mem_iff_getElem?.mp he
      rw [List.getElem?_drop] at hi
      rw [hterm]
      exact h.le_of_getElem? (by omega) hprev hi
    · rw [hb.term]
      exact h.bound e (hsub.subset he)
  · obtain ⟨_, _, _, hnil⟩ := hb.empty hge
    exact .of_nil hnil

end TermsOk

variable [Inhabited Cmd]

theorem local_termsOk : Local (fun (_ : Fin n) (rf : Raft Cmd) => TermsOk rf) EntriesOk where
  make _ := by
    constructor
    · exact List.pairwise_singleton _ _
    · simp [Raft.make, Raft.readPersist]
  restart _ rf h := ⟨h.sorted, h.bound⟩
  candidate _ rf h := h.of_eq rfl (Nat.le_succ _)
  started _ _ _ _ h hs := h.started hs
  voted _ _ _ _ _ h hv := by
    cases hv with
    | stale => exact h
    | refused => exact h.observe _
    | granted => exact (h.observe _).of_eq rfl le_rfl
  counted _ _ _ _ _ h hc := by
    cases hc with
    | deposed hlt => exact h.of_eq rfl hlt.le
    | refused | counted | elected => exact h.of_eq rfl le_rfl
  appended _ _ _ _ _ h hargs ha := h.appended hargs ha
  acknowledged _ _ _ _ _ _ h _ ha := h.acknowledged ha
  first := .of_nil rfl
  heartBeat _ _ _ _ h _ hb := h.heartBeat hb

variable {ok : Cluster n Cmd → Event n Cmd → Prop} {σ : List (Cluster n Cmd)}

theorem Run.termsOk (h : Run ok σ) : ∀ s ∈ σ, ∀ p, TermsOk (s.peer p) :=
  fun s hs => (local_termsOk.run h s hs).peer

/-- Peers 0 and 1 both lead in term 2 and send a command of their own; peer 2 takes the
one and then the other, and restarts. -/
def sharedTerm : List (Event 3 Nat) :=
  [.persist 0, .becomeCandidate 0, .persist 1, .requestVote 0, .receivedVote 0,
    .persist 0, .becomeCandidate 0, .persist 1, .becomeCandidate 1, .persist 2,
    .requestVote 5, .receivedVote 5, .sendRequestVote 5, .sendRequestVote 0, .start 0 7,
    .persist 0, .sendHeartBeats 0, .start 1 8, .persist 1, .sendHeartBeats 1, .appendEntries 5,
    .persist 2, .appendEntries 7, .crash 2]

end MrAndRaft
