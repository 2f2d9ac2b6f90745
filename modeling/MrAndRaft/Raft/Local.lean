import MrAndRaft.Raft.Votes

/-! Invariants of single peers and single requests.  They hold in every run, whatever
is lost, delayed or restarted, once each piece of code run under `rf.mu` keeps them. -/

namespace MrAndRaft

variable {n : Nat} {Cmd : Type} [Inhabited Cmd] {s s' : Cluster n Cmd} {p q : Fin n}
  {e : Event n Cmd}

theorem Step.peer_cases (h : Step s e s') (q : Fin n) :
    PeerStep s q e (s'.peer q) ∨ e = .crash q ∧ s'.peer q = Raft.make (s.saved q) := by
  by_cases he : e.crashFree
  · exact .inl (h.peerStep he q)
  · cases h with
    | crash p =>
      by_cases hq : q = p
      · subst hq
        exact .inr ⟨rfl, by simp⟩
      · left
        simp only [Function.update_of_ne hq]
        exact .same _
    | _ => exact absurd rfl he

theorem Step.saved_cases (h : Step s e s') (q : Fin n) :
    s'.saved q = s.saved q ∨ s'.saved q = some (s.peer q).persist := by
  cases h with
  | persist p =>
    by_cases hq : q = p
    · subst hq
      exact .inr (by simp)
    · exact .inl (Function.update_of_ne hq _ _)
  | _ => exact .inl rfl

theorem Step.args_cases (h : Step s e s') {c' : AppendCall n Cmd} (hc : c' ∈ s'.appendCalls) :
    (∃ c ∈ s.appendCalls, c'.args = c.args) ∨ c'.args = {} ∨
      (s.peer c'.src).state = .leader ∧ (s.peer c'.src).HeartBeat c'.src c'.dst c'.args := by
  by_cases he : e.crashFree
  · obtain ⟨k, hk⟩ := List.mem_iff_getElem?.mp hc
    have hfrom := h.appendCall_cases he hk
    rcases Nat.lt_or_ge k s.appendCalls.length with hlt | hge
    · obtain ⟨c, hc, hl⟩ := hfrom.old hlt
      exact .inl ⟨c, List.mem_of_getElem? hc, hl.args⟩
    · rcases hfrom.new hge with hnew | ⟨hlead, -, hb⟩
      · exact .inr (.inl hnew)
      · exact .inr (.inr ⟨hlead, hb⟩)
  · cases h with
    | crash p =>
      obtain ⟨c, hmem, rfl⟩ := List.mem_map.mp hc
      exact .inl ⟨c, hmem, rfl⟩
    | _ => exact absurd rfl he

/-- Every piece of code keeps `P`, given `A` of the request it handles or acknowledges,
and every request it builds has `A`. -/
structure Local (P : Fin n → Raft Cmd → Prop) (A : AppendEntriesArgs Cmd → Prop) : Prop where
  make : ∀ p, P p (Raft.make none)
  restart : ∀ p rf, P p rf → P p (Raft.make (some rf.persist))
  candidate : ∀ p rf, P p rf → P p { rf with
    state := .candidate, currentTerm := rf.currentTerm + 1, votedFor := some p.val, votes := 1 }
  started : ∀ p rf rf' command, P p rf → rf.Started p command rf' → P p rf'
  voted : ∀ p rf rf' args reply, P p rf → rf.Voted args rf' reply → P p rf'
  counted : ∀ p rf rf' reply out, P p rf → rf.Counted n reply rf' out → P p rf'
  appended : ∀ p rf rf' args reply, P p rf → A args → rf.Appended args rf' reply → P p rf'
  acknowledged : ∀ p (server : Fin n) rf rf' args reply, P p rf → A args →
    rf.Acknowledged n server args reply rf' → P p rf'
  first : A {}
  heartBeat : ∀ (p peer : Fin n) rf args, P p rf → rf.state = .leader →
    rf.HeartBeat p peer args → A args

namespace Local

variable {P : Fin n → Raft Cmd → Prop} {A : AppendEntriesArgs Cmd → Prop}

/-- What a run keeps: a saved state is one that a restart may come back with. -/
structure Holds (P : Fin n → Raft Cmd → Prop) (A : AppendEntriesArgs Cmd → Prop)
    (s : Cluster n Cmd) : Prop where
  peer : ∀ p, P p (s.peer p)
  saved : ∀ p, P p (Raft.make (s.saved p))
  args : ∀ c ∈ s.appendCalls, A c.args

theorem peerStep (h : Local P A) (hP : P p (s.peer p))
    (hA : ∀ c ∈ s.appendCalls, A c.args) {rf : Raft Cmd} (hs : PeerStep s p e rf) : P p rf := by
  cases hs with
  | same => exact hP
  | candidate rf hrf =>
    subst hrf
    exact h.candidate p _ hP
  | started command rf hrf => exact h.started p _ rf command hP hrf
  | voted k c reply rf hk hdst hrf => exact h.voted p _ rf c.args reply hP hrf
  | counted k c reply rf out hk hsrc hst hrf => exact h.counted p _ rf reply out hP hrf
  | appended k c reply rf hk hst hdst hrf =>
    exact h.appended p _ rf c.args reply hP (hA c (List.mem_of_getElem? hk)) hrf
  | acknowledged k c reply rf hk hsrc hst hrf =>
    exact h.acknowledged p c.dst _ rf c.args reply hP (hA c (List.mem_of_getElem? hk)) hrf

theorem step (h : Local P A) (hs : Step s e s') (hold : Holds P A s) : Holds P A s' where
  peer p := by
    rcases hs.peer_cases p with hp | ⟨-, heq⟩
    · exact h.peerStep (hold.peer p) hold.args hp
    · rw [heq]
      exact hold.saved p
  saved p := by
    rcases hs.saved_cases p with heq | heq <;> rw [heq]
    · exact hold.saved p
    · exact h.restart p _ (hold.peer p)
  args c hc := by
    rcases hs.args_cases hc with ⟨c₀, hc₀, heq⟩ | heq | ⟨hlead, hb⟩
    · rw [heq]
      exact hold.args c₀ hc₀
    · rw [heq]
      exact h.first
    · exact h.heartBeat c.src c.dst _ c.args (hold.peer c.src) hlead hb

theorem run (h : Local P A) {ok : Cluster n Cmd → Event n Cmd → Prop} {σ : List (Cluster n Cmd)}
    (hrun : Run ok σ) : ∀ s ∈ σ, Holds P A s := by
  refine History.Run.forall_mem hrun ?_ ?_
  · exact ⟨h.make, h.make, by simp [Cluster.init]⟩
  · intro s e s' hold hs
    exact h.step (step_spec hs.2) hold

end Local

end MrAndRaft
