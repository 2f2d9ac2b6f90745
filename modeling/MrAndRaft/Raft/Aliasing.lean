import MrAndRaft.Lib.Simulation
import MrAndRaft.Raft.Votes

/-! `args.Entries` is a slice of `rf.log`.  Request and log share an array until `Call` has
encoded the request, without `rf.mu`, and `append` in `Start` writes into that array while there
is room in it.  A `Cluster` has the requests as values; here they are what the array holds. -/

namespace MrAndRaft

variable {n : Nat} {Cmd : Type}

/-- `array p` numbers the arrays that `rf.log` of peer `p` has been in, and `cap p` is `cap(rf.log)`.
`shares k` is the array that `Entries` of RPC `k` is in, until `Call` has encoded its arguments. -/
structure Aliased (n : Nat) (Cmd : Type) where
  cluster : Cluster n Cmd
  array : Fin n → Nat
  cap : Fin n → Nat
  shares : Nat → Option Nat

def AppendEntriesArgs.overwrite (index : Nat) (entry : LogEntry Cmd) (args : AppendEntriesArgs Cmd) :
    AppendEntriesArgs Cmd :=
  if args.prevLogIndex < index then
    { args with entries := args.entries.set (index - (args.prevLogIndex + 1)) entry }
  else args

namespace Aliased

/-- `cap` is what the runtime makes the capacity of an array that the event allocates. -/
inductive Event (n : Nat) (Cmd : Type) where
  | step (e : MrAndRaft.Event n Cmd) (cap : Nat)
  | encode (k : Nat)
  deriving DecidableEq, Repr

def peer (s : Aliased n Cmd) (p : Fin n) : Raft Cmd := s.cluster.peer p

def calls (s : Aliased n Cmd) : List (AppendCall n Cmd) := s.cluster.appendCalls

def init [Inhabited Cmd] (cap : Fin n → Nat) : Aliased n Cmd := ⟨.init, fun _ => 0, cap, fun _ => none⟩

def inPlace (s : Aliased n Cmd) : MrAndRaft.Event n Cmd → Option (Fin n × LogEntry Cmd)
  | .start p command =>
    if (s.peer p).state = .leader ∧ (s.peer p).log.length < s.cap p then
      some (p, ⟨(s.peer p).currentTerm, command⟩)
    else none
  | _ => none

def moves (s : Aliased n Cmd) (t : Cluster n Cmd) : MrAndRaft.Event n Cmd → Option (Fin n)
  | .start p _ =>
    if (s.peer p).state = .leader ∧ s.cap p ≤ (s.peer p).log.length then some p else none
  | .appendEntries k =>
    -- an accepted request is appended to a copy of the log
    match t.appendCalls[k]? with
    | some c => if (c.stage.reply.map (·.success)) = some true then some c.dst else none
    | none => none
  | .crash p => some p
  | _ => none

def Shared (s : Aliased n Cmd) (p : Fin n) (k : Nat) (c : AppendCall n Cmd) : Prop :=
  c.src = p ∧ s.shares k = some (s.array p)

instance (s : Aliased n Cmd) (p : Fin n) (k : Nat) (c : AppendCall n Cmd) :
    Decidable (s.Shared p k c) :=
  inferInstanceAs (Decidable (_ ∧ _))

def written (s : Aliased n Cmd) (e : MrAndRaft.Event n Cmd) (calls : List (AppendCall n Cmd)) :
    List (AppendCall n Cmd) :=
  match s.inPlace e with
  | none => calls
  | some (p, entry) => calls.mapIdx fun k c =>
      if s.Shared p k c then
        { c with args := c.args.overwrite (s.peer p).log.length entry }
      else c

/-- The state after an event that leaves the cluster `t`.  A new request shares the array of its
sender's log. -/
def after (s : Aliased n Cmd) (e : MrAndRaft.Event n Cmd) (cap : Nat) (t : Cluster n Cmd) :
    Aliased n Cmd where
  cluster := { t with appendCalls := s.written e t.appendCalls }
  array := match s.moves t e with
    | none => s.array
    | some p => Function.update s.array p (s.array p + 1)
  cap := match s.moves t e with
    | none => s.cap
    | some p => Function.update s.cap p (max cap (t.peer p).log.length)
  shares k :=
    if k < s.calls.length then s.shares k else t.appendCalls[k]?.map fun c => s.array c.src

def ready (s : Aliased n Cmd) : MrAndRaft.Event n Cmd → Bool
  | .appendEntries k => s.shares k = none
  | _ => true

def step [Inhabited Cmd] (s : Aliased n Cmd) : Event n Cmd → Except Fault (Aliased n Cmd)
  | .step e cap => if s.ready e then (s.cluster.step e).map (s.after e cap) else .error .disabled
  | .encode k =>
    match s.calls[k]?, s.shares k with
    | some c, some _ =>
      if c.orphan then .error .disabled
      else .ok { s with shares := Function.update s.shares k none }
    | _, _ => .error .disabled

def Run [Inhabited Cmd] (cap : Fin n → Nat) (ok : Aliased n Cmd → Event n Cmd → Prop)
    (σ : List (Aliased n Cmd)) : Prop :=
  History.Run (init cap) (fun s e s' => ok s e ∧ s.step e = .ok s') σ

def Over (ok : Cluster n Cmd → MrAndRaft.Event n Cmd → Prop) (s : Aliased n Cmd) :
    Event n Cmd → Prop
  | .step e _ => ok s.cluster e
  | .encode _ => True

/-- `Start` writes over no entry of a request that has not been encoded. -/
def Intact (s : Aliased n Cmd) : Event n Cmd → Prop
  | .step e _ => ∀ w ∈ s.inPlace e, ∀ x ∈ s.calls.zipIdx, s.Shared w.1 x.2 x.1 →
      (s.peer w.1).log.length ≤ x.1.args.prevLogIndex ∨
        x.1.args.prevLogIndex + x.1.args.entries.length < (s.peer w.1).log.length
  | .encode _ => True

abbrev Kept (ok : Cluster n Cmd → MrAndRaft.Event n Cmd → Prop) (s : Aliased n Cmd)
    (e : Event n Cmd) : Prop :=
  s.Over ok e ∧ s.Intact e

instance (ok : Cluster n Cmd → MrAndRaft.Event n Cmd → Prop) [∀ s e, Decidable (ok s e)]
    (s : Aliased n Cmd) : (e : Event n Cmd) → Decidable (s.Over ok e)
  | .step e _ => inferInstanceAs (Decidable (ok s.cluster e))
  | .encode _ => isTrue trivial

instance (s : Aliased n Cmd) : (e : Event n Cmd) → Decidable (s.Intact e)
  | .step e _ => inferInstanceAs (Decidable (∀ w ∈ s.inPlace e, ∀ x ∈ s.calls.zipIdx, _))
  | .encode _ => isTrue trivial

end Aliased

theorem AppendEntriesArgs.overwrite_of_not {index : Nat} {entry : LogEntry Cmd}
    {args : AppendEntriesArgs Cmd}
    (h : index ≤ args.prevLogIndex ∨ args.prevLogIndex + args.entries.length < index) :
    args.overwrite index entry = args := by
  unfold overwrite
  split
  · rw [List.set_eq_of_length_le (by omega)]
  · rfl

namespace Aliased

variable [Inhabited Cmd] {s s' : Aliased n Cmd} {e : Event n Cmd} {cap : Fin n → Nat}
  {σ : List (Aliased n Cmd)} {ok ok' : Cluster n Cmd → MrAndRaft.Event n Cmd → Prop}

theorem step_eq {e₀ : MrAndRaft.Event n Cmd} {c : Nat} (h : s.step (.step e₀ c) = .ok s') :
    ∃ t, s.ready e₀ = true ∧ s.cluster.step e₀ = .ok t ∧ s' = s.after e₀ c t := by
  simp only [step] at h
  split at h
  · cases ht : s.cluster.step e₀ with
    | error f => simp [ht, Except.map] at h
    | ok t => exact ⟨t, ‹_›, rfl, by simpa [ht, Except.map] using h.symm⟩
  · cases h

theorem step_after {e₀ : MrAndRaft.Event n Cmd} {t : Cluster n Cmd} (hready : s.ready e₀ = true)
    (h : s.cluster.step e₀ = .ok t) (b : Nat) : s.step (.step e₀ b) = .ok (s.after e₀ b t) := by
  simp [step, hready, h, Except.map]

theorem encode_eq {k : Nat} (h : s.step (.encode k) = .ok s') :
    s' = { s with shares := Function.update s.shares k none } := by
  simp only [step] at h
  split at h
  · split at h <;> cases h
    rfl
  · cases h

omit [Inhabited Cmd] in
theorem written_eq {e₀ : MrAndRaft.Event n Cmd} {c : Nat} (h : s.Intact (.step e₀ c)) :
    s.written e₀ s.calls = s.calls := by
  unfold written
  cases hw : s.inPlace e₀ with
  | none => rfl
  | some w =>
    refine List.ext_getElem? fun k => ?_
    simp only [List.getElem?_mapIdx]
    cases hk : s.calls[k]? with
    | none => rfl
    | some x =>
      simp only [Option.map_some]
      split
      · rename_i hshared
        have hmem : (x, k) ∈ s.calls.zipIdx := List.mem_zipIdx_iff_getElem?.mpr hk
        rw [AppendEntriesArgs.overwrite_of_not (h w hw _ hmem hshared)]
      · rfl

section After

omit [Inhabited Cmd]

variable {e₀ : MrAndRaft.Event n Cmd} {b k : Nat} {t : Cluster n Cmd} {p : Fin n}

theorem calls_after (h : s.inPlace e₀ = none) : (s.after e₀ b t).calls = t.appendCalls := by
  simp [after, calls, written, h]

theorem getElem?_after_of_not {c : AppendCall n Cmd} (hc : t.appendCalls[k]? = some c)
    (hnot : ∀ w ∈ s.inPlace e₀, ¬ s.Shared w.1 k c) : (s.after e₀ b t).calls[k]? = some c := by
  simp only [after, calls, written]
  split
  · exact hc
  · rename_i p entry hw
    rw [List.getElem?_mapIdx, hc, Option.map_some, if_neg (hnot _ hw)]

theorem shares_after (hk : k < s.calls.length) : (s.after e₀ b t).shares k = s.shares k := if_pos hk

theorem isSome_shares_after (hnone : ∀ k, s.shares k = none)
    (hk : ((s.after e₀ b t).shares k).isSome) :
    s.calls.length ≤ k ∧ k < t.appendCalls.length := by
  simp only [after] at hk
  split at hk
  · simp [hnone] at hk
  · rename_i hlen
    exact ⟨Nat.not_lt.mp hlen, by simpa using hk⟩

theorem array_after (h : s.moves t e₀ ≠ some p) : (s.after e₀ b t).array p = s.array p := by
  cases hq : s.moves t e₀ with
  | none => simp [after, hq]
  | some q =>
    have hpq : p ≠ q := fun hpq => h (hpq ▸ hq)
    simp [after, hq, hpq]

theorem cap_after (h : s.moves t e₀ ≠ some p) : (s.after e₀ b t).cap p = s.cap p := by
  cases hq : s.moves t e₀ with
  | none => simp [after, hq]
  | some q =>
    have hpq : p ≠ q := fun hpq => h (hpq ▸ hq)
    simp [after, hq, hpq]

end After

omit [Inhabited Cmd] in
theorem getElem?_after {e₀ : MrAndRaft.Event n Cmd} {b k : Nat} {t : Cluster n Cmd}
    {c' : AppendCall n Cmd} (h : (s.after e₀ b t).calls[k]? = some c') :
    ∃ c, t.appendCalls[k]? = some c ∧ c'.stage = c.stage ∧ (s.shares k = none → c' = c) := by
  simp only [after, calls, written] at h
  split at h
  · exact ⟨c', h, rfl, fun _ => rfl⟩
  · simp only [List.getElem?_mapIdx, Option.map_eq_some_iff] at h
    obtain ⟨c, hc, rfl⟩ := h
    refine ⟨c, hc, ?_, fun hnone => ?_⟩
    · split <;> rfl
    · rw [if_neg]
      simp [Shared, hnone]

theorem after_cluster {e₀ : MrAndRaft.Event n Cmd} {c : Nat} {t : Cluster n Cmd}
    (hi : s.Intact (.step e₀ c)) (ht : s.cluster.step e₀ = .ok t) : (s.after e₀ c t).cluster = t := by
  have hw : s.written e₀ t.appendCalls = t.appendCalls := by
    cases e₀ with
    | start p command =>
      obtain ⟨⟨rf, r⟩, -, rfl⟩ := Cluster.orPanic_eq_ok ht
      exact written_eq hi
    | _ => rfl
  simp only [after, hw]

theorem step_cluster (hi : s.Intact e) (h : s.step e = .ok s') :
    s'.cluster = s.cluster ∨ ∃ e₀ c, e = .step e₀ c ∧ s.cluster.step e₀ = .ok s'.cluster := by
  cases e with
  | encode k => exact .inl (by rw [encode_eq h])
  | step e₀ c =>
    obtain ⟨t, -, ht, rfl⟩ := step_eq h
    exact .inr ⟨e₀, c, rfl, by rw [after_cluster hi ht, ht]⟩

omit [Inhabited Cmd] in
theorem Over.imp {e : Event n Cmd} (h : s.Over ok e) (hok : ∀ s e, ok s e → ok' s e) :
    s.Over ok' e := by
  cases e with
  | step e c => exact hok _ _ h
  | encode k => trivial

theorem Run.imp (h : Run cap (Kept ok) σ) (hok : ∀ s e, ok s e → ok' s e) :
    Run cap (Kept ok') σ :=
  History.Run.mono h fun _ _ _ hs => ⟨⟨hs.1.1.imp hok, hs.1.2⟩, hs.2⟩

theorem Run.cluster_cons (h : Run cap (Kept ok) (s :: σ)) :
    ∃ τ, MrAndRaft.Run ok (s.cluster :: τ) ∧ (∀ r ∈ s :: σ, r.cluster ∈ s.cluster :: τ) ∧
      ∀ t ∈ s.cluster :: τ, ∃ r ∈ s :: σ, r.cluster = t := by
  have hsim : ∀ (s : Aliased n Cmd) e s' t, s.cluster = t →
      s.Kept ok e ∧ s.step e = .ok s' →
      s'.cluster = t ∨ ∃ e₀ t', (ok t e₀ ∧ t.step e₀ = .ok t') ∧ s'.cluster = t' := by
    rintro s e s' _ rfl ⟨⟨hok, hi⟩, hstep⟩
    refine (step_cluster hi hstep).imp_right ?_
    rintro ⟨e₀, c, rfl, hcluster⟩
    exact ⟨e₀, _, ⟨hok, hcluster⟩, rfl⟩
  obtain ⟨_, τ, hτ, rfl, hall, hback⟩ :=
    History.Run.refines (R := fun (s : Aliased n Cmd) t => s.cluster = t) h rfl hsim
  refine ⟨τ, hτ, List.forall_mem_cons.mpr ⟨by simp, fun t ht => ?_⟩, hback⟩
  obtain ⟨_, hmem, rfl⟩ := hall t ht
  exact hmem

theorem Run.cluster (h : Run cap (Kept ok) σ) :
    ∃ τ, MrAndRaft.Run ok τ ∧ (∀ s ∈ σ, s.cluster ∈ τ) ∧ ∀ t ∈ τ, ∃ s ∈ σ, s.cluster = t := by
  cases σ with
  | nil => cases h
  | cons s σ =>
    obtain ⟨τ, hτ⟩ := h.cluster_cons
    exact ⟨_, hτ⟩

section Prompt

variable {t t' : Cluster n Cmd} {τ : List (Cluster n Cmd)} {e₀ : MrAndRaft.Event n Cmd}

theorem not_orphan (h : Step t e₀ t') {k : Nat} {c : AppendCall n Cmd}
    (hk : t.appendCalls.length ≤ k) (hc : t'.appendCalls[k]? = some c) : c.orphan = false := by
  have hlen := (List.getElem?_eq_some_iff.mp hc).1
  cases h with
  | sendHeartBeats | sendRequestVote =>
    rcases Position.of_append hc with hc | ⟨-, hnew⟩
    · have := (List.getElem?_eq_some_iff.mp hc).1
      exact absurd hk (Nat.not_le.mpr this)
    · obtain ⟨r, -, rfl⟩ := List.mem_map.mp hnew
      rfl
  | persist | appendEntries | heartBeat | sendAppendEntries | crash | becomeCandidate | start
  | requestVote | receivedVote =>
    exact absurd hk (Nat.not_le.mpr (by simpa using hlen))

theorem Run.encode (h : Run cap (Kept ok) (s :: σ))
    (horphan : ∀ k c, s.calls[k]? = some c → (s.shares k).isSome → c.orphan = false)
    (hsome : ∀ k, (s.shares k).isSome → k < s.calls.length) (m : Nat) :
    ∃ r ρ, Run cap (Kept ok) (r :: ρ) ∧ r.cluster = s.cluster ∧ (∀ k < m, r.shares k = none) ∧
      (∀ k, m ≤ k → r.shares k = s.shares k) ∧ ∀ u ∈ ρ, u ∈ s :: σ ∨ u.cluster = s.cluster := by
  induction m with
  | zero => exact ⟨s, σ, h, rfl, by simp, fun _ _ => rfl, fun u hu => .inl (.tail _ hu)⟩
  | succ m ih =>
    obtain ⟨r, ρ, hrun, hcl, hnone, hrest, hold⟩ := ih
    cases hm : s.shares m with
    | none =>
      refine ⟨r, ρ, hrun, hcl, fun k hk => ?_, fun k hk => hrest k (by omega), hold⟩
      rcases Nat.lt_succ_iff_lt_or_eq.mp hk with hk | rfl
      · exact hnone k hk
      · rw [hrest k le_rfl, hm]
    | some a =>
      obtain ⟨c, hc⟩ : ∃ c, s.calls[m]? = some c :=
        ⟨_, List.getElem?_eq_getElem (hsome m (by simp [hm]))⟩
      have hstep : r.step (.encode m) = .ok { r with shares := Function.update r.shares m none } := by
        simp [step, calls, hcl, show s.cluster.appendCalls[m]? = some c from hc,
          (hrest m le_rfl).trans hm, horphan m c hc (by simp [hm])]
      have hkept : r.Kept ok (.encode m) := ⟨trivial, trivial⟩
      refine ⟨_, r :: ρ, .step hrun ⟨hkept, hstep⟩, hcl, fun k hk => ?_,
        fun k hk => ?_, List.forall_mem_cons.mpr ⟨.inr hcl, hold⟩⟩
      · rcases Nat.lt_succ_iff_lt_or_eq.mp hk with hk | rfl
        · exact (Function.update_of_ne hk.ne _ _).trans (hnone k hk)
        · exact Function.update_self _ _ _
      · exact (Function.update_of_ne (by omega) _ _).trans (hrest k (by omega))

/-- Every run of the cluster is one in which each request is encoded as soon as it is built. -/
theorem exists_prompt (h : MrAndRaft.Run ok (t :: τ)) (cap : Fin n → Nat) :
    ∃ s σ, Run cap (Kept ok) (s :: σ) ∧ s.cluster = t ∧ (∀ k, s.shares k = none) ∧
      ∀ r ∈ σ, r.cluster ∈ t :: τ := by
  generalize hρ : t :: τ = ρ at h
  induction h generalizing t τ with
  | init =>
    cases hρ
    exact ⟨init cap, [], .init, rfl, fun _ => rfl, by simp⟩
  | @step u t' υ e₀ hrun hstep ih =>
    cases hρ
    obtain ⟨s, σ, hs, rfl, hnone, hmem⟩ := ih rfl
    have hi : s.Intact (.step e₀ 0) := fun w _ x _ hx => by simp [Shared, hnone] at hx
    have hready : s.ready e₀ = true := by
      cases e₀ <;> simp [ready, hnone]
    have hafter := step_after hready hstep.2 0
    have hcl : (s.after e₀ 0 t').cluster = t' := after_cluster hi hstep.2
    have hkept : s.Kept ok (.step e₀ 0) := ⟨hstep.1, hi⟩
    have hrun' : Run cap (Kept ok) (s.after e₀ 0 t' :: s :: σ) := .step hs ⟨hkept, hafter⟩
    -- only the requests that the event has built are not encoded
    have hnew (k : Nat) (hk : ((s.after e₀ 0 t').shares k).isSome) := isSome_shares_after hnone hk
    have horphan : ∀ k c, (s.after e₀ 0 t').calls[k]? = some c →
        ((s.after e₀ 0 t').shares k).isSome → c.orphan = false := by
      intro k c hc hk
      rw [calls, hcl] at hc
      exact not_orphan (step_spec hstep.2) (hnew k hk).1 hc
    obtain ⟨r, ρ, hr, hrcl, hrnone, hrrest, hrold⟩ := hrun'.encode horphan
      (fun k hk => by rw [calls, hcl]; exact (hnew k hk).2) t'.appendCalls.length
    refine ⟨r, ρ, hr, hrcl.trans hcl, fun k => ?_, fun u hu => ?_⟩
    · by_cases hk : k < t'.appendCalls.length
      · exact hrnone k hk
      · rw [hrrest k (Nat.not_lt.mp hk)]
        by_contra hsome
        exact hk (hnew k (Option.isSome_iff_ne_none.mpr hsome)).2
    · rcases hrold u hu with hu | hu
      · simp only [List.mem_cons] at hu ⊢
        rcases hu with rfl | rfl | hu
        · exact .inl hcl
        · exact .inr (.inl rfl)
        · exact .inr (by simpa using hmem u hu)
      · rw [hu, hcl]
        exact .head _

theorem exists_kept (ok : Cluster n Cmd → MrAndRaft.Event n Cmd → Prop)
    [∀ s e, Decidable (ok s e)] (P : Cluster n Cmd → Prop) [DecidablePred P]
    (es : List (MrAndRaft.Event n Cmd))
    (h : (History.exec (fun s e => decide (ok s e)) Cluster.step Cluster.init es).any
      fun s => decide (P s)) :
    ∃ s σ, Run (fun _ => 1) (Kept ok) (s :: σ) ∧ P s.cluster := by
  obtain ⟨t, τ, hrun, hP⟩ := exists_run ok P es h
  obtain ⟨s, σ, hσ, rfl, -⟩ := exists_prompt hrun fun _ => 1
  exact ⟨s, σ, hσ, hP⟩

end Prompt

end Aliased

end MrAndRaft
