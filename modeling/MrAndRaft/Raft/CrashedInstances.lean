import MrAndRaft.Raft.ApplyStream
import MrAndRaft.Raft.Deployment
import MrAndRaft.Raft.InRange
import MrAndRaft.Rpc.Instances

/-! Every Raft object the tests ever make, also one that was crashed and runs on without its
network and its persister. -/

namespace MrAndRaft.Deployed

open Cluster

variable {n : Nat} {Cmd : Type} [Inhabited Cmd] {P : Fin n → Raft Cmd → Prop}
  {A : AppendEntriesArgs Cmd → Prop}

def RequestOk (A : AppendEntriesArgs Cmd → Prop) : Request Cmd → Prop
  | .requestVote _ => True
  | .appendEntries args => A args

/-- `P` of the Raft object, and `A` of every request its goroutines are to send. -/
structure PeerOk (P : Fin n → Raft Cmd → Prop) (A : AppendEntriesArgs Cmd → Prop) (p : Fin n)
    (st : Peer n Cmd) : Prop where
  raft : P p st.raft
  unsent : ∀ w ∈ st.unsent, A w.args

namespace PeerOk

variable {p : Fin n} {st : Peer n Cmd}

omit [Inhabited Cmd]

theorem build (h : PeerOk P A p st) {requests : List (Fin n × AppendEntriesArgs Cmd)}
    (hreqs : ∀ x ∈ requests, A x.2) : ∀ w ∈ (st.build requests).unsent, A w.args := by
  intro w hw
  rcases List.mem_append.mp hw with hw | hw
  · exact h.unsent w hw
  · obtain ⟨x, hx, rfl⟩ := List.mem_map.mp hw
    exact hreqs x hx

theorem move (h : PeerOk P A p st) (cap : Nat) : ∀ w ∈ (st.move cap).unsent, A w.args := by
  intro w hw
  obtain ⟨w₀, hw₀, rfl⟩ := List.mem_map.mp hw
  exact h.unsent w₀ hw₀

theorem append (h : PeerOk P A p st) (hA : ∀ args index entry, A args → A (args.overwrite index entry))
    (rt : Runtime) (entry : LogEntry Cmd) : ∀ w ∈ (st.append rt entry).unsent, A w.args := by
  unfold Peer.append
  split
  · intro w hw
    obtain ⟨w₀, hw₀, rfl⟩ := List.mem_map.mp hw
    split
    · exact hA _ _ _ (h.unsent w₀ hw₀)
    · exact h.unsent w₀ hw₀
  · exact h.move _

end PeerOk

variable {rt : Runtime}

theorem keeps_act (h : Local P A) (hA : ∀ args index entry, A args → A (args.overwrite index entry))
    (p : Fin n) (st : Peer n Cmd) (a : Act Cmd) (st' : Peer n Cmd)
    (saved : Option (Persistent Cmd)) (reqs : List (Fin n × Request Cmd)) (hP : PeerOk P A p st)
    (hact : Deployed.act rt p st a = some (st', saved, reqs)) :
    PeerOk P A p st' ∧ (∀ d, saved = some d → P p (Raft.make (some d))) ∧
      ∀ x ∈ reqs, RequestOk A x.2 := by
  cases act_spec hact with
  | persist =>
    refine ⟨⟨hP.raft, hP.unsent⟩, ?_, by simp⟩
    rintro _ ⟨⟩
    exact h.restart p _ hP.raft
  | becomeCandidate hwait hrf =>
    obtain ⟨last, hlast, rfl, rfl⟩ := Raft.becomeCandidate_spec hrf
    refine ⟨⟨h.candidate p _ hP.raft, hP.unsent⟩, by simp, fun x hx => ?_⟩
    obtain ⟨q, -, rfl⟩ := List.mem_map.mp hx
    trivial
  | sendHeartBeats hwait hreqs =>
    refine ⟨⟨hP.raft, hP.build fun x hx => ?_⟩, by simp, by simp⟩
    rcases Raft.sendHeartBeats_spec hreqs with ⟨-, rfl⟩ | ⟨hlead, -, hall⟩
    · cases hx
    · exact h.heartBeat p x.1 _ x.2 hP.raft hlead (hall _ hx)
  | @start command rf out hrf =>
    refine ⟨⟨h.started p _ rf command hP.raft (Raft.start_spec hrf), ?_⟩, by simp, by simp⟩
    dsimp only
    split
    · exact hP.append hA rt _
    · exact hP.unsent
  | @encode i w hw =>
    refine ⟨⟨hP.raft, fun w' hw' => hP.unsent w' (List.mem_of_mem_eraseIdx hw')⟩, by simp, ?_⟩
    simpa [RequestOk] using hP.unsent w (List.mem_of_getElem? hw)

theorem keeps_of_local (h : Local P A)
    (hA : ∀ args index entry, A args → A (args.overwrite index entry)) :
    Labrpc.Keeps (behaviour rt n Cmd) (PeerOk P A) (fun p d => P p (Raft.make (some d)))
      (RequestOk A) where
  boot p saved hsaved := by
    refine ⟨?_, by simp [behaviour, boot]⟩
    cases saved with
    | none => exact h.make p
    | some d => exact hsaved d rfl
  act := keeps_act h hA
  handle p st q st' r hP hreq hhandle := by
    cases q with
    | requestVote args =>
      obtain ⟨⟨rf, reply⟩, hrf, hhandle⟩ := Option.map_eq_some_iff.mp hhandle
      cases hhandle
      exact ⟨h.voted p _ rf args reply hP.raft (Raft.requestVote_spec hrf), hP.unsent⟩
    | appendEntries args =>
      obtain ⟨⟨rf, reply⟩, hrf, hhandle⟩ := Option.map_eq_some_iff.mp hhandle
      cases hhandle
      refine ⟨h.appended p _ rf args reply hP.raft hreq (Raft.appendEntries_spec hrf), ?_⟩
      dsimp only
      split
      · exact hP.move _
      · exact hP.unsent
  release p st q r st' hP hrelease := by
    cases q <;> simp only [behaviour, Deployed.release, Option.ite_none_right_eq_some] at hrelease <;>
      exact Option.some.inj hrelease.2 ▸ ⟨hP.raft, hP.unsent⟩
  accept p st server q r st' reqs hP hreq haccept := by
    cases q with
    | requestVote args =>
      cases r with
      | appendEntries => cases haccept
      | requestVote reply =>
        obtain ⟨rf, out, hrf⟩ : ∃ rf out, st.raft.sendRequestVote n reply = (rf, out) := ⟨_, _, rfl⟩
        simp only [behaviour, Deployed.accept, hrf] at haccept
        cases haccept
        have hcounted := Raft.sendRequestVote_spec hrf
        refine ⟨⟨h.counted p _ rf reply out hP.raft hcounted, hP.build fun x hx => ?_⟩, by simp⟩
        cases hcounted with
        | deposed | refused | counted => cases hx
        | elected =>
          obtain ⟨q', -, heq⟩ := List.mem_map.mp hx
          cases heq
          exact h.first
    | appendEntries args =>
      cases r with
      | requestVote => cases haccept
      | appendEntries reply =>
        obtain ⟨rf, hrf, haccept⟩ := Option.map_eq_some_iff.mp haccept
        cases haccept
        have hacked := Raft.sendAppendEntries_spec hrf
        exact ⟨⟨h.acknowledged p server _ rf args reply hP.raft hreq hacked, hP.unsent⟩, by simp⟩

omit [Inhabited Cmd] in
theorem keepsFirst_overwrite {args : AppendEntriesArgs Cmd} {index : Nat} {entry : LogEntry Cmd}
    (h : KeepsFirst args) : KeepsFirst (args.overwrite index entry) := by
  unfold AppendEntriesArgs.overwrite
  split <;> exact h

section

variable {wire : Labrpc.Wire (Request Cmd) Reply}
  {w : Labrpc.World n (Peer n Cmd) (Request Cmd) Reply (Persistent Cmd)}
  {ω : List (Labrpc.World n (Peer n Cmd) (Request Cmd) Reply (Persistent Cmd))}
  {j : Nat} {inst : Labrpc.Instance n} {st : Peer n Cmd}

theorem never_panics (hrun : Labrpc.World.Run (behaviour rt n Cmd) (wiring Cmd) wire ω) (hw : w ∈ ω)
    (hinst : w.config.instances[j]? = some inst) (hst : w.states[j]? = some st) :
    (st.raft.becomeCandidate inst.name).isSome ∧ (st.raft.sendHeartBeats inst.name).isSome ∧
      (∀ command, (st.raft.start inst.name command).isSome) ∧
      (∀ args, (st.raft.requestVote args).isSome) ∧ (∀ args, (st.raft.appendEntries args).isSome) ∧
      ∀ (server : Fin n) args reply, (st.raft.sendAppendEntries n server args reply).isSome := by
  have hkeeps : Labrpc.Keeps (behaviour rt n Cmd) _ _ _ :=
    keeps_of_local local_inRange fun _ _ _ => keepsFirst_overwrite
  have h : InRange n st.raft := ((hrun.kept hkeeps w hw).states j inst _ hinst hst).raft
  have hlog := h.sentinel.ne_nil
  exact ⟨Raft.becomeCandidate_isSome _ hlog, Raft.sendHeartBeats_isSome _ h.indexed hlog,
    fun command => Raft.start_isSome _ command h.indexed,
    fun args => Raft.requestVote_isSome args hlog, Raft.appendEntries_isSome,
    fun server args reply => Raft.sendAppendEntries_isSome server args reply h.indexed⟩

end

theorem never_panics_restarted : ∃ (w : Labrpc.World 3 (Peer 3 Nat) (Request Nat) Reply (Persistent Nat))
    (rf : Raft Nat), w.config.instances.length = 4 ∧ w.config.rafts 0 = some 3 ∧
      w.states[0]?.map Peer.raft = some rf ∧ rf.state = .leader ∧ (rf.sendHeartBeats (0 : Fin 3)).isSome := by
  obtain ⟨w, ω, hrun, hlen, hrafts, hinst, hst⟩ := History.exists_trace
    (fun (w : Labrpc.World 3 (Peer 3 Nat) (Request Nat) Reply (Persistent Nat)) e =>
      w.step (behaviour doubling 3 Nat) (wiring Nat) ⟨fun _ => 1, fun _ => 1⟩ e)
    (fun _ _ _ h => h) .init
    (fun ω => ω.head?.map (·.config.instances.length) = some 4 ∧
      ω.head?.map (·.config.rafts 0) = some (some 3) ∧
      ω.head?.map (·.config.instances[0]?) = some (some ⟨0, 0, 0⟩) ∧
      ω.head?.map (·.states[0]?.map (·.raft.state)) = some (some .leader))
    (elected ++ .op (.start1 0) :: List.replicate 21 .command) (by decide +kernel)
  simp only [List.head?_cons, Option.map_some, Option.some.injEq] at hlen hrafts hinst hst
  obtain ⟨st, hst, hlead⟩ := Option.map_eq_some_iff.mp hst
  exact ⟨w, st.raft, hlen, hrafts, by rw [hst]; rfl, hlead,
    (never_panics hrun List.mem_cons_self hinst hst).2.1⟩

end MrAndRaft.Deployed
