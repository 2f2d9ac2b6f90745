import MrAndRaft.Raft.ApplyStream
import MrAndRaft.Raft.Commit

/-! What the peers hand over to their services is one sequence of commands: every peer has handed
over a prefix of it, at every moment. -/

namespace MrAndRaft

variable {n : Nat} {Cmd : Type}

namespace Raft

def handedOver (rf : Raft Cmd) : List Cmd := rf.applyCh.map (·.command)

def Numbered (rf : Raft Cmd) : Prop :=
  ∀ (i : Nat) (m : ApplyMsg Cmd), rf.applyCh[i]? = some m → m = ⟨true, m.command, i + 1⟩

theorem Streams.numbered {rf : Raft Cmd} (h : rf.Streams)
    (hvalid : ∀ m ∈ rf.applyCh, m.commandValid = true) : rf.Numbered := by
  intro i m hm
  have hindex : (rf.applyCh.map (·.commandIndex))[i]? = some m.commandIndex := by simp [hm]
  have hlt := (List.getElem?_eq_some_iff.mp hindex).1
  rw [h] at hindex hlt
  rw [List.length_range'] at hlt
  rw [List.getElem?_range' hlt] at hindex
  obtain ⟨valid, command, index⟩ := m
  have hv : valid = true := hvalid _ (List.mem_of_getElem? hm)
  have hi : 1 + 1 * i = index := Option.some.inj hindex
  rw [hv, ← hi, Nat.one_mul, Nat.add_comm]

end Raft

variable [Inhabited Cmd] {ok : Cluster n Cmd → Event n Cmd → Prop} {σ : List (Cluster n Cmd)}
  {s t : Cluster n Cmd}

theorem Run.valid (h : Run ok σ) :
    ∀ s ∈ σ, ∀ p, ∀ m ∈ (s.peer p).applyCh, m.commandValid = true := by
  refine History.Run.forall_mem h (by simp [Cluster.init, Raft.make, Raft.readPersist]) ?_
  intro s e s' ih hs p m hm
  rcases (step_spec hs.2).peer_cases p with hp | ⟨-, heq⟩
  · obtain ⟨msgs, hmsgs, -, hd⟩ := hp.handsOver
    rcases List.mem_append.mp (hmsgs ▸ hm) with hm | hm
    · exact ih p m hm
    · exact hd.valid m hm
  · rw [heq] at hm
    cases hsaved : s.saved p <;> simp [hsaved, Raft.make, Raft.readPersist] at hm

theorem Run.numbered (h : Run ok σ) (hs : s ∈ σ) (p : Fin n) : (s.peer p).Numbered :=
  (h.streams s hs p).numbered (h.valid s hs p)

theorem Run.handedOver_agree (h : Run Steady σ) (hs : s ∈ σ) (ht : t ∈ σ) {p q : Fin n} {i : Nat}
    {a b : Cmd} (ha : (s.peer p).handedOver[i]? = some a) (hb : (t.peer q).handedOver[i]? = some b) :
    a = b := by
  rw [Raft.handedOver, List.getElem?_map] at ha hb
  obtain ⟨m, hm, rfl⟩ := Option.map_eq_some_iff.mp ha
  obtain ⟨m', hm', rfl⟩ := Option.map_eq_some_iff.mp hb
  obtain ⟨u, P, x, hP, hx, hcmd⟩ := h.applied_chosen s hs p m (List.mem_of_getElem? hm)
  obtain ⟨v, R, y, hR, hy, hcmd'⟩ := h.applied_chosen t ht q m' (List.mem_of_getElem? hm')
  rw [h.numbered hs p i m hm] at hx
  rw [h.numbered ht q i m' hm'] at hy
  rw [← hcmd, ← hcmd', hP.agree h hR hx hy]

theorem Run.handedOver_prefix (h : Run Steady σ) (hs : s ∈ σ) (ht : t ∈ σ) {p q : Fin n}
    (hle : (s.peer p).handedOver.length ≤ (t.peer q).handedOver.length) :
    (s.peer p).handedOver <+: (t.peer q).handedOver := by
  rw [List.prefix_iff_getElem?]
  intro i hi
  have hq := List.getElem?_eq_getElem (hi.trans_le hle)
  rw [hq, h.handedOver_agree hs ht (List.getElem?_eq_getElem hi) hq]

theorem Run.exists_stream (h : Run Steady σ) :
    ∃ cmds : List Cmd, (cmds = [] ∨ ∃ s ∈ σ, ∃ p, cmds = (s.peer p).handedOver) ∧
      ∀ s ∈ σ, ∀ p, (s.peer p).handedOver <+: cmds := by
  let streams := σ.flatMap fun s => (List.finRange n).map fun p => (s.peer p).handedOver
  have hmem {L : List Cmd} : L ∈ streams ↔ ∃ s ∈ σ, ∃ p, L = (s.peer p).handedOver := by
    simp [streams, eq_comm]
  have hcomp : ∀ L ∈ streams, ∀ R ∈ streams, L <+: R ∨ R <+: L := by
    intro L hL R hR
    obtain ⟨s, hs, p, rfl⟩ := hmem.mp hL
    obtain ⟨t, ht, q, rfl⟩ := hmem.mp hR
    exact (Nat.le_total _ _).imp (h.handedOver_prefix hs ht) (h.handedOver_prefix ht hs)
  obtain ⟨cmds, hcmds, hall⟩ := Prefix.exists_longest hcomp
  exact ⟨cmds, hcmds.imp_right hmem.mp, fun s hs p => hall _ (hmem.mpr ⟨s, hs, p, rfl⟩)⟩

end MrAndRaft
