import MrAndRaft.Lib.Simulation
import MrAndRaft.Lock.Grants
import MrAndRaft.Raft.Aliasing
import MrAndRaft.Raft.OneStream

/-! The lock servers, each on the Raft peer it was started with.  A server takes from `applyCh` what
its own peer hands over and asks its own peer whether it is leader; that all servers then work
through the same operations is what Raft is for. -/

namespace MrAndRaft

variable {n : Nat} {Cmd : Type} [Inhabited Cmd]

theorem Step.exists_peer {s s' : Cluster n Cmd}
    {e : Event n Cmd} (h : Step s e s') : ∃ p, ∀ q, q ≠ p → s'.peer q = s.peer q := by
  cases h with
  | persist p | sendHeartBeats p => exact ⟨p, fun _ _ => rfl⟩
  | becomeCandidate p | start p | crash p => exact ⟨p, fun _ hq => Function.update_of_ne hq _ _⟩
  | requestVote k c | appendEntries k c => exact ⟨c.dst, fun _ hq => Function.update_of_ne hq _ _⟩
  | receivedVote k c | heartBeat k c => exact ⟨c.dst, fun _ _ => rfl⟩
  | sendRequestVote k c | sendAppendEntries k c =>
    exact ⟨c.src, fun _ hq => Function.update_of_ne hq _ _⟩

theorem Aliased.exists_peer {s s' : Aliased n Cmd} {e : Aliased.Event n Cmd}
    (h : s.step e = .ok s') : ∃ p, ∀ q, q ≠ p → s'.peer q = s.peer q := by
  cases e with
  | encode k =>
    obtain ⟨c, -⟩ : ∃ c, s.calls[k]? = some c := by
      cases hc : s.calls[k]? with
      | none => simp [step, hc] at h
      | some c => exact ⟨c, rfl⟩
    rw [encode_eq h]
    exact ⟨c.src, fun _ _ => rfl⟩
  | step e₀ c =>
    obtain ⟨t, -, ht, rfl⟩ := step_eq h
    exact (step_spec ht).exists_peer

namespace RaftLock

variable {K ID : Type}

/-- `next p` counts what server `p` has taken from its `applyCh`, `giving p` is the pending call of
its `giveLockToOwner`. -/
structure Replicated (n : Nat) (K ID : Type) where
  raft : Aliased n (Op K ID)
  server : Fin n → LockServer K ID
  next : Fin n → Nat
  giving : Fin n → Option (Grant K ID)
  calls : List (Grant K ID)
  events : List (Event K ID)
  trace : List (Happening n K ID)

namespace Replicated

inductive Action (n : Nat) (K ID : Type) where
  | raft (e : Aliased.Event n (Op K ID))
  | apply (p : Fin n)
  | give (p : Fin n)
  | deliver (k : Nat)

def isLeader (s : Replicated n K ID) (p : Fin n) : Bool := (s.raft.peer p).state = .leader

def restart (s : Replicated n K ID) : Aliased.Event n (Op K ID) → Replicated n K ID
  | .step (.crash p) _ => { s with
      server := Function.update s.server p .start
      next := Function.update s.next p 0
      giving := Function.update s.giving p none }
  | _ => s

section

variable [Inhabited (Op K ID)]

def init (cap : Fin n → Nat) : Replicated n K ID where
  raft := .init cap
  server _ := .start
  next _ := 0
  giving _ := none
  calls := []
  events := []
  trace := []

variable [DecidableEq K] [DecidableEq ID] [Inhabited ID]

/-- `none` if there is no such step.  A server takes no further message before
`giveLockToOwner` is done. -/
def step (clerkEnds : ID → Bool) (s : Replicated n K ID) :
    Action n K ID → Option (Replicated n K ID)
  | .raft e => do
    let raft ← (s.raft.step e).toOption
    return { s.restart e with raft }
  | .apply p => do
    if (s.giving p).isSome then none
    else
      let msg ← (s.raft.peer p).applyCh[s.next p]?
      let (server, events, owner) := (s.server p).applyMsg (s.isLeader p) msg
      return { s with
        server := Function.update s.server p server
        next := Function.update s.next p (s.next p + 1)
        giving := Function.update s.giving p (owner.map fun id => ⟨s.next p, msg.command.key, id⟩)
        events := s.events ++ events
        trace := if msg.commandValid && (s.server p).isNew msg.command then
          .applied p (s.next p) msg.command :: s.trace else s.trace }
  | .give p => do
    let g ← s.giving p
    let s' := { s with giving := Function.update s.giving p none }
    -- `giveLockToOwner` asks `isLeader` again before it looks for the clerk
    if s.isLeader p && clerkEnds g.id then return { s' with calls := g :: s.calls } else return s'
  | .deliver k => do
    let g ← s.calls[k]?
    return { s with
      calls := s.calls.eraseIdx k
      events := s.events ++ [⟨.acquireLockOp, .clientEvent, g.key, g.id⟩]
      trace := .received g :: s.trace }

def Run (cap : Fin n → Nat) (clerkEnds : ID → Bool)
    (ok : Replicated n K ID → Action n K ID → Prop) (σ : List (Replicated n K ID)) : Prop :=
  History.Run (init cap) (fun s a s' => ok s a ∧ s.step clerkEnds a = some s') σ

end

def toService (s : Replicated n K ID) : Service n K ID where
  node p := ⟨s.server p, s.next p, s.isLeader p, s.giving p⟩
  calls := s.calls
  events := s.events
  trace := s.trace

section

variable [Inhabited (Op K ID)] {s s' : Replicated n K ID}

omit [Inhabited (Op K ID)] in
theorem node_update (s : Replicated n K ID) (p : Fin n) (server : LockServer K ID) (next : Nat)
    (giving : Option (Grant K ID)) :
    (fun q => (⟨Function.update s.server p server q, Function.update s.next p next q, s.isLeader q,
      Function.update s.giving p giving q⟩ : Node K ID)) =
      Function.update s.toService.node p ⟨server, next, s.isLeader p, giving⟩ := by
  funext q
  by_cases hq : q = p
  · subst hq
    simp
  · simp [hq, toService]

theorem toService_raft {raft : Aliased n (Op K ID)} {e : Aliased.Event n (Op K ID)}
    (hstep : s.raft.step e = .ok raft) :
    ∃ p b, toService { s with raft } = s.toService.setNode p { s.toService.node p with isLeader := b } := by
  obtain ⟨p, hp⟩ := Aliased.exists_peer hstep
  refine ⟨p, decide ((raft.peer p).state = .leader), ?_⟩
  simp only [toService, Service.setNode, Service.mk.injEq, and_true]
  funext q
  by_cases hq : q = p
  · subst hq
    simp [isLeader]
  · simp [isLeader, hq, hp q hq]

variable [DecidableEq K] [DecidableEq ID] [Inhabited ID] {ops : List (Op K ID)}
  {cap : Fin n → Nat} {clerkEnds : ID → Bool}

theorem toService_apply {p : Fin n} (hnum : (s.raft.peer p).Numbered)
    (hpre : (s.raft.peer p).handedOver <+: ops) (hstep : s.step clerkEnds (.apply p) = some s') :
    s.toService.step ops clerkEnds (.apply p) = .ok s'.toService := by
  simp only [step] at hstep
  split at hstep
  · cases hstep
  rename_i hfree
  obtain ⟨msg, hmsg, hstep⟩ := Option.bind_eq_some_iff.mp hstep
  cases hstep
  have hop : ops[s.next p]? = some msg.command := by
    refine Prefix.getElem? hpre ?_
    rw [Raft.handedOver, List.getElem?_map, hmsg]
    rfl
  obtain ⟨valid, op, index⟩ := msg
  obtain ⟨rfl, -, rfl⟩ := ApplyMsg.mk.inj (hnum _ _ hmsg)
  have hbusy : (s.toService.node p).giving.isSome = false := by simpa [toService] using hfree
  simp only [Service.step, hbusy, Bool.false_eq_true, if_false]
  rw [show ops[(s.toService.node p).next]? = some op from hop]
  refine congrArg Except.ok (Service.mk.injEq .. ▸ ⟨?_, rfl, rfl, rfl⟩)
  exact (node_update s p _ _ _).symm

theorem toService_give {p : Fin n} (hstep : s.step clerkEnds (.give p) = some s') :
    s.toService.step ops clerkEnds (.give p) = .ok s'.toService := by
  obtain ⟨g, hg, hstep⟩ := Option.bind_eq_some_iff.mp hstep
  have hnode : (s.toService.node p).giving = some g := hg
  have hset : (toService { s with giving := Function.update s.giving p none }).node =
      Function.update s.toService.node p { s.toService.node p with giving := none } := by
    have h := node_update s p (s.server p) (s.next p) none
    rwa [Function.update_eq_self, Function.update_eq_self] at h
  simp only [Service.step, hnode]
  split at hstep <;> cases hstep
  · rw [if_pos ‹_›]
    exact congrArg Except.ok (Service.mk.injEq .. ▸ ⟨hset.symm, rfl, rfl, rfl⟩)
  · rw [if_neg ‹_›]
    exact congrArg Except.ok (Service.mk.injEq .. ▸ ⟨hset.symm, rfl, rfl, rfl⟩)

theorem toService_deliver {k : Nat} (hstep : s.step clerkEnds (.deliver k) = some s') :
    s.toService.step ops clerkEnds (.deliver k) = .ok s'.toService := by
  obtain ⟨g, hg, hstep⟩ := Option.bind_eq_some_iff.mp hstep
  cases hstep
  simp only [Service.step, show s.toService.calls[k]? = some g from hg]
  rfl

def Within (good : Service n K ID → RaftLock.Action n → Prop) (s : Replicated n K ID) :
    Action n K ID → Prop
  | .raft e => s.raft.Kept Steady e
  | .apply p => good s.toService (.apply p)
  | .give p => good s.toService (.give p)
  | .deliver k => good s.toService (.deliver k)

variable {good : Service n K ID → RaftLock.Action n → Prop} {σ : List (Replicated n K ID)}

theorem raft_step {a : Action n K ID} (hwithin : s.Within good a)
    (hstep : s.step clerkEnds a = some s') :
    s'.raft = s.raft ∨ ∃ e, s.raft.Kept Steady e ∧ s.raft.step e = .ok s'.raft := by
  cases a with
  | raft e =>
    obtain ⟨raft, hraft, hstep⟩ := Option.bind_eq_some_iff.mp hstep
    cases hstep
    exact .inr ⟨e, hwithin, History.toOption_eq_some hraft⟩
  | apply p =>
    simp only [step] at hstep
    split at hstep
    · cases hstep
    obtain ⟨msg, -, hstep⟩ := Option.bind_eq_some_iff.mp hstep
    cases hstep
    exact .inl rfl
  | give p =>
    obtain ⟨g, -, hstep⟩ := Option.bind_eq_some_iff.mp hstep
    split at hstep <;> cases hstep <;> exact .inl rfl
  | deliver k =>
    obtain ⟨g, -, hstep⟩ := Option.bind_eq_some_iff.mp hstep
    cases hstep
    exact .inl rfl

theorem Run.raft (h : Run cap clerkEnds (Within good) σ) :
    ∃ τ, Aliased.Run cap (Aliased.Kept Steady) τ ∧ (∀ s ∈ σ, s.raft ∈ τ) ∧
      ∀ t ∈ τ, ∃ s ∈ σ, s.raft = t := by
  cases σ with
  | nil => cases h
  | cons s σ =>
    have hsim : ∀ (s : Replicated n K ID) a s' t, s.raft = t →
        s.Within good a ∧ s.step clerkEnds a = some s' →
        s'.raft = t ∨ ∃ e t', (t.Kept Steady e ∧ t.step e = .ok t') ∧ s'.raft = t' := by
      rintro s a s' _ rfl ⟨hwithin, hstep⟩
      exact (raft_step hwithin hstep).imp_right fun ⟨e, he⟩ => ⟨e, _, he, rfl⟩
    obtain ⟨_, τ, hτ, rfl, hall, hback⟩ :=
      History.Run.refines (R := fun s t => s.raft = t) h rfl hsim
    refine ⟨_, hτ, List.forall_mem_cons.mpr ⟨by simp, fun t ht => ?_⟩, hback⟩
    obtain ⟨_, hmem, rfl⟩ := hall t ht
    exact hmem

theorem toService_step (hnum : ∀ p, (s.raft.peer p).Numbered)
    (hpre : ∀ p, (s.raft.peer p).handedOver <+: ops) (helect : ∀ s p b, good s (.elect p b))
    {a : Action n K ID} (hwithin : s.Within good a) (hstep : s.step clerkEnds a = some s') :
    ∃ a', good s.toService a' ∧ s.toService.step ops clerkEnds a' = .ok s'.toService := by
  cases a with
  | raft e =>
    obtain ⟨raft, hraft, hstep⟩ := Option.bind_eq_some_iff.mp hstep
    cases hstep
    obtain ⟨p, b, heq⟩ := toService_raft (History.toOption_eq_some hraft)
    have hrestart : s.restart e = s := by
      cases e with
      | encode k => rfl
      | step e c =>
        cases e with
        | crash p => exact absurd hwithin.1.1 (by simp [CrashFree, MrAndRaft.Event.crashFree])
        | _ => rfl
    refine ⟨.elect p b, helect _ p b, ?_⟩
    rw [hrestart, heq]
    rfl
  | apply p => exact ⟨.apply p, hwithin, toService_apply (hnum p) (hpre p) hstep⟩
  | give p => exact ⟨.give p, hwithin, toService_give hstep⟩
  | deliver k => exact ⟨.deliver k, hwithin, toService_deliver hstep⟩

theorem Run.exists_service (helect : ∀ s p b, good s (.elect p b))
    (h : Run cap clerkEnds (Within good) σ) :
    ∃ ops : List (Op K ID), (ops = [] ∨ ∃ s ∈ σ, ∃ p, ops = (s.raft.peer p).handedOver) ∧
      Service.Run ops clerkEnds good (σ.map toService) := by
  obtain ⟨υ, hυ, hpeers, hservers⟩ := h.raft
  obtain ⟨τ, hτ, hcluster, hback⟩ := hυ.cluster
  obtain ⟨ops, hops, hpre⟩ := hτ.exists_stream
  have hmem (s) (hs : s ∈ σ) : s.raft.cluster ∈ τ := hcluster _ (hpeers s hs)
  refine ⟨ops, hops.imp_right ?_, ?_⟩
  · rintro ⟨t, ht, p, rfl⟩
    obtain ⟨u, hu, rfl⟩ := hback t ht
    obtain ⟨s, hs, rfl⟩ := hservers u hu
    exact ⟨s, hs, p, rfl⟩
  · exact History.Run.map toService h fun s a s' hs _ hstep =>
      toService_step (hτ.numbered (hmem s hs)) (hpre _ (hmem s hs)) helect hstep.1 hstep.2

omit [Inhabited (Op K ID)] in
theorem replays {ok : Service n K ID → RaftLock.Action n → Prop} {τ : List (Service n K ID)}
    (h : Service.Run ops clerkEnds ok τ) : ∀ s ∈ τ, ∀ p,
      (s.node p).server.receiver = replay ops (s.node p).next ∧ (s.node p).next ≤ ops.length := by
  refine History.Run.forall_mem h (fun p => ⟨rfl, Nat.zero_le _⟩) ?_
  intro s a s' ih hs q
  have hset (p : Fin n) {node : Node K ID}
      (hnode : node.server.receiver = replay ops node.next ∧ node.next ≤ ops.length) :
      (Function.update s.node p node q).server.receiver =
        replay ops (Function.update s.node p node q).next ∧
        (Function.update s.node p node q).next ≤ ops.length := by
    by_cases hq : q = p
    · subst hq
      simpa using hnode
    · simpa [hq] using ih q
  obtain ⟨-, hs⟩ := hs
  cases a with
  | elect p b =>
    cases hs
    exact hset p (ih p)
  | apply p =>
    simp only [Service.step] at hs
    split at hs
    · cases hs
    split at hs
    · cases hs
    rename_i op hop
    cases hs
    refine hset p ⟨?_, (List.getElem?_eq_some_iff.mp hop).1⟩
    rw [replay_succ hop, ← (ih p).1]
    exact LockServer.receiver_applyMsg _ _ rfl
  | give p =>
    simp only [Service.step] at hs
    split at hs
    · cases hs
    split at hs <;> cases hs <;> exact hset p (ih p)
  | deliver k =>
    simp only [Service.step] at hs
    split at hs <;> cases hs
    exact ih q
  | restart p =>
    cases hs
    exact hset p ⟨rfl, Nat.zero_le _⟩

/-- On a steady Raft whose requests are not overwritten the servers are replicas: they work through
one list of operations, which Raft has handed over, and each holds what its part of the list
amounts to. -/
theorem Run.one_service (h : Run cap clerkEnds (Within fun _ _ => True) σ) :
    ∃ ops : List (Op K ID), (ops = [] ∨ ∃ s ∈ σ, ∃ p, ops = (s.raft.peer p).handedOver) ∧
      Service.Run ops clerkEnds (fun _ _ => True) (σ.map toService) ∧
      ∀ s ∈ σ, ∀ p, s.next p ≤ ops.length ∧ (s.server p).store = (replay ops (s.next p)).state ∧
        (s.server p).lastApplied = (replay ops (s.next p)).last := by
  obtain ⟨ops, hops, hrun⟩ := h.exists_service fun _ _ _ => trivial
  refine ⟨ops, hops, hrun, fun s hs p => ?_⟩
  obtain ⟨hreceiver, hle⟩ := replays hrun s.toService (List.mem_map_of_mem hs) p
  exact ⟨hle, congrArg ExactlyOnce.Receiver.state hreceiver,
    congrArg ExactlyOnce.Receiver.last hreceiver⟩

end

instance [Inhabited (Op K ID)] (s : Replicated n K ID) :
    (a : Action n K ID) → Decidable (s.Within (fun _ _ => True) a)
  | .raft e => inferInstanceAs (Decidable (s.raft.Kept Steady e))
  | .apply _ | .give _ | .deliver _ => isTrue trivial

instance : Inhabited (Op Nat Nat) := ⟨⟨.lockOp, 0, 0, 0⟩⟩

/-- Client 1 locks key 0: peer 0 is elected, replicates the operation to peer 1 and commits it;
both servers apply it, and server 0 lets the client know. -/
def locked : List (Action 3 Nat Nat) :=
  ([.persist 0, .becomeCandidate 0, .persist 1, .requestVote 0, .receivedVote 0,
    .sendRequestVote 0, .start 0 ⟨.lockOp, 0, 1, 1⟩, .persist 0, .sendHeartBeats 0].map alone) ++
  [.raft (.encode 2)] ++
  ([.appendEntries 2, .persist 1, .heartBeat 2, .sendAppendEntries 2, .persist 0,
    .sendHeartBeats 0].map alone) ++
  [.raft (.encode 4), alone (.appendEntries 4), .apply 0, .give 0, .deliver 0, .apply 1]
where
  alone (e : MrAndRaft.Event 3 (Op Nat Nat)) : Action 3 Nat Nat := .raft (.step e 2)

theorem one_service_locked : ∃ (s : Replicated 3 Nat Nat) (ops : List (Op Nat Nat)),
    s.trace = [.applied 1 0 ⟨.lockOp, 0, 1, 1⟩, .received ⟨0, 0, 1⟩,
      .applied 0 0 ⟨.lockOp, 0, 1, 1⟩] ∧
    (s.server 0).store = (replay ops 1).state ∧ (s.server 1).store = (replay ops 1).state := by
  obtain ⟨s, σ, hrun, htrace, h0, h1⟩ := History.exists_trace
    (fun (s : Replicated 3 Nat Nat) a =>
      if s.Within (fun _ _ => True) a then s.step (fun id => id = 1) a else none)
    (fun s a s' h => Option.ite_none_right_eq_some.mp h) (init fun _ => 1)
    (fun σ => σ.head?.map (·.trace) = some [.applied 1 0 ⟨.lockOp, 0, 1, 1⟩, .received ⟨0, 0, 1⟩,
        .applied 0 0 ⟨.lockOp, 0, 1, 1⟩] ∧
      σ.head?.map (·.next 0) = some 1 ∧ σ.head?.map (·.next 1) = some 1) locked (by decide +kernel)
  simp only [List.head?_cons, Option.map_some, Option.some.injEq] at htrace h0 h1
  obtain ⟨ops, -, -, hall⟩ := Run.one_service hrun
  have hs := hall s List.mem_cons_self
  exact ⟨s, ops, htrace, h0 ▸ (hs 0).2.1, h1 ▸ (hs 1).2.1⟩

end Replicated

end RaftLock

end MrAndRaft
