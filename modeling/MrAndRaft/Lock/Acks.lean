import MrAndRaft.Lock.Clerk
import MrAndRaft.Lock.Grants

/-! Acknowledged requests.  A server that says `OK` has applied everything up to the
position of the operation it was asked for, so the operation took effect unless its
number was no longer new. -/

namespace MrAndRaft.RaftLock

open ExactlyOnce

variable {n : Nat} {K ID : Type} [DecidableEq K] [DecidableEq ID]

section Prefix

variable {ops : List (Op K ID)} {m : Nat} {op : Op K ID}

theorem replay_append (more : List (Op K ID)) (h : m ≤ ops.length) :
    replay (ops ++ more) m = replay ops m := by
  rw [replay, replay, List.take_append_of_le_length h]

theorem effective_append (more : List (Op K ID)) (h : m < ops.length) :
    Effective (ops ++ more) m op ↔ Effective ops m op := by
  rw [Effective, Effective, List.getElem?_append_left h, replay_append more h.le]

theorem Effective.lt_length (h : Effective ops m op) : m < ops.length :=
  (List.getElem?_eq_some_iff.mp h.1).1

theorem effective_concat
    (h : ∀ o ∈ ops, o.clientId = op.clientId → o.requestId < op.requestId) :
    Effective (ops ++ [op]) ops.length op := by
  refine ⟨by simp, fun r hr => ?_⟩
  rw [replay_append _ le_rfl] at hr
  rcases last_foldl_receive _ _ _ hr with hstart | ⟨o, ho, hclient, rfl⟩
  · cases hstart
  · exact h o (List.mem_of_mem_take ho) hclient

end Prefix

omit [DecidableEq K] in
theorem isSameOp_iff {o o' : Op K ID} :
    isSameOp o o' = true ↔ o.clientId = o'.clientId ∧ o.requestId = o'.requestId := by
  simp [isSameOp]

/-- `op` has been committed before, or its number exceeds its client's earlier ones. -/
def InOrder (committed : List (Op K ID)) (op : Op K ID) : Prop :=
  (∃ o ∈ committed, isSameOp op o) ∨
    ∀ o ∈ committed, o.clientId = op.clientId → o.requestId < op.requestId

instance (committed : List (Op K ID)) (op : Op K ID) : Decidable (InOrder committed op) :=
  inferInstanceAs (Decidable (_ ∨ _))

def AllEffective (ops : List (Op K ID)) : Prop :=
  ∀ m op, ops[m]? = some op → ∃ m' o, m' ≤ m ∧ Effective ops m' o ∧ isSameOp op o

theorem AllEffective.concat {ops : List (Op K ID)} {op : Op K ID} (h : AllEffective ops)
    (hop : InOrder ops op) : AllEffective (ops ++ [op]) := by
  have hold : ∀ m op', ops[m]? = some op' →
      ∃ m' o, m' ≤ m ∧ Effective (ops ++ [op]) m' o ∧ isSameOp op' o := by
    intro m op' hm
    obtain ⟨m', o, hle, heff, hsame⟩ := h m op' hm
    exact ⟨m', o, hle, (effective_append _ heff.lt_length).mpr heff, hsame⟩
  intro m op' hm
  rcases Nat.lt_or_ge m ops.length with hlt | hge
  · rw [List.getElem?_append_left hlt] at hm
    exact hold m op' hm
  · obtain rfl : m = ops.length := by
      have := (List.getElem?_eq_some_iff.mp hm).1
      simp at this
      omega
    obtain rfl : op = op' := by simpa using hm
    rcases hop with ⟨o, ho, hsame⟩ | hlt
    · obtain ⟨m, hm⟩ := List.mem_iff_getElem?.mp ho
      obtain ⟨m', o', hle, heff, hsame'⟩ := hold m o hm
      have hlen := (List.getElem?_eq_some_iff.mp hm).1
      refine ⟨m', o', by omega, heff, isSameOp_iff.mpr ?_⟩
      have h1 := isSameOp_iff.mp hsame
      have h2 := isSameOp_iff.mp hsame'
      exact ⟨h1.1.trans h2.1, h1.2.trans h2.2⟩
    · exact ⟨ops.length, op, le_rfl, effective_concat hlt, isSameOp_iff.mpr ⟨rfl, rfl⟩⟩

section Invariant

variable {committed : List (Op K ID)} {applied : List (Fin (n + 1) × Nat × Op K ID)}
  {p : Fin (n + 1)} {op : Op K ID} {r : Replica K ID}

/-- `p` has applied everything that took effect up to a position where `op` stands. -/
def Seen (committed : List (Op K ID)) (applied : List (Fin (n + 1) × Nat × Op K ID))
    (p : Fin (n + 1)) (op : Op K ID) : Prop :=
  ∃ m, committed[m]? = some op ∧ ∀ m' o, m' ≤ m → Effective committed m' o → (p, m', o) ∈ applied

structure Replica.Ok (committed : List (Op K ID)) (applied : List (Fin (n + 1) × Nat × Op K ID))
    (p : Fin (n + 1)) (r : Replica K ID) : Prop where
  next_le : r.next ≤ committed.length
  server : r.server.receiver = replay committed r.next
  sent : ∀ index, ∀ op ∈ r.server.sent index, ∃ m < r.next, committed[m]? = some op
  applied : ∀ m op, m < r.next → Effective committed m op → (p, m, op) ∈ applied

theorem Seen.commit (h : Seen committed applied p op) (more : List (Op K ID)) :
    Seen (committed ++ more) applied p op := by
  obtain ⟨m, hm, hall⟩ := h
  have hlt := (List.getElem?_eq_some_iff.mp hm).1
  refine ⟨m, by rw [List.getElem?_append_left hlt, hm], fun m' o hle heff => ?_⟩
  exact hall m' o hle ((effective_append more (by omega)).mp heff)

theorem Replica.Ok.commit (h : r.Ok committed applied p) (more : List (Op K ID)) :
    r.Ok (committed ++ more) applied p where
  next_le := by
    have := h.next_le
    simp only [List.length_append]
    omega
  server := by rw [replay_append more h.next_le, h.server]
  sent index op hop := by
    obtain ⟨m, hm, hop⟩ := h.sent index op hop
    exact ⟨m, hm, by rw [List.getElem?_append_left (hm.trans_le h.next_le), hop]⟩
  applied m op hm heff :=
    h.applied m op hm ((effective_append more (hm.trans_le h.next_le)).mp heff)

theorem Replica.Ok.start : Replica.Ok committed applied p .start where
  next_le := Nat.zero_le _
  server := rfl
  sent := by simp [Replica.start, LockServer.start, LockServer.sent]
  applied := by simp [Replica.start]

variable {applied' : List (Fin (n + 1) × Nat × Op K ID)}

theorem Seen.mono (h : Seen committed applied p op) (hsub : applied ⊆ applied') :
    Seen committed applied' p op := by
  obtain ⟨m, hm, hall⟩ := h
  exact ⟨m, hm, fun m' o hle heff => hsub (hall m' o hle heff)⟩

theorem Replica.Ok.mono (h : r.Ok committed applied p) (hsub : applied ⊆ applied') :
    r.Ok committed applied' p :=
  ⟨h.next_le, h.server, h.sent, fun m op hm heff => hsub (h.applied m op hm heff)⟩

theorem Replica.Ok.seen (h : r.Ok committed applied p) {index : Nat}
    (hop : op ∈ r.server.sent index) : Seen committed applied p op := by
  obtain ⟨m, hm, hop⟩ := h.sent index op hop
  exact ⟨m, hop, fun m' o hle => h.applied m' o (by omega)⟩

theorem Replica.Ok.apply [Inhabited ID] (h : r.Ok committed applied p) (isLeader : Bool)
    (hop : committed[r.next]? = some op) (hsub : applied ⊆ applied')
    (hnew : r.server.isNew op → (p, r.next, op) ∈ applied') :
    Replica.Ok committed applied' p { r with
      server := (r.server.applyMsg isLeader ⟨true, op, r.next + 1⟩).1, next := r.next + 1 } where
  next_le := (List.getElem?_eq_some_iff.mp hop).1
  server := by
    rw [replay_succ hop, ← h.server]
    exact LockServer.receiver_applyMsg _ _ rfl
  sent index o ho := by
    rw [LockServer.sent_applyMsg] at ho
    have hold : o ∈ r.server.sent index → ∃ m < r.next + 1, committed[m]? = some o := by
      intro ho
      obtain ⟨m, hm, ho⟩ := h.sent index o ho
      exact ⟨m, by omega, ho⟩
    split at ho
    · rcases List.mem_append.mp ho with ho | ho
      · exact hold ho
      · obtain rfl : o = op := by simpa using ho
        exact ⟨r.next, Nat.lt_succ_self _, hop⟩
    · exact hold ho
  applied m o hm heff := by
    rcases Nat.lt_succ_iff_lt_or_eq.mp hm with hm | rfl
    · exact hsub (h.applied m o hm heff)
    · obtain ⟨ho, hisNew⟩ := heff
      rw [hop] at ho
      cases ho
      rw [← h.server] at hisNew
      exact hnew ((r.server.isNew_iff op).mpr hisNew)

end Invariant

namespace MutexCall

variable (c : MutexCall n K ID) (p : Fin (n + 1))

omit [DecidableEq K] [DecidableEq ID] in
theorem restart_args : (c.restart p).args = c.args := by
  unfold restart
  split <;> [split; skip] <;> rfl

omit [DecidableEq K] [DecidableEq ID] in
theorem restart_server : (c.restart p).server = c.server := by
  unfold restart
  split <;> [split; skip] <;> rfl

variable {c p}

omit [DecidableEq K] [DecidableEq ID] in
theorem replied_of_restart {err : Err} (h : (c.restart p).handler = .replied err) :
    c.handler = .replied err := by
  unfold restart at h
  split at h
  · split at h
    · cases h
    · exact h
  · exact h

end MutexCall

namespace Session

def issued (s : Session n K ID) : List (MutexArgs K ID) := s.sends.map (·.args)

structure Numbered (clerk : ID → Clerk n) (issued : List (MutexArgs K ID)) : Prop where
  le : ∀ a ∈ issued, a.requestId ≤ (clerk a.clientId).requestId
  unique : ∀ a ∈ issued, ∀ b ∈ issued, isSameOp a.toOp b.toOp → a = b

structure Ok (s : Session n K ID) : Prop where
  numbered : Numbered s.clerk s.issued
  call : ∀ g ∈ s.sends, ∃ c, s.calls[g.call]? = some c ∧ c.args = g.args ∧ c.server = g.server
  args : ∀ c ∈ s.calls, c.args ∈ s.issued
  pending : ∀ e ∈ s.pending, e.2 ∈ s.issued.map MutexArgs.toOp
  committed : ∀ op ∈ s.committed, op ∈ s.issued.map MutexArgs.toOp
  replica : ∀ p, (s.replica p).Ok s.committed s.applied p
  replied : ∀ c ∈ s.calls, c.handler = .replied .ok →
    Seen s.committed s.applied c.server c.args.toOp
  returned : ∀ g ∈ s.sends, g.returned → Seen s.committed s.applied g.server g.args.toOp

variable {s s' : Session n K ID}

omit [DecidableEq K] [DecidableEq ID] in
theorem map_args_set {sends : List (Sending n K ID)} {i : Nat} {g g' : Sending n K ID}
    (hi : sends[i]? = some g) (h : g'.args = g.args) :
    (sends.set i g').map (·.args) = sends.map (·.args) := by
  rw [List.map_set, h]
  obtain ⟨hlt, rfl⟩ := List.getElem?_eq_some_iff.mp hi
  simp [← List.map_set]

omit [DecidableEq K] in
theorem Numbered.concat {clerk : ID → Clerk n} {issued : List (MutexArgs K ID)}
    (h : Numbered clerk issued) (key : K) (op : OpType) (id : ID) :
    Numbered (Function.update clerk id { clerk id with requestId := (clerk id).requestId + 1 })
      (issued ++ [⟨key, op, id, (clerk id).requestId + 1⟩]) := by
  have hle : ∀ a ∈ issued, a.clientId = id → a.requestId ≤ (clerk id).requestId := by
    rintro a ha rfl
    exact h.le a ha
  constructor
  · intro a ha
    rcases List.mem_append.mp ha with ha | ha
    · by_cases hid : a.clientId = id
      · have := hle a ha hid
        simp only [hid, Function.update_self]
        omega
      · rw [Function.update_of_ne hid]
        exact h.le a ha
    · obtain rfl := List.mem_singleton.mp ha
      simp
  · intro a ha b hb hsame
    obtain ⟨hclient, hnumber⟩ := isSameOp_iff.mp hsame
    rcases List.mem_append.mp ha with ha | ha <;> rcases List.mem_append.mp hb with hb | hb
    · exact h.unique a ha b hb hsame
    · obtain rfl := List.mem_singleton.mp hb
      have := hle a ha hclient
      simp only [MutexArgs.toOp] at hnumber
      omega
    · obtain rfl := List.mem_singleton.mp ha
      have := hle b hb hclient.symm
      simp only [MutexArgs.toOp] at hnumber
      omega
    · rw [List.mem_singleton.mp ha, List.mem_singleton.mp hb]

theorem Ok.setReplica (h : s.Ok) {p : Fin (n + 1)} {r : Replica K ID}
    (hr : r.Ok s.committed s.applied p) : (s.setReplica p r).Ok where
  numbered := h.numbered
  call := h.call
  args := h.args
  pending := h.pending
  committed := h.committed
  replica q := by
    by_cases hq : q = p
    · subst hq
      simpa [Session.setReplica] using hr
    · simpa [Session.setReplica, hq] using h.replica q
  replied := h.replied
  returned := h.returned

theorem Ok.setHandler (h : s.Ok) {k : Nat} {c : MutexCall n K ID} {handler : Handler}
    (hk : s.calls[k]? = some c)
    (hok : handler = .replied .ok → Seen s.committed s.applied c.server c.args.toOp) :
    (s.setHandler k c handler).Ok where
  numbered := h.numbered
  call g hg := by
    obtain ⟨c', hc', hargs, hserver⟩ := h.call g hg
    by_cases hgk : k = g.call
    · subst hgk
      obtain rfl : c = c' := Option.some.inj (hk.symm.trans hc')
      refine ⟨{ c with handler }, ?_, hargs, hserver⟩
      exact List.getElem?_set_self (List.getElem?_eq_some_iff.mp hk).1
    · exact ⟨c', (List.getElem?_set_ne hgk).trans hc', hargs, hserver⟩
  args c' hc' := by
    rcases List.mem_or_eq_of_mem_set hc' with hc' | rfl
    · exact h.args c' hc'
    · exact h.args c (List.mem_of_getElem? hk)
  pending := h.pending
  committed := h.committed
  replica := h.replica
  replied c' hc' := by
    rcases List.mem_or_eq_of_mem_set hc' with hc' | rfl
    · exact h.replied c' hc'
    · exact hok
  returned := h.returned

theorem Ok.addCall (h : s.Ok) {clerk : ID → Clerk n} {sends : List (Sending n K ID)}
    {args : MutexArgs K ID} {server : Fin (n + 1)}
    (hnumbered : Numbered clerk (sends.map (·.args))) (hsub : s.issued ⊆ sends.map (·.args))
    (hsend : ∀ g ∈ sends, g ∈ s.sends ∨ g = { args, server, call := s.calls.length })
    (hargs : args ∈ sends.map (·.args)) :
    Ok { s with clerk, sends, calls := s.calls ++ [{ args, server }] } where
  numbered := hnumbered
  call g hg := by
    rcases hsend g hg with hg | rfl
    · obtain ⟨c, hc, hargs, hserver⟩ := h.call g hg
      refine ⟨c, ?_, hargs, hserver⟩
      exact (List.getElem?_append_left (List.getElem?_eq_some_iff.mp hc).1).trans hc
    · exact ⟨_, List.getElem?_concat_length, rfl, rfl⟩
  args c hc := by
    rcases List.mem_append.mp hc with hc | hc
    · exact hsub (h.args c hc)
    · obtain rfl := List.mem_singleton.mp hc
      exact hargs
  pending e he := List.map_subset _ hsub (h.pending e he)
  committed op hop := List.map_subset _ hsub (h.committed op hop)
  replica := h.replica
  replied c hc hok := by
    rcases List.mem_append.mp hc with hc | hc
    · exact h.replied c hc hok
    · obtain rfl := List.mem_singleton.mp hc
      cases hok
  returned g hg hret := by
    rcases hsend g hg with hg | rfl
    · exact h.returned g hg hret
    · cases hret

theorem Ok.retry (h : s.Ok) {i : Nat} {g : Sending n K ID} (hi : s.sends[i]? = some g)
    (hret : g.returned = false) : (s.retry i g).Ok := by
  have hissued : (s.retry i g).issued = s.issued := map_args_set hi rfl
  apply h.addCall
  · change Numbered s.clerk (s.retry i g).issued
    rw [hissued]
    exact h.numbered
  · exact hissued ▸ List.Subset.refl _
  · intro g' hg'
    rw [← hret]
    exact List.mem_or_eq_of_mem_set hg'
  · change g.args ∈ (s.retry i g).issued
    rw [hissued]
    exact List.mem_map_of_mem (List.mem_of_getElem? hi)

theorem Ok.restart (h : s.Ok) (p : Fin (n + 1)) :
    Ok { s with calls := s.calls.map (MutexCall.restart p) } where
  numbered := h.numbered
  call g hg := by
    obtain ⟨c, hc, hargs, hserver⟩ := h.call g hg
    refine ⟨c.restart p, by simp [hc], ?_⟩
    rw [c.restart_args p, c.restart_server p]
    exact ⟨hargs, hserver⟩
  args c' hc' := by
    obtain ⟨c, hc, rfl⟩ := List.mem_map.mp hc'
    rw [c.restart_args p]
    exact h.args c hc
  pending := h.pending
  committed := h.committed
  replica := h.replica
  replied c' hc' hok := by
    obtain ⟨c, hc, rfl⟩ := List.mem_map.mp hc'
    rw [c.restart_args p, c.restart_server p]
    exact h.replied c hc (c.replied_of_restart hok)
  returned := h.returned

theorem Ok.commit (h : s.Ok) {k : Nat} {e : Nat × Op K ID} (hk : s.pending[k]? = some e) :
    Ok { s with pending := s.pending.eraseIdx k, committed := s.committed ++ [e.2] } where
  numbered := h.numbered
  call := h.call
  args := h.args
  pending e he := h.pending e (List.mem_of_mem_eraseIdx he)
  committed op hop := by
    rcases List.mem_append.mp hop with hop | hop
    · exact h.committed op hop
    · obtain rfl := List.mem_singleton.mp hop
      exact h.pending e (List.mem_of_getElem? hk)
  replica p := (h.replica p).commit _
  replied c hc hok := (h.replied c hc hok).commit _
  returned g hg hret := (h.returned g hg hret).commit _

theorem Ok.op_eq (h : s.Ok) {a : MutexArgs K ID} {o : Op K ID} (ha : a ∈ s.issued)
    (ho : o ∈ s.committed) (hsame : isSameOp a.toOp o) : o = a.toOp := by
  obtain ⟨b, hb, rfl⟩ := List.mem_map.mp (h.committed o ho)
  rw [h.numbered.unique a ha b hb hsame]

theorem Ok.setReturned (h : s.Ok) {i : Nat} {g : Sending n K ID} (hi : s.sends[i]? = some g)
    {c : MutexCall n K ID} (hc : s.calls[g.call]? = some c) (hok : c.handler = .replied .ok)
    (id : ID) :
    Ok { s with
      sends := s.sends.set i { g with returned := true }
      clerk := Function.update s.clerk id { s.clerk id with leaderId := g.server } } := by
  have hmem := List.mem_of_getElem? hi
  have hissued : (s.sends.set i { g with returned := true }).map (·.args) = s.issued :=
    map_args_set hi rfl
  have hnumber : ∀ id', (Function.update s.clerk id
      { s.clerk id with leaderId := g.server } id').requestId = (s.clerk id').requestId := by
    intro id'
    by_cases hid : id' = id
    · rw [hid, Function.update_self]
    · rw [Function.update_of_ne hid]
  refine ⟨⟨?_, ?_⟩, ?_, ?_, ?_, ?_, h.replica, h.replied, ?_⟩
  all_goals simp only [issued, hissued]
  · intro a ha
    rw [hnumber]
    exact h.numbered.le a ha
  · exact h.numbered.unique
  · intro g' hg'
    rcases List.mem_or_eq_of_mem_set hg' with hg' | rfl
    · exact h.call g' hg'
    · exact h.call g hmem
  · exact h.args
  · exact h.pending
  · exact h.committed
  · intro g' hg' hret
    rcases List.mem_or_eq_of_mem_set hg' with hg' | rfl
    · exact h.returned g' hg' hret
    · obtain ⟨c', hc', hargs, hserver⟩ := h.call g hmem
      obtain rfl : c = c' := Option.some.inj (hc.symm.trans hc')
      rw [← hargs, ← hserver]
      exact h.replied c (List.mem_of_getElem? hc) hok

theorem Ok.addApplied (h : s.Ok) {applied : List (Fin (n + 1) × Nat × Op K ID)}
    (hsub : s.applied ⊆ applied) : Ok { s with applied } :=
  { h with
    replica := fun p => (h.replica p).mono hsub
    replied := fun c hc hok => (h.replied c hc hok).mono hsub
    returned := fun g hg hret => (h.returned g hg hret).mono hsub }

theorem Ok.received (h : s.Ok) {k index : Nat} {c : MutexCall n K ID} {appliedOp : Op K ID}
    (hk : s.calls[k]? = some c) (hmem : appliedOp ∈ (s.replica c.server).server.sent index) :
    (s.setHandler k c (.replied
      (if isSameOp c.args.toOp appliedOp then .ok else .errWrongLeader))).Ok := by
  apply h.setHandler hk
  intro herr
  have hsame : isSameOp c.args.toOp appliedOp := by
    by_contra hne
    simp [hne] at herr
  have hr := h.replica c.server
  obtain ⟨m, -, hm⟩ := hr.sent index appliedOp hmem
  rw [← h.op_eq (h.args c (List.mem_of_getElem? hk)) (List.mem_of_getElem? hm) hsame]
  exact hr.seen hmem

variable [Inhabited ID]

inductive Stepped (s : Session n K ID) : Move n K ID → Session n K ID → Prop
  | sendMutex {id : ID} {key : K} {op : OpType} : Stepped s (.sendMutex id key op) { s with
      clerk := Function.update s.clerk id
        { s.clerk id with requestId := (s.clerk id).requestId + 1 }
      sends := s.sends ++ [{
        args := ⟨key, op, id, (s.clerk id).requestId + 1⟩
        server := (s.clerk id).leaderId
        call := s.calls.length }]
      calls := s.calls ++ [{
        args := ⟨key, op, id, (s.clerk id).requestId + 1⟩
        server := (s.clerk id).leaderId }] }
  | wrongLeader {k : Nat} {c : MutexCall n K ID} : s.calls[k]? = some c → c.handler = .sent →
      Stepped s (.mutex k none) (s.setHandler k c (.replied .errWrongLeader))
  | started {k index : Nat} {c : MutexCall n K ID} : s.calls[k]? = some c → c.handler = .sent →
      Stepped s (.mutex k (some index)) { s.setHandler k c (.waiting index) with
        pending := s.pending ++ [(index, c.args.toOp)] }
  | received {k index : Nat} {c : MutexCall n K ID} {appliedOp : Op K ID} :
      s.calls[k]? = some c → c.handler = .waiting index →
      appliedOp ∈ (s.replica c.server).server.sent index →
      Stepped s (.receiveResult k) ((s.setHandler k c (.replied
        (if isSameOp c.args.toOp appliedOp then .ok else .errWrongLeader))).setReplica c.server
          { s.replica c.server with
            taken := Function.update (s.replica c.server).taken index true })
  | timeout {k index : Nat} {c : MutexCall n K ID} : s.calls[k]? = some c →
      c.handler = .waiting index →
      Stepped s (.timeout k) (s.setHandler k c (.replied .errWrongLeader))
  | retried {m : Move n K ID} {i : Nat} {g : Sending n K ID} :
      m = .replyArrives i ∨ m = .callFails i → s.sends[i]? = some g → g.returned = false →
      Stepped s m (s.retry i g)
  | returned {i : Nat} {g : Sending n K ID} {c : MutexCall n K ID} : s.sends[i]? = some g →
      s.calls[g.call]? = some c → c.handler = .replied .ok →
      Stepped s (.replyArrives i) { s with
        sends := s.sends.set i { g with returned := true }
        clerk := Function.update s.clerk g.args.clientId
          { s.clerk g.args.clientId with leaderId := g.server } }
  | commit {k : Nat} {e : Nat × Op K ID} : s.pending[k]? = some e → e.1 = s.committed.length + 1 →
      Stepped s (.commit k) { s with
        pending := s.pending.eraseIdx k
        committed := s.committed ++ [e.2] }
  | apply {p : Fin (n + 1)} {isLeader : Bool} {op : Op K ID} :
      s.committed[(s.replica p).next]? = some op →
      Stepped s (.apply p isLeader) { s.setReplica p { s.replica p with
          server := ((s.replica p).server.applyMsg isLeader ⟨true, op, (s.replica p).next + 1⟩).1
          next := (s.replica p).next + 1 } with
        applied := if (s.replica p).server.isNew op then (p, (s.replica p).next, op) :: s.applied
          else s.applied }
  | restart {p : Fin (n + 1)} : Stepped s (.restart p)
      { s.setReplica p .start with calls := s.calls.map (MutexCall.restart p) }

theorem step_cases {m : Move n K ID} (hs : s.step m = .ok s') : s.Stepped m s' := by
  cases m with
  | sendMutex id key op =>
    cases hs
    exact .sendMutex
  | mutex k index =>
    simp only [Session.step] at hs
    split at hs
    · cases hs
    split at hs
    · split at hs <;> cases hs
      · exact .wrongLeader ‹_› ‹_›
      · exact .started ‹_› ‹_›
    · cases hs
  | receiveResult k =>
    simp only [Session.step] at hs
    split at hs
    · cases hs
    split at hs
    · split at hs
      · rename_i appliedOp rest _ hsent
        cases hs
        exact .received ‹_› ‹_› (by simp [hsent])
      · cases hs
    · cases hs
  | timeout k =>
    simp only [Session.step] at hs
    split at hs
    · cases hs
    split at hs <;> cases hs
    exact .timeout ‹_› ‹_›
  | replyArrives i =>
    simp only [Session.step] at hs
    split at hs
    · cases hs
    split at hs
    · cases hs
    split at hs
    · cases hs
    rename_i hret _ c hc
    split at hs <;> cases hs
    · exact .retried (.inl rfl) ‹_› (by simpa using hret)
    · exact .returned ‹_› hc ‹_›
  | callFails i =>
    simp only [Session.step] at hs
    split at hs
    · cases hs
    split at hs <;> cases hs
    rename_i hret
    exact .retried (.inr rfl) ‹_› (by simpa using hret)
  | commit k =>
    simp only [Session.step] at hs
    split at hs
    · cases hs
    split at hs <;> cases hs
    exact .commit ‹_› ‹_›
  | apply p isLeader =>
    simp only [Session.step] at hs
    split at hs <;> cases hs
    exact .apply ‹_›
  | restart p =>
    cases hs
    exact .restart

theorem Ok.step {m : Move n K ID} (h : s.Ok) (hs : s.step m = .ok s') : s'.Ok := by
  cases step_cases hs with
  | @sendMutex id key op =>
    apply h.addCall
    · rw [List.map_append]
      exact h.numbered.concat key op id
    · rw [List.map_append]
      exact List.subset_append_left _ _
    · intro g hg
      simpa using hg
    · simp
  | wrongLeader hk => exact h.setHandler hk (by simp)
  | @started k index c hk =>
    have hset := h.setHandler (k := k) hk (show Handler.waiting index = .replied .ok → _ by simp)
    refine { hset with pending := fun e he => ?_ }
    rcases List.mem_append.mp he with he | he
    · exact h.pending e he
    · obtain rfl := List.mem_singleton.mp he
      exact List.mem_map_of_mem (h.args c (List.mem_of_getElem? hk))
  | @received k index c appliedOp hk _ hmem =>
    have hr := h.replica c.server
    exact (h.received hk hmem).setReplica ⟨hr.next_le, hr.server, hr.sent, hr.applied⟩
  | timeout hk => exact h.setHandler hk (by simp)
  | retried _ hi hret => exact h.retry hi hret
  | returned hi hc hok => exact h.setReturned hi hc hok _
  | commit hk => exact h.commit hk
  | @apply p isLeader op hop =>
    have hsub : s.applied ⊆ if (s.replica p).server.isNew op then
        (p, (s.replica p).next, op) :: s.applied else s.applied := by
      split
      · exact List.subset_cons_self _ _
      · exact List.Subset.refl _
    apply (h.addApplied hsub).setReplica
    apply (h.replica p).apply isLeader hop hsub
    intro hnew
    simp [hnew]
  | restart => exact (h.restart _).setReplica .start

theorem Run.ok {ok : Session n K ID → Move n K ID → Prop} {σ : List (Session n K ID)}
    (h : Run ok σ) : ∀ s ∈ σ, s.Ok := by
  refine History.Run.forall_mem h ?_ ?_
  · constructor <;> simp [init, issued, Replica.Ok.start]
    constructor <;> simp
  · intro s m s' hok hs
    exact hok.step hs.2

theorem step_committed {m : Move n K ID} (hs : s.step m = .ok s') :
    s'.committed = s.committed ∨
      ∃ k e, m = .commit k ∧ s.pending[k]? = some e ∧ s'.committed = s.committed ++ [e.2] := by
  cases step_cases hs with
  | commit hk => exact .inr ⟨_, _, rfl, hk, rfl⟩
  | sendMutex | wrongLeader | started | received | timeout | retried | returned | apply | restart =>
    exact .inl rfl

def CommitsInOrder (s : Session n K ID) : Move n K ID → Prop
  | .commit k => ∀ e ∈ s.pending[k]?, InOrder s.committed e.2
  | _ => True

instance (s : Session n K ID) : (m : Move n K ID) → Decidable (s.CommitsInOrder m)
  | .commit k => inferInstanceAs (Decidable (∀ e ∈ s.pending[k]?, InOrder s.committed e.2))
  | .sendMutex _ _ _ | .mutex _ _ | .receiveResult _ | .timeout _ | .replyArrives _
  | .callFails _ | .apply _ _ | .restart _ => isTrue trivial

theorem Run.allEffective {σ : List (Session n K ID)} (h : Run CommitsInOrder σ) :
    ∀ s ∈ σ, AllEffective s.committed := by
  refine History.Run.forall_mem h ?_ ?_
  · simp [init, AllEffective]
  · intro s m s' hall hs
    rcases step_committed hs.2 with heq | ⟨k, e, rfl, hk, heq⟩
    · rwa [heq]
    · rw [heq]
      exact hall.concat (hs.1 e hk)

theorem acknowledged_applied {σ : List (Session n K ID)} (h : Run CommitsInOrder σ) :
    ∀ s ∈ σ, ∀ g ∈ s.sends, g.returned → ∃ m, (g.server, m, g.args.toOp) ∈ s.applied := by
  intro s hs g hg hret
  have hok := Run.ok h s hs
  obtain ⟨m, hm, hall⟩ := hok.returned g hg hret
  obtain ⟨m', o, hle, heff, hsame⟩ := Run.allEffective h s hs m _ hm
  have ho := hok.op_eq (List.mem_map_of_mem hg) (List.mem_of_getElem? heff.1) hsame
  exact ⟨m', ho ▸ hall m' o hle heff⟩

theorem exists_run (ok : Session n K ID → Move n K ID → Prop) [∀ s m, Decidable (ok s m)]
    (P : Session n K ID → Prop) [DecidablePred P] (ms : List (Move n K ID))
    (h : (History.exec (fun s m => decide (ok s m)) step init ms).any fun s => decide (P s)) :
    ∃ s σ, Run ok (s :: σ) ∧ P s :=
  History.exists_run ok P ms h

def sharedClerk : List (Move 1 Nat Nat) :=
  [.sendMutex 7 0 .lockOp, .sendMutex 7 1 .lockOp, .mutex 0 (some 1), .mutex 1 (some 2),
    .timeout 1, .replyArrives 1, .mutex 2 none, .replyArrives 1, .mutex 3 (some 3),
    .commit 0, .commit 0, .commit 0, .apply 0 true, .apply 0 true, .apply 0 true,
    .receiveResult 0, .replyArrives 0, .receiveResult 3, .replyArrives 1]

theorem acknowledged_applied_sharedClerk :
    ∃ (s : Session 1 Nat Nat) (σ : List (Session 1 Nat Nat)), Run CommitsInOrder (s :: σ) ∧
      (s.sends.map (·.returned)) = [true, true] ∧
      ∀ g ∈ s.sends, g.returned → ∃ m, (g.server, m, g.args.toOp) ∈ s.applied := by
  obtain ⟨s, σ, hrun, hret⟩ := exists_run CommitsInOrder
    (fun s : Session 1 Nat Nat => s.sends.map (·.returned) = [true, true]) sharedClerk (by decide)
  exact ⟨s, σ, hrun, hret, acknowledged_applied hrun s List.mem_cons_self⟩

def overtaken : List (Move 0 Nat Nat) :=
  [.sendMutex 7 0 .lockOp, .sendMutex 7 1 .lockOp, .mutex 1 (some 1), .mutex 0 (some 2),
    .commit 0, .commit 0, .apply 0 true, .apply 0 true, .receiveResult 0, .replyArrives 0]

theorem dropped_overtaken :
    ∃ (s : Session 0 Nat Nat) (σ : List (Session 0 Nat Nat)), Run (fun _ _ => True) (s :: σ) ∧
      (∃ g ∈ s.sends, g.returned ∧ ∀ p m, (p, m, g.args.toOp) ∉ s.applied) ∧
      (s.replica 0).server.store.ids 0 = [] := by
  obtain ⟨s, σ, hrun, ⟨g, hg, hret, hnone⟩, hfree⟩ := exists_run (fun _ _ => True)
    (fun s : Session 0 Nat Nat =>
      (∃ g ∈ s.sends, g.returned ∧ ∀ e ∈ s.applied, e.2.2 ≠ g.args.toOp) ∧
        (s.replica 0).server.store.ids 0 = []) overtaken (by decide)
  exact ⟨s, σ, hrun, ⟨g, hg, hret, fun p m hmem => hnone _ hmem rfl⟩, hfree⟩

def OneAtATime (s : Session n K ID) : Move n K ID → Prop
  | .sendMutex id _ _ => ∀ g ∈ s.sends, g.args.clientId = id → g.returned
  | _ => True

def Latest (s : Session n K ID) : Prop :=
  ∀ g ∈ s.sends, g.returned ∨ g.args.requestId = (s.clerk g.args.clientId).requestId

omit [DecidableEq K] [DecidableEq ID] [Inhabited ID] in
theorem Latest.retry (h : s.Latest) {i : Nat} {g : Sending n K ID} (hi : s.sends[i]? = some g) :
    (s.retry i g).Latest := by
  intro g' hg'
  rcases List.mem_or_eq_of_mem_set hg' with hg' | rfl
  · exact h g' hg'
  · exact h g (List.mem_of_getElem? hi)

theorem Latest.step {m : Move n K ID} (h : s.Latest) (hone : s.OneAtATime m)
    (hs : s.step m = .ok s') : s'.Latest := by
  cases step_cases hs with
  | @sendMutex id key op =>
    intro g hg
    rcases List.mem_append.mp hg with hg | hg
    · by_cases hid : g.args.clientId = id
      · exact .inl (hone g hg hid)
      · simpa [hid] using h g hg
    · obtain rfl := List.mem_singleton.mp hg
      simp
  | retried _ hi => exact h.retry hi
  | @returned i g =>
    intro g' hg'
    rcases List.mem_or_eq_of_mem_set hg' with hg' | rfl
    · by_cases hid : g'.args.clientId = g.args.clientId
      · simpa [hid] using h g' hg'
      · simpa [hid] using h g' hg'
    · exact .inl rfl
  | wrongLeader | started | received | timeout | commit | apply | restart => exact h

theorem Run.latest {σ : List (Session n K ID)} (h : Run OneAtATime σ) : ∀ s ∈ σ, s.Latest := by
  refine History.Run.forall_mem h ?_ ?_
  · simp [init, Latest]
  · intro s m s' hlatest hs
    exact hlatest.step hs.1 hs.2

omit [Inhabited ID] in
theorem Ok.inOrder (h : s.Ok) (hlatest : s.Latest) {e : Nat × Op K ID} (he : e ∈ s.pending) :
    InOrder s.committed e.2 := by
  obtain ⟨a, ha, hae⟩ := List.mem_map.mp (h.pending e he)
  obtain ⟨g, hg, rfl⟩ := List.mem_map.mp ha
  rw [← hae]
  rcases hlatest g hg with hret | hlast
  · obtain ⟨m, hm, -⟩ := h.returned g hg hret
    exact .inl ⟨_, List.mem_of_getElem? hm, isSameOp_iff.mpr ⟨rfl, rfl⟩⟩
  · by_cases hmem : ∃ o ∈ s.committed, isSameOp g.args.toOp o
    · exact .inl hmem
    · right
      intro o ho hclient
      obtain ⟨b, hb, rfl⟩ := List.mem_map.mp (h.committed o ho)
      have hle := h.numbered.le b hb
      rw [show b.clientId = g.args.clientId from hclient, ← hlast] at hle
      refine lt_of_le_of_ne hle fun heq => hmem ⟨_, ho, ?_⟩
      exact isSameOp_iff.mpr ⟨hclient.symm, heq.symm⟩

theorem Run.commitsInOrder {σ : List (Session n K ID)} (h : Run OneAtATime σ) :
    Run CommitsInOrder σ := by
  refine History.Run.mono h.within ?_
  rintro s m s' ⟨⟨hone, hs⟩, hmem, -⟩
  refine ⟨?_, hs⟩
  cases m with
  | commit k =>
    intro e he
    exact (Run.ok h s hmem).inOrder (Run.latest h s hmem) (List.mem_of_getElem? he)
  | _ => trivial

end Session

end MrAndRaft.RaftLock
