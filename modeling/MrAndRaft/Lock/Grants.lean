import Mathlib.Algebra.GroupWithZero.Nat
import MrAndRaft.Lock.Service

/-! Mutual exclusion of lock grants.  Every server that has applied the same number
of operations holds the same store, so a grant is a fact about the operations: the
owner of its key changes there, and between two grants of a key somebody unlocked it. -/

namespace MrAndRaft.RaftLock

open ExactlyOnce Happening

variable {n : Nat} {K ID : Type} [DecidableEq K] [DecidableEq ID]

section Replay

variable {ops : List (Op K ID)} {m : Nat} {op : Op K ID}

def replay (ops : List (Op K ID)) (m : Nat) : Receiver (LockStore K ID) ID Int :=
  (ops.take m).foldl (receive Op.clientId Op.requestId LockStore.applyOp) LockServer.start.receiver

def Effective (ops : List (Op K ID)) (m : Nat) (op : Op K ID) : Prop :=
  ops[m]? = some op ∧ IsNew Op.clientId Op.requestId (replay ops m).last op

theorem replay_succ (h : ops[m]? = some op) :
    replay ops (m + 1) =
      receive Op.clientId Op.requestId LockStore.applyOp (replay ops m) op := by
  simp [replay, List.take_add_one, h]

theorem Effective.state (h : Effective ops m op) :
    (replay ops (m + 1)).state = (replay ops m).state.applyOp op := by
  rw [replay_succ h.1, receive, if_pos h.2]

theorem replay_cases (ops : List (Op K ID)) (m : Nat) :
    (∃ op, Effective ops m op) ∨ replay ops (m + 1) = replay ops m := by
  cases hop : ops[m]? with
  | none => simp [replay, List.take_add_one, hop]
  | some op =>
    by_cases hnew : IsNew Op.clientId Op.requestId (replay ops m).last op
    · exact .inl ⟨op, hop, hnew⟩
    · rw [replay_succ hop, receive, if_neg hnew]
      exact .inr rfl

theorem LockStore.head?_applyOp {store : LockStore K ID} {key : K} {id : ID}
    (h : (store.ids key).head? = some id) (hop : op.type = .unlockOp → op.key ≠ key) :
    ((store.applyOp op).ids key).head? = some id := by
  unfold applyOp
  split
  · exact store.head?_lock _ _ h
  · rename_i htype
    rwa [store.head?_unlock_of_ne (hop htype).symm]
  · exact h

theorem head?_replay {key : K} {id : ID} {i j : Nat} (hij : i ≤ j)
    (h : ((replay ops i).state.ids key).head? = some id)
    (hno : ∀ m op, i ≤ m → m < j → Effective ops m op → op.type = .unlockOp → op.key ≠ key) :
    ((replay ops j).state.ids key).head? = some id := by
  induction j, hij using Nat.le_induction with
  | base => exact h
  | succ j hij ih =>
    have ih := ih fun m op hm hmj => hno m op hm (by omega)
    rcases replay_cases ops j with ⟨op, hop⟩ | heq
    · rw [hop.state]
      exact LockStore.head?_applyOp ih (hno j op hij (by omega) hop)
    · rwa [heq]

variable [Inhabited ID]

def ownerAt (ops : List (Op K ID)) (m : Nat) (key : K) : ID :=
  ((replay ops m).state.getLockOwner key).1

theorem ownerAt_eq {key : K} {id : ID}
    (h : ((replay ops m).state.ids key).head? = some id) : ownerAt ops m key = id := by
  rw [ownerAt, LockStore.getLockOwner_eq, List.headD_eq_head?_getD, h]
  rfl

theorem head?_of_ownerAt {key : K} (h : ownerAt ops m key ≠ default) :
    ((replay ops m).state.ids key).head? = some (ownerAt ops m key) := by
  rw [ownerAt, LockStore.getLockOwner_eq] at h ⊢
  cases hids : (replay ops m).state.ids key with
  | nil => simp [hids] at h
  | cons id ids => rfl

end Replay

namespace Grant

variable [Inhabited ID] {ops : List (Op K ID)} {g g' : Grant K ID}

structure Due (ops : List (Op K ID)) (g : Grant K ID) : Prop where
  owner : ownerAt ops (g.index + 1) g.key = g.id
  changed : ownerAt ops g.index g.key ≠ g.id

theorem Due.exists_unlock (h : g.Due ops) (h' : g'.Due ops) (hkey : g.key = g'.key)
    (hid : g.id ≠ default) (hlt : g.index < g'.index) :
    ∃ m op, g.index < m ∧ m ≤ g'.index ∧ Effective ops m op ∧
      op.type = .unlockOp ∧ op.key = g.key := by
  by_contra hno
  have hhead : ((replay ops (g.index + 1)).state.ids g.key).head? = some g.id := by
    rw [← h.owner] at hid ⊢
    exact head?_of_ownerAt hid
  have hkeep : ∀ j, g.index + 1 ≤ j → j ≤ g'.index + 1 → ownerAt ops j g.key = g.id := by
    intro j hj hj'
    apply ownerAt_eq
    apply head?_replay hj hhead
    intro m op hm hmj heff htype hkey
    exact hno ⟨m, op, hm, by omega, heff, htype, hkey⟩
  apply h'.changed
  rw [← h'.owner, ← hkey, hkeep g'.index hlt (by omega), hkeep (g'.index + 1) (by omega) le_rfl]

structure Sent (ops : List (Op K ID)) (trace : List (Happening n K ID)) (g : Grant K ID) :
    Prop where
  due : g.Due ops
  applied : ∀ m op, m ≤ g.index → Effective ops m op → ∃ p, applied p m op ∈ trace

theorem Sent.mono {trace trace' : List (Happening n K ID)} (h : g.Sent ops trace)
    (hsub : trace ⊆ trace') : g.Sent ops trace' where
  due := h.due
  applied m op hm heff := by
    obtain ⟨p, hp⟩ := h.applied m op hm heff
    exact ⟨p, hsub hp⟩

def Awaits (g : Grant K ID) : Happening n K ID → Prop
  | .applied _ m op => op.type = .unlockOp → op.key = g.key → m ≤ g.index
  | .received g' => g'.index ≠ g.index

instance (g : Grant K ID) (h : Happening n K ID) : Decidable (g.Awaits h) :=
  match h with
  | .applied _ m op =>
    inferInstanceAs (Decidable (op.type = .unlockOp → op.key = g.key → m ≤ g.index))
  | .received g' => inferInstanceAs (Decidable (g'.index ≠ g.index))

/-- `g` goes to a client, for the first time, and before any server has applied a
later unlock of the key. -/
def OnTime (trace : List (Happening n K ID)) (g : Grant K ID) : Prop :=
  g.id ≠ default ∧ ∀ h ∈ trace, g.Awaits h

instance (trace : List (Happening n K ID)) (g : Grant K ID) : Decidable (g.OnTime trace) :=
  inferInstanceAs (Decidable (_ ∧ _))

end Grant

section Invariant

variable [Inhabited ID] {ops : List (Op K ID)} {trace trace' : List (Happening n K ID)}
  {node : Node K ID}

structure Node.Ok (ops : List (Op K ID)) (trace : List (Happening n K ID)) (node : Node K ID) :
    Prop where
  server : node.server.receiver = replay ops node.next
  applied : ∀ m op, m < node.next → Effective ops m op → ∃ p, applied p m op ∈ trace
  giving : ∀ g ∈ node.giving, g.Sent ops trace

theorem Node.Ok.start : Node.Ok ops trace .start where
  server := rfl
  applied := by simp [Node.start]
  giving := by simp [Node.start]

theorem Node.Ok.mono (h : node.Ok ops trace) (hsub : trace ⊆ trace') : node.Ok ops trace' where
  server := h.server
  applied m op hm heff := by
    obtain ⟨p, hp⟩ := h.applied m op hm heff
    exact ⟨p, hsub hp⟩
  giving g hg := (h.giving g hg).mono hsub

theorem LockServer.owner_applyMsg {ls : LockServer K ID} {isLeader : Bool} {op : Op K ID}
    {index : Nat} {id : ID} (h : (ls.applyMsg isLeader ⟨true, op, index⟩).2.2 = some id) :
    ((ls.store.applyOp op).getLockOwner op.key).1 = id ∧
      (ls.store.getLockOwner op.key).1 ≠ id ∧ ls.isNew op = true := by
  unfold applyMsg applyToStateMachine at h
  cases hnew : ls.isNew op <;> cases isLeader <;> simp [hnew] at h
  obtain ⟨hne, rfl⟩ := h
  exact ⟨rfl, fun heq => hne heq.symm, rfl⟩

theorem Node.Ok.apply {op : Op K ID} {index : Nat} {p : Fin n} (h : node.Ok ops trace)
    (hop : ops[node.next]? = some op)
    (htrace : node.server.isNew op → .applied p node.next op ∈ trace') (hsub : trace ⊆ trace') :
    let out := node.server.applyMsg node.isLeader ⟨true, op, index⟩
    Node.Ok ops trace' { node with
      server := out.1
      next := node.next + 1
      giving := out.2.2.map fun id => ⟨node.next, op.key, id⟩ } := by
  intro out
  have hstore : node.server.store = (replay ops node.next).state := congrArg Receiver.state h.server
  have hnew : ∀ op', Effective ops node.next op' → op' = op ∧ node.server.isNew op := by
    rintro op' ⟨hop', hnew'⟩
    rw [hop] at hop'
    cases hop'
    rw [← h.server] at hnew'
    exact ⟨rfl, (node.server.isNew_iff op).mpr hnew'⟩
  have hall : ∀ m op', m < node.next + 1 → Effective ops m op' →
      ∃ p, Happening.applied p m op' ∈ trace' := by
    intro m op' hm heff
    rcases Nat.lt_succ_iff_lt_or_eq.mp hm with hm | rfl
    · obtain ⟨q, hq⟩ := h.applied m op' hm heff
      exact ⟨q, hsub hq⟩
    · obtain ⟨rfl, hnew⟩ := hnew op' heff
      exact ⟨p, htrace hnew⟩
  refine ⟨?_, hall, ?_⟩
  · rw [replay_succ hop, ← h.server]
    exact LockServer.receiver_applyMsg _ _ rfl
  · intro g hg
    obtain ⟨id, hid, rfl⟩ := Option.map_eq_some_iff.mp hg
    obtain ⟨howner, hchanged, hisNew⟩ := LockServer.owner_applyMsg hid
    have heff : Effective ops node.next op := by
      refine ⟨hop, ?_⟩
      rw [← h.server]
      exact (node.server.isNew_iff op).mp hisNew
    refine ⟨⟨?_, ?_⟩, fun m op' hm => hall m op' (Nat.lt_succ_of_le hm)⟩
    · rw [ownerAt, heff.state, ← hstore]
      exact howner
    · rw [ownerAt, ← hstore]
      exact hchanged

namespace Service

structure Ok (ops : List (Op K ID)) (s : Service n K ID) : Prop where
  node : ∀ p, (s.node p).Ok ops s.trace
  calls : ∀ g ∈ s.calls, g.Sent ops s.trace
  received : ∀ g past, .received g :: past <:+ s.trace → g.Sent ops past ∧ g.OnTime past

theorem Ok.setNode {s : Service n K ID} (h : s.Ok ops) {p : Fin n} {node : Node K ID}
    (hnode : node.Ok ops s.trace) : (s.setNode p node).Ok ops where
  node q := by
    by_cases hq : q = p
    · subst hq
      simpa [Service.setNode] using hnode
    · simpa [Service.setNode, hq] using h.node q
  calls := h.calls
  received := h.received

def Timely (s : Service n K ID) : Action n → Prop
  | .deliver k => ∀ g ∈ s.calls[k]?, g.OnTime s.trace
  | _ => True

instance (s : Service n K ID) : (a : Action n) → Decidable (s.Timely a)
  | .deliver k => inferInstanceAs (Decidable (∀ g ∈ s.calls[k]?, g.OnTime s.trace))
  | .elect _ _ | .apply _ | .give _ | .restart _ => isTrue trivial

omit [DecidableEq K] [DecidableEq ID] [Inhabited ID] in
theorem subset_logged (s : Service n K ID) (p : Fin n) (op : Op K ID) :
    s.trace ⊆ s.logged p op := by
  unfold logged
  split
  · exact List.subset_cons_self _ _
  · exact List.Subset.refl _

omit [DecidableEq K] [DecidableEq ID] [Inhabited ID] in
theorem suffix_of_logged {s : Service n K ID} {p : Fin n} {op : Op K ID} {g : Grant K ID}
    {past : List (Happening n K ID)} (h : .received g :: past <:+ s.logged p op) :
    .received g :: past <:+ s.trace := by
  unfold logged at h
  split at h
  · rcases List.suffix_cons_iff.mp h with heq | h
    · cases heq
    · exact h
  · exact h

theorem Ok.logged {s : Service n K ID} (h : s.Ok ops) (p : Fin n) (op : Op K ID)
    (events : List (Event K ID)) : Ok ops { s with events, trace := s.logged p op } where
  node q := (h.node q).mono (s.subset_logged p op)
  calls g hg := (h.calls g hg).mono (s.subset_logged p op)
  received g past hpast := h.received g past (suffix_of_logged hpast)

theorem Ok.step {clerkEnds : ID → Bool} {s s' : Service n K ID} {a : Action n} (h : s.Ok ops)
    (htimely : s.Timely a) (hs : s.step ops clerkEnds a = .ok s') : s'.Ok ops := by
  cases a with
  | elect p isLeader =>
    cases hs
    exact h.setNode ⟨(h.node p).server, (h.node p).applied, (h.node p).giving⟩
  | apply p =>
    simp only [Service.step] at hs
    split at hs
    · cases hs
    split at hs
    · cases hs
    rename_i op hop
    cases hs
    apply (h.logged p op _).setNode
    apply (h.node p).apply (p := p) hop _ (s.subset_logged p op)
    intro hnew
    simp [Service.logged, hnew]
  | give p =>
    simp only [Service.step] at hs
    split at hs
    · cases hs
    rename_i g hg
    have hok : Service.Ok ops (s.setNode p { s.node p with giving := none }) :=
      h.setNode ⟨(h.node p).server, (h.node p).applied, by simp⟩
    split at hs <;> cases hs
    · refine ⟨hok.node, fun g' hg' => ?_, hok.received⟩
      rcases List.mem_cons.mp hg' with rfl | hg'
      · exact (h.node p).giving _ hg
      · exact hok.calls g' hg'
    · exact hok
  | deliver k =>
    simp only [Service.step] at hs
    split at hs
    · cases hs
    rename_i g hg
    cases hs
    have hsub : s.trace ⊆ .received g :: s.trace := List.subset_cons_self _ _
    refine ⟨fun p => (h.node p).mono hsub, fun g' hg' => ?_, fun g' past hpast => ?_⟩
    · exact (h.calls g' (List.mem_of_mem_eraseIdx hg')).mono hsub
    · rcases List.suffix_cons_iff.mp hpast with heq | hpast
      · cases heq
        exact ⟨h.calls g (List.mem_of_getElem? hg), htimely g hg⟩
      · exact h.received g' past hpast
  | restart p =>
    cases hs
    exact h.setNode .start

theorem Run.ok {clerkEnds : ID → Bool} {σ : List (Service n K ID)}
    (h : Run ops clerkEnds Timely σ) : ∀ s ∈ σ, s.Ok ops := by
  refine History.Run.forall_mem h ?_ ?_
  · exact ⟨fun _ => .start, by simp [init], by simp [init]⟩
  · intro s a s' hok hs
    exact hok.step hs.1 hs.2

end Service

end Invariant

def Exclusive (trace : List (Happening n K ID)) : Prop :=
  ∀ g g' between past, .received g' :: (between ++ .received g :: past) <:+ trace →
    g.key = g'.key →
    ∃ p m op, .applied p m op ∈ between ∧ op.type = .unlockOp ∧ op.key = g.key

variable [Inhabited ID]

theorem mutual_exclusion {ops : List (Op K ID)} {clerkEnds : ID → Bool}
    {σ : List (Service n K ID)} (h : Service.Run ops clerkEnds Service.Timely σ) :
    ∀ s ∈ σ, Exclusive s.trace := by
  intro s hs g g' between past hsuf hkey
  have hok := Service.Run.ok h s hs
  obtain ⟨hsent', hid', hawaits'⟩ := hok.received _ _ hsuf
  obtain ⟨hsent, hid, hawaits⟩ := hok.received _ _
    ((List.suffix_append _ _).trans ((List.suffix_cons _ _).trans hsuf))
  rcases Nat.lt_trichotomy g.index g'.index with hlt | heq | hgt
  · obtain ⟨m, op, hm, hm', heff, htype, hopkey⟩ :=
      hsent.due.exists_unlock hsent'.due hkey hid hlt
    obtain ⟨p, hp⟩ := hsent'.applied m op hm' heff
    simp only [List.mem_append, List.mem_cons, reduceCtorEq, false_or] at hp
    rcases hp with hp | hp
    · exact ⟨p, m, op, hp, htype, hopkey⟩
    · -- applied before `g` was received, though it comes after `g.index`
      exact absurd (hawaits _ hp htype hopkey) (by omega)
  · exact absurd heq (hawaits' (.received g) (by simp))
  · obtain ⟨m, op, hm, hm', heff, htype, hopkey⟩ :=
      hsent'.due.exists_unlock hsent.due hkey.symm hid' hgt
    obtain ⟨p, hp⟩ := hsent.applied m op hm' heff
    exact absurd (hawaits' (.applied p m op) (by simp [hp]) htype hopkey) (by omega)

def handedOver : List (Op Nat Nat) := [⟨.lockOp, 0, 1, 1⟩, ⟨.lockOp, 0, 2, 1⟩, ⟨.unlockOp, 0, 1, 2⟩]

theorem mutual_exclusion_handedOver : ∃ (s : Service 2 Nat Nat) (σ : List (Service 2 Nat Nat)),
    Service.Run handedOver (fun id => id = 1 ∨ id = 2) Service.Timely (s :: σ) ∧
      .received ⟨0, 0, 1⟩ ∈ s.trace ∧ .received ⟨2, 0, 2⟩ ∈ s.trace ∧ Exclusive s.trace := by
  obtain ⟨s, σ, hrun, h1, h2⟩ := Service.exists_run handedOver
    (fun id => id = 1 ∨ id = 2) Service.Timely
    (fun s : Service 2 Nat Nat => .received ⟨0, 0, 1⟩ ∈ s.trace ∧ .received ⟨2, 0, 2⟩ ∈ s.trace)
    [.elect 0 true, .apply 0, .give 0, .deliver 0, .apply 1, .apply 0, .apply 0, .give 0,
      .deliver 0]
    (by decide)
  exact ⟨s, σ, hrun, h1, h2, mutual_exclusion hrun s List.mem_cons_self⟩

instance twoServers : NeZero 2 := ⟨Nat.succ_ne_zero 1⟩

/-- Server 0 grants the lock; leadership moves to server 1, which applies the same
operation as leader. -/
def newLeader : List (Action 2) :=
  [.elect 0 true, .apply 0, .give 0, .deliver 0, .elect 0 false, .elect 1 true,
    .apply 1, .give 1, .deliver 0]

theorem granted_twice_newLeader : ∃ (s : Service 2 Nat Nat) (σ : List (Service 2 Nat Nat)),
    Service.Run [⟨.lockOp, 0, 1, 1⟩] (fun id => id = 1) (fun _ _ => True) (s :: σ) ∧
      ¬ Exclusive s.trace ∧ checkEvents (fun _ => false) s.events = false := by
  obtain ⟨s, σ, hrun, htrace, hcheck⟩ := Service.exists_run [⟨.lockOp, 0, 1, 1⟩]
    (fun id => id = 1) (fun _ _ => True)
    (fun s : Service 2 Nat Nat =>
      s.trace = [.received ⟨0, 0, 1⟩, .applied 1 0 ⟨.lockOp, 0, 1, 1⟩,
        .received ⟨0, 0, 1⟩, .applied 0 0 ⟨.lockOp, 0, 1, 1⟩] ∧
      checkEvents (fun _ => false) s.events = false) newLeader (by decide)
  refine ⟨s, σ, hrun, fun hex => ?_, hcheck⟩
  rw [htrace] at hex
  obtain ⟨p, m, op, hmem, htype, -⟩ := hex ⟨0, 0, 1⟩ ⟨0, 0, 1⟩ [.applied 1 0 ⟨.lockOp, 0, 1, 1⟩]
    [.applied 0 0 ⟨.lockOp, 0, 1, 1⟩] List.suffix_rfl rfl
  simp at hmem
  simp [hmem] at htype

end MrAndRaft.RaftLock
