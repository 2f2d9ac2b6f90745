import MrAndRaft.Lock.Server

/-! Who is told about a lock by a server that leads throughout.  The absence of an owner
is the zero value of a client id, so a client with that id is mistaken for it. -/

namespace MrAndRaft.RaftLock

variable {K ID : Type}

namespace LockStore

def owner (store : LockStore K ID) (key : K) : Option ID := (store.ids key).head?

theorem getLockOwner_fst [Inhabited ID] (store : LockStore K ID) (key : K) :
    (store.getLockOwner key).1 = (store.owner key).getD default := by
  rw [getLockOwner_eq, owner, List.headD_eq_head?_getD]

variable [DecidableEq K] [DecidableEq ID]

theorem ids_applyOp_of_ne (store : LockStore K ID) (op : Op K ID) {key : K} (h : key ≠ op.key) :
    (store.applyOp op).ids key = store.ids key := by
  unfold applyOp
  split <;> simp [h]

theorem mem_ids_applyOp {store : LockStore K ID} {op : Op K ID} {key : K} {id : ID}
    (h : id ∈ (store.applyOp op).ids key) : id ∈ store.ids key ∨ id = op.clientId := by
  by_cases hk : key = op.key
  · subst hk
    unfold applyOp at h
    split at h
    · rw [ids_lock] at h
      split at h
      · simpa using h
      · exact .inl h
    · rw [ids_unlock, if_pos rfl] at h
      exact .inl (List.mem_filter.mp h).1
    · exact .inl h
  · rw [ids_applyOp_of_ne store op hk] at h
    exact .inl h

theorem ids_applyOp_of_lock (store : LockStore K ID) {op : Op K ID} (h : op.type = .lockOp) :
    (store.applyOp op).ids op.key = if op.clientId ∈ store.ids op.key then store.ids op.key
      else store.ids op.key ++ [op.clientId] := by
  by_cases hid : op.clientId ∈ store.ids op.key <;> simp [applyOp, h, hid]

theorem ids_applyOp_of_unlock (store : LockStore K ID) {op : Op K ID} (h : op.type = .unlockOp) :
    (store.applyOp op).ids op.key = (store.ids op.key).filter (op.clientId ≠ ·) := by
  simp [applyOp, h]

theorem applyOp_eq_self {store : LockStore K ID} {op : Op K ID} (hlock : op.type ≠ .lockOp)
    (hunlock : op.type ≠ .unlockOp) : store.applyOp op = store := by
  unfold applyOp
  split
  · contradiction
  · contradiction
  · rfl

end LockStore

def Granted (before after : LockStore K ID) (key : K) (id : ID) : Prop :=
  after.owner key = some id ∧ before.owner key ≠ some id

instance [DecidableEq ID] (before after : LockStore K ID) (key : K) (id : ID) :
    Decidable (Granted before after key id) :=
  inferInstanceAs (Decidable (_ ∧ _))

def giveLockToOwner (isLeader : Bool) (clerkEnds : ID → Bool) (key : K) (lockOwner : ID) :
    Option (K × ID) :=
  if isLeader && clerkEnds lockOwner then some (key, lockOwner) else none

/-- A key without an owner passes for one that the client with the zero id owns: that client locks a
free key, or the only client of a key unlocks it while there is a clerk with the zero id.  `ids` are
the clients of the key before the operation. -/
inductive Confused [Inhabited ID] (clerkEnds : ID → Bool) (ids : List ID) (op : Op K ID) : Prop where
  | missed (hlock : op.type = .lockOp) (hid : op.clientId = default) (hfree : ids = [])
  | spurious (hunlock : op.type = .unlockOp) (hid : op.clientId ≠ default) (hown : ids ≠ [])
      (honly : ∀ id ∈ ids, id = op.clientId) (hend : clerkEnds default = true)

section Comparison

variable [Inhabited ID] [DecidableEq ID] {clerkEnds : ID → Bool} {before after : Option ID}

def compared (clerkEnds : ID → Bool) (key : K) (before after : Option ID) : Option (K × ID) :=
  (if after.getD default ≠ before.getD default then some (after.getD default) else none).bind
    (giveLockToOwner true clerkEnds key)

theorem compared_iff {key : K} {id : ID} (hend : ∀ id, after = some id → clerkEnds id = true)
    (hmissed : before = none → after ≠ some default)
    (hspurious : ∀ id, before = some id → id ≠ default → after = none → clerkEnds default = false) :
    compared clerkEnds key before after = some (key, id) ↔ after = some id ∧ before ≠ some id := by
  unfold compared
  cases after with
  | none =>
    simp only [Option.getD_none, reduceCtorEq, false_and, iff_false]
    cases before with
    | none => simp
    | some b =>
      by_cases hb : b = default
      · simp [hb]
      · simp [giveLockToOwner, hspurious b rfl hb rfl, Ne.symm hb]
  | some o =>
    have heq : o = before.getD default ↔ before = some o := by
      cases before with
      | none =>
        simp only [Option.getD_none, reduceCtorEq, iff_false]
        rintro rfl
        exact hmissed rfl rfl
      | some b => simp [eq_comm]
    simp only [Option.getD_some, ne_eq, heq, Option.some.injEq]
    split
    · rename_i hb
      simp only [Option.bind_some, giveLockToOwner, hend o rfl, Bool.and_self, if_true,
        Option.some.injEq, Prod.mk.injEq, true_and]
      constructor
      · rintro rfl
        exact ⟨rfl, hb⟩
      · exact And.left
    · rename_i hb
      simp only [Option.bind_none, reduceCtorEq, false_iff, not_and, not_not]
      rintro rfl
      exact not_not.mp hb

end Comparison

namespace LockServer

def Registered (clerkEnds : ID → Bool) (ls : LockServer K ID) : Prop :=
  ∀ key, ∀ id ∈ ls.store.ids key, clerkEnds id = true

theorem Registered.start {clerkEnds : ID → Bool} :
    (start : LockServer K ID).Registered clerkEnds := by
  intro key id hid
  simp [LockServer.start, LockStore.ids, LockStore.empty, MultiMap.get] at hid

variable [DecidableEq K] [DecidableEq ID] [Inhabited ID]

def Applies (ls : LockServer K ID) (msg : ApplyMsg (Op K ID)) : Prop :=
  msg.commandValid = true ∧ ls.isNew msg.command = true

def notified (clerkEnds : ID → Bool) (ls : LockServer K ID) (msg : ApplyMsg (Op K ID)) :
    Option (K × ID) :=
  (ls.applyMsg true msg).2.2.bind (giveLockToOwner true clerkEnds msg.command.key)

variable {ls : LockServer K ID} {msg : ApplyMsg (Op K ID)} {clerkEnds : ID → Bool}

theorem applyMsg_cases (ls : LockServer K ID) (msg : ApplyMsg (Op K ID)) :
    (ls.Applies msg ∧ (ls.applyMsg true msg).1.store = ls.store.applyOp msg.command ∧
      (ls.applyMsg true msg).2.2 = (applyToStateMachine true ls.store msg.command).2.2) ∨
    (¬ ls.Applies msg ∧ (ls.applyMsg true msg).1.store = ls.store ∧
      (ls.applyMsg true msg).2.2 = none) := by
  cases hvalid : msg.commandValid with
  | false => exact .inr (by simp [Applies, applyMsg, hvalid])
  | true =>
    cases hnew : ls.isNew msg.command with
    | false => exact .inr (by simp [Applies, applyMsg, hvalid, hnew, sendResult])
    | true =>
      exact .inl (by simp [Applies, applyMsg, hvalid, hnew, sendResult, applyToStateMachine_store])

theorem notified_eq (ls : LockServer K ID) (msg : ApplyMsg (Op K ID)) (clerkEnds : ID → Bool) :
    ls.notified clerkEnds msg = compared clerkEnds msg.command.key
      (ls.store.owner msg.command.key) ((ls.applyMsg true msg).1.store.owner msg.command.key) := by
  rw [notified, compared]
  congr 1
  rcases applyMsg_cases ls msg with ⟨-, hstore, howner⟩ | ⟨-, hstore, howner⟩
  · rw [hstore, howner, ← LockStore.getLockOwner_fst, ← LockStore.getLockOwner_fst]
    rfl
  · simp [hstore, howner]

theorem owner_applyMsg_of_ne {key : K} (h : key ≠ msg.command.key) :
    (ls.applyMsg true msg).1.store.owner key = ls.store.owner key := by
  rcases applyMsg_cases ls msg with ⟨-, hstore, -⟩ | ⟨-, hstore, -⟩
  · rw [hstore, LockStore.owner, LockStore.ids_applyOp_of_ne _ _ h]
    rfl
  · rw [hstore]

theorem Registered.applyMsg (h : ls.Registered clerkEnds)
    (hclient : clerkEnds msg.command.clientId = true) :
    (ls.applyMsg true msg).1.Registered clerkEnds := by
  intro key id hid
  rcases applyMsg_cases ls msg with ⟨-, hstore, -⟩ | ⟨-, hstore, -⟩
  · rw [hstore] at hid
    rcases LockStore.mem_ids_applyOp hid with hid | rfl
    · exact h key id hid
    · exact hclient
  · rw [hstore] at hid
    exact h key id hid

theorem Registered.applyOpsLoop {msgs : List (ApplyMsg (Op K ID))} (h : ls.Registered clerkEnds)
    (hclients : ∀ m ∈ msgs, clerkEnds m.command.clientId = true) :
    (ls.applyOpsLoop (fun _ => true) msgs).Registered clerkEnds := by
  induction msgs generalizing ls with
  | nil => exact h
  | cons m msgs ih =>
    rw [List.forall_mem_cons] at hclients
    exact ih (h.applyMsg hclients.1) hclients.2

theorem missed_of_owner {store : LockStore K ID} {op : Op K ID} (hbefore : store.owner op.key = none)
    (hafter : (store.applyOp op).owner op.key = some default) :
    Confused clerkEnds (store.ids op.key) op := by
  have hfree : store.ids op.key = [] := List.head?_eq_none_iff.mp hbefore
  by_cases hlock : op.type = .lockOp
  · rw [LockStore.owner, LockStore.ids_applyOp_of_lock _ hlock, hfree] at hafter
    exact .missed hlock (by simpa using hafter) hfree
  · by_cases hunlock : op.type = .unlockOp
    · rw [LockStore.owner, LockStore.ids_applyOp_of_unlock _ hunlock, hfree] at hafter
      cases hafter
    · rw [LockStore.applyOp_eq_self hlock hunlock, hbefore] at hafter
      cases hafter

theorem spurious_of_owner {store : LockStore K ID} {op : Op K ID} {id : ID}
    (hbefore : store.owner op.key = some id) (hid : id ≠ default)
    (hafter : (store.applyOp op).owner op.key = none) (hend : clerkEnds default = true) :
    Confused clerkEnds (store.ids op.key) op := by
  have hmem : id ∈ store.ids op.key := List.mem_of_head? hbefore
  have hempty : (store.applyOp op).ids op.key = [] := List.head?_eq_none_iff.mp hafter
  by_cases hlock : op.type = .lockOp
  · rw [LockStore.ids_applyOp_of_lock _ hlock] at hempty
    split at hempty
    · simp [hempty] at hmem
    · simp at hempty
  · by_cases hunlock : op.type = .unlockOp
    · rw [LockStore.ids_applyOp_of_unlock _ hunlock, List.filter_eq_nil_iff] at hempty
      have honly : ∀ a ∈ store.ids op.key, a = op.clientId := fun a ha => by
        have := hempty a ha
        simp only [ne_eq, decide_not, Bool.not_eq_true', decide_eq_false_iff_not, not_not] at this
        exact this.symm
      exact .spurious hunlock (honly id hmem ▸ hid) (List.ne_nil_of_mem hmem) honly hend
    · rw [LockStore.applyOp_eq_self hlock hunlock, hbefore] at hafter
      cases hafter

theorem not_exact_of_confused (happlies : ls.Applies msg)
    (h : Confused clerkEnds (ls.store.ids msg.command.key) msg.command) :
    ¬ ∀ key id, ls.notified clerkEnds msg = some (key, id) ↔
      Granted ls.store (ls.applyMsg true msg).1.store key id := by
  rcases applyMsg_cases ls msg with ⟨-, hstore, -⟩ | ⟨hnot, -, -⟩
  · intro hexact
    have hexact := hexact msg.command.key default
    rw [notified_eq, Granted, hstore] at hexact
    cases h with
    | missed hlock hid hfree =>
      have hbefore : ls.store.owner msg.command.key = none := by rw [LockStore.owner, hfree]; rfl
      have hafter : (ls.store.applyOp msg.command).owner msg.command.key = some default := by
        rw [LockStore.owner, LockStore.ids_applyOp_of_lock _ hlock, hfree, if_neg List.not_mem_nil,
          List.nil_append, List.head?_cons, hid]
      simp [hbefore, hafter, compared] at hexact
    | spurious hunlock hid hown honly hend =>
      have hbefore : ls.store.owner msg.command.key = some msg.command.clientId := by
        obtain ⟨id, ids, hids⟩ := List.exists_cons_of_ne_nil hown
        rw [LockStore.owner, hids, List.head?_cons, honly id (by simp [hids])]
      have hafter : (ls.store.applyOp msg.command).owner msg.command.key = none := by
        rw [LockStore.owner, LockStore.ids_applyOp_of_unlock _ hunlock, List.head?_eq_none_iff,
          List.filter_eq_nil_iff]
        exact fun id hmem => by simp [honly id hmem]
      simp [hbefore, hafter, compared, Ne.symm hid, giveLockToOwner, hend] at hexact
  · exact absurd happlies hnot

/-- After any messages, a leader lets clients know about keys exactly as the next message makes them
owners if and only if that message does not make the zero id pass for no owner. -/
theorem notified_iff_granted {msgs : List (ApplyMsg (Op K ID))}
    (hclients : ∀ m ∈ msgs ++ [msg], clerkEnds m.command.clientId = true)
    (hls : ls = start.applyOpsLoop (fun _ => true) msgs) :
    (∀ key id, ls.notified clerkEnds msg = some (key, id) ↔
      Granted ls.store (ls.applyMsg true msg).1.store key id) ↔
    (ls.Applies msg → ¬ Confused clerkEnds (ls.store.ids msg.command.key) msg.command) := by
  refine ⟨fun h happlies hconf => not_exact_of_confused happlies hconf h, fun h key id => ?_⟩
  have hreg : (ls.applyMsg true msg).1.Registered clerkEnds := by
    rw [hls]
    exact (Registered.start.applyOpsLoop fun m hm => hclients m (by simp [hm])).applyMsg
      (hclients msg (by simp))
  rw [notified_eq]
  by_cases hk : key = msg.command.key
  · subst hk
    refine compared_iff (fun o ho => hreg _ o (List.mem_of_head? ho)) ?_ ?_
    · intro hbefore hafter
      rcases applyMsg_cases ls msg with ⟨happlies, hstore, -⟩ | ⟨-, hstore, -⟩
      · exact h happlies (missed_of_owner hbefore (hstore ▸ hafter))
      · rw [hstore, hbefore] at hafter
        cases hafter
    · intro o hbefore ho hafter
      rcases applyMsg_cases ls msg with ⟨happlies, hstore, -⟩ | ⟨-, hstore, -⟩
      · by_contra hend
        exact h happlies (spurious_of_owner hbefore ho (hstore ▸ hafter) (by simpa using hend))
      · rw [hstore, hbefore] at hafter
        cases hafter
  · constructor
    · intro hnot
      obtain ⟨o, -, ho⟩ := Option.bind_eq_some_iff.mp hnot
      unfold giveLockToOwner at ho
      split at ho
      · cases ho
        exact absurd rfl hk
      · cases ho
    · rintro ⟨hafter, hbefore⟩
      rw [owner_applyMsg_of_ne hk] at hafter
      exact absurd hafter hbefore

theorem notified_iff_granted_handover :
    ((start.applyOpsLoop (fun _ => true)
        [⟨true, ⟨.lockOp, 0, 1, 1⟩, 1⟩, ⟨true, ⟨.lockOp, 0, 2, 1⟩, 2⟩] : LockServer Nat Nat).notified
      (fun _ => true) ⟨true, ⟨.unlockOp, 0, 1, 2⟩, 3⟩ = some (0, 2)) := by
  refine ((notified_iff_granted (by simp) rfl).mpr (fun _ => ?_) 0 2).mpr (by decide)
  rintro (⟨hlock, -, -⟩ | ⟨-, -, -, honly, -⟩)
  · cases hlock
  · exact absurd (honly 2 (by decide)) (by decide)

/-- Client `0` gets a free key and is not told; client `1` gives up a key that nobody else
wants, and client `0` is told that it owns it. -/
theorem notified_zero_id :
    (Granted (start : LockServer Nat Nat).store
        (start.applyMsg true ⟨true, ⟨.lockOp, 0, 0, 1⟩, 1⟩).1.store 0 0 ∧
      (start : LockServer Nat Nat).notified (fun _ => true) ⟨true, ⟨.lockOp, 0, 0, 1⟩, 1⟩ = none) ∧
    ∃ ls : LockServer Nat Nat,
      ls = start.applyOpsLoop (fun _ => true) [⟨true, ⟨.lockOp, 0, 1, 1⟩, 1⟩] ∧
      ls.notified (fun _ => true) ⟨true, ⟨.unlockOp, 0, 1, 2⟩, 2⟩ = some (0, 0) ∧
      (ls.applyMsg true ⟨true, ⟨.unlockOp, 0, 1, 2⟩, 2⟩).1.store.owner 0 = none :=
  ⟨by decide, _, rfl, by decide⟩

end LockServer

end MrAndRaft.RaftLock
