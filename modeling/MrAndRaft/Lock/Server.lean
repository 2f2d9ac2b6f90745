import Mathlib.Data.Int.Order.Basic
import MrAndRaft.Lib.ExactlyOnce
import MrAndRaft.Lock.Store
import MrAndRaft.Raft.Peer

/-! The lock server: the loop that takes committed operations from Raft, drops
retries, applies the rest to the lock store, and lets the new owner of a lock know. -/

namespace MrAndRaft.RaftLock

open ExactlyOnce

inductive OpType where
  | lockOp
  | unlockOp
  | requestLockOp
  | acquireLockOp
  | requestUnlockOp
  deriving DecidableEq, Repr

structure Op (K ID : Type) where
  type : OpType
  key : K
  clientId : ID
  requestId : Int
  deriving DecidableEq, Repr

inductive EventType where
  | serverEvent
  | clientEvent
  deriving DecidableEq, Repr

structure Event (K ID : Type) where
  op : OpType
  eventType : EventType
  key : K
  id : ID
  deriving DecidableEq, Repr

variable {K ID : Type} [DecidableEq K] [DecidableEq ID] [Inhabited ID]

omit [Inhabited ID] in
def LockStore.applyOp (store : LockStore K ID) (op : Op K ID) : LockStore K ID :=
  match op.type with
  | .lockOp => store.lock op.key op.clientId
  | .unlockOp => store.unlock op.key op.clientId
  | _ => store

/-- The new store, what is sent on `events`, and the owner that `giveLockToOwner`
is called for.  `isLeader` is the answer of `rf.GetState`. -/
def applyToStateMachine (isLeader : Bool) (store : LockStore K ID) (op : Op K ID) :
    LockStore K ID × List (Event K ID) × Option ID :=
  let (owner, _) := store.getLockOwner op.key
  let store := store.applyOp op
  if isLeader then
    let event := ⟨op.type, .serverEvent, op.key, op.clientId⟩
    let (newOwner, _) := store.getLockOwner op.key
    (store, [event], if newOwner ≠ owner then some newOwner else none)
  else (store, [], none)

/-- `results index` lists what was sent on the channel of that index, `none` before
the channel is made. -/
structure LockServer (K ID : Type) where
  store : LockStore K ID
  results : Nat → Option (List (Op K ID))
  lastApplied : ID → Option Int

namespace LockServer

omit [DecidableEq K] [DecidableEq ID] [Inhabited ID] in
def start : LockServer K ID := ⟨.empty, fun _ => none, fun _ => none⟩

omit [DecidableEq K] [DecidableEq ID] [Inhabited ID] in
def isNew (ls : LockServer K ID) (op : Op K ID) : Bool :=
  match ls.lastApplied op.clientId with
  | none => true
  | some lastId => op.requestId > lastId

omit [DecidableEq K] [DecidableEq ID] [Inhabited ID] in
def sendResult (ls : LockServer K ID) (index : Nat) (op : Op K ID) : LockServer K ID :=
  let opCh := (ls.results index).getD []
  { ls with results := Function.update ls.results index (some (opCh ++ [op])) }

/-- One round of `applyOpsLoop`, up to the call of `giveLockToOwner`. -/
def applyMsg (isLeader : Bool) (ls : LockServer K ID) (msg : ApplyMsg (Op K ID)) :
    LockServer K ID × List (Event K ID) × Option ID :=
  let index := msg.commandIndex
  let op := msg.command
  if !msg.commandValid then (ls, [], none)
  else if ls.isNew op then
    let (store, events, owner) := applyToStateMachine isLeader ls.store op
    let lastApplied := Function.update ls.lastApplied op.clientId (some op.requestId)
    (sendResult { ls with store, lastApplied } index op, events, owner)
  else (ls.sendResult index op, [], none)

/-- `isLeader i` is the answer of `rf.GetState` while the message of index `i` is
applied. -/
def applyOpsLoop (isLeader : Nat → Bool) (ls : LockServer K ID) :
    List (ApplyMsg (Op K ID)) → LockServer K ID
  | [] => ls
  | msg :: msgs =>
    applyOpsLoop isLeader (ls.applyMsg (isLeader msg.commandIndex) msg).1 msgs

omit [DecidableEq K] [DecidableEq ID] [Inhabited ID] in
def receiver (ls : LockServer K ID) : Receiver (LockStore K ID) ID Int := ⟨ls.store, ls.lastApplied⟩

omit [DecidableEq K] [DecidableEq ID] [Inhabited ID] in
theorem isNew_iff (ls : LockServer K ID) (op : Op K ID) :
    ls.isNew op = true ↔ IsNew Op.clientId Op.requestId ls.lastApplied op := by
  unfold isNew IsNew
  cases ls.lastApplied op.clientId <;> simp

theorem applyToStateMachine_store (isLeader : Bool) (store : LockStore K ID) (op : Op K ID) :
    (applyToStateMachine isLeader store op).1 = store.applyOp op := by
  cases isLeader <;> rfl

theorem receiver_applyMsg (isLeader : Bool) (ls : LockServer K ID) {msg : ApplyMsg (Op K ID)}
    (hvalid : msg.commandValid = true) :
    (ls.applyMsg isLeader msg).1.receiver =
      receive Op.clientId Op.requestId LockStore.applyOp ls.receiver msg.command := by
  unfold applyMsg receive
  by_cases hnew : IsNew Op.clientId Op.requestId ls.lastApplied msg.command
  · rw [if_pos (show IsNew Op.clientId Op.requestId ls.receiver.last msg.command from hnew)]
    simp [hvalid, (ls.isNew_iff _).mpr hnew, receiver, sendResult, applyToStateMachine_store]
  · have hold : ls.isNew msg.command = false := by
      rw [Bool.eq_false_iff]
      exact fun h => hnew ((ls.isNew_iff _).mp h)
    simp [hvalid, hold, receiver, hnew, sendResult]

theorem applyMsg_of_invalid (isLeader : Bool) (ls : LockServer K ID)
    {msg : ApplyMsg (Op K ID)} (hvalid : msg.commandValid = false) :
    (ls.applyMsg isLeader msg).1 = ls := by
  simp [applyMsg, hvalid]

end LockServer

def commands (msgs : List (ApplyMsg (Op K ID))) : List (Op K ID) :=
  (msgs.filter (·.commandValid)).map (·.command)

theorem LockServer.receiver_applyOpsLoop (isLeader : Nat → Bool) (ls : LockServer K ID)
    (msgs : List (ApplyMsg (Op K ID))) :
    (ls.applyOpsLoop isLeader msgs).receiver =
      (commands msgs).foldl (receive Op.clientId Op.requestId LockStore.applyOp) ls.receiver := by
  induction msgs generalizing ls with
  | nil => rfl
  | cons msg msgs ih =>
    rw [applyOpsLoop, ih]
    cases hvalid : msg.commandValid with
    | true => simp [commands, hvalid, receiver_applyMsg]
    | false => simp [commands, hvalid, applyMsg_of_invalid]

theorem exactly_once (isLeader : Nat → Bool) (msgs : List (ApplyMsg (Op K ID)))
    (h : Ascending Op.clientId Op.requestId (commands msgs)) :
    (LockServer.start.applyOpsLoop isLeader msgs).store =
      (firsts Op.clientId Op.requestId [] (commands msgs)).foldl LockStore.applyOp .empty := by
  rw [← foldl_receive_eq LockStore.applyOp .empty h]
  exact congrArg Receiver.state (LockServer.receiver_applyOpsLoop isLeader .start msgs)

def retried : List (ApplyMsg (Op Nat Nat)) :=
  [⟨true, ⟨.lockOp, 0, 1, 1⟩, 1⟩, ⟨true, ⟨.lockOp, 0, 2, 1⟩, 2⟩, ⟨true, ⟨.unlockOp, 0, 1, 2⟩, 3⟩,
    ⟨true, ⟨.lockOp, 0, 1, 1⟩, 4⟩, ⟨true, ⟨.lockOp, 0, 1, 3⟩, 5⟩, ⟨true, ⟨.lockOp, 0, 2, 1⟩, 6⟩]

theorem exactly_once_retried :
    Ascending Op.clientId Op.requestId (commands retried) ∧
      (LockServer.start.applyOpsLoop (fun _ => true) retried).store =
        (firsts Op.clientId Op.requestId [] (commands retried)).foldl LockStore.applyOp .empty := by
  have h : Ascending Op.clientId Op.requestId (commands retried) := by
    unfold Ascending
    decide
  exact ⟨h, exactly_once _ retried h⟩

namespace LockServer

omit [DecidableEq K] [DecidableEq ID] [Inhabited ID] in
def sent (ls : LockServer K ID) (index : Nat) : List (Op K ID) := (ls.results index).getD []

theorem sent_applyMsg (isLeader : Bool) (ls : LockServer K ID) (msg : ApplyMsg (Op K ID))
    (index : Nat) :
    (ls.applyMsg isLeader msg).1.sent index =
      if index = msg.commandIndex ∧ msg.commandValid then ls.sent index ++ [msg.command]
      else ls.sent index := by
  unfold applyMsg
  cases hvalid : msg.commandValid with
  | false => simp
  | true =>
    by_cases hindex : index = msg.commandIndex <;>
      cases hnew : ls.isNew msg.command <;> simp [hindex, hnew, sent, sendResult]

end LockServer

end MrAndRaft.RaftLock
