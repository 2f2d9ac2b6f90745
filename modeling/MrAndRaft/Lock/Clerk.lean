import MrAndRaft.Lib.History
import MrAndRaft.Lock.Server

/-! Clerks that send lock requests until a server says `OK`, the `Mutex` calls they
make, and the servers that wait for Raft to commit what they were asked. -/

namespace MrAndRaft.RaftLock

structure MutexArgs (K ID : Type) where
  key : K
  op : OpType
  clientId : ID
  requestId : Int
  deriving DecidableEq, Repr

inductive Err where
  | ok
  | errWrongLeader
  deriving DecidableEq, Repr

variable {n : Nat} {K ID : Type}

def MutexArgs.toOp (args : MutexArgs K ID) : Op K ID :=
  ⟨args.op, args.key, args.clientId, args.requestId⟩

def isSameOp [DecidableEq ID] (issued applied : Op K ID) : Bool :=
  issued.clientId = applied.clientId && issued.requestId = applied.requestId

structure Clerk (n : Nat) where
  leaderId : Fin (n + 1) := 0
  requestId : Int := 0

structure Sending (n : Nat) (K ID : Type) where
  args : MutexArgs K ID
  server : Fin (n + 1)
  call : Nat
  returned : Bool := false

/-- A `Mutex` handler: not started, in the `select` of `waitForApplied`, finished, or
gone with its server. -/
inductive Handler where
  | sent
  | waiting (index : Nat)
  | replied (err : Err)
  | gone
  deriving DecidableEq, Repr

structure MutexCall (n : Nat) (K ID : Type) where
  args : MutexArgs K ID
  server : Fin (n + 1)
  handler : Handler := .sent

def MutexCall.restart (p : Fin (n + 1)) (c : MutexCall n K ID) : MutexCall n K ID :=
  match c.handler with
  | .waiting _ => if c.server = p then { c with handler := .gone } else c
  | _ => c

/-- `next` is the position of the operation to apply next; `taken index` says that
the operation on the channel of `index` has been received. -/
structure Replica (K ID : Type) where
  server : LockServer K ID
  next : Nat
  taken : Nat → Bool

def Replica.start : Replica K ID := ⟨.start, 0, fun _ => false⟩

/-- `pending` holds what was given to `Start` with the index it returned, and
`applied` every call of `applyToStateMachine`, with the position of the operation. -/
structure Session (n : Nat) (K ID : Type) where
  clerk : ID → Clerk n
  sends : List (Sending n K ID)
  calls : List (MutexCall n K ID)
  pending : List (Nat × Op K ID)
  committed : List (Op K ID)
  replica : Fin (n + 1) → Replica K ID
  applied : List (Fin (n + 1) × Nat × Op K ID)

/-- `mutex k none` is a call that reaches a server which is not the leader. -/
inductive Session.Move (n : Nat) (K ID : Type) where
  | sendMutex (id : ID) (key : K) (op : OpType)
  | mutex (k : Nat) (index : Option Nat)
  | receiveResult (k : Nat)
  | timeout (k : Nat)
  | replyArrives (i : Nat)
  | callFails (i : Nat)
  | commit (k : Nat)
  | apply (p : Fin (n + 1)) (isLeader : Bool)
  | restart (p : Fin (n + 1))
  deriving Repr

inductive Session.Refused where
  | noSuchCall
  | nothingToDo
  deriving DecidableEq, Repr

namespace Session

def init : Session n K ID where
  clerk _ := {}
  sends := []
  calls := []
  pending := []
  committed := []
  replica _ := .start
  applied := []

def setReplica (s : Session n K ID) (p : Fin (n + 1)) (r : Replica K ID) : Session n K ID :=
  { s with replica := Function.update s.replica p r }

def setHandler (s : Session n K ID) (k : Nat) (c : MutexCall n K ID) (handler : Handler) :
    Session n K ID :=
  { s with calls := s.calls.set k { c with handler } }

def retry (s : Session n K ID) (i : Nat) (g : Sending n K ID) : Session n K ID :=
  { s with
    sends := s.sends.set i { g with server := g.server + 1, call := s.calls.length }
    calls := s.calls ++ [{ args := g.args, server := g.server + 1 }] }

variable [DecidableEq K] [DecidableEq ID] [Inhabited ID]

def step (s : Session n K ID) : Move n K ID → Except Refused (Session n K ID)
  | .sendMutex id key op =>
    let clerk := s.clerk id
    let args := ⟨key, op, id, clerk.requestId + 1⟩
    .ok { s with
      clerk := Function.update s.clerk id { clerk with requestId := clerk.requestId + 1 }
      sends := s.sends ++ [{ args, server := clerk.leaderId, call := s.calls.length }]
      calls := s.calls ++ [{ args, server := clerk.leaderId }] }
  | .mutex k index =>
    match s.calls[k]? with
    | none => .error .noSuchCall
    | some c =>
      if c.handler = .sent then
        match index with
        | none => .ok (s.setHandler k c (.replied .errWrongLeader))
        | some index =>
          .ok { s.setHandler k c (.waiting index) with
            pending := s.pending ++ [(index, c.args.toOp)] }
      else .error .nothingToDo
  | .receiveResult k =>
    match s.calls[k]? with
    | none => .error .noSuchCall
    | some c =>
      match c.handler with
      | .waiting index =>
        let r := s.replica c.server
        match r.taken index, r.server.sent index with
        | false, appliedOp :: _ =>
          let err := if isSameOp c.args.toOp appliedOp then .ok else .errWrongLeader
          let r := { r with taken := Function.update r.taken index true }
          .ok ((s.setHandler k c (.replied err)).setReplica c.server r)
        | _, _ => .error .nothingToDo
      | _ => .error .nothingToDo
  | .timeout k =>
    match s.calls[k]? with
    | none => .error .noSuchCall
    | some c =>
      match c.handler with
      | .waiting _ => .ok (s.setHandler k c (.replied .errWrongLeader))
      | _ => .error .nothingToDo
  | .replyArrives i =>
    match s.sends[i]? with
    | none => .error .noSuchCall
    | some g =>
      if g.returned then .error .nothingToDo
      else match s.calls[g.call]? with
        | none => .error .noSuchCall
        | some c =>
          match c.handler with
          | .replied .errWrongLeader => .ok (s.retry i g)
          | .replied .ok =>
            let id := g.args.clientId
            .ok { s with
              sends := s.sends.set i { g with returned := true }
              clerk := Function.update s.clerk id { s.clerk id with leaderId := g.server } }
          | _ => .error .nothingToDo
  | .callFails i =>
    match s.sends[i]? with
    | none => .error .noSuchCall
    | some g => if g.returned then .error .nothingToDo else .ok (s.retry i g)
  | .commit k =>
    match s.pending[k]? with
    | none => .error .noSuchCall
    | some (index, op) =>
      if index = s.committed.length + 1 then
        .ok { s with pending := s.pending.eraseIdx k, committed := s.committed ++ [op] }
      else .error .nothingToDo
  | .apply p isLeader =>
    let r := s.replica p
    match s.committed[r.next]? with
    | none => .error .nothingToDo
    | some op =>
      let server := (r.server.applyMsg isLeader ⟨true, op, r.next + 1⟩).1
      .ok { s.setReplica p { r with server, next := r.next + 1 } with
        applied := if r.server.isNew op then (p, r.next, op) :: s.applied else s.applied }
  | .restart p =>
    .ok { s.setReplica p .start with calls := s.calls.map (MutexCall.restart p) }

def Run (ok : Session n K ID → Move n K ID → Prop) (σ : List (Session n K ID)) : Prop :=
  History.Run init (fun s m s' => ok s m ∧ s.step m = .ok s') σ

end Session

end MrAndRaft.RaftLock
