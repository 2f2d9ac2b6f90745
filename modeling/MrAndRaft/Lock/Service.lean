import MrAndRaft.Lib.History
import MrAndRaft.Lock.Server

/-! A group of lock servers that Raft hands the same committed operations, and the
`ReceiveLock` calls on their way to the clients. -/

namespace MrAndRaft.RaftLock

structure Grant (K ID : Type) where
  index : Nat
  key : K
  id : ID
  deriving DecidableEq, Repr

inductive Happening (n : Nat) (K ID : Type) where
  | applied (p : Fin n) (index : Nat) (op : Op K ID)
  | received (g : Grant K ID)
  deriving DecidableEq, Repr

/-- `next` is the position of the operation to apply next, `isLeader` the answer of
`rf.GetState`, `giving` the pending call of `giveLockToOwner`. -/
structure Node (K ID : Type) where
  server : LockServer K ID
  next : Nat
  isLeader : Bool
  giving : Option (Grant K ID)

/-- `calls` are the grants in flight, `trace` what has happened so far, latest first. -/
structure Service (n : Nat) (K ID : Type) where
  node : Fin n → Node K ID
  calls : List (Grant K ID)
  events : List (Event K ID)
  trace : List (Happening n K ID)

inductive Action (n : Nat) where
  | elect (p : Fin n) (isLeader : Bool)
  | apply (p : Fin n)
  | give (p : Fin n)
  | deliver (k : Nat)
  | restart (p : Fin n)
  deriving DecidableEq, Repr

inductive Disabled where
  | busy
  | nothingCommitted
  | nothingToGive
  | noCall
  deriving DecidableEq, Repr

variable {n : Nat} {K ID : Type}

def Node.start : Node K ID := ⟨.start, 0, false, none⟩

namespace Service

def init : Service n K ID := ⟨fun _ => .start, [], [], []⟩

def setNode (s : Service n K ID) (p : Fin n) (node : Node K ID) : Service n K ID :=
  { s with node := Function.update s.node p node }

def logged (s : Service n K ID) (p : Fin n) (op : Op K ID) : List (Happening n K ID) :=
  if (s.node p).server.isNew op then .applied p (s.node p).next op :: s.trace else s.trace

variable [DecidableEq K] [DecidableEq ID] [Inhabited ID]

/-- `apply` runs under `ls.mu`, which is held until `giveLockToOwner` is done: the
server takes no further operation before `give`.  The reply of a call carries
nothing, so the loop goes on whenever `Call` returns.  A restarted server is handed
the operations from the first one on. -/
def step (ops : List (Op K ID)) (clerkEnds : ID → Bool) (s : Service n K ID) :
    Action n → Except Disabled (Service n K ID)
  | .elect p isLeader => .ok (s.setNode p { s.node p with isLeader })
  | .apply p =>
    let node := s.node p
    if node.giving.isSome then .error .busy
    else match ops[node.next]? with
      | none => .error .nothingCommitted
      | some op =>
        let (server, events, owner) :=
          node.server.applyMsg node.isLeader ⟨true, op, node.next + 1⟩
        let giving := owner.map fun id => ⟨node.next, op.key, id⟩
        .ok { s.setNode p { node with server, next := node.next + 1, giving } with
          events := s.events ++ events
          trace := s.logged p op }
  | .give p =>
    let node := s.node p
    match node.giving with
    | none => .error .nothingToGive
    | some g =>
      let s := s.setNode p { node with giving := none }
      -- `giveLockToOwner` asks `isLeader` again before it looks for the clerk
      if node.isLeader && clerkEnds g.id then .ok { s with calls := g :: s.calls } else .ok s
  | .deliver k =>
    match s.calls[k]? with
    | none => .error .noCall
    | some g => .ok { s with
        calls := s.calls.eraseIdx k
        events := s.events ++ [⟨.acquireLockOp, .clientEvent, g.key, g.id⟩]
        trace := .received g :: s.trace }
  | .restart p => .ok (s.setNode p .start)

def Run (ops : List (Op K ID)) (clerkEnds : ID → Bool)
    (ok : Service n K ID → Action n → Prop) (σ : List (Service n K ID)) : Prop :=
  History.Run init (fun s a s' => ok s a ∧ s.step ops clerkEnds a = .ok s') σ

theorem exists_run (ops : List (Op K ID)) (clerkEnds : ID → Bool)
    (ok : Service n K ID → Action n → Prop) [∀ s a, Decidable (ok s a)]
    (P : Service n K ID → Prop) [DecidablePred P] (as : List (Action n))
    (h : (History.exec (fun s a => decide (ok s a)) (step ops clerkEnds) init as).any
      fun s => decide (P s)) : ∃ s σ, Run ops clerkEnds ok (s :: σ) ∧ P s :=
  History.exists_run ok P as h

end Service

def checkEvents [DecidableEq K] (objs : K → Bool) : List (Event K ID) → Bool
  | [] => true
  | event :: events =>
    match event.eventType with
    | .clientEvent =>
      if event.op = .acquireLockOp then
        !objs event.key && checkEvents (Function.update objs event.key true) events
      else checkEvents objs events
    | .serverEvent =>
      if event.op = .unlockOp then
        checkEvents (Function.update objs event.key false) events
      else checkEvents objs events

end MrAndRaft.RaftLock
