import MrAndRaft.Lib.History
import MrAndRaft.Raft.Peer

/-! The peers, their tickers and persisters, and every RPC ever issued.  An RPC
that is lost or delayed is one whose next event has not happened.  Its arguments
are as they were built; `Aliased` is the cluster whose requests share arrays with
the logs until they are encoded. -/

namespace MrAndRaft

/-- How far an RPC has come.  A handler that has released `rf.mu` still waits to
hand a value to the server's ticker. -/
inductive Stage (Reply : Type) where
  | sent
  | handled (reply : Reply)
  | returned (reply : Reply)
  | received (reply : Reply)
  | lost
  deriving DecidableEq, Repr

namespace Stage

variable {Reply : Type}

def reply : Stage Reply → Option Reply
  | .sent => none
  | .handled r => some r
  | .returned r => some r
  | .received r => some r
  | .lost => none

def serverCrash : Stage Reply → Stage Reply
  | .handled _ => .lost
  | st => st

end Stage

/-- A goroutine blocked in `Call`.  `sentTerm` is the caller's `currentTerm`
when the goroutine was started; it is `orphan` once the caller has crashed. -/
structure Call (n : Nat) (Args Reply : Type) where
  src : Fin n
  dst : Fin n
  sentTerm : Nat
  args : Args
  stage : Stage Reply := .sent
  orphan : Bool := false
  deriving DecidableEq, Repr

namespace Call

variable {n : Nat} {Args Reply : Type}

def crash (p : Fin n) (c : Call n Args Reply) : Call n Args Reply :=
  { c with
    stage := if c.dst = p then c.stage.serverCrash else c.stage
    orphan := c.orphan || c.src = p }

end Call

abbrev VoteCall (n : Nat) := Call n RequestVoteArgs RequestVoteReply

abbrev AppendCall (n : Nat) (Cmd : Type) := Call n (AppendEntriesArgs Cmd) AppendEntriesReply

/-- The ticker goroutine is before its `rf.mu.Lock()`, or in the `select` that
follows, in the branch for the state it read under that lock. -/
inductive Ticker where
  | asleep
  | waiting (state : State)
  deriving DecidableEq, Repr

structure Cluster (n : Nat) (Cmd : Type) where
  peer : Fin n → Raft Cmd
  ticker : Fin n → Ticker
  saved : Fin n → Option (Persistent Cmd)
  voteCalls : List (VoteCall n)
  appendCalls : List (AppendCall n Cmd)

/-- `k` is the position of the RPC among those of its kind. -/
inductive Event (n : Nat) (Cmd : Type) where
  | persist (p : Fin n)
  | becomeCandidate (p : Fin n)
  | sendHeartBeats (p : Fin n)
  | start (p : Fin n) (command : Cmd)
  | requestVote (k : Nat)
  | appendEntries (k : Nat)
  | receivedVote (k : Nat)
  | heartBeat (k : Nat)
  | sendRequestVote (k : Nat)
  | sendAppendEntries (k : Nat)
  | crash (p : Fin n)
  deriving DecidableEq, Repr

inductive Fault where
  | disabled
  | outOfRange
  deriving DecidableEq, Repr

namespace Cluster

variable {n : Nat} {Cmd : Type}

def init [Inhabited Cmd] : Cluster n Cmd where
  peer _ := Raft.make none
  ticker _ := .asleep
  saved _ := none
  voteCalls := []
  appendCalls := []

def setPeer (s : Cluster n Cmd) (p : Fin n) (rf : Raft Cmd) : Cluster n Cmd :=
  { s with peer := Function.update s.peer p rf }

def setTicker (s : Cluster n Cmd) (p : Fin n) (t : Ticker) : Cluster n Cmd :=
  { s with ticker := Function.update s.ticker p t }

def setVoteStage (s : Cluster n Cmd) (k : Nat) (c : VoteCall n)
    (stage : Stage RequestVoteReply) : Cluster n Cmd :=
  { s with voteCalls := s.voteCalls.set k { c with stage } }

def setAppendStage (s : Cluster n Cmd) (k : Nat) (c : AppendCall n Cmd)
    (stage : Stage AppendEntriesReply) : Cluster n Cmd :=
  { s with appendCalls := s.appendCalls.set k { c with stage } }

def callVotes (s : Cluster n Cmd) (p : Fin n) (args : RequestVoteArgs) : Cluster n Cmd :=
  { s with
    voteCalls := s.voteCalls ++
      (Raft.others p).map fun q => { src := p, dst := q, sentTerm := args.term, args } }

def callAppends (s : Cluster n Cmd) (p : Fin n)
    (requests : List (Fin n × AppendEntriesArgs Cmd)) : Cluster n Cmd :=
  { s with
    appendCalls := s.appendCalls ++
      requests.map fun (q, args) =>
        { src := p, dst := q, sentTerm := (s.peer p).currentTerm, args } }

def broadcast (p : Fin n) (args : Option (AppendEntriesArgs Cmd)) :
    List (Fin n × AppendEntriesArgs Cmd) :=
  match args with
  | none => []
  | some args => (Raft.others p).map (·, args)

/-- The `select` of a ticker that read `leader` does not receive from `receivedVoteChan`. -/
def takesVote : Ticker → Bool
  | .asleep => false
  | .waiting st => st ≠ .leader

def takesHeartBeat : Ticker → Bool
  | .asleep => false
  | .waiting _ => true

def orPanic {α β : Type} (x : Option α) (f : α → β) : Except Fault β :=
  match x with
  | none => .error .outOfRange
  | some a => .ok (f a)

def step [Inhabited Cmd] (s : Cluster n Cmd) : Event n Cmd → Except Fault (Cluster n Cmd)
  | .persist p =>
    if s.ticker p = .asleep then
      .ok { s with
        ticker := Function.update s.ticker p (.waiting (s.peer p).state)
        saved := Function.update s.saved p (some (s.peer p).persist) }
    else .error .disabled
  | .becomeCandidate p =>
    if s.ticker p = .waiting .follower ∨ s.ticker p = .waiting .candidate then
      orPanic ((s.peer p).becomeCandidate p) fun (rf, args) =>
        ((s.setPeer p rf).setTicker p .asleep).callVotes p args
    else .error .disabled
  | .sendHeartBeats p =>
    if s.ticker p = .waiting .leader then
      orPanic ((s.peer p).sendHeartBeats p) fun requests =>
        (s.setTicker p .asleep).callAppends p requests
    else .error .disabled
  | .start p command =>
    orPanic ((s.peer p).start p command) fun (rf, _) => s.setPeer p rf
  | .requestVote k =>
    match s.voteCalls[k]? with
    | some c =>
      if c.stage = .sent then
        orPanic ((s.peer c.dst).requestVote c.args) fun (rf, reply) =>
          (s.setPeer c.dst rf).setVoteStage k c (.handled reply)
      else .error .disabled
    | none => .error .disabled
  | .appendEntries k =>
    match s.appendCalls[k]? with
    | some c =>
      if c.stage = .sent then
        orPanic ((s.peer c.dst).appendEntries c.args) fun (rf, reply) =>
          (s.setPeer c.dst rf).setAppendStage k c (.handled reply)
      else .error .disabled
    | none => .error .disabled
  | .receivedVote k =>
    match s.voteCalls[k]? with
    | some c =>
      match c.stage with
      | .handled reply =>
        if takesVote (s.ticker c.dst) then
          .ok ((s.setTicker c.dst .asleep).setVoteStage k c (.returned reply))
        else .error .disabled
      | _ => .error .disabled
    | none => .error .disabled
  | .heartBeat k =>
    match s.appendCalls[k]? with
    | some c =>
      match c.stage with
      | .handled reply =>
        if takesHeartBeat (s.ticker c.dst) then
          .ok ((s.setTicker c.dst .asleep).setAppendStage k c (.returned reply))
        else .error .disabled
      | _ => .error .disabled
    | none => .error .disabled
  | .sendRequestVote k =>
    match s.voteCalls[k]? with
    | some c =>
      match c.stage with
      | .returned reply =>
        if c.orphan then .error .disabled
        else
          let (rf, args) := (s.peer c.src).sendRequestVote n reply
          .ok (((s.setPeer c.src rf).setVoteStage k c (.received reply)).callAppends c.src
            (broadcast c.src args))
      | _ => .error .disabled
    | none => .error .disabled
  | .sendAppendEntries k =>
    match s.appendCalls[k]? with
    | some c =>
      match c.stage with
      | .returned reply =>
        if c.orphan then .error .disabled
        else
          orPanic ((s.peer c.src).sendAppendEntries n c.dst c.args reply) fun rf =>
            (s.setPeer c.src rf).setAppendStage k c (.received reply)
      | _ => .error .disabled
    | none => .error .disabled
  | .crash p =>
    .ok {
      peer := Function.update s.peer p (Raft.make (s.saved p))
      ticker := Function.update s.ticker p .asleep
      saved := s.saved
      voteCalls := s.voteCalls.map (Call.crash p)
      appendCalls := s.appendCalls.map (Call.crash p) }

end Cluster

end MrAndRaft
