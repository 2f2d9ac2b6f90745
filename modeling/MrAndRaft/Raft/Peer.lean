import Mathlib.Data.List.Basic

/-! One Raft peer: the state behind `rf.mu` and the code that runs while that
mutex is held.  A result of `none` is a Go runtime panic, an index or slice
expression out of range. -/

namespace MrAndRaft

inductive State where
  | leader
  | follower
  | candidate
  deriving DecidableEq, Repr

structure LogEntry (Cmd : Type) where
  term : Nat
  command : Cmd
  deriving DecidableEq, Repr

structure ApplyMsg (Cmd : Type) where
  commandValid : Bool
  command : Cmd
  commandIndex : Nat
  deriving DecidableEq, Repr

/-- `votedFor` is `none` for the source's `-1`; `applyCh` lists everything sent
on the channel since `Make`. -/
structure Raft (Cmd : Type) where
  state : State
  votes : Nat
  currentTerm : Nat
  votedFor : Option Nat
  log : List (LogEntry Cmd)
  commitIndex : Nat
  lastApplied : Nat
  nextIndex : List Nat
  matchIndex : List Nat
  applyCh : List (ApplyMsg Cmd)
  deriving DecidableEq, Repr

structure RequestVoteArgs where
  term : Nat
  candidateId : Nat
  lastLogIndex : Nat
  lastLogTerm : Nat
  deriving DecidableEq, Repr

structure RequestVoteReply where
  term : Nat
  voteGranted : Bool
  deriving DecidableEq, Repr

/-- The defaults are Go's zero values: `{}` is `AppendEntriesArgs{}`. -/
structure AppendEntriesArgs (Cmd : Type) where
  term : Nat := 0
  leaderId : Nat := 0
  prevLogIndex : Nat := 0
  prevLogTerm : Nat := 0
  entries : List (LogEntry Cmd) := []
  leaderCommit : Nat := 0
  deriving DecidableEq, Repr

structure AppendEntriesReply where
  term : Nat
  success : Bool
  deriving DecidableEq, Repr

structure Persistent (Cmd : Type) where
  log : List (LogEntry Cmd)
  currentTerm : Nat
  votedFor : Option Nat
  deriving DecidableEq, Repr

variable {Cmd : Type}

namespace Raft

def getState (rf : Raft Cmd) : Nat × Bool := (rf.currentTerm, rf.state = .leader)

def persist (rf : Raft Cmd) : Persistent Cmd := ⟨rf.log, rf.currentTerm, rf.votedFor⟩

def readPersist (rf : Raft Cmd) : Option (Persistent Cmd) → Raft Cmd
  | none => rf
  | some data =>
    { rf with log := data.log, currentTerm := data.currentTerm, votedFor := data.votedFor }

/-- `default` stands for the nil command of the entry at index 0. -/
def make [Inhabited Cmd] (saved : Option (Persistent Cmd)) : Raft Cmd :=
  readPersist
    { state := .follower, votes := 0, currentTerm := 0, votedFor := none,
      log := [⟨0, default⟩], commitIndex := 0, lastApplied := 0,
      nextIndex := [], matchIndex := [], applyCh := [] }
    saved

def setAt (xs : List Nat) (i v : Nat) : Option (List Nat) :=
  if i < xs.length then some (xs.set i v) else none

def start (me : Nat) (command : Cmd) (rf : Raft Cmd) : Option (Raft Cmd × Int × Nat × Bool) :=
  if rf.state ≠ .leader then
    some (rf, -1, rf.currentTerm, false)
  else do
    let log := rf.log ++ [⟨rf.currentTerm, command⟩]
    let index := log.length - 1
    let matchIndex ← setAt rf.matchIndex me index
    let nextIndex ← setAt rf.nextIndex me (index + 1)
    return ({ rf with log, matchIndex, nextIndex }, index, rf.currentTerm, true)

def becomeCandidate (me : Nat) (rf : Raft Cmd) : Option (Raft Cmd × RequestVoteArgs) := do
  let last ← rf.log[rf.log.length - 1]?
  let term := rf.currentTerm + 1
  return ({ rf with state := .candidate, currentTerm := term, votedFor := some me, votes := 1 },
    ⟨term, me, rf.log.length - 1, last.term⟩)

def stepDown (rf : Raft Cmd) (term : Nat) : Raft Cmd :=
  { rf with state := .follower, currentTerm := term, votedFor := none }

def observe (rf : Raft Cmd) (term : Nat) : Raft Cmd :=
  if rf.currentTerm < term then rf.stepDown term else rf

def upToDate (args : RequestVoteArgs) (lastIndex lastTerm : Nat) : Bool :=
  if args.lastLogTerm = lastTerm then lastIndex ≤ args.lastLogIndex
  else lastTerm < args.lastLogTerm

def requestVote (args : RequestVoteArgs) (rf : Raft Cmd) :
    Option (Raft Cmd × RequestVoteReply) :=
  if args.term < rf.currentTerm then
    some (rf, ⟨rf.currentTerm, false⟩)
  else do
    let rf := rf.observe args.term
    let lastIndex := rf.log.length - 1
    let last ← rf.log[lastIndex]?
    -- this branch leaves `reply.Term` at its zero value
    if (rf.votedFor = none ∨ rf.votedFor = some args.candidateId) ∧
        upToDate args lastIndex last.term then
      return ({ rf with votedFor := some args.candidateId }, ⟨0, true⟩)
    else
      return (rf, ⟨0, false⟩)

/-- The part of `sendRequestVote` after `Call`; the second component is the
request broadcast by a peer that wins the election here. -/
def sendRequestVote (peers : Nat) (reply : RequestVoteReply) (rf : Raft Cmd) :
    Raft Cmd × Option (AppendEntriesArgs Cmd) :=
  if rf.currentTerm < reply.term then
    (rf.stepDown reply.term, none)
  else if reply.voteGranted then
    let rf := { rf with votes := rf.votes + 1 }
    if peers / 2 < rf.votes ∧ rf.state = .candidate then
      ({ rf with
          state := .leader
          nextIndex := List.replicate peers rf.log.length
          matchIndex := List.replicate peers 0 }, some {})
    else
      (rf, none)
  else
    (rf, none)

/-- The loop that sends `lastApplied + 1 .. commitIndex` on `applyCh`, `k` rounds of it. -/
def applyRounds : Nat → Raft Cmd → Option (Raft Cmd)
  | 0, rf => some rf
  | k + 1, rf => do
    let e ← rf.log[rf.lastApplied + 1]?
    applyRounds k
      { rf with
        applyCh := rf.applyCh ++ [⟨true, e.command, rf.lastApplied + 1⟩]
        lastApplied := rf.lastApplied + 1 }

def applyCommitted (rf : Raft Cmd) : Option (Raft Cmd) :=
  rf.applyRounds (rf.commitIndex - rf.lastApplied)

def commitTo (rf : Raft Cmd) (index : Nat) : Option (Raft Cmd) :=
  { rf with commitIndex := index }.applyCommitted

def followCommit (leaderCommit : Nat) (rf : Raft Cmd) : Option (Raft Cmd) :=
  if rf.commitIndex < leaderCommit then
    rf.commitTo
      (if rf.log.length - 1 < leaderCommit then rf.log.length - 1 else leaderCommit)
  else
    some rf

def appendEntries (args : AppendEntriesArgs Cmd) (rf : Raft Cmd) :
    Option (Raft Cmd × AppendEntriesReply) :=
  if args.term < rf.currentTerm then
    some (rf, ⟨rf.currentTerm, false⟩)
  else
    let rf := rf.observe args.term
    if rf.log.length ≤ args.prevLogIndex then
      some (rf, ⟨rf.currentTerm, false⟩)
    else do
      let prev ← rf.log[args.prevLogIndex]?
      if args.prevLogTerm ≠ prev.term then
        return ({ rf with log := rf.log.take args.prevLogIndex }, ⟨rf.currentTerm, false⟩)
      else
        let rf := { rf with log := rf.log.take (args.prevLogIndex + 1) ++ args.entries }
        (rf.followCommit args.leaderCommit).map (·, ⟨rf.currentTerm, true⟩)

def matchCount (rf : Raft Cmd) (N : Nat) : Nat := rf.matchIndex.countP (N ≤ ·)

/-- The downward loop over `N`; the argument is `N + 1`. -/
def commitScan (peers : Nat) (rf : Raft Cmd) : Nat → Option (Raft Cmd)
  | 0 => some rf
  | N + 1 =>
    if N < rf.commitIndex then
      some rf
    else do
      let e ← rf.log[N]?
      let count := if e.term = rf.currentTerm then rf.matchCount N else 0
      if peers / 2 < count ∧ rf.state = .leader then
        rf.commitTo N
      else
        commitScan peers rf N

def sendAppendEntries (peers server : Nat) (args : AppendEntriesArgs Cmd)
    (reply : AppendEntriesReply) (rf : Raft Cmd) : Option (Raft Cmd) :=
  if rf.state ≠ .leader then
    some rf
  else if rf.currentTerm < reply.term then
    some (rf.stepDown reply.term)
  else if reply.success then do
    let matchIndex ← setAt rf.matchIndex server (args.entries.length + args.prevLogIndex)
    let nextIndex ← setAt rf.nextIndex server (args.entries.length + args.prevLogIndex + 1)
    { rf with matchIndex, nextIndex }.commitScan peers rf.log.length
  else do
    let next ← rf.nextIndex[server]?
    if 1 < next then
      let nextIndex ← setAt rf.nextIndex server (next / 2)
      return { rf with nextIndex }
    else
      rf.commitScan peers rf.log.length

/-- The request `sendHeartBeats` builds for `peer`, with what `Entries` holds then: it is a slice of the
array that `rf.log` is in, until `Call` has encoded it. -/
def heartBeat (me peer : Nat) (rf : Raft Cmd) : Option (AppendEntriesArgs Cmd) := do
  let next ← rf.nextIndex[peer]?
  if next < rf.log.length then
    -- `rf.log[next-1]` panics on a negative index
    if next = 0 then none else
    let prev ← rf.log[next - 1]?
    return {
      term := rf.currentTerm, leaderId := me, prevLogIndex := next - 1,
      prevLogTerm := prev.term, entries := rf.log.drop next, leaderCommit := rf.commitIndex }
  else
    let last ← rf.log[rf.log.length - 1]?
    return {
      term := rf.currentTerm, leaderId := me, prevLogIndex := next - 1,
      prevLogTerm := last.term, entries := [], leaderCommit := rf.commitIndex }

def others {peers : Nat} (me : Fin peers) : List (Fin peers) :=
  (List.finRange peers).filter (· ≠ me)

def sendHeartBeats {peers : Nat} (me : Fin peers) (rf : Raft Cmd) :
    Option (List (Fin peers × AppendEntriesArgs Cmd)) :=
  if rf.state ≠ .leader then
    some []
  else
    (others me).mapM fun peer : Fin peers => (rf.heartBeat me peer).map (Prod.mk peer)

end Raft

end MrAndRaft
