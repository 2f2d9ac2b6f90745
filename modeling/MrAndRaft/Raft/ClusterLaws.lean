import MrAndRaft.Lib.Prefix
import MrAndRaft.Raft.Cluster
import MrAndRaft.Raft.PeerLaws

/-! What one event can do to the peers and to the RPCs. -/

namespace MrAndRaft

namespace Cluster

variable {n : Nat} {Cmd : Type} {s s' : Cluster n Cmd} {p q : Fin n}

@[simp] theorem setPeer_peer_self (rf : Raft Cmd) : (s.setPeer p rf).peer p = rf := by
  simp [setPeer]

@[simp] theorem setPeer_peer_ne (rf : Raft Cmd) (h : q ≠ p) :
    (s.setPeer p rf).peer q = s.peer q := by
  simp [setPeer, h]

@[simp] theorem setPeer_voteCalls (rf : Raft Cmd) : (s.setPeer p rf).voteCalls = s.voteCalls := rfl
@[simp] theorem setPeer_appendCalls (rf : Raft Cmd) :
    (s.setPeer p rf).appendCalls = s.appendCalls := rfl
@[simp] theorem setPeer_saved (rf : Raft Cmd) : (s.setPeer p rf).saved = s.saved := rfl
@[simp] theorem setTicker_peer (t : Ticker) : (s.setTicker p t).peer = s.peer := rfl
@[simp] theorem setTicker_saved (t : Ticker) : (s.setTicker p t).saved = s.saved := rfl
@[simp] theorem setTicker_voteCalls (t : Ticker) : (s.setTicker p t).voteCalls = s.voteCalls := rfl
@[simp] theorem setTicker_appendCalls (t : Ticker) :
    (s.setTicker p t).appendCalls = s.appendCalls := rfl

variable {k : Nat} {v : VoteCall n} {a : AppendCall n Cmd}

@[simp] theorem setVoteStage_peer (st : Stage RequestVoteReply) :
    (s.setVoteStage k v st).peer = s.peer := rfl
@[simp] theorem setVoteStage_saved (st : Stage RequestVoteReply) :
    (s.setVoteStage k v st).saved = s.saved := rfl
@[simp] theorem setVoteStage_voteCalls (st : Stage RequestVoteReply) :
    (s.setVoteStage k v st).voteCalls = s.voteCalls.set k { v with stage := st } := rfl
@[simp] theorem setVoteStage_appendCalls (st : Stage RequestVoteReply) :
    (s.setVoteStage k v st).appendCalls = s.appendCalls := rfl
@[simp] theorem setAppendStage_peer (st : Stage AppendEntriesReply) :
    (s.setAppendStage k a st).peer = s.peer := rfl
@[simp] theorem setAppendStage_saved (st : Stage AppendEntriesReply) :
    (s.setAppendStage k a st).saved = s.saved := rfl
@[simp] theorem setAppendStage_voteCalls (st : Stage AppendEntriesReply) :
    (s.setAppendStage k a st).voteCalls = s.voteCalls := rfl
@[simp] theorem setAppendStage_appendCalls (st : Stage AppendEntriesReply) :
    (s.setAppendStage k a st).appendCalls = s.appendCalls.set k { a with stage := st } := rfl
@[simp] theorem callVotes_peer (args : RequestVoteArgs) : (s.callVotes p args).peer = s.peer := rfl
@[simp] theorem callVotes_saved (args : RequestVoteArgs) :
    (s.callVotes p args).saved = s.saved := rfl
@[simp] theorem callVotes_appendCalls (args : RequestVoteArgs) :
    (s.callVotes p args).appendCalls = s.appendCalls := rfl

variable {reqs : List (Fin n × AppendEntriesArgs Cmd)}

@[simp] theorem callAppends_peer : (s.callAppends p reqs).peer = s.peer := rfl
@[simp] theorem callAppends_saved : (s.callAppends p reqs).saved = s.saved := rfl
@[simp] theorem callAppends_voteCalls : (s.callAppends p reqs).voteCalls = s.voteCalls := rfl

theorem orPanic_eq_ok {α β : Type} {x : Option α} {f : α → β} {b : β}
    (h : orPanic x f = .ok b) : ∃ a, x = some a ∧ b = f a := by
  cases x with
  | none => cases h
  | some a => exact ⟨a, rfl, (Except.ok.inj h).symm⟩

end Cluster

open Cluster

variable {n : Nat} {Cmd : Type} {s s' : Cluster n Cmd} {p q : Fin n}

/-- The relation that `Cluster.step` computes, with the laws of the peers' code in
place of the code. -/
inductive Step [Inhabited Cmd] (s : Cluster n Cmd) : Event n Cmd → Cluster n Cmd → Prop
  | persist (p : Fin n) : s.ticker p = .asleep →
      Step s (.persist p) { s with
        ticker := Function.update s.ticker p (.waiting (s.peer p).state)
        saved := Function.update s.saved p (some (s.peer p).persist) }
  | becomeCandidate (p : Fin n) (last : LogEntry Cmd) (rf : Raft Cmd) (args : RequestVoteArgs) :
      (s.peer p).log[(s.peer p).log.length - 1]? = some last →
      args = ⟨(s.peer p).currentTerm + 1, p, (s.peer p).log.length - 1, last.term⟩ →
      rf = { s.peer p with
        state := .candidate, currentTerm := (s.peer p).currentTerm + 1,
        votedFor := some p, votes := 1 } →
      Step s (.becomeCandidate p) (((s.setPeer p rf).setTicker p .asleep).callVotes p args)
  | sendHeartBeats (p : Fin n) (requests : List (Fin n × AppendEntriesArgs Cmd)) :
      (requests = [] ∨ (s.peer p).state = .leader ∧ requests.map Prod.fst = Raft.others p ∧
        ∀ r ∈ requests, (s.peer p).HeartBeat p r.1 r.2) →
      Step s (.sendHeartBeats p) ((s.setTicker p .asleep).callAppends p requests)
  | start (p : Fin n) (command : Cmd) (rf : Raft Cmd) : (s.peer p).Started p command rf →
      Step s (.start p command) (s.setPeer p rf)
  | requestVote (k : Nat) (c : VoteCall n) (rf : Raft Cmd) (reply : RequestVoteReply) :
      s.voteCalls[k]? = some c → c.stage = .sent → (s.peer c.dst).Voted c.args rf reply →
      Step s (.requestVote k) ((s.setPeer c.dst rf).setVoteStage k c (.handled reply))
  | appendEntries (k : Nat) (c : AppendCall n Cmd) (rf : Raft Cmd) (reply : AppendEntriesReply) :
      s.appendCalls[k]? = some c → c.stage = .sent → (s.peer c.dst).Appended c.args rf reply →
      Step s (.appendEntries k) ((s.setPeer c.dst rf).setAppendStage k c (.handled reply))
  | receivedVote (k : Nat) (c : VoteCall n) (reply : RequestVoteReply) :
      s.voteCalls[k]? = some c → c.stage = .handled reply →
      Step s (.receivedVote k) ((s.setTicker c.dst .asleep).setVoteStage k c (.returned reply))
  | heartBeat (k : Nat) (c : AppendCall n Cmd) (reply : AppendEntriesReply) :
      s.appendCalls[k]? = some c → c.stage = .handled reply →
      Step s (.heartBeat k) ((s.setTicker c.dst .asleep).setAppendStage k c (.returned reply))
  | sendRequestVote (k : Nat) (c : VoteCall n) (reply : RequestVoteReply) (rf : Raft Cmd)
      (out : Option (AppendEntriesArgs Cmd)) :
      s.voteCalls[k]? = some c → c.stage = .returned reply → c.orphan = false →
      (s.peer c.src).Counted n reply rf out →
      Step s (.sendRequestVote k)
        (((s.setPeer c.src rf).setVoteStage k c (.received reply)).callAppends c.src
          (broadcast c.src out))
  | sendAppendEntries (k : Nat) (c : AppendCall n Cmd) (reply : AppendEntriesReply)
      (rf : Raft Cmd) :
      s.appendCalls[k]? = some c → c.stage = .returned reply → c.orphan = false →
      (s.peer c.src).Acknowledged n c.dst c.args reply rf →
      Step s (.sendAppendEntries k) ((s.setPeer c.src rf).setAppendStage k c (.received reply))
  | crash (p : Fin n) :
      Step s (.crash p) {
        peer := Function.update s.peer p (Raft.make (s.saved p))
        ticker := Function.update s.ticker p .asleep
        saved := s.saved
        voteCalls := s.voteCalls.map (Call.crash p)
        appendCalls := s.appendCalls.map (Call.crash p) }

theorem step_spec [Inhabited Cmd] {e : Event n Cmd} (h : s.step e = .ok s') : Step s e s' := by
  cases e with
  | persist p =>
    simp only [Cluster.step] at h
    split at h
    · cases h
      exact .persist p ‹_›
    · cases h
  | becomeCandidate p =>
    simp only [Cluster.step] at h
    split at h
    · obtain ⟨⟨rf, args⟩, hr, rfl⟩ := orPanic_eq_ok h
      obtain ⟨last, hlast, hargs, hrf⟩ := Raft.becomeCandidate_spec hr
      exact .becomeCandidate p last rf args hlast hargs hrf
    · cases h
  | sendHeartBeats p =>
    simp only [Cluster.step] at h
    split at h
    · obtain ⟨requests, hr, rfl⟩ := orPanic_eq_ok h
      refine .sendHeartBeats p requests ?_
      rcases Raft.sendHeartBeats_spec hr with hr | hr
      · exact .inl hr.2
      · exact .inr hr
    · cases h
  | start p command =>
    obtain ⟨⟨rf, r⟩, hr, rfl⟩ := orPanic_eq_ok h
    exact .start p command rf (Raft.start_spec hr)
  | requestVote k =>
    simp only [Cluster.step] at h
    split at h
    · split at h
      · obtain ⟨⟨rf, reply⟩, hr, rfl⟩ := orPanic_eq_ok h
        exact .requestVote k _ rf reply ‹_› ‹_› (Raft.requestVote_spec hr)
      · cases h
    · cases h
  | appendEntries k =>
    simp only [Cluster.step] at h
    split at h
    · split at h
      · obtain ⟨⟨rf, reply⟩, hr, rfl⟩ := orPanic_eq_ok h
        exact .appendEntries k _ rf reply ‹_› ‹_› (Raft.appendEntries_spec hr)
      · cases h
    · cases h
  | receivedVote k =>
    simp only [Cluster.step] at h
    split at h
    · split at h
      · split at h
        · cases h
          exact .receivedVote k _ _ ‹_› ‹_›
        · cases h
      · cases h
    · cases h
  | heartBeat k =>
    simp only [Cluster.step] at h
    split at h
    · split at h
      · split at h
        · cases h
          exact .heartBeat k _ _ ‹_› ‹_›
        · cases h
      · cases h
    · cases h
  | sendRequestVote k =>
    simp only [Cluster.step] at h
    split at h
    · split at h
      · split at h
        · cases h
        · rename_i horphan
          cases h
          exact .sendRequestVote k _ _ _ _ ‹_› ‹_› (by simpa using horphan)
            (Raft.sendRequestVote_spec rfl)
      · cases h
    · cases h
  | sendAppendEntries k =>
    simp only [Cluster.step] at h
    split at h
    · split at h
      · split at h
        · cases h
        · rename_i horphan
          obtain ⟨rf, hr, rfl⟩ := orPanic_eq_ok h
          exact .sendAppendEntries k _ _ rf ‹_› ‹_› (by simpa using horphan)
            (Raft.sendAppendEntries_spec hr)
      · cases h
    · cases h
  | crash p =>
    cases h
    exact .crash p

def Event.crashFree : Event n Cmd → Bool
  | .crash _ => false
  | _ => true

inductive PeerStep (s : Cluster n Cmd) (p : Fin n) : Event n Cmd → Raft Cmd → Prop
  | same (e : Event n Cmd) : PeerStep s p e (s.peer p)
  | candidate (rf : Raft Cmd) :
      rf = { s.peer p with
        state := .candidate, currentTerm := (s.peer p).currentTerm + 1,
        votedFor := some p, votes := 1 } → PeerStep s p (.becomeCandidate p) rf
  | started (command : Cmd) (rf : Raft Cmd) : (s.peer p).Started p command rf →
      PeerStep s p (.start p command) rf
  | voted (k : Nat) (c : VoteCall n) (reply : RequestVoteReply) (rf : Raft Cmd) :
      s.voteCalls[k]? = some c → c.dst = p → (s.peer p).Voted c.args rf reply →
      PeerStep s p (.requestVote k) rf
  | counted (k : Nat) (c : VoteCall n) (reply : RequestVoteReply) (rf : Raft Cmd)
      (out : Option (AppendEntriesArgs Cmd)) :
      s.voteCalls[k]? = some c → c.src = p → c.stage = .returned reply →
      (s.peer p).Counted n reply rf out → PeerStep s p (.sendRequestVote k) rf
  | appended (k : Nat) (c : AppendCall n Cmd) (reply : AppendEntriesReply) (rf : Raft Cmd) :
      s.appendCalls[k]? = some c → c.stage = .sent → c.dst = p →
      (s.peer p).Appended c.args rf reply → PeerStep s p (.appendEntries k) rf
  | acknowledged (k : Nat) (c : AppendCall n Cmd) (reply : AppendEntriesReply) (rf : Raft Cmd) :
      s.appendCalls[k]? = some c → c.src = p → c.stage = .returned reply →
      (s.peer p).Acknowledged n c.dst c.args reply rf → PeerStep s p (.sendAppendEntries k) rf

theorem PeerStep.setPeer {e : Event n Cmd} {rf : Raft Cmd} (h : PeerStep s p e rf) (q : Fin n) :
    PeerStep s q e ((s.setPeer p rf).peer q) := by
  by_cases hq : q = p
  · subst hq
    simpa using h
  · rw [setPeer_peer_ne rf hq]
    exact .same e

theorem Step.peerStep [Inhabited Cmd] {e : Event n Cmd} (h : Step s e s') (he : e.crashFree)
    (q : Fin n) : PeerStep s q e (s'.peer q) := by
  cases h with
  | persist | sendHeartBeats | receivedVote | heartBeat => exact .same _
  | becomeCandidate p last rf args hlast hargs hrf =>
    exact (PeerStep.candidate rf hrf).setPeer q
  | start p command rf hrf => exact (PeerStep.started command rf hrf).setPeer q
  | requestVote k c rf reply hk _ hrf =>
    exact (PeerStep.voted k c reply rf hk rfl hrf).setPeer q
  | appendEntries k c rf reply hk hst hrf =>
    exact (PeerStep.appended k c reply rf hk hst rfl hrf).setPeer q
  | sendRequestVote k c reply rf out hk hst _ hrf =>
    exact (PeerStep.counted k c reply rf out hk rfl hst hrf).setPeer q
  | sendAppendEntries k c reply rf hk hst _ hrf =>
    exact (PeerStep.acknowledged k c reply rf hk rfl hst hrf).setPeer q
  | crash => cases he

inductive LogStep (s : Cluster n Cmd) (p : Fin n) (rf : Raft Cmd) : Event n Cmd → Prop
  | same (e : Event n Cmd) : rf.log = (s.peer p).log → LogStep s p rf e
  | started (command : Cmd) : (s.peer p).state = .leader → rf.state = .leader →
      rf.currentTerm = (s.peer p).currentTerm →
      rf.log = (s.peer p).log ++ [⟨(s.peer p).currentTerm, command⟩] →
      LogStep s p rf (.start p command)
  | cut (k : Nat) (c : AppendCall n Cmd) (prev : LogEntry Cmd) : s.appendCalls[k]? = some c →
      c.stage = .sent → c.dst = p → (s.peer p).currentTerm ≤ c.args.term →
      rf.currentTerm = c.args.term → (s.peer p).log[c.args.prevLogIndex]? = some prev →
      c.args.prevLogTerm ≠ prev.term → rf.log = (s.peer p).log.take c.args.prevLogIndex →
      LogStep s p rf (.appendEntries k)
  | spliced (k : Nat) (c : AppendCall n Cmd) (prev : LogEntry Cmd) : s.appendCalls[k]? = some c →
      c.stage = .sent → c.dst = p → (s.peer p).currentTerm ≤ c.args.term →
      rf.currentTerm = c.args.term → (s.peer p).log[c.args.prevLogIndex]? = some prev →
      c.args.prevLogTerm = prev.term →
      rf.log = (s.peer p).log.take (c.args.prevLogIndex + 1) ++ c.args.entries →
      LogStep s p rf (.appendEntries k)

theorem PeerStep.logStep {e : Event n Cmd} {rf : Raft Cmd} (h : PeerStep s p e rf) :
    LogStep s p rf e := by
  cases h with
  | same => exact .same _ rfl
  | candidate rf hrf =>
    subst hrf
    exact .same _ rfl
  | started command rf h =>
    cases h with
    | refused => exact .same _ rfl
    | appended hlead => exact .started command hlead hlead rfl rfl
  | voted _ _ _ _ _ _ h => cases h <;> exact .same _ (by simp)
  | counted _ _ _ _ _ _ _ _ h => cases h <;> exact .same _ rfl
  | appended k c reply rf hk hst hdst h =>
    cases h with
    | stale => exact .same _ rfl
    | short => exact .same _ (by simp)
    | conflict prev hle hprev hne =>
      exact .cut k c prev hk hst hdst hle (Raft.observe_term_of_le hle) hprev hne rfl
    | agree prev rf hle hprev heq hf =>
      exact .spliced k c prev hk hst hdst hle
        (hf.frame.currentTerm.trans (Raft.observe_term_of_le hle)) hprev heq hf.frame.log
  | acknowledged _ _ _ _ _ _ _ h =>
    cases h with
    | ignored | deposed | backedOff => exact .same _ rfl
    | matched _ _ _ _ _ _ hs => exact .same _ hs.frame.log
    | rejected _ _ _ _ hs => exact .same _ hs.frame.log

section Calls

variable {Args Reply : Type} {c c' c'' : Call n Args Reply}

structure Call.Later (c c' : Call n Args Reply) : Prop where
  src : c'.src = c.src
  dst : c'.dst = c.dst
  sentTerm : c'.sentTerm = c.sentTerm
  args : c'.args = c.args
  reply : ∀ r, c.stage.reply = some r → c'.stage.reply = some r
  received : ∀ r, c.stage = .received r → c'.stage = .received r

theorem Call.Later.refl (c : Call n Args Reply) : c.Later c :=
  ⟨rfl, rfl, rfl, rfl, fun _ h => h, fun _ h => h⟩

theorem Call.Later.trans {c c' c'' : Call n Args Reply} (h : c.Later c') (h' : c'.Later c'') :
    c.Later c'' where
  src := h'.src.trans h.src
  dst := h'.dst.trans h.dst
  sentTerm := h'.sentTerm.trans h.sentTerm
  args := h'.args.trans h.args
  reply r hr := h'.reply r (h.reply r hr)
  received r hr := h'.received r (h.received r hr)

theorem Call.later_setStage {st : Stage Reply}
    (hreply : ∀ r, c.stage.reply = some r → st.reply = some r)
    (hrec : ∀ r, c.stage ≠ .received r) : c.Later { c with stage := st } :=
  ⟨rfl, rfl, rfl, rfl, hreply, fun r hr => absurd hr (hrec r)⟩

def Advance (calls calls' : List (Call n Args Reply)) : Prop :=
  ∀ (k : Nat) (c : Call n Args Reply), calls[k]? = some c →
    ∃ c', calls'[k]? = some c' ∧ c.Later c'

variable {calls calls' : List (Call n Args Reply)}

theorem Advance.trans {calls'' : List (Call n Args Reply)} (h : Advance calls calls')
    (h' : Advance calls' calls'') : Advance calls calls'' := by
  intro k c hk
  obtain ⟨c', hc', hl⟩ := h k c hk
  obtain ⟨c'', hc'', hl'⟩ := h' k c' hc'
  exact ⟨c'', hc'', hl.trans hl'⟩

theorem Advance.refl (calls : List (Call n Args Reply)) : Advance calls calls :=
  fun _ c hc => ⟨c, hc, .refl c⟩

theorem advance_append (new : List (Call n Args Reply)) : Advance calls (calls ++ new) := by
  intro k c hc
  obtain ⟨hk, -⟩ := List.getElem?_eq_some_iff.mp hc
  exact ⟨c, by rw [List.getElem?_append_left hk, hc], .refl c⟩

theorem advance_set {k : Nat} (hk : calls[k]? = some c) (hl : c.Later c') :
    Advance calls (calls.set k c') := by
  intro i d hd
  by_cases hi : k = i
  · subst hi
    obtain ⟨hlt, -⟩ := List.getElem?_eq_some_iff.mp hk
    obtain rfl : c = d := Option.some.inj (hk.symm.trans hd)
    exact ⟨c', by simp [hlt], hl⟩
  · exact ⟨d, by simp [List.getElem?_set_ne hi, hd], .refl d⟩

theorem map_set_stage {β : Type} (f : Call n Args Reply → β)
    (hf : ∀ (c : Call n Args Reply) st, f { c with stage := st } = f c) {k : Nat}
    {st : Stage Reply} (hk : calls[k]? = some c) :
    (calls.set k { c with stage := st }).map f = calls.map f := by
  obtain ⟨hlt, rfl⟩ := List.getElem?_eq_some_iff.mp hk
  rw [List.map_set, hf, ← List.getElem_map f (h := by simpa using hlt), List.set_getElem_self]

inductive CallStep (calls : List (Call n Args Reply)) : List (Call n Args Reply) → Prop
  | same : CallStep calls calls
  | issued (new : List (Call n Args Reply)) : (∀ c ∈ new, c.stage = .sent) →
      CallStep calls (calls ++ new)
  | handled (k : Nat) (c : Call n Args Reply) (r : Reply) : calls[k]? = some c →
      c.stage = .sent → CallStep calls (calls.set k { c with stage := .handled r })
  | returned (k : Nat) (c : Call n Args Reply) (r : Reply) : calls[k]? = some c →
      c.stage = .handled r → CallStep calls (calls.set k { c with stage := .returned r })
  | received (k : Nat) (c : Call n Args Reply) (r : Reply) : calls[k]? = some c →
      c.stage = .returned r → CallStep calls (calls.set k { c with stage := .received r })

theorem CallStep.advance (h : CallStep calls calls') : Advance calls calls' := by
  cases h with
  | same => exact .refl _
  | issued new => exact advance_append new
  | handled k c r hk hst | returned k c r hk hst | received k c r hk hst =>
    exact advance_set hk (Call.later_setStage (by simp [hst, Stage.reply]) (by simp [hst]))

def Kept (calls : List (Call n Args Reply)) (k : Nat) (c' : Call n Args Reply) : Prop :=
  ∃ c, calls[k]? = some c ∧ c.Later c' ∧ c'.stage.reply = c.stage.reply

theorem kept_self {k : Nat} (h : calls[k]? = some c) : Kept calls k c :=
  ⟨c, h, .refl c, rfl⟩

theorem kept_of_set {k i : Nat} {st : Stage Reply} (hk : calls[k]? = some c)
    (hst : st.reply = c.stage.reply) (hrec : ∀ r, c.stage ≠ .received r)
    (h : (calls.set k { c with stage := st })[i]? = some c') : Kept calls i c' := by
  rcases Position.of_set h with ⟨rfl, rfl⟩ | ⟨-, h⟩
  · exact ⟨c, hk, Call.later_setStage (by simp [hst]) hrec, hst⟩
  · exact kept_self h

end Calls

variable {e : Event n Cmd}

theorem Step.voteCallStep [Inhabited Cmd] (h : Step s e s') (he : e.crashFree) :
    CallStep s.voteCalls s'.voteCalls := by
  cases h with
  | becomeCandidate => exact .issued _ (by simp)
  | requestVote k c rf reply hk hst => exact .handled k c reply hk hst
  | receivedVote k c reply hk hst => exact .returned k c reply hk hst
  | sendRequestVote k c reply rf out hk hst => exact .received k c reply hk hst
  | persist | sendHeartBeats | start | appendEntries | heartBeat | sendAppendEntries => exact .same
  | crash => cases he

theorem Step.received_vote [Inhabited Cmd] {k : Nat} (h : Step s (.sendRequestVote k) s')
    {c : VoteCall n} {r : RequestVoteReply} (hk : s.voteCalls[k]? = some c)
    (hst : c.stage = .returned r) :
    s'.voteCalls[k]? = some { c with stage := .received r } := by
  cases h with
  | sendRequestVote _ c' r' rf out hk' hst' =>
    obtain rfl : c' = c := Option.some.inj (hk'.symm.trans hk)
    obtain rfl : r' = r := by simpa [hst'] using hst
    obtain ⟨hlt, -⟩ := List.getElem?_eq_some_iff.mp hk
    simp [hlt]

inductive VoteCallFrom (s s' : Cluster n Cmd) (k : Nat) (c' : VoteCall n) : Prop
  | kept : Kept s.voteCalls k c' → VoteCallFrom s s' k c'
  | handled (c : VoteCall n) (r : RequestVoteReply) : s.voteCalls[k]? = some c → c.Later c' →
      c.stage = .sent → c'.stage.reply = some r →
      (s.peer c.dst).Voted c.args (s'.peer c.dst) r → VoteCallFrom s s' k c'
  | issued (last : LogEntry Cmd) : s.voteCalls.length ≤ k →
      (s.peer c'.src).log[(s.peer c'.src).log.length - 1]? = some last →
      c'.dst ≠ c'.src → c'.stage = .sent → c'.sentTerm = c'.args.term →
      c'.args = ⟨(s.peer c'.src).currentTerm + 1, c'.src, (s.peer c'.src).log.length - 1,
        last.term⟩ →
      s'.peer c'.src = { s.peer c'.src with
        state := .candidate, currentTerm := (s.peer c'.src).currentTerm + 1,
        votedFor := some c'.src, votes := 1 } →
      VoteCallFrom s s' k c'

theorem Step.voteCall_cases [Inhabited Cmd] (h : Step s e s') (he : e.crashFree) {k : Nat}
    {c' : VoteCall n} (hc : s'.voteCalls[k]? = some c') : VoteCallFrom s s' k c' := by
  cases h with
  | becomeCandidate p last rf args hlast hargs hrf =>
    rcases Position.of_append hc with hold | ⟨hk, hnew⟩
    · exact .kept (kept_self hold)
    · obtain ⟨q, hq, rfl⟩ := List.mem_map.mp hnew
      exact .issued last hk hlast (Raft.mem_others.mp hq) rfl rfl hargs (by simpa using hrf)
  | requestVote k c rf reply hk hst hrf =>
    rcases Position.of_set hc with ⟨rfl, rfl⟩ | ⟨-, hc⟩
    · exact .handled c reply hk (Call.later_setStage (by simp [hst, Stage.reply]) (by simp [hst]))
        hst rfl (by simpa using hrf)
    · exact .kept (kept_self hc)
  | receivedVote k c reply hk hst =>
    exact .kept (kept_of_set hk (by simp [hst, Stage.reply]) (by simp [hst]) hc)
  | sendRequestVote k c reply rf out hk hst =>
    exact .kept (kept_of_set hk (by simp [hst, Stage.reply]) (by simp [hst]) hc)
  | persist | sendHeartBeats | start | appendEntries | heartBeat | sendAppendEntries =>
    exact .kept (kept_self hc)
  | crash => cases he

theorem Step.appendCallStep [Inhabited Cmd] (h : Step s e s') (he : e.crashFree) :
    CallStep s.appendCalls s'.appendCalls := by
  cases h with
  | sendHeartBeats | sendRequestVote =>
    refine .issued _ fun c hc => ?_
    obtain ⟨r, -, rfl⟩ := List.mem_map.mp hc
    rfl
  | appendEntries k c rf reply hk hst => exact .handled k c reply hk hst
  | heartBeat k c reply hk hst => exact .returned k c reply hk hst
  | sendAppendEntries k c reply rf hk hst => exact .received k c reply hk hst
  | persist | becomeCandidate | start | requestVote | receivedVote => exact .same
  | crash => cases he

theorem Step.received_append [Inhabited Cmd] {k : Nat} (h : Step s (.sendAppendEntries k) s')
    {c : AppendCall n Cmd} {r : AppendEntriesReply} (hk : s.appendCalls[k]? = some c)
    (hst : c.stage = .returned r) :
    s'.appendCalls[k]? = some { c with stage := .received r } := by
  cases h with
  | sendAppendEntries _ c' r' rf hk' hst' =>
    obtain rfl : c' = c := Option.some.inj (hk'.symm.trans hk)
    obtain rfl : r' = r := by simpa [hst'] using hst
    obtain ⟨hlt, -⟩ := List.getElem?_eq_some_iff.mp hk
    simp [hlt]

theorem Step.acknowledges [Inhabited Cmd] {k : Nat} (h : Step s (.appendEntries k) s')
    {c : AppendCall n Cmd} {prev : LogEntry Cmd} (hk : s.appendCalls[k]? = some c)
    (hle : (s.peer c.dst).currentTerm ≤ c.args.term)
    (hprev : (s.peer c.dst).log[c.args.prevLogIndex]? = some prev)
    (hterm : c.args.prevLogTerm = prev.term) :
    s'.appendCalls[k]? = some { c with stage := .handled ⟨c.args.term, true⟩ } := by
  cases h with
  | appendEntries _ c' rf reply hk' _ hrf =>
    obtain rfl : c' = c := Option.some.inj (hk'.symm.trans hk)
    obtain ⟨hlt, -⟩ := List.getElem?_eq_some_iff.mp hk
    cases hrf with
    | stale hlt' => omega
    | short _ hlen =>
      rw [List.getElem?_eq_none hlen] at hprev
      cases hprev
    | conflict prev' _ hprev' hne =>
      rw [hprev'] at hprev
      exact absurd (Option.some.inj hprev ▸ hterm) hne
    | agree => simp [hlt]

inductive AppendCallFrom (s s' : Cluster n Cmd) (k : Nat) (c' : AppendCall n Cmd) : Prop
  | kept : Kept s.appendCalls k c' → AppendCallFrom s s' k c'
  | handled (c : AppendCall n Cmd) (r : AppendEntriesReply) : s.appendCalls[k]? = some c →
      c.Later c' → c.stage = .sent → c'.stage.reply = some r →
      (s.peer c.dst).Appended c.args (s'.peer c.dst) r → AppendCallFrom s s' k c'
  | heartBeat : s.appendCalls.length ≤ k → c'.dst ≠ c'.src → c'.stage = .sent →
      (s.peer c'.src).state = .leader → c'.sentTerm = (s.peer c'.src).currentTerm →
      (s.peer c'.src).HeartBeat c'.src c'.dst c'.args → s'.peer = s.peer →
      AppendCallFrom s s' k c'
  | first : s.appendCalls.length ≤ k → c'.dst ≠ c'.src → c'.stage = .sent →
      (s'.peer c'.src).state = .leader → c'.sentTerm = (s'.peer c'.src).currentTerm →
      c'.args = {} → AppendCallFrom s s' k c'

theorem Step.appendCall_cases [Inhabited Cmd] (h : Step s e s') (he : e.crashFree) {k : Nat}
    {c' : AppendCall n Cmd} (hc : s'.appendCalls[k]? = some c') : AppendCallFrom s s' k c' := by
  cases h with
  | sendHeartBeats p requests hreq =>
    rcases Position.of_append hc with hold | ⟨hk, hnew⟩
    · exact .kept (kept_self hold)
    · obtain ⟨⟨q, args⟩, hr, rfl⟩ := List.mem_map.mp hnew
      rcases hreq with rfl | ⟨hl, hfst, hall⟩
      · cases hr
      · have hq : q ∈ Raft.others p := hfst ▸ List.mem_map_of_mem hr
        exact .heartBeat hk (Raft.mem_others.mp hq) rfl hl rfl (hall _ hr) rfl
  | sendRequestVote k c reply rf out _ _ _ hrf =>
    rcases Position.of_append hc with hold | ⟨hk, hnew⟩
    · exact .kept (kept_self hold)
    · obtain ⟨⟨q, args⟩, hr, rfl⟩ := List.mem_map.mp hnew
      cases hrf with
      | deposed | refused | counted => cases hr
      | elected hterm hg hmaj hcand =>
        obtain ⟨q', hq, heq⟩ := List.mem_map.mp hr
        obtain ⟨rfl, rfl⟩ := Prod.mk.inj heq
        exact .first hk (Raft.mem_others.mp hq) rfl (by simp) rfl rfl
  | appendEntries k c rf reply hk hst hrf =>
    rcases Position.of_set hc with ⟨rfl, rfl⟩ | ⟨-, hc⟩
    · exact .handled c reply hk (Call.later_setStage (by simp [hst, Stage.reply]) (by simp [hst]))
        hst rfl (by simpa using hrf)
    · exact .kept (kept_self hc)
  | heartBeat k c reply hk hst =>
    exact .kept (kept_of_set hk (by simp [hst, Stage.reply]) (by simp [hst]) hc)
  | sendAppendEntries k c reply rf hk hst =>
    exact .kept (kept_of_set hk (by simp [hst, Stage.reply]) (by simp [hst]) hc)
  | persist | becomeCandidate | start | requestVote | receivedVote => exact .kept (kept_self hc)
  | crash => cases he

theorem AppendCallFrom.old {k : Nat} {c' : AppendCall n Cmd} (h : AppendCallFrom s s' k c')
    (hk : k < s.appendCalls.length) : ∃ c, s.appendCalls[k]? = some c ∧ c.Later c' := by
  cases h with
  | kept hold =>
    obtain ⟨c, hc, hl, -⟩ := hold
    exact ⟨c, hc, hl⟩
  | handled c r hc hl => exact ⟨c, hc, hl⟩
  | heartBeat hlen => omega
  | first hlen => omega

theorem AppendCallFrom.new {k : Nat} {c' : AppendCall n Cmd} (h : AppendCallFrom s s' k c')
    (hk : s.appendCalls.length ≤ k) : c'.args = {} ∨
      (s.peer c'.src).state = .leader ∧ c'.sentTerm = (s.peer c'.src).currentTerm ∧
        (s.peer c'.src).HeartBeat c'.src c'.dst c'.args := by
  have absent : s.appendCalls[k]? = none := List.getElem?_eq_none hk
  cases h with
  | kept hold =>
    obtain ⟨c, hc, -⟩ := hold
    simp [absent] at hc
  | handled c r hc => simp [absent] at hc
  | heartBeat _ _ _ hlead hterm hb => exact .inr ⟨hlead, hterm, hb⟩
  | first _ _ _ _ _ hargs => exact .inl hargs

end MrAndRaft
