import MrAndRaft.Raft.Aliasing
import MrAndRaft.Rpc.Refinement

/-! Raft as a program for the simulated network: a Raft object with its goroutines, and how one of
them is a peer of the cluster.  A goroutine of `sendAppendEntries` shares an array with `rf.log`
until `Call` has encoded its request. -/

namespace MrAndRaft.Deployed

open Cluster Aliased

inductive Request (Cmd : Type) where
  | requestVote (args : RequestVoteArgs)
  | appendEntries (args : AppendEntriesArgs Cmd)

inductive Reply where
  | requestVote (reply : RequestVoteReply)
  | appendEntries (reply : AppendEntriesReply)

/-- The capacities that the Go runtime chooses: when `append` needs room for `len` entries and the
slice has the capacity `old`, and when a slice is decoded. -/
structure Runtime where
  grow : Nat → Nat → Nat
  decode : Nat → Nat
  le_grow : ∀ old len, len ≤ grow old len
  le_decode : ∀ len, len ≤ decode len

def Runtime.append (rt : Runtime) (old len : Nat) : Nat :=
  if len ≤ old then old else rt.grow old len

theorem Runtime.le_append (rt : Runtime) (old len : Nat) : len ≤ rt.append old len := by
  unfold append
  split
  · assumption
  · exact rt.le_grow old len

/-- A goroutine of `sendAppendEntries` before `Call` has encoded its arguments; `inLog` while
`args.Entries` is a slice of the array that `rf.log` is in. -/
structure Unsent (n : Nat) (Cmd : Type) where
  server : Fin n
  args : AppendEntriesArgs Cmd
  inLog : Bool := true

/-- A Raft object and its goroutines; `cap` is `cap(rf.log)`. -/
structure Peer (n : Nat) (Cmd : Type) where
  raft : Raft Cmd
  ticker : Ticker
  cap : Nat
  unsent : List (Unsent n Cmd) := []

inductive Act (Cmd : Type) where
  | persist
  | becomeCandidate
  | sendHeartBeats
  | start (command : Cmd)
  | encode (i : Nat)

variable {n : Nat} {Cmd : Type}

namespace Peer

def build (s : Peer n Cmd) (requests : List (Fin n × AppendEntriesArgs Cmd)) : Peer n Cmd :=
  { s with unsent := s.unsent ++ requests.map fun (q, args) => { server := q, args } }

def write (s : Peer n Cmd) (entry : LogEntry Cmd) : Peer n Cmd :=
  { s with unsent := s.unsent.map fun u =>
      if u.inLog then { u with args := u.args.overwrite s.raft.log.length entry } else u }

def move (s : Peer n Cmd) (cap : Nat) : Peer n Cmd :=
  { s with cap, unsent := s.unsent.map fun u => { u with inLog := false } }

def append (rt : Runtime) (s : Peer n Cmd) (entry : LogEntry Cmd) : Peer n Cmd :=
  if s.raft.log.length < s.cap then s.write entry
  else s.move (rt.append s.cap (s.raft.log.length + 1))

end Peer

def act (rt : Runtime) (p : Fin n) (s : Peer n Cmd) :
    Act Cmd → Option (Peer n Cmd × Option (Persistent Cmd) × List (Fin n × Request Cmd))
  | .persist =>
    if s.ticker = .asleep then
      some ({ s with ticker := .waiting s.raft.state }, some s.raft.persist, [])
    else none
  | .becomeCandidate =>
    if s.ticker = .waiting .follower ∨ s.ticker = .waiting .candidate then
      (s.raft.becomeCandidate p).map fun (rf, args) =>
        ({ s with raft := rf, ticker := .asleep }, none, (Raft.others p).map (·, .requestVote args))
    else none
  | .sendHeartBeats =>
    if s.ticker = .waiting .leader then
      (s.raft.sendHeartBeats p).map fun requests =>
        ({ s.build requests with ticker := .asleep }, none, [])
    else none
  | .start command =>
    (s.raft.start p command).map fun (rf, _) =>
      let s := if s.raft.state = .leader then s.append rt ⟨s.raft.currentTerm, command⟩ else s
      ({ s with raft := rf }, none, [])
  | .encode i =>
    s.unsent[i]?.map fun u =>
      ({ s with unsent := s.unsent.eraseIdx i }, none, [(u.server, .appendEntries u.args)])

inductive Acted (rt : Runtime) (p : Fin n) (s : Peer n Cmd) :
    Act Cmd → Peer n Cmd → Option (Persistent Cmd) → List (Fin n × Request Cmd) → Prop
  | persist : s.ticker = .asleep →
      Acted rt p s .persist { s with ticker := .waiting s.raft.state } (some s.raft.persist) []
  | becomeCandidate {rf : Raft Cmd} {args : RequestVoteArgs} :
      s.ticker = .waiting .follower ∨ s.ticker = .waiting .candidate →
      s.raft.becomeCandidate p = some (rf, args) →
      Acted rt p s .becomeCandidate { s with raft := rf, ticker := .asleep } none
        ((Raft.others p).map (·, .requestVote args))
  | sendHeartBeats {requests : List (Fin n × AppendEntriesArgs Cmd)} :
      s.ticker = .waiting .leader → s.raft.sendHeartBeats p = some requests →
      Acted rt p s .sendHeartBeats { s.build requests with ticker := .asleep } none []
  | start {command : Cmd} {rf : Raft Cmd} {out : Int × Nat × Bool} :
      s.raft.start p command = some (rf, out) →
      Acted rt p s (.start command) { (if s.raft.state = .leader then
        s.append rt ⟨s.raft.currentTerm, command⟩ else s) with raft := rf } none []
  | encode {i : Nat} {w : Unsent n Cmd} : s.unsent[i]? = some w →
      Acted rt p s (.encode i) { s with unsent := s.unsent.eraseIdx i } none
        [(w.server, .appendEntries w.args)]

theorem act_spec {rt : Runtime} {p : Fin n} {s st : Peer n Cmd} {a : Act Cmd}
    {d : Option (Persistent Cmd)} {reqs : List (Fin n × Request Cmd)}
    (h : act rt p s a = some (st, d, reqs)) : Acted rt p s a st d reqs := by
  cases a with
  | persist =>
    simp only [act, Option.ite_none_right_eq_some] at h
    obtain ⟨hasleep, h⟩ := h
    cases h
    exact .persist hasleep
  | becomeCandidate =>
    simp only [act, Option.ite_none_right_eq_some] at h
    obtain ⟨hwait, h⟩ := h
    obtain ⟨⟨rf, args⟩, hrf, h⟩ := Option.map_eq_some_iff.mp h
    cases h
    exact .becomeCandidate hwait hrf
  | sendHeartBeats =>
    simp only [act, Option.ite_none_right_eq_some] at h
    obtain ⟨hwait, h⟩ := h
    obtain ⟨requests, hreqs, h⟩ := Option.map_eq_some_iff.mp h
    cases h
    exact .sendHeartBeats hwait hreqs
  | start command =>
    obtain ⟨⟨rf, out⟩, hrf, h⟩ := Option.map_eq_some_iff.mp h
    cases h
    exact .start hrf
  | encode i =>
    obtain ⟨w, hw, h⟩ := Option.map_eq_some_iff.mp h
    cases h
    exact .encode hw

def handle (rt : Runtime) (s : Peer n Cmd) : Request Cmd → Option (Peer n Cmd × Reply)
  | .requestVote args =>
    (s.raft.requestVote args).map fun (rf, reply) => ({ s with raft := rf }, .requestVote reply)
  | .appendEntries args =>
    (s.raft.appendEntries args).map fun (rf, reply) =>
      -- `newLog` is made by two calls of `append`
      let s := if reply.success then
        s.move (rt.append (rt.append 0 (args.prevLogIndex + 1)) rf.log.length) else s
      ({ s with raft := rf }, .appendEntries reply)

/-- The handler hands a value to the ticker and returns. -/
def release (s : Peer n Cmd) : Request Cmd → Option (Peer n Cmd)
  | .requestVote _ => if takesVote s.ticker then some { s with ticker := .asleep } else none
  | .appendEntries _ => if takesHeartBeat s.ticker then some { s with ticker := .asleep } else none

def accept (p : Fin n) (s : Peer n Cmd) (server : Fin n) :
    Request Cmd → Reply → Option (Peer n Cmd × List (Fin n × Request Cmd))
  | .requestVote _, .requestVote reply =>
    let (rf, args) := s.raft.sendRequestVote n reply
    some ({ s.build (broadcast p args) with raft := rf }, [])
  | .appendEntries args, .appendEntries reply =>
    (s.raft.sendAppendEntries n server args reply).map fun rf => ({ s with raft := rf }, [])
  | _, _ => none

def boot [Inhabited Cmd] (rt : Runtime) (saved : Option (Persistent Cmd)) : Peer n Cmd where
  raft := Raft.make saved
  ticker := .asleep
  cap := match saved with
    | none => rt.append 0 1
    | some data => rt.decode data.log.length

def behaviour (rt : Runtime) (n : Nat) (Cmd : Type) [Inhabited Cmd] :
    Remote.Behaviour (Fin n) (Peer n Cmd) (Request Cmd) Reply (Persistent Cmd) (Act Cmd) where
  boot _ := boot rt
  act := act rt
  handle _ := handle rt
  release _ s q _ := release s q
  accept := accept

def wiring (Cmd : Type) : Labrpc.Wiring (Request Cmd) where
  svcMeth
    | .requestVote _ => "Raft.RequestVote".toList
    | .appendEntries _ => "Raft.AppendEntries".toList
  service := "Raft".toList
  methods := [
    ⟨"AppendEntries".toList, true, 3, true, 0⟩,
    ⟨"GetState".toList, true, 1, false, 2⟩,
    ⟨"Kill".toList, true, 1, false, 0⟩,
    ⟨"RequestVote".toList, true, 3, true, 0⟩,
    ⟨"Start".toList, true, 2, false, 3⟩]

theorem dispatch_known (rcvr : Nat) (q : Request Cmd) :
    (Labrpc.makeServer.addService
      (Labrpc.makeService (wiring Cmd).service rcvr (wiring Cmd).methods)).dispatch
        ((wiring Cmd).svcMeth q) = some rcvr := by
  cases q <;> rfl

def stage {Rep : Type} (wrap : Rep → Reply) : Stage Rep → Remote.Stage Reply
  | .sent => .sent
  | .handled r => .handled (wrap r)
  | .returned r => .returned (wrap r)
  | .received r => .received (wrap r)
  | .lost => .lost

theorem eq_sent_of_stage {Rep : Type} {wrap : Rep → Reply} {st : Stage Rep}
    (h : stage wrap st = .sent) : st = .sent := by
  cases st <;> cases h
  rfl

theorem eq_handled_of_stage {Rep : Type} {wrap : Rep → Reply} {st : Stage Rep} {r : Reply}
    (h : stage wrap st = .handled r) : ∃ reply, st = .handled reply ∧ r = wrap reply := by
  cases st <;> cases h
  exact ⟨_, rfl, rfl⟩

theorem eq_returned_of_stage {Rep : Type} {wrap : Rep → Reply} {st : Stage Rep} {r : Reply}
    (h : stage wrap st = .returned r) : ∃ reply, st = .returned reply ∧ r = wrap reply := by
  cases st <;> cases h
  exact ⟨_, rfl, rfl⟩

structure Same {Args Rep : Type} (req : Args → Request Cmd) (wrap : Rep → Reply)
    (a : Remote.Call (Fin n) (Request Cmd) Reply) (c : Call n Args Rep) : Prop where
  src : a.src = c.src
  dst : a.dst = c.dst
  req : a.req = req c.args
  stage : a.stage = stage wrap c.stage
  orphan : a.orphan = c.orphan

section

variable {Args Rep : Type} {req : Args → Request Cmd} {wrap : Rep → Reply}
  {a : Remote.Call (Fin n) (Request Cmd) Reply} {c : Call n Args Rep}

theorem Same.crash (h : Same req wrap a c) (p : Fin n) :
    Same req wrap (a.crash p) (c.crash p) where
  src := h.src
  dst := h.dst
  req := h.req
  stage := by
    simp only [Remote.Call.crash, Call.crash, h.dst, h.stage]
    split
    · cases c.stage <;> rfl
    · rfl
  orphan := by simp [Remote.Call.crash, Call.crash, h.src, h.orphan]

theorem Same.setStage (h : Same req wrap a c) {st : Remote.Stage Reply} {st' : Stage Rep}
    (hst : st = Deployed.stage wrap st') :
    Same req wrap { a with stage := st } { c with stage := st' } :=
  ⟨h.src, h.dst, h.req, hst, h.orphan⟩

end

/-- All calls of one kind, each in its place, which satisfies `ok`. -/
def Calls {Args Rep : Type} (req : Args → Request Cmd) (wrap : Rep → Reply) (ok : Nat → Prop)
    (as : List (Remote.Call (Fin n) (Request Cmd) Reply)) (cs : List (Call n Args Rep)) : Prop :=
  ∃ ι, Correspondence ι (fun _ => Same req wrap) (fun _ a => ∀ args, a.req ≠ req args) as cs ∧
    ∀ k m, k < as.length → ι k = some m → ok m

namespace Calls

variable {Args Rep : Type} {req : Args → Request Cmd} {wrap : Rep → Reply} {ok ok' : Nat → Prop}
  {as : List (Remote.Call (Fin n) (Request Cmd) Reply)} {cs cs' : List (Call n Args Rep)}
  {a : Remote.Call (Fin n) (Request Cmd) Reply} {k : Nat}

theorem empty : Calls req wrap ok ([] : List (Remote.Call (Fin n) (Request Cmd) Reply)) cs :=
  ⟨_, Correspondence.empty _, by simp⟩

theorem imp (h : Calls req wrap ok as cs) (hok : ∀ m < cs.length, ok m → ok' m) :
    Calls req wrap ok' as cs := by
  obtain ⟨ι, h, hι⟩ := h
  refine ⟨ι, h, fun k m hk hm => hok m ?_ (hι k m hk hm)⟩
  obtain ⟨c, hc, -⟩ := h.linked k _ m (List.getElem?_eq_getElem hk) hm
  exact (List.getElem?_eq_some_iff.mp hc).1

theorem right (h : Calls req wrap ok as cs)
    (hcs : ∀ m c, cs[m]? = some c → ok m → cs'[m]? = some c) : Calls req wrap ok as cs' := by
  obtain ⟨ι, h, hι⟩ := h
  refine ⟨ι, h.right fun k m a c hk hm hc hs => ⟨c, hcs m c hc ?_, hs⟩, hι⟩
  exact hι k m (List.getElem?_eq_some_iff.mp hk).1 hm

theorem crash (h : Calls req wrap ok as cs) (p : Fin n) :
    Calls req wrap ok (as.map (Remote.Call.crash p)) (cs.map (Call.crash p)) := by
  obtain ⟨ι, h, hι⟩ := h
  exact ⟨ι, h.map (fun _ _ _ _ hs => hs.crash p) fun _ _ _ hreq => hreq, by simpa using hι⟩

theorem send (h : Calls req wrap (fun _ => True) as cs) (p : Fin n) (sentTerm : Nat)
    (reqs : List (Fin n × Args)) :
    Calls req wrap (fun _ => True)
      (as ++ reqs.map fun (q, args) => { src := p, dst := q, req := req args })
      (cs ++ reqs.map fun (q, args) => { src := p, dst := q, sentTerm, args }) := by
  obtain ⟨ι, h, -⟩ := h
  refine (h.append fun _ => ?_).imp fun _ hι => ⟨hι, by simp⟩
  rw [List.forall₂_map_left_iff, List.forall₂_map_right_iff, List.forall₂_same]
  exact fun _ _ => ⟨rfl, rfl, rfl, rfl, rfl⟩

theorem send_other (h : Calls req wrap ok as cs)
    {new : List (Remote.Call (Fin n) (Request Cmd) Reply)}
    (hnew : ∀ a ∈ new, ∀ args, a.req ≠ req args) : Calls req wrap ok (as ++ new) cs := by
  obtain ⟨ι, h, hι⟩ := h
  obtain ⟨ι', h', hsub⟩ := h.append_left fun _ => hnew
  exact ⟨ι', h', fun k m _ hm => hι k m (hsub k m hm).1 (hsub k m hm).2⟩

theorem link (h : Calls req wrap ok as cs) {m : Nat} {c : Call n Args Rep} (hc : cs[m]? = some c)
    (hm : ¬ ok m) (hs : Same req wrap a c) :
    Calls req wrap (fun m' => ok m' ∨ m' = m) (as ++ [a]) cs := by
  obtain ⟨ι, h, hι⟩ := h
  obtain ⟨ι', h', hsub⟩ := h.link hc (fun k hk hkm => hm (hι k m hk hkm)) fun _ => hs
  exact ⟨ι', h', fun k m' _ hm' => (hsub k m' hm').imp_left fun ⟨hk, hold⟩ => hι k m' hk hold⟩

theorem setStage_other (h : Calls req wrap ok as cs) (hk : as[k]? = some a)
    (hreq : ∀ args, a.req ≠ req args) (st : Remote.Stage Reply) :
    Calls req wrap ok (as.set k { a with stage := st }) cs := by
  obtain ⟨ι, h, hι⟩ := h
  exact ⟨ι, h.set_left hk (fun c hs => absurd hs.req (hreq c.args)) fun _ => hreq, by simpa using hι⟩

theorem setStage (h : Calls req wrap ok as cs) (hk : as[k]? = some a) {args : Args}
    (hreq : a.req = req args) :
    ∃ m c, cs[m]? = some c ∧ Same req wrap a c ∧ ok m ∧ ∀ st st', st = Deployed.stage wrap st' →
      Calls req wrap ok (as.set k { a with stage := st }) (cs.set m { c with stage := st' }) := by
  obtain ⟨ι, h, hι⟩ := h
  cases hm : ι k with
  | none => exact absurd hreq (h.alone k a hk hm args)
  | some m =>
    obtain ⟨c, hc, hs⟩ := h.linked k a m hk hm
    refine ⟨m, c, hc, hs, hι k m (List.getElem?_eq_some_iff.mp hk).1 hm, fun st st' hst => ?_⟩
    exact ⟨ι, h.set hm hc (hs.setStage hst) fun _ _ _ _ h => h, by simpa using hι⟩

end Calls

section Nodes

variable {t : Aliased n Cmd} {u : Cluster n Cmd} {e : Event n Cmd} {b : Nat} {p q : Fin n}
  {st st' : Peer n Cmd} {w : Unsent n Cmd} {k : Nat}

structure Waiting (t : Aliased n Cmd) (p : Fin n) (w : Unsent n Cmd) (k : Nat) : Prop where
  call : ∃ sentTerm, t.calls[k]? = some ⟨p, w.server, sentTerm, w.args, .sent, false⟩
  shares : ∃ a ≤ t.array p, t.shares k = some a ∧ (w.inLog = true ↔ a = t.array p)

theorem Waiting.lt (h : Waiting t p w k) : k < t.calls.length := by
  obtain ⟨_, hc⟩ := h.call
  exact (List.getElem?_eq_some_iff.mp hc).1

theorem Waiting.src_eq (h : Waiting t p w k) {w' : Unsent n Cmd} (h' : Waiting t q w' k) : p = q := by
  obtain ⟨_, hc⟩ := h.call
  obtain ⟨_, hc'⟩ := h'.call
  exact congrArg Call.src (Option.some.inj (hc.symm.trans hc'))

structure Node (t : Aliased n Cmd) (p : Fin n) (st : Peer n Cmd) : Prop where
  raft : st.raft = t.peer p
  ticker : st.ticker = t.cluster.ticker p
  cap : st.cap = t.cap p
  unsent : ∃ ks : List Nat, ks.Nodup ∧ List.Forall₂ (Waiting t p) st.unsent ks

def Leaves (t : Aliased n Cmd) (p : Fin n) (t' : Aliased n Cmd) : Prop :=
  ∀ k c, t.calls[k]? = some c → c.src = p → c.stage = .sent → c.orphan = false →
    (t.shares k).isSome → t'.calls[k]? = some c

theorem Waiting.after (h : Waiting t p w k) (hmoves : t.moves u e ≠ some p)
    (hcalls : Leaves t p (t.after e b u)) : Waiting (t.after e b u) p w k := by
  obtain ⟨⟨sentTerm, hc⟩, a, hle, ha, hin⟩ := h
  have hlt := (List.getElem?_eq_some_iff.mp hc).1
  refine ⟨⟨sentTerm, hcalls k _ hc rfl rfl rfl (by simp [ha])⟩, a, ?_, ?_, ?_⟩
  · rwa [array_after hmoves]
  · rw [shares_after hlt, ha]
  · rwa [array_after hmoves]

theorem Node.after (h : Node t p st) (hmoves : t.moves u e ≠ some p)
    (hcalls : Leaves t p (t.after e b u)) (hraft : st'.raft = u.peer p)
    (hticker : st'.ticker = u.ticker p) (hcap : st'.cap = st.cap) (hunsent : st'.unsent = st.unsent) :
    Node (t.after e b u) p st' where
  raft := hraft
  ticker := hticker
  cap := by rw [hcap, h.cap, cap_after hmoves]
  unsent := by
    obtain ⟨ks, hnodup, hall⟩ := h.unsent
    rw [hunsent]
    exact ⟨ks, hnodup, hall.imp fun _ _ hw => hw.after hmoves hcalls⟩

theorem Node.move (h : Node t p st) (hmoves : t.moves u e = some p)
    (hcalls : Leaves t p (t.after e b u)) (hb : (u.peer p).log.length ≤ b) :
    Node (t.after e b u) p { st.move b with raft := u.peer p, ticker := u.ticker p } where
  raft := rfl
  ticker := rfl
  cap := by simp [Aliased.after, hmoves, Peer.move, Nat.max_eq_left hb]
  unsent := by
    obtain ⟨ks, hnodup, hall⟩ := h.unsent
    refine ⟨ks, hnodup, List.forall₂_map_left_iff.mpr (hall.imp fun w k hw => ?_)⟩
    obtain ⟨⟨sentTerm, hc⟩, a, hle, ha, -⟩ := hw
    have hlt := (List.getElem?_eq_some_iff.mp hc).1
    have harray : (t.after e b u).array p = t.array p + 1 := by simp [Aliased.after, hmoves]
    refine ⟨⟨sentTerm, hcalls k _ hc rfl rfl rfl (by simp [ha])⟩, a, ?_, ?_, ?_⟩
    · omega
    · rw [shares_after hlt, ha]
    · simp only [Bool.false_eq_true, false_iff]
      omega

theorem Node.build (h : Node t p st) (hmoves : t.moves u e ≠ some p) (hin : t.inPlace e = none)
    {requests : List (Fin n × AppendEntriesArgs Cmd)} {sentTerm : Nat}
    (hnew : u.appendCalls = t.calls ++ requests.map fun (q, args) =>
      { src := p, dst := q, sentTerm, args }) :
    Node (t.after e b u) p { st.build requests with raft := u.peer p, ticker := u.ticker p } where
  raft := rfl
  ticker := rfl
  cap := h.cap.trans (cap_after hmoves).symm
  unsent := by
    obtain ⟨ks, hnodup, hall⟩ := h.unsent
    have hcalls := (calls_after (b := b) hin).trans hnew
    have hleaves : Leaves t p (t.after e b u) := by
      intro k c hc _ _ _ _
      rw [hcalls, List.getElem?_append_left (List.getElem?_eq_some_iff.mp hc).1, hc]
    have hlt : ∀ k ∈ ks, k < t.calls.length := fun k hk => by
      obtain ⟨i, hi⟩ := List.mem_iff_getElem?.mp hk
      obtain ⟨w, -, hw⟩ := Correspondence.exists_of_forall₂ hall.flip hi
      exact hw.lt
    refine ⟨ks ++ List.range' t.calls.length requests.length, ?_, ?_⟩
    · refine List.nodup_append.mpr ⟨hnodup, List.nodup_range', fun k hk k' hk' heq => ?_⟩
      have := hlt k hk
      have := (List.mem_range'_1.mp hk').1
      omega
    · refine List.rel_append (hall.imp fun _ _ hw => hw.after hmoves hleaves) ?_
      refine List.forall₂_iff_get.mpr ⟨by simp, fun i hi hi' => ?_⟩
      have hi : i < requests.length := by simpa using hi
      have hget : u.appendCalls[t.calls.length + i]? =
          some ⟨p, requests[i].1, sentTerm, requests[i].2, .sent, false⟩ := by
        rw [hnew, List.getElem?_append_right (by omega)]
        simp [hi]
      refine ⟨⟨sentTerm, ?_⟩, t.array p, ?_, ?_, ?_⟩
      · simpa [calls_after hin] using hget
      · rw [array_after hmoves]
      · simp [Aliased.after, hget]
      · simp [array_after hmoves]

theorem leaves_of (hin : t.inPlace e = none) (hcs : ∀ k c, t.calls[k]? = some c →
    (t.shares k).isSome → u.appendCalls[k]? = some c) : Leaves t p (t.after e b u) := by
  intro k c hc _ _ _ hk
  rw [calls_after hin]
  exact hcs k c hc hk

theorem Node.write (h : Node t p st) {entry : LogEntry Cmd} (hin : t.inPlace e = some (p, entry))
    (hmoves : t.moves u e ≠ some p) (hcs : u.appendCalls = t.calls) :
    Node (t.after e b u) p { st.write entry with raft := u.peer p, ticker := u.ticker p } where
  raft := rfl
  ticker := rfl
  cap := h.cap.trans (cap_after hmoves).symm
  unsent := by
    obtain ⟨ks, hnodup, hall⟩ := h.unsent
    refine ⟨ks, hnodup, List.forall₂_map_left_iff.mpr (hall.imp fun w k hw => ?_)⟩
    obtain ⟨⟨sentTerm, hc⟩, a, hle, ha, hlog⟩ := hw
    have hlt := (List.getElem?_eq_some_iff.mp hc).1
    have hshared : t.Shared p k ⟨p, w.server, sentTerm, w.args, .sent, false⟩ ↔ w.inLog = true := by
      simp [Shared, ha, hlog]
    refine ⟨⟨sentTerm, ?_⟩, a, ?_, ?_, ?_⟩
    · simp only [Aliased.after, calls, written, hin, List.getElem?_mapIdx, hcs]
      rw [show t.cluster.appendCalls[k]? = _ from hc, Option.map_some, h.raft]
      by_cases hw : w.inLog = true
      · simp [hshared.mpr hw, hw]
      · simp [mt hshared.mp hw, hw]
    · rwa [array_after hmoves]
    · rw [shares_after hlt, ha]
    · rw [array_after hmoves]
      split <;> exact hlog

end Nodes

end MrAndRaft.Deployed
